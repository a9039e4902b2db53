import Retrace.Callbacks
import Retrace.CoordinateJumps
import Mathlib.Data.Int.Order.Basic
import Mathlib.Data.List.Lex
import Mathlib.Data.List.Nodup

/-! The order of a space's coordinates along a run: they only grow while a frame of the space
stays active. -/

set_option autoImplicit false

namespace Retrace

/-- The coordinate before it is cut off at zero. -/
def position (frame : InterpreterFrame) : Int := frame.coordinateBias + frame.lasti

structure WellPlaced (frame : InterpreterFrame) : Prop where
  lasti : -1 ≤ frame.lasti
  bounded : -1 ≤ position frame
  started : 0 ≤ frame.lasti → 0 ≤ position frame

/-- An instruction falls through to a later one, or makes one jump from where it is. -/
def Moves (frame : InterpreterFrame) (jumps : List (Int × Int)) (offset : Nat) : Prop :=
  (jumps = [] ∧ frame.lasti < offset) ∨ jumps = [(frame.lasti, (offset : Int))]

instance (frame : InterpreterFrame) (jumps : List (Int × Int)) (offset : Nat) :
    Decidable (Moves frame jumps offset) :=
  inferInstanceAs (Decidable ((jumps = [] ∧ frame.lasti < offset) ∨
    jumps = [(frame.lasti, (offset : Int))]))

def rises (frame : InterpreterFrame) (jumps : List (Int × Int)) (offset : Nat) : Bool :=
  position frame < position (moveFrame frame jumps offset)

/-- An instruction falls through to a later one, or all its jumps are from where it is. -/
def fromItself (frame : InterpreterFrame) (jumps : List (Int × Int)) (offset : Nat) : Bool :=
  match jumps.getLast? with
  | none => frame.lasti < offset
  | some last => last.2 = offset && jumps.all (fun jump => jump.1 = frame.lasti && 0 ≤ jump.2)

def topComplete (m : Machine) : Bool :=
  match m.tstate.stack with
  | .frame f :: _ => !isIncomplete (m.frames f)
  | _ => true

/-- Only complete frames call, and instructions move as told. -/
def stepMoves (moves : InterpreterFrame → List (Int × Int) → Nat → Bool) (m : Machine) :
    ThreadEvent → Bool
  | .begin jumps offset =>
    match m.tstate.stack with
    | .frame f :: _ => moves (m.frames f) jumps offset
    | _ => true
  | event => !event.pushes || topComplete m

/-- The ordinals of the active frames are far from wrapping around. -/
def countersFit (m : Machine) : Bool :=
  m.chain.all (fun f => (m.frames f).currentCallOrdinal < 2 ^ 63)

def runMoves (p : Platform) (moves : InterpreterFrame → List (Int × Int) → Nat → Bool) :
    List ThreadEvent → Machine → Bool
  | [], _ => true
  | event :: events, m => stepMoves moves m event && countersFit m &&
      match threadStep p m event with
      | none => true
      | some m' => runMoves p moves events m'

def orderly (p : Platform) : List ThreadEvent → Machine → Bool :=
  runMoves p (fun frame jumps offset => decide (Moves frame jumps offset))

/-- The positions and ordinals of a space's frames, oldest first, complete or not. -/
def slotWords (m : Machine) (space : SpacePtr) : List Nat → List Int
  | [] => []
  | f :: rest => slotWords m space rest ++
      if (m.frames f).space = some space then
        [position (m.frames f), ((m.frames f).currentCallOrdinal : Int)]
      else []

section placement
variable {frame : InterpreterFrame} {jumps : List (Int × Int)} {offset : Nat}

/-- Jumps from one instruction bring it ahead exactly if those before the last one go, all together,
less far than there are jumps. -/
theorem rises_jumpsFrom (frame : InterpreterFrame) (targets : List Nat) (last : Nat) :
    rises frame (jumpsFrom frame.lasti (targets ++ [last])) last = true ↔
      totalDistance frame.lasti targets < targets.length + 1 := by
  have hbias := jumpsFrom_bias frame frame.lasti (targets ++ [last]) last
  rw [totalDistance_concat, List.length_append, List.length_singleton] at hbias
  have hlasti : (moveFrame frame (jumpsFrom frame.lasti (targets ++ [last])) last).lasti = last :=
    rfl
  unfold rises position
  rw [decide_eq_true_iff, hbias, hlasti]
  push_cast
  omega

theorem Moves.rise (h : Moves frame jumps offset) : rises frame jumps offset = true := by
  obtain ⟨rfl, hlt⟩ | rfl := h
  · unfold rises position moveFrame
    rw [decide_eq_true_iff, List.foldl_nil]
    dsimp only
    omega
  · exact (rises_jumpsFrom frame [] offset).mpr Int.zero_lt_one

theorem begunFrame_position (frame : InterpreterFrame) :
    position (Machine.begunFrame frame) = position frame ∧
      (Machine.begunFrame frame).lasti = frame.lasti := by
  unfold Machine.begunFrame
  split <;> exact ⟨rfl, rfl⟩

theorem WellPlaced.congr {frame' : InterpreterFrame} (h : WellPlaced frame)
    (hlasti : frame'.lasti = frame.lasti) (hbias : frame'.coordinateBias = frame.coordinateBias) :
    WellPlaced frame' := by
  have hposition : position frame' = position frame := by
    unfold position
    rw [hlasti, hbias]
  exact ⟨hlasti ▸ h.lasti, hposition ▸ h.bounded, hlasti ▸ hposition ▸ h.started⟩

theorem WellPlaced.move (h : WellPlaced frame) (hrises : rises frame jumps offset = true) :
    WellPlaced (Machine.begunFrame (moveFrame frame jumps offset)) := by
  obtain ⟨hposition, hlasti⟩ := begunFrame_position (moveFrame frame jumps offset)
  have hlt := of_decide_eq_true hrises
  have hoffset : (moveFrame frame jumps offset).lasti = offset := rfl
  have hstart := h.bounded
  refine ⟨by omega, by omega, fun _ => by omega⟩

theorem newFrame_wellPlaced {lasti : Int} (firstTraceable : Nat) (h : -1 ≤ lasti) :
    WellPlaced (newFrame lasti firstTraceable) := by
  have hposition : position (newFrame lasti firstTraceable) = lasti := by
    simp [position, newFrame]
  refine ⟨h, ?_, ?_⟩
  · rw [hposition]
    exact h
  · intro hstarted
    rw [hposition]
    exact hstarted

end placement

section words
variable {m m' : Machine} {space : SpacePtr}

theorem slotWords_cons (f : Nat) (rest : List Nat) :
    slotWords m space (f :: rest) = slotWords m space rest ++
      if (m.frames f).space = some space then
        [position (m.frames f), ((m.frames f).currentCallOrdinal : Int)]
      else [] := rfl

theorem slotWords_congr (chain : List Nat)
    (h : ∀ f ∈ chain, (m'.frames f).space = (m.frames f).space ∧
      ((m.frames f).space = some space → position (m'.frames f) = position (m.frames f) ∧
        (m'.frames f).currentCallOrdinal = (m.frames f).currentCallOrdinal)) :
    slotWords m' space chain = slotWords m space chain := by
  induction chain with
  | nil => rfl
  | cons f rest ih =>
    obtain ⟨hspace, hsame⟩ := h f List.mem_cons_self
    rw [slotWords_cons, slotWords_cons, ih (fun g hg => h g (List.mem_cons_of_mem _ hg)), hspace]
    split
    · rename_i hin
      rw [(hsame hin).1, (hsame hin).2]
    · rfl

theorem slotWords_lt {g : Nat} {chain : List Nat} (hg : g ∈ chain) (hnodup : chain.Nodup)
    (hspace : (m.frames g).space = some space) (hspace' : (m'.frames g).space = some space)
    (hposition : position (m'.frames g) = position (m.frames g))
    (hordinal : (m.frames g).currentCallOrdinal < (m'.frames g).currentCallOrdinal)
    (hother : ∀ f ∈ chain, f ≠ g → m'.frames f = m.frames f) (tail tail' : List Int) :
    slotWords m space chain ++ tail < slotWords m' space chain ++ tail' := by
  induction chain generalizing tail tail' with
  | nil => cases hg
  | cons f rest ih =>
    rw [List.nodup_cons] at hnodup
    rw [slotWords_cons, slotWords_cons, List.append_assoc, List.append_assoc]
    by_cases hfg : f = g
    · subst hfg
      have hrest : slotWords m' space rest = slotWords m space rest := by
        apply slotWords_congr
        intro h hmem
        have hne : h ≠ f := fun heq => hnodup.1 (heq ▸ hmem)
        rw [hother h (List.mem_cons_of_mem _ hmem) hne]
        exact ⟨rfl, fun _ => ⟨rfl, rfl⟩⟩
      rw [hrest, if_pos hspace, if_pos hspace', hposition]
      apply List.append_left_lt
      simp only [List.cons_append, List.nil_append, List.cons_lt_cons_iff]
      exact Or.inr ⟨trivial, Or.inl (Int.ofNat_lt.mpr hordinal)⟩
    · exact ih ((List.mem_cons.mp hg).resolve_left (fun heq => hfg heq.symm)) hnodup.2
        (fun h hmem => hother h (List.mem_cons_of_mem _ hmem)) _ _

theorem slotWords_eq_frameWords {chain : List Nat} (hplaced : ∀ f, WellPlaced (m.frames f))
    (hcomplete : ∀ f ∈ chain, isIncomplete (m.frames f) = false) :
    slotWords m space chain = (frameWords m space chain).map (fun word : Nat => (word : Int)) := by
  induction chain with
  | nil => rfl
  | cons f rest ih =>
    rw [slotWords_cons, frameWords_cons, List.map_append,
      ih (fun g hg => hcomplete g (List.mem_cons_of_mem _ hg))]
    have hf := hcomplete f List.mem_cons_self
    have hvisible : m.visibleIn space f = decide ((m.frames f).space = some space) := by
      unfold Machine.visibleIn frameIsVisible
      rw [hf]
      by_cases hspace : (m.frames f).space = some space
      · simp [hspace]
      · simp [hspace]
    have hposition : (frameCoordinate (m.frames f) : Int) = position (m.frames f) := by
      have hstarted : 0 ≤ (m.frames f).lasti := by
        unfold isIncomplete at hf
        simp only [decide_eq_false_iff_not] at hf
        omega
      have hpos := (hplaced f).started hstarted
      unfold frameCoordinate
      unfold position at hpos ⊢
      omega
    rw [hvisible]
    by_cases hspace : (m.frames f).space = some space
    · simp [hspace, hposition]
    · simp [hspace]

end words

/-- What a step that keeps coordinates rising promises of the frame on top. -/
structure RisingStep (m : Machine) (event : ThreadEvent) : Prop where
  complete : event.pushes = true → ∀ f rest, m.tstate.stack = .frame f :: rest →
    isIncomplete (m.frames f) = false
  rise : ∀ jumps offset f rest, event = .begin jumps offset → m.tstate.stack = .frame f :: rest →
    rises (m.frames f) jumps offset = true

def CountersFit (m : Machine) : Prop :=
  ∀ f, .frame f ∈ m.tstate.stack → (m.frames f).currentCallOrdinal < 2 ^ 63

section moves
variable {p : Platform} {moves moves' : InterpreterFrame → List (Int × Int) → Nat → Bool}
  {m : Machine} {event : ThreadEvent} {events : List ThreadEvent}

theorem stepMoves_rising (h : stepMoves rises m event = true) : RisingStep m event := by
  refine ⟨?_, ?_⟩
  · intro hpush f rest htop
    have hcomplete : topComplete m = true := by
      cases event <;> simp_all [stepMoves, ThreadEvent.pushes]
    unfold topComplete at hcomplete
    rw [htop] at hcomplete
    simpa using hcomplete
  · intro jumps offset f rest hevent htop
    subst hevent
    unfold stepMoves at h
    simp only [htop] at h
    exact h

theorem runMoves_cons (h : runMoves p rises (event :: events) m = true) :
    RisingStep m event ∧ CountersFit m ∧
      ∀ m', threadStep p m event = some m' → runMoves p rises events m' = true := by
  unfold runMoves at h
  rw [Bool.and_eq_true, Bool.and_eq_true] at h
  obtain ⟨⟨hstep, hfit⟩, hnext⟩ := h
  refine ⟨stepMoves_rising hstep, ?_, ?_⟩
  · intro f hf
    unfold countersFit at hfit
    rw [List.all_eq_true] at hfit
    simpa using hfit f (mem_frameChain.mpr hf)
  · intro m' hm'
    rw [hm'] at hnext
    exact hnext

theorem stepMoves_mono (hmoves : ∀ frame jumps offset, moves frame jumps offset = true →
    moves' frame jumps offset = true) (h : stepMoves moves m event = true) :
    stepMoves moves' m event = true := by
  cases event with
  | begin jumps offset =>
    unfold stepMoves at h ⊢
    dsimp only at h ⊢
    split at h
    · exact hmoves _ _ _ h
    · rfl
  | _ => exact h

theorem runMoves_mono (hmoves : ∀ frame jumps offset, moves frame jumps offset = true →
    moves' frame jumps offset = true) (h : runMoves p moves events m = true) :
    runMoves p moves' events m = true := by
  induction events generalizing m with
  | nil => rfl
  | cons event events ih =>
    unfold runMoves at h ⊢
    rw [Bool.and_eq_true, Bool.and_eq_true] at h ⊢
    obtain ⟨⟨hstep, hfit⟩, hnext⟩ := h
    refine ⟨⟨stepMoves_mono hmoves hstep, hfit⟩, ?_⟩
    cases hm : threadStep p m event with
    | none => rfl
    | some m' =>
      rw [hm] at hnext
      exact ih hnext

theorem orderly_rises (h : orderly p events m = true) : runMoves p rises events m = true :=
  runMoves_mono (fun _ _ _ hmoves => (of_decide_eq_true hmoves).rise) h

end moves

structure Ordered (m : Machine) : Prop where
  placed : ∀ f, WellPlaced (m.frames f)
  complete : ∀ item rest, m.tstate.stack = item :: rest → ∀ f, .frame f ∈ rest →
    isIncomplete (m.frames f) = false
  seen : ∀ f n, (m.frames f).space = some (m.spacePtr n) → (m.tstate.space n).seen = true
  slots : ∀ upper r lower, m.tstate.stack = upper ++ .frame r :: lower →
    (∀ j, .callback j ∉ lower) → ∀ k ∈ scopeIds upper,
    (m.frames r).space = some (m.spacePtr (m.scopes k).space) →
    (m.scopes k).useLocalRoot = false

section ordered
variable {p : Platform} {m m' : Machine} {base : Context} {event : ThreadEvent}

/-- Where a step leaves a frame: where it was, at a new start, or moved by its instruction. -/
theorem Effect.placement (h : Effect m event m') (f : Nat) :
    ((m'.frames f).lasti = (m.frames f).lasti ∧
      (m'.frames f).firstTraceable = (m.frames f).firstTraceable ∧
      (m'.frames f).coordinateBias = (m.frames f).coordinateBias) ∨
    (.frame f ∉ m.tstate.stack ∧ ∃ lasti firstTraceable, -1 ≤ lasti ∧
      (m'.frames f).lasti = (newFrame lasti firstTraceable).lasti ∧
      (m'.frames f).coordinateBias = (newFrame lasti firstTraceable).coordinateBias) ∨
    ∃ jumps offset rest, event = .begin jumps offset ∧ m.tstate.stack = .frame f :: rest ∧
      m'.frames f = Machine.begunFrame (moveFrame (m.frames f) jumps offset) := by
  cases h with
  | call off limit =>
    rw [pushFrame_frames]
    split
    · rename_i heq
      subst heq
      exact Or.inr (Or.inl ⟨off, -1, 0, Int.le_refl _, rfl, rfl⟩)
    · exact Or.inl ⟨rfl, rfl, rfl⟩
  | resume off limit =>
    rw [pushFrame_frames]
    split
    · rename_i heq
      subst heq
      left
      unfold Machine.activatedFrame
      dsimp only
      split <;> exact ⟨rfl, rfl, rfl⟩
    · exact Or.inl ⟨rfl, rfl, rfl⟩
  | newGenerator off =>
    rename_i g lasti
    rw [setFrame_frames]
    split
    · rename_i heq
      subst heq
      exact Or.inr (Or.inl ⟨off, lasti, 0, by omega, rfl, rfl⟩)
    · exact Or.inl ⟨rfl, rfl, rfl⟩
  | begin top =>
    rw [setFrame_frames]
    split
    · rename_i heq
      subst heq
      exact Or.inr (Or.inr ⟨_, _, _, rfl, top, rfl⟩)
    · exact Or.inl ⟨rfl, rfl, rfl⟩
  | leave top current space node_eq previous ne =>
    left
    rw [popFrame_frames _ _ _ _ _ ne]
    split
    · rename_i heq
      rw [heq]
      exact ⟨rfl, rfl, rfl⟩
    · split <;> exact ⟨rfl, rfl, rfl⟩
  | leaveInactive => exact Or.inl ⟨rfl, rfl, rfl⟩
  | enterFails unused => exact Or.inl ⟨rfl, rfl, rfl⟩
  | enterSpace unused enters =>
    left
    rw [enters.frames]
    exact ⟨rfl, rfl, rfl⟩
  | leaveSpace top =>
    left
    rw [congrFun (leaveSpace_stack_frames m _ _) f]
    exact ⟨rfl, rfl, rfl⟩
  | callbackFails unused idle => exact Or.inl ⟨rfl, rfl, rfl⟩
  | callbackBegin top unused idle enters =>
    left
    rw [enters.frames]
    exact ⟨rfl, rfl, rfl⟩
  | callbackEnd top =>
    rename_i k rest
    left
    have hframe := congrFun (leaveSpace_stack_frames m k rest) f
    exact ⟨congrArg _ hframe, congrArg _ hframe, congrArg _ hframe⟩
  | threadDelta =>
    left
    rename_i spaceId allocates tupleAllocates
    obtain heq | ⟨node, -, heq⟩ := threadDelta_cases m spaceId allocates tupleAllocates
    · rw [heq]
      exact ⟨rfl, rfl, rfl⟩
    · rw [heq, rememberDelta_frames]
      split <;> exact ⟨rfl, rfl, rfl⟩

theorem Effect.placed (h : Effect m event m') (hrising : RisingStep m event)
    (hplaced : ∀ f, WellPlaced (m.frames f)) (f : Nat) : WellPlaced (m'.frames f) := by
  obtain ⟨hlasti, -, hbias⟩ | ⟨-, lasti, first, hle, hlasti, hbias⟩ |
    ⟨jumps, offset, rest, hevent, htop, hframe⟩ := h.placement f
  · exact (hplaced f).congr hlasti hbias
  · exact (newFrame_wellPlaced first hle).congr hlasti hbias
  · rw [hframe]
    exact (hplaced f).move (hrising.rise jumps offset f rest hevent htop)

theorem Effect.complete (h : Effect m event m') (hcontext : ContextOk m m.context)
    (hnodup : m.tstate.stack.Nodup) (htops : event.pushes = true → ∀ f rest,
      m.tstate.stack = .frame f :: rest → isIncomplete (m.frames f) = false)
    (hcomplete : ∀ item rest, m.tstate.stack = item :: rest → ∀ f, .frame f ∈ rest →
      isIncomplete (m.frames f) = false)
    {item : StackItem} {rest : List StackItem} (hstack' : m'.tstate.stack = item :: rest) {f : Nat}
    (hf : .frame f ∈ rest) : isIncomplete (m'.frames f) = false := by
  -- below the top of the new stack stands a frame that was complete and has not moved
  have hsame : .frame f ∈ m.tstate.stack → (∀ rest', m.tstate.stack = .frame f :: rest' →
      ∀ jumps offset, event ≠ .begin jumps offset) →
      isIncomplete (m'.frames f) = isIncomplete (m.frames f) := by
    intro hon hmoved
    unfold isIncomplete
    obtain ⟨hlasti, hfirst, -⟩ | ⟨hoff, -⟩ | ⟨jumps, offset, rest', hevent, htop, -⟩ :=
      h.placement f
    · rw [hlasti, hfirst]
    · exact absurd hon hoff
    · exact absurd hevent (hmoved rest' htop jumps offset)
  have hlower : ∀ top tail, m.tstate.stack = top :: tail → .frame f ∈ tail →
      isIncomplete (m'.frames f) = false := by
    intro top tail htop hmem
    rw [hsame (htop ▸ List.mem_cons_of_mem _ hmem), hcomplete top tail htop f hmem]
    intro rest' htop'
    rw [htop, List.cons.injEq] at htop'
    rw [htop, List.nodup_cons, htop'.1] at hnodup
    exact absurd hmem hnodup.1
  obtain ⟨kept, -, ⟨hm, hm'⟩ | ⟨top, hm, hm'⟩ | ⟨top, hm, hm', hpush, -⟩⟩ :=
    h.kept hcontext hnodup
  · rw [hm'] at hstack'
    exact hlower item rest (hm.trans hstack') hf
  · rw [hm'] at hstack'
    rw [hstack'] at hm
    exact hlower top (item :: rest) hm (List.mem_cons_of_mem _ hf)
  · rw [hm', List.cons.injEq] at hstack'
    rw [hstack'.2] at hm
    have htopComplete := htops hpush
    cases rest with
    | nil => cases hf
    | cons first tail =>
      rw [List.mem_cons] at hf
      obtain heq | hf := hf
      · rw [← heq] at hm
        rw [hsame (hm ▸ List.mem_cons_self), htopComplete f tail hm]
        intro rest' _ jumps offset hevent
        rw [hevent] at hpush
        cases hpush
      · exact hlower first tail hm hf

theorem Segment.space_lt (h : Segment [] base m) {f n : Nat}
    (hspace : (m.frames f).space = some (m.spacePtr n)) : n < m.tstate.spaces.length := by
  have hon := (h.active f).mp (by rw [hspace]; simp)
  obtain ⟨node, hlt, hnode⟩ := h.frame_space hon
  rw [hspace] at hnode
  simp only [Machine.spacePtr, Option.some.injEq, SpacePtr.mk.injEq, true_and] at hnode
  exact hnode ▸ hlt

theorem EntersSpace.seen {k spaceId node f n : Nat} {t : ThreadState} {scope : SpaceScope}
    {ptr : OrdinalPtr} {item : StackItem} (h : EntersSpace m k spaceId m' node t scope ptr)
    (hseg : Segment [] base m)
    (hseen : ∀ f n, (m.frames f).space = some (m.spacePtr n) → (m.tstate.space n).seen = true)
    (hspace : ((m'.push item).frames f).space = some ((m'.push item).spacePtr n)) :
    ((m'.push item).tstate.space n).seen = true := by
  have hsame := h.grown.same
  have haddress : m'.tstate.address = m.tstate.address := by
    rw [h.result, hsame]
  have hold : (m.frames f).space = some (m.spacePtr n) := by
    rw [h.frames] at hspace
    rw [hspace]
    unfold Machine.spacePtr
    exact congrArg (fun address => some (SpacePtr.mk address n)) haddress
  rw [h.result]
  change (t.space n).seen = true
  rw [h.grown.space n (hseg.space_lt hold)]
  exact hseen f n hold

theorem Effect.seen (hseg : Segment [] base m) (h : Effect m event m')
    (hseen : ∀ f n, (m.frames f).space = some (m.spacePtr n) → (m.tstate.space n).seen = true)
    (f n : Nat) (hspace : (m'.frames f).space = some (m'.spacePtr n)) :
    (m'.tstate.space n).seen = true := by
  have hpush : ∀ g frame, ((m.pushFrame g frame).frames f).space = some (m.spacePtr n) →
      ((m.pushFrame g frame).tstate.space n).seen = true := by
    intro g frame hpushed
    rw [pushFrame_frames] at hpushed
    by_cases hfg : f = g
    · rw [if_pos hfg] at hpushed
      have hn : n = m.tstate.currentSpace := by
        simpa [Machine.activatedFrame, Machine.spacePtr, eq_comm] using hpushed
      rw [pushFrame_space m g frame (hn ▸ hseg.contextOk.space), if_pos hn]
    · rw [if_neg hfg] at hpushed
      rw [pushFrame_space m g frame (hseg.space_lt hpushed)]
      split
      · rfl
      · exact hseen f n hpushed
  cases h with
  | call off limit => exact hpush _ _ hspace
  | resume off limit => exact hpush _ _ hspace
  | newGenerator off =>
    rw [setFrame_frames] at hspace
    split at hspace
    · cases hspace
    · exact hseen f n hspace
  | begin top =>
    rw [setFrame_frames] at hspace
    split at hspace
    · rename_i heq
      rw [(begunFrame_saved _ _ _).1, ← heq] at hspace
      exact hseen f n hspace
    · exact hseen f n hspace
  | leave top current space node_eq previous ne =>
    rw [popFrame_frames _ _ _ _ _ ne] at hspace
    split at hspace
    · cases hspace
    · have hold : (m.frames f).space = some (m.spacePtr n) := by
        unfold Machine.spacePtr at hspace ⊢
        rw [popFrame_address] at hspace
        rw [← hspace]
        split <;> rfl
      rw [popFrame_space _ _ _ _ _ (hseg.space_lt hold)]
      exact hseen f n hold
  | leaveInactive => exact hseen f n hspace
  | enterFails unused => exact hseen f n hspace
  | enterSpace unused enters => exact enters.seen hseg hseen hspace
  | leaveSpace top =>
    rename_i k rest
    have hold : (m.frames f).space = some (m.spacePtr n) := by
      rw [leaveSpace_stack_frames] at hspace
      rw [hspace]
      unfold Machine.spacePtr
      exact congrArg (fun address => some (SpacePtr.mk address n)) (leaveSpace_address m k)
    change ((Retrace.leaveSpace m k).tstate.space n).seen = true
    rw [leaveSpace_space m k (hseg.space_lt hold)]
    exact hseen f n hold
  | callbackFails unused idle => exact hseen f n hspace
  | callbackBegin top unused idle enters =>
    exact enters.seen (m := m.setCallback true (some _)) (hseg.setCallback true _) hseen hspace
  | callbackEnd top =>
    rename_i k rest
    have hold : (m.frames f).space = some (m.spacePtr n) := by
      have hframe := congrFun (leaveSpace_stack_frames m k rest) f
      rw [← hframe]
      refine hspace.trans ?_
      exact congrArg (fun address => some (SpacePtr.mk address n)) (leaveSpace_address m k)
    change ((Retrace.leaveSpace m k).tstate.space n).seen = true
    rw [leaveSpace_space m k (hseg.space_lt hold)]
    exact hseen f n hold
  | threadDelta =>
    rename_i spaceId allocates tupleAllocates
    obtain heq | ⟨node, -, heq⟩ := threadDelta_cases m spaceId allocates tupleAllocates
    · rw [heq] at hspace ⊢
      exact hseen f n hspace
    · rw [heq] at hspace ⊢
      rw [(rememberDelta_saved m node f).1] at hspace
      have hold : (m.frames f).space = some (m.spacePtr n) := hspace
      rw [rememberDelta_space m node (hseg.space_lt hold)]
      split
      · exact hseen f n hold
      · exact hseen f n hold

/-- What the hash of a space starts from does not change, and a space that has been seen stays
so. -/
theorem Effect.spaceKept (h : Effect m event m') {n : Nat} (hn : n < m.tstate.spaces.length) :
    (m'.tstate.space n).rootCoordinateHash = (m.tstate.space n).rootCoordinateHash ∧
      ((m.tstate.space n).seen = true → (m'.tstate.space n).seen = true) := by
  have henter : ∀ {m m' : Machine} {k spaceId node : Nat} {t : ThreadState} {scope : SpaceScope}
      {ptr : OrdinalPtr}, EntersSpace m k spaceId m' node t scope ptr →
      n < m.tstate.spaces.length →
      (m'.tstate.space n).rootCoordinateHash = (m.tstate.space n).rootCoordinateHash ∧
        ((m.tstate.space n).seen = true → (m'.tstate.space n).seen = true) := by
    intro m m' k spaceId node t scope ptr h hn
    have hspace := h.grown.space n hn
    rw [h.result]
    change (t.space n).rootCoordinateHash = _ ∧ (_ → (t.space n).seen = true)
    rw [hspace]
    exact ⟨rfl, id⟩
  cases h with
  | call off limit =>
    rw [pushFrame_space m _ _ hn]
    split
    · exact ⟨rfl, fun _ => rfl⟩
    · exact ⟨rfl, id⟩
  | resume off limit =>
    rw [pushFrame_space m _ _ hn]
    split
    · exact ⟨rfl, fun _ => rfl⟩
    · exact ⟨rfl, id⟩
  | newGenerator off => exact ⟨rfl, id⟩
  | begin top => exact ⟨rfl, id⟩
  | leave top current space node_eq previous ne =>
    rw [popFrame_space m _ _ _ _ hn]
    exact ⟨rfl, id⟩
  | leaveInactive => exact ⟨rfl, id⟩
  | enterFails unused => exact ⟨rfl, id⟩
  | enterSpace unused enters =>
    have hentered := henter enters hn
    exact hentered
  | leaveSpace top =>
    rename_i k rest
    change ((Retrace.leaveSpace m k).tstate.space n).rootCoordinateHash = _ ∧
      (_ → ((Retrace.leaveSpace m k).tstate.space n).seen = true)
    rw [leaveSpace_space m k hn]
    exact ⟨rfl, id⟩
  | callbackFails unused idle => exact ⟨rfl, id⟩
  | callbackBegin top unused idle enters =>
    have hentered := henter enters hn
    exact hentered
  | callbackEnd top =>
    rename_i k rest
    change ((Retrace.leaveSpace m k).tstate.space n).rootCoordinateHash = _ ∧
      (_ → ((Retrace.leaveSpace m k).tstate.space n).seen = true)
    rw [leaveSpace_space m k hn]
    exact ⟨rfl, id⟩
  | threadDelta =>
    rename_i taken allocates tupleAllocates
    obtain heq | ⟨node, -, heq⟩ := threadDelta_cases m taken allocates tupleAllocates
    · rw [heq]
      exact ⟨rfl, id⟩
    · rw [heq, rememberDelta_space m node hn]
      split
      · exact ⟨rfl, id⟩
      · exact ⟨rfl, id⟩

theorem Standing.spaceKept {l : Ledger} {events : List ThreadEvent} {spaceId : Nat}
    (h : Standing m l) (hrun : threadRun p events m = some m') {n : Nat}
    (hn : findThreadSpace m.tstate spaceId = some n) :
    findThreadSpace m'.tstate spaceId = some n ∧
      (m'.tstate.space n).rootCoordinateHash = (m.tstate.space n).rootCoordinateHash ∧
      ((m.tstate.space n).seen = true → (m'.tstate.space n).seen = true) := by
  induction events generalizing m l with
  | nil =>
    cases hrun
    exact ⟨hn, rfl, id⟩
  | cons event events ih =>
    rw [threadRun_cons, Option.bind_eq_some_iff] at hrun
    obtain ⟨mid, hstep, hrun⟩ := hrun
    obtain ⟨hnext, heffect⟩ := h.step hstep
    obtain ⟨base, -, hseg⟩ := h.segment
    obtain ⟨base', -, hseg'⟩ := hnext.segment
    obtain ⟨kept, hsaved, -⟩ := heffect.kept hseg.contextOk hseg.nodup
    obtain ⟨hlt, hid⟩ := hseg.circle.find_some hn
    have hfound := hseg'.circle.find_eq (Nat.lt_of_lt_of_le hlt hsaved.length)
    rw [hsaved.spaceId n hlt, hid] at hfound
    obtain ⟨hfound', hhash, hseen⟩ := ih hnext hrun hfound
    obtain ⟨hhash', hseen'⟩ := heffect.spaceKept hlt
    exact ⟨hfound', hhash.trans hhash', fun h => hseen (hseen' h)⟩

def SeenFrames (m : Machine) : Prop :=
  ∀ f n, (m.frames f).space = some (m.spacePtr n) → (m.tstate.space n).seen = true

theorem Idle.seenFrames (h : Idle m) : SeenFrames m := by
  obtain ⟨base, -, hseg⟩ := h.standing.segment
  intro f n hspace
  have hon := (hseg.active f).mp (by rw [hspace]; simp)
  rw [h.stack] at hon
  cases hon

theorem SeenFrames.run {l : Ledger} {events : List ThreadEvent} (h : SeenFrames m)
    (hstanding : Standing m l) (hrun : threadRun p events m = some m') : SeenFrames m' := by
  induction events generalizing m l with
  | nil =>
    cases hrun
    exact h
  | cons event events ih =>
    rw [threadRun_cons, Option.bind_eq_some_iff] at hrun
    obtain ⟨mid, hstep, hrun⟩ := hrun
    obtain ⟨hnext, heffect⟩ := hstanding.step hstep
    obtain ⟨base, -, hseg⟩ := hstanding.segment
    exact ih (heffect.seen hseg h) hnext hrun

theorem Effect.slots (hseg : Segment [] base m) (hpinned : Pinned m.tstate)
    (h : Effect m event m') (hrising : RisingStep m event)
    (hcomplete : ∀ item rest, m.tstate.stack = item :: rest → ∀ f, .frame f ∈ rest →
      isIncomplete (m.frames f) = false)
    (hslots : ∀ upper r lower, m.tstate.stack = upper ++ .frame r :: lower →
      (∀ j, .callback j ∉ lower) → ∀ k ∈ scopeIds upper,
      (m.frames r).space = some (m.spacePtr (m.scopes k).space) →
      (m.scopes k).useLocalRoot = false)
    {upper lower : List StackItem} {r : Nat}
    (hstack' : m'.tstate.stack = upper ++ .frame r :: lower) (hnone : ∀ j, .callback j ∉ lower)
    {k : Nat} (hk : k ∈ scopeIds upper)
    (hspace : (m'.frames r).space = some (m'.spacePtr (m'.scopes k).space)) :
    (m'.scopes k).useLocalRoot = false := by
  have hold : ∀ kept upper', SavedOn kept m m' → m.tstate.stack = upper' ++ .frame r :: lower →
      .frame r ∈ kept → k ∈ scopeIds kept → k ∈ scopeIds upper' →
      (m'.scopes k).useLocalRoot = false := by
    intro kept upper' hsaved hstack hr hkept hk'
    have hscope := hsaved.scope k hkept
    simp only [SpaceScope.mk.injEq] at hscope
    rw [hscope.2.2.2.2.2.2]
    refine hslots upper' r lower hstack hnone k hk' ?_
    rw [← (hsaved.frame r hr).1, hspace, hsaved.spacePtr, hscope.2.2.2.1]
  have hupper : ∀ tail, k ∈ scopeIds tail → k ∈ scopeIds (tail ++ .frame r :: lower) := by
    intro tail hmem
    rw [mem_scopeIds] at hmem ⊢
    exact hmem.imp (List.mem_append_left _) (List.mem_append_left _)
  obtain ⟨kept, hsaved, ⟨hm, hm'⟩ | ⟨top, hm, hm'⟩ | ⟨top, hm, hm', hpush, hnew⟩⟩ :=
    h.kept hseg.contextOk hseg.nodup
  · rw [hm'] at hstack'
    refine hold kept upper hsaved (hm.trans hstack') ?_ ?_ hk
    · rw [hstack']
      simp
    · rw [hstack']
      exact hupper upper hk
  · rw [hm'] at hstack'
    refine hold kept (top :: upper) hsaved (by rw [hm, hstack', List.cons_append]) ?_ ?_ ?_
    · rw [hstack']
      simp
    · rw [hstack']
      exact hupper upper hk
    · rw [scopeIds_cons]
      exact List.mem_append_right _ hk
  · rw [hm'] at hstack'
    cases upper with
    | nil => cases hk
    | cons first upper =>
      rw [List.cons_append, List.cons.injEq] at hstack'
      obtain ⟨rfl, hkept⟩ := hstack'
      rw [scopeIds_cons, List.mem_append] at hk
      obtain hk | hk := hk
      · obtain ⟨entered, -, -, hlocal⟩ := hnew k hk
        by_contra hne
        have hr := hpinned.mem_currentThreadFrame hseg.nodup (hm.trans hkept) hnone
        have hvisible := hlocal (by simpa using hne) r hr
        have hon : .frame r ∈ kept := by
          rw [hkept]
          simp
        have hactive : (m.frames r).space = some (m.spacePtr (m'.scopes k).space) := by
          rw [← (hsaved.frame r hon).1, hspace, hsaved.spacePtr]
        have hready : isIncomplete (m.frames r) = false := by
          have hcall := hrising.complete hpush
          cases upper with
          | nil => exact hcall r lower (hm.trans hkept)
          | cons second upper =>
            exact hcomplete second _ (hm.trans hkept) r (by simp)
        unfold Machine.visibleIn frameIsVisible at hvisible
        rw [hactive, hready] at hvisible
        simp at hvisible
      · refine hold kept upper hsaved (hm.trans hkept) ?_ ?_ hk
        · rw [hkept]
          simp
        · rw [hkept]
          exact hupper upper hk

theorem Ordered.step (h : Ordered m) (hseg : Segment [] base m) (hpinned : Pinned m.tstate)
    (heffect : Effect m event m') (hrising : RisingStep m event) : Ordered m' where
  placed := heffect.placed hrising h.placed
  complete _ _ hstack _ hf :=
    heffect.complete hseg.contextOk hseg.nodup hrising.complete h.complete hstack hf
  seen := heffect.seen hseg h.seen
  slots _ _ _ hstack hnone _ hk hspace :=
    heffect.slots hseg hpinned hrising h.complete h.slots hstack hnone hk hspace

theorem lt_append_cons (words : List Int) (x : Int) (xs : List Int) : words < words ++ x :: xs := by
  have h : words ++ [] < words ++ x :: xs := List.append_left_lt (List.nil_lt_cons x xs)
  rwa [List.append_nil] at h

theorem nodup_frameChain {stack : List StackItem} (h : stack.Nodup) : (frameChain stack).Nodup := by
  unfold frameChain
  refine List.Nodup.filterMap ?_ h
  intro a b f ha hb
  cases a <;> cases b <;> simp_all

theorem pushFrame_rise {f n : Nat} (frame : InterpreterFrame) (hoff : .frame f ∉ m.tstate.stack) :
    slotWords m (m.spacePtr n) m.chain ≤
      slotWords (m.pushFrame f frame) (m.spacePtr n) (m.pushFrame f frame).chain := by
  have hchain : (m.pushFrame f frame).chain = f :: m.chain := rfl
  have hrest : slotWords (m.pushFrame f frame) (m.spacePtr n) m.chain =
      slotWords m (m.spacePtr n) m.chain := by
    apply slotWords_congr
    intro g hg
    have hne : g ≠ f := fun heq => hoff (mem_frameChain.mp (heq ▸ hg))
    rw [pushFrame_frames, if_neg hne]
    exact ⟨rfl, fun _ => ⟨rfl, rfl⟩⟩
  rw [hchain, slotWords_cons, hrest]
  split
  · exact le_of_lt (lt_append_cons _ _ _)
  · rw [List.append_nil]

theorem scope_above {f r k : Nat} {rest upper lower tail : List StackItem}
    (hstack : .frame f :: rest = upper ++ .frame r :: lower) (hne : f ≠ r)
    (hscope : rest = .scope k :: tail ∨ rest = .callback k :: tail) : k ∈ scopeIds upper := by
  cases upper with
  | nil =>
    rw [List.nil_append, List.cons.injEq] at hstack
    exact absurd (StackItem.frame.inj hstack.1) hne
  | cons first upper =>
    rw [List.cons_append, List.cons.injEq] at hstack
    cases upper with
    | nil =>
      rw [hstack.2] at hscope
      obtain hscope | hscope := hscope
      · cases hscope
      · cases hscope
    | cons second upper =>
      rw [hstack.2, List.cons_append, List.cons.injEq, List.cons.injEq] at hscope
      rw [mem_scopeIds]
      obtain hscope | hscope := hscope
      · exact Or.inl (by simp [hscope.1])
      · exact Or.inr (by simp [hscope.1])

theorem popFrame_counts {f g node n : Nat} {rest : List StackItem} (hnodup : rest.Nodup)
    (hoff : .frame f ∉ rest) (hmem : .frame g ∈ rest)
    (hspace : (m.frames g).space = some (m.spacePtr n))
    (hcount : (m.frames g).currentCallOrdinal < 2 ^ 63) (tail tail' : List Int) :
    slotWords m (m.spacePtr n) (frameChain rest) ++ tail <
      slotWords (m.popFrame f node (.frame g) rest) (m.spacePtr n) (frameChain rest) ++ tail' := by
  have hlower : ∀ h ∈ frameChain rest, h ≠ f := fun h hh heq =>
    hoff (mem_frameChain.mp (heq ▸ hh))
  have hgf : g ≠ f := hlower g (mem_frameChain.mpr hmem)
  have hframes := popFrame_frames m f node (.frame g) rest
    (fun heq => hgf (OrdinalPtr.frame.inj heq))
  have hbumped := hframes g
  rw [if_neg hgf, if_pos rfl] at hbumped
  refine slotWords_lt (mem_frameChain.mpr hmem) (nodup_frameChain hnodup) hspace ?_ ?_ ?_ ?_ _ _
  · rw [hbumped]
    exact hspace
  · rw [hbumped]
    rfl
  · rw [hbumped]
    dsimp only
    omega
  · intro h hh hhg
    rw [hframes h, if_neg (hlower h hh), if_neg]
    exact fun heq => hhg (OrdinalPtr.frame.inj heq).symm

theorem popFrame_elsewhere {f node n : Nat} {ptr : OrdinalPtr} {rest : List StackItem}
    (hoff : .frame f ∉ rest) (hne : ptr ≠ .frame f)
    (hcounted : ∀ g, ptr = .frame g → (m.frames g).space ≠ some (m.spacePtr n)) :
    slotWords (m.popFrame f node ptr rest) (m.spacePtr n) (frameChain rest) =
      slotWords m (m.spacePtr n) (frameChain rest) := by
  refine slotWords_congr _ ?_
  intro g hg
  have hgf : g ≠ f := fun heq => hoff (mem_frameChain.mp (heq ▸ hg))
  rw [popFrame_frames m f node ptr rest hne g, if_neg hgf]
  by_cases hptr : ptr = .frame g
  · rw [if_pos hptr]
    exact ⟨rfl, fun hspace => absurd hspace (hcounted g hptr)⟩
  · rw [if_neg hptr]
    exact ⟨rfl, fun _ => ⟨rfl, rfl⟩⟩

/-- A call that ends counts on a slot further down the stack, so its own words do not matter. -/
theorem popFrame_rise (hseg : Segment [] base m) (hordered : Ordered m) (hfit : CountersFit m)
    {f node n r : Nat} {ptr : OrdinalPtr} {rest upper lower : List StackItem}
    (htop : m.tstate.stack = .frame f :: rest)
    (hspace : (m.frames f).space = some (m.spacePtr node))
    (hnode : node = m.tstate.currentSpace)
    (hprevious : (m.frames f).previousCallOrdinalPtr = some ptr) (hne : ptr ≠ .frame f)
    (hstack : m.tstate.stack = upper ++ .frame r :: lower) (hnone : ∀ j, .callback j ∉ lower)
    (hr : (m.frames r).space = some (m.spacePtr n)) (hstays : .frame r ∈ rest) :
    slotWords m (m.spacePtr n) m.chain ≤
      slotWords (m.popFrame f node ptr rest) (m.spacePtr n) (m.popFrame f node ptr rest).chain := by
  have hnodup := hseg.nodup
  rw [htop, List.nodup_cons] at hnodup
  have hchain : m.chain = f :: frameChain rest := by
    unfold Machine.chain
    rw [htop]
    rfl
  have hchain' : (m.popFrame f node ptr rest).chain = frameChain rest := by
    unfold Machine.chain
    rw [popFrame_stack]
  have hcurrent : ∀ g, (m.frames g).space = some (m.spacePtr m.tstate.currentSpace) →
      node = n → (m.frames g).space = some (m.spacePtr n) := by
    intro g hg hn
    rw [hg, ← hnode, hn]
  obtain ⟨items, hitems, hd⟩ := hseg.items
  rw [List.append_nil] at hitems
  rw [← hitems, htop] at hd
  obtain ⟨-, -, -, hd⟩ := hd
  have hnonempty : rest ≠ [] := List.ne_nil_of_mem hstays
  rw [hchain, hchain', slotWords_cons]
  by_cases hn : node = n
  · rw [if_pos (hn ▸ hspace)]
    obtain ⟨g, hg, hmem, hgspace⟩ | ⟨k, tail, hk, hscope, hkspace, hlocal⟩ := hd.slot hnonempty
    · -- the slot is a frame of the same space below
      rw [List.append_nil] at hmem
      have hptr : ptr = .frame g := by
        simpa using hprevious.symm.trans hg
      subst hptr
      have hlt := @popFrame_counts m f g node n rest hnodup.2 hnodup.1 hmem
        (hcurrent g hgspace hn) (hfit g (htop ▸ List.mem_cons_of_mem _ hmem))
        [position (m.frames f), ((m.frames f).currentCallOrdinal : Int)] []
      rw [List.append_nil] at hlt
      exact le_of_lt hlt
    · -- no scope above a frame of its space has a slot of its own
      exfalso
      have hkupper : k ∈ scopeIds upper :=
        scope_above (htop.symm.trans hstack) (fun heq => hnodup.1 (heq ▸ hstays)) hscope
      have hshared : (m.frames r).space = some (m.spacePtr (m.scopes k).space) := by
        rw [hr, ← hkspace]
        change _ = some (m.spacePtr m.tstate.currentSpace)
        rw [← hnode, hn]
      rw [hordered.slots upper r lower hstack hnone k hkupper hshared] at hlocal
      cases hlocal
  · have hout : (m.frames f).space ≠ some (m.spacePtr n) := by
      rw [hspace]
      simpa [Machine.spacePtr] using hn
    rw [if_neg hout, List.append_nil]
    refine le_of_eq (popFrame_elsewhere hnodup.1 hne ?_).symm
    intro g hptr hgn
    obtain ⟨g', hg', -, hgspace⟩ | ⟨k, -, hk, -⟩ := hd.slot hnonempty
    · have heq : g' = g := by
        have hsame := hg'.symm.trans (hprevious.trans (congrArg some hptr))
        simpa using hsame
      rw [heq, hgn] at hgspace
      have hcur : n = m.tstate.currentSpace := by
        simpa [Machine.spacePtr, frameContext, Machine.context] using hgspace
      exact absurd (hnode.trans hcur.symm) hn
    · have hsame := hk.symm.trans (hprevious.trans (congrArg some hptr))
      simp at hsame

theorem chain_rise {n : Nat} (hchain : m'.chain = m.chain)
    (hframes : ∀ f ∈ m.chain, (m'.frames f).space = (m.frames f).space ∧
      ((m.frames f).space = some (m.spacePtr n) →
        position (m'.frames f) = position (m.frames f) ∧
        (m'.frames f).currentCallOrdinal = (m.frames f).currentCallOrdinal)) :
    slotWords m (m.spacePtr n) m.chain ≤ slotWords m' (m.spacePtr n) m'.chain := by
  rw [hchain]
  exact le_of_eq (slotWords_congr _ hframes).symm

theorem begin_rise {f offset n : Nat} {jumps : List (Int × Int)} {rest : List StackItem}
    (hnodup : m.tstate.stack.Nodup) (htop : m.tstate.stack = .frame f :: rest)
    (hrises : rises (m.frames f) jumps offset = true) (hspace : (m.frames f).space = some (m.spacePtr n)) :
    slotWords m (m.spacePtr n) m.chain <
      slotWords (m.setFrame f (Machine.begunFrame (moveFrame (m.frames f) jumps offset)))
        (m.spacePtr n) m.chain := by
  rw [htop, List.nodup_cons] at hnodup
  have hchain : m.chain = f :: frameChain rest := by
    unfold Machine.chain
    rw [htop]
    rfl
  have hrest : slotWords (m.setFrame f (Machine.begunFrame (moveFrame (m.frames f) jumps offset)))
      (m.spacePtr n) (frameChain rest) = slotWords m (m.spacePtr n) (frameChain rest) := by
    apply slotWords_congr
    intro g hg
    have hne : g ≠ f := fun heq => hnodup.1 (mem_frameChain.mp (heq ▸ hg))
    rw [setFrame_frames, if_neg hne]
    exact ⟨rfl, fun _ => ⟨rfl, rfl⟩⟩
  rw [hchain, slotWords_cons, slotWords_cons, hrest, setFrame_frames, if_pos rfl,
    (begunFrame_saved _ _ _).1, if_pos hspace, if_pos hspace]
  apply List.append_left_lt
  rw [List.cons_lt_cons_iff]
  left
  rw [(begunFrame_position _).1]
  exact of_decide_eq_true hrises

theorem Effect.rise (hseg : Segment [] base m) (hordered : Ordered m) (hfit : CountersFit m)
    (h : Effect m event m') (hrising : RisingStep m event) {n r : Nat}
    {upper lower : List StackItem} (hstack : m.tstate.stack = upper ++ .frame r :: lower)
    (hnone : ∀ j, .callback j ∉ lower) (hr : (m.frames r).space = some (m.spacePtr n))
    (hstays : .frame r ∈ m'.tstate.stack) :
    slotWords m (m.spacePtr n) m.chain ≤ slotWords m' (m.spacePtr n) m'.chain := by
  have hscope : ∀ {item : StackItem} {rest : List StackItem} (k : Nat),
      m.tstate.stack = item :: rest → (item = .scope k ∨ item = .callback k) →
      frameChain rest = m.chain := by
    intro item rest k htop hitem
    unfold Machine.chain
    rw [htop]
    obtain rfl | rfl := hitem <;> rfl
  cases h with
  | call off limit => exact pushFrame_rise _ off
  | resume off limit => exact pushFrame_rise _ off
  | newGenerator off =>
    rename_i g lasti
    refine chain_rise rfl ?_
    intro f hf
    have hne : f ≠ g := fun heq => off (mem_frameChain.mp (heq ▸ hf))
    rw [setFrame_frames, if_neg hne]
    exact ⟨rfl, fun _ => ⟨rfl, rfl⟩⟩
  | begin top =>
    rename_i jumps offset f rest
    have hrises := hrising.rise jumps offset f rest rfl top
    by_cases hspace : (m.frames f).space = some (m.spacePtr n)
    · exact le_of_lt (begin_rise hseg.nodup top hrises hspace)
    · refine chain_rise rfl ?_
      intro g hg
      rw [setFrame_frames]
      split
      · rename_i heq
        rw [(begunFrame_saved _ _ _).1, heq]
        exact ⟨rfl, fun hin => absurd hin hspace⟩
      · exact ⟨rfl, fun _ => ⟨rfl, rfl⟩⟩
  | leave top current space node_eq previous ne =>
    rw [popFrame_stack] at hstays
    exact popFrame_rise hseg hordered hfit top space node_eq previous ne hstack hnone hr hstays
  | leaveInactive => exact le_refl _
  | enterFails unused => exact le_refl _
  | enterSpace unused enters =>
    refine chain_rise ?_ ?_
    · have hsame := congrArg frameChain enters.callbackState.1
      exact hsame
    · intro f _
      rw [enters.frames]
      exact ⟨rfl, fun _ => ⟨rfl, rfl⟩⟩
  | leaveSpace top =>
    rename_i k rest
    refine chain_rise (hscope k top (Or.inl rfl)) ?_
    intro f _
    rw [leaveSpace_stack_frames]
    exact ⟨rfl, fun _ => ⟨rfl, rfl⟩⟩
  | callbackFails unused idle => exact chain_rise rfl (fun _ _ => ⟨rfl, fun _ => ⟨rfl, rfl⟩⟩)
  | callbackBegin top unused idle enters =>
    refine chain_rise ?_ ?_
    · have hsame := congrArg frameChain enters.callbackState.1
      exact hsame
    · intro f _
      rw [enters.frames]
      exact ⟨rfl, fun _ => ⟨rfl, rfl⟩⟩
  | callbackEnd top =>
    rename_i k rest
    refine chain_rise (hscope k top (Or.inr rfl)) ?_
    intro f _
    have hframe := congrFun (leaveSpace_stack_frames m k rest) f
    exact ⟨congrArg _ hframe, fun _ => ⟨congrArg _ hframe, congrArg _ hframe⟩⟩
  | threadDelta =>
    rename_i spaceId allocates tupleAllocates
    obtain heq | ⟨node, -, heq⟩ := threadDelta_cases m spaceId allocates tupleAllocates
    · rw [heq]
    · rw [heq]
      refine chain_rise rfl ?_
      intro f _
      rw [rememberDelta_frames]
      split <;> exact ⟨rfl, fun _ => ⟨rfl, rfl⟩⟩

end ordered

def staysActive (p : Platform) (r : Nat) : List ThreadEvent → Machine → Bool
  | [], m => decide (.frame r ∈ m.tstate.stack)
  | event :: events, m => decide (.frame r ∈ m.tstate.stack) &&
      match threadStep p m event with
      | none => true
      | some m' => staysActive p r events m'

def rootFrame (m : Machine) (node : Nat) : Option Nat :=
  (m.chain.filter (m.visibleIn (m.spacePtr node))).getLast?

/-- Outside callbacks, the running frame is one of the space. -/
def AtBoundary (m : Machine) (spaceId : Nat) : Prop :=
  m.tstate.threadCallbackActive = false ∧ ∃ node f rest,
    findThreadSpace m.tstate spaceId = some node ∧ m.tstate.stack = .frame f :: rest ∧
    m.visibleIn (m.spacePtr node) f = true

section runs
variable {p : Platform} {m m' : Machine} {l : Ledger}

theorem runMoves_append {first second : List ThreadEvent}
    (h : runMoves p rises (first ++ second) m = true) {mid : Machine}
    (hrun : threadRun p first m = some mid) :
    runMoves p rises first m = true ∧ runMoves p rises second mid = true := by
  induction first generalizing m with
  | nil =>
    cases hrun
    exact ⟨rfl, h⟩
  | cons event first ih =>
    rw [threadRun_cons, Option.bind_eq_some_iff] at hrun
    obtain ⟨next, hstep, hrun⟩ := hrun
    rw [List.cons_append] at h
    unfold runMoves at h
    rw [hstep, Bool.and_eq_true] at h
    obtain ⟨hfirst, hsecond⟩ := ih h.2 hrun
    refine ⟨?_, hsecond⟩
    unfold runMoves
    rw [hstep, Bool.and_eq_true]
    exact ⟨h.1, hfirst⟩

theorem staysActive_mem {events : List ThreadEvent} {r : Nat}
    (h : staysActive p r events m = true) : .frame r ∈ m.tstate.stack := by
  cases events with
  | nil => exact of_decide_eq_true h
  | cons event events =>
    unfold staysActive at h
    rw [Bool.and_eq_true] at h
    exact of_decide_eq_true h.1

theorem staysActive_step {event : ThreadEvent} {events : List ThreadEvent} {r : Nat}
    (h : staysActive p r (event :: events) m = true) (hstep : threadStep p m event = some m') :
    staysActive p r events m' = true := by
  unfold staysActive at h
  rw [hstep, Bool.and_eq_true] at h
  exact h.2

theorem staysActive_append {first second : List ThreadEvent} {r : Nat}
    (h : staysActive p r (first ++ second) m = true) {mid : Machine}
    (hrun : threadRun p first m = some mid) :
    staysActive p r first m = true ∧ staysActive p r second mid = true := by
  induction first generalizing m with
  | nil =>
    cases hrun
    exact ⟨decide_eq_true (staysActive_mem h), h⟩
  | cons event first ih =>
    rw [threadRun_cons, Option.bind_eq_some_iff] at hrun
    obtain ⟨next, hstep, hrun⟩ := hrun
    obtain ⟨hfirst, hsecond⟩ := ih (staysActive_step h hstep) hrun
    refine ⟨?_, hsecond⟩
    unfold staysActive
    rw [hstep, Bool.and_eq_true]
    exact ⟨decide_eq_true (staysActive_mem h), hfirst⟩

/-- What the order of coordinates rests on, in every state of a run. -/
structure Grounded (m : Machine) : Prop where
  standing : ∃ l, Standing m l
  pinned : Pinned m.tstate
  ordered : Ordered m

theorem Idle.grounded (h : Idle m) (hplaced : ∀ f, WellPlaced (m.frames f)) : Grounded m := by
  refine ⟨⟨_, h.standing⟩, h.pinned, hplaced, ?_, ?_, ?_⟩
  · intro item rest hstack
    rw [h.stack] at hstack
    cases hstack
  · intro f n hspace
    rw [h.inactive f] at hspace
    cases hspace
  · intro upper r lower hstack
    rw [h.stack] at hstack
    simp at hstack

theorem Grounded.step (h : Grounded m) {event : ThreadEvent}
    (hstep : threadStep p m event = some m') (hrising : RisingStep m event) :
    Grounded m' ∧ Effect m event m' := by
  obtain ⟨l, hstanding⟩ := h.standing
  obtain ⟨hnext, heffect⟩ := hstanding.step hstep
  obtain ⟨base, -, hseg⟩ := hstanding.segment
  exact ⟨⟨⟨_, hnext⟩, h.pinned.step heffect, h.ordered.step hseg h.pinned heffect hrising⟩,
    heffect⟩

theorem Grounded.run {events : List ThreadEvent} (h : Grounded m)
    (hrising : runMoves p rises events m = true)
    (hrun : threadRun p events m = some m') : Grounded m' := by
  induction events generalizing m with
  | nil =>
    cases hrun
    exact h
  | cons event events ih =>
    rw [threadRun_cons, Option.bind_eq_some_iff] at hrun
    obtain ⟨mid, hstep, hrun⟩ := hrun
    obtain ⟨hone, -, hnext⟩ := runMoves_cons hrising
    exact ih (h.step hstep hone).1 (hnext mid hstep) hrun

/-- A frame active outside callbacks, in a space of the thread. -/
structure Rooted (m : Machine) (n r : Nat) : Prop where
  stack : ∃ upper lower, m.tstate.stack = upper ++ .frame r :: lower ∧ ∀ j, .callback j ∉ lower
  space : (m.frames r).space = some (m.spacePtr n)

theorem Effect.below {base : Context} {event : ThreadEvent} {r : Nat}
    {upper lower : List StackItem} (h : Effect m event m') (hseg : Segment [] base m)
    (hstack : m.tstate.stack = upper ++ .frame r :: lower) (hstays : .frame r ∈ m'.tstate.stack) :
    ∃ upper', m'.tstate.stack = upper' ++ .frame r :: lower := by
  obtain ⟨kept, -, ⟨hm, hm'⟩ | ⟨top, hm, hm'⟩ | ⟨top, hm, hm', -⟩⟩ :=
    h.kept hseg.contextOk hseg.nodup
  · exact ⟨upper, by rw [hm', ← hm, hstack]⟩
  · rw [hm'] at hstays ⊢
    rw [hm] at hstack
    cases upper with
    | nil =>
      rw [List.nil_append, List.cons.injEq] at hstack
      have hnodup := hseg.nodup
      rw [hm, List.nodup_cons, hstack.1] at hnodup
      exact absurd hstays hnodup.1
    | cons first upper =>
      rw [List.cons_append, List.cons.injEq] at hstack
      exact ⟨upper, hstack.2⟩
  · exact ⟨top :: upper, by rw [hm', ← hm, hstack, List.cons_append]⟩

theorem Rooted.step {base : Context} {event : ThreadEvent} {n r : Nat} (h : Rooted m n r)
    (hseg : Segment [] base m) (heffect : Effect m event m')
    (hstays : .frame r ∈ m'.tstate.stack) :
    Rooted m' n r ∧ m'.tstate.address = m.tstate.address ∧
      (m'.tstate.space n).spaceId = (m.tstate.space n).spaceId := by
  obtain ⟨upper, lower, hstack, hnone⟩ := h.stack
  obtain ⟨upper', hstack'⟩ := heffect.below hseg hstack hstays
  have hon : .frame r ∈ m.tstate.stack := by
    rw [hstack]
    simp
  obtain ⟨kept, hsaved, hkept⟩ := heffect.kept hseg.contextOk hseg.nodup
  have hmem : .frame r ∈ kept := by
    obtain ⟨hm, -⟩ | ⟨top, -, hm'⟩ | ⟨top, hm, -⟩ := hkept
    · exact hm ▸ hon
    · exact hm' ▸ hstays
    · exact hm ▸ hon
  refine ⟨⟨⟨upper', lower, hstack', hnone⟩, ?_⟩, hsaved.address,
    hsaved.spaceId n (hseg.space_lt h.space)⟩
  rw [(hsaved.frame r hmem).1, hsaved.spacePtr]
  exact h.space

theorem Rooted.run {events : List ThreadEvent} {n r : Nat} (h : Rooted m n r)
    (hgrounded : Grounded m) (hrising : runMoves p rises events m = true)
    (hrun : threadRun p events m = some m') (hactive : staysActive p r events m = true) :
    Rooted m' n r ∧ m'.tstate.address = m.tstate.address ∧
      (m'.tstate.space n).spaceId = (m.tstate.space n).spaceId ∧
      slotWords m (m.spacePtr n) m.chain ≤ slotWords m' (m.spacePtr n) m'.chain := by
  induction events generalizing m with
  | nil =>
    cases hrun
    exact ⟨h, rfl, rfl, le_refl _⟩
  | cons event events ih =>
    rw [threadRun_cons, Option.bind_eq_some_iff] at hrun
    obtain ⟨mid, hstep, hrun⟩ := hrun
    obtain ⟨hone, hfit, hnext⟩ := runMoves_cons hrising
    have hactive := staysActive_step hactive hstep
    have hstays := staysActive_mem hactive
    obtain ⟨l, hstanding⟩ := hgrounded.standing
    obtain ⟨base, -, hseg⟩ := hstanding.segment
    obtain ⟨hgrounded', heffect⟩ := hgrounded.step hstep hone
    obtain ⟨upper, lower, hstack, hnone⟩ := h.stack
    have hrise := heffect.rise hseg hgrounded.ordered hfit hone hstack hnone h.space hstays
    obtain ⟨hrooted, haddress, hid⟩ := h.step hseg heffect hstays
    obtain ⟨hlast, haddress', hid', hrest⟩ := ih hrooted hgrounded' (hnext mid hstep) hrun hactive
    have hptr : mid.spacePtr n = m.spacePtr n := by
      unfold Machine.spacePtr
      rw [haddress]
    rw [hptr] at hrest
    exact ⟨hlast, haddress'.trans haddress, hid'.trans hid, le_trans hrise hrest⟩

theorem Rooted.finds {events : List ThreadEvent} {spaceId n r : Nat} (h : Rooted m n r)
    (hgrounded : Grounded m) (hrising : runMoves p rises events m = true)
    (hrun : threadRun p events m = some m') (hactive : staysActive p r events m = true)
    (hspace : findThreadSpace m.tstate spaceId = some n) :
    findThreadSpace m'.tstate spaceId = some n := by
  obtain ⟨hrooted, -, hid, -⟩ := h.run hgrounded hrising hrun hactive
  obtain ⟨l, hstanding⟩ := hgrounded.standing
  obtain ⟨base, -, hseg⟩ := hstanding.segment
  obtain ⟨l', hstanding'⟩ := (hgrounded.run hrising hrun).standing
  obtain ⟨base', -, hseg'⟩ := hstanding'.segment
  have hfound := hseg'.circle.find_eq (hseg'.space_lt hrooted.space)
  rwa [hid, (hseg.circle.find_some hspace).2] at hfound

theorem rootFrame_rooted {n r : Nat} (hpinned : Pinned m.tstate)
    (hidle : m.tstate.threadCallbackActive = false) (hroot : rootFrame m n = some r) :
    Rooted m n r := by
  have hmem := List.mem_filter.mp (List.mem_of_getLast? hroot)
  refine ⟨?_, visibleIn_space hmem.2⟩
  obtain ⟨upper, lower, hstack⟩ := List.append_of_mem (mem_frameChain.mp hmem.1)
  refine ⟨upper, lower, hstack, ?_⟩
  unfold Pinned at hpinned
  rw [if_neg (by simp [hidle]), hstack] at hpinned
  intro j hj
  exact hpinned j (by simp [hj])

theorem Grounded.below {events : List ThreadEvent} {r : Nat} {upper lower : List StackItem}
    (h : Grounded m) (hrising : runMoves p rises events m = true)
    (hrun : threadRun p events m = some m') (hactive : staysActive p r events m = true)
    (hstack : m.tstate.stack = upper ++ .frame r :: lower) :
    ∃ upper', m'.tstate.stack = upper' ++ .frame r :: lower := by
  induction events generalizing m upper with
  | nil =>
    cases hrun
    exact ⟨upper, hstack⟩
  | cons event events ih =>
    rw [threadRun_cons, Option.bind_eq_some_iff] at hrun
    obtain ⟨mid, hstep, hrun⟩ := hrun
    obtain ⟨hone, -, hnext⟩ := runMoves_cons hrising
    have hactive := staysActive_step hactive hstep
    obtain ⟨l, hstanding⟩ := h.standing
    obtain ⟨base, -, hseg⟩ := hstanding.segment
    obtain ⟨hgrounded, heffect⟩ := h.step hstep hone
    obtain ⟨upper', hstack'⟩ := heffect.below hseg hstack (staysActive_mem hactive)
    exact ih hgrounded (hnext mid hstep) hrun hactive hstack'

theorem Grounded.rooted {events : List ThreadEvent} {n r : Nat} (h : Grounded m)
    (hrising : runMoves p rises events m = true) (hrun : threadRun p events m = some m')
    (hactive : staysActive p r events m = true) (hidle : m'.tstate.threadCallbackActive = false)
    (hspace : (m.frames r).space = some (m.spacePtr n)) : Rooted m n r := by
  obtain ⟨upper, lower, hstack⟩ := List.append_of_mem (staysActive_mem hactive)
  obtain ⟨upper', hstack'⟩ := h.below hrising hrun hactive hstack
  have hpinned := (h.run hrising hrun).pinned
  unfold Pinned at hpinned
  rw [if_neg (by simp [hidle]), hstack'] at hpinned
  refine ⟨⟨upper, lower, hstack, ?_⟩, hspace⟩
  intro j hj
  exact hpinned j (by simp [hj])

theorem lt_of_map_cast_lt {words words' : List Nat}
    (h : words.map (fun word : Nat => (word : Int)) < words'.map (fun word : Nat => (word : Int))) :
    words < words' := by
  induction words generalizing words' with
  | nil =>
    cases words' with
    | nil => exact absurd h (lt_irrefl _)
    | cons y ys => exact List.nil_lt_cons y ys
  | cons x xs ih =>
    cases words' with
    | nil => exact absurd h (List.not_lt_nil _)
    | cons y ys =>
      rw [List.map_cons, List.map_cons, List.cons_lt_cons_iff] at h
      rw [List.cons_lt_cons_iff]
      obtain hlt | ⟨heq, htail⟩ := h
      · exact Or.inl (Int.ofNat_lt.mp hlt)
      · exact Or.inr ⟨Int.ofNat_inj.mp heq, ih htail⟩

/-- Outside callbacks, when the running frame is complete, the coordinates of a space are its
words. -/
theorem Grounded.coordinates {spaceId n f : Nat} {rest : List StackItem} (h : Grounded m)
    (hidle : m.tstate.threadCallbackActive = false) (htop : m.tstate.stack = .frame f :: rest)
    (hcomplete : isIncomplete (m.frames f) = false)
    (hfind : findThreadSpace m.tstate spaceId = some n) (hseen : (m.tstate.space n).seen = true) :
    ∃ words, Retrace.coordinates m spaceId 0 = some words ∧
      slotWords m (m.spacePtr n) m.chain = words.map (fun word : Nat => (word : Int)) := by
  have hchain : threadStateFrame m n = m.chain := by
    unfold threadStateFrame
    rw [if_neg (by simp [hidle])]
  refine ⟨frameWords m (m.spacePtr n) m.chain, ?_, ?_⟩
  · unfold Retrace.coordinates
    rw [hfind]
    dsimp only
    rw [hseen, if_pos rfl, coordinatesOf_eq, hchain, List.drop_zero]
  · refine slotWords_eq_frameWords h.ordered.placed ?_
    intro g hg
    have hmem := mem_frameChain.mp hg
    rw [htop, List.mem_cons] at hmem
    obtain heq | hmem := hmem
    · cases heq
      exact hcomplete
    · exact h.ordered.complete _ rest htop g hmem

theorem AtBoundary.coordinates {spaceId : Nat} (h : AtBoundary m spaceId) (hgrounded : Grounded m) :
    ∃ n f rest words, findThreadSpace m.tstate spaceId = some n ∧
      m.tstate.stack = .frame f :: rest ∧ (m.frames f).space = some (m.spacePtr n) ∧
      Retrace.coordinates m spaceId 0 = some words ∧
      slotWords m (m.spacePtr n) m.chain = words.map (fun word : Nat => (word : Int)) := by
  obtain ⟨hidle, n, f, rest, hfind, htop, hvisible⟩ := h
  have hspace := visibleIn_space hvisible
  have hcomplete : isIncomplete (m.frames f) = false := by
    unfold Machine.visibleIn frameIsVisible at hvisible
    simp only [Bool.and_eq_true, Bool.not_eq_true'] at hvisible
    exact hvisible.1.2
  obtain ⟨words, hwords, hslots⟩ :=
    hgrounded.coordinates hidle htop hcomplete hfind (hgrounded.ordered.seen f n hspace)
  exact ⟨n, f, rest, words, hfind, htop, hspace, hwords, hslots⟩

theorem Rooted.lt_boundary {between : List ThreadEvent} {jumps : List (Int × Int)}
    {offset spaceId n r : Nat} (h : Rooted m n r) (hgrounded : Grounded m)
    (hrising : runMoves p rises (between ++ [.begin jumps offset]) m = true)
    (hrun : threadRun p (between ++ [.begin jumps offset]) m = some m')
    (hlast : AtBoundary m' spaceId) (hspace : findThreadSpace m.tstate spaceId = some n)
    (hactive : staysActive p r (between ++ [.begin jumps offset]) m = true) :
    ∃ words, Retrace.coordinates m' spaceId 0 = some words ∧
      slotWords m (m.spacePtr n) m.chain < words.map (fun word : Nat => (word : Int)) := by
  obtain ⟨mid, hmid, hlastRun⟩ := threadRun_append hrun
  obtain ⟨hrisingMid, hrisingLast⟩ := runMoves_append hrising hmid
  obtain ⟨hactiveMid, hactiveLast⟩ := staysActive_append hactive hmid
  obtain ⟨hrootedMid, haddress, hid, hrise⟩ := h.run hgrounded hrisingMid hmid hactiveMid
  have hgroundedMid := hgrounded.run hrisingMid hmid
  obtain ⟨hone, -, -⟩ := runMoves_cons hrisingLast
  rw [threadRun_cons, Option.bind_eq_some_iff] at hlastRun
  obtain ⟨final, hstep, hfinal⟩ := hlastRun
  cases hfinal
  obtain ⟨hgroundedLast, heffect⟩ := hgroundedMid.step hstep hone
  obtain ⟨l', hstandingMid⟩ := hgroundedMid.standing
  obtain ⟨baseMid, -, hsegMid⟩ := hstandingMid.segment
  obtain ⟨-, haddress', -⟩ := hrootedMid.step hsegMid heffect
    (staysActive_mem (staysActive_step hactiveLast hstep))
  obtain ⟨n', f, rest, words, hfind, htop, hf, hwords, hslots⟩ := hlast.coordinates hgroundedLast
  have hn : n' = n := by
    have hfound := h.finds hgrounded hrising hrun hactive hspace
    rw [hfind] at hfound
    exact Option.some.inj hfound
  subst hn
  have hptr : mid.spacePtr n' = m.spacePtr n' := by
    unfold Machine.spacePtr
    rw [haddress]
  have hptr' : m'.spacePtr n' = mid.spacePtr n' := by
    unfold Machine.spacePtr
    rw [haddress']
  have hlt : slotWords mid (mid.spacePtr n') mid.chain <
      slotWords m' (mid.spacePtr n') m'.chain := by
    cases heffect with
    | begin top =>
      rename_i f' rest'
      have hsame : f' = f := by
        have hstack := top.symm.trans htop
        rw [List.cons.injEq] at hstack
        exact StackItem.frame.inj hstack.1
      subst hsame
      rw [setFrame_frames, if_pos rfl, (begunFrame_saved _ _ _).1] at hf
      exact begin_rise hsegMid.nodup top (hone.rise _ _ _ _ rfl top) hf
  rw [hptr] at hlt
  rw [hptr', hptr] at hslots
  exact ⟨words, hwords, hslots ▸ lt_of_le_of_lt hrise hlt⟩

/-- In one root activation of a space, outside callbacks, coordinates strictly increase from one
boundary of the space to every later one. -/
theorem coordinates_increase {origin earlier later : Machine} {before between : List ThreadEvent}
    {jumps : List (Int × Int)} {offset spaceId n r : Nat} (hidle : Idle origin)
    (hplaced : ∀ f, WellPlaced (origin.frames f))
    (hbefore : threadRun p before origin = some earlier)
    (hbetween : threadRun p (between ++ [.begin jumps offset]) earlier = some later)
    (horderly : orderly p (before ++ (between ++ [.begin jumps offset])) origin = true)
    (hearlier : AtBoundary earlier spaceId) (hlater : AtBoundary later spaceId)
    (hspace : findThreadSpace earlier.tstate spaceId = some n)
    (hroot : rootFrame earlier n = some r)
    (hactive : staysActive p r (between ++ [.begin jumps offset]) earlier = true) :
    ∃ words words', coordinates earlier spaceId 0 = some words ∧
      coordinates later spaceId 0 = some words' ∧ words < words' ∧ words ≠ words' := by
  obtain ⟨hfirst, hsecond⟩ := runMoves_append (orderly_rises horderly) hbefore
  have hgrounded := (hidle.grounded hplaced).run hfirst hbefore
  have hrooted := rootFrame_rooted hgrounded.pinned hearlier.1 hroot
  obtain ⟨words', hwords', hlt⟩ :=
    hrooted.lt_boundary hgrounded hsecond hbetween hlater hspace hactive
  obtain ⟨n', -, -, words, hfind, -, -, hwords, hslots⟩ := hearlier.coordinates hgrounded
  have hn : n' = n := by
    rw [hspace] at hfind
    exact (Option.some.inj hfind).symm
  subst hn
  have hless : words < words' := lt_of_map_cast_lt (hslots ▸ hlt)
  exact ⟨words, words', hwords, hwords', hless, ne_of_lt hless⟩

theorem coordinates_increase_loop :
    ∃ earlier later, threadRun ⟨true, true⟩ [.call 0 0 true true, .begin [] 3]
        (freshMachine ⟨true, true⟩ 0) = some earlier ∧
      threadRun ⟨true, true⟩ [.call 1 0 false true, .begin [] 0, .leave 0, .begin [(3, 1)] 1]
        earlier = some later ∧
      coordinates earlier 0 0 = some [3, 0] ∧ coordinates later 0 0 = some [4, 0] ∧
      [3, 0] < [4, 0] := by
  obtain ⟨earlier, hearlier⟩ : ∃ earlier, threadRun ⟨true, true⟩
      [.call 0 0 true true, .begin [] 3] (freshMachine ⟨true, true⟩ 0) = some earlier := ⟨_, rfl⟩
  obtain ⟨later, hlater⟩ : ∃ later, threadRun ⟨true, true⟩ ([.call 1 0 false true, .begin [] 0,
      .leave 0] ++ [.begin [(3, 1)] 1]) earlier = some later := by
    cases hearlier
    exact ⟨_, rfl⟩
  have hboundary : AtBoundary earlier 0 := by
    cases hearlier
    exact ⟨rfl, 0, 0, [], rfl, rfl, rfl⟩
  have hboundary' : AtBoundary later 0 := by
    cases hearlier
    cases hlater
    exact ⟨rfl, 0, 0, [], rfl, rfl, rfl⟩
  have hspace : findThreadSpace earlier.tstate 0 = some 0 := by
    cases hearlier
    rfl
  have hroot : rootFrame earlier 0 = some 0 := by
    cases hearlier
    rfl
  have hactive : staysActive ⟨true, true⟩ 0 ([.call 1 0 false true, .begin [] 0, .leave 0] ++
      [.begin [(3, 1)] 1]) earlier = true := by
    cases hearlier
    rfl
  obtain ⟨words, words', hwords, hwords', hlt, -⟩ :=
    coordinates_increase (freshMachine_idle ⟨true, true⟩ 0)
      (fun _ => newFrame_wellPlaced 0 (Int.le_refl _)) hearlier hlater rfl
      hboundary hboundary' hspace hroot hactive
  have hfirst : coordinates earlier 0 0 = some [3, 0] := by
    cases hearlier
    rfl
  have hsecond : coordinates later 0 0 = some [4, 0] := by
    cases hearlier
    cases hlater
    rfl
  rw [hfirst] at hwords
  rw [hsecond] at hwords'
  cases hwords
  cases hwords'
  exact ⟨earlier, later, hearlier, hlater, hfirst, hsecond, hlt⟩

end runs

end Retrace
