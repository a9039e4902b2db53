import Retrace.CoordinateOrder
import Retrace.SpaceView

/-! One consumer that decodes the deltas of a space along a run of the thread. -/

set_option autoImplicit false

namespace Retrace

/-- The consumer cuts its stack down to the common prefix and appends the suffix; `None` leaves
the stack as it is. -/
def decode (stack : List Nat) : DeltaResult → Option (List Nat)
  | .noSpace => some stack
  | .error => none
  | .delta [] => none
  | .delta (common :: suffix) =>
    if common ≤ stack.length then some (stack.take common ++ suffix) else none

def Decodes (stack : List Nat) (coordinates : Option (List Nat)) : DeltaResult → Prop
  | .noSpace => coordinates = none
  | .error => False
  | .delta [] => False
  | .delta (common :: suffix) =>
    common ≤ stack.length ∧ coordinates = some (stack.take common ++ suffix)

def consume (m : Machine) (spaceId : Nat) (stack : List Nat) : ThreadEvent → Option (List Nat)
  | .threadDelta id allocates tupleAllocates =>
    if id = spaceId then decode stack (threadDeltaForTstate m id allocates tupleAllocates).1
    else some stack
  | _ => some stack

def consumerStack (p : Platform) (spaceId : Nat) :
    List ThreadEvent → Machine → List Nat → Option (List Nat)
  | [], _, stack => some stack
  | event :: events, m, stack => do
    let stack ← consume m spaceId stack event
    let m ← threadStep p m event
    consumerStack p spaceId events m stack

/-- The frames resumed inline that have not reached a boundary since. -/
def awaiting (m : Machine) (pending : List Nat) : ThreadEvent → List Nat
  | .resume f false _ => f :: pending
  | .begin _ _ =>
    match m.tstate.stack with
    | .frame f :: _ => pending.filter (fun g => g ≠ f)
    | _ => pending
  | .leave _ =>
    match m.tstate.stack with
    | .frame f :: _ => pending.filter (fun g => g ≠ f)
    | _ => pending
  | _ => pending

/-- Coordinates rise from boundary to boundary, only complete frames call, and a delta of the
space is taken from a complete frame, with all frames at a boundary. -/
def consumableStep (m : Machine) (spaceId : Nat) (pending : List Nat) : ThreadEvent → Bool
  | .begin jumps offset =>
    match m.tstate.stack with
    | .frame f :: _ => decide ((m.frames f).lasti < 0 ∨
        frameCoordinate (m.frames f) < frameCoordinate (moveFrame (m.frames f) jumps offset))
    | _ => true
  | .threadDelta id allocates tupleAllocates =>
    id ≠ spaceId || (allocates && tupleAllocates && pending.isEmpty && topComplete m &&
      !m.tstate.threadCallbackActive)
  | event => !event.pushes || topComplete m

def consumable (p : Platform) (spaceId : Nat) : List ThreadEvent → Machine → List Nat → Bool
  | [], _, _ => true
  | event :: events, m, pending => consumableStep m spaceId pending event &&
      match threadStep p m event with
      | none => true
      | some m' => consumable p spaceId events m' (awaiting m pending event)

structure Promised (m : Machine) (event : ThreadEvent) : Prop where
  complete : event.pushes = true → ∀ f rest, m.tstate.stack = .frame f :: rest →
    isIncomplete (m.frames f) = false
  rises : ∀ jumps offset f rest, event = .begin jumps offset → m.tstate.stack = .frame f :: rest →
    (m.frames f).lasti < 0 ∨
      frameCoordinate (m.frames f) < frameCoordinate (moveFrame (m.frames f) jumps offset)

structure ConsumableStep (m : Machine) (spaceId : Nat) (pending : List Nat)
    (event : ThreadEvent) : Prop extends Promised m event where
  delta : ∀ allocates tupleAllocates, event = .threadDelta spaceId allocates tupleAllocates →
    allocates = true ∧ tupleAllocates = true ∧ pending = [] ∧ topComplete m = true ∧
      m.tstate.threadCallbackActive = false

/-- The frames of some stack items that are active in a space, newest first. -/
def spaceFrames (m : Machine) (space : SpacePtr) (items : List StackItem) : List Nat :=
  (frameChain items).filter (fun f => (m.frames f).space == some space)

/-- What the caches of these frames remember, oldest first. -/
def rememberedWords (m : Machine) : List Nat → List Nat
  | [] => []
  | f :: rest => rememberedWords m rest ++
      [(m.frames f).delta.lastInstructionCounter, (m.frames f).delta.lastCallOrdinal]

/-- The cache is unset, or remembers an instruction that the frame has reached. -/
def Settled (frame : InterpreterFrame) : Prop :=
  frame.delta.lastDeltaSpace = none ∨
    0 ≤ frame.lasti ∧ frame.delta.lastInstructionCounter ≤ frameCoordinate frame

/-- The older frames of the space are those of the last delta, and their caches hold a prefix of
the consumer's stack. The newer ones are not vouched for by their caches. -/
def Decodable (m : Machine) (space : SpacePtr) (pending stack : List Nat) : Prop :=
  ∃ newer kept, spaceFrames m space m.tstate.stack = newer ++ kept ∧
    rememberedWords m kept <+: stack ∧ ∀ f ∈ newer, f ∈ pending ∨ Stale m space f

/-- The same, when the caches that hold the prefix are all of these frames. -/
def DecodableOn (keeps : Nat → Prop) (m : Machine) (space : SpacePtr) (pending stack : List Nat) :
    Prop :=
  ∃ newer kept, spaceFrames m space m.tstate.stack = newer ++ kept ∧
    rememberedWords m kept <+: stack ∧ (∀ f ∈ newer, f ∈ pending ∨ Stale m space f) ∧
    ∀ f ∈ kept, keeps f

/-- The frames of the space for a delta: those above the chain that it reads, and the newer and the
kept ones of the chain. -/
structure DeltaParts (m : Machine) (n : Nat) (stack above newer kept : List Nat) : Prop where
  frames : spaceFrames m (m.spacePtr n) m.tstate.stack = above ++ (newer ++ kept)
  visible : (threadStateFrame m n).filter (m.visibleIn (m.spacePtr n)) = newer ++ kept
  starts : rememberedWords m kept <+: stack
  stale : ∀ f ∈ newer, Stale m (m.spacePtr n) f
  unread : ∀ f ∈ above, Stale m (m.spacePtr n) f ∧ f ∉ threadStateFrame m n

/-- A delta finds no coordinates, or it takes the stack to them and is remembered. -/
def Answered (m : Machine) (spaceId : Nat) (stack : List Nat) : Prop :=
  (threadDeltaForTstate m spaceId true true = (.noSpace, m) ∧ coordinates m spaceId 0 = none) ∨
    ∃ n words common, findThreadSpace m.tstate spaceId = some n ∧
      threadDeltaForTstate m spaceId true true =
        (.delta (common :: words.drop common), rememberDelta m n) ∧
      coordinates m spaceId 0 = some words ∧ common ≤ stack.length ∧
      stack.take common ++ words.drop common = words ∧
      Decodable (rememberDelta m n) (m.spacePtr n) [] words

section steps
variable {p : Platform} {m m' : Machine} {base : Context} {event : ThreadEvent}
variable {keeps : Nat → Prop}
variable {space : SpacePtr} {spaceId n : Nat} {pending pending' stack : List Nat}

theorem consumableStep_spec (h : consumableStep m spaceId pending event = true) :
    ConsumableStep m spaceId pending event := by
  refine ⟨⟨?_, ?_⟩, ?_⟩
  · intro hpush f rest htop
    have hcomplete : topComplete m = true := by
      cases event <;> simp_all [consumableStep, ThreadEvent.pushes]
    unfold topComplete at hcomplete
    rw [htop] at hcomplete
    simpa using hcomplete
  · intro jumps offset f rest hevent htop
    subst hevent
    unfold consumableStep at h
    simp only [htop, decide_eq_true_eq] at h
    exact h
  · intro allocates tupleAllocates hevent
    subst hevent
    simp only [consumableStep, ne_eq, not_true_eq_false, decide_false, Bool.false_or,
      Bool.and_eq_true, List.isEmpty_iff, Bool.not_eq_true'] at h
    obtain ⟨⟨⟨⟨h₁, h₂⟩, h₃⟩, h₄⟩, h₅⟩ := h
    exact ⟨h₁, h₂, h₃, h₄, h₅⟩

theorem consumable_cons {events : List ThreadEvent}
    (h : consumable p spaceId (event :: events) m pending = true) :
    ConsumableStep m spaceId pending event ∧ ∀ m', threadStep p m event = some m' →
      consumable p spaceId events m' (awaiting m pending event) = true := by
  unfold consumable at h
  rw [Bool.and_eq_true] at h
  refine ⟨consumableStep_spec h.1, ?_⟩
  intro m' hm'
  have hnext := h.2
  rw [hm'] at hnext
  exact hnext

theorem mem_spaceFrames {f : Nat} {items : List StackItem} :
    f ∈ spaceFrames m space items ↔ .frame f ∈ items ∧ (m.frames f).space = some space := by
  unfold spaceFrames
  rw [List.mem_filter, mem_frameChain, beq_iff_eq]

theorem spaceFrames_cons (item : StackItem) (items : List StackItem) :
    spaceFrames m space (item :: items) =
      spaceFrames m space [item] ++ spaceFrames m space items := by
  unfold spaceFrames
  rw [← List.filter_append]
  cases item <;> rfl

theorem SavedOn.spaceFrames {items : List StackItem} (h : SavedOn items m m') (space : SpacePtr) :
    Retrace.spaceFrames m' space items = Retrace.spaceFrames m space items := by
  unfold Retrace.spaceFrames
  apply List.filter_congr
  intro f hf
  rw [(h.frame f (mem_frameChain.mp hf)).1]

theorem rememberedWords_append (first second : List Nat) :
    rememberedWords m (first ++ second) = rememberedWords m second ++ rememberedWords m first := by
  induction first with
  | nil => simp [rememberedWords]
  | cons f first ih => rw [List.cons_append, rememberedWords, ih, rememberedWords, List.append_assoc]

theorem rememberedWords_congr {frames : List Nat}
    (h : ∀ f ∈ frames, (m'.frames f).delta = (m.frames f).delta) :
    rememberedWords m' frames = rememberedWords m frames := by
  induction frames with
  | nil => rfl
  | cons f frames ih =>
    rw [rememberedWords, rememberedWords, h f List.mem_cons_self,
      ih (fun g hg => h g (List.mem_cons_of_mem _ hg))]

theorem cachedWords_visible {frames : List Nat}
    (h : ∀ f ∈ frames, m.visibleIn space f = true) :
    cachedWords m space frames = rememberedWords m frames := by
  induction frames with
  | nil => rfl
  | cons f frames ih =>
    rw [cachedWords_cons, rememberedWords, if_pos (h f List.mem_cons_self),
      ih (fun g hg => h g (List.mem_cons_of_mem _ hg))]

theorem decodable_iff : Decodable m space pending stack ↔
    DecodableOn (fun _ => True) m space pending stack := by
  unfold Decodable DecodableOn
  simp

theorem DecodableOn.carry (h : DecodableOn keeps m space pending stack) (added dropped : List Nat)
    {rest : List Nat}
    (hframes : spaceFrames m space m.tstate.stack = dropped ++ rest)
    (hframes' : spaceFrames m' space m'.tstate.stack = added ++ rest)
    (hadded : ∀ f ∈ added, f ∈ pending' ∨ Stale m' space f)
    (hrest : ∀ f ∈ rest, (m'.frames f).delta = (m.frames f).delta ∧
      (f ∈ pending ∨ Stale m space f → f ∈ pending' ∨ Stale m' space f)) :
    DecodableOn keeps m' space pending' stack := by
  obtain ⟨newer, kept, hsplit, hstarts, hstale, hkeeps⟩ := h
  rw [hframes] at hsplit
  obtain ⟨middle, hnewer, hrestEq⟩ | ⟨middle, hdropped, hkept⟩ :=
    List.append_eq_append_iff.mp hsplit
  · refine ⟨added ++ middle, kept, ?_, ?_, ?_, hkeeps⟩
    · rw [hframes', hrestEq, List.append_assoc]
    · rw [rememberedWords_congr (fun f hf => (hrest f (by rw [hrestEq]; simp [hf])).1)]
      exact hstarts
    · intro f hf
      rw [List.mem_append] at hf
      obtain hf | hf := hf
      · exact hadded f hf
      · exact (hrest f (by rw [hrestEq]; simp [hf])).2 (hstale f (by rw [hnewer]; simp [hf]))
  · refine ⟨added, rest, hframes', ?_, hadded,
      fun f hf => hkeeps f (by rw [hkept]; exact List.mem_append_right _ hf)⟩
    rw [rememberedWords_congr (fun f hf => (hrest f hf).1)]
    rw [hkept, rememberedWords_append] at hstarts
    exact (List.prefix_append _ _).trans hstarts

theorem threadDelta_cached (m : Machine) (f id : Nat) (allocates tupleAllocates : Bool) :
    (threadDeltaForTstate m id allocates tupleAllocates).2.frames f = m.frames f ∨
    ∃ node, findThreadSpace m.tstate id = some node ∧ m.visibleIn (m.spacePtr node) f = true ∧
      (threadDeltaForTstate m id allocates tupleAllocates).2.frames f =
        rememberWords (m.spacePtr node) (m.frames f) := by
  obtain heq | ⟨node, hfind, heq⟩ := threadDelta_cases m id allocates tupleAllocates
  · rw [heq]
    exact Or.inl rfl
  · rw [heq, rememberDelta_frames]
    split
    · rename_i hshown
      exact Or.inr ⟨node, hfind, hshown.2, rfl⟩
    · exact Or.inl rfl

/-- What a step does to a frame and its cache: nothing, a new start, an instruction, or a delta of
the frame's space. -/
theorem Effect.cached (h : Effect m event m') (f : Nat) :
    ((m'.frames f).lasti = (m.frames f).lasti ∧
      (m'.frames f).coordinateBias = (m.frames f).coordinateBias ∧
      (m'.frames f).delta = (m.frames f).delta ∧
      ∀ jumps offset rest, event = .begin jumps offset → m.tstate.stack ≠ .frame f :: rest) ∨
    (.frame f ∉ m.tstate.stack ∧ (m'.frames f).delta = initialDelta) ∨
    (∃ jumps offset rest, event = .begin jumps offset ∧ m.tstate.stack = .frame f :: rest ∧
      m'.frames f = Machine.begunFrame (moveFrame (m.frames f) jumps offset)) ∨
    ∃ id allocates tupleAllocates node, event = .threadDelta id allocates tupleAllocates ∧
      findThreadSpace m.tstate id = some node ∧ m.visibleIn (m.spacePtr node) f = true ∧
      m'.frames f = rememberWords (m.spacePtr node) (m.frames f) := by
  have hquiet : m'.frames f = m.frames f → (∀ jumps offset, event ≠ .begin jumps offset) →
      (m'.frames f).lasti = (m.frames f).lasti ∧
        (m'.frames f).coordinateBias = (m.frames f).coordinateBias ∧
        (m'.frames f).delta = (m.frames f).delta ∧
        ∀ jumps offset rest, event = .begin jumps offset → m.tstate.stack ≠ .frame f :: rest := by
    intro hframe hevent
    rw [hframe]
    exact ⟨rfl, rfl, rfl, fun jumps offset _ heq => absurd heq (hevent jumps offset)⟩
  cases h with
  | call off limit =>
    rename_i g firstTraceable evalEntry allocates
    by_cases heq : f = g
    · subst heq
      right
      left
      rw [pushFrame_frames, if_pos rfl]
      exact ⟨off, rfl⟩
    · left
      refine hquiet ?_ (by simp)
      rw [pushFrame_frames, if_neg heq]
  | resume off limit =>
    rename_i g evalEntry allocates
    by_cases heq : f = g
    · subst heq
      rw [pushFrame_frames, if_pos rfl]
      cases evalEntry with
      | true => exact Or.inr (Or.inl ⟨off, rfl⟩)
      | false => exact Or.inl ⟨rfl, rfl, rfl, by simp⟩
    · left
      refine hquiet ?_ (by simp)
      rw [pushFrame_frames, if_neg heq]
  | newGenerator off =>
    rename_i g lasti
    by_cases heq : f = g
    · subst heq
      right
      left
      rw [setFrame_frames, if_pos rfl]
      exact ⟨off, rfl⟩
    · left
      refine hquiet ?_ (by simp)
      rw [setFrame_frames, if_neg heq]
  | begin top =>
    rename_i jumps offset g rest
    by_cases heq : f = g
    · subst heq
      right
      right
      left
      rw [setFrame_frames, if_pos rfl]
      exact ⟨_, _, _, rfl, top, rfl⟩
    · left
      rw [setFrame_frames, if_neg heq]
      refine ⟨rfl, rfl, rfl, ?_⟩
      intro _ _ rest' _ htop
      rw [top, List.cons.injEq, StackItem.frame.injEq] at htop
      exact heq htop.1.symm
  | leave top current space node_eq previous ne =>
    left
    rw [popFrame_frames _ _ _ _ _ ne]
    split
    · rename_i heq
      subst heq
      exact ⟨rfl, rfl, rfl, by simp⟩
    · split <;> exact ⟨rfl, rfl, rfl, by simp⟩
  | leaveInactive => exact Or.inl (hquiet rfl (by simp))
  | enterFails unused => exact Or.inl (hquiet rfl (by simp))
  | enterSpace unused enters => exact Or.inl (hquiet (congrFun (enters.frames _) f) (by simp))
  | leaveSpace top =>
    exact Or.inl (hquiet (congrFun (leaveSpace_stack_frames m _ _) f) (by simp))
  | callbackFails unused idle => exact Or.inl (hquiet rfl (by simp))
  | callbackBegin top unused idle enters =>
    exact Or.inl (hquiet (congrFun (enters.frames _) f) (by simp))
  | callbackEnd top =>
    rename_i k rest
    exact Or.inl (hquiet (congrFun (leaveSpace_stack_frames m k rest) f) (by simp))
  | threadDelta =>
    rename_i id allocates tupleAllocates
    obtain hframe | ⟨node, hfind, hvisible, hframe⟩ :=
      threadDelta_cached m f id allocates tupleAllocates
    · exact Or.inl (hquiet hframe (by simp))
    · exact Or.inr (Or.inr (Or.inr ⟨_, _, _, node, rfl, hfind, hvisible, hframe⟩))

theorem Effect.added (h : Effect m event m') (hcontext : ContextOk m m.context)
    (hnodup : m.tstate.stack.Nodup) {f : Nat} (hoff : .frame f ∉ m.tstate.stack)
    (hon : .frame f ∈ m'.tstate.stack) (pending : List Nat) :
    f ∈ awaiting m pending event ∨ (m'.frames f).delta = initialDelta := by
  have hpush : event.pushes = true := by
    obtain ⟨kept, -, ⟨hm, hm'⟩ | ⟨top, hm, hm'⟩ | ⟨top, -, -, hpush, -⟩⟩ :=
      h.kept hcontext hnodup
    · exact absurd (hm ▸ hm' ▸ hon) hoff
    · refine absurd ?_ hoff
      rw [hm]
      exact List.mem_cons_of_mem _ (hm' ▸ hon)
    · exact hpush
  have hpushed : ∀ (g : Nat) (frame : InterpreterFrame),
      .frame f ∈ (m.pushFrame g frame).tstate.stack → f = g := by
    intro g frame hmem
    obtain heq | hmem := List.mem_cons.mp hmem
    · exact StackItem.frame.inj heq
    · exact absurd hmem hoff
  cases h with
  | call off limit =>
    right
    rw [pushFrame_frames, if_pos (hpushed _ _ hon)]
    rfl
  | resume off limit =>
    rename_i g evalEntry allocates
    have heq := hpushed _ _ hon
    subst heq
    cases evalEntry with
    | true =>
      right
      rw [pushFrame_frames, if_pos rfl]
      rfl
    | false => exact Or.inl List.mem_cons_self
  | enterSpace unused enters =>
    rename_i k id node allocates entered t scope ptr
    obtain heq | hmem := List.mem_cons.mp hon
    · cases heq
    · rw [enters.callbackState.1] at hmem
      exact absurd hmem hoff
  | callbackBegin top unused idle enters =>
    obtain heq | hmem := List.mem_cons.mp hon
    · cases heq
    · rw [enters.callbackState.1] at hmem
      exact absurd hmem hoff
  | enterFails unused => exact absurd hon hoff
  | callbackFails unused idle => exact absurd hon hoff
  | newGenerator off => cases hpush
  | begin top => cases hpush
  | leave top current space node_eq previous ne => cases hpush
  | leaveInactive => cases hpush
  | leaveSpace top => cases hpush
  | callbackEnd top => cases hpush
  | threadDelta => cases hpush

theorem begunFrame_words (frame : InterpreterFrame) (jumps : List (Int × Int)) (offset : Nat) :
    (Machine.begunFrame (moveFrame frame jumps offset)).delta = frame.delta ∧
      (Machine.begunFrame (moveFrame frame jumps offset)).lasti = offset ∧
      frameCoordinate (Machine.begunFrame (moveFrame frame jumps offset)) =
        frameCoordinate (moveFrame frame jumps offset) := by
  obtain ⟨bias, hbias⟩ := moveFrame_eq frame jumps offset
  rw [hbias]
  unfold Machine.begunFrame
  split <;> exact ⟨rfl, rfl, rfl⟩

theorem visibleIn_complete {f : Nat} (h : m.visibleIn space f = true) :
    isIncomplete (m.frames f) = false := by
  unfold Machine.visibleIn frameIsVisible at h
  simp only [Bool.and_eq_true, Bool.not_eq_true'] at h
  exact h.1.2

theorem Settled.rises {frame : InterpreterFrame} (h : Settled frame) {jumps : List (Int × Int)}
    {offset : Nat} (hrises : frame.lasti < 0 ∨
      frameCoordinate frame < frameCoordinate (moveFrame frame jumps offset)) :
    frame.delta.lastDeltaSpace = none ∨
      frame.delta.lastInstructionCounter < frameCoordinate (moveFrame frame jumps offset) := by
  obtain hnone | ⟨hlasti, hle⟩ := h
  · exact Or.inl hnone
  · right
    omega

theorem Effect.settled (h : Effect m event m') (hstep : Promised m event)
    (hsettled : ∀ f, Settled (m.frames f)) (f : Nat) : Settled (m'.frames f) := by
  obtain ⟨hlasti, hbias, hdelta, -⟩ | ⟨-, hdelta⟩ | ⟨jumps, offset, rest, hevent, htop, hframe⟩ |
    ⟨id, allocates, tupleAllocates, node, -, -, hv, hframe⟩ := h.cached f
  · have hsame := hsettled f
    unfold Settled frameCoordinate at hsame ⊢
    rwa [hlasti, hbias, hdelta]
  · left
    rw [hdelta]
    rfl
  · obtain ⟨hdelta, hlasti, hcoordinate⟩ := begunFrame_words (m.frames f) jumps offset
    unfold Settled
    rw [hframe, hdelta, hlasti, hcoordinate]
    refine ((hsettled f).rises (hstep.rises jumps offset f rest hevent htop)).imp_right ?_
    intro hlt
    exact ⟨Int.natCast_nonneg _, Nat.le_of_lt hlt⟩
  · have hready := visibleIn_complete hv
    unfold isIncomplete at hready
    rw [hframe]
    right
    refine ⟨?_, Nat.le_refl _⟩
    change 0 ≤ (m.frames f).lasti
    have hfirst := of_decide_eq_false hready
    omega

theorem mem_awaiting {f : Nat} (hf : f ∈ pending)
    (hbegin : ∀ jumps offset rest, event = .begin jumps offset → m.tstate.stack ≠ .frame f :: rest)
    (hleave : ∀ again rest, event = .leave again → m.tstate.stack ≠ .frame f :: rest) :
    f ∈ awaiting m pending event := by
  have hfilter : (∀ rest, m.tstate.stack ≠ .frame f :: rest) → f ∈ (match m.tstate.stack with
      | .frame g :: _ => pending.filter (fun h => h ≠ g)
      | _ => pending) := by
    intro hne
    split
    · rename_i g rest htop
      rw [List.mem_filter]
      refine ⟨hf, decide_eq_true ?_⟩
      intro heq
      exact hne rest (heq ▸ htop)
    · exact hf
  cases event with
  | resume g evalEntry allocates =>
    cases evalEntry with
    | true => exact hf
    | false => exact List.mem_cons_of_mem _ hf
  | begin jumps offset => exact hfilter (fun rest => hbegin jumps offset rest rfl)
  | leave again => exact hfilter (fun rest => hleave again rest rfl)
  | _ => exact hf

/-- A frame that stays keeps what its cache remembers, and keeps being vouched for or not, unless
the step is a delta of its space. -/
theorem Effect.carried (h : Effect m event m') (hseg : Segment [] base m)
    (hstep : Promised m event) (hsettled : ∀ f, Settled (m.frames f))
    {n f : Nat} (hon : .frame f ∈ m.tstate.stack) (hon' : .frame f ∈ m'.tstate.stack)
    (hspace : (m.frames f).space = some (m.spacePtr n))
    (hother : ∀ id allocates tupleAllocates, event = .threadDelta id allocates tupleAllocates →
      findThreadSpace m.tstate id ≠ some n) :
    (m'.frames f).delta = (m.frames f).delta ∧
      (f ∈ pending ∨ Stale m (m.spacePtr n) f →
        f ∈ awaiting m pending event ∨ Stale m' (m.spacePtr n) f) := by
  obtain ⟨hlasti, hbias, hdelta, hbegin⟩ | ⟨hoff, -⟩ |
    ⟨jumps, offset, rest, hevent, htop, hframe⟩ |
    ⟨id, allocates, tupleAllocates, node, hevent, hfind, hv, -⟩ := h.cached f
  · refine ⟨hdelta, Or.imp ?_ ?_⟩
    · intro hf
      refine mem_awaiting hf hbegin ?_
      intro again rest hevent htop
      subst hevent
      cases h with
      | leave top current space node_eq previous ne =>
        rw [top, List.cons.injEq] at htop
        have hnodup := hseg.nodup
        rw [top, List.nodup_cons] at hnodup
        rw [popFrame_stack] at hon'
        exact hnodup.1 (htop.1 ▸ hon')
    · unfold Stale frameCoordinate
      rw [hlasti, hbias, hdelta]
      exact id
  · exact absurd hon hoff
  · obtain ⟨hdelta, -, hcoordinate⟩ := begunFrame_words (m.frames f) jumps offset
    refine ⟨by rw [hframe, hdelta], fun _ => Or.inr ?_⟩
    unfold Stale
    rw [hframe, hdelta, hcoordinate]
    obtain hnone | hlt := (hsettled f).rises (hstep.rises jumps offset f rest hevent htop)
    · left
      rw [hnone]
      simp
    · exact Or.inr (ne_of_lt hlt)
  · have hnode := visibleIn_space hv
    rw [hspace, Option.some.injEq] at hnode
    have heq : n = node := congrArg SpacePtr.node hnode
    exact absurd (heq ▸ hfind) (hother id allocates tupleAllocates hevent)

theorem DecodableOn.step (h : DecodableOn keeps m (m.spacePtr n) pending stack)
    (hseg : Segment [] base m) (heffect : Effect m event m') (hstep : Promised m event)
    (hsettled : ∀ f, Settled (m.frames f))
    (hother : ∀ id allocates tupleAllocates, event = .threadDelta id allocates tupleAllocates →
      findThreadSpace m.tstate id ≠ some n) :
    DecodableOn keeps m' (m.spacePtr n) (awaiting m pending event) stack := by
  have hcontext := hseg.contextOk
  have hrest : ∀ items, (∀ item ∈ items, item ∈ m.tstate.stack ∧ item ∈ m'.tstate.stack) →
      ∀ f ∈ spaceFrames m (m.spacePtr n) items, (m'.frames f).delta = (m.frames f).delta ∧
        (f ∈ pending ∨ Stale m (m.spacePtr n) f →
          f ∈ awaiting m pending event ∨ Stale m' (m.spacePtr n) f) := by
    intro items hitems f hf
    obtain ⟨hmem, hspace⟩ := mem_spaceFrames.mp hf
    obtain ⟨hon, hon'⟩ := hitems _ hmem
    exact heffect.carried hseg hstep hsettled hon hon' hspace hother
  obtain ⟨kept, hsaved, ⟨hm, hm'⟩ | ⟨top, hm, hm'⟩ | ⟨top, hm, hm', -⟩⟩ :=
    heffect.kept hcontext hseg.nodup
  · refine h.carry [] [] rfl ?_ (by simp)
      (hrest m.tstate.stack (fun item hitem => ⟨hitem, by rwa [hm', ← hm]⟩))
    rw [hm', ← hm, List.nil_append]
    exact (hm ▸ hsaved).spaceFrames _
  · refine h.carry [] _ (by rw [hm, spaceFrames_cons]) ?_ (by simp)
      (hrest kept (fun item hitem => ⟨by rw [hm]; exact List.mem_cons_of_mem _ hitem, hm' ▸ hitem⟩))
    rw [hm', List.nil_append]
    exact hsaved.spaceFrames _
  · refine h.carry _ [] (by rw [hm, List.nil_append])
      (by rw [hm', spaceFrames_cons, hsaved.spaceFrames]) ?_
      (hrest kept (fun item hitem => ⟨hm ▸ hitem, by rw [hm']; exact List.mem_cons_of_mem _ hitem⟩))
    intro f hf
    obtain ⟨hmem, -⟩ := mem_spaceFrames.mp hf
    rw [List.mem_singleton] at hmem
    have hoff : .frame f ∉ m.tstate.stack := by
      have hnodup := (hseg.step heffect (List.nil_suffix)).nodup
      rw [hm', List.nodup_cons, ← hm, ← hmem] at hnodup
      exact hnodup.1
    refine (heffect.added hcontext hseg.nodup hoff (by rw [hm', hmem]; exact List.mem_cons_self)
      pending).imp_right ?_
    intro hdelta
    left
    rw [hdelta]
    simp [initialDelta]

theorem spaceFrames_eq_filter (hcomplete : ∀ f, .frame f ∈ m.tstate.stack →
    isIncomplete (m.frames f) = false) :
    m.chain.filter (m.visibleIn space) = spaceFrames m space m.tstate.stack := by
  unfold spaceFrames Machine.chain
  apply List.filter_congr
  intro f hf
  unfold Machine.visibleIn frameIsVisible
  rw [hcomplete f (mem_frameChain.mp hf)]
  cases (m.frames f).space with
  | none => rfl
  | some space' => simp

theorem take_eq_of_prefix {words words' : List Nat} (h : words <+: words') {k : Nat}
    (hk : k ≤ words.length) : words.take k = words'.take k := by
  obtain ⟨suffix, rfl⟩ := h
  rw [List.take_append_of_le_length hk]

theorem deltaScan_common {chain newer kept : List Nat}
    (hvisible : chain.filter (m.visibleIn space) = newer ++ kept)
    (hstarts : rememberedWords m kept <+: stack) (hstale : ∀ f ∈ newer, Stale m space f)
    {initial : Nat} (hinitial : initial ≤ (frameWords m space chain).length) :
    deltaScan m space chain (frameWords m space chain).length initial ≤ stack.length ∧
      stack.take (deltaScan m space chain (frameWords m space chain).length initial) =
        (frameWords m space chain).take
          (deltaScan m space chain (frameWords m space chain).length initial) := by
  have hall : ∀ f ∈ newer ++ kept, m.visibleIn space f = true := by
    intro f hf
    rw [← hvisible] at hf
    exact (List.mem_filter.mp hf).2
  have hkept := cachedWords_visible (fun f hf => hall f (List.mem_append_right newer hf))
  rw [← deltaScan_filter, ← frameWords_filter, hvisible]
  rw [← frameWords_filter, hvisible] at hinitial
  have hle : deltaScan m space (newer ++ kept) (frameWords m space (newer ++ kept)).length initial ≤
      (frameWords m space kept).length := by
    obtain rfl | ⟨upper, f, rfl⟩ := List.eq_nil_or_concat' newer
    · exact Nat.le_trans (deltaScan_le _ _ _) hinitial
    · have hmem : f ∈ upper ++ [f] := by simp
      rw [List.append_assoc, List.singleton_append]
      exact deltaScan_stale upper kept initial (hall f (List.mem_append_left kept hmem))
        (hstale f hmem)
  have hagrees : (frameWords m space (newer ++ kept)).take _ = (cachedWords m space _).take _ :=
    deltaScan_agrees (newer ++ kept) initial
  generalize deltaScan m space (newer ++ kept) (frameWords m space (newer ++ kept)).length
    initial = k at hle hagrees
  rw [← cachedWords_length, hkept] at hle
  refine ⟨Nat.le_trans hle hstarts.length_le, ?_⟩
  rw [hagrees, cachedWords_visible hall, rememberedWords_append, ← take_eq_of_prefix hstarts hle,
    List.take_append_of_le_length hle]

theorem rememberedWords_visible {frames : List Nat}
    (h : ∀ f ∈ frames, m.visibleIn space f = true ∧
      m'.frames f = rememberWords space (m.frames f)) :
    rememberedWords m' frames = frameWords m space frames := by
  induction frames with
  | nil => rfl
  | cons f frames ih =>
    obtain ⟨hv, hframe⟩ := h f List.mem_cons_self
    rw [rememberedWords, frameWords_cons, if_pos hv, hframe,
      ih (fun g hg => h g (List.mem_cons_of_mem _ hg))]
    rfl

theorem decodable_rememberDelta {above : List Nat}
    (hframes : spaceFrames m (m.spacePtr n) m.tstate.stack =
      above ++ (threadStateFrame m n).filter (m.visibleIn (m.spacePtr n)))
    (habove : ∀ f ∈ above, Stale m (m.spacePtr n) f ∧ f ∉ threadStateFrame m n) :
    Decodable (rememberDelta m n) (m.spacePtr n) []
      (frameWords m (m.spacePtr n) (threadStateFrame m n)) := by
  have hsame : spaceFrames (rememberDelta m n) (m.spacePtr n) (rememberDelta m n).tstate.stack =
      spaceFrames m (m.spacePtr n) m.tstate.stack :=
    (savedOn_rememberDelta m.tstate.stack m n).spaceFrames _
  have hwords : rememberedWords (rememberDelta m n)
      ((threadStateFrame m n).filter (m.visibleIn (m.spacePtr n))) =
      frameWords m (m.spacePtr n)
        ((threadStateFrame m n).filter (m.visibleIn (m.spacePtr n))) := by
    apply rememberedWords_visible
    intro f hf
    exact ⟨(List.mem_filter.mp hf).2, by rw [rememberDelta_frames, if_pos (List.mem_filter.mp hf)]⟩
  refine ⟨above, _, hsame.trans hframes, ?_, ?_⟩
  · have hall := hwords.trans (frameWords_filter (threadStateFrame m n))
    exact hall ▸ List.prefix_rfl
  · intro f hf
    obtain ⟨hstale, hout⟩ := habove f hf
    right
    unfold Stale frameCoordinate at hstale ⊢
    rw [rememberDelta_frames, if_neg (fun hand => hout hand.1)]
    exact hstale

theorem answered_of_parts (h : ∀ n, findThreadSpace m.tstate spaceId = some n →
    ∃ above newer kept, DeltaParts m n stack above newer kept) : Answered m spaceId stack := by
  cases hfind : findThreadSpace m.tstate spaceId with
  | none =>
    left
    simp [threadDeltaForTstate, coordinates, hfind]
  | some n =>
    cases hseen : (m.tstate.space n).seen with
    | false =>
      left
      simp [threadDeltaForTstate, coordinates, hfind, hseen]
    | true =>
      right
      obtain ⟨above, newer, kept, hparts⟩ := h n hfind
      obtain ⟨initial, hinitial, hdelta⟩ := threadDeltaForTstate_seen m hfind hseen rfl
      obtain ⟨hle, htake⟩ := deltaScan_common hparts.visible hparts.starts hparts.stale hinitial
      refine ⟨n, _, _, hfind, hdelta, ?_, hle, ?_,
        decodable_rememberDelta (hparts.visible ▸ hparts.frames) hparts.unread⟩
      · unfold coordinates
        simp [hfind, hseen, coordinatesOf_eq]
      · rw [htake, List.take_append_drop]

theorem Answered.decodes (h : Answered m spaceId stack) :
    Decodes stack (coordinates m spaceId 0) (threadDeltaForTstate m spaceId true true).1 := by
  obtain ⟨hnone, hcoordinates⟩ | ⟨n, words, common, -, hdelta, hcoordinates, hle, happend, -⟩ := h
  · rw [hnone]
    exact hcoordinates
  · rw [hdelta, hcoordinates]
    exact ⟨hle, congrArg some happend.symm⟩

theorem Answered.consumed (h : Answered m spaceId stack) (hcircle : Circle m.tstate)
    (hresult : m' = (threadDeltaForTstate m spaceId true true).2) :
    ∃ stack', decode stack (threadDeltaForTstate m spaceId true true).1 = some stack' ∧
      (m' = m ∧ stack' = stack ∨ ∀ n, findThreadSpace m'.tstate spaceId = some n →
        Decodable m' (m'.spacePtr n) [] stack') := by
  obtain ⟨hnone, -⟩ | ⟨n, words, common, hfind, hdelta, -, hle, happend, hdecodable⟩ := h
  · rw [hnone] at hresult ⊢
    exact ⟨stack, rfl, Or.inl ⟨hresult, rfl⟩⟩
  · rw [hdelta] at hresult ⊢
    subst hresult
    refine ⟨words, (if_pos hle).trans (congrArg some happend), Or.inr ?_⟩
    intro n' hfind'
    have hsaved := savedOn_rememberDelta m.tstate.stack m n
    obtain ⟨hlt, hid⟩ := hcircle.find_some hfind
    have hfound := (rememberDelta_circle m hcircle n).find_eq (Nat.lt_of_lt_of_le hlt hsaved.length)
    rw [hsaved.spaceId n hlt, hid, hfind', Option.some.injEq] at hfound
    rw [hfound, hsaved.spacePtr]
    exact hdecodable

/-- What decoding rests on, in every state of a run. -/
structure Consuming (m : Machine) (spaceId : Nat) (pending stack : List Nat) : Prop where
  standing : ∃ l, Standing m l
  complete : ∀ item rest, m.tstate.stack = item :: rest → ∀ f, .frame f ∈ rest →
    isIncomplete (m.frames f) = false
  settled : ∀ f, Settled (m.frames f)
  decodable : ∀ n, findThreadSpace m.tstate spaceId = some n →
    Decodable m (m.spacePtr n) pending stack

theorem Idle.consuming (h : Idle m) (hsettled : ∀ f, Settled (m.frames f)) :
    Consuming m spaceId [] [] := by
  refine ⟨⟨_, h.standing⟩, ?_, hsettled, ?_⟩
  · intro item rest hstack
    rw [h.stack] at hstack
    cases hstack
  · intro n _
    refine ⟨[], [], ?_, List.prefix_rfl, by simp⟩
    rw [h.stack]
    rfl

theorem complete_of_top (htop : topComplete m = true)
    (hbelow : ∀ item rest, m.tstate.stack = item :: rest → ∀ f, .frame f ∈ rest →
      isIncomplete (m.frames f) = false) {f : Nat} (hf : .frame f ∈ m.tstate.stack) :
    isIncomplete (m.frames f) = false := by
  cases hstack : m.tstate.stack with
  | nil =>
    rw [hstack] at hf
    cases hf
  | cons item rest =>
    rw [hstack, List.mem_cons] at hf
    obtain heq | hf := hf
    · unfold topComplete at htop
      rw [hstack, ← heq] at htop
      simpa using htop
    · exact hbelow item rest hstack f hf

theorem Consuming.answered (h : Consuming m spaceId pending stack)
    (hstep : ConsumableStep m spaceId pending (.threadDelta spaceId true true)) :
    Answered m spaceId stack := by
  obtain ⟨-, -, hpending, htop, hidle⟩ := hstep.delta true true rfl
  subst hpending
  refine answered_of_parts (fun n hfind => ?_)
  obtain ⟨newer, kept, hsplit, hstarts, hstale⟩ := h.decodable n hfind
  have hchain : threadStateFrame m n = m.chain := by
    unfold threadStateFrame
    rw [if_neg (by simp [hidle])]
  refine ⟨[], newer, kept, hsplit, ?_, hstarts,
    fun f hf => (hstale f hf).resolve_left List.not_mem_nil, by simp⟩
  rw [hchain]
  exact (spaceFrames_eq_filter (fun f hf => complete_of_top htop h.complete hf)).trans hsplit

theorem decodableOn_fresh (hseg : Segment [] base m) (hn : m.tstate.spaces.length ≤ n) :
    DecodableOn keeps m (m.spacePtr n) pending stack := by
  have hempty : spaceFrames m (m.spacePtr n) m.tstate.stack = [] := by
    rw [List.eq_nil_iff_forall_not_mem]
    intro f hf
    have hlt := hseg.space_lt (mem_spaceFrames.mp hf).2
    omega
  exact ⟨[], [], hempty, List.nil_prefix, by simp, by simp⟩

/-- Any step but a delta of the space keeps what the consumer can decode, in a new space as well. -/
theorem DecodableOn.others (h : ∀ n, findThreadSpace m.tstate spaceId = some n →
      DecodableOn keeps m (m.spacePtr n) pending stack)
    (hseg : Segment [] base m) (heffect : Effect m event m') (hcircle' : Circle m'.tstate)
    (hstep : Promised m event) (hsettled : ∀ f, Settled (m.frames f))
    (hevent : ∀ allocates tupleAllocates, event ≠ .threadDelta spaceId allocates tupleAllocates)
    (hfind : findThreadSpace m'.tstate spaceId = some n) :
    DecodableOn keeps m' (m'.spacePtr n) (awaiting m pending event) stack := by
  obtain ⟨kept, hsaved, -⟩ := heffect.kept hseg.contextOk hseg.nodup
  have hid := (hcircle'.find_some hfind).2
  rw [hsaved.spacePtr]
  by_cases hlt : n < m.tstate.spaces.length
  · rw [hsaved.spaceId n hlt] at hid
    have hfound := hseg.circle.find_eq hlt
    rw [hid] at hfound
    refine (h n hfound).step hseg heffect hstep hsettled ?_
    intro id allocates tupleAllocates heq hother
    have hsame := (hseg.circle.find_some hother).2
    rw [hid] at hsame
    exact hevent allocates tupleAllocates (hsame ▸ heq)
  · have hfresh : DecodableOn keeps m (m.spacePtr n) pending stack :=
      decodableOn_fresh hseg (by omega)
    refine hfresh.step hseg heffect hstep hsettled ?_
    intro id allocates tupleAllocates _ hother
    exact hlt (hseg.circle.find_some hother).1

theorem Consuming.step (h : Consuming m spaceId pending stack)
    (hrun : threadStep p m event = some m') (hstep : ConsumableStep m spaceId pending event) :
    ∃ stack', consume m spaceId stack event = some stack' ∧
      Consuming m' spaceId (awaiting m pending event) stack' := by
  obtain ⟨l, hstanding⟩ := h.standing
  obtain ⟨hnext, heffect⟩ := hstanding.step hrun
  obtain ⟨base, -, hseg⟩ := hstanding.segment
  have hcomplete : ∀ item rest, m'.tstate.stack = item :: rest → ∀ f, .frame f ∈ rest →
      isIncomplete (m'.frames f) = false := by
    intro item rest hstack f hf
    exact heffect.complete hseg.contextOk hseg.nodup hstep.complete h.complete hstack hf
  have hsettled := heffect.settled hstep.toPromised h.settled
  obtain ⟨base', -, hseg'⟩ := hnext.segment
  have hkeeps : (∀ allocates tupleAllocates, event ≠ .threadDelta spaceId allocates tupleAllocates) →
      ∀ n, findThreadSpace m'.tstate spaceId = some n →
      Decodable m' (m'.spacePtr n) (awaiting m pending event) stack := by
    intro hevent n hfind
    exact decodable_iff.mpr (DecodableOn.others (fun n hfound => decodable_iff.mp
      (h.decodable n hfound)) hseg heffect hseg'.circle hstep.toPromised h.settled hevent hfind)
  cases event with
  | threadDelta id allocates tupleAllocates =>
    by_cases hid : id = spaceId
    · subst hid
      obtain ⟨hallocates, htuple, hpending, -⟩ := hstep.delta allocates tupleAllocates rfl
      subst hallocates htuple
      have hresult : m' = (threadDeltaForTstate m id true true).2 := (Option.some.inj hrun).symm
      have hconsume : consume m id stack (.threadDelta id true true) =
          decode stack (threadDeltaForTstate m id true true).1 := if_pos rfl
      rw [hconsume]
      obtain ⟨stack', hdecode, ⟨hsame, rfl⟩ | hdecodable⟩ :=
        (h.answered hstep).consumed hseg.circle hresult
      · rw [hsame]
        exact ⟨stack', hdecode, h⟩
      · refine ⟨stack', hdecode, ⟨_, hnext⟩, hcomplete, hsettled, ?_⟩
        rw [hpending]
        exact hdecodable
    · refine ⟨stack, if_neg hid, ⟨_, hnext⟩, hcomplete, hsettled, hkeeps ?_⟩
      intro _ _ heq
      cases heq
      exact hid rfl
  | _ => exact ⟨stack, rfl, ⟨⟨_, hnext⟩, hcomplete, hsettled, hkeeps (by simp)⟩⟩

theorem Consuming.run {events : List ThreadEvent} (h : Consuming m spaceId pending stack)
    (hrun : threadRun p events m = some m')
    (hassumed : consumable p spaceId (events ++ [.threadDelta spaceId true true]) m pending = true) :
    ∃ stack' pending', consumerStack p spaceId events m stack = some stack' ∧
      Consuming m' spaceId pending' stack' ∧
      ConsumableStep m' spaceId pending' (.threadDelta spaceId true true) := by
  induction events generalizing m pending stack with
  | nil =>
    cases hrun
    exact ⟨stack, pending, rfl, h, (consumable_cons hassumed).1⟩
  | cons event events ih =>
    rw [threadRun_cons, Option.bind_eq_some_iff] at hrun
    obtain ⟨mid, hstep, hrun⟩ := hrun
    obtain ⟨hone, hnext⟩ := consumable_cons hassumed
    obtain ⟨stack', hconsume, hconsuming⟩ := h.step hstep hone
    obtain ⟨last, pending', hlast, hrest⟩ := ih hconsuming hrun (hnext mid hstep)
    refine ⟨last, pending', ?_, hrest⟩
    unfold consumerStack
    rw [hconsume, hstep]
    exact hlast

/-- Every delta of a space decodes over the stack of the space's one consumer, to the coordinates
the space has at that moment. -/
theorem threadDelta_decodes {origin : Machine} {events : List ThreadEvent} (hidle : Idle origin)
    (hsettled : ∀ f, Settled (origin.frames f))
    (hrun : threadRun p events origin = some m)
    (hassumed : consumable p spaceId (events ++ [.threadDelta spaceId true true]) origin [] =
      true) :
    ∃ stack, consumerStack p spaceId events origin [] = some stack ∧
      Decodes stack (coordinates m spaceId 0) (threadDeltaForTstate m spaceId true true).1 := by
  obtain ⟨stack, pending, hstack, hconsuming, hstep⟩ := (hidle.consuming hsettled).run hrun hassumed
  exact ⟨stack, hstack, (hconsuming.answered hstep).decodes⟩

theorem threadDelta_decodes_generator :
    ∃ m stack, threadRun ⟨true, true⟩ [.call 0 0 true true, .begin [] 3, .newGenerator 2 1,
        .resume 2 false true, .begin [] 4, .threadDelta 0 true true, .leave 0, .resume 2 true true,
        .begin [] 6] (freshMachine ⟨true, true⟩ 0) = some m ∧
      stack = [3, 0, 4, 0] ∧ coordinates m 0 0 = some [3, 1, 6, 0] ∧
      (threadDeltaForTstate m 0 true true).1 = .delta [1, 1, 6, 0] ∧
      Decodes stack (coordinates m 0 0) (threadDeltaForTstate m 0 true true).1 := by
  obtain ⟨m, hrun⟩ : ∃ m, threadRun ⟨true, true⟩ [.call 0 0 true true, .begin [] 3,
      .newGenerator 2 1, .resume 2 false true, .begin [] 4, .threadDelta 0 true true, .leave 0,
      .resume 2 true true, .begin [] 6] (freshMachine ⟨true, true⟩ 0) = some m := ⟨_, rfl⟩
  have hdecodes : ∃ stack, consumerStack ⟨true, true⟩ 0 _ (freshMachine ⟨true, true⟩ 0) [] =
      some stack ∧ Decodes stack (coordinates m 0 0) (threadDeltaForTstate m 0 true true).1 :=
    threadDelta_decodes (freshMachine_idle ⟨true, true⟩ 0) (fun _ => Or.inl rfl) hrun rfl
  obtain ⟨stack, hstack, hdecodes⟩ := hdecodes
  have hwords : stack = [3, 0, 4, 0] := (Option.some.inj hstack).symm
  refine ⟨m, stack, hrun, hwords, ?_, ?_, hdecodes⟩
  · cases hrun
    rfl
  · cases hrun
    rfl

end steps

end Retrace
