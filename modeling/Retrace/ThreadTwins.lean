import Retrace.SpaceAttachment
import Retrace.SwitchCursors

/-! Threads that go through the same frames and scopes, and differ in what callbacks leave behind:
the state of the disabled space, and frames that the program does not use. -/

set_option autoImplicit false

namespace Retrace

/-- The frame whose ordinal a pointer is to. -/
def framePtr : Option OrdinalPtr → Option Nat
  | some (.frame f) => some f
  | _ => none

/-- Callbacks run in the disabled space; what they do to it is ignored for the other spaces. -/
def ignored (spaceId id : Nat) : Bool := id = spaceIdDisabled && spaceId ≠ spaceIdDisabled

/-- The event uses no frames but these, and finds room for the space it enters. -/
def ThreadEvent.keepsTo (own : Nat → Prop) : ThreadEvent → Prop
  | .call f _ _ _ => own f
  | .resume f _ _ => own f
  | .enterSpace _ _ allocates => allocates = true
  | .callbackBegin _ allocates => allocates = true
  | _ => True

/-- The threads have the same stack, with the same in all that coordinates come from. -/
structure Twin (own : Nat → Prop) (spaceId : Nat) (m m' : Machine) : Prop where
  stack : m'.tstate.stack = m.tstate.stack
  owned : ∀ f, .frame f ∈ m.tstate.stack → own f
  threadId : m'.tstate.threadId = m.tstate.threadId
  active : m'.tstate.threadCallbackActive = m.tstate.threadCallbackActive
  pin : m.tstate.threadCallbackActive = true →
    m'.tstate.threadCallbackFrame = m.tstate.threadCallbackFrame
  inherited : m'.tstate.inheritedSpaceId = m.tstate.inheritedSpaceId
  ptr : framePtr m'.tstate.callOrdinalPtr = framePtr m.tstate.callOrdinalPtr
  knows : ∀ id, ignored spaceId id = false → (Knows m' id ↔ Knows m id)
  placed : ∀ f, own f → (m'.frames f).lasti = (m.frames f).lasti ∧
    (m'.frames f).firstTraceable = (m.frames f).firstTraceable ∧
    (m'.frames f).coordinateBias = (m.frames f).coordinateBias
  frame : ∀ f, .frame f ∈ m.tstate.stack → (∀ id, frameOf m' id f = frameOf m id f) ∧
    framePtr (m'.frames f).previousCallOrdinalPtr = framePtr (m.frames f).previousCallOrdinalPtr
  ordinal : ∀ f, .frame f ∈ m.tstate.stack →
    (∀ id, frameOf m id f = true → ignored spaceId id = false) →
    (m'.frames f).currentCallOrdinal = (m.frames f).currentCallOrdinal
  scope : ∀ k ∈ scopeIds m.tstate.stack,
    (m'.scopes k).previousSpaceId = (m.scopes k).previousSpaceId ∧
    framePtr (m'.scopes k).previousCallOrdinalPtr = framePtr (m.scopes k).previousCallOrdinalPtr

section accessors
variable {p : Platform} {m m' : Machine} {base : Context} {spaceId : Nat} {items : List StackItem}

theorem knows_iff (hcircle : Circle m.tstate) : Knows m spaceId ↔
    ∃ n < m.tstate.spaces.length, (m.tstate.space n).spaceId = spaceId ∧
      (m.tstate.space n).seen = true := by
  constructor
  · rintro ⟨n, hfind, hseen⟩
    obtain ⟨hlt, hid⟩ := hcircle.find_some hfind
    exact ⟨n, hlt, hid, hseen⟩
  · rintro ⟨n, hlt, hid, hseen⟩
    exact ⟨n, hid ▸ hcircle.find_eq hlt, hseen⟩

theorem popFrame_still (m : Machine) (f node : Nat) (ptr : OrdinalPtr) (rest : List StackItem) :
    (m.popFrame f node ptr rest).tstate.threadId = m.tstate.threadId ∧
    (m.popFrame f node ptr rest).tstate.threadCallbackActive = m.tstate.threadCallbackActive ∧
    (m.popFrame f node ptr rest).tstate.threadCallbackFrame = m.tstate.threadCallbackFrame ∧
    (m.popFrame f node ptr rest).tstate.inheritedSpaceId = m.tstate.inheritedSpaceId ∧
    (m.popFrame f node ptr rest).tstate.callOrdinalPtr = some ptr := by
  rw [popFrame_tstate]
  cases ptr <;> exact ⟨rfl, rfl, rfl, rfl, rfl⟩

theorem moveFrame_bias {frame frame' : InterpreterFrame}
    (h : frame'.coordinateBias = frame.coordinateBias) (jumps : List (Int × Int)) (offset : Nat) :
    (moveFrame frame' jumps offset).coordinateBias =
      (moveFrame frame jumps offset).coordinateBias := by
  unfold moveFrame
  dsimp only
  induction jumps generalizing frame frame' with
  | nil => exact h
  | cons jump jumps ih =>
    rw [List.foldl_cons, List.foldl_cons]
    refine ih ?_
    unfold coordinateJump
    dsimp only
    rw [h]

theorem begunFrame_placed {frame frame' : InterpreterFrame} {jumps : List (Int × Int)}
    {offset : Nat} (hbias : (moveFrame frame' jumps offset).coordinateBias =
      (moveFrame frame jumps offset).coordinateBias)
    (hfirst : frame'.firstTraceable = frame.firstTraceable) :
    (Machine.begunFrame (moveFrame frame' jumps offset)).lasti =
        (Machine.begunFrame (moveFrame frame jumps offset)).lasti ∧
      (Machine.begunFrame (moveFrame frame' jumps offset)).firstTraceable =
        (Machine.begunFrame (moveFrame frame jumps offset)).firstTraceable ∧
      (Machine.begunFrame (moveFrame frame' jumps offset)).coordinateBias =
        (Machine.begunFrame (moveFrame frame jumps offset)).coordinateBias := by
  have hsame : ∀ frame : InterpreterFrame, (Machine.begunFrame frame).lasti = frame.lasti ∧
      (Machine.begunFrame frame).firstTraceable = frame.firstTraceable ∧
      (Machine.begunFrame frame).coordinateBias = frame.coordinateBias := by
    intro frame
    unfold Machine.begunFrame
    split <;> exact ⟨rfl, rfl, rfl⟩
  obtain ⟨hl, hf, hb⟩ := hsame (moveFrame frame jumps offset)
  obtain ⟨hl', hf', hb'⟩ := hsame (moveFrame frame' jumps offset)
  obtain ⟨bias, hmove⟩ := moveFrame_eq frame jumps offset
  obtain ⟨bias', hmove'⟩ := moveFrame_eq frame' jumps offset
  refine ⟨?_, ?_, hb'.trans (hbias.trans hb.symm)⟩
  · rw [hl, hl']
    rfl
  · rw [hf, hf', hmove, hmove']
    exact hfirst

theorem findThreadSpace_spaces {t t' : ThreadState} (hspaces : t'.spaces = t.spaces)
    (hlast : t'.lastSpace = t.lastSpace) (id : Nat) :
    findThreadSpace t' id = findThreadSpace t id := by
  have hspace : t'.space = t.space := by
    funext n
    unfold ThreadState.space
    rw [hspaces]
  have hloop : ∀ fuel node, findThreadSpaceLoop t' id fuel node =
      findThreadSpaceLoop t id fuel node := by
    intro fuel
    induction fuel with
    | zero => exact fun _ => rfl
    | succ fuel ih =>
      intro node
      unfold findThreadSpaceLoop
      rw [hspace, hlast, ih]
  unfold findThreadSpace
  rw [hspaces, hspace, hlast, hloop]

theorem knows_spaces (hspaces : m'.tstate.spaces = m.tstate.spaces)
    (hlast : m'.tstate.lastSpace = m.tstate.lastSpace) : Knows m' spaceId ↔ Knows m spaceId := by
  have hspace : m'.tstate.space = m.tstate.space := by
    funext n
    unfold ThreadState.space
    rw [hspaces]
  unfold Knows
  rw [findThreadSpace_spaces hspaces hlast, hspace]

theorem knows_kept (hcircle : Circle m.tstate) (hcircle' : Circle m'.tstate)
    (hlength : m.tstate.spaces.length ≤ m'.tstate.spaces.length)
    (hold : ∀ n < m.tstate.spaces.length,
      (m'.tstate.space n).spaceId = (m.tstate.space n).spaceId ∧
        (m'.tstate.space n).seen = (m.tstate.space n).seen)
    (hnew : ∀ n, m.tstate.spaces.length ≤ n → n < m'.tstate.spaces.length →
      (m'.tstate.space n).seen = false) : Knows m' spaceId ↔ Knows m spaceId := by
  rw [knows_iff hcircle, knows_iff hcircle']
  constructor
  · rintro ⟨n, hlt, hid, hseen⟩
    by_cases hn : n < m.tstate.spaces.length
    · obtain ⟨hid', hseen'⟩ := hold n hn
      exact ⟨n, hn, hid'.symm.trans hid, hseen'.symm.trans hseen⟩
    · rw [hnew n (Nat.le_of_not_lt hn) hlt] at hseen
      cases hseen
  · rintro ⟨n, hlt, hid, hseen⟩
    obtain ⟨hid', hseen'⟩ := hold n hlt
    exact ⟨n, Nat.lt_of_lt_of_le hlt hlength, hid'.trans hid, hseen'.trans hseen⟩

theorem frameOf_unique {f id id' : Nat} (h : frameOf m id f = true) (h' : frameOf m id' f = true) :
    id = id' := by
  unfold frameOf at h h'
  obtain ⟨space, hspace, hid⟩ := (Option.any_eq_true _ _).mp h
  obtain ⟨space', hspace', hid'⟩ := (Option.any_eq_true _ _).mp h'
  rw [hspace] at hspace'
  cases hspace'
  exact (beq_iff_eq.mp hid).symm.trans (beq_iff_eq.mp hid')

theorem SavedOn.frameOf (h : SavedOn items m m') (hseg : Segment [] base m) {f : Nat}
    (hf : .frame f ∈ items) (hon : .frame f ∈ m.tstate.stack) :
    Retrace.frameOf m' spaceId f = Retrace.frameOf m spaceId f := by
  obtain ⟨n, hn, hspace⟩ := hseg.frame_space hon
  have hspace' : (m'.frames f).space = some (m'.spacePtr n) := by
    rw [(h.frame f hf).1, h.spacePtr, hspace]
  rw [frameOf_spacePtr hspace, frameOf_spacePtr hspace', h.spaceId n hn]

theorem SavedOn.scopeSaved (h : SavedOn items m m') {k : Nat} (hk : k ∈ scopeIds items) :
    (m'.scopes k).previousSpaceId = (m.scopes k).previousSpaceId ∧
      (m'.scopes k).previousCallOrdinalPtr = (m.scopes k).previousCallOrdinalPtr := by
  have hscope := h.scope k hk
  rw [SpaceScope.mk.injEq] at hscope
  exact ⟨hscope.2.1, hscope.2.2.1⟩

theorem Segment.isSome (h : Segment [] base m) {f : Nat} (hf : .frame f ∈ m.tstate.stack) :
    (m.frames f).space.isSome = true := by
  obtain ⟨n, -, hspace⟩ := h.frame_space hf
  rw [hspace]
  rfl

theorem Segment.currentSpaceId (h : Segment [] base m) :
    m.currentSpaceId = m.tstate.inheritedSpaceId := h.contextOk.id

theorem pushFrame_frameOf (hseg : Segment [] base m) (f : Nat) (frame : InterpreterFrame) :
    frameOf (m.pushFrame f frame) spaceId f = (m.tstate.inheritedSpaceId == spaceId) := by
  have hcurrent : m.tstate.currentSpace < m.tstate.spaces.length := hseg.contextOk.space
  have hspace : ((m.pushFrame f frame).frames f).space =
      some ((m.pushFrame f frame).spacePtr m.tstate.currentSpace) := by
    rw [pushFrame_frames, if_pos rfl]
    rfl
  rw [frameOf_spacePtr hspace, pushFrame_space m f frame hcurrent, if_pos rfl,
    ← hseg.currentSpaceId]
  rfl

theorem pushFrame_knows (hseg : Segment [] base m) (f : Nat) (frame : InterpreterFrame) :
    Knows (m.pushFrame f frame) spaceId ↔
      Knows m spaceId ∨ spaceId = m.tstate.inheritedSpaceId := by
  have hcurrent : m.tstate.currentSpace < m.tstate.spaces.length := hseg.contextOk.space
  have hid : (m.tstate.space m.tstate.currentSpace).spaceId = m.tstate.inheritedSpaceId :=
    hseg.contextOk.id
  rw [knows_iff hseg.circle, knows_iff (pushFrame_circle m hseg.circle f frame), pushFrame_length]
  constructor
  · rintro ⟨n, hlt, hspace, hseen⟩
    rw [pushFrame_space m f frame hlt] at hspace hseen
    by_cases hn : n = m.tstate.currentSpace
    · rw [if_pos hn] at hspace
      exact Or.inr (hspace.symm.trans (hn ▸ hid))
    · rw [if_neg hn] at hspace hseen
      exact Or.inl ⟨n, hlt, hspace, hseen⟩
  · rintro (⟨n, hlt, hspace, hseen⟩ | rfl)
    · refine ⟨n, hlt, ?_⟩
      rw [pushFrame_space m f frame hlt]
      split
      · exact ⟨hspace, rfl⟩
      · exact ⟨hspace, hseen⟩
    · refine ⟨m.tstate.currentSpace, hcurrent, ?_⟩
      rw [pushFrame_space m f frame hcurrent, if_pos rfl]
      exact ⟨hid, rfl⟩

end accessors

section twins
variable {p : Platform} {own : Nat → Prop} {spaceId : Nat} {m m' m₂ m₂' : Machine}
  {base base' : Context} {items : List StackItem}

theorem Twin.refl (howned : ∀ f, .frame f ∈ m.tstate.stack → own f) : Twin own spaceId m m :=
  ⟨rfl, howned, rfl, rfl, fun _ => rfl, rfl, rfl, fun _ _ => Iff.rfl, fun _ _ => ⟨rfl, rfl, rfl⟩,
    fun _ _ => ⟨fun _ => rfl, rfl⟩, fun _ _ _ => rfl, fun _ _ => ⟨rfl, rfl⟩⟩

theorem Twin.trans (h : Twin own spaceId m m') (h' : Twin own spaceId m' m₂') :
    Twin own spaceId m m₂' := by
  refine ⟨h'.stack.trans h.stack, h.owned, h'.threadId.trans h.threadId, h'.active.trans h.active,
    ?_, h'.inherited.trans h.inherited, h'.ptr.trans h.ptr, ?_, ?_, ?_, ?_, ?_⟩
  · intro hactive
    exact (h'.pin (h.active.trans hactive)).trans (h.pin hactive)
  · intro id hid
    exact (h'.knows id hid).trans (h.knows id hid)
  · intro f hf
    obtain ⟨hlasti, hfirst, hbias⟩ := h.placed f hf
    obtain ⟨hlasti', hfirst', hbias'⟩ := h'.placed f hf
    exact ⟨hlasti'.trans hlasti, hfirst'.trans hfirst, hbias'.trans hbias⟩
  · intro f hf
    obtain ⟨hspace, hprev⟩ := h.frame f hf
    obtain ⟨hspace', hprev'⟩ := h'.frame f (h.stack ▸ hf)
    exact ⟨fun id => (hspace' id).trans (hspace id), hprev'.trans hprev⟩
  · intro f hf hopen
    refine (h'.ordinal f (h.stack ▸ hf) ?_).trans (h.ordinal f hf hopen)
    intro id hid
    rw [(h.frame f hf).1 id] at hid
    exact hopen id hid
  · intro k hk
    obtain ⟨hid, hprev⟩ := h.scope k hk
    obtain ⟨hid', hprev'⟩ := h'.scope k (h.stack ▸ hk)
    exact ⟨hid'.trans hid, hprev'.trans hprev⟩

theorem Twin.symm (h : Twin own spaceId m m') : Twin own spaceId m' m := by
  refine ⟨h.stack.symm, fun f hf => h.owned f (h.stack ▸ hf), h.threadId.symm, h.active.symm, ?_,
    h.inherited.symm, h.ptr.symm, fun id hid => (h.knows id hid).symm, ?_, ?_, ?_, ?_⟩
  · intro hactive
    exact (h.pin (h.active.symm.trans hactive)).symm
  · intro f hf
    obtain ⟨hlasti, hfirst, hbias⟩ := h.placed f hf
    exact ⟨hlasti.symm, hfirst.symm, hbias.symm⟩
  · intro f hf
    obtain ⟨hspace, hprev⟩ := h.frame f (h.stack ▸ hf)
    exact ⟨fun id => (hspace id).symm, hprev.symm⟩
  · intro f hf hopen
    have hf' : .frame f ∈ m.tstate.stack := h.stack ▸ hf
    refine (h.ordinal f hf' ?_).symm
    intro id hid
    rw [← (h.frame f hf').1 id] at hid
    exact hopen id hid
  · intro k hk
    obtain ⟨hid, hprev⟩ := h.scope k (h.stack ▸ hk)
    exact ⟨hid.symm, hprev.symm⟩

theorem Twin.shown (h : Twin own spaceId m m') (hseg : Segment [] base m)
    (hseg' : Segment [] base' m') {f : Nat} (hf : .frame f ∈ m.tstate.stack) (id : Nat) :
    shownOf m' id f = shownOf m id f := by
  obtain ⟨hlasti, hfirst, -⟩ := h.placed f (h.owned f hf)
  unfold shownOf frameIsVisible isIncomplete
  rw [(h.frame f hf).1 id, hseg.isSome hf, hseg'.isSome (h.stack ▸ hf), hlasti, hfirst]

theorem Twin.chain (h : Twin own spaceId m m') : m'.chain = m.chain := by
  unfold Machine.chain
  rw [h.stack]

theorem Twin.currentThreadFrame (h : Twin own spaceId m m') (hseg : Segment [] base m)
    (hseg' : Segment [] base' m') :
    Retrace.currentThreadFrame m' = Retrace.currentThreadFrame m := by
  unfold Retrace.currentThreadFrame Machine.callbackChain
  rw [hseg.currentSpaceId, hseg'.currentSpaceId, h.inherited, h.active, h.chain]
  split
  · rename_i hand
    rw [h.pin hand.1]
  · rfl

theorem Twin.kept (h : Twin own spaceId m m') (hseg : Segment [] base m)
    (hseg' : Segment [] base' m') (hsaved : SavedOn items m m₂) (hsaved' : SavedOn items m' m₂')
    (hsub : ∀ item ∈ items, item ∈ m.tstate.stack) :
    (∀ f, .frame f ∈ items → (∀ id, frameOf m₂' id f = frameOf m₂ id f) ∧
      framePtr (m₂'.frames f).previousCallOrdinalPtr =
        framePtr (m₂.frames f).previousCallOrdinalPtr) ∧
    ∀ k ∈ scopeIds items, (m₂'.scopes k).previousSpaceId = (m₂.scopes k).previousSpaceId ∧
      framePtr (m₂'.scopes k).previousCallOrdinalPtr =
        framePtr (m₂.scopes k).previousCallOrdinalPtr := by
  refine ⟨?_, ?_⟩
  · intro f hf
    have hon := hsub _ hf
    obtain ⟨hspace, hprev⟩ := h.frame f hon
    refine ⟨fun id => ?_, ?_⟩
    · rw [hsaved.frameOf hseg hf hon, hsaved'.frameOf hseg' hf (h.stack ▸ hon), hspace]
    · rw [(hsaved.frame f hf).2, (hsaved'.frame f hf).2, hprev]
  · intro k hk
    have hon : k ∈ scopeIds m.tstate.stack := by
      rw [mem_scopeIds] at hk ⊢
      exact hk.imp (hsub _) (hsub _)
    obtain ⟨hid, hprev⟩ := h.scope k hon
    obtain ⟨hsame, hptr⟩ := hsaved.scopeSaved hk
    obtain ⟨hsame', hptr'⟩ := hsaved'.scopeSaved hk
    rw [hsame, hsame', hptr, hptr']
    exact ⟨hid, hprev⟩

theorem Twin.pushFrame (h : Twin own spaceId m m') (hseg : Segment [] base m)
    (hseg' : Segment [] base' m') {f : Nat} (hown : own f) (hoff : .frame f ∉ m.tstate.stack)
    {frame frame' : InterpreterFrame} (hplaced : frame'.lasti = frame.lasti ∧
      frame'.firstTraceable = frame.firstTraceable ∧ frame'.coordinateBias = frame.coordinateBias) :
    Twin own spaceId (m.pushFrame f frame) (m'.pushFrame f frame') := by
  have hoff' : .frame f ∉ m'.tstate.stack := h.stack ▸ hoff
  obtain ⟨hframes, hscopes⟩ := h.kept hseg hseg' (savedOn_pushFrame frame hoff)
    (h.stack ▸ savedOn_pushFrame frame' hoff') (fun _ hmem => hmem)
  refine ⟨congrArg (List.cons (StackItem.frame f)) h.stack, ?_, h.threadId, h.active, h.pin,
    h.inherited, rfl, ?_, ?_, ?_, ?_, ?_⟩
  · intro g hg
    obtain heq | hg := List.mem_cons.mp hg
    · cases heq
      exact hown
    · exact h.owned g hg
  · intro id hid
    rw [pushFrame_knows hseg, pushFrame_knows hseg', h.knows id hid, h.inherited]
  · intro g hg
    rw [pushFrame_frames, pushFrame_frames]
    split
    · exact hplaced
    · exact h.placed g hg
  · intro g hg
    obtain heq | hg := List.mem_cons.mp hg
    · cases heq
      refine ⟨fun id => ?_, ?_⟩
      · rw [pushFrame_frameOf hseg, pushFrame_frameOf hseg', h.inherited]
      · rw [pushFrame_frames, pushFrame_frames, if_pos rfl, if_pos rfl]
        exact h.ptr
    · exact hframes g hg
  · intro g hg hopen
    rw [pushFrame_frames, pushFrame_frames]
    split
    · rfl
    · rename_i hne
      have hg : .frame g ∈ m.tstate.stack :=
        (List.mem_cons.mp hg).resolve_left (fun heq => hne (StackItem.frame.inj heq))
      refine h.ordinal g hg (fun id hid => hopen id ?_)
      rw [(savedOn_pushFrame frame hoff).frameOf hseg hg hg]
      exact hid
  · intro k hk
    exact hscopes k hk

theorem Twin.begin (h : Twin own spaceId m m') (hseg : Segment [] base m)
    (hseg' : Segment [] base' m') {f offset : Nat} {rest : List StackItem}
    (htop : m.tstate.stack = .frame f :: rest) (jumps : List (Int × Int)) :
    Twin own spaceId
      (m.setFrame f (Machine.begunFrame (moveFrame (m.frames f) jumps offset)))
      (m'.setFrame f (Machine.begunFrame (moveFrame (m'.frames f) jumps offset))) := by
  have hon : .frame f ∈ m.tstate.stack := by
    rw [htop]
    exact List.mem_cons_self
  obtain ⟨hspace, hprev⟩ := begunFrame_saved (m.frames f) jumps offset
  obtain ⟨hspace', hprev'⟩ := begunFrame_saved (m'.frames f) jumps offset
  have hsaved := savedOn_setFrame m.tstate.stack m f (fun _ => hspace) (fun _ => hprev)
  have hsaved' := savedOn_setFrame m.tstate.stack m' f (fun _ => hspace') (fun _ => hprev')
  obtain ⟨hframes, hscopes⟩ := h.kept hseg hseg' hsaved hsaved' (fun _ hmem => hmem)
  obtain ⟨hlasti, hfirst, hbias⟩ := h.placed f (h.owned f hon)
  have hmoved : (moveFrame (m'.frames f) jumps offset).coordinateBias =
      (moveFrame (m.frames f) jumps offset).coordinateBias := moveFrame_bias hbias jumps offset
  have hvisible : frameIsVisible (moveFrame (m'.frames f) jumps offset) =
      frameIsVisible (moveFrame (m.frames f) jumps offset) := by
    obtain ⟨bias, hmove⟩ := moveFrame_eq (m.frames f) jumps offset
    obtain ⟨bias', hmove'⟩ := moveFrame_eq (m'.frames f) jumps offset
    unfold frameIsVisible isIncomplete
    rw [hmove, hmove']
    dsimp only
    rw [hfirst, hseg.isSome hon, hseg'.isSome (h.stack ▸ hon)]
  refine ⟨h.stack, h.owned, h.threadId, h.active, h.pin, h.inherited, h.ptr, h.knows, ?_, hframes,
    ?_, hscopes⟩
  · intro g hg
    rw [setFrame_frames, setFrame_frames]
    split
    · exact begunFrame_placed hmoved hfirst
    · exact h.placed g hg
  · intro g hg hopen
    have hbefore : ∀ id, frameOf m id g = true → ignored spaceId id = false := by
      intro id hid
      refine hopen id ?_
      rw [hsaved.frameOf hseg hg hg]
      exact hid
    rw [setFrame_frames, setFrame_frames]
    split
    · rename_i hgf
      subst hgf
      unfold Machine.begunFrame
      rw [hvisible]
      split
      · rfl
      · obtain ⟨bias, hmove⟩ := moveFrame_eq (m.frames g) jumps offset
        obtain ⟨bias', hmove'⟩ := moveFrame_eq (m'.frames g) jumps offset
        rw [hmove, hmove']
        exact h.ordinal g hg hbefore
    · exact h.ordinal g hg hbefore

theorem Twin.popFrame (h : Twin own spaceId m m') (hseg : Segment [] base m)
    (hseg' : Segment [] base' m') {f node node' : Nat} {ptr ptr' : OrdinalPtr}
    {rest : List StackItem} (htop : m.tstate.stack = .frame f :: rest)
    (hprev : (m.frames f).previousCallOrdinalPtr = some ptr) (hne : ptr ≠ .frame f)
    (hprev' : (m'.frames f).previousCallOrdinalPtr = some ptr') (hne' : ptr' ≠ .frame f) :
    Twin own spaceId (m.popFrame f node ptr rest) (m'.popFrame f node' ptr' rest) := by
  have hon : .frame f ∈ m.tstate.stack := by
    rw [htop]
    exact List.mem_cons_self
  have hnodup := hseg.nodup
  rw [htop, List.nodup_cons] at hnodup
  have hsub : ∀ item ∈ rest, item ∈ m.tstate.stack := by
    intro item hmem
    rw [htop]
    exact List.mem_cons_of_mem _ hmem
  have hsaved : SavedOn rest m (m.popFrame f node ptr rest) := savedOn_popFrame rest hne hnodup.1
  have hsaved' : SavedOn rest m' (m'.popFrame f node' ptr' rest) :=
    savedOn_popFrame rest hne' hnodup.1
  obtain ⟨hframes, hscopes⟩ := h.kept hseg hseg' hsaved hsaved' hsub
  have hptr : framePtr (some ptr') = framePtr (some ptr) := by
    rw [← hprev, ← hprev']
    exact (h.frame f hon).2
  have hcounts : ∀ g, ptr' = .frame g ↔ ptr = .frame g := by
    intro g
    have hframe : ∀ slot : OrdinalPtr, slot = .frame g ↔ framePtr (some slot) = some g := by
      intro slot
      cases slot <;> simp [framePtr]
    rw [hframe, hframe, hptr]
  have hknows : ∀ {m : Machine} (node : Nat) (ptr : OrdinalPtr) (id : Nat), Circle m.tstate →
      (Knows (m.popFrame f node ptr rest) id ↔ Knows m id) := by
    intro m node ptr id hcircle
    refine knows_kept hcircle (popFrame_circle m hcircle f node ptr rest)
      (Nat.le_of_eq (popFrame_length m f node ptr rest).symm) ?_ ?_
    · intro n hn
      rw [popFrame_space m f node ptr rest hn]
      exact ⟨rfl, rfl⟩
    · intro n hle hlt
      rw [popFrame_length] at hlt
      omega
  have hstill := popFrame_still m f node ptr rest
  have hstill' := popFrame_still m' f node' ptr' rest
  refine ⟨?_, ?_, ?_, ?_, ?_, ?_, ?_, ?_, ?_, ?_, ?_, ?_⟩
  · rw [popFrame_stack, popFrame_stack]
  · intro g hg
    rw [popFrame_stack] at hg
    exact h.owned g (hsub _ hg)
  · exact hstill'.1.trans (h.threadId.trans hstill.1.symm)
  · exact hstill'.2.1.trans (h.active.trans hstill.2.1.symm)
  · intro hactive
    rw [hstill.2.1] at hactive
    exact hstill'.2.2.1.trans ((h.pin hactive).trans hstill.2.2.1.symm)
  · exact hstill'.2.2.2.1.trans (h.inherited.trans hstill.2.2.2.1.symm)
  · rw [hstill.2.2.2.2, hstill'.2.2.2.2]
    exact hptr
  · intro id hid
    rw [hknows node ptr id hseg.circle, hknows node' ptr' id hseg'.circle]
    exact h.knows id hid
  · intro g hg
    rw [popFrame_frames m f node ptr rest hne, popFrame_frames m' f node' ptr' rest hne']
    split
    · exact h.placed f (h.owned f hon)
    · rw [if_congr (hcounts g) rfl rfl]
      split <;> exact h.placed g hg
  · intro g hg
    rw [popFrame_stack] at hg
    exact hframes g hg
  · intro g hg hopen
    rw [popFrame_stack] at hg
    have hgf : g ≠ f := fun heq => hnodup.1 (heq ▸ hg)
    have hsame := h.ordinal g (hsub _ hg) (fun id hid => hopen id (by
      rw [hsaved.frameOf hseg hg (hsub _ hg)]
      exact hid))
    rw [popFrame_frames m f node ptr rest hne, popFrame_frames m' f node' ptr' rest hne',
      if_neg hgf, if_neg hgf, if_congr (hcounts g) rfl rfl]
    split
    · exact congrArg (fun ordinal => (ordinal + 1) % 2 ^ 64) hsame
    · exact hsame
  · intro k hk
    rw [popFrame_stack] at hk
    exact hscopes k hk

/-- A step that moves no frame and counts nothing on one. -/
structure Still (m m₂ : Machine) : Prop where
  frames : ∀ f, (m₂.frames f).lasti = (m.frames f).lasti ∧
    (m₂.frames f).firstTraceable = (m.frames f).firstTraceable ∧
    (m₂.frames f).coordinateBias = (m.frames f).coordinateBias
  ordinal : ∀ f, (m₂.frames f).currentCallOrdinal = (m.frames f).currentCallOrdinal
  knows : ∀ id, Knows m₂ id ↔ Knows m id
  threadId : m₂.tstate.threadId = m.tstate.threadId

theorem Still.refl (m : Machine) : Still m m :=
  ⟨fun _ => ⟨rfl, rfl, rfl⟩, fun _ => rfl, fun _ => Iff.rfl, rfl⟩

theorem Still.trans (h : Still m m') (h' : Still m' m₂) : Still m m₂ := by
  refine ⟨?_, fun f => (h'.ordinal f).trans (h.ordinal f),
    fun id => (h'.knows id).trans (h.knows id), h'.threadId.trans h.threadId⟩
  intro f
  obtain ⟨hlasti, hfirst, hbias⟩ := h.frames f
  obtain ⟨hlasti', hfirst', hbias'⟩ := h'.frames f
  exact ⟨hlasti'.trans hlasti, hfirst'.trans hfirst, hbias'.trans hbias⟩

theorem Still.setStack (h : Still m m') (stack : List StackItem) : Still m (m'.setStack stack) := by
  refine ⟨h.frames, h.ordinal, fun id => ?_, h.threadId⟩
  have hsame : Knows (m'.setStack stack) id ↔ Knows m' id := knows_spaces rfl rfl
  exact hsame.trans (h.knows id)

theorem Still.setCallback (h : Still m m') (active : Bool) (frame : Option Nat) :
    Still m (m'.setCallback active frame) := by
  refine ⟨h.frames, h.ordinal, fun id => ?_, h.threadId⟩
  have hsame : Knows (m'.setCallback active frame) id ↔ Knows m' id := knows_spaces rfl rfl
  exact hsame.trans (h.knows id)

theorem EntersSpace.still {k id node : Nat} {t : ThreadState} {scope : SpaceScope}
    {ptr : OrdinalPtr} (h : EntersSpace m k id m' node t scope ptr) (hcircle : Circle m.tstate) :
    Still m m' := by
  have hsame := h.grown.same
  have hframes : m'.frames = m.frames := h.frames (.scope k)
  refine ⟨fun f => ?_, fun f => ?_, ?_, ?_⟩
  · rw [hframes]
    exact ⟨rfl, rfl, rfl⟩
  · rw [hframes]
  · intro other
    have hknows : Knows (m.setTstate t) other ↔ Knows m other := by
      refine knows_kept hcircle h.grown.circle h.grown.length ?_ ?_
      · intro n hn
        change (t.space n).spaceId = _ ∧ (t.space n).seen = _
        rw [h.grown.space n hn]
        exact ⟨rfl, rfl⟩
      · intro n hle hlt
        obtain ⟨rootHash, hfresh⟩ := h.grown.fresh n hle hlt
        change (t.space n).seen = false
        rw [hfresh]
        rfl
    have hspaces : Knows m' other ↔ Knows (m.setTstate t) other := by
      rw [h.result]
      exact knows_spaces rfl rfl
    exact hspaces.trans hknows
  · rw [h.result, hsame]

theorem leaveSpace_still (hcircle : Circle m.tstate) (k : Nat) : Still m (leaveSpace m k) := by
  refine ⟨fun f => ?_, fun f => ?_, ?_, ?_⟩
  · rw [leaveSpace_frames]
    exact ⟨rfl, rfl, rfl⟩
  · rw [leaveSpace_frames]
  · intro id
    refine knows_kept hcircle (leaveSpace_circle m hcircle k)
      (Nat.le_of_eq (leaveSpace_length m k).symm) ?_ ?_
    · intro n hn
      rw [leaveSpace_space m k hn]
      exact ⟨rfl, rfl⟩
    · intro n hle hlt
      rw [leaveSpace_length] at hlt
      omega
  · rw [leaveSpace_tstate]
    dsimp only
    split <;> rfl

theorem rememberDelta_still (hcircle : Circle m.tstate) (node : Nat) :
    Still m (rememberDelta m node) := by
  refine ⟨fun f => ?_, fun f => (rememberDelta_saved m node f).2.2, ?_, rfl⟩
  · rw [rememberDelta_frames]
    split <;> exact ⟨rfl, rfl, rfl⟩
  · intro id
    refine knows_kept hcircle (rememberDelta_circle m hcircle node)
      (Nat.le_of_eq (rememberDelta_length m node).symm) ?_ ?_
    · intro n hn
      rw [rememberDelta_space m node hn]
      split <;> exact ⟨rfl, rfl⟩
    · intro n hle hlt
      rw [rememberDelta_length] at hlt
      omega

theorem Twin.still (h : Twin own spaceId m m') (hseg : Segment [] base m)
    (hseg' : Segment [] base' m') (hsaved : SavedOn items m m₂) (hsaved' : SavedOn items m' m₂')
    (hsub : ∀ item ∈ items, item ∈ m.tstate.stack) (hstill : Still m m₂) (hstill' : Still m' m₂')
    (hstack : m₂'.tstate.stack = m₂.tstate.stack)
    (hitems : ∀ f, .frame f ∈ m₂.tstate.stack → .frame f ∈ items)
    (hscope : ∀ k ∈ scopeIds m₂.tstate.stack, k ∉ scopeIds items →
      (m₂'.scopes k).previousSpaceId = (m₂.scopes k).previousSpaceId ∧
      framePtr (m₂'.scopes k).previousCallOrdinalPtr =
        framePtr (m₂.scopes k).previousCallOrdinalPtr)
    (hactive : m₂'.tstate.threadCallbackActive = m₂.tstate.threadCallbackActive)
    (hpin : m₂.tstate.threadCallbackActive = true →
      m₂'.tstate.threadCallbackFrame = m₂.tstate.threadCallbackFrame)
    (hinherited : m₂'.tstate.inheritedSpaceId = m₂.tstate.inheritedSpaceId)
    (hptr : framePtr m₂'.tstate.callOrdinalPtr = framePtr m₂.tstate.callOrdinalPtr) :
    Twin own spaceId m₂ m₂' := by
  obtain ⟨hframes, hscopes⟩ := h.kept hseg hseg' hsaved hsaved' hsub
  refine ⟨hstack, fun f hf => h.owned f (hsub _ (hitems f hf)), ?_, hactive, hpin, hinherited, hptr,
    ?_, ?_, fun f hf => hframes f (hitems f hf), ?_, ?_⟩
  · rw [hstill.threadId, hstill'.threadId, h.threadId]
  · intro id hid
    rw [hstill.knows, hstill'.knows]
    exact h.knows id hid
  · intro f hf
    obtain ⟨hlasti, hfirst, hbias⟩ := hstill.frames f
    obtain ⟨hlasti', hfirst', hbias'⟩ := hstill'.frames f
    rw [hlasti, hfirst, hbias, hlasti', hfirst', hbias']
    exact h.placed f hf
  · intro f hf hopen
    have hmem := hitems f hf
    rw [hstill.ordinal, hstill'.ordinal]
    refine h.ordinal f (hsub _ hmem) (fun id hid => hopen id ?_)
    rw [hsaved.frameOf hseg hmem (hsub _ hmem)]
    exact hid
  · intro k hk
    by_cases hin : k ∈ scopeIds items
    · exact hscopes k hin
    · exact hscope k hk hin

theorem Twin.threadDelta (h : Twin own spaceId m m') (hseg : Segment [] base m)
    (hseg' : Segment [] base' m') (id id' : Nat) (allocates allocates' tuple tuple' : Bool) :
    Twin own spaceId (threadDeltaForTstate m id allocates tuple).2
      (threadDeltaForTstate m' id' allocates' tuple').2 := by
  have hdelta : ∀ {m : Machine} {base : Context}, Segment [] base m →
      ∀ (id : Nat) (allocates tuple : Bool),
      Still m (threadDeltaForTstate m id allocates tuple).2 ∧
      SavedOn m.tstate.stack m (threadDeltaForTstate m id allocates tuple).2 ∧
      (threadDeltaForTstate m id allocates tuple).2.scopes = m.scopes ∧
      ∃ spaces, (threadDeltaForTstate m id allocates tuple).2.tstate =
        { m.tstate with spaces := spaces } := by
    intro m base hseg id allocates tuple
    obtain heq | ⟨node, -, heq⟩ := threadDelta_cases m id allocates tuple
    · rw [heq]
      exact ⟨Still.refl m, SavedOn.refl _ m, rfl, _, rfl⟩
    · rw [heq]
      exact ⟨rememberDelta_still hseg.circle node, savedOn_rememberDelta _ m node, rfl, _, rfl⟩
  obtain ⟨hstill, hsaved, -, spaces, ht⟩ := hdelta hseg id allocates tuple
  obtain ⟨hstill', hsaved', -, spaces', ht'⟩ := hdelta hseg' id' allocates' tuple'
  refine h.still hseg hseg' hsaved (h.stack ▸ hsaved') (fun _ hmem => hmem) hstill hstill' ?_ ?_ ?_
    ?_ ?_ ?_ ?_
  · rw [ht, ht']
    exact h.stack
  · rw [ht]
    exact fun f hf => hf
  · rw [ht]
    exact fun k hk hnot => absurd hk hnot
  · rw [ht, ht']
    exact h.active
  · rw [ht, ht']
    exact h.pin
  · rw [ht, ht']
    exact h.inherited
  · rw [ht, ht']
    exact h.ptr

theorem Twin.setCallback (h : Twin own spaceId m m') (active : Bool) (frame : Option Nat) :
    Twin own spaceId (m.setCallback active frame) (m'.setCallback active frame) := by
  refine ⟨h.stack, h.owned, h.threadId, rfl, fun _ => rfl, h.inherited, h.ptr, ?_, h.placed,
    h.frame, h.ordinal, h.scope⟩
  intro id hid
  have hsame : ∀ m : Machine, Knows (m.setCallback active frame) id ↔ Knows m id :=
    fun m => knows_spaces rfl rfl
  rw [hsame, hsame]
  exact h.knows id hid

theorem Twin.newGenerator (h : Twin own spaceId m m') (hseg : Segment [] base m)
    (hseg' : Segment [] base' m') {g : Nat} (hoff : .frame g ∉ m.tstate.stack) (lasti : Nat) :
    Twin own spaceId (m.setFrame g (newFrame lasti 0)) (m'.setFrame g (newFrame lasti 0)) := by
  have hoff' : .frame g ∉ m'.tstate.stack := h.stack ▸ hoff
  have hsaved : ∀ m : Machine, .frame g ∉ m.tstate.stack →
      SavedOn m.tstate.stack m (m.setFrame g (newFrame lasti 0)) := fun m hoff =>
    savedOn_setFrame _ m g (fun hon => absurd hon hoff) (fun hon => absurd hon hoff)
  obtain ⟨hframes, hscopes⟩ := h.kept hseg hseg' (hsaved m hoff) (h.stack ▸ hsaved m' hoff')
    (fun _ hmem => hmem)
  refine ⟨h.stack, h.owned, h.threadId, h.active, h.pin, h.inherited, h.ptr, h.knows, ?_, hframes,
    ?_, hscopes⟩
  · intro f hf
    rw [setFrame_frames, setFrame_frames]
    split
    · exact ⟨rfl, rfl, rfl⟩
    · exact h.placed f hf
  · intro f hf hopen
    rw [setFrame_frames, setFrame_frames]
    split
    · rfl
    · refine h.ordinal f hf (fun id hid => hopen id ?_)
      rw [(hsaved m hoff).frameOf hseg hf hf]
      exact hid

theorem Twin.enter (h : Twin own spaceId m m') (hseg : Segment [] base m)
    (hseg' : Segment [] base' m') {k id node node' : Nat} {t t' : ThreadState}
    {scope scope' : SpaceScope} {ptr ptr' : OrdinalPtr} (hk : k ∉ scopeIds m.tstate.stack)
    (henters : EntersSpace m k id m₂ node t scope ptr)
    (henters' : EntersSpace m' k id m₂' node' t' scope' ptr') {item : StackItem}
    (hitem : item = .scope k ∨ item = .callback k) :
    Twin own spaceId (m₂.push item) (m₂'.push item) := by
  obtain ⟨hstack, hactive, hframe⟩ := henters.callbackState
  obtain ⟨hstack', hactive', hframe'⟩ := henters'.callbackState
  have hpushed : (m₂.push item).tstate.stack = item :: m.tstate.stack := by
    change item :: m₂.tstate.stack = _
    rw [hstack]
  have hscopeIds : scopeIds (item :: m.tstate.stack) = k :: scopeIds m.tstate.stack := by
    obtain rfl | rfl := hitem
    · exact scopeIds_cons_scope k _
    · exact scopeIds_cons_callback k _
  have hnear := henters.nearest hseg
  have hnear' := henters'.nearest hseg'
  refine h.still hseg hseg' ((savedOn_enterSpace henters hk).setStack _)
    ((savedOn_enterSpace henters' hk).setStack _) (fun _ hmem => hmem)
    ((henters.still hseg.circle).setStack _) ((henters'.still hseg'.circle).setStack _) ?_ ?_ ?_ ?_
    ?_ ?_ ?_
  · change item :: m₂'.tstate.stack = item :: m₂.tstate.stack
    rw [hstack, hstack', h.stack]
  · intro f hf
    change .frame f ∈ (m₂.push item).tstate.stack at hf
    rw [hpushed, List.mem_cons] at hf
    refine hf.resolve_left (fun heq => ?_)
    obtain rfl | rfl := hitem <;> cases heq
  · intro j hj hnot
    change j ∈ scopeIds (m₂.push item).tstate.stack at hj
    rw [hpushed, hscopeIds, List.mem_cons] at hj
    obtain rfl := hj.resolve_right hnot
    obtain ⟨-, hid, hprev⟩ := henters.saved
    obtain ⟨-, hid', hprev'⟩ := henters'.saved
    have hscope : (m₂.scopes j) = scope := by
      rw [henters.result]
      exact Function.update_self ..
    have hscope' : (m₂'.scopes j) = scope' := by
      rw [henters'.result]
      exact Function.update_self ..
    change (m₂'.scopes j).previousSpaceId = (m₂.scopes j).previousSpaceId ∧
      framePtr (m₂'.scopes j).previousCallOrdinalPtr = framePtr (m₂.scopes j).previousCallOrdinalPtr
    rw [hscope, hscope', hid, hid', hprev, hprev']
    exact ⟨h.inherited, h.ptr⟩
  · exact hactive'.trans (h.active.trans hactive.symm)
  · intro hpinned
    change m₂.tstate.threadCallbackActive = true at hpinned
    rw [hactive] at hpinned
    exact hframe'.trans ((h.pin hpinned).trans hframe.symm)
  · change m₂'.tstate.inheritedSpaceId = m₂.tstate.inheritedSpaceId
    rw [henters.result, henters'.result]
  · change framePtr m₂'.tstate.callOrdinalPtr = framePtr m₂.tstate.callOrdinalPtr
    rw [henters.result, henters'.result]
    dsimp only
    rw [hnear, hnear', h.currentThreadFrame hseg hseg']
    rw [← List.head?_filter, ← List.head?_filter]
    congr 4
    refine List.filter_congr ?_
    intro f hf
    exact h.shown hseg hseg' (mem_frameChain.mp (currentThreadFrame_sub hf)) id

theorem Twin.leave (h : Twin own spaceId m m') (hseg : Segment [] base m)
    (hseg' : Segment [] base' m') {k : Nat} {item : StackItem} {rest : List StackItem}
    (htop : m.tstate.stack = item :: rest) (hitem : item = .scope k ∨ item = .callback k) :
    Twin own spaceId ((leaveSpace m k).setStack rest) ((leaveSpace m' k).setStack rest) := by
  have hsub : ∀ other ∈ rest, other ∈ m.tstate.stack := by
    intro other hmem
    rw [htop]
    exact List.mem_cons_of_mem _ hmem
  have hk : k ∈ scopeIds m.tstate.stack := by
    rw [htop, mem_scopeIds]
    obtain rfl | rfl := hitem
    · exact Or.inl List.mem_cons_self
    · exact Or.inr List.mem_cons_self
  obtain ⟨hid, hprev⟩ := h.scope k hk
  have hfields : ∀ m : Machine, (leaveSpace m k).tstate.threadCallbackActive =
        m.tstate.threadCallbackActive ∧
      (leaveSpace m k).tstate.threadCallbackFrame = m.tstate.threadCallbackFrame ∧
      (leaveSpace m k).tstate.inheritedSpaceId = (m.scopes k).previousSpaceId ∧
      (leaveSpace m k).tstate.callOrdinalPtr = (m.scopes k).previousCallOrdinalPtr := by
    intro m
    rw [leaveSpace_tstate]
    dsimp only
    split <;> exact ⟨rfl, rfl, rfl, rfl⟩
  obtain ⟨hactive, hframe, hinherited, hptr⟩ := hfields m
  obtain ⟨hactive', hframe', hinherited', hptr'⟩ := hfields m'
  refine h.still hseg hseg' ((savedOn_leaveSpace rest m k).setStack rest)
    ((savedOn_leaveSpace rest m' k).setStack rest) hsub
    ((leaveSpace_still hseg.circle k).setStack rest)
    ((leaveSpace_still hseg'.circle k).setStack rest) rfl (fun _ hf => hf)
    (fun _ hj hnot => absurd hj hnot) ?_ ?_ ?_ ?_
  · exact hactive'.trans (h.active.trans hactive.symm)
  · intro hpinned
    change (leaveSpace m k).tstate.threadCallbackActive = true at hpinned
    rw [hactive] at hpinned
    exact hframe'.trans ((h.pin hpinned).trans hframe.symm)
  · exact hinherited'.trans (hid.trans hinherited.symm)
  · change framePtr (leaveSpace m' k).tstate.callOrdinalPtr =
      framePtr (leaveSpace m k).tstate.callOrdinalPtr
    rw [hptr, hptr']
    exact hprev

theorem enterSpace_pushes {k id : Nat} (hstep : threadStep p m (.enterSpace k id true) = some m') :
    k ∈ scopeIds m'.tstate.stack := by
  obtain ⟨entered, henter, -⟩ := enterSpace_room p m k id
  simp only [threadStep, henter] at hstep
  split at hstep
  · cases hstep
  · cases hstep
    exact mem_scopeIds.mpr (Or.inl List.mem_cons_self)

theorem Twin.step {event : ThreadEvent} {l l' : Ledger} (h : Twin own spaceId m m')
    (hstanding : Standing m l) (hstanding' : Standing m' l') (hkeeps : event.keepsTo own)
    (hstep : threadStep p m event = some m₂) (hstep' : threadStep p m' event = some m₂') :
    Twin own spaceId m₂ m₂' := by
  obtain ⟨base, -, hseg⟩ := hstanding.segment
  obtain ⟨base', -, hseg'⟩ := hstanding'.segment
  have heffect := (hstanding.step hstep).2
  have heffect' := (hstanding'.step hstep').2
  cases heffect with
  | call off limit =>
    cases heffect' with
    | call off' limit' => exact h.pushFrame hseg hseg' hkeeps off ⟨rfl, rfl, rfl⟩
  | resume off limit =>
    cases heffect' with
    | resume off' limit' =>
      refine h.pushFrame hseg hseg' hkeeps off ?_
      obtain ⟨hlasti, hfirst, hbias⟩ := h.placed _ hkeeps
      split <;> exact ⟨hlasti, hfirst, hbias⟩
  | newGenerator off =>
    cases heffect' with
    | newGenerator off' => exact h.newGenerator hseg hseg' off _
  | begin top =>
    cases heffect' with
    | begin top' =>
      rw [h.stack, top] at top'
      cases top'
      exact h.begin hseg hseg' top _
  | leave top current space node_eq previous ne =>
    cases heffect' with
    | leave top' current' space' node_eq' previous' ne' =>
      rw [h.stack, top] at top'
      cases top'
      exact h.popFrame hseg hseg' top previous ne previous' ne'
  | leaveInactive =>
    cases heffect'
    exact h
  | enterFails unused =>
    obtain rfl : _ = true := hkeeps
    exact absurd (enterSpace_pushes hstep) unused
  | enterSpace unused enters =>
    obtain rfl : _ = true := hkeeps
    cases heffect' with
    | enterFails unused' => exact absurd (enterSpace_pushes hstep') unused'
    | enterSpace unused' enters' => exact h.enter hseg hseg' unused enters enters' (Or.inl rfl)
  | leaveSpace top =>
    cases heffect' with
    | leaveSpace top' =>
      rw [h.stack, top] at top'
      cases top'
      exact h.leave hseg hseg' top (Or.inl rfl)
  | callbackFails unused idle =>
    obtain rfl : _ = true := hkeeps
    have hactive := callbackBegin_active hstep
    cases hactive
  | callbackBegin top unused idle enters =>
    obtain rfl : _ = true := hkeeps
    cases heffect' with
    | callbackFails unused' idle' =>
      have hactive := callbackBegin_active hstep'
      cases hactive
    | callbackBegin top' unused' idle' enters' =>
      rw [h.stack, top] at top'
      cases top'
      exact (h.setCallback true _).enter (hseg.setCallback true _)
        (hseg'.setCallback true _) unused enters enters' (Or.inr rfl)
  | callbackEnd top =>
    cases heffect' with
    | callbackEnd top' =>
      rw [h.stack, top] at top'
      cases top'
      exact (h.leave hseg hseg' top (Or.inr rfl)).setCallback false none
  | threadDelta =>
    cases heffect'
    exact h.threadDelta hseg hseg' _ _ _ _ _ _

theorem callback_twin {k : Nat} {l : Ledger} (hstanding : Standing m l)
    (howned : ∀ f, .frame f ∈ m.tstate.stack → own f)
    (hbegin : threadStep p m (.callbackBegin k true) = some m₂)
    (hend : threadStep p m₂ .callbackEnd = some m₂') : Twin own spaceId m m₂' := by
  obtain ⟨base, -, hseg⟩ := hstanding.segment
  obtain ⟨hstanding₂, hbegun⟩ := hstanding.step hbegin
  obtain ⟨base₂, -, hseg₂⟩ := hstanding₂.segment
  obtain ⟨-, hended⟩ := hstanding₂.step hend
  cases hbegun with
  | callbackFails unused idle =>
    have hactive := callbackBegin_active hbegin
    cases hactive
  | callbackBegin top unused idle enters =>
    rename_i f node rest m₁ t scope ptr
    obtain ⟨hstack, -, -⟩ := enters.callbackState
    cases hended with
    | callbackEnd top' =>
      rename_i j rest'
      have hstack' : (m₁.push (.callback k)).tstate.stack = .callback k :: m.tstate.stack :=
        congrArg (List.cons (StackItem.callback k)) hstack
      rw [hstack'] at top'
      cases top'
      have hscope : ((m₁.push (.callback k)).scopes k) = scope := by
        change m₁.scopes k = scope
        rw [enters.result]
        exact Function.update_self ..
      obtain ⟨-, hid, hprev⟩ := enters.saved
      have hsaved : SavedOn m.tstate.stack m (((leaveSpace (m₁.push (.callback k)) k).setStack
          m.tstate.stack).setCallback false none) :=
        (((((SavedOn.refl _ m).setCallback true (some f)).trans
          (savedOn_enterSpace enters unused)).setStack (.callback k :: m₁.tstate.stack)).trans
          (savedOn_leaveSpace _ _ k)).setStack _ |>.setCallback _ _
      have hstill : Still m (((leaveSpace (m₁.push (.callback k)) k).setStack
          m.tstate.stack).setCallback false none) :=
        ((((((Still.refl m).setCallback true (some f)).trans
          (enters.still (hseg.setCallback true (some f)).circle)).setStack
          (.callback k :: m₁.tstate.stack)).trans
          (leaveSpace_still hseg₂.circle k)).setStack _).setCallback _ _
      refine (Twin.refl howned).still hseg hseg (SavedOn.refl _ m) hsaved (fun _ hmem => hmem)
        (Still.refl m) hstill rfl (fun _ hf => hf) (fun _ hj hnot => absurd hj hnot) idle.symm ?_ ?_
        ?_
      · intro hactive
        rw [idle] at hactive
        cases hactive
      · change (leaveSpace (m₁.push (.callback k)) k).tstate.inheritedSpaceId = _
        rw [leaveSpace_tstate, hscope]
        exact hid
      · change framePtr (leaveSpace (m₁.push (.callback k)) k).tstate.callOrdinalPtr = _
        rw [leaveSpace_tstate, hscope]
        exact congrArg framePtr hprev

theorem Twin.called {k : Nat} {l l' : Ledger} {m₁ : Machine} (h : Twin own spaceId m₂ m₁)
    (hstanding : Standing m l) (hstanding' : Standing m₁ l')
    (howned : ∀ f, .frame f ∈ m.tstate.stack → own f)
    (hbegin : threadStep p m (.callbackBegin k true) = some m₂)
    (hend : threadStep p m₁ .callbackEnd = some m') : Twin own spaceId m m' := by
  obtain ⟨hstanding₂, hbegun⟩ := hstanding.step hbegin
  obtain ⟨m₃, hdirect⟩ : ∃ m₃, threadStep p m₂ .callbackEnd = some m₃ := by
    cases hbegun with
    | callbackFails unused idle =>
      have hactive := callbackBegin_active hbegin
      cases hactive
    | callbackBegin top unused idle enters => exact ⟨_, rfl⟩
  have hkeeps : ThreadEvent.callbackEnd.keepsTo own := trivial
  exact (callback_twin hstanding howned hbegin hdirect).trans
    (h.step hstanding₂ hstanding' hkeeps hdirect hend)

/-- Outside callbacks, the coordinates of a space that is known are those of its shown frames. -/
theorem coordinates_shown (hseg : Segment [] base m) (hidle : m.tstate.threadCallbackActive = false)
    (hknows : Knows m spaceId) : coordinates m spaceId 0 =
      some ((m.chain.filter (shownOf m spaceId)).reverse.flatMap (fun f =>
        [frameCoordinate (m.frames f), (m.frames f).currentCallOrdinal])) := by
  obtain ⟨n, hfind, hseen⟩ := hknows
  have hchain : threadStateFrame m n = m.chain := by
    unfold threadStateFrame
    rw [if_neg (by simp [hidle])]
  have hfilter : m.chain.filter (m.visibleIn (m.spacePtr n)) =
      m.chain.filter (shownOf m spaceId) :=
    List.filter_congr (fun f hf => visibleIn_shown hseg hfind (mem_frameChain.mp hf))
  unfold coordinates
  rw [hfind]
  dsimp only
  rw [if_pos hseen, hchain, List.drop_zero, coordinatesOf_eq, frameWords_listed, hfilter]

theorem coordinates_unknown (hknows : ¬Knows m spaceId) : coordinates m spaceId 0 = none := by
  unfold coordinates
  cases hfind : findThreadSpace m.tstate spaceId with
  | none => rfl
  | some n =>
    dsimp only
    rw [if_neg (fun hseen => hknows ⟨n, hfind, hseen⟩)]

theorem Twin.coordinates (h : Twin own spaceId m m') (hseg : Segment [] base m)
    (hseg' : Segment [] base' m') (hidle : m.tstate.threadCallbackActive = false) :
    Retrace.coordinates m' spaceId 0 = Retrace.coordinates m spaceId 0 := by
  have hopen : ignored spaceId spaceId = false := by simp [ignored]
  by_cases hknows : Knows m spaceId
  · rw [coordinates_shown hseg hidle hknows,
      coordinates_shown hseg' (h.active.trans hidle) ((h.knows spaceId hopen).mpr hknows), h.chain]
    have hfilter : m.chain.filter (shownOf m' spaceId) = m.chain.filter (shownOf m spaceId) :=
      List.filter_congr (fun f hf => h.shown hseg hseg' (mem_frameChain.mp hf) spaceId)
    rw [hfilter]
    refine congrArg some (List.flatMap_congr ?_)
    intro f hf
    obtain ⟨hmem, hshown⟩ := List.mem_filter.mp (List.mem_reverse.mp hf)
    have hon := mem_frameChain.mp hmem
    obtain ⟨hlasti, -, hbias⟩ := h.placed f (h.owned f hon)
    have hordinal := h.ordinal f hon (fun id hid => by
      rw [frameOf_unique hid (Bool.and_eq_true_iff.mp hshown).1]
      exact hopen)
    unfold frameCoordinate
    rw [hlasti, hbias, hordinal]
  · rw [coordinates_unknown hknows,
      coordinates_unknown (fun hknows' => hknows ((h.knows spaceId hopen).mp hknows'))]

theorem checkCallAtSlot_congr (hidle : m.tstate.threadCallbackActive = false)
    (hidle' : m'.tstate.threadCallbackActive = false)
    (hid : m'.tstate.threadId = m.tstate.threadId)
    (hcoordinates : coordinates m' spaceId 0 = coordinates m spaceId 0) (slot : Option CallAt)
    (room : Bool) : checkCallAtSlot m' spaceId slot room = checkCallAtSlot m spaceId slot room := by
  cases slot with
  | none => rfl
  | some target =>
    have hclears : ∀ m : Machine, target.threadId = m.tstate.threadId → ¬Knows m spaceId →
        checkCallAtSlot m spaceId (some target) room = .clear := by
      intro m hthread hknows
      unfold checkCallAtSlot
      dsimp only
      rw [if_neg (not_not.mpr hthread)]
      cases hfind : findThreadSpace m.tstate spaceId with
      | none => rfl
      | some n =>
        dsimp only
        rw [if_pos (by simpa using fun hseen => hknows ⟨n, hfind, hseen⟩)]
    have hknown : ∀ m : Machine, Knows m spaceId → coordinates m spaceId 0 ≠ none := by
      rintro m ⟨n, hfind, hseen⟩ hnone
      unfold coordinates at hnone
      rw [hfind] at hnone
      dsimp only at hnone
      rw [if_pos hseen] at hnone
      cases hnone
    by_cases hthread : target.threadId = m.tstate.threadId
    · by_cases hknows : Knows m spaceId
      · obtain ⟨words, hwords⟩ := Option.ne_none_iff_exists'.mp (hknown m hknows)
        have hknows' : Knows m' spaceId := by
          by_contra hnot
          rw [coordinates_unknown hnot, hwords] at hcoordinates
          cases hcoordinates
        obtain ⟨n, hfind, hseen⟩ := hknows
        obtain ⟨n', hfind', hseen'⟩ := hknows'
        unfold checkCallAtSlot
        dsimp only
        rw [hid, hfind, hfind']
        dsimp only
        rw [hseen, hseen', compareTargetToFrame_eq hidle hfind hwords,
          compareTargetToFrame_eq hidle' hfind' (hcoordinates.trans hwords)]
      · have hknows' : ¬Knows m' spaceId := by
          intro hnot
          rw [coordinates_unknown hknows] at hcoordinates
          exact hknown m' hnot hcoordinates
        rw [hclears m hthread hknows, hclears m' (hthread.trans hid.symm) hknows']
    · unfold checkCallAtSlot
      dsimp only
      rw [if_pos hthread, if_pos (hid ▸ hthread)]

theorem Twin.checkCallAtSlot (h : Twin own spaceId m m') (hseg : Segment [] base m)
    (hseg' : Segment [] base' m') (hidle : m.tstate.threadCallbackActive = false)
    (slot : Option CallAt) (room : Bool) : Retrace.checkCallAtSlot m' spaceId slot room =
      Retrace.checkCallAtSlot m spaceId slot room :=
  checkCallAtSlot_congr hidle (h.active.trans hidle) h.threadId (h.coordinates hseg hseg' hidle)
    slot room

theorem Twin.topSpaceId (h : Twin own spaceId m m') (hseg : Segment [] base m)
    (hseg' : Segment [] base' m') : Retrace.topSpaceId m' = Retrace.topSpaceId m := by
  cases hstack : m.tstate.stack with
  | nil =>
    unfold Retrace.topSpaceId topFrame
    rw [h.stack, hstack]
  | cons item rest =>
    cases item with
    | frame f =>
      have hon : .frame f ∈ m.tstate.stack := by
        rw [hstack]
        exact List.mem_cons_self
      refine Option.ext (fun id => ?_)
      have hshown : (Retrace.topSpaceId m == some id) = shownOf m id f := topSpaceId_shown hstack
      have hshown' : (Retrace.topSpaceId m' == some id) = shownOf m' id f :=
        topSpaceId_shown (h.stack.trans hstack)
      rw [h.shown hseg hseg' hon id, ← hshown] at hshown'
      have hsome : ∀ found : Option Nat, found = some id ↔ (found == some id) = true :=
        fun found => beq_iff_eq.symm
      rw [hsome, hsome, hshown']
    | scope k =>
      unfold Retrace.topSpaceId topFrame
      rw [h.stack, hstack]
    | callback k =>
      unfold Retrace.topSpaceId topFrame
      rw [h.stack, hstack]

end twins

end Retrace
