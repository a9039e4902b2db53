import Retrace.ThreadDelta

/-! What the coordinates, the hash and the deltas of a space depend on. -/

set_option autoImplicit false

namespace Retrace

section view
variable {m m' : Machine} {space : SpacePtr}

theorem frameWords_filter (chain : List Nat) :
    frameWords m space (chain.filter (m.visibleIn space)) = frameWords m space chain := by
  induction chain with
  | nil => rfl
  | cons f rest ih =>
    by_cases hv : m.visibleIn space f = true
    · rw [List.filter_cons_of_pos hv, frameWords_cons, frameWords_cons, ih]
    · rw [List.filter_cons_of_neg hv, frameWords_cons, if_neg hv, List.append_nil, ih]

theorem frameCoordinateHash_filter (p : Platform) (m : Machine) (node : Nat) (chain : List Nat) :
    frameCoordinateHashInSpace p m node (chain.filter (m.visibleIn (m.spacePtr node))) =
      frameCoordinateHashInSpace p m node chain := by
  induction chain with
  | nil => rfl
  | cons f rest ih =>
    by_cases hv : m.visibleIn (m.spacePtr node) f = true
    · rw [List.filter_cons_of_pos hv, frameCoordinateHashInSpace, frameCoordinateHashInSpace,
        if_pos hv, if_pos hv, ih]
    · rw [List.filter_cons_of_neg hv, frameCoordinateHashInSpace, if_neg hv, ih]

theorem deltaScan_filter (chain : List Nat) (position common : Nat) :
    deltaScan m space (chain.filter (m.visibleIn space)) position common =
      deltaScan m space chain position common := by
  induction chain generalizing position common with
  | nil => rfl
  | cons f rest ih =>
    by_cases hv : m.visibleIn space f = true
    · rw [List.filter_cons_of_pos hv, deltaScan, deltaScan, if_pos hv, if_pos hv, ih]
    · rw [List.filter_cons_of_neg hv, deltaScan_invisible hv, ih]

/-- Equal up to the cache, and with the cache if `quiet`. -/
def SameFrame (quiet : Prop) (frame frame' : InterpreterFrame) : Prop :=
  { frame' with delta := initialDelta } = { frame with delta := initialDelta } ∧
    (quiet → frame'.delta = frame.delta)

theorem SameFrame.refl (quiet : Prop) (frame : InterpreterFrame) : SameFrame quiet frame frame :=
  ⟨rfl, fun _ => rfl⟩

theorem SameFrame.trans {quiet : Prop} {a b c : InterpreterFrame} (h : SameFrame quiet a b)
    (h' : SameFrame quiet b c) : SameFrame quiet a c :=
  ⟨h'.1.trans h.1, fun hq => (h'.2 hq).trans (h.2 hq)⟩

theorem SameFrame.fields {quiet : Prop} {a b : InterpreterFrame} (h : SameFrame quiet a b) :
    b.space = a.space ∧ frameIsVisible b = frameIsVisible a ∧
      frameCoordinate b = frameCoordinate a ∧ b.currentCallOrdinal = a.currentCallOrdinal := by
  have hsame := h.1
  simp only [InterpreterFrame.mk.injEq] at hsame
  obtain ⟨hlasti, hfirst, hbias, hordinal, -, hspace, -⟩ := hsame
  unfold frameIsVisible isIncomplete frameCoordinate
  rw [hlasti, hfirst, hbias, hspace]
  exact ⟨rfl, rfl, rfl, hordinal⟩

/-- Two states with the same record of a space, and chains with the same frames of it. -/
structure SameView (quiet : Prop) (node : Nat) (m m' : Machine) (chain chain' : List Nat) :
    Prop where
  address : m'.tstate.address = m.tstate.address
  space : { m'.tstate.space node with next := 0, lastDeltaRootCallOrdinal := 0 } =
    { m.tstate.space node with next := 0, lastDeltaRootCallOrdinal := 0 }
  lastDelta : quiet → (m'.tstate.space node).lastDeltaRootCallOrdinal =
    (m.tstate.space node).lastDeltaRootCallOrdinal
  visible : chain'.filter (m'.visibleIn (m.spacePtr node)) =
    chain.filter (m.visibleIn (m.spacePtr node))
  frame : ∀ f ∈ chain.filter (m.visibleIn (m.spacePtr node)),
    SameFrame quiet (m.frames f) (m'.frames f)

section sameView
variable {quiet : Prop} {node : Nat} {chain chain' : List Nat}

theorem SameView.spacePtr (h : SameView quiet node m m' chain chain') :
    m'.spacePtr node = m.spacePtr node := by
  unfold Machine.spacePtr
  rw [h.address]

theorem SameView.visibleIn (h : SameView quiet node m m' chain chain') {f : Nat}
    (hf : f ∈ chain.filter (m.visibleIn (m.spacePtr node))) :
    m.visibleIn (m.spacePtr node) f = true ∧ m'.visibleIn (m.spacePtr node) f = true := by
  refine ⟨(List.mem_filter.mp hf).2, ?_⟩
  rw [← h.visible] at hf
  exact (List.mem_filter.mp hf).2

/-- The visible frames are visible in both, with the same words, and with the same caches where
these are the same. -/
theorem SameView.words (h : SameView quiet node m m' chain chain') :
    ∀ f ∈ chain.filter (m.visibleIn (m.spacePtr node)),
      m.visibleIn (m.spacePtr node) f = true ∧ m'.visibleIn (m.spacePtr node) f = true ∧
      frameCoordinate (m'.frames f) = frameCoordinate (m.frames f) ∧
      (m'.frames f).currentCallOrdinal = (m.frames f).currentCallOrdinal ∧
      (quiet → (m'.frames f).delta = (m.frames f).delta) := by
  intro f hf
  obtain ⟨hv, hv'⟩ := h.visibleIn hf
  obtain ⟨-, -, hcoordinate, hordinal⟩ := (h.frame f hf).fields
  exact ⟨hv, hv', hcoordinate, hordinal, (h.frame f hf).2⟩

theorem SameView.frameWords (h : SameView quiet node m m' chain chain') :
    Retrace.frameWords m' (m'.spacePtr node) chain' =
      Retrace.frameWords m (m.spacePtr node) chain := by
  rw [h.spacePtr, ← frameWords_filter chain', h.visible, ← frameWords_filter chain]
  apply frameWords_congr
  intro f hf
  obtain ⟨hv, hv', hcoordinate, hordinal, -⟩ := h.words f hf
  exact ⟨hv'.trans hv.symm, fun _ => ⟨hcoordinate, hordinal⟩⟩

theorem SameView.hash (p : Platform) (h : SameView quiet node m m' chain chain') :
    frameCoordinateHashInSpace p m' node chain' = frameCoordinateHashInSpace p m node chain := by
  have hspace := h.space
  simp only [SpaceState.mk.injEq] at hspace
  obtain ⟨-, -, -, hordinal, -, hroot, -⟩ := hspace
  have hbottom : rootCoordinateHash p m' node = rootCoordinateHash p m node := by
    unfold rootCoordinateHash
    simp only [hordinal, hroot]
  rw [← frameCoordinateHash_filter p m' node chain', ← frameCoordinateHash_filter p m node chain,
    h.spacePtr, h.visible]
  have hall := h.words
  revert hall
  generalize chain.filter (m.visibleIn (m.spacePtr node)) = frames
  intro hall
  induction frames with
  | nil => exact hbottom
  | cons f rest ih =>
    obtain ⟨hv, hv', hcoordinate, hordinal, -⟩ := hall f List.mem_cons_self
    rw [frameCoordinateHashInSpace, frameCoordinateHashInSpace, h.spacePtr, if_pos hv, if_pos hv',
      hcoordinate, hordinal, ih (fun g hg => hall g (List.mem_cons_of_mem _ hg))]

theorem SameView.deltaScan (h : SameView quiet node m m' chain chain') (hquiet : quiet)
    (position common : Nat) :
    Retrace.deltaScan m' (m'.spacePtr node) chain' position common =
      Retrace.deltaScan m (m.spacePtr node) chain position common := by
  rw [h.spacePtr, ← deltaScan_filter chain', h.visible, ← deltaScan_filter chain]
  have hall := h.words
  revert hall
  generalize chain.filter (m.visibleIn (m.spacePtr node)) = frames
  intro hall
  induction frames generalizing position common with
  | nil => rfl
  | cons f rest ih =>
    obtain ⟨hv, hv', hcoordinate, hordinal, hdelta⟩ := hall f List.mem_cons_self
    rw [Retrace.deltaScan, Retrace.deltaScan, if_pos hv, if_pos hv']
    unfold deltaShorten
    rw [hdelta hquiet, hcoordinate, hordinal]
    exact ih _ _ (fun g hg => hall g (List.mem_cons_of_mem _ hg))

end sameView

theorem threadDelta_answer (m : Machine) (spaceId : Nat) (allocates tupleAllocates : Bool) :
    (threadDeltaForTstate m spaceId allocates tupleAllocates).1 =
      match findThreadSpace m.tstate spaceId with
      | none => .noSpace
      | some node =>
        if (m.tstate.space node).seen then
          if allocates ∧ tupleAllocates then
            let words := frameWords m (m.spacePtr node) (threadStateFrame m node)
            let common := deltaScan m (m.spacePtr node) (threadStateFrame m node) words.length
              (deltaInitial (m.tstate.space node) words.length)
            .delta (common :: words.drop common)
          else .error
        else .noSpace := by
  unfold threadDeltaForTstate
  cases findThreadSpace m.tstate spaceId with
  | none => rfl
  | some node =>
    simp only [coordinateCount_eq]
    cases (m.tstate.space node).seen with
    | false => rfl
    | true =>
      cases allocates with
      | false => rfl
      | true =>
        simp only [Bool.not_true, Bool.false_eq_true, if_false]
        rw [deltaFill_eq m _ (Nat.le_trans (deltaScan_le _ _ _) (deltaInitial_le _ _))]
        cases tupleAllocates <;> rfl

end view

end Retrace
