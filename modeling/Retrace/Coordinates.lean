import Retrace.ThreadMachine

/-! What a thread reports of a space: its coordinates and its coordinate hash. -/

set_option autoImplicit false

namespace Retrace

def callOrdinalHashTag : Nat := 2 ^ 63
def coordinateHashMask : Nat := callOrdinalHashTag - 1

def mixFrameCoordinateHash (p : Platform) (hash instructionCounter callOrdinal : Nat) : Nat :=
  let hash := normalizeCoordinateHash (mix64 p hash (instructionCounter &&& coordinateHashMask))
  if callOrdinal ≠ 0 then
    normalizeCoordinateHash (mix64 p hash (callOrdinalHashTag ||| callOrdinal))
  else hash

def rootCoordinateHash (p : Platform) (m : Machine) (node : Nat) : Nat :=
  let space := m.tstate.space node
  let hash := normalizeCoordinateHash space.rootCoordinateHash
  if space.rootCallOrdinal ≠ 0 then mixFrameCoordinateHash p hash 0 space.rootCallOrdinal
  else hash

/-- The recursion from the leaf of the chain; invisible frames are passed over. -/
def frameCoordinateHashInSpace (p : Platform) (m : Machine) (node : Nat) : List Nat → Nat
  | [] => rootCoordinateHash p m node
  | f :: rest =>
    if m.visibleIn (m.spacePtr node) f then
      mixFrameCoordinateHash p (frameCoordinateHashInSpace p m node rest)
        (frameCoordinate (m.frames f)) (m.frames f).currentCallOrdinal
    else frameCoordinateHashInSpace p m node rest

def coordinateCount (m : Machine) (space : SpacePtr) (chain : List Nat) : Nat :=
  chain.foldl (fun count f => if m.visibleIn space f then count + 2 else count) 0

/-- Writes the pairs into the buffer from its end to its start. -/
def fillCoordinates (m : Machine) (space : SpacePtr) : List Nat → Nat → List Nat → List Nat
  | [], _, coordinates => coordinates
  | f :: rest, position, coordinates =>
    if m.visibleIn space f then
      let position := position - 2
      fillCoordinates m space rest position
        ((coordinates.set position (frameCoordinate (m.frames f))).set (position + 1)
          (m.frames f).currentCallOrdinal)
    else fillCoordinates m space rest position coordinates

def coordinatesOf (m : Machine) (space : SpacePtr) (chain : List Nat) : List Nat :=
  let count := coordinateCount m space chain
  fillCoordinates m space chain count (List.replicate count 0)

/-- `coordinates(thread, drop, space_id)`; `none` is Python's `None`. -/
def coordinates (m : Machine) (spaceId drop : Nat) : Option (List Nat) :=
  match findThreadSpace m.tstate spaceId with
  | none => none
  | some node =>
    if (m.tstate.space node).seen then
      some ((coordinatesOf m (m.spacePtr node) (threadStateFrame m node)).drop drop)
    else none

/-- `hash(space_id)`. -/
def coordinateHash (p : Platform) (m : Machine) (spaceId : Nat) : Option Nat :=
  match findThreadSpace m.tstate spaceId with
  | none => none
  | some node =>
    if (m.tstate.space node).seen then
      some (frameCoordinateHashInSpace p m node (threadStateFrame m node))
    else none

/-- The pairs of the visible frames of a space, oldest first. -/
def frameWords (m : Machine) (space : SpacePtr) : List Nat → List Nat
  | [] => []
  | f :: rest => frameWords m space rest ++
      if m.visibleIn space f then
        [frameCoordinate (m.frames f), (m.frames f).currentCallOrdinal]
      else []

section coordinates
variable {m : Machine} {space : SpacePtr}

theorem visibleIn_space {f : Nat} (h : m.visibleIn space f = true) :
    (m.frames f).space = some space := by
  unfold Machine.visibleIn at h
  simp only [Bool.and_eq_true, beq_iff_eq] at h
  exact h.2

theorem visibleIn_eq_false {f : Nat} {space : SpacePtr} (h : (m.frames f).space ≠ some space) :
    m.visibleIn space f = false := by
  rw [Bool.eq_false_iff]
  exact fun hvisible => h (visibleIn_space hvisible)

theorem frameWords_cons (f : Nat) (rest : List Nat) :
    frameWords m space (f :: rest) = frameWords m space rest ++
      if m.visibleIn space f then
        [frameCoordinate (m.frames f), (m.frames f).currentCallOrdinal]
      else [] := rfl

theorem coordinateCount_eq (chain : List Nat) :
    coordinateCount m space chain = (frameWords m space chain).length := by
  have hfold : ∀ count, chain.foldl
      (fun count f => if m.visibleIn space f then count + 2 else count) count =
      count + (frameWords m space chain).length := by
    induction chain with
    | nil => simp [frameWords]
    | cons f rest ih =>
      intro count
      rw [List.foldl_cons, ih, frameWords_cons, List.length_append]
      by_cases hv : m.visibleIn space f = true
      · simp only [hv, if_true, List.length_cons, List.length_nil]
        omega
      · simp [hv]
  unfold coordinateCount
  rw [hfold 0, Nat.zero_add]

theorem fillCoordinates_eq (chain : List Nat) (buffer : List Nat)
    (h : (frameWords m space chain).length ≤ buffer.length) :
    fillCoordinates m space chain (frameWords m space chain).length buffer =
      frameWords m space chain ++ buffer.drop (frameWords m space chain).length := by
  induction chain generalizing buffer with
  | nil => simp [fillCoordinates, frameWords]
  | cons f rest ih =>
    unfold fillCoordinates
    by_cases hv : m.visibleIn space f = true
    · have hlen : (frameWords m space (f :: rest)).length =
          (frameWords m space rest).length + 2 := by simp [frameWords, hv]
      rw [hlen] at h ⊢
      simp only [hv, if_true, Nat.add_sub_cancel]
      rw [ih _ (by simp only [List.length_set]; omega)]
      simp only [frameWords, hv, if_true]
      rw [List.append_assoc]
      congr 1
      apply List.ext_getElem
      · simp only [List.length_drop, List.length_set, List.length_append, List.length_cons,
          List.length_nil]
        omega
      · intro i h₁ h₂
        simp only [List.getElem_drop, List.getElem_set, List.getElem_append, List.length_cons,
          List.length_nil]
        rcases i with _ | _ | i
        · simp
        · simp
        · simp
          grind
    · have hsame : frameWords m space (f :: rest) = frameWords m space rest := by
        simp [frameWords, hv]
      rw [hsame] at h ⊢
      simp only [hv, Bool.false_eq_true, if_false]
      exact ih buffer h

theorem coordinatesOf_eq (chain : List Nat) :
    coordinatesOf m space chain = frameWords m space chain := by
  unfold coordinatesOf
  rw [coordinateCount_eq, fillCoordinates_eq _ _ (by simp)]
  simp

theorem frameWords_congr {m' : Machine} (chain : List Nat)
    (h : ∀ f ∈ chain, m'.visibleIn space f = m.visibleIn space f ∧
      (m.visibleIn space f = true → frameCoordinate (m'.frames f) = frameCoordinate (m.frames f) ∧
        (m'.frames f).currentCallOrdinal = (m.frames f).currentCallOrdinal)) :
    frameWords m' space chain = frameWords m space chain := by
  induction chain with
  | nil => rfl
  | cons f rest ih =>
    obtain ⟨hv, hw⟩ := h f List.mem_cons_self
    rw [frameWords_cons, frameWords_cons, ih (fun g hg => h g (List.mem_cons_of_mem _ hg)), hv]
    by_cases hvis : m.visibleIn space f = true
    · simp only [hvis, if_true, (hw hvis).1, (hw hvis).2]
    · simp [hvis]

end coordinates

end Retrace
