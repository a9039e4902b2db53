import Retrace.Mixers
import Mathlib.Data.List.Basic
import Mathlib.Tactic.Common

/-! The coordinate spaces of one thread, on a circle that starts at its root space. -/

set_option autoImplicit false

namespace Retrace

def spaceIdRoot : Nat := 0
def spaceIdDisabled : Nat := 1
def lastCallOrdinalUnset : Nat := 2 ^ 64 - 2
def lastInstructionCounterUnset : Nat := 2 ^ 64 - 1

/-- A `uint64_t *` into the Retrace state of a thread: into a frame, a space or the scope of a
running call. -/
inductive OrdinalPtr where
  | frame (f : Nat)
  | root (node : Nat)
  | scope (k : Nat)
  deriving DecidableEq, Repr

/-- A `_PyRetraceThreadSpaceState *`: the thread that owns the space, and the space's number in
the order the thread created them. -/
structure SpacePtr where
  thread : Nat
  node : Nat
  deriving DecidableEq, Repr

structure SpaceState where
  spaceId : Nat
  seen : Bool
  depth : Nat
  rootCallOrdinal : Nat
  lastDeltaRootCallOrdinal : Nat
  rootCoordinateHash : Nat
  next : Nat
  deriving DecidableEq, Repr

/-- What a thread's stack is made of. A callback is a scope of the disabled space that also
pins a frame. -/
inductive StackItem where
  | frame (f : Nat)
  | scope (k : Nat)
  | callback (k : Nat)
  deriving DecidableEq, Repr

/-- `spaces` holds the nodes in the order of their creation, the root space first. The stack
has the running frame or scope first. -/
structure ThreadState where
  address : Nat
  threadId : Nat
  spaces : List SpaceState
  currentSpace : Nat
  lastSpace : Nat
  callOrdinalPtr : Option OrdinalPtr
  inheritedSpaceId : Nat
  threadCallbackActive : Bool
  threadCallbackFrame : Option Nat
  stack : List StackItem
  deriving DecidableEq, Repr

def initializeSpaceState (spaceId rootHash next : Nat) : SpaceState where
  spaceId := spaceId
  seen := false
  depth := 0
  rootCallOrdinal := 0
  lastDeltaRootCallOrdinal := lastCallOrdinalUnset
  rootCoordinateHash := rootHash
  next := next

def ThreadState.space (t : ThreadState) (node : Nat) : SpaceState :=
  t.spaces.getD node (initializeSpaceState 0 0 0)

def ThreadState.updateSpace (t : ThreadState) (node : Nat) (f : SpaceState → SpaceState) :
    ThreadState :=
  { t with spaces := t.spaces.modify node f }

/-- The same for every space of the thread. -/
def spaceRootCoordinateHash (p : Platform) (t : ThreadState) : Nat :=
  normalizeCoordinateHash
    (if t.threadId = 0 then initialRootCoordinateHash p else t.threadId)

/-- One turn of the circle. Fuel counts visited spaces; the outer `none` means it ran out. -/
def findThreadSpaceLoop (t : ThreadState) (spaceId : Nat) : Nat → Nat → Option (Option Nat)
  | 0, _ => none
  | fuel + 1, node =>
    if (t.space node).spaceId = spaceId then some (some node)
    else if node = t.lastSpace then some none
    else findThreadSpaceLoop t spaceId fuel (t.space node).next

def findThreadSpace (t : ThreadState) (spaceId : Nat) : Option Nat :=
  (findThreadSpaceLoop t spaceId t.spaces.length (t.space t.lastSpace).next).join

def threadOwnsSpaceLoop (t : ThreadState) (candidate : SpacePtr) : Nat → Nat → Option Bool
  | 0, _ => none
  | fuel + 1, node =>
    if candidate = ⟨t.address, node⟩ then some true
    else if node = t.lastSpace then some false
    else threadOwnsSpaceLoop t candidate fuel (t.space node).next

def threadOwnsSpace (t : ThreadState) (candidate : SpacePtr) : Bool :=
  (threadOwnsSpaceLoop t candidate t.spaces.length (t.space t.lastSpace).next).getD false

/-- `allocates`: `PyMem_RawCalloc` succeeds, if it is called. -/
def getThreadSpace (p : Platform) (t : ThreadState) (spaceId : Nat) (allocates : Bool) :
    Option Nat × ThreadState :=
  match findThreadSpace t spaceId with
  | some node => (some node, t)
  | none =>
    if allocates then
      let space := initializeSpaceState spaceId (spaceRootCoordinateHash p t)
        (t.space t.lastSpace).next
      let node := t.spaces.length
      let t := t.updateSpace t.lastSpace (fun last => { last with next := node })
      (some node, { t with spaces := t.spaces ++ [space], lastSpace := node })
    else (none, t)

def setCurrentSpaceById (p : Platform) (t : ThreadState) (spaceId : Nat) (allocates : Bool) :
    Int × ThreadState :=
  match getThreadSpace p t spaceId allocates with
  | (none, t) => (-1, t)
  | (some node, t) =>
    (0, { t with
      currentSpace := node
      inheritedSpaceId := spaceId
      callOrdinalPtr := if (t.space node).depth = 0 then some (.root node) else t.callOrdinalPtr })

def currentSpace (p : Platform) (t : ThreadState) (allocates : Bool) : Option Nat × ThreadState :=
  if (t.space t.currentSpace).spaceId ≠ t.inheritedSpaceId then
    match setCurrentSpaceById p t t.inheritedSpaceId allocates with
    | (status, t) => if status < 0 then (none, t) else (some t.currentSpace, t)
  else (some t.currentSpace, t)

/-- The spaces in creation order, each pointing to the next and the last to the root. -/
structure Circle (t : ThreadState) : Prop where
  nonempty : 0 < t.spaces.length
  last : t.lastSpace + 1 = t.spaces.length
  next : ∀ node < t.spaces.length,
    (t.space node).next = if node = t.lastSpace then 0 else node + 1
  distinct : ∀ a < t.spaces.length, ∀ b < t.spaces.length,
    (t.space a).spaceId = (t.space b).spaceId → a = b

section circle
variable {p : Platform} {t : ThreadState}

theorem space_updateSpace (t : ThreadState) (a b : Nat) (f : SpaceState → SpaceState)
    (hb : b < t.spaces.length) :
    (t.updateSpace a f).space b = if b = a then f (t.space b) else t.space b := by
  unfold ThreadState.updateSpace ThreadState.space
  simp only [List.getD_eq_getElem?_getD, List.getElem?_modify, List.getElem?_eq_getElem hb]
  by_cases h : a = b
  · simp [h]
  · simp [h, Ne.symm h]

@[simp] theorem length_updateSpace (t : ThreadState) (a : Nat) (f : SpaceState → SpaceState) :
    (t.updateSpace a f).spaces.length = t.spaces.length := by
  simp [ThreadState.updateSpace]

theorem findThreadSpaceLoop_spec (h : Circle t) (spaceId fuel node : Nat)
    (hn : node < t.spaces.length) (hf : t.spaces.length ≤ node + fuel) :
    ∃ r, findThreadSpaceLoop t spaceId fuel node = some r ∧
      (∀ n, r = some n → n < t.spaces.length ∧ (t.space n).spaceId = spaceId) ∧
      (r = none → ∀ n, node ≤ n → n < t.spaces.length → (t.space n).spaceId ≠ spaceId) := by
  induction fuel generalizing node with
  | zero => omega
  | succ fuel ih =>
    have hlast := h.last
    have hnext := h.next node hn
    unfold findThreadSpaceLoop
    by_cases hid : (t.space node).spaceId = spaceId
    · simp only [hid, if_true]
      refine ⟨_, rfl, ?_, by simp⟩
      intro n hnode
      simp only [Option.some.injEq] at hnode
      exact hnode ▸ ⟨hn, hid⟩
    · simp only [hid, if_false]
      by_cases hend : node = t.lastSpace
      · simp only [hend, if_true]
        refine ⟨none, rfl, by simp, ?_⟩
        intro _ n hle hlt
        have heq : n = node := by omega
        rw [heq]
        exact hid
      · rw [if_neg hend] at hnext
        simp only [hend, if_false, hnext]
        obtain ⟨r, hrun, hsome, hnone⟩ := ih (node + 1) (by omega) (by omega)
        refine ⟨r, hrun, hsome, ?_⟩
        intro hr n hle hlt
        by_cases heq : n = node
        · rw [heq]
          exact hid
        · exact hnone hr n (by omega) hlt

theorem Circle.first (h : Circle t) : (t.space t.lastSpace).next = 0 := by
  have hlast := h.last
  rw [h.next t.lastSpace (by omega), if_pos rfl]

theorem Circle.find_some (h : Circle t) {spaceId node : Nat}
    (hfind : findThreadSpace t spaceId = some node) :
    node < t.spaces.length ∧ (t.space node).spaceId = spaceId := by
  obtain ⟨r, hrun, hsome, -⟩ :=
    findThreadSpaceLoop_spec h spaceId t.spaces.length 0 h.nonempty (by omega)
  unfold findThreadSpace at hfind
  rw [h.first, hrun] at hfind
  exact hsome node hfind

theorem Circle.find_none (h : Circle t) {spaceId : Nat}
    (hfind : findThreadSpace t spaceId = none) (node : Nat) (hn : node < t.spaces.length) :
    (t.space node).spaceId ≠ spaceId := by
  obtain ⟨r, hrun, -, hnone⟩ :=
    findThreadSpaceLoop_spec h spaceId t.spaces.length 0 h.nonempty (by omega)
  unfold findThreadSpace at hfind
  rw [h.first, hrun] at hfind
  exact hnone hfind node (Nat.zero_le _) hn

theorem Circle.find_eq (h : Circle t) {node : Nat} (hn : node < t.spaces.length) :
    findThreadSpace t (t.space node).spaceId = some node := by
  cases hfind : findThreadSpace t (t.space node).spaceId with
  | none => exact absurd rfl (h.find_none hfind node hn)
  | some n =>
    obtain ⟨hlt, hid⟩ := h.find_some hfind
    rw [h.distinct n hlt node hn hid]

theorem Circle.find_congr (h : Circle t) {t' : ThreadState} (h' : Circle t') {spaceId : Nat}
    (hlen : t.spaces.length ≤ t'.spaces.length)
    (hold : ∀ n < t.spaces.length, (t'.space n).spaceId = (t.space n).spaceId)
    (hnew : ∀ n, t.spaces.length ≤ n → n < t'.spaces.length → (t'.space n).spaceId ≠ spaceId) :
    findThreadSpace t' spaceId = findThreadSpace t spaceId := by
  cases hfind : findThreadSpace t spaceId with
  | some node =>
    obtain ⟨hlt, hid⟩ := h.find_some hfind
    have hfound := h'.find_eq (Nat.lt_of_lt_of_le hlt hlen)
    rwa [hold node hlt, hid] at hfound
  | none =>
    cases hfind' : findThreadSpace t' spaceId with
    | none => rfl
    | some node =>
      obtain ⟨hlt', hid'⟩ := h'.find_some hfind'
      by_cases hlt : node < t.spaces.length
      · rw [hold node hlt] at hid'
        exact absurd hid' (h.find_none hfind node hlt)
      · exact absurd hid' (hnew node (by omega) hlt')

theorem Circle.owns (h : Circle t) {node : Nat} (hn : node < t.spaces.length) :
    threadOwnsSpace t ⟨t.address, node⟩ = true := by
  have hloop : ∀ fuel start, start ≤ node → t.spaces.length ≤ start + fuel →
      threadOwnsSpaceLoop t ⟨t.address, node⟩ fuel start = some true := by
    intro fuel
    induction fuel with
    | zero => intro start hle hf; omega
    | succ fuel ih =>
      intro start hle hf
      have hlast := h.last
      have hnext := h.next start (by omega)
      unfold threadOwnsSpaceLoop
      by_cases heq : start = node
      · simp [heq]
      · have hne : start ≠ t.lastSpace := by omega
        rw [if_neg hne] at hnext
        simp only [SpacePtr.mk.injEq, true_and, Ne.symm heq, if_false, hne, hnext]
        exact ih (start + 1) (by omega) (by omega)
  unfold threadOwnsSpace
  rw [h.first, hloop _ 0 (Nat.zero_le _) (by omega)]
  rfl

theorem Circle.congr (h : Circle t) {t' : ThreadState} (hlen : t'.spaces.length = t.spaces.length)
    (hlast : t'.lastSpace = t.lastSpace) (hfields : ∀ n < t.spaces.length,
      (t'.space n).spaceId = (t.space n).spaceId ∧ (t'.space n).next = (t.space n).next) :
    Circle t' := by
  refine ⟨hlen ▸ h.nonempty, by rw [hlast, hlen]; exact h.last, ?_, ?_⟩
  · intro n hn
    rw [hlen] at hn
    rw [(hfields n hn).2, hlast]
    exact h.next n hn
  · intro a ha b hb heq
    rw [hlen] at ha hb
    rw [(hfields a ha).1, (hfields b hb).1] at heq
    exact h.distinct a ha b hb heq

theorem Circle.updateSpace (h : Circle t) (node : Nat) (f : SpaceState → SpaceState)
    (hid : ∀ s, (f s).spaceId = s.spaceId) (hnext : ∀ s, (f s).next = s.next) :
    Circle (t.updateSpace node f) := by
  refine h.congr (length_updateSpace t node f) rfl ?_
  intro n hn
  rw [space_updateSpace t node n f hn]
  split
  · exact ⟨hid _, hnext _⟩
  · exact ⟨rfl, rfl⟩

theorem getThreadSpace_cases (h : Circle t) (spaceId : Nat) (allocates : Bool) :
    (∃ node, findThreadSpace t spaceId = some node ∧
      getThreadSpace p t spaceId allocates = (some node, t)) ∨
    (findThreadSpace t spaceId = none ∧
      getThreadSpace p t spaceId allocates = (some t.spaces.length,
        { t with
          spaces := (t.updateSpace t.lastSpace (fun last =>
            { last with next := t.spaces.length })).spaces ++
              [initializeSpaceState spaceId (spaceRootCoordinateHash p t) 0]
          lastSpace := t.spaces.length })) ∨
    (findThreadSpace t spaceId = none ∧ getThreadSpace p t spaceId allocates = (none, t)) := by
  unfold getThreadSpace
  cases hfind : findThreadSpace t spaceId with
  | some node => exact Or.inl ⟨node, rfl, rfl⟩
  | none =>
    right
    cases allocates with
    | true =>
      left
      refine ⟨rfl, ?_⟩
      simp only [if_true, h.first]
      rfl
    | false => exact Or.inr ⟨rfl, rfl⟩

end circle

end Retrace
