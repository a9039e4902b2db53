import Retrace.ThreadRun

/-! What each operation on frames and scopes does to a thread whose spaces form a circle. -/

set_option autoImplicit false

namespace Retrace

/-- What activations and scopes save and restore. -/
structure Context where
  ptr : Option OrdinalPtr
  space : Nat
  id : Nat
  deriving DecidableEq, Repr

def Machine.context (m : Machine) : Context where
  ptr := m.tstate.callOrdinalPtr
  space := m.tstate.currentSpace
  id := m.tstate.inheritedSpaceId

namespace Machine

def activatedFrame (m : Machine) (frame : InterpreterFrame) : InterpreterFrame :=
  { frame with
    space := some (m.spacePtr m.tstate.currentSpace)
    currentCallOrdinal := 0
    previousCallOrdinalPtr := m.tstate.callOrdinalPtr }

def pushFrame (m : Machine) (f : Nat) (frame : InterpreterFrame) : Machine where
  tstate := { m.tstate.updateSpace m.tstate.currentSpace (fun space => { space with
      seen := true
      depth := if space.depth ≠ 2 ^ 32 - 1 then space.depth + 1 else space.depth }) with
    callOrdinalPtr := some (.frame f)
    stack := .frame f :: m.tstate.stack }
  frames := Function.update m.frames f (m.activatedFrame frame)
  scopes := m.scopes

/-- The frame at an instruction boundary, which resets the ordinal of a visible one. -/
def begunFrame (frame : InterpreterFrame) : InterpreterFrame :=
  if frameIsVisible frame then { frame with currentCallOrdinal := 0 } else frame

def deactivatedFrame (frame : InterpreterFrame) : InterpreterFrame :=
  { frame with
    space := none
    previousCallOrdinalPtr := none
    currentCallOrdinal := 0 }

/-- The top frame goes off the stack, and counts on the slot it was activated on. -/
def popFrame (m : Machine) (f node : Nat) (ptr : OrdinalPtr) (rest : List StackItem) : Machine :=
  let m := ((m.setPtr (some ptr)).incrementOrdinal ptr).updateSpace node (fun space =>
    { space with depth := if space.depth > 0 then space.depth - 1 else space.depth })
  (m.setFrame f (deactivatedFrame (m.frames f))).setStack rest

def setCallback (m : Machine) (active : Bool) (frame : Option Nat) : Machine :=
  m.setTstate { m.tstate with threadCallbackActive := active, threadCallbackFrame := frame }

end Machine

/-- What a scope with a slot of its own leaves in its space: at least one call. -/
def SpaceScope.leftOrdinal (scope : SpaceScope) : Nat :=
  if scope.localRootCallOrdinal = scope.initialRootCallOrdinal then
    (scope.localRootCallOrdinal + 1) % 2 ^ 64
  else scope.localRootCallOrdinal

/-- A thread state that has at most a space more than before, one with this id. -/
structure Grown (spaceId : Nat) (t t' : ThreadState) : Prop where
  circle : Circle t'
  same : t' = { t with spaces := t'.spaces, lastSpace := t'.lastSpace }
  length : t.spaces.length ≤ t'.spaces.length
  space : ∀ n < t.spaces.length, t'.space n = { t.space n with next := (t'.space n).next }
  fresh : ∀ n, t.spaces.length ≤ n → n < t'.spaces.length →
    ∃ rootHash, t'.space n = initializeSpaceState spaceId rootHash 0

/-- What a successful entry into a space leaves behind. -/
structure EntersSpace (m : Machine) (k spaceId : Nat) (m' : Machine) (node : Nat)
    (t : ThreadState) (scope : SpaceScope) (ptr : OrdinalPtr) : Prop where
  grown : Grown spaceId m.tstate t
  found : findThreadSpace t spaceId = some node
  result : m' = {
    tstate := { t with currentSpace := node, inheritedSpaceId := spaceId, callOrdinalPtr := some ptr }
    frames := m.frames
    scopes := Function.update m.scopes k scope }
  saved : scope.previousSpace = m.tstate.currentSpace ∧
    scope.previousSpaceId = m.tstate.inheritedSpaceId ∧
    scope.previousCallOrdinalPtr = m.tstate.callOrdinalPtr
  space : scope.space = node
  counted : scope.localRootCallOrdinal = scope.initialRootCallOrdinal
  slot : match nearestVisibleFrameInSpace m (m.spacePtr node)
      (currentThreadFrame (m.setTstate t)) with
    | none => scope.useLocalRoot = true ∧ ptr = .scope k ∧
      scope.localRootCallOrdinal = (t.space node).rootCallOrdinal
    | some parent => scope.useLocalRoot = false ∧ ptr = .frame parent ∧
      scope.localRootCallOrdinal = 0

section accessors
variable (m : Machine)

theorem incrementOrdinal_frames (ptr : OrdinalPtr) (g : Nat) :
    (m.incrementOrdinal ptr).frames g = if ptr = .frame g then { m.frames g with
      currentCallOrdinal := ((m.frames g).currentCallOrdinal + 1) % 2 ^ 64 } else m.frames g := by
  cases ptr with
  | frame f =>
    unfold Machine.incrementOrdinal Machine.setFrame
    by_cases h : g = f
    · subst h
      simp
    · simp [h, Ne.symm h]
  | root node => simp [Machine.incrementOrdinal, Machine.updateSpace]
  | scope k => simp [Machine.incrementOrdinal, Machine.setScope]

theorem incrementOrdinal_scopes (ptr : OrdinalPtr) (k : Nat) :
    (m.incrementOrdinal ptr).scopes k = if ptr = .scope k then { m.scopes k with
      localRootCallOrdinal := ((m.scopes k).localRootCallOrdinal + 1) % 2 ^ 64 }
    else m.scopes k := by
  cases ptr with
  | frame f => simp [Machine.incrementOrdinal, Machine.setFrame]
  | root node => simp [Machine.incrementOrdinal, Machine.updateSpace]
  | scope j =>
    unfold Machine.incrementOrdinal Machine.setScope
    by_cases h : k = j
    · subst h
      simp
    · simp [h, Ne.symm h]

theorem incrementOrdinal_tstate (ptr : OrdinalPtr) :
    (m.incrementOrdinal ptr).tstate = match ptr with
      | .root node => m.tstate.updateSpace node (fun space =>
          { space with rootCallOrdinal := (space.rootCallOrdinal + 1) % 2 ^ 64 })
      | _ => m.tstate := by
  cases ptr <;> rfl

theorem pushFrame_frames (f : Nat) (frame : InterpreterFrame) (g : Nat) :
    (m.pushFrame f frame).frames g = if g = f then m.activatedFrame frame else m.frames g := by
  unfold Machine.pushFrame
  by_cases h : g = f <;> simp [h]

theorem setFrame_frames (f : Nat) (frame : InterpreterFrame) (g : Nat) :
    (m.setFrame f frame).frames g = if g = f then frame else m.frames g := by
  unfold Machine.setFrame
  by_cases h : g = f <;> simp [h]

theorem resetCallOrdinal_setFrame (f : Nat) (frame : InterpreterFrame) :
    resetCallOrdinal (m.setFrame f frame) f = m.setFrame f (Machine.begunFrame frame) := by
  unfold resetCallOrdinal Machine.begunFrame Machine.setFrame
  simp only [Function.update_self]
  split <;> simp

theorem moveFrame_eq (frame : InterpreterFrame) (jumps : List (Int × Int)) (offset : Nat) :
    ∃ bias, moveFrame frame jumps offset =
      { frame with coordinateBias := bias, lasti := offset } := by
  unfold moveFrame
  induction jumps generalizing frame with
  | nil => exact ⟨_, rfl⟩
  | cons jump jumps ih =>
    obtain ⟨bias, hbias⟩ := ih (coordinateJump frame jump.1 jump.2)
    exact ⟨bias, hbias⟩

theorem pushFrame_space (f : Nat) (frame : InterpreterFrame) {n : Nat}
    (hn : n < m.tstate.spaces.length) :
    (m.pushFrame f frame).tstate.space n = if n = m.tstate.currentSpace then
      { m.tstate.space n with
        seen := true
        depth := if (m.tstate.space n).depth ≠ 2 ^ 32 - 1 then (m.tstate.space n).depth + 1
          else (m.tstate.space n).depth }
      else m.tstate.space n := by
  change (m.tstate.updateSpace m.tstate.currentSpace _).space n = _
  rw [space_updateSpace _ _ _ _ hn]

theorem pushFrame_length (f : Nat) (frame : InterpreterFrame) :
    (m.pushFrame f frame).tstate.spaces.length = m.tstate.spaces.length := by
  simp [Machine.pushFrame]

theorem pushFrame_circle (h : Circle m.tstate) (f : Nat) (frame : InterpreterFrame) :
    Circle (m.pushFrame f frame).tstate := by
  refine h.congr (pushFrame_length m f frame) rfl ?_
  intro n hn
  rw [pushFrame_space m f frame hn]
  split <;> exact ⟨rfl, rfl⟩

theorem popFrame_frames (f node : Nat) (ptr : OrdinalPtr) (rest : List StackItem)
    (hne : ptr ≠ .frame f) (g : Nat) :
    (m.popFrame f node ptr rest).frames g = if g = f then Machine.deactivatedFrame (m.frames f)
      else if ptr = .frame g then { m.frames g with
        currentCallOrdinal := ((m.frames g).currentCallOrdinal + 1) % 2 ^ 64 }
      else m.frames g := by
  unfold Machine.popFrame Machine.setStack Machine.setFrame Machine.updateSpace
  by_cases h : g = f
  · subst h
    simp [incrementOrdinal_frames, hne, Machine.setPtr]
  · simp [h, incrementOrdinal_frames, Machine.setPtr]

theorem popFrame_scopes (f node : Nat) (ptr : OrdinalPtr) (rest : List StackItem) (k : Nat) :
    (m.popFrame f node ptr rest).scopes k = if ptr = .scope k then { m.scopes k with
      localRootCallOrdinal := ((m.scopes k).localRootCallOrdinal + 1) % 2 ^ 64 }
    else m.scopes k := by
  unfold Machine.popFrame Machine.setStack Machine.setFrame Machine.updateSpace
  simp only [incrementOrdinal_scopes]
  rfl

theorem popFrame_tstate (f node : Nat) (ptr : OrdinalPtr) (rest : List StackItem) :
    (m.popFrame f node ptr rest).tstate =
      { (match ptr with
          | .root n => m.tstate.updateSpace n (fun space =>
              { space with rootCallOrdinal := (space.rootCallOrdinal + 1) % 2 ^ 64 })
          | _ => m.tstate).updateSpace node (fun space =>
            { space with depth := if space.depth > 0 then space.depth - 1 else space.depth }) with
        callOrdinalPtr := some ptr
        stack := rest } := by
  unfold Machine.popFrame Machine.setStack Machine.setFrame Machine.updateSpace
  simp only [incrementOrdinal_tstate]
  cases ptr <;> rfl

theorem popFrame_space (f node : Nat) (ptr : OrdinalPtr) (rest : List StackItem) {n : Nat}
    (hn : n < m.tstate.spaces.length) :
    (m.popFrame f node ptr rest).tstate.space n = { m.tstate.space n with
      depth := if n = node ∧ (m.tstate.space n).depth > 0 then (m.tstate.space n).depth - 1
        else (m.tstate.space n).depth
      rootCallOrdinal := if ptr = .root n then ((m.tstate.space n).rootCallOrdinal + 1) % 2 ^ 64
        else (m.tstate.space n).rootCallOrdinal } := by
  rw [popFrame_tstate]
  cases ptr with
  | root r =>
    change (((m.tstate.updateSpace r _).updateSpace node _).space n) = _
    rw [space_updateSpace _ _ _ _ (by simpa using hn), space_updateSpace _ _ _ _ hn]
    by_cases hnode : n = node
    · by_cases hr : n = r
      · subst hnode
        subst hr
        simp
      · simp [hnode, hnode ▸ hr, Ne.symm (hnode ▸ hr)]
    · by_cases hr : n = r
      · subst hr
        simp [hnode]
      · simp [hnode, hr, Ne.symm hr]
  | frame g =>
    change ((m.tstate.updateSpace node _).space n) = _
    rw [space_updateSpace _ _ _ _ hn]
    by_cases hnode : n = node <;> simp [hnode]
  | scope k =>
    change ((m.tstate.updateSpace node _).space n) = _
    rw [space_updateSpace _ _ _ _ hn]
    by_cases hnode : n = node <;> simp [hnode]

theorem popFrame_length (f node : Nat) (ptr : OrdinalPtr) (rest : List StackItem) :
    (m.popFrame f node ptr rest).tstate.spaces.length = m.tstate.spaces.length := by
  rw [popFrame_tstate]
  cases ptr <;> simp

theorem popFrame_context (f node : Nat) (ptr : OrdinalPtr) (rest : List StackItem) :
    (m.popFrame f node ptr rest).context =
      ⟨some ptr, m.tstate.currentSpace, m.tstate.inheritedSpaceId⟩ := by
  unfold Machine.context
  rw [popFrame_tstate]
  cases ptr <;> rfl

theorem popFrame_address (f node : Nat) (ptr : OrdinalPtr) (rest : List StackItem) :
    (m.popFrame f node ptr rest).tstate.address = m.tstate.address := by
  rw [popFrame_tstate]
  cases ptr <;> rfl

theorem popFrame_stack (f node : Nat) (ptr : OrdinalPtr) (rest : List StackItem) :
    (m.popFrame f node ptr rest).tstate.stack = rest := by
  rw [popFrame_tstate]

theorem popFrame_circle (h : Circle m.tstate) (f node : Nat) (ptr : OrdinalPtr)
    (rest : List StackItem) : Circle (m.popFrame f node ptr rest).tstate := by
  refine h.congr (popFrame_length _ _ _ _ _) ?_ ?_
  · rw [popFrame_tstate]
    cases ptr <;> rfl
  · intro n hn
    rw [popFrame_space m f node ptr rest hn]
    exact ⟨rfl, rfl⟩

theorem leaveSpace_scopes (k j : Nat) :
    { (leaveSpace m k).scopes j with localRootCallOrdinal := 0 } =
      { m.scopes j with localRootCallOrdinal := 0 } := by
  unfold leaveSpace
  simp only
  split
  · by_cases hj : j = k
    · subst hj
      simp [Machine.updateSpace, Machine.setScope]
    · simp [Machine.updateSpace, Machine.setScope, Function.update_of_ne hj]
  · rfl

theorem leaveSpace_scopes_of_ne {k j : Nat} (h : j ≠ k) :
    (leaveSpace m k).scopes j = m.scopes j := by
  unfold leaveSpace
  simp only
  split
  · simp [Machine.updateSpace, Machine.setScope, Function.update_of_ne h]
  · rfl

theorem leaveSpace_frames (k : Nat) : (leaveSpace m k).frames = m.frames := by
  unfold leaveSpace
  simp only
  split <;> rfl

theorem leaveSpace_stack_frames (k : Nat) (rest : List StackItem) :
    ((leaveSpace m k).setStack rest).frames = m.frames :=
  leaveSpace_frames m k

theorem leaveSpace_tstate (k : Nat) : (leaveSpace m k).tstate =
    { (if (m.scopes k).useLocalRoot then m.tstate.updateSpace (m.scopes k).space
        (fun space => { space with rootCallOrdinal := (m.scopes k).leftOrdinal })
        else m.tstate) with
      currentSpace := (m.scopes k).previousSpace
      inheritedSpaceId := (m.scopes k).previousSpaceId
      callOrdinalPtr := (m.scopes k).previousCallOrdinalPtr } := by
  unfold leaveSpace
  simp only
  split <;> rfl

theorem leaveSpace_address (k : Nat) :
    (leaveSpace m k).tstate.address = m.tstate.address := by
  rw [leaveSpace_tstate]
  simp only
  split <;> rfl

theorem leaveSpace_length (k : Nat) :
    (leaveSpace m k).tstate.spaces.length = m.tstate.spaces.length := by
  rw [leaveSpace_tstate]
  simp only
  split <;> simp

theorem leaveSpace_space (k : Nat) {n : Nat} (hn : n < m.tstate.spaces.length) :
    (leaveSpace m k).tstate.space n = { m.tstate.space n with
      rootCallOrdinal := if (m.scopes k).useLocalRoot = true ∧ n = (m.scopes k).space then
        (m.scopes k).leftOrdinal else (m.tstate.space n).rootCallOrdinal } := by
  rw [leaveSpace_tstate]
  cases (m.scopes k).useLocalRoot with
  | false => rfl
  | true =>
    simp only [if_true, true_and]
    change (m.tstate.updateSpace (m.scopes k).space _).space n = _
    rw [space_updateSpace _ _ _ _ hn]
    split <;> rfl

theorem leaveSpace_circle (h : Circle m.tstate) (k : Nat) : Circle (leaveSpace m k).tstate := by
  refine h.congr (leaveSpace_length m k) ?_ ?_
  · rw [leaveSpace_tstate]
    simp only
    split <;> rfl
  · intro n hn
    rw [leaveSpace_space m k hn]
    exact ⟨rfl, rfl⟩

theorem rememberDelta_space (node : Nat) {n : Nat} (hn : n < m.tstate.spaces.length) :
    (rememberDelta m node).tstate.space n = if n = node then { m.tstate.space n with
        lastDeltaRootCallOrdinal := (m.tstate.space n).rootCallOrdinal }
      else m.tstate.space n := by
  change (m.tstate.updateSpace node _).space n = _
  rw [space_updateSpace _ _ _ _ hn]

theorem rememberDelta_length (node : Nat) :
    (rememberDelta m node).tstate.spaces.length = m.tstate.spaces.length :=
  length_updateSpace _ _ _

theorem rememberDelta_circle (h : Circle m.tstate) (node : Nat) :
    Circle (rememberDelta m node).tstate := by
  refine h.congr (rememberDelta_length m node) rfl ?_
  intro n hn
  rw [rememberDelta_space m node hn]
  split <;> exact ⟨rfl, rfl⟩

theorem rememberDelta_frames (node f : Nat) :
    (rememberDelta m node).frames f =
      if f ∈ threadStateFrame m node ∧ m.visibleIn (m.spacePtr node) f = true then
        rememberWords (m.spacePtr node) (m.frames f)
      else m.frames f := rfl

end accessors

section operations
variable {p : Platform} {m : Machine}

theorem currentSpace_eq (t : ThreadState) (allocates : Bool)
    (hid : (t.space t.currentSpace).spaceId = t.inheritedSpaceId) :
    currentSpace p t allocates = (some t.currentSpace, t) := by
  unfold currentSpace
  rw [if_neg (not_not.mpr hid)]

theorem activateFrame_eq (f : Nat) (allocates : Bool) (hoff : (m.frames f).space = none)
    (hid : (m.tstate.space m.tstate.currentSpace).spaceId = m.tstate.inheritedSpaceId) :
    activateFrame p (m.push (.frame f)) f allocates = m.pushFrame f (m.frames f) := by
  have hcur : currentSpace p (m.push (.frame f)).tstate allocates =
      (some m.tstate.currentSpace, (m.push (.frame f)).tstate) := currentSpace_eq _ _ hid
  have hspace : ((m.push (.frame f)).frames f).space = none := hoff
  unfold activateFrame
  simp only [hspace, Option.isSome_none, Bool.false_eq_true, if_false, hcur]
  rfl

theorem enterFrame_eq (f : Nat) (evalEntry allocates : Bool) (hoff : (m.frames f).space = none)
    (hid : (m.tstate.space m.tstate.currentSpace).spaceId = m.tstate.inheritedSpaceId) :
    enterFrame p m f evalEntry allocates =
      m.pushFrame f (if evalEntry then resetLastCoordinate (m.frames f) else m.frames f) := by
  unfold enterFrame
  cases evalEntry with
  | false => exact activateFrame_eq f allocates hoff hid
  | true =>
    simp only [if_true]
    rw [activateFrame_eq (m := m.setFrame f (resetLastCoordinate (m.frames f))) f allocates
      (by simpa [Machine.setFrame, resetLastCoordinate]) hid]
    simp [Machine.pushFrame, Machine.setFrame, Machine.activatedFrame, Machine.spacePtr]

theorem deactivateFrame_inactive {f : Nat} (hoff : (m.frames f).space = none) :
    deactivateFrame m f = m := by
  unfold deactivateFrame
  rw [hoff]

theorem deactivateTimes_inactive {f : Nat} (hoff : (m.frames f).space = none) (n : Nat) :
    deactivateTimes m f n = m := by
  induction n with
  | zero => rfl
  | succ n ih => rw [deactivateTimes, deactivateFrame_inactive hoff, ih]

theorem deactivateFrame_eq (hcircle : Circle m.tstate) {f node : Nat} {ptr : OrdinalPtr}
    (hspace : (m.frames f).space = some (m.spacePtr node)) (hnode : node < m.tstate.spaces.length)
    (hptr : m.tstate.callOrdinalPtr = some (.frame f))
    (hprev : (m.frames f).previousCallOrdinalPtr = some ptr) (rest : List StackItem) :
    (deactivateFrame m f).setStack rest = m.popFrame f node ptr rest := by
  have howns : threadOwnsSpace m.tstate (m.spacePtr node) = true := hcircle.owns hnode
  unfold deactivateFrame
  rw [hspace]
  simp only [howns, Bool.not_true, Bool.false_eq_true, if_false, hptr, if_true, hprev]
  have hkept : (((m.setPtr (some ptr)).incrementOrdinal ptr).tstate).callOrdinalPtr = some ptr := by
    rw [incrementOrdinal_tstate]
    cases ptr <;> rfl
  rw [if_neg]
  · rfl
  · intro hnone
    change (((m.setPtr (some ptr)).incrementOrdinal ptr).tstate).callOrdinalPtr = none at hnone
    rw [hkept] at hnone
    cases hnone

theorem deactivateTimes_eq (hcircle : Circle m.tstate) {f node : Nat} {ptr : OrdinalPtr}
    (hspace : (m.frames f).space = some (m.spacePtr node)) (hnode : node < m.tstate.spaces.length)
    (hptr : m.tstate.callOrdinalPtr = some (.frame f))
    (hprev : (m.frames f).previousCallOrdinalPtr = some ptr) (hne : ptr ≠ .frame f)
    (rest : List StackItem) (again : Nat) :
    (deactivateTimes m f (again + 1)).setStack rest = m.popFrame f node ptr rest := by
  have hone := deactivateFrame_eq hcircle hspace hnode hptr hprev rest
  have hoff : ((deactivateFrame m f).frames f).space = none := by
    change (((deactivateFrame m f).setStack rest).frames f).space = none
    rw [hone, popFrame_frames m f node ptr rest hne, if_pos rfl]
    rfl
  rw [deactivateTimes, deactivateTimes_inactive hoff, hone]

theorem Grown.refl {t : ThreadState} (spaceId : Nat) (hcircle : Circle t) : Grown spaceId t t :=
  ⟨hcircle, rfl, Nat.le_refl _, fun _ _ => rfl, fun n hle hlt => by omega⟩

/-- One more space at the end of the circle. -/
theorem Circle.grow {t t' : ThreadState} (h : Circle t) {spaceId : Nat}
    (hnone : ∀ n < t.spaces.length, (t.space n).spaceId ≠ spaceId)
    (hlength : t'.spaces.length = t.spaces.length + 1) (hlast : t'.lastSpace = t.spaces.length)
    (hold : ∀ n < t.spaces.length, t'.space n =
      if n = t.lastSpace then { t.space n with next := t.spaces.length } else t.space n)
    (hid : (t'.space t.spaces.length).spaceId = spaceId)
    (hnext : (t'.space t.spaces.length).next = 0) : Circle t' := by
  have hends := h.last
  have hids : ∀ n < t.spaces.length, (t'.space n).spaceId = (t.space n).spaceId := by
    intro n hn
    rw [hold n hn]
    split <;> rfl
  refine ⟨by omega, by omega, ?_, ?_⟩
  · intro n hn
    by_cases heq : n = t.spaces.length
    · rw [heq, hnext, hlast, if_pos rfl]
    · rw [hold n (by omega), hlast, if_neg heq]
      split
      · simp only
        omega
      · rename_i hne
        rw [h.next n (by omega), if_neg hne]
  · intro a ha b hb hab
    by_cases hal : a < t.spaces.length
    · by_cases hbl : b < t.spaces.length
      · rw [hids a hal, hids b hbl] at hab
        exact h.distinct a hal b hbl hab
      · have hbe : b = t.spaces.length := by omega
        rw [hids a hal, hbe, hid] at hab
        exact absurd hab (hnone a hal)
    · have hae : a = t.spaces.length := by omega
      by_cases hbl : b < t.spaces.length
      · rw [hae, hid, hids b hbl] at hab
        exact absurd hab.symm (hnone b hbl)
      · omega

theorem getThreadSpace_grown {t t' : ThreadState} (hcircle : Circle t) {spaceId node : Nat}
    {allocates : Bool} (h : getThreadSpace p t spaceId allocates = (some node, t')) :
    Grown spaceId t t' ∧ findThreadSpace t' spaceId = some node := by
  obtain ⟨found, hfind, hget⟩ | ⟨hfind, hget⟩ | ⟨-, hget⟩ :=
    getThreadSpace_cases (p := p) hcircle spaceId allocates
  · rw [hget] at h
    cases h
    exact ⟨Grown.refl spaceId hcircle, hfind⟩
  · rw [hget] at h
    cases h
    have hold : ∀ n < t.spaces.length, ({ t with
        spaces := (t.updateSpace t.lastSpace (fun last =>
          { last with next := t.spaces.length })).spaces ++
            [initializeSpaceState spaceId (spaceRootCoordinateHash p t) 0]
        lastSpace := t.spaces.length } : ThreadState).space n =
        if n = t.lastSpace then { t.space n with next := t.spaces.length } else t.space n := by
      intro n hn
      rw [← space_updateSpace t t.lastSpace n (fun last => { last with next := t.spaces.length }) hn]
      unfold ThreadState.space
      simp only [List.getD_eq_getElem?_getD]
      rw [List.getElem?_append_left (by simpa using hn)]
    have hnew : ({ t with
        spaces := (t.updateSpace t.lastSpace (fun last =>
          { last with next := t.spaces.length })).spaces ++
            [initializeSpaceState spaceId (spaceRootCoordinateHash p t) 0]
        lastSpace := t.spaces.length } : ThreadState).space t.spaces.length =
        initializeSpaceState spaceId (spaceRootCoordinateHash p t) 0 := by
      unfold ThreadState.space
      simp only [List.getD_eq_getElem?_getD]
      rw [List.getElem?_append_right (by simp)]
      simp
    generalize ht' : ({ t with
        spaces := (t.updateSpace t.lastSpace (fun last =>
          { last with next := t.spaces.length })).spaces ++
            [initializeSpaceState spaceId (spaceRootCoordinateHash p t) 0]
        lastSpace := t.spaces.length } : ThreadState) = t' at hold hnew ⊢
    have hlen : t'.spaces.length = t.spaces.length + 1 := by
      rw [← ht']
      simp
    have hlast' : t'.lastSpace = t.spaces.length := by rw [← ht']
    have hsame : ∀ n < t.spaces.length,
        t'.space n = { t.space n with next := (t'.space n).next } := by
      intro n hn
      rw [hold n hn]
      split <;> rfl
    have hid : (t'.space t.spaces.length).spaceId = spaceId := by
      rw [hnew]
      rfl
    have hcircle' : Circle t' :=
      hcircle.grow (hcircle.find_none hfind) hlen hlast' hold hid (by rw [hnew]; rfl)
    have hfresh : ∀ n, t.spaces.length ≤ n → n < t'.spaces.length →
        ∃ rootHash, t'.space n = initializeSpaceState spaceId rootHash 0 := by
      intro n hle hlt
      have heq : n = t.spaces.length := by omega
      exact ⟨_, heq ▸ hnew⟩
    refine ⟨⟨hcircle', by rw [← ht'], by omega, hsame, hfresh⟩, ?_⟩
    have hfound := hcircle'.find_eq (show t.spaces.length < t'.spaces.length by omega)
    rwa [hid] at hfound
  · rw [hget] at h
    cases h

theorem enterSpace_entersSpace (hcircle : Circle m.tstate) {m' : Machine} {k spaceId : Nat}
    {allocates : Bool} (h : enterSpace p m k spaceId allocates = some m') :
    ∃ node t scope ptr, EntersSpace m k spaceId m' node t scope ptr := by
  unfold enterSpace at h
  split at h
  · cases h
  · rename_i node t hget
    obtain ⟨hgrown, hfound⟩ := getThreadSpace_grown hcircle hget
    have hsame := hgrown.same
    have haddress : t.address = m.tstate.address := by rw [hsame]
    have hnear : nearestVisibleFrameInSpace (m.setTstate t) ((m.setTstate t).spacePtr node)
        (currentThreadFrame (m.setTstate t)) =
        nearestVisibleFrameInSpace m (m.spacePtr node) (currentThreadFrame (m.setTstate t)) := by
      unfold Machine.spacePtr
      simp only [Machine.setTstate]
      rw [haddress]
      rfl
    have hsaved : t.currentSpace = m.tstate.currentSpace ∧
        t.inheritedSpaceId = m.tstate.inheritedSpaceId ∧
        t.callOrdinalPtr = m.tstate.callOrdinalPtr := by
      rw [hsame]
      exact ⟨rfl, rfl, rfl⟩
    simp only [hnear] at h
    cases hslot : nearestVisibleFrameInSpace m (m.spacePtr node)
        (currentThreadFrame (m.setTstate t)) with
    | none =>
      simp only [hslot] at h
      cases h
      exact ⟨node, t, _, .scope k, hgrown, hfound, rfl, hsaved, rfl, rfl, by
        rw [hslot]
        exact ⟨rfl, rfl, rfl⟩⟩
    | some parent =>
      simp only [hslot] at h
      cases h
      exact ⟨node, t, _, .frame parent, hgrown, hfound, rfl, hsaved, rfl, rfl, by
        rw [hslot]
        exact ⟨rfl, rfl, rfl⟩⟩

theorem threadDelta_cases (m : Machine) (spaceId : Nat) (allocates tupleAllocates : Bool) :
    (threadDeltaForTstate m spaceId allocates tupleAllocates).2 = m ∨
      ∃ node, findThreadSpace m.tstate spaceId = some node ∧
        (threadDeltaForTstate m spaceId allocates tupleAllocates).2 = rememberDelta m node := by
  cases hfind : findThreadSpace m.tstate spaceId with
  | none =>
    left
    simp [threadDeltaForTstate, hfind]
  | some node =>
    unfold threadDeltaForTstate
    simp only [hfind, coordinateCount_eq]
    cases (m.tstate.space node).seen with
    | false => exact Or.inl rfl
    | true =>
      cases allocates with
      | false => exact Or.inl rfl
      | true =>
        right
        refine ⟨node, rfl, ?_⟩
        simp only [Bool.not_true, Bool.false_eq_true, if_false]
        rw [deltaFill_eq m _ (Nat.le_trans (deltaScan_le _ _ _) (deltaInitial_le _ _))]
        cases tupleAllocates <;> rfl

end operations

end Retrace
