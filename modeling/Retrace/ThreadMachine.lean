import Retrace.ThreadSpaces
import Mathlib.Logic.Function.Basic

/-!
Frames, ordinal slots and space scopes of one running thread. `Machine` is the thread state with
the frames and scopes its pointers can reach.
-/

set_option autoImplicit false

namespace Retrace

structure FrameDeltaState where
  lastCallOrdinal : Nat
  lastInstructionCounter : Nat
  lastDeltaSpace : Option SpacePtr
  deriving DecidableEq, Repr

def initialDelta : FrameDeltaState where
  lastCallOrdinal := lastCallOrdinalUnset
  lastInstructionCounter := lastInstructionCounterUnset
  lastDeltaSpace := none

/-- `lasti` is the offset of the instruction the frame is at, -1 before the first one. Below
`firstTraceable` the frame is incomplete. -/
structure InterpreterFrame where
  lasti : Int
  firstTraceable : Nat
  coordinateBias : Int
  currentCallOrdinal : Nat
  previousCallOrdinalPtr : Option OrdinalPtr
  space : Option SpacePtr
  delta : FrameDeltaState
  deriving DecidableEq, Repr

def frameStateInit (frame : InterpreterFrame) : InterpreterFrame :=
  { frame with
    coordinateBias := 0
    currentCallOrdinal := 0
    previousCallOrdinalPtr := none
    space := none
    delta := initialDelta }

def resetLastCoordinate (frame : InterpreterFrame) : InterpreterFrame :=
  { frame with delta := initialDelta }

def isIncomplete (frame : InterpreterFrame) : Bool := frame.lasti < frame.firstTraceable

def frameIsVisible (frame : InterpreterFrame) : Bool := frame.space.isSome && !isIncomplete frame

def frameCoordinate (frame : InterpreterFrame) : Nat := (frame.coordinateBias + frame.lasti).toNat

def coordinateJump (frame : InterpreterFrame) (fromOffset toOffset : Int) : InterpreterFrame :=
  { frame with coordinateBias := frame.coordinateBias + fromOffset + 1 - toOffset }

/-- The C stack's record of one running call in a space. -/
structure SpaceScope where
  previousSpace : Nat
  previousSpaceId : Nat
  previousCallOrdinalPtr : Option OrdinalPtr
  space : Nat
  initialRootCallOrdinal : Nat
  localRootCallOrdinal : Nat
  useLocalRoot : Bool
  deriving DecidableEq, Repr

structure Machine where
  tstate : ThreadState
  frames : Nat → InterpreterFrame
  scopes : Nat → SpaceScope

namespace Machine

def setFrame (m : Machine) (f : Nat) (frame : InterpreterFrame) : Machine :=
  { m with frames := Function.update m.frames f frame }

def setScope (m : Machine) (k : Nat) (scope : SpaceScope) : Machine :=
  { m with scopes := Function.update m.scopes k scope }

def setTstate (m : Machine) (tstate : ThreadState) : Machine := { m with tstate := tstate }

def setPtr (m : Machine) (ptr : Option OrdinalPtr) : Machine :=
  { m with tstate := { m.tstate with callOrdinalPtr := ptr } }

def setStack (m : Machine) (stack : List StackItem) : Machine :=
  { m with tstate := { m.tstate with stack := stack } }

def updateSpace (m : Machine) (node : Nat) (f : SpaceState → SpaceState) : Machine :=
  { m with tstate := m.tstate.updateSpace node f }

/-- The pointer a frame of this thread holds to one of the thread's spaces. -/
def spacePtr (m : Machine) (node : Nat) : SpacePtr := ⟨m.tstate.address, node⟩

/-- `++*ptr` on a `uint64_t`. -/
def incrementOrdinal (m : Machine) : OrdinalPtr → Machine
  | .frame f => m.setFrame f { m.frames f with
      currentCallOrdinal := ((m.frames f).currentCallOrdinal + 1) % 2 ^ 64 }
  | .root node => m.updateSpace node (fun space =>
      { space with rootCallOrdinal := (space.rootCallOrdinal + 1) % 2 ^ 64 })
  | .scope k => m.setScope k { m.scopes k with
      localRootCallOrdinal := ((m.scopes k).localRootCallOrdinal + 1) % 2 ^ 64 }

end Machine

/-- The frames of a stack, the current one first; a frame pointer is read as the chain of
`previous` pointers that starts at it. -/
def frameChain (stack : List StackItem) : List Nat :=
  stack.filterMap (fun item => match item with
    | .frame f => some f
    | _ => none)

def chainFrom (f : Nat) (chain : List Nat) : List Nat := chain.dropWhile (fun g => g ≠ f)

namespace Machine

def chain (m : Machine) : List Nat := frameChain m.tstate.stack

def callbackChain (m : Machine) : List Nat :=
  match m.tstate.threadCallbackFrame with
  | none => []
  | some f => chainFrom f m.chain

def currentSpaceId (m : Machine) : Nat := (m.tstate.space m.tstate.currentSpace).spaceId

/-- Visible, and in the space with this pointer. -/
def visibleIn (m : Machine) (space : SpacePtr) (f : Nat) : Bool :=
  frameIsVisible (m.frames f) && (m.frames f).space == some space

end Machine

def nearestVisibleFrameInSpace (m : Machine) (space : SpacePtr) (chain : List Nat) : Option Nat :=
  chain.find? (m.visibleIn space)

def currentThreadFrame (m : Machine) : List Nat :=
  if m.tstate.threadCallbackActive ∧ m.currentSpaceId ≠ spaceIdRoot then m.callbackChain
  else m.chain

def threadStateFrame (m : Machine) (node : Nat) : List Nat :=
  if m.tstate.threadCallbackActive ∧ m.currentSpaceId ≠ (m.tstate.space node).spaceId then
    m.callbackChain
  else m.chain

/-- The status is dropped, as the eval loop does; without a space nothing changes. -/
def activateFrame (p : Platform) (m : Machine) (f : Nat) (allocates : Bool) : Machine :=
  let owned := match (m.frames f).space with
    | none => false
    | some space => threadOwnsSpace m.tstate space
  if owned then m else
  let m := if (m.frames f).space.isSome then m.setFrame f (frameStateInit (m.frames f)) else m
  match currentSpace p m.tstate allocates with
  | (none, tstate) => m.setTstate tstate
  | (some node, tstate) =>
    let m := m.setTstate tstate
    let m := m.setFrame f { m.frames f with
      space := some (m.spacePtr node)
      currentCallOrdinal := 0
      previousCallOrdinalPtr := tstate.callOrdinalPtr }
    let m := m.setPtr (some (.frame f))
    m.updateSpace node (fun space => { space with
      seen := true
      depth := if space.depth ≠ 2 ^ 32 - 1 then space.depth + 1 else space.depth })

def deactivateFrame (m : Machine) (f : Nat) : Machine :=
  match (m.frames f).space with
  | none => m
  | some space =>
    if !threadOwnsSpace m.tstate space then m.setFrame f (frameStateInit (m.frames f)) else
    let previous := (m.frames f).previousCallOrdinalPtr
    let m := if m.tstate.callOrdinalPtr = some (.frame f) then m.setPtr previous else m
    let m := match previous with
      | none => m
      | some ptr => m.incrementOrdinal ptr
    let m := m.updateSpace space.node (fun space =>
      { space with depth := if space.depth > 0 then space.depth - 1 else space.depth })
    let m := m.setFrame f { m.frames f with
      space := none
      previousCallOrdinalPtr := none
      currentCallOrdinal := 0 }
    if m.tstate.callOrdinalPtr = none then m.setPtr (some (.root m.tstate.currentSpace)) else m

/-- The first part of `_PyRetrace_BeginInstruction`. -/
def resetCallOrdinal (m : Machine) (f : Nat) : Machine :=
  if frameIsVisible (m.frames f) then
    m.setFrame f { m.frames f with currentCallOrdinal := 0 }
  else m

/-- The scope record `k` is the caller's; `none` is the error return. -/
def enterSpace (p : Platform) (m : Machine) (k spaceId : Nat) (allocates : Bool) :
    Option Machine :=
  match getThreadSpace p m.tstate spaceId allocates with
  | (none, _) => none
  | (some node, tstate) =>
    let m := m.setTstate tstate
    let scope : SpaceScope := {
      previousSpace := tstate.currentSpace
      previousSpaceId := tstate.inheritedSpaceId
      previousCallOrdinalPtr := tstate.callOrdinalPtr
      space := node
      initialRootCallOrdinal := 0
      localRootCallOrdinal := 0
      useLocalRoot := false }
    let m := match nearestVisibleFrameInSpace m (m.spacePtr node) (currentThreadFrame m) with
      | none => (m.setScope k { scope with
          useLocalRoot := true
          initialRootCallOrdinal := (tstate.space node).rootCallOrdinal
          localRootCallOrdinal := (tstate.space node).rootCallOrdinal }).setPtr (some (.scope k))
      | some parent => (m.setScope k scope).setPtr (some (.frame parent))
    some { m with tstate := { m.tstate with currentSpace := node, inheritedSpaceId := spaceId } }

def leaveSpace (m : Machine) (k : Nat) : Machine :=
  let scope := m.scopes k
  let m := if scope.useLocalRoot then
      let ordinal := if scope.localRootCallOrdinal = scope.initialRootCallOrdinal then
        (scope.localRootCallOrdinal + 1) % 2 ^ 64 else scope.localRootCallOrdinal
      (m.setScope k { scope with localRootCallOrdinal := ordinal }).updateSpace scope.space
        (fun space => { space with rootCallOrdinal := ordinal })
    else m
  { m with tstate := { m.tstate with
    currentSpace := scope.previousSpace
    inheritedSpaceId := scope.previousSpaceId
    callOrdinalPtr := scope.previousCallOrdinalPtr } }

end Retrace
