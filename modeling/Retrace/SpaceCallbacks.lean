import Retrace.ThreadRun

/-! The callbacks of an interpreter: one `call_at` slot and one switch callback for each space. -/

set_option autoImplicit false

namespace Retrace

/-- A target that is armed. `arming` numbers the successful calls of `call_at`; the code has no
such number. -/
structure CallAt where
  threadId : Nat
  coordinates : List Nat
  callback : Nat
  overshootCallback : Option Nat
  arming : Nat
  deriving DecidableEq, Repr

/-- `_PyRetraceSpaceCallbackState`. Its `call_at` fields are all set or all cleared. -/
structure SpaceCallbackState where
  spaceId : Nat
  lastBytecodeThread : Option Nat
  threadSwitchCallback : Option Nat
  callAt : Option CallAt
  deriving DecidableEq, Repr

/-- What is left of `_PyRetrace_BeginInstruction` when a callback that it called returns. -/
inductive Pending where
  | afterCallAt
  | afterSwitch
  deriving DecidableEq, Repr

/-- `live` lists the threads by their address; `callAt` is the slot of the root space. -/
structure Interp where
  threads : Nat → Machine
  live : List Nat
  lastBytecodeThread : Option Nat
  threadSwitchArmed : Bool
  callAt : Option CallAt
  callAtExtraArmed : Bool
  spaceCallbacks : List SpaceCallbackState
  pending : Nat → Option Pending
  armings : Nat

inductive PyError where
  | valueError (message : String)
  | lookupError (message : String)
  | memoryError
  deriving DecidableEq, Repr

namespace Interp

def setThread (interp : Interp) (i : Nat) (m : Machine) : Interp :=
  { interp with threads := Function.update interp.threads i m }

def setPending (interp : Interp) (i : Nat) (pending : Option Pending) : Interp :=
  { interp with pending := Function.update interp.pending i pending }

end Interp

def findEntry (spaceId : Nat) (entries : List SpaceCallbackState) : Option SpaceCallbackState :=
  entries.find? (fun entry => entry.spaceId = spaceId)

/-- A write through the pointer to the entry of a space. -/
def updateEntry (spaceId : Nat) (f : SpaceCallbackState → SpaceCallbackState) :
    List SpaceCallbackState → List SpaceCallbackState
  | [] => []
  | entry :: rest =>
    if entry.spaceId = spaceId then f entry :: rest else entry :: updateEntry spaceId f rest

def findSpaceCallbackState (interp : Interp) (spaceId : Nat) : Option SpaceCallbackState :=
  findEntry spaceId interp.spaceCallbacks

/-- `none` if the entry is not there and cannot be allocated. -/
def ensureSpaceCallbackState (interp : Interp) (spaceId : Nat) (allocates : Bool) :
    Option Interp :=
  match findSpaceCallbackState interp spaceId with
  | some _ => some interp
  | none =>
    if allocates then
      some { interp with
        spaceCallbacks := ⟨spaceId, none, none, none⟩ :: interp.spaceCallbacks }
    else none

def spaceCallbackStateEmpty (entry : SpaceCallbackState) : Bool :=
  entry.threadSwitchCallback.isNone && entry.callAt.isNone

def updateThreadSwitchArmed (interp : Interp) : Interp :=
  { interp with
    threadSwitchArmed := interp.spaceCallbacks.any (fun entry => entry.threadSwitchCallback.isSome) }

def updateCallAtExtraArmed (interp : Interp) : Interp :=
  { interp with
    callAtExtraArmed := interp.spaceCallbacks.any (fun entry => entry.callAt.isSome) }

def pruneSpaceCallbackState (interp : Interp) (spaceId : Nat) : Interp :=
  match findSpaceCallbackState interp spaceId with
  | none => interp
  | some entry =>
    if spaceCallbackStateEmpty entry then
      { interp with
        spaceCallbacks := interp.spaceCallbacks.eraseP (fun entry => entry.spaceId = spaceId) }
    else interp

def clearRootCallAt (interp : Interp) : Interp := { interp with callAt := none }

def clearSpaceCallAt (interp : Interp) (spaceId : Nat) : Interp :=
  match findSpaceCallbackState interp spaceId with
  | none => interp
  | some _ =>
    let interp := { interp with
      spaceCallbacks := updateEntry spaceId (fun entry => { entry with callAt := none })
        interp.spaceCallbacks }
    pruneSpaceCallbackState (updateCallAtExtraArmed interp) spaceId

def clearCallAt (interp : Interp) (spaceId : Nat) : Interp :=
  if spaceId = spaceIdRoot then clearRootCallAt interp else clearSpaceCallAt interp spaceId

/-- The words decide where they differ, else the lengths: the target is before (-1), at (0) or
after (1) the coordinates. -/
def compareWords : List Nat → List Nat → Int
  | [], [] => 0
  | [], _ :: _ => -1
  | _ :: _, [] => 1
  | target :: targets, word :: words =>
    if target < word then -1 else if target > word then 1 else compareWords targets words

/-- `none` if the buffer cannot be allocated. -/
def compareTargetToFrame (target : List Nat) (m : Machine) (space : SpacePtr) (chain : List Nat)
    (allocates : Bool) : Option Int :=
  if coordinateCount m space chain ≠ 0 ∧ allocates = false then none
  else some (compareWords target (coordinatesOf m space chain))

/-- A call of `call_at` with its arguments converted, and whether its allocations succeed. -/
structure CallAtRequest where
  threadId : Nat
  coordinates : List Nat
  callback : Nat
  overshootCallback : Option Nat
  spaceId : Nat
  compareAllocates : Bool
  entryAllocates : Bool
  deriving DecidableEq, Repr

def findThreadState (interp : Interp) (threadId : Nat) : Option Nat :=
  if threadId = 0 then none
  else interp.live.find? (fun i => (interp.threads i).tstate.threadId = threadId)

/-- The slot of the space is cleared before it is filled. -/
def armCallAt (interp : Interp) (request : CallAtRequest) : Option PyError × Interp :=
  let interp := clearCallAt interp request.spaceId
  let target : CallAt := {
    threadId := request.threadId
    coordinates := request.coordinates
    callback := request.callback
    overshootCallback := request.overshootCallback
    arming := interp.armings }
  if request.spaceId = spaceIdRoot then
    (none, { interp with callAt := some target, armings := interp.armings + 1 })
  else
    match ensureSpaceCallbackState interp request.spaceId request.entryAllocates with
    | none => (some .memoryError, interp)
    | some interp =>
      (none, { interp with
        spaceCallbacks := updateEntry request.spaceId
          (fun entry => { entry with callAt := some target }) interp.spaceCallbacks
        callAtExtraArmed := true
        armings := interp.armings + 1 })

def callAt (interp : Interp) (request : CallAtRequest) : Option PyError × Interp :=
  if request.threadId = 0 then
    (some (.valueError "call_at thread id must be non-zero"), interp)
  else if request.coordinates.length = 0 ∨ request.coordinates.length % 2 ≠ 0 then
    (some (.valueError "call_at coordinates must include frame pairs"), interp)
  else
    match findThreadState interp request.threadId with
    | none => (some (.lookupError "unknown thread id"), interp)
    | some i =>
      let m := interp.threads i
      match findThreadSpace m.tstate request.spaceId with
      | none => (some (.lookupError "unknown coordinate space"), interp)
      | some node =>
        if (m.tstate.space node).seen = false then
          (some (.lookupError "unknown coordinate space"), interp)
        else
          match compareTargetToFrame request.coordinates m (m.spacePtr node)
              (threadStateFrame m node) request.compareAllocates with
          | none => (some .memoryError, interp)
          | some comparison =>
            if comparison < 0 ∧ request.overshootCallback = none then
              (some (.valueError "call_at coordinates are in the past"), interp)
            else armCallAt interp request

def visibleThreadForSpace (interp : Interp) (i spaceId : Nat) : Option Nat :=
  let m := interp.threads i
  match findThreadSpace m.tstate spaceId with
  | none => none
  | some node =>
    if (nearestVisibleFrameInSpace m (m.spacePtr node) (currentThreadFrame m)).isSome then some i
    else none

def setThreadSwitchCallback (interp : Interp) (i : Nat) (callback : Option Nat) (spaceId : Nat)
    (allocates : Bool) : Option PyError × Interp :=
  let found := match callback with
    | none => (findSpaceCallbackState interp spaceId).map (fun _ => interp)
    | some _ => ensureSpaceCallbackState interp spaceId allocates
  match found with
  | none => (if callback.isSome then some .memoryError else none, interp)
  | some interp =>
    let interp := { interp with
      spaceCallbacks := updateEntry spaceId (fun entry => { entry with
        threadSwitchCallback := callback
        lastBytecodeThread :=
          if callback.isSome then visibleThreadForSpace interp i spaceId else none })
        interp.spaceCallbacks }
    (none, updateThreadSwitchArmed (pruneSpaceCallbackState interp spaceId))

def clearThread (clear : ThreadState → ThreadState) (interp : Interp) (i : Nat) : Interp :=
  let forget (last : Option Nat) : Option Nat := if last = some i then none else last
  let m := interp.threads i
  { interp.setThread i (m.setTstate (clear m.tstate)) with
    live := interp.live.erase i
    lastBytecodeThread := forget interp.lastBytecodeThread
    spaceCallbacks := interp.spaceCallbacks.map (fun entry =>
      { entry with lastBytecodeThread := forget entry.lastBytecodeThread }) }

end Retrace
