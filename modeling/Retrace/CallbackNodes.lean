import Retrace.BytecodeBoundary
import Retrace.PointerChain

/-! The callback registry of an interpreter as it stands in memory: the list nodes of the spaces
with their pointers, and the operations that walk and change the list. -/

set_option autoImplicit false

namespace Retrace

/-- The `call_at` fields of an interpreter or of a list node. -/
structure CallAtFields where
  armed : Bool
  threadId : Nat
  coordinates : Option (List Nat)
  callback : Option Nat
  overshootCallback : Option Nat
  deriving DecidableEq, Repr

def CallAtFields.cleared : CallAtFields := ⟨false, 0, none, none, none⟩

/-- `_PyRetraceSpaceCallbackState`. -/
structure CallbackNode where
  spaceId : Nat
  lastBytecodeThread : Option Nat
  threadSwitchCallback : Option Nat
  callAt : CallAtFields
  next : Option Nat
  deriving DecidableEq, Repr

/-- The callback fields of `_PyRetraceInterpreterState`, with the memory that the list nodes are in
and the thread states that have not been cleared. -/
structure Registry where
  lastBytecodeThread : Option Nat
  threadSwitchArmed : Bool
  spaceCallbacks : Option Nat
  callAt : CallAtFields
  callAtSpaceId : Nat
  callAtExtraArmed : Bool
  memory : Nat → CallbackNode
  allocated : List Nat
  live : List Nat

inductive RegistryCall where
  | callAt (i callback : Nat)
  | threadSwitch (i callback : Nat) (previousDelta : List Nat)
  deriving DecidableEq, Repr

namespace Registry

def next (reg : Registry) (a : Nat) : Option Nat := (reg.memory a).next

def write (reg : Registry) (a : Nat) (node : CallbackNode) : Registry :=
  { reg with memory := Function.update reg.memory a node }

def modify (reg : Registry) (a : Nat) (f : CallbackNode → CallbackNode) : Registry :=
  reg.write a (f (reg.memory a))

def free (reg : Registry) (a : Nat) : Registry :=
  { reg with allocated := reg.allocated.erase a }

/-- A loop over the list that stops at a node; `none` if it does not end. -/
def search (reg : Registry) (holds : CallbackNode → Bool) : Option (Option Nat) :=
  PointerChain.findFrom reg.next (fun a => holds (reg.memory a)) reg.allocated.length
    reg.spaceCallbacks

def findSpaceCallbackState (reg : Registry) (spaceId : Nat) : Option (Option Nat) :=
  reg.search (fun node => node.spaceId = spaceId)

/-- The memory that an allocation returns: at `a`, unless that is in use. -/
def unused (reg : Registry) (a : Nat) : Nat :=
  if a ∈ reg.allocated then reg.allocated.foldr max 0 + 1 else a

/-- `room` says where `PyMem_RawCalloc` finds memory. -/
def ensureSpaceCallbackState (reg : Registry) (spaceId : Nat) (room : Option Nat) :
    Option (Registry × Option Nat) := do
  match ← reg.findSpaceCallbackState spaceId with
  | some a => some (reg, some a)
  | none =>
    match room with
    | none => some (reg, none)
    | some a =>
      let a := reg.unused a
      let node : CallbackNode := ⟨spaceId, none, none, .cleared, reg.spaceCallbacks⟩
      some ({ reg.write a node with
        allocated := a :: reg.allocated
        spaceCallbacks := some a }, some a)

def spaceCallbackStateEmpty (node : CallbackNode) : Bool :=
  node.threadSwitchCallback.isNone && !node.callAt.armed && node.callAt.coordinates.isNone &&
    node.callAt.callback.isNone && node.callAt.overshootCallback.isNone

def updateThreadSwitchArmed (reg : Registry) : Option Registry := do
  let found ← reg.search (fun node => node.threadSwitchCallback.isSome)
  some { reg with threadSwitchArmed := found.isSome }

def updateCallAtExtraArmed (reg : Registry) : Option Registry := do
  let found ← reg.search (fun node => node.callAt.armed)
  some { reg with callAtExtraArmed := found.isSome }

/-- A write to the pointer that the list starts with, or to the one in a node. -/
def setLink (reg : Registry) (link value : Option Nat) : Registry :=
  match link with
  | none => { reg with spaceCallbacks := value }
  | some a => reg.modify a (fun node => { node with next := value })

def pruneSpaceCallbackState (reg : Registry) (a : Nat) : Option Registry :=
  if spaceCallbackStateEmpty (reg.memory a) then do
    match ← PointerChain.linkFrom reg.next a reg.allocated.length none reg.spaceCallbacks with
    | none => some reg
    | some link => some ((reg.setLink link (reg.next a)).free a)
  else some reg

def clearRootCallAt (reg : Registry) : Registry :=
  { reg with callAt := .cleared, callAtSpaceId := spaceIdRoot }

def clearSpaceCallAt (reg : Registry) : Option Nat → Option Registry
  | none => some reg
  | some a => do
    let reg ← (reg.modify a (fun node => { node with callAt := .cleared })).updateCallAtExtraArmed
    reg.pruneSpaceCallbackState a

def clearCallAt (reg : Registry) (spaceId : Nat) : Option Registry :=
  if spaceId = spaceIdRoot then some reg.clearRootCallAt
  else do
    let entry ← reg.findSpaceCallbackState spaceId
    reg.clearSpaceCallAt entry

def armCallAt (reg : Registry) (request : CallAtRequest) (room : Option Nat) : Option Registry := do
  let reg ← reg.clearCallAt request.spaceId
  let target : CallAtFields := ⟨true, request.threadId, some request.coordinates,
    some request.callback, request.overshootCallback⟩
  if request.spaceId = spaceIdRoot then
    some { reg with callAt := target, callAtSpaceId := request.spaceId }
  else
    match ← reg.ensureSpaceCallbackState request.spaceId room with
    | (reg, none) => some reg
    | (reg, some a) =>
      some { reg.modify a (fun node => { node with callAt := target }) with
        callAtExtraArmed := true }

/-- `retrace_visible_thread_for_space` of the thread `i` in the state `m`. -/
def visibleThread (i : Nat) (m : Machine) (spaceId : Nat) : Option Nat :=
  match findThreadSpace m.tstate spaceId with
  | none => none
  | some node =>
    if (nearestVisibleFrameInSpace m (m.spacePtr node) (currentThreadFrame m)).isSome then some i
    else none

def setThreadSwitchCallback (reg : Registry) (i : Nat) (m : Machine) (callback : Option Nat)
    (spaceId : Nat) (room : Option Nat) : Option Registry := do
  let (reg, entry) ←
    match callback with
    | none => (reg.findSpaceCallbackState spaceId).map (fun entry => (reg, entry))
    | some _ => reg.ensureSpaceCallbackState spaceId room
  match entry with
  | none => some reg
  | some a =>
    let reg := reg.modify a (fun node => { node with
      threadSwitchCallback := callback
      lastBytecodeThread := if callback.isSome then visibleThread i m spaceId else none })
    let reg ← reg.pruneSpaceCallbackState a
    reg.updateThreadSwitchArmed

/-- What a slot's check does to the slot, and the callback that it calls. -/
inductive Verdict where
  | pass
  | clear
  | deliver (callback : Nat)
  deriving DecidableEq, Repr

def checkSlot (m : Machine) (spaceId : Nat) (slot : CallAtFields) (allocates : Bool) : Verdict :=
  if slot.armed = false ∨ slot.threadId ≠ m.tstate.threadId then .pass
  else
    match slot.coordinates with
    | none => .clear
    | some coordinates =>
      match findThreadSpace m.tstate spaceId with
      | none => .clear
      | some node =>
        if (m.tstate.space node).seen = false then .clear
        else
          match compareTargetToFrame coordinates m (m.spacePtr node) m.chain allocates with
          | none => .pass
          | some comparison =>
            if comparison > 0 then .pass
            else
              match if comparison = 0 then slot.callback else slot.overshootCallback with
              | none => .clear
              | some callback => .deliver callback

/-- The walk over the nodes, which reads `next` before it checks the slot. -/
def checkEntries (i : Nat) (m : Machine) (allocates : Nat → Bool) :
    Nat → Option Nat → Registry → Option (Registry × List RegistryCall)
  | _, none, reg => some (reg, [])
  | 0, some _, _ => none
  | fuel + 1, some a, reg =>
    let next := reg.next a
    let node := reg.memory a
    match checkSlot m node.spaceId node.callAt (allocates node.spaceId) with
    | .pass => checkEntries i m allocates fuel next reg
    | .clear => do
      let reg ← reg.clearCallAt node.spaceId
      checkEntries i m allocates fuel next reg
    | .deliver callback => do
      let reg ← reg.clearSpaceCallAt (some a)
      some (reg, [.callAt i callback])

def checkCallAt (reg : Registry) (i : Nat) (m : Machine) (allocates : Nat → Bool) :
    Option (Registry × List RegistryCall) :=
  if m.tstate.threadId = 0 ∨ m.tstate.threadCallbackActive = true ∨
      (reg.callAt.armed = false ∧ reg.callAtExtraArmed = false) then some (reg, [])
  else
    let walk (reg : Registry) : Option (Registry × List RegistryCall) :=
      if reg.callAtExtraArmed = false then some (reg, [])
      else checkEntries i m allocates reg.allocated.length reg.spaceCallbacks reg
    match checkSlot m spaceIdRoot reg.callAt (allocates spaceIdRoot) with
    | .pass => walk reg
    | .clear => walk reg.clearRootCallAt
    | .deliver callback => some (reg.clearRootCallAt, [.callAt i callback])

/-- `_PyRetrace_DeliverThreadSwitchCallback`; `threads` gives the thread states. -/
def deliverThreadSwitchCallback (reg : Registry) (threads : Nat → Machine) (previous i : Nat)
    (allocates tupleAllocates identAllocates : Bool) : Option (Registry × List RegistryCall) :=
  if (threads previous).tstate.threadId = 0 ∨ (threads i).tstate.threadId = 0 ∨
      (threads i).tstate.threadCallbackActive = true then some (reg, [])
  else do
    match ← reg.search (fun node => node.threadSwitchCallback.isSome &&
      topSpaceId (threads i) == some node.spaceId) with
    | none => some (reg, [])
    | some a =>
      let node := reg.memory a
      let moved := reg.modify a (fun node => { node with lastBytecodeThread := some i })
      match node.lastBytecodeThread with
      | none => some (moved, [])
      | some cursor =>
        if cursor = i then some (reg, [])
        else
          match (threadDeltaForTstate (threads cursor) node.spaceId allocates tupleAllocates).1 with
          | .error => some (reg, [])
          | .noSpace => some (moved, [])
          | .delta previousDelta =>
            if identAllocates then
              some (moved, (node.threadSwitchCallback.map (fun callback =>
                .threadSwitch i callback previousDelta)).toList)
            else some (moved, [])

/-- The part of `_PyRetrace_BeginInstruction` that comes before it sets the last thread. -/
def checkThreadSwitch (reg : Registry) (threads : Nat → Machine) (i : Nat)
    (allocates tupleAllocates identAllocates : Bool) : Option (Registry × List RegistryCall) :=
  match reg.lastBytecodeThread with
  | none => some (reg, [])
  | some previous =>
    if previous ≠ i ∧ reg.threadSwitchArmed = true then
      reg.deliverThreadSwitchCallback threads previous i allocates tupleAllocates identAllocates
    else some (reg, [])

/-- The loop of `_PyRetrace_ClearThreadState` over the nodes. -/
def forgetFrom (i : Nat) : Nat → Option Nat → Registry → Option Registry
  | _, none, reg => some reg
  | 0, some _, _ => none
  | fuel + 1, some a, reg =>
    let reg := if (reg.memory a).lastBytecodeThread = some i then
      reg.modify a (fun node => { node with lastBytecodeThread := none }) else reg
    forgetFrom i fuel (reg.next a) reg

def clearThread (reg : Registry) (i : Nat) : Option Registry :=
  let last := if reg.lastBytecodeThread = some i then none else reg.lastBytecodeThread
  (forgetFrom i reg.allocated.length reg.spaceCallbacks { reg with lastBytecodeThread := last }).map
    (fun reg => { reg with live := reg.live.filter (fun j => j ≠ i) })

def freeFrom : Nat → Option Nat → Registry → Option Registry
  | _, none, reg => some reg
  | 0, some _, _ => none
  | fuel + 1, some a, reg => freeFrom fuel (reg.next a) (reg.free a)

def clearSpaceCallbacks (reg : Registry) : Option Registry := do
  let reg ← freeFrom reg.allocated.length reg.spaceCallbacks reg
  some { reg with spaceCallbacks := none, threadSwitchArmed := false, callAtExtraArmed := false }

end Registry

/-- The operations on the registry. `beginInstruction` writes the last thread at the end of a
boundary, also when callbacks have run before. -/
inductive RegistryEvent where
  | newThread (i : Nat)
  | setThreadSwitchCallback (i : Nat) (m : Machine) (callback : Option Nat) (spaceId : Nat)
      (room : Option Nat)
  | armCallAt (request : CallAtRequest) (room : Option Nat)
  | clearCallAt (spaceId : Nat)
  | checkCallAt (i : Nat) (m : Machine) (allocates : Nat → Bool)
  | checkThreadSwitch (i : Nat) (threads : Nat → Machine)
      (allocates tupleAllocates identAllocates : Bool)
  | beginInstruction (i : Nat)
  | clearThread (i : Nat)
  | clearSpaceCallbacks

/-- The thread that acts has not been cleared. -/
def RegistryEvent.Allowed (reg : Registry) : RegistryEvent → Prop
  | .newThread i => i ∉ reg.live
  | .setThreadSwitchCallback i _ _ _ _ => i ∈ reg.live
  | .armCallAt _ _ => True
  | .clearCallAt _ => True
  | .checkCallAt i _ _ => i ∈ reg.live
  | .checkThreadSwitch i _ _ _ _ => i ∈ reg.live
  | .beginInstruction i => i ∈ reg.live
  | .clearThread i => i ∈ reg.live
  | .clearSpaceCallbacks => True

instance (reg : Registry) (event : RegistryEvent) : Decidable (event.Allowed reg) :=
  match event with
  | .newThread i => inferInstanceAs (Decidable (i ∉ reg.live))
  | .setThreadSwitchCallback i _ _ _ _ => inferInstanceAs (Decidable (i ∈ reg.live))
  | .armCallAt _ _ => isTrue trivial
  | .clearCallAt _ => isTrue trivial
  | .checkCallAt i _ _ => inferInstanceAs (Decidable (i ∈ reg.live))
  | .checkThreadSwitch i _ _ _ _ => inferInstanceAs (Decidable (i ∈ reg.live))
  | .beginInstruction i => inferInstanceAs (Decidable (i ∈ reg.live))
  | .clearThread i => inferInstanceAs (Decidable (i ∈ reg.live))
  | .clearSpaceCallbacks => isTrue trivial

/-- One operation; `none` if a loop in it does not end. -/
def registryOperation (reg : Registry) : RegistryEvent → Option (Registry × List RegistryCall)
  | .newThread i => some ({ reg with live := i :: reg.live }, [])
  | .setThreadSwitchCallback i m callback spaceId room =>
    (reg.setThreadSwitchCallback i m callback spaceId room).map (fun reg => (reg, []))
  | .armCallAt request room => (reg.armCallAt request room).map (fun reg => (reg, []))
  | .clearCallAt spaceId => (reg.clearCallAt spaceId).map (fun reg => (reg, []))
  | .checkCallAt i m allocates => reg.checkCallAt i m allocates
  | .checkThreadSwitch i threads allocates tupleAllocates identAllocates =>
    reg.checkThreadSwitch threads i allocates tupleAllocates identAllocates
  | .beginInstruction i => some ({ reg with lastBytecodeThread := some i }, [])
  | .clearThread i => (reg.clearThread i).map (fun reg => (reg, []))
  | .clearSpaceCallbacks => reg.clearSpaceCallbacks.map (fun reg => (reg, []))

def registryStep (reg : Registry) (event : RegistryEvent) : Option (Registry × List RegistryCall) :=
  if event.Allowed reg then registryOperation reg event else none

def newRegistry (live : List Nat) : Registry where
  lastBytecodeThread := none
  threadSwitchArmed := false
  spaceCallbacks := none
  callAt := .cleared
  callAtSpaceId := spaceIdRoot
  callAtExtraArmed := false
  memory _ := ⟨0, none, none, .cleared, none⟩
  allocated := []
  live := live

end Retrace
