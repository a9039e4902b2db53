import Retrace.CallbackNodes

/-! An interpreter whose callbacks are in the registry in memory, from one bytecode boundary to the
next. -/

set_option autoImplicit false

namespace Retrace

/-- The fields of the C interpreter state and thread states; `registry` has the live threads. -/
structure MemoryInterp where
  threads : Nat → Machine
  registry : Registry
  pending : Nat → Option Pending

/-- What a run shows: events of the threads, and calls of callbacks with their arguments. -/
inductive MemoryOutput where
  | ran (i : Nat) (event : ThreadEvent)
  | callAt (i callback : Nat)
  | threadSwitch (i callback previous : Nat) (previousDelta : List Nat) (nextThreadId : Nat)
  deriving DecidableEq, Repr

namespace MemoryInterp

def setThread (mem : MemoryInterp) (i : Nat) (m : Machine) : MemoryInterp :=
  { mem with threads := Function.update mem.threads i m }

def setPending (mem : MemoryInterp) (i : Nat) (pending : Option Pending) : MemoryInterp :=
  { mem with pending := Function.update mem.pending i pending }

def setLast (mem : MemoryInterp) (i : Nat) : MemoryInterp :=
  { mem with registry := { mem.registry with lastBytecodeThread := some i } }

def startCallback (p : Platform) (mem : MemoryInterp) (i : Nat) (choices : BoundaryChoices)
    (pending : Pending) (called : MemoryOutput) : Option (MemoryInterp × List MemoryOutput) :=
  (threadStep p (mem.threads i) (.callbackBegin choices.scope choices.enterAllocates)).map
    (fun m =>
      let began := MemoryOutput.ran i (.callbackBegin choices.scope choices.enterAllocates)
      if m.tstate.threadCallbackActive then
        ((mem.setThread i m).setPending i (some pending), [began, called])
      else (mem.setThread i m, [began]))

def deliverThreadSwitchCallback (p : Platform) (mem : MemoryInterp) (previous i : Nat)
    (choices : BoundaryChoices) : Option (MemoryInterp × List MemoryOutput) :=
  if (mem.threads previous).tstate.threadId = 0 ∨ (mem.threads i).tstate.threadId = 0 ∨
      (mem.threads i).tstate.threadCallbackActive = true then some (mem, [])
  else do
    match ← mem.registry.search (fun node => node.threadSwitchCallback.isSome &&
      topSpaceId (mem.threads i) == some node.spaceId) with
    | none => some (mem, [])
    | some a =>
      let node := mem.registry.memory a
      let moved := { mem with
        registry := mem.registry.modify a (fun node => { node with lastBytecodeThread := some i }) }
      match node.threadSwitchCallback, node.lastBytecodeThread with
      | none, _ => some (mem, [])
      | some _, none => some (moved, [])
      | some callback, some cursor =>
        if cursor = i then some (mem, [])
        else
          let (result, m) := threadDeltaForTstate (mem.threads cursor) node.spaceId
            choices.deltaAllocates choices.tupleAllocates
          let ran := MemoryOutput.ran cursor (.threadDelta node.spaceId choices.deltaAllocates
            choices.tupleAllocates)
          match result with
          | .error => some (mem.setThread cursor m, [ran])
          | .noSpace => some (moved.setThread cursor m, [ran])
          | .delta previousDelta =>
            let moved := moved.setThread cursor m
            if choices.identAllocates then
              (startCallback p moved i choices .afterSwitch (.threadSwitch i callback cursor
                previousDelta (moved.threads i).tstate.threadId)).map
                  (fun result => (result.1, ran :: result.2))
            else some (moved, [ran])

/-- The hot path for a switch; the last thread is written when no callback runs. -/
def checkThreadSwitch (p : Platform) (mem : MemoryInterp) (i : Nat) (choices : BoundaryChoices) :
    Option (MemoryInterp × List MemoryOutput) :=
  if mem.registry.lastBytecodeThread = some i then some (mem, [])
  else
    let delivered := match mem.registry.lastBytecodeThread with
      | none => some (mem, [])
      | some previous =>
        if mem.registry.threadSwitchArmed then mem.deliverThreadSwitchCallback p previous i choices
        else some (mem, [])
    delivered.map (fun result =>
      (if (result.1.pending i).isNone then result.1.setLast i else result.1, result.2))

def checkBoundary (p : Platform) (mem : MemoryInterp) (i : Nat) (choices : BoundaryChoices) :
    Option (MemoryInterp × List MemoryOutput) :=
  if (mem.registry.callAt.armed = true ∨ mem.registry.callAtExtraArmed = true) ∧
      (topSpaceId (mem.threads i)).isSome then do
    match ← mem.registry.checkCallAt i (mem.threads i) choices.compareAllocates with
    | (registry, .callAt _ callback :: _) =>
      startCallback p { mem with registry := registry } i choices .afterCallAt (.callAt i callback)
    | (registry, _) => checkThreadSwitch p { mem with registry := registry } i choices
  else mem.checkThreadSwitch p i choices

def beginInstruction (p : Platform) (mem : MemoryInterp) (i : Nat) (jumps : List (Int × Int))
    (offset : Nat) (choices : BoundaryChoices) : Option (MemoryInterp × List MemoryOutput) :=
  match threadStep p (mem.threads i) (.begin jumps offset) with
  | none => none
  | some m =>
    let mem := mem.setThread i m
    let rest := if m.tstate.threadCallbackActive then some (mem, [])
      else mem.checkBoundary p i choices
    rest.map (fun result => (result.1, .ran i (.begin jumps offset) :: result.2))

def endCallback (p : Platform) (mem : MemoryInterp) (i : Nat) (raised : Bool)
    (choices : BoundaryChoices) : Option (MemoryInterp × List MemoryOutput) :=
  match mem.pending i, threadStep p (mem.threads i) .callbackEnd with
  | some pending, some m =>
    let mem := (mem.setThread i m).setPending i none
    let rest := match pending with
      | .afterSwitch => some (mem.setLast i, [])
      | .afterCallAt =>
        if raised then some (mem, []) else mem.checkThreadSwitch p i choices
    rest.map (fun result => (result.1, .ran i .callbackEnd :: result.2))
  | _, _ => none

def findThreadState (mem : MemoryInterp) (threadId : Nat) : Option Nat :=
  if threadId = 0 then none
  else mem.registry.live.find? (fun i => (mem.threads i).tstate.threadId = threadId)

def callAt (mem : MemoryInterp) (request : CallAtRequest) (room : Option Nat) :
    Option MemoryInterp :=
  if request.threadId = 0 then some mem
  else if request.coordinates.length = 0 ∨ request.coordinates.length % 2 ≠ 0 then some mem
  else
    match mem.findThreadState request.threadId with
    | none => some mem
    | some i =>
      let m := mem.threads i
      match findThreadSpace m.tstate request.spaceId with
      | none => some mem
      | some node =>
        if (m.tstate.space node).seen = false then some mem
        else
          match compareTargetToFrame request.coordinates m (m.spacePtr node)
              (threadStateFrame m node) request.compareAllocates with
          | none => some mem
          | some comparison =>
            if comparison < 0 ∧ request.overshootCallback = none then some mem
            else (mem.registry.armCallAt request room).map
              (fun registry => { mem with registry := registry })

end MemoryInterp

/-- `address` is where an allocation of the event finds memory, if it finds any. -/
def memoryStep (p : Platform) (mem : MemoryInterp) :
    InterpEvent × Nat → Option (MemoryInterp × List MemoryOutput)
  | (.run i event, _) =>
    if i ∈ mem.registry.live ∧ event.ofProgram = true then
      (threadStep p (mem.threads i) event).map (fun m => (mem.setThread i m, [.ran i event]))
    else none
  | (.boundary i jumps offset choices, _) =>
    if i ∈ mem.registry.live then mem.beginInstruction p i jumps offset choices else none
  | (.callbackReturns i raised choices, _) =>
    if i ∈ mem.registry.live then mem.endCallback p i raised choices else none
  | (.callAt request, address) =>
    (mem.callAt request (if request.entryAllocates then some address else none)).map
      (fun mem => (mem, []))
  | (.clearCallAt spaceId, _) =>
    (mem.registry.clearCallAt spaceId).map (fun registry => ({ mem with registry := registry }, []))
  | (.setThreadSwitchCallback i callback spaceId allocates, address) =>
    if i ∈ mem.registry.live then
      (mem.registry.setThreadSwitchCallback i (mem.threads i) callback spaceId
        (if allocates then some address else none)).map
          (fun registry => ({ mem with registry := registry }, []))
    else none
  | (.clearThread i, _) =>
    if i ∈ mem.registry.live then
      (mem.registry.clearThread i).map (fun registry =>
        ({ mem.setThread i ((mem.threads i).setTstate (clearThreadState (mem.threads i).tstate))
            with registry := registry }, []))
    else none

/-- An interpreter with the threads of `interp`, and no callbacks yet. -/
def freshMemory (threads : Nat → Machine) (live : List Nat) : MemoryInterp where
  threads := threads
  registry := newRegistry live
  pending _ := none

end Retrace
