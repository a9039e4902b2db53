import Retrace.SpaceCallbacks
import Retrace.StepRun
import Retrace.ThreadStart

/-! The threads of an interpreter from one bytecode boundary to the next: the callbacks that a
boundary delivers, and what is left of it when they return. -/

set_option autoImplicit false

namespace Retrace

/-- Which allocations of a boundary succeed, and the scope record that its callback uses. -/
structure BoundaryChoices where
  compareAllocates : Nat → Bool
  scope : Nat
  enterAllocates : Bool
  deltaAllocates : Bool
  tupleAllocates : Bool
  identAllocates : Bool

/-- A target that is taken out of its slot, and the callback to call for it. -/
structure Delivery where
  spaceId : Nat
  target : CallAt
  hit : Bool
  callback : Nat
  deriving DecidableEq, Repr

inductive SlotCheck where
  | pass
  | clear
  | deliver (delivery : Delivery)
  deriving DecidableEq, Repr

/-- `retrace_check_call_at_slot` up to what it does to the slot: `clear` and `deliver` empty it. -/
def checkCallAtSlot (m : Machine) (spaceId : Nat) (slot : Option CallAt) (allocates : Bool) :
    SlotCheck :=
  match slot with
  | none => .pass
  | some target =>
    if target.threadId ≠ m.tstate.threadId then .pass
    else
      match findThreadSpace m.tstate spaceId with
      | none => .clear
      | some node =>
        if (m.tstate.space node).seen = false then .clear
        else
          match compareTargetToFrame target.coordinates m (m.spacePtr node) m.chain allocates with
          | none => .pass
          | some comparison =>
            if comparison > 0 then .pass
            else
              let callback :=
                if comparison = 0 then some target.callback else target.overshootCallback
              match callback with
              | none => .clear
              | some callback => .deliver ⟨spaceId, target, comparison = 0, callback⟩

def checkCallAtEntries (i : Nat) (allocates : Nat → Bool) :
    List SpaceCallbackState → Interp → Interp × Option Delivery
  | [], interp => (interp, none)
  | entry :: rest, interp =>
    match checkCallAtSlot (interp.threads i) entry.spaceId entry.callAt
        (allocates entry.spaceId) with
    | .pass => checkCallAtEntries i allocates rest interp
    | .clear => checkCallAtEntries i allocates rest (clearCallAt interp entry.spaceId)
    | .deliver delivery => (clearCallAt interp entry.spaceId, some delivery)

/-- `retrace_check_call_at` up to the call of the callback. -/
def checkCallAt (interp : Interp) (i : Nat) (allocates : Nat → Bool) : Interp × Option Delivery :=
  if (interp.threads i).tstate.threadId = 0 then (interp, none)
  else
    let (interp, delivery) :=
      match checkCallAtSlot (interp.threads i) spaceIdRoot interp.callAt
          (allocates spaceIdRoot) with
      | .pass => (interp, none)
      | .clear => (clearRootCallAt interp, none)
      | .deliver delivery => (clearRootCallAt interp, some delivery)
    match delivery with
    | some delivery => (interp, some delivery)
    | none =>
      if interp.callAtExtraArmed then checkCallAtEntries i allocates interp.spaceCallbacks interp
      else (interp, none)

/-- `ran` is an event of a thread. The other two are calls of callbacks, on the thread `i`. -/
inductive Output where
  | ran (i : Nat) (event : ThreadEvent)
  | callAt (i : Nat) (delivery : Delivery)
  | threadSwitch (i spaceId callback previous : Nat) (previousDelta : List Nat)
      (nextThreadId : Nat)
  deriving DecidableEq, Repr

def topFrame (m : Machine) : Option Nat :=
  match m.tstate.stack with
  | .frame f :: _ => some f
  | _ => none

def topSpaceId (m : Machine) : Option Nat :=
  match topFrame m with
  | none => none
  | some f =>
    if frameIsVisible (m.frames f) then
      (m.frames f).space.map (fun space => (m.tstate.space space.node).spaceId)
    else none

/-- The callback is called if its scope can be entered; `called` is what shows the call. -/
def startCallback (p : Platform) (interp : Interp) (i : Nat) (choices : BoundaryChoices)
    (pending : Pending) (called : Output) : Option (Interp × List Output) :=
  (threadStep p (interp.threads i) (.callbackBegin choices.scope choices.enterAllocates)).map
    (fun m =>
      let began := Output.ran i (.callbackBegin choices.scope choices.enterAllocates)
      if m.tstate.threadCallbackActive then
        ((interp.setThread i m).setPending i (some pending), [began, called])
      else (interp.setThread i m, [began]))

namespace Interp

def setCursor (interp : Interp) (spaceId i : Nat) : Interp :=
  { interp with
    spaceCallbacks := updateEntry spaceId (fun entry => { entry with lastBytecodeThread := some i })
      interp.spaceCallbacks }

def setLast (interp : Interp) (i : Nat) : Interp := { interp with lastBytecodeThread := some i }

def idle (interp : Interp) (i : Nat) : Bool := (interp.pending i).isNone

end Interp

/-- The entry of the running frame's space, if it has a switch callback. -/
def switchEntry (interp : Interp) (i : Nat) : Option SpaceCallbackState :=
  interp.spaceCallbacks.find? (fun entry => entry.threadSwitchCallback.isSome &&
    topSpaceId (interp.threads i) == some entry.spaceId)

def deliverThreadSwitchCallback (p : Platform) (interp : Interp) (previous i : Nat)
    (choices : BoundaryChoices) : Option (Interp × List Output) :=
  if (interp.threads previous).tstate.threadId = 0 ∨ (interp.threads i).tstate.threadId = 0 then
    some (interp, [])
  else
    match switchEntry interp i with
    | none => some (interp, [])
    | some entry =>
      match entry.threadSwitchCallback, entry.lastBytecodeThread with
      | none, _ => some (interp, [])
      | some _, none => some (interp.setCursor entry.spaceId i, [])
      | some callback, some cursor =>
        if cursor = i then some (interp, [])
        else
          let (result, m) := threadDeltaForTstate (interp.threads cursor) entry.spaceId
            choices.deltaAllocates choices.tupleAllocates
          let interp := interp.setThread cursor m
          let ran := Output.ran cursor (.threadDelta entry.spaceId choices.deltaAllocates
            choices.tupleAllocates)
          match result with
          | .error => some (interp, [ran])
          | .noSpace => some (interp.setCursor entry.spaceId i, [ran])
          | .delta previousDelta =>
            let interp := interp.setCursor entry.spaceId i
            if choices.identAllocates then
              (startCallback p interp i choices .afterSwitch (.threadSwitch i entry.spaceId callback
                cursor previousDelta (interp.threads i).tstate.threadId)).map
                (fun result => (result.1, ran :: result.2))
            else some (interp, [ran])

/-- The last thread is written when no callback runs, else when the callback returns. -/
def checkThreadSwitch (p : Platform) (interp : Interp) (i : Nat) (choices : BoundaryChoices) :
    Option (Interp × List Output) :=
  if interp.lastBytecodeThread = some i then some (interp, [])
  else
    let delivered := match interp.lastBytecodeThread with
      | none => some (interp, [])
      | some previous =>
        if interp.threadSwitchArmed then deliverThreadSwitchCallback p interp previous i choices
        else some (interp, [])
    delivered.map (fun result =>
      (if result.1.idle i then result.1.setLast i else result.1, result.2))

/-- What `_PyRetrace_BeginInstruction` does outside callbacks, when it has begun the
instruction. -/
def checkBoundary (p : Platform) (interp : Interp) (i : Nat) (choices : BoundaryChoices) :
    Option (Interp × List Output) :=
  if (interp.callAt.isSome ∨ interp.callAtExtraArmed = true) ∧
      (topSpaceId (interp.threads i)).isSome then
    match checkCallAt interp i choices.compareAllocates with
    | (interp, none) => checkThreadSwitch p interp i choices
    | (interp, some delivery) =>
      startCallback p interp i choices .afterCallAt (.callAt i delivery)
  else checkThreadSwitch p interp i choices

def beginInstruction (p : Platform) (interp : Interp) (i : Nat) (jumps : List (Int × Int))
    (offset : Nat) (choices : BoundaryChoices) : Option (Interp × List Output) :=
  match threadStep p (interp.threads i) (.begin jumps offset) with
  | none => none
  | some m =>
    let interp := interp.setThread i m
    let rest := if m.tstate.threadCallbackActive then some (interp, [])
      else checkBoundary p interp i choices
    rest.map (fun result => (result.1, .ran i (.begin jumps offset) :: result.2))

/-- The callback returns; `raised` says that it raised or, for `call_at`, did not return None. -/
def endCallback (p : Platform) (interp : Interp) (i : Nat) (raised : Bool)
    (choices : BoundaryChoices) : Option (Interp × List Output) :=
  match interp.pending i, threadStep p (interp.threads i) .callbackEnd with
  | some pending, some m =>
    let interp := (interp.setThread i m).setPending i none
    let rest := match pending with
      | .afterSwitch => some (interp.setLast i, [])
      | .afterCallAt =>
        if raised then some (interp, []) else checkThreadSwitch p interp i choices
    rest.map (fun result => (result.1, .ran i .callbackEnd :: result.2))
  | _, _ => none

/-- An event that the eval loop and the space functions issue on their own. -/
def ThreadEvent.ofProgram : ThreadEvent → Bool
  | .begin _ _ => false
  | .callbackBegin _ _ => false
  | .callbackEnd => false
  | _ => true

inductive InterpEvent where
  | run (i : Nat) (event : ThreadEvent)
  | boundary (i : Nat) (jumps : List (Int × Int)) (offset : Nat) (choices : BoundaryChoices)
  | callbackReturns (i : Nat) (raised : Bool) (choices : BoundaryChoices)
  | callAt (request : CallAtRequest)
  | clearCallAt (spaceId : Nat)
  | setThreadSwitchCallback (i : Nat) (callback : Option Nat) (spaceId : Nat) (allocates : Bool)
  | clearThread (i : Nat)

def interpStep (p : Platform) (interp : Interp) : InterpEvent → Option (Interp × List Output)
  | .run i event =>
    if i ∈ interp.live ∧ event.ofProgram = true then
      (threadStep p (interp.threads i) event).map (fun m =>
        (interp.setThread i m, [.ran i event]))
    else none
  | .boundary i jumps offset choices =>
    if i ∈ interp.live then beginInstruction p interp i jumps offset choices else none
  | .callbackReturns i raised choices =>
    if i ∈ interp.live then endCallback p interp i raised choices else none
  | .callAt request => some ((callAt interp request).2, [])
  | .clearCallAt spaceId => some (clearCallAt interp spaceId, [])
  | .setThreadSwitchCallback i callback spaceId allocates =>
    if i ∈ interp.live then
      some ((setThreadSwitchCallback interp i callback spaceId allocates).2, [])
    else none
  | .clearThread i =>
    if i ∈ interp.live then some (clearThread clearThreadState interp i, []) else none

end Retrace
