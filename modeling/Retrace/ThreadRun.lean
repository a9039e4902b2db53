import Retrace.ThreadDelta

/-! The events of one running thread, as CPython's eval loop and the space functions issue them. -/

set_option autoImplicit false

namespace Retrace

/-- `call` starts a new frame and `resume` a suspended one; `evalEntry` says that the frame is
entered through `_PyEval_EvalFrameDefault` and not inline. `begin` is the start of the running
frame's next instruction: the coordinate jumps since the last one, and the offset it is at.
`leave` covers return, unwinding and suspension; `again` counts the further calls of the same
helper for the frame. `leaveInactive` is such a call for a frame off the stack. -/
inductive ThreadEvent where
  | call (f firstTraceable : Nat) (evalEntry allocates : Bool)
  | resume (f : Nat) (evalEntry allocates : Bool)
  | newGenerator (g lasti : Nat)
  | begin (jumps : List (Int × Int)) (offset : Nat)
  | leave (again : Nat)
  | leaveInactive (f : Nat)
  | enterSpace (k spaceId : Nat) (allocates : Bool)
  | leaveSpace
  | callbackBegin (k : Nat) (allocates : Bool)
  | callbackEnd
  | threadDelta (spaceId : Nat) (allocates tupleAllocates : Bool)
  deriving DecidableEq, Repr

def newFrame (lasti : Int) (firstTraceable : Nat) : InterpreterFrame where
  lasti := lasti
  firstTraceable := firstTraceable
  coordinateBias := 0
  currentCallOrdinal := 0
  previousCallOrdinalPtr := none
  space := none
  delta := initialDelta

def scopeIds (stack : List StackItem) : List Nat :=
  stack.filterMap (fun item => match item with
    | .frame _ => none
    | .scope k => some k
    | .callback k => some k)

namespace Machine

def push (m : Machine) (item : StackItem) : Machine := m.setStack (item :: m.tstate.stack)

end Machine

/-- Entering a frame on the eval loop: the cache is reset on an eval entry, then the frame is
activated. -/
def enterFrame (p : Platform) (m : Machine) (f : Nat) (evalEntry allocates : Bool) : Machine :=
  let m := if evalEntry then m.setFrame f (resetLastCoordinate (m.frames f)) else m
  activateFrame p (m.push (.frame f)) f allocates

def moveFrame (frame : InterpreterFrame) (jumps : List (Int × Int)) (offset : Nat) :
    InterpreterFrame :=
  { jumps.foldl (fun frame jump => coordinateJump frame jump.1 jump.2) frame with lasti := offset }

def deactivateTimes (m : Machine) (f : Nat) : Nat → Machine
  | 0 => m
  | n + 1 => deactivateTimes (deactivateFrame m f) f n

/-- `retrace_call_*_callback` up to the call of the callback. -/
def callbackBegin (p : Platform) (m : Machine) (f k : Nat) (allocates : Bool) : Machine :=
  let pinned := { m with tstate := { m.tstate with
    threadCallbackFrame := some f, threadCallbackActive := true } }
  match enterSpace p pinned k spaceIdDisabled allocates with
  | none => { m with tstate := { m.tstate with
      threadCallbackActive := false, threadCallbackFrame := none } }
  | some m => m.push (.callback k)

def callbackEnd (m : Machine) (k : Nat) (rest : List StackItem) : Machine :=
  let m := (leaveSpace m k).setStack rest
  { m with tstate := { m.tstate with
    threadCallbackActive := false, threadCallbackFrame := none } }

/-- The largest limit that `sys.setrecursionlimit` takes. The eval loop counts a frame against
the limit before it activates it. -/
def recursionLimit : Nat := 2 ^ 31 - 1

/-- `none` for an event that the state does not allow: a frame that is already on the stack or
over the limit, a scope record in use, or the end of something that is not on top. -/
def threadStep (p : Platform) (m : Machine) : ThreadEvent → Option Machine
  | .call f firstTraceable evalEntry allocates =>
    if .frame f ∈ m.tstate.stack ∨ recursionLimit ≤ m.chain.length then none
    else some (enterFrame p (m.setFrame f (newFrame (-1) firstTraceable)) f evalEntry allocates)
  | .resume f evalEntry allocates =>
    if .frame f ∈ m.tstate.stack ∨ recursionLimit ≤ m.chain.length then none
    else some (enterFrame p m f evalEntry allocates)
  | .newGenerator g lasti =>
    if .frame g ∈ m.tstate.stack then none
    else some (m.setFrame g (newFrame lasti 0))
  | .begin jumps offset =>
    match m.tstate.stack with
    | .frame f :: _ =>
      some (resetCallOrdinal (m.setFrame f (moveFrame (m.frames f) jumps offset)) f)
    | _ => none
  | .leave again =>
    match m.tstate.stack with
    | .frame f :: rest => some ((deactivateTimes m f (again + 1)).setStack rest)
    | _ => none
  | .leaveInactive f =>
    if .frame f ∈ m.tstate.stack then none else some (deactivateFrame m f)
  | .enterSpace k spaceId allocates =>
    if k ∈ scopeIds m.tstate.stack then none
    else
      match enterSpace p m k spaceId allocates with
      | none => some m
      | some m => some (m.push (.scope k))
  | .leaveSpace =>
    match m.tstate.stack with
    | .scope k :: rest => some ((leaveSpace m k).setStack rest)
    | _ => none
  | .callbackBegin k allocates =>
    match m.tstate.stack with
    | .frame f :: _ =>
      if k ∈ scopeIds m.tstate.stack ∨ m.tstate.threadCallbackActive = true then none
      else some (callbackBegin p m f k allocates)
    | _ => none
  | .callbackEnd =>
    match m.tstate.stack with
    | .callback k :: rest => some (callbackEnd m k rest)
    | _ => none
  | .threadDelta spaceId allocates tupleAllocates =>
    some (threadDeltaForTstate m spaceId allocates tupleAllocates).2

def threadRun (p : Platform) : List ThreadEvent → Machine → Option Machine
  | [], m => some m
  | event :: events, m => do
    let m ← threadStep p m event
    threadRun p events m

def everyStep (p : Platform) (ok : Machine → ThreadEvent → Bool) :
    List ThreadEvent → Machine → Bool
  | [], _ => true
  | event :: events, m => ok m event &&
      match threadStep p m event with
      | none => true
      | some m' => everyStep p ok events m'

section runs
variable {p : Platform} {m m' : Machine} {ok : Machine → ThreadEvent → Bool}

theorem threadRun_cons (event : ThreadEvent) (events : List ThreadEvent) (m : Machine) :
    threadRun p (event :: events) m =
      (threadStep p m event).bind (fun m' => threadRun p events m') := rfl

theorem everyStep_cons {event : ThreadEvent} {events : List ThreadEvent}
    (hstep : threadStep p m event = some m') :
    everyStep p ok (event :: events) m = true ↔
      ok m event = true ∧ everyStep p ok events m' = true := by
  rw [everyStep, hstep, Bool.and_eq_true]

theorem everyStep_append {first second : List ThreadEvent}
    (hrun : threadRun p first m = some m') :
    everyStep p ok (first ++ second) m = true ↔
      everyStep p ok first m = true ∧ everyStep p ok second m' = true := by
  induction first generalizing m with
  | nil =>
    cases hrun
    simp [everyStep]
  | cons event first ih =>
    rw [threadRun_cons, Option.bind_eq_some_iff] at hrun
    obtain ⟨mid, hstep, hrun⟩ := hrun
    rw [List.cons_append, everyStep_cons hstep, everyStep_cons hstep, ih hrun, and_assoc]

end runs

end Retrace
