import Retrace.InterpRuns
import Mathlib.Algebra.Group.Int.Defs

/-! The calls that register callbacks, with their arguments as Python passes them, and what a call
that raises leaves behind. -/

set_option autoImplicit false

namespace Retrace

/-- What the module can tell of an argument: whether it is `None`, its value if it is an int, the
callable it is, and the ints among its items if it can be iterated. -/
structure PyArg where
  isNone : Bool
  int : Option Int
  callable : Option Nat
  items : Option (List (Option Int))
  deriving DecidableEq, Repr

/-- The first two are what CPython raises for an object that is no int or out of range. -/
inductive RegistrationError where
  | notAnInt
  | outOfRange
  | typeError (message : String)
  | overflowError (message : String)
  | raised (error : PyError)
  deriving DecidableEq, Repr

/-- Which allocations of a call succeed. -/
structure CallRoom where
  sequence : Bool
  tuple : Bool
  item : Nat → Bool
  compare : Bool
  entry : Bool

def u64FromObject : Option Int → Except RegistrationError Nat
  | none => .error .notAnInt
  | some n => if 0 ≤ n ∧ n < 2 ^ 64 then .ok n.toNat else .error .outOfRange

def spaceIdFromObject (arg : PyArg) : Except RegistrationError Nat :=
  if arg.isNone then .ok spaceIdRoot
  else do
    let converted ← u64FromObject arg.int
    if converted ≥ 2 ^ 32 then .error (.overflowError "Retrace space id is too large")
    else .ok converted

def callableRef (arg : PyArg) (name suffix : String) : Except RegistrationError Nat :=
  match arg.callable with
  | some callback => .ok callback
  | none => .error (.typeError (name ++ " callback must be callable" ++ suffix))

/-- `retrace_callback_ref` with `None` allowed. -/
def callbackRef (arg : PyArg) (name : String) : Except RegistrationError (Option Nat) :=
  if arg.isNone then .ok none else (callableRef arg name " or None").map some

def itemsFromSequence (room : Nat → Bool) (index : Nat) :
    List (Option Int) → Except RegistrationError (List Nat)
  | [] => .ok []
  | item :: items => do
    let value ← u64FromObject item
    if room index then
      let values ← itemsFromSequence room (index + 1) items
      .ok (value :: values)
    else .error (.raised .memoryError)

def tupleFromSequence (arg : PyArg) (message : String) (room : CallRoom) :
    Except RegistrationError (List Nat) :=
  match arg.items with
  | none => .error (.typeError message)
  | some items =>
    if room.sequence && room.tuple then itemsFromSequence room.item 0 items
    else .error (.raised .memoryError)

def callAtUsage : String :=
  "call_at expects None or (thread_id, coordinates, callback[, " ++
    "overshoot_callback[, space_id]])"

/-- The conversion of the arguments of `call_at`, in the order of the code. -/
def parseCallAt (args : List PyArg) (room : CallRoom) : Except RegistrationError CallAtRequest :=
  match args with
  | thread :: sequence :: hit :: optional =>
    if optional.length > 2 then
      .error (.typeError callAtUsage)
    else do
      let threadId ← u64FromObject thread.int
      if threadId = 0 then
        .error (.raised (.valueError "call_at thread id must be non-zero"))
      else do
        let callback ← callableRef hit "call_at" ""
        let overshootCallback ← match optional[0]? with
          | none => .ok none
          | some arg => callbackRef arg "call_at overshoot"
        let spaceId ← match optional[1]? with
          | none => .ok spaceIdRoot
          | some arg => spaceIdFromObject arg
        let coordinates ← tupleFromSequence sequence "call_at coordinates must be a sequence" room
        .ok ⟨threadId, coordinates, callback, overshootCallback, spaceId, room.compare, room.entry⟩
  | _ => .error (.typeError callAtUsage)

/-- The space to clear, if the arguments of `call_at` ask for that. -/
def clearsCallAt : List PyArg → Option (Except RegistrationError Nat)
  | [arg] => if arg.isNone then some (.ok spaceIdRoot) else none
  | [arg, space] => if arg.isNone then some (spaceIdFromObject space) else none
  | _ => none

def retraceCallAt (interp : Interp) (args : List PyArg) (room : CallRoom) :
    Option RegistrationError × Interp :=
  match clearsCallAt args with
  | some (.error error) => (some error, interp)
  | some (.ok spaceId) => (none, clearCallAt interp spaceId)
  | none =>
    match parseCallAt args room with
    | .error error => (some error, interp)
    | .ok request =>
      let (error, interp) := callAt interp request
      (error.map .raised, interp)

def parseSwitch (args : List PyArg) : Except RegistrationError (Option Nat × Nat) :=
  match args with
  | callback :: optional =>
    if optional.length > 1 then
      .error (.typeError "set_thread_switch_callback expected at most 2 arguments")
    else do
      let callback ← callbackRef callback "thread switch"
      let spaceId ← match optional[0]? with
        | none => .ok spaceIdRoot
        | some arg => spaceIdFromObject arg
      .ok (callback, spaceId)
  | [] => .error (.typeError "set_thread_switch_callback expected at least 1 argument")

def retraceSetThreadSwitchCallback (interp : Interp) (i : Nat) (args : List PyArg)
    (allocates : Bool) : Option RegistrationError × Interp :=
  match parseSwitch args with
  | .error error => (some error, interp)
  | .ok (callback, spaceId) =>
    let (error, interp) := setThreadSwitchCallback interp i callback spaceId allocates
    (error.map .raised, interp)

def checkRequest (interp : Interp) (request : CallAtRequest) : Option PyError :=
  if request.threadId = 0 then some (.valueError "call_at thread id must be non-zero")
  else if request.coordinates.length = 0 ∨ request.coordinates.length % 2 ≠ 0 then
    some (.valueError "call_at coordinates must include frame pairs")
  else
    match findThreadState interp request.threadId with
    | none => some (.lookupError "unknown thread id")
    | some i =>
      let m := interp.threads i
      match findThreadSpace m.tstate request.spaceId with
      | none => some (.lookupError "unknown coordinate space")
      | some node =>
        if (m.tstate.space node).seen = false then some (.lookupError "unknown coordinate space")
        else
          match compareTargetToFrame request.coordinates m (m.spacePtr node)
              (threadStateFrame m node) request.compareAllocates with
          | none => some .memoryError
          | some comparison =>
            if comparison < 0 ∧ request.overshootCallback = none then
              some (.valueError "call_at coordinates are in the past")
            else none

/-- A space's switch callback, and the thread that its cursor is at. -/
def switchCallbackAt (interp : Interp) (spaceId : Nat) : Option Nat :=
  (findSpaceCallbackState interp spaceId).bind (fun entry => entry.threadSwitchCallback)

def lastThreadAt (interp : Interp) (spaceId : Nat) : Option Nat :=
  (findSpaceCallbackState interp spaceId).bind (fun entry => entry.lastBytecodeThread)

structure SameRegistrations (interp interp' : Interp) : Prop where
  targets : ∀ spaceId, slotAt interp' spaceId = slotAt interp spaceId
  callbacks : ∀ spaceId, switchCallbackAt interp' spaceId = switchCallbackAt interp spaceId
  cursors : ∀ spaceId, lastThreadAt interp' spaceId = lastThreadAt interp spaceId
  last : interp'.lastBytecodeThread = interp.lastBytecodeThread
  switchArmed : interp'.threadSwitchArmed = interp.threadSwitchArmed
  callAtArmed : interp'.callAtExtraArmed = interp.callAtExtraArmed

/-- The arguments pass every check, but the target that the call replaces is all that keeps the
entry of its space. -/
def ReplacesOnlyTarget (interp : Interp) (args : List PyArg) (room : CallRoom) : Prop :=
  clearsCallAt args = none ∧ ∃ request, parseCallAt args room = .ok request ∧
    checkRequest interp request = none ∧ request.spaceId ≠ spaceIdRoot ∧
    (slotAt interp request.spaceId).isSome = true ∧
    switchCallbackAt interp request.spaceId = none

/-- An entry without a switch callback has a target and no cursor. -/
def Needed (entry : SpaceCallbackState) : Prop :=
  entry.threadSwitchCallback = none → entry.callAt.isSome = true ∧ entry.lastBytecodeThread = none

def AllNeeded (interp : Interp) : Prop := ∀ entry ∈ interp.spaceCallbacks, Needed entry

/-- The same, but the entry of one space may have no target. -/
def NeededBut (spaceId : Nat) (interp : Interp) : Prop :=
  ∀ entry ∈ interp.spaceCallbacks, entry.threadSwitchCallback = none →
    (entry.spaceId ≠ spaceId → entry.callAt.isSome = true) ∧ entry.lastBytecodeThread = none

section needed
variable {interp interp' : Interp} {spaceId i : Nat}

theorem callAt_eq (interp : Interp) (request : CallAtRequest) :
    callAt interp request = match checkRequest interp request with
      | some error => (some error, interp)
      | none => armCallAt interp request := by
  unfold callAt checkRequest
  split
  · rfl
  split
  · rfl
  cases findThreadState interp request.threadId with
  | none => rfl
  | some i =>
    dsimp only
    cases findThreadSpace (interp.threads i).tstate request.spaceId with
    | none => rfl
    | some node =>
      dsimp only
      split
      · rfl
      cases compareTargetToFrame request.coordinates (interp.threads i)
          ((interp.threads i).spacePtr node) (threadStateFrame (interp.threads i) node)
          request.compareAllocates with
      | none => rfl
      | some comparison =>
        dsimp only
        split <;> rfl

theorem AllNeeded.but (h : AllNeeded interp) (spaceId : Nat) : NeededBut spaceId interp :=
  fun entry hentry hcallback => ⟨fun _ => (h entry hentry hcallback).1, (h entry hentry hcallback).2⟩

theorem NeededBut.prune (h : NeededBut spaceId interp)
    (hdistinct : (interp.spaceCallbacks.map (fun entry => entry.spaceId)).Nodup) :
    AllNeeded (pruneSpaceCallbackState interp spaceId) := by
  have hfound : ∀ entry ∈ interp.spaceCallbacks, entry.spaceId = spaceId →
      findSpaceCallbackState interp spaceId = some entry := by
    intro entry hentry hid
    exact hid ▸ findEntry_mem hdistinct hentry
  intro entry hentry hcallback
  unfold pruneSpaceCallbackState at hentry
  cases hfind : findSpaceCallbackState interp spaceId with
  | none =>
    rw [hfind] at hentry
    obtain ⟨htarget, hcursor⟩ := h entry hentry hcallback
    refine ⟨htarget (fun hid => ?_), hcursor⟩
    rw [hfound entry hentry hid] at hfind
    cases hfind
  | some old =>
    rw [hfind] at hentry
    dsimp only at hentry
    split at hentry
    · -- no second entry has the space
      have hmem : entry ∈ interp.spaceCallbacks := List.mem_of_mem_eraseP hentry
      obtain ⟨htarget, hcursor⟩ := h entry hmem hcallback
      refine ⟨htarget (fun hid => ?_), hcursor⟩
      have hnone := @findEntry_eraseEntry interp.spaceCallbacks spaceId spaceId hdistinct
      rw [if_pos rfl] at hnone
      exact findEntry_none hnone (List.mem_map.mpr ⟨entry, hentry, hid⟩)
    · rename_i hempty
      obtain ⟨htarget, hcursor⟩ := h entry hentry hcallback
      refine ⟨?_, hcursor⟩
      by_cases hid : entry.spaceId = spaceId
      · have hold := hfound entry hentry hid
        rw [hfind] at hold
        cases hold
        unfold spaceCallbackStateEmpty at hempty
        rw [hcallback, Option.isNone_none, Bool.true_and, Option.isNone_iff_eq_none] at hempty
        exact Option.isSome_iff_ne_none.mpr hempty
      · exact htarget hid

theorem mem_updateEntry_own {entries : List SpaceCallbackState} {entry : SpaceCallbackState}
    {f : SpaceCallbackState → SpaceCallbackState}
    (hdistinct : (entries.map (fun entry => entry.spaceId)).Nodup)
    (hentry : entry ∈ updateEntry spaceId f entries)
    (hf : ∀ entry, (f entry).spaceId = entry.spaceId) (hid : entry.spaceId = spaceId) :
    ∃ old ∈ entries, old.spaceId = spaceId ∧ entry = f old := by
  have hids := @spaceIds_updateEntry entries spaceId f hf
  have hfound := findEntry_mem (hids ▸ hdistinct) hentry
  rw [hid, findEntry_write hf, if_pos rfl, Option.map_eq_some_iff] at hfound
  obtain ⟨old, hold, heq⟩ := hfound
  obtain ⟨hmem, holdId⟩ := findEntry_some hold
  exact ⟨old, hmem, holdId, heq.symm⟩

theorem NeededBut.write (h : NeededBut spaceId interp)
    {f : SpaceCallbackState → SpaceCallbackState}
    (hsame : interp'.spaceCallbacks = updateEntry spaceId f interp.spaceCallbacks)
    (hf : ∀ entry, (f entry).spaceId = entry.spaceId)
    (hcursor : ∀ old ∈ interp.spaceCallbacks, (f old).threadSwitchCallback = none →
      (f old).lastBytecodeThread = none) :
    NeededBut spaceId interp' := by
  intro entry hentry hcallback
  rw [hsame] at hentry
  obtain hold | ⟨old, hold, hid, rfl⟩ := mem_updateEntry hentry
  · exact h entry hold hcallback
  · exact ⟨fun hne => absurd ((hf old).trans hid) hne, hcursor old hold hcallback⟩

theorem AllNeeded.congr (h : AllNeeded interp)
    (hsame : interp'.spaceCallbacks = interp.spaceCallbacks) : AllNeeded interp' := by
  intro entry hentry
  rw [hsame] at hentry
  exact h entry hentry

theorem AllNeeded.clearCallAt (h : AllNeeded interp) (htidy : Tidy interp) (spaceId : Nat) :
    AllNeeded (clearCallAt interp spaceId) := by
  unfold Retrace.clearCallAt
  split
  · exact h.congr rfl
  · unfold clearSpaceCallAt
    cases findSpaceCallbackState interp spaceId with
    | none => exact h
    | some entry =>
      have hids := @spaceIds_updateEntry interp.spaceCallbacks spaceId
        (fun entry => { entry with callAt := none }) (fun _ => rfl)
      refine NeededBut.prune ?_ (hids ▸ htidy.distinct)
      refine (h.but spaceId).write rfl (fun _ => rfl) ?_
      intro old hold hcallback
      exact (h old hold hcallback).2

theorem AllNeeded.ensure (h : AllNeeded interp) {allocates : Bool}
    (hensure : ensureSpaceCallbackState interp spaceId allocates = some interp') :
    NeededBut spaceId interp' := by
  unfold ensureSpaceCallbackState at hensure
  split at hensure
  · cases hensure
    exact h.but spaceId
  · split at hensure
    · cases hensure
      intro entry hentry hcallback
      obtain rfl | hold := List.mem_cons.mp hentry
      · exact ⟨fun hne => absurd rfl hne, rfl⟩
      · exact h.but spaceId entry hold hcallback
    · cases hensure

theorem AllNeeded.armCallAt (h : AllNeeded interp) (htidy : Tidy interp) (request : CallAtRequest) :
    AllNeeded (armCallAt interp request).2 := by
  have hcleared := h.clearCallAt htidy request.spaceId
  have htidied := (htidy.clearCallAt request.spaceId).1
  unfold Retrace.armCallAt
  dsimp only
  split
  · exact hcleared.congr rfl
  · cases hensure : ensureSpaceCallbackState (Retrace.clearCallAt interp request.spaceId)
        request.spaceId request.entryAllocates with
    | none => exact hcleared
    | some mid =>
      have hbut := hcleared.ensure hensure
      intro entry hentry hcallback
      by_cases hid : entry.spaceId = request.spaceId
      · obtain ⟨old, hold, -, rfl⟩ := mem_updateEntry_own (htidied.ensure hensure).1.distinct
          hentry (fun _ => rfl) hid
        exact ⟨rfl, (hbut old hold hcallback).2⟩
      · obtain hold | ⟨old, -, hown, rfl⟩ := mem_updateEntry hentry
        · obtain ⟨htarget, hcursor⟩ := hbut entry hold hcallback
          exact ⟨htarget hid, hcursor⟩
        · exact absurd hown hid

theorem AllNeeded.callAt (h : AllNeeded interp) (htidy : Tidy interp) (request : CallAtRequest) :
    AllNeeded (Retrace.callAt interp request).2 := by
  rw [callAt_eq]
  cases checkRequest interp request with
  | some error => exact h
  | none => exact h.armCallAt htidy request

theorem AllNeeded.setThreadSwitchCallback (h : AllNeeded interp) (htidy : Tidy interp) (i : Nat)
    (callback : Option Nat) (spaceId : Nat) (allocates : Bool) :
    AllNeeded (Retrace.setThreadSwitchCallback interp i callback spaceId allocates).2 := by
  -- what is written has a callback, or neither callback nor cursor
  have hwritten : ∀ mid, NeededBut spaceId mid → Tidy mid →
      AllNeeded (updateThreadSwitchArmed (pruneSpaceCallbackState { mid with
        spaceCallbacks := updateEntry spaceId (fun entry => { entry with
          threadSwitchCallback := callback
          lastBytecodeThread :=
            if callback.isSome then visibleThreadForSpace mid i spaceId else none })
          mid.spaceCallbacks } spaceId)) := by
    intro mid hmid htidied
    have hids := @spaceIds_updateEntry mid.spaceCallbacks spaceId (fun entry => { entry with
      threadSwitchCallback := callback
      lastBytecodeThread :=
        if callback.isSome then visibleThreadForSpace mid i spaceId else none }) (fun _ => rfl)
    refine AllNeeded.congr (NeededBut.prune ?_ (hids ▸ htidied.distinct)) rfl
    refine hmid.write rfl (fun _ => rfl) ?_
    intro old _ hnone
    dsimp only at hnone ⊢
    rw [hnone]
    rfl
  unfold Retrace.setThreadSwitchCallback
  cases callback with
  | none =>
    cases hfind : findSpaceCallbackState interp spaceId with
    | none => exact h
    | some entry => exact hwritten interp (h.but spaceId) htidy
  | some callback =>
    cases hensure : ensureSpaceCallbackState interp spaceId allocates with
    | none => exact h
    | some mid => exact hwritten mid (h.ensure hensure) (htidy.ensure hensure).1

theorem AllNeeded.clearThread (h : AllNeeded interp) (clear : ThreadState → ThreadState) (i : Nat) :
    AllNeeded (Retrace.clearThread clear interp i) := by
  intro entry hentry hcallback
  obtain ⟨old, hold, rfl⟩ := List.mem_map.mp hentry
  obtain ⟨htarget, hcursor⟩ := h old hold hcallback
  refine ⟨htarget, ?_⟩
  dsimp only
  rw [hcursor]
  rfl

theorem AllNeeded.setCursor (h : AllNeeded interp) (htidy : Tidy interp)
    {entry : SpaceCallbackState} (hmem : entry ∈ interp.spaceCallbacks)
    (hcalls : entry.threadSwitchCallback.isSome = true) (i : Nat) :
    AllNeeded (interp.setCursor entry.spaceId i) := by
  intro found hfound hcallback
  obtain hold | ⟨old, hold, hid, rfl⟩ := mem_updateEntry hfound
  · exact h found hold hcallback
  · have hsame := findEntry_mem htidy.distinct hold
    rw [hid, findEntry_mem htidy.distinct hmem] at hsame
    cases hsame
    dsimp only at hcallback
    rw [hcallback] at hcalls
    cases hcalls

theorem AllNeeded.checkCallAt {allocates : Nat → Bool} (h : AllNeeded interp)
    (htidy : Tidy interp) : AllNeeded (Retrace.checkCallAt interp i allocates).1 := by
  have hkept : AllNeeded (Retrace.checkCallAt interp i allocates).1 ∧
      Tidy (Retrace.checkCallAt interp i allocates).1 := by
    refine @checkCallAt_keeps interp i allocates (fun mid => AllNeeded mid ∧ Tidy mid) ?_ ⟨h, htidy⟩
    rintro mid cleared ⟨hneeded, htidy⟩
    exact ⟨hneeded.clearCallAt htidy cleared, (htidy.clearCallAt cleared).1⟩
  exact hkept.1

end needed

section runs
variable {p : Platform} {interp interp' : Interp} {i : Nat} {choices : BoundaryChoices}
  {out : List Output}

theorem Switching.allNeeded (h : Switching p interp i choices interp' out)
    (hneeded : AllNeeded interp) (htidy : Tidy interp) : AllNeeded interp' := by
  have hcursor : ∀ {entry callback}, SwitchesIn interp i entry callback →
      AllNeeded (interp.setCursor entry.spaceId i) := by
    intro entry callback hswitches
    obtain ⟨hcalls, -, hmem⟩ := switchEntry_callback hswitches.found
    exact hneeded.setCursor htidy hmem hcalls i
  cases h with
  | same last => exact hneeded
  | quiet last none => exact hneeded.congr rfl
  | first switches cursor => exact (hcursor switches).congr rfl
  | own switches cursor => exact hneeded.congr rfl
  | error switches cursor other result => exact hneeded.congr rfl
  | gone switches cursor other result => exact (hcursor switches).congr rfl
  | identFails switches cursor other result fails => exact (hcursor switches).congr rfl
  | enterFails switches cursor other result step inactive => exact (hcursor switches).congr rfl
  | called switches cursor other result step active => exact (hcursor switches).congr rfl

theorem Checking.allNeeded (h : Checking p interp i choices interp' out)
    (hneeded : AllNeeded interp) (hsound : Sound interp) : AllNeeded interp' := by
  have hchecked : ∀ {mid delivery}, checkCallAt interp i choices.compareAllocates = (mid, delivery) →
      AllNeeded mid := by
    intro mid delivery hcheck
    have hmid := @AllNeeded.checkCallAt interp i choices.compareAllocates hneeded hsound.tidy
    rw [hcheck] at hmid
    exact hmid
  cases h with
  | unchecked quiet switching => exact switching.allNeeded hneeded hsound.tidy
  | passed polls check switching =>
    exact switching.allNeeded (hchecked check) (hsound.checked check).tidy
  | enterFails polls check step inactive => exact (hchecked check).congr rfl
  | called polls check step active => exact (hchecked check).congr rfl

theorem Stepping.allNeeded {event : InterpEvent} (h : Stepping p interp event interp' out)
    (hneeded : AllNeeded interp) (hsound : Sound interp) : AllNeeded interp' := by
  cases h with
  | run live program step => exact hneeded.congr rfl
  | inside live step active => exact hneeded.congr rfl
  | boundary live step inactive checking =>
    exact checking.allNeeded (hneeded.congr rfl) (hsound.idleBoundary live step inactive).1
  | returns live pended step returning =>
    have hended := (hsound.returned live step).1
    cases returning with
    | afterSwitch => exact hneeded.congr rfl
    | raised failed => exact hneeded.congr rfl
    | afterCallAt returned switching => exact switching.allNeeded (hneeded.congr rfl) hended.tidy
  | callAt => exact hneeded.callAt hsound.tidy _
  | clearCallAt => exact hneeded.clearCallAt hsound.tidy _
  | setThreadSwitchCallback live => exact hneeded.setThreadSwitchCallback hsound.tidy _ _ _ _
  | clearThread live => exact hneeded.clearThread _ _

theorem allNeeded_run {origin : Interp} {events : List InterpEvent} (hunused : Unused origin)
    (hrun : StepRun.run (interpStep p) events origin = some (interp, out)) :
    Sound interp ∧ AllNeeded interp := by
  refine @StepRun.run_invariant _ _ _ (interpStep p) (fun interp => Sound interp ∧ AllNeeded interp)
    ?_ _ _ _ _ ⟨hunused.sound, ?_⟩ hrun
  · rintro interp event interp' out ⟨hsound, hneeded⟩ hstep
    have hstepping := hsound.stepping hstep
    exact ⟨hstepping.sound hsound, hstepping.allNeeded hneeded hsound⟩
  · intro entry hentry
    rw [hunused.entries] at hentry
    cases hentry

theorem AllNeeded.armCallAt_error (h : AllNeeded interp) (htidy : Tidy interp)
    {request : CallAtRequest} {error : PyError}
    (herror : Retrace.armCallAt interp request = (some error, interp')) :
    (slotAt interp request.spaceId = none ∧ interp' = interp) ∨
    (request.spaceId ≠ spaceIdRoot ∧ (slotAt interp request.spaceId).isSome = true ∧
      switchCallbackAt interp request.spaceId = none ∧ slotAt interp' request.spaceId = none) := by
  unfold Retrace.armCallAt at herror
  dsimp only at herror
  by_cases hroot : request.spaceId = spaceIdRoot
  · rw [if_pos hroot] at herror
    cases herror
  rw [if_neg hroot] at herror
  cases hensure : ensureSpaceCallbackState (Retrace.clearCallAt interp request.spaceId)
      request.spaceId request.entryAllocates with
  | some mid =>
    rw [hensure] at herror
    cases herror
  | none =>
    rw [hensure] at herror
    obtain rfl : Retrace.clearCallAt interp request.spaceId = interp' := congrArg Prod.snd herror
    cases hfind : findSpaceCallbackState interp request.spaceId with
    | none =>
      refine Or.inl ⟨by rw [slotAt, if_neg hroot, hfind]; rfl, ?_⟩
      unfold Retrace.clearCallAt clearSpaceCallAt
      rw [if_neg hroot, hfind]
    | some entry =>
      obtain ⟨-, hslot, hswitch⟩ := htidy.clearCallAt request.spaceId
      have hgone : switchAt (Retrace.clearCallAt interp request.spaceId) request.spaceId = none := by
        unfold ensureSpaceCallbackState at hensure
        split at hensure
        · cases hensure
        · rename_i hfree
          unfold switchAt
          rw [hfree]
          rfl
      have hcallback : entry.threadSwitchCallback = none := by
        rw [hswitch, switchAt, hfind, Option.bind_some, Option.map_eq_none_iff] at hgone
        exact hgone
      refine Or.inr ⟨hroot, ?_, ?_, by rw [hslot, if_pos rfl]⟩
      · rw [slotAt, if_neg hroot, hfind]
        exact (h entry (findEntry_some hfind).1 hcallback).1
      · rw [switchCallbackAt, hfind]
        exact hcallback

theorem SameRegistrations.refl (interp : Interp) : SameRegistrations interp interp :=
  ⟨fun _ => rfl, fun _ => rfl, fun _ => rfl, rfl, rfl, rfl⟩

theorem retraceCallAt_error (h : AllNeeded interp) (htidy : Tidy interp) {args : List PyArg}
    {room : CallRoom} {error : RegistrationError}
    (herror : retraceCallAt interp args room = (some error, interp')) :
    SameRegistrations interp interp' ↔ ¬ReplacesOnlyTarget interp args room := by
  unfold retraceCallAt at herror
  cases hclears : clearsCallAt args with
  | some cleared =>
    rw [hclears] at herror
    have hno : ¬ReplacesOnlyTarget interp args room := by
      rintro ⟨hnone, -⟩
      rw [hclears] at hnone
      cases hnone
    cases cleared with
    | error error' =>
      cases herror
      exact iff_of_true (SameRegistrations.refl interp) hno
    | ok spaceId => cases herror
  | none =>
    rw [hclears] at herror
    cases hparse : parseCallAt args room with
    | error error' =>
      rw [hparse] at herror
      cases herror
      refine iff_of_true (SameRegistrations.refl interp) ?_
      rintro ⟨-, request, hrequest, -⟩
      rw [hparse] at hrequest
      cases hrequest
    | ok request =>
      rw [hparse] at herror
      have hresult := callAt_eq interp request
      cases hcheck : checkRequest interp request with
      | some failed =>
        rw [hcheck] at hresult
        dsimp only at herror hresult
        rw [hresult] at herror
        obtain rfl : interp = interp' := congrArg Prod.snd herror
        refine iff_of_true (SameRegistrations.refl interp) ?_
        rintro ⟨-, request', hrequest, hpasses, -⟩
        rw [hparse] at hrequest
        cases hrequest
        rw [hcheck] at hpasses
        cases hpasses
      | none =>
        rw [hcheck] at hresult
        dsimp only at herror hresult
        rw [hresult] at herror
        obtain ⟨failed, harm⟩ : ∃ failed, armCallAt interp request = (some failed, interp') := by
          cases hfirst : (armCallAt interp request).1 with
          | none =>
            rw [hfirst] at herror
            cases herror
          | some failed =>
            have hsecond : (armCallAt interp request).2 = interp' := congrArg Prod.snd herror
            exact ⟨failed, Prod.ext hfirst hsecond⟩
        obtain ⟨hempty, rfl⟩ | ⟨hroot, harmed, hcallback, hlost⟩ := h.armCallAt_error htidy harm
        · refine iff_of_true (SameRegistrations.refl _) ?_
          rintro ⟨-, request', hrequest, -, -, hslot, -⟩
          rw [hparse] at hrequest
          cases hrequest
          rw [hempty] at hslot
          cases hslot
        · refine iff_of_false ?_ ?_
          · intro hsame
            rw [← hsame.targets, hlost] at harmed
            cases harmed
          · exact fun hno => hno ⟨hclears, request, hparse, hcheck, hroot, harmed, hcallback⟩

theorem retraceSetThreadSwitchCallback_error {args : List PyArg} {allocates : Bool}
    {error : RegistrationError}
    (herror : retraceSetThreadSwitchCallback interp i args allocates = (some error, interp')) :
    interp' = interp := by
  unfold retraceSetThreadSwitchCallback at herror
  cases hparse : parseSwitch args with
  | error error' =>
    rw [hparse] at herror
    exact (congrArg Prod.snd herror).symm
  | ok parsed =>
    obtain ⟨callback, spaceId⟩ := parsed
    rw [hparse] at herror
    dsimp only at herror
    unfold setThreadSwitchCallback at herror
    cases callback with
    | none =>
      cases hfind : findSpaceCallbackState interp spaceId with
      | none =>
        rw [hfind] at herror
        cases herror
      | some entry =>
        rw [hfind] at herror
        cases herror
    | some callback =>
      cases hensure : ensureSpaceCallbackState interp spaceId allocates with
      | none =>
        rw [hensure] at herror
        exact (congrArg Prod.snd herror).symm
      | some mid =>
        rw [hensure] at herror
        cases herror

/-- In every state of a run, `call_at` that raises leaves the registrations as they were exactly if
it was not replacing the target of a space that has nothing else, and a
`set_thread_switch_callback` that raises always does. -/
theorem registration_atomic {origin : Interp} {events : List InterpEvent} (hunused : Unused origin)
    (hrun : StepRun.run (interpStep p) events origin = some (interp, out)) :
    (∀ args room error interp', retraceCallAt interp args room = (some error, interp') →
      (SameRegistrations interp interp' ↔ ¬ReplacesOnlyTarget interp args room)) ∧
    ∀ i args allocates error interp',
      retraceSetThreadSwitchCallback interp i args allocates = (some error, interp') →
      SameRegistrations interp interp' := by
  obtain ⟨hsound, hneeded⟩ := allNeeded_run hunused hrun
  refine ⟨fun _ _ _ _ => retraceCallAt_error hneeded hsound.tidy, ?_⟩
  intro i args allocates error interp' herror
  rw [retraceSetThreadSwitchCallback_error herror]
  exact SameRegistrations.refl interp

def intArg (n : Int) : PyArg := ⟨false, some n, none, none⟩
def noneArg : PyArg := ⟨true, none, none, none⟩
def callableArg (callback : Nat) : PyArg := ⟨false, none, some callback, none⟩
def tupleArg (items : List Int) : PyArg := ⟨false, none, none, some (items.map some)⟩

def noEntryRoom : CallRoom where
  sequence := true
  tuple := true
  item _ := true
  compare := true
  entry := false

/-- A frame of space 5, and a target for it. -/
def targetInSpace : List InterpEvent := [
  .run 0 (.enterSpace 0 5 true), .run 0 (.call 0 0 true true), .boundary 0 [] 4 (roomyChoices 9),
  .callAt ⟨1, [6, 0], 1, none, 5, true, true⟩]

theorem registration_atomic_unknownThread : ∃ interp out,
    StepRun.run (interpStep ⟨true, true⟩) targetInSpace (freshInterp ⟨true, true⟩ [0]) =
      some (interp, out) ∧
    ∃ interp', retraceCallAt interp
        [intArg 7, tupleArg [8, 0], callableArg 2, noneArg, intArg 5] noEntryRoom =
      (some (.raised (.lookupError "unknown thread id")), interp') ∧
    SameRegistrations interp interp' := by
  obtain ⟨interp, out, hrun⟩ : ∃ interp out, StepRun.run (interpStep ⟨true, true⟩) targetInSpace
      (freshInterp ⟨true, true⟩ [0]) = some (interp, out) := ⟨_, _, rfl⟩
  refine ⟨interp, out, hrun, ?_⟩
  obtain ⟨interp', herror, hcheck⟩ : ∃ interp', retraceCallAt interp
      [intArg 7, tupleArg [8, 0], callableArg 2, noneArg, intArg 5] noEntryRoom =
        (some (.raised (.lookupError "unknown thread id")), interp') ∧
      checkRequest interp ⟨7, [8, 0], 2, none, 5, true, false⟩ =
        some (.lookupError "unknown thread id") := by
    cases hrun
    exact ⟨_, rfl, rfl⟩
  refine ⟨interp', herror, ?_⟩
  refine ((registration_atomic (freshInterp_unused _ (by decide)) hrun).1 _ _ _ _ herror).mpr ?_
  rintro ⟨-, request, hparse, hpasses, -⟩
  cases hparse
  cases hcheck.symm.trans hpasses

/-- The second target cannot get its entry, and the first one is gone. -/
theorem registration_atomic_lostTarget : ∃ interp out interp',
    StepRun.run (interpStep ⟨true, true⟩) targetInSpace (freshInterp ⟨true, true⟩ [0]) =
      some (interp, out) ∧
    retraceCallAt interp [intArg 1, tupleArg [8, 0], callableArg 2, noneArg, intArg 5]
      noEntryRoom = (some (.raised .memoryError), interp') ∧
    slotAt interp 5 = some ⟨1, [6, 0], 1, none, 0⟩ ∧ slotAt interp' 5 = none ∧
    ¬SameRegistrations interp interp' := by
  refine ⟨_, _, _, rfl, rfl, rfl, rfl, ?_⟩
  intro hsame
  exact absurd (hsame.targets 5) (by decide)

end runs

end Retrace
