import Retrace.CallbackNodes
import Retrace.Registrations

/-!
The callbacks of an interpreter without a registry: a target and a switch callback for each space,
and the order of the spaces. There are no entries to allocate or prune, and no flags.
-/

set_option autoImplicit false

namespace Retrace

/-- `order` lists the spaces that have an entry in the registry, the newest first. -/
@[ext] structure SpaceInterp where
  threads : Nat → Machine
  live : List Nat
  lastBytecodeThread : Option Nat
  callAts : Nat → Option CallAt
  switches : Nat → Option (Nat × Option Nat)
  order : List Nat
  pending : Nat → Option Pending
  armings : Nat

def spaceIdsOf (entries : List SpaceCallbackState) : List Nat :=
  entries.map (fun entry => entry.spaceId)

/-- What the registry stands for. -/
def Interp.bySpace (interp : Interp) : SpaceInterp where
  threads := interp.threads
  live := interp.live
  lastBytecodeThread := interp.lastBytecodeThread
  callAts := slotAt interp
  switches := switchAt interp
  order := spaceIdsOf interp.spaceCallbacks
  pending := interp.pending
  armings := interp.armings

namespace SpaceInterp

/-- The threads, for what is asked of them alone. -/
def bare (s : SpaceInterp) : Interp where
  threads := s.threads
  live := s.live
  lastBytecodeThread := s.lastBytecodeThread
  threadSwitchArmed := false
  callAt := none
  callAtExtraArmed := false
  spaceCallbacks := []
  pending := s.pending
  armings := s.armings

def setThread (s : SpaceInterp) (i : Nat) (m : Machine) : SpaceInterp :=
  { s with threads := Function.update s.threads i m }

def setPending (s : SpaceInterp) (i : Nat) (pending : Option Pending) : SpaceInterp :=
  { s with pending := Function.update s.pending i pending }

def setLast (s : SpaceInterp) (i : Nat) : SpaceInterp := { s with lastBytecodeThread := some i }

def setCallAt (s : SpaceInterp) (spaceId : Nat) (target : Option CallAt) : SpaceInterp :=
  { s with callAts := Function.update s.callAts spaceId target }

def setSwitch (s : SpaceInterp) (spaceId : Nat) (switch : Option (Nat × Option Nat)) :
    SpaceInterp :=
  { s with switches := Function.update s.switches spaceId switch }

/-- A space is new in the order when it gets its first callback. -/
def enlist (s : SpaceInterp) (spaceId : Nat) : SpaceInterp :=
  if spaceId ∈ s.order then s else { s with order := spaceId :: s.order }

/-- A space without a callback loses its place in the order. The target of the root has none. -/
def settle (s : SpaceInterp) (spaceId : Nat) : SpaceInterp :=
  if s.switches spaceId = none ∧ (spaceId = spaceIdRoot ∨ s.callAts spaceId = none) then
    { s with order := s.order.erase spaceId }
  else s

def clearCallAt (s : SpaceInterp) (spaceId : Nat) : SpaceInterp :=
  (s.setCallAt spaceId none).settle spaceId

def armCallAt (s : SpaceInterp) (request : CallAtRequest) : SpaceInterp :=
  let s := s.clearCallAt request.spaceId
  let armed := { s.setCallAt request.spaceId (some (request.target s.armings)) with
    armings := s.armings + 1 }
  if request.spaceId = spaceIdRoot then armed
  else if request.spaceId ∈ s.order ∨ request.entryAllocates = true then
    armed.enlist request.spaceId
  else s

def callAt (s : SpaceInterp) (request : CallAtRequest) : SpaceInterp :=
  match checkRequest s.bare request with
  | some _ => s
  | none => s.armCallAt request

/-- With a callback, the cursor is at the thread that registers it if this is in the space. -/
def setThreadSwitchCallback (s : SpaceInterp) (i : Nat) (callback : Option Nat) (spaceId : Nat)
    (allocates : Bool) : SpaceInterp :=
  match callback with
  | none => (s.setSwitch spaceId none).settle spaceId
  | some callback =>
    if spaceId ∈ s.order ∨ allocates = true then
      (s.setSwitch spaceId (some (callback, visibleThreadForSpace s.bare i spaceId))).enlist spaceId
    else s

/-- The spaces in this order, up to the first that has a callback called. -/
def checkSpaces (i : Nat) (allocates : Nat → Bool) :
    List Nat → SpaceInterp → SpaceInterp × Option Delivery
  | [], s => (s, none)
  | spaceId :: rest, s =>
    match checkCallAtSlot (s.threads i) spaceId (s.callAts spaceId) (allocates spaceId) with
    | .pass => checkSpaces i allocates rest s
    | .clear => checkSpaces i allocates rest (s.clearCallAt spaceId)
    | .deliver delivery => (s.clearCallAt spaceId, some delivery)

/-- The root comes first. -/
def checkCallAt (s : SpaceInterp) (i : Nat) (allocates : Nat → Bool) :
    SpaceInterp × Option Delivery :=
  if (s.threads i).tstate.threadId = 0 then (s, none)
  else checkSpaces i allocates
    (spaceIdRoot :: s.order.filter (fun spaceId => spaceId ≠ spaceIdRoot)) s

def startCallback (p : Platform) (s : SpaceInterp) (i : Nat) (choices : BoundaryChoices)
    (pending : Pending) (called : Output) : Option (SpaceInterp × List Output) :=
  (threadStep p (s.threads i) (.callbackBegin choices.scope choices.enterAllocates)).map
    (fun m =>
      let began := Output.ran i (.callbackBegin choices.scope choices.enterAllocates)
      if m.tstate.threadCallbackActive then
        ((s.setThread i m).setPending i (some pending), [began, called])
      else (s.setThread i m, [began]))

/-- The space of the running frame, with its switch callback and cursor. -/
def switchHere (s : SpaceInterp) (i : Nat) : Option (Nat × Nat × Option Nat) :=
  (topSpaceId (s.threads i)).bind (fun spaceId =>
    (s.switches spaceId).map (fun switch => (spaceId, switch)))

def deliverThreadSwitchCallback (p : Platform) (s : SpaceInterp) (previous i : Nat)
    (choices : BoundaryChoices) : Option (SpaceInterp × List Output) :=
  if (s.threads previous).tstate.threadId = 0 ∨ (s.threads i).tstate.threadId = 0 then
    some (s, [])
  else
    match s.switchHere i with
    | none => some (s, [])
    | some (spaceId, callback, none) => some (s.setSwitch spaceId (some (callback, some i)), [])
    | some (spaceId, callback, some cursor) =>
      if cursor = i then some (s, [])
      else
        let (result, m) := threadDeltaForTstate (s.threads cursor) spaceId choices.deltaAllocates
          choices.tupleAllocates
        let s := s.setThread cursor m
        let moved := s.setSwitch spaceId (some (callback, some i))
        let ran := Output.ran cursor (.threadDelta spaceId choices.deltaAllocates
          choices.tupleAllocates)
        match result with
        | .error => some (s, [ran])
        | .noSpace => some (moved, [ran])
        | .delta previousDelta =>
          if choices.identAllocates then
            (moved.startCallback p i choices .afterSwitch (.threadSwitch i spaceId callback cursor
              previousDelta (moved.threads i).tstate.threadId)).map
              (fun result => (result.1, ran :: result.2))
          else some (moved, [ran])

def checkThreadSwitch (p : Platform) (s : SpaceInterp) (i : Nat) (choices : BoundaryChoices) :
    Option (SpaceInterp × List Output) :=
  if s.lastBytecodeThread = some i then some (s, [])
  else
    let delivered := match s.lastBytecodeThread with
      | none => some (s, [])
      | some previous => s.deliverThreadSwitchCallback p previous i choices
    delivered.map (fun result =>
      (if (result.1.pending i).isNone then result.1.setLast i else result.1, result.2))

def checkBoundary (p : Platform) (s : SpaceInterp) (i : Nat) (choices : BoundaryChoices) :
    Option (SpaceInterp × List Output) :=
  if (topSpaceId (s.threads i)).isSome then
    match s.checkCallAt i choices.compareAllocates with
    | (s, none) => s.checkThreadSwitch p i choices
    | (s, some delivery) => s.startCallback p i choices .afterCallAt (.callAt i delivery)
  else s.checkThreadSwitch p i choices

def beginInstruction (p : Platform) (s : SpaceInterp) (i : Nat) (jumps : List (Int × Int))
    (offset : Nat) (choices : BoundaryChoices) : Option (SpaceInterp × List Output) :=
  match threadStep p (s.threads i) (.begin jumps offset) with
  | none => none
  | some m =>
    let s := s.setThread i m
    let rest := if m.tstate.threadCallbackActive then some (s, [])
      else s.checkBoundary p i choices
    rest.map (fun result => (result.1, .ran i (.begin jumps offset) :: result.2))

def endCallback (p : Platform) (s : SpaceInterp) (i : Nat) (raised : Bool)
    (choices : BoundaryChoices) : Option (SpaceInterp × List Output) :=
  match s.pending i, threadStep p (s.threads i) .callbackEnd with
  | some pending, some m =>
    let s := (s.setThread i m).setPending i none
    let rest := match pending with
      | .afterSwitch => some (s.setLast i, [])
      | .afterCallAt => if raised then some (s, []) else s.checkThreadSwitch p i choices
    rest.map (fun result => (result.1, .ran i .callbackEnd :: result.2))
  | _, _ => none

def clearThread (s : SpaceInterp) (i : Nat) : SpaceInterp :=
  let forget (last : Option Nat) : Option Nat := if last = some i then none else last
  { s.setThread i ((s.threads i).setTstate (clearThreadState (s.threads i).tstate)) with
    live := s.live.erase i
    lastBytecodeThread := forget s.lastBytecodeThread
    switches := fun spaceId =>
      (s.switches spaceId).map (fun switch => (switch.1, forget switch.2)) }

end SpaceInterp

def spaceStep (p : Platform) (s : SpaceInterp) : InterpEvent → Option (SpaceInterp × List Output)
  | .run i event =>
    if i ∈ s.live ∧ event.ofProgram = true then
      (threadStep p (s.threads i) event).map (fun m => (s.setThread i m, [.ran i event]))
    else none
  | .boundary i jumps offset choices =>
    if i ∈ s.live then s.beginInstruction p i jumps offset choices else none
  | .callbackReturns i raised choices =>
    if i ∈ s.live then s.endCallback p i raised choices else none
  | .callAt request => some (s.callAt request, [])
  | .clearCallAt spaceId => some (s.clearCallAt spaceId, [])
  | .setThreadSwitchCallback i callback spaceId allocates =>
    if i ∈ s.live then some (s.setThreadSwitchCallback i callback spaceId allocates, []) else none
  | .clearThread i => if i ∈ s.live then some (s.clearThread i, []) else none

section orders
variable {interp : Interp} {spaceId : Nat}

theorem spaceIdsOf_erase (spaceId : Nat) (entries : List SpaceCallbackState) :
    spaceIdsOf (eraseEntry spaceId entries) = (spaceIdsOf entries).erase spaceId := by
  unfold spaceIdsOf
  induction entries with
  | nil => rfl
  | cons entry rest ih =>
    rw [eraseEntry_cons, List.map_cons, List.erase_cons]
    by_cases h : entry.spaceId = spaceId
    · rw [if_pos h, if_pos (by simpa using h)]
    · rw [if_neg h, if_neg (by simpa using h), List.map_cons, ih]

theorem find_none_iff : findSpaceCallbackState interp spaceId = none ↔
    spaceId ∉ spaceIdsOf interp.spaceCallbacks := by
  constructor
  · exact findEntry_none
  · intro h
    cases hfind : findSpaceCallbackState interp spaceId with
    | none => rfl
    | some entry =>
      obtain ⟨hmem, hid⟩ := findEntry_some hfind
      exact absurd (hid ▸ List.mem_map_of_mem (f := fun entry => entry.spaceId) hmem) h

theorem AllNeeded.not_listed (h : AllNeeded interp) (htidy : Tidy interp)
    (hswitch : switchAt interp spaceId = none)
    (hslot : spaceId = spaceIdRoot ∨ slotAt interp spaceId = none) :
    spaceId ∉ spaceIdsOf interp.spaceCallbacks := by
  intro hmem
  obtain ⟨entry, hentry, rfl⟩ := List.mem_map.mp hmem
  have hfind : findSpaceCallbackState interp entry.spaceId = some entry :=
    findEntry_mem htidy.distinct hentry
  have hcallback : entry.threadSwitchCallback = none := by
    unfold switchAt at hswitch
    rw [hfind] at hswitch
    simpa using hswitch
  have hnone : entry.callAt = none := by
    by_cases hroot : entry.spaceId = spaceIdRoot
    · exact htidy.root entry hentry hroot
    · have hslot := hslot.resolve_left hroot
      unfold slotAt at hslot
      rw [if_neg hroot, hfind] at hslot
      exact hslot
  have hneed := (h entry hentry hcallback).1
  rw [hnone] at hneed
  cases hneed

theorem Tidy.prune_order (h : Tidy interp) (spaceId : Nat) :
    spaceIdsOf (pruneSpaceCallbackState interp spaceId).spaceCallbacks =
      if switchAt interp spaceId = none ∧
        (spaceId = spaceIdRoot ∨ slotAt interp spaceId = none) then
        (spaceIdsOf interp.spaceCallbacks).erase spaceId
      else spaceIdsOf interp.spaceCallbacks := by
  unfold pruneSpaceCallbackState
  cases hfind : findSpaceCallbackState interp spaceId with
  | none =>
    rw [List.erase_of_not_mem (find_none_iff.mp hfind)]
    exact (ite_self _).symm
  | some entry =>
    obtain ⟨hmem, hid⟩ := findEntry_some hfind
    have hempty : spaceCallbackStateEmpty entry = true ↔ switchAt interp spaceId = none ∧
        (spaceId = spaceIdRoot ∨ slotAt interp spaceId = none) := by
      have hroot : spaceId = spaceIdRoot → entry.callAt = none :=
        fun hroot => h.root entry hmem (hid.trans hroot)
      unfold spaceCallbackStateEmpty switchAt slotAt
      rw [hfind]
      by_cases hzero : spaceId = spaceIdRoot
      · simp [hzero, hroot hzero]
      · simp [hzero]
    dsimp only
    by_cases hcase : spaceCallbackStateEmpty entry = true
    · rw [if_pos hcase, if_pos (hempty.mp hcase)]
      exact spaceIdsOf_erase _ _
    · rw [if_neg hcase, if_neg (fun hboth => hcase (hempty.mpr hboth))]

end orders

namespace SpaceInterp

theorem settle_eq {s : SpaceInterp} {spaceId : Nat}
    (h : s.switches spaceId = none → spaceId ∉ s.order) : s.settle spaceId = s := by
  unfold settle
  split
  · rename_i hboth
    rw [List.erase_of_not_mem (h hboth.1)]
  · rfl

theorem setCallAt_same {s : SpaceInterp} {spaceId : Nat} {target : Option CallAt}
    (h : s.callAts spaceId = target) : s.setCallAt spaceId target = s := by
  unfold setCallAt
  rw [← h, Function.update_eq_self]

theorem setSwitch_same {s : SpaceInterp} {spaceId : Nat} {switch : Option (Nat × Option Nat)}
    (h : s.switches spaceId = switch) : s.setSwitch spaceId switch = s := by
  unfold setSwitch
  rw [← h, Function.update_eq_self]

theorem enlist_eq (s : SpaceInterp) (spaceId : Nat) :
    s.enlist spaceId = { s with
      order := if spaceId ∈ s.order then s.order else spaceId :: s.order } := by
  unfold enlist
  split <;> rfl

end SpaceInterp

section maps
variable {p : Platform} {interp : Interp} {spaceId i : Nat} {choices : BoundaryChoices}

theorem bySpace_prune (h : Tidy interp) (spaceId : Nat) :
    (pruneSpaceCallbackState interp spaceId).bySpace = interp.bySpace.settle spaceId := by
  obtain ⟨-, hslot, hswitch⟩ := h.prune spaceId
  have hthreads := pruneSpaceCallbackState_threads interp spaceId
  have hsettle : interp.bySpace.settle spaceId = { interp.bySpace with
      order := if switchAt interp spaceId = none ∧
          (spaceId = spaceIdRoot ∨ slotAt interp spaceId = none) then
          (spaceIdsOf interp.spaceCallbacks).erase spaceId
        else spaceIdsOf interp.spaceCallbacks } := by
    unfold SpaceInterp.settle
    split
    · rename_i hempty
      rw [if_pos (by exact hempty)]
      rfl
    · rename_i hkept
      rw [if_neg (by exact hkept)]
      rfl
  rw [hsettle]
  ext1
  · exact hthreads.threads
  · exact hthreads.live
  · exact hthreads.last
  · exact funext hslot
  · exact funext hswitch
  · exact h.prune_order spaceId
  · exact hthreads.pending
  · exact pruneSpaceCallbackState_armings interp spaceId

theorem bySpace_rootSlot (interp : Interp) (target : Option CallAt) (armings : Nat) :
    Interp.bySpace { interp with callAt := target, armings := armings } =
      { interp.bySpace.setCallAt spaceIdRoot target with armings := armings } := by
  ext1
  all_goals try rfl
  funext other
  change slotAt _ other = Function.update (slotAt interp) spaceIdRoot target other
  rw [Function.update_apply]
  unfold slotAt
  by_cases hother : other = spaceIdRoot
  · rw [if_pos hother, if_pos hother]
  · rw [if_neg hother, if_neg hother, if_neg hother]
    rfl

theorem bySpace_writeCallAt (h : Tidy interp) (hroot : spaceId ≠ spaceIdRoot)
    (hfound : (findSpaceCallbackState interp spaceId).isSome = true)
    (target : Option CallAt) (armed : Bool) (armings : Nat) :
    Interp.bySpace { interp with
      spaceCallbacks := updateEntry spaceId (fun entry => { entry with callAt := target })
        interp.spaceCallbacks
      callAtExtraArmed := armed
      armings := armings } =
    { interp.bySpace.setCallAt spaceId target with armings := armings } := by
  obtain ⟨-, hslot, hswitch⟩ := h.setCallAt hroot hfound target rfl armings
  ext1
  all_goals try rfl
  · funext other
    exact (hslot other).trans (Function.update_apply ..).symm
  · exact funext hswitch
  · exact spaceIds_updateEntry (fun _ => rfl)

theorem bySpace_clearCallAt (h : Tidy interp) (hneeded : AllNeeded interp) (spaceId : Nat) :
    (clearCallAt interp spaceId).bySpace = interp.bySpace.clearCallAt spaceId := by
  unfold clearCallAt SpaceInterp.clearCallAt
  by_cases hroot : spaceId = spaceIdRoot
  · rw [if_pos hroot, SpaceInterp.settle_eq]
    · rw [hroot]
      exact bySpace_rootSlot interp none interp.armings
    · exact fun hswitch => hneeded.not_listed h hswitch (Or.inl hroot)
  · rw [if_neg hroot]
    unfold clearSpaceCallAt
    cases hfind : findSpaceCallbackState interp spaceId with
    | none =>
      have hslot : interp.bySpace.callAts spaceId = none := by
        change slotAt interp spaceId = none
        unfold slotAt
        rw [if_neg hroot, hfind]
        rfl
      rw [SpaceInterp.setCallAt_same hslot,
        SpaceInterp.settle_eq (fun _ => find_none_iff.mp hfind)]
    | some entry =>
      have hfound : (findSpaceCallbackState interp spaceId).isSome = true := by
        rw [hfind]
        rfl
      have hwritten := (h.setCallAt hroot hfound none rfl interp.armings).1
      exact (bySpace_prune hwritten spaceId).trans
        (congrArg (fun s : SpaceInterp => s.settle spaceId)
          (bySpace_writeCallAt h hroot hfound none _ _))

theorem ensure_order {allocates : Bool} {mid : Interp}
    (h : ensureSpaceCallbackState interp spaceId allocates = some mid) :
    (spaceId ∈ spaceIdsOf interp.spaceCallbacks ∨ allocates = true) ∧
    spaceIdsOf mid.spaceCallbacks = (if spaceId ∈ spaceIdsOf interp.spaceCallbacks then
      spaceIdsOf interp.spaceCallbacks else spaceId :: spaceIdsOf interp.spaceCallbacks) := by
  unfold ensureSpaceCallbackState at h
  by_cases hlisted : spaceId ∈ spaceIdsOf interp.spaceCallbacks
  · obtain ⟨entry, hentry⟩ := Option.ne_none_iff_exists'.mp
      (fun hnone => find_none_iff.mp hnone hlisted)
    rw [hentry] at h
    cases h
    exact ⟨Or.inl hlisted, (if_pos hlisted).symm⟩
  · rw [find_none_iff.mpr hlisted] at h
    cases allocates with
    | false => cases h
    | true =>
      cases h
      exact ⟨Or.inr rfl, (if_neg hlisted).symm⟩

theorem ensure_none_order {allocates : Bool}
    (h : ensureSpaceCallbackState interp spaceId allocates = none) :
    ¬(spaceId ∈ spaceIdsOf interp.spaceCallbacks ∨ allocates = true) := by
  unfold ensureSpaceCallbackState at h
  rintro (hlisted | hallocates)
  · obtain ⟨entry, hentry⟩ := Option.ne_none_iff_exists'.mp
      (fun hnone => find_none_iff.mp hnone hlisted)
    rw [hentry] at h
    cases h
  · rw [hallocates] at h
    cases hfind : findSpaceCallbackState interp spaceId with
    | none =>
      rw [hfind] at h
      cases h
    | some entry =>
      rw [hfind] at h
      cases h

theorem bySpace_ensure (h : Tidy interp) {allocates : Bool} {mid : Interp}
    (hensure : ensureSpaceCallbackState interp spaceId allocates = some mid) :
    mid.bySpace = interp.bySpace.enlist spaceId := by
  obtain ⟨-, hthreads, harmings, -, hslot, hswitch⟩ := h.ensure hensure
  rw [SpaceInterp.enlist_eq]
  ext1
  · exact hthreads.threads
  · exact hthreads.live
  · exact hthreads.last
  · exact funext hslot
  · exact funext hswitch
  · exact (ensure_order hensure).2
  · exact hthreads.pending
  · exact harmings

theorem bySpace_armCallAt (h : Tidy interp) (hneeded : AllNeeded interp)
    (request : CallAtRequest) :
    (armCallAt interp request).2.bySpace = interp.bySpace.armCallAt request := by
  have hcleared := (h.clearCallAt request.spaceId).1
  unfold SpaceInterp.armCallAt
  rw [← bySpace_clearCallAt h hneeded request.spaceId]
  unfold armCallAt
  dsimp only
  by_cases hroot : request.spaceId = spaceIdRoot
  · rw [if_pos hroot, if_pos hroot, hroot]
    exact bySpace_rootSlot _ _ _
  · rw [if_neg hroot, if_neg hroot]
    cases hensure : ensureSpaceCallbackState (clearCallAt interp request.spaceId) request.spaceId
        request.entryAllocates with
    | none => exact (if_neg (ensure_none_order hensure)).symm
    | some mid =>
      obtain ⟨hmid, -, harmings, hfound, -⟩ := hcleared.ensure hensure
      refine (bySpace_writeCallAt hmid hroot hfound _ true _).trans ?_
      refine Eq.trans ?_ (if_pos (ensure_order hensure).1).symm
      rw [bySpace_ensure hcleared hensure, SpaceInterp.enlist_eq, SpaceInterp.enlist_eq, harmings]
      rfl

theorem bySpace_callAt (h : Tidy interp) (hneeded : AllNeeded interp) (request : CallAtRequest) :
    (callAt interp request).2.bySpace = interp.bySpace.callAt request := by
  have hcheck : checkRequest interp.bySpace.bare request = checkRequest interp request := rfl
  unfold SpaceInterp.callAt
  rw [callAt_eq, hcheck]
  cases checkRequest interp request with
  | some error => rfl
  | none => exact bySpace_armCallAt h hneeded request

theorem bySpace_setCursor (h : Tidy interp) {callback : Nat} {cursor : Option Nat}
    (hswitch : switchAt interp spaceId = some (callback, cursor)) (i : Nat) :
    (interp.setCursor spaceId i).bySpace =
      interp.bySpace.setSwitch spaceId (some (callback, some i)) := by
  obtain ⟨-, hslot, hmoved⟩ := h.setCursor spaceId i
  ext1
  all_goals try rfl
  · funext other
    exact hslot other
  · funext other
    change switchAt _ other = Function.update (switchAt interp) spaceId _ other
    rw [hmoved, hswitch, Function.update_apply]
    rfl
  · exact spaceIds_updateEntry (fun _ => rfl)

theorem bySpace_clearThread (h : Tidy interp) (i : Nat) :
    (clearThread clearThreadState interp i).bySpace = interp.bySpace.clearThread i := by
  obtain ⟨-, hslot, hswitch⟩ := h.clearThread clearThreadState i
  ext1
  all_goals try rfl
  · funext other
    exact hslot other
  · funext other
    exact hswitch other
  · exact List.map_map

theorem bySpace_writeSwitch (h : Tidy interp)
    (hfound : (findSpaceCallbackState interp spaceId).isSome = true)
    (callback cursor : Option Nat) :
    Tidy (writeSwitch interp spaceId callback cursor) ∧
    (writeSwitch interp spaceId callback cursor).bySpace =
      interp.bySpace.setSwitch spaceId (callback.map (fun callback => (callback, cursor))) := by
  obtain ⟨hwritten, hslot, hswitch⟩ := h.setSwitch spaceId (fun entry => { entry with
    threadSwitchCallback := callback, lastBytecodeThread := cursor })
    (fun _ => rfl) (fun _ => rfl) rfl
  obtain ⟨entry, hentry⟩ := Option.isSome_iff_exists.mp hfound
  refine ⟨hwritten, ?_⟩
  ext1
  all_goals try rfl
  · exact funext hslot
  · funext other
    refine (hswitch other).trans ?_
    rw [hentry, Option.bind_some]
    exact (Function.update_apply ..).symm
  · exact spaceIds_updateEntry (fun _ => rfl)

theorem bySpace_setThreadSwitchCallback (h : Tidy interp) (i : Nat) (callback : Option Nat)
    (spaceId : Nat) (allocates : Bool) :
    (setThreadSwitchCallback interp i callback spaceId allocates).2.bySpace =
      interp.bySpace.setThreadSwitchCallback i callback spaceId allocates := by
  unfold setThreadSwitchCallback
  cases callback with
  | none =>
    cases hfind : findSpaceCallbackState interp spaceId with
    | none =>
      have hswitch : interp.bySpace.switches spaceId = none := by
        change switchAt interp spaceId = none
        unfold switchAt
        rw [hfind]
        rfl
      have habsent : spaceId ∉ interp.bySpace.order := find_none_iff.mp hfind
      unfold SpaceInterp.setThreadSwitchCallback
      dsimp only [Option.map_none]
      rw [SpaceInterp.setSwitch_same hswitch, SpaceInterp.settle_eq (fun _ => habsent)]
    | some entry =>
      obtain ⟨hwritten, hsame⟩ := bySpace_writeSwitch h (by rw [hfind]; rfl) none none
      dsimp only [Option.map_some]
      rw [updateThreadSwitchArmed_prune]
      refine (bySpace_prune hwritten spaceId).trans ?_
      rw [hsame]
      rfl
  | some callback =>
    dsimp only
    cases hensure : ensureSpaceCallbackState interp spaceId allocates with
    | none => exact (if_neg (ensure_none_order hensure)).symm
    | some mid =>
      obtain ⟨hmid, hthreads, -, hfound, -⟩ := h.ensure hensure
      have hvisible : visibleThreadForSpace mid i spaceId =
          visibleThreadForSpace interp.bySpace.bare i spaceId := by
        unfold visibleThreadForSpace
        rw [hthreads.threads]
        rfl
      obtain ⟨hwritten, hsame⟩ := bySpace_writeSwitch hmid hfound (some callback)
        (visibleThreadForSpace mid i spaceId)
      dsimp only
      rw [updateThreadSwitchArmed_prune]
      refine (bySpace_prune hwritten spaceId).trans ?_
      rw [hsame, SpaceInterp.settle_eq, bySpace_ensure h hensure, hvisible]
      · refine Eq.trans ?_ (if_pos (ensure_order hensure).1).symm
        rw [SpaceInterp.enlist_eq, SpaceInterp.enlist_eq]
        rfl
      · intro hnone
        have hself : (mid.bySpace.setSwitch spaceId
            (some (callback, visibleThreadForSpace mid i spaceId))).switches spaceId = some _ :=
          Function.update_self ..
        rw [Option.map_some, hself] at hnone
        cases hnone

theorem bySpace_checkEntries (h : Tidy interp) (hneeded : AllNeeded interp)
    {allocates : Nat → Bool} (rest : List SpaceCallbackState)
    (hdistinct : (spaceIdsOf rest).Nodup)
    (hslots : ∀ entry ∈ rest, entry.callAt =
      if entry.spaceId = spaceIdRoot then none else slotAt interp entry.spaceId) :
    interp.bySpace.checkSpaces i allocates
        ((spaceIdsOf rest).filter (fun spaceId => spaceId ≠ spaceIdRoot)) =
      ((checkCallAtEntries i allocates rest interp).1.bySpace,
        (checkCallAtEntries i allocates rest interp).2) := by
  induction rest generalizing interp with
  | nil => rfl
  | cons entry rest ih =>
    have hentry := hslots entry List.mem_cons_self
    have hrest := fun other hmem => hslots other (List.mem_cons_of_mem _ hmem)
    obtain ⟨hfresh, hdistinct⟩ := List.nodup_cons.mp hdistinct
    have hids : spaceIdsOf (entry :: rest) = entry.spaceId :: spaceIdsOf rest := rfl
    rw [hids, List.filter_cons]
    unfold checkCallAtEntries
    by_cases hroot : entry.spaceId = spaceIdRoot
    · rw [if_pos hroot] at hentry
      rw [if_neg (by simpa using hroot), hentry]
      exact ih h hneeded hdistinct hrest
    · rw [if_neg hroot] at hentry
      rw [if_pos (by simpa using hroot), hentry]
      unfold SpaceInterp.checkSpaces
      have hcleared := bySpace_clearCallAt h hneeded entry.spaceId
      have hsame : checkCallAtSlot (interp.bySpace.threads i) entry.spaceId
          (interp.bySpace.callAts entry.spaceId) (allocates entry.spaceId) =
        checkCallAtSlot (interp.threads i) entry.spaceId (slotAt interp entry.spaceId)
          (allocates entry.spaceId) := rfl
      rw [hsame]
      cases checkCallAtSlot (interp.threads i) entry.spaceId (slotAt interp entry.spaceId)
          (allocates entry.spaceId) with
      | pass => exact ih h hneeded hdistinct hrest
      | clear =>
        dsimp only
        rw [← hcleared]
        obtain ⟨htidy, hslot, -⟩ := h.clearCallAt entry.spaceId
        refine ih htidy (hneeded.clearCallAt h _) hdistinct ?_
        intro other hmem
        have hne : other.spaceId ≠ entry.spaceId :=
          fun heq => hfresh (List.mem_map.mpr ⟨other, hmem, heq⟩)
        rw [hrest other hmem, hslot, if_neg hne]
      | deliver delivery =>
        dsimp only
        rw [← hcleared]

theorem checkCallAtEntries_unarmed {allocates : Nat → Bool} (rest : List SpaceCallbackState)
    (hnone : ∀ entry ∈ rest, entry.callAt = none) :
    checkCallAtEntries i allocates rest interp = (interp, none) := by
  induction rest with
  | nil => rfl
  | cons entry rest ih =>
    unfold checkCallAtEntries
    rw [hnone entry List.mem_cons_self]
    exact ih (fun other hmem => hnone other (List.mem_cons_of_mem _ hmem))

theorem Tidy.entries_flag (h : Tidy interp) (allocates : Nat → Bool) :
    (if interp.callAtExtraArmed then
      checkCallAtEntries i allocates interp.spaceCallbacks interp else (interp, none)) =
      checkCallAtEntries i allocates interp.spaceCallbacks interp := by
  cases harmed : interp.callAtExtraArmed with
  | true => rfl
  | false =>
    have hnone := h.callAtArmed
    rw [harmed, eq_comm, List.any_eq_false] at hnone
    exact (checkCallAtEntries_unarmed _ (fun entry hmem => by simpa using hnone entry hmem)).symm

theorem Tidy.entry_slots (h : Tidy interp) : ∀ entry ∈ interp.spaceCallbacks, entry.callAt =
    if entry.spaceId = spaceIdRoot then none else slotAt interp entry.spaceId := by
  intro entry hmem
  split
  · rename_i hroot
    exact h.root entry hmem hroot
  · rename_i hroot
    have hfind : findSpaceCallbackState interp entry.spaceId = some entry :=
      findEntry_mem h.distinct hmem
    unfold slotAt
    rw [if_neg hroot, hfind]
    rfl

theorem bySpace_checkCallAt (h : Tidy interp) (hneeded : AllNeeded interp)
    (allocates : Nat → Bool) : interp.bySpace.checkCallAt i allocates =
      ((checkCallAt interp i allocates).1.bySpace, (checkCallAt interp i allocates).2) := by
  have hwalk : ∀ {mid : Interp}, Tidy mid → AllNeeded mid → mid.bySpace.checkSpaces i allocates
      (mid.bySpace.order.filter (fun spaceId => spaceId ≠ spaceIdRoot)) =
      ((if mid.callAtExtraArmed then checkCallAtEntries i allocates mid.spaceCallbacks mid
        else (mid, none)).1.bySpace, (if mid.callAtExtraArmed then
          checkCallAtEntries i allocates mid.spaceCallbacks mid else (mid, none)).2) := by
    intro mid hmid hneeded
    rw [hmid.entries_flag]
    exact bySpace_checkEntries hmid hneeded _ hmid.distinct hmid.entry_slots
  have hroot : interp.bySpace.callAts spaceIdRoot = interp.callAt := by
    change slotAt interp spaceIdRoot = interp.callAt
    exact if_pos rfl
  have hclear : clearCallAt interp spaceIdRoot = clearRootCallAt interp := if_pos rfl
  have hcleared := bySpace_clearCallAt h hneeded spaceIdRoot
  rw [hclear] at hcleared
  have htidy : Tidy (clearRootCallAt interp) := hclear ▸ (h.clearCallAt spaceIdRoot).1
  have hneeded' : AllNeeded (clearRootCallAt interp) := hclear ▸ hneeded.clearCallAt h spaceIdRoot
  unfold SpaceInterp.checkCallAt checkCallAt
  split
  · rename_i hzero
    rw [if_pos (by exact hzero)]
  · rename_i hnamed
    rw [if_neg (by exact hnamed)]
    unfold SpaceInterp.checkSpaces
    rw [hroot]
    have hthreads : interp.bySpace.threads i = interp.threads i := rfl
    rw [hthreads]
    cases checkCallAtSlot (interp.threads i) spaceIdRoot interp.callAt
        (allocates spaceIdRoot) with
    | pass => exact hwalk h hneeded
    | clear =>
      dsimp only
      rw [← hcleared]
      exact hwalk htidy hneeded'
    | deliver delivery =>
      dsimp only
      rw [← hcleared]

theorem bySpace_setThread (interp : Interp) (i : Nat) (m : Machine) :
    (interp.setThread i m).bySpace = interp.bySpace.setThread i m := rfl

theorem bySpace_startCallback (interp : Interp) (pending : Pending) (called : Output) :
    (startCallback p interp i choices pending called).map
        (fun result => (result.1.bySpace, result.2)) =
      interp.bySpace.startCallback p i choices pending called := by
  unfold startCallback SpaceInterp.startCallback
  rw [Option.map_map]
  refine congrArg (fun f => Option.map f _) (funext fun m => ?_)
  dsimp only [Function.comp_apply]
  split <;> rfl

theorem bySpace_switchHere (h : Tidy interp) (i : Nat) : interp.bySpace.switchHere i =
    (switchEntry interp i).bind (fun entry => entry.threadSwitchCallback.map (fun callback =>
      (entry.spaceId, callback, entry.lastBytecodeThread))) := by
  unfold SpaceInterp.switchHere
  change (topSpaceId (interp.threads i)).bind (fun spaceId =>
    (switchAt interp spaceId).map (fun switch => (spaceId, switch))) = _
  cases hentry : switchEntry interp i with
  | some entry =>
    obtain ⟨-, htop, hmem⟩ := switchEntry_callback hentry
    have hfind : findSpaceCallbackState interp entry.spaceId = some entry :=
      findEntry_mem h.distinct hmem
    unfold switchAt
    rw [htop, Option.bind_some, hfind, Option.bind_some, Option.bind_some, Option.map_map]
    rfl
  | none =>
    rw [Option.bind_none]
    cases htop : topSpaceId (interp.threads i) with
    | none => rfl
    | some spaceId =>
      rw [Option.bind_some, Option.map_eq_none_iff]
      unfold switchAt
      cases hfind : findSpaceCallbackState interp spaceId with
      | none => rfl
      | some entry =>
        obtain ⟨hmem, hid⟩ := findEntry_some hfind
        unfold switchEntry at hentry
        have hmissed := List.find?_eq_none.mp hentry entry hmem
        rw [htop, hid] at hmissed
        rw [Option.bind_some, Option.map_eq_none_iff]
        simpa using hmissed

theorem bySpace_deliver (h : Tidy interp) (previous : Nat) :
    (deliverThreadSwitchCallback p interp previous i choices).map
        (fun result => (result.1.bySpace, result.2)) =
      interp.bySpace.deliverThreadSwitchCallback p previous i choices := by
  have hhere := bySpace_switchHere h i
  unfold deliverThreadSwitchCallback SpaceInterp.deliverThreadSwitchCallback
  split
  · rename_i hzero
    rw [if_pos (by exact hzero)]
    rfl
  · rename_i hnamed
    rw [if_neg (by exact hnamed), hhere]
    cases hentry : switchEntry interp i with
    | none => rfl
    | some entry =>
      obtain ⟨hcalls, -, hmem⟩ := switchEntry_callback hentry
      obtain ⟨callback, hcallback⟩ := Option.isSome_iff_exists.mp hcalls
      have hfind : findSpaceCallbackState interp entry.spaceId = some entry :=
        findEntry_mem h.distinct hmem
      have hswitch : switchAt interp entry.spaceId =
          some (callback, entry.lastBytecodeThread) := by
        unfold switchAt
        rw [hfind, Option.bind_some, hcallback]
        rfl
      rw [Option.bind_some, hcallback, Option.map_some]
      have hmoved : ∀ cursor m, ((interp.setThread cursor m).setCursor entry.spaceId i).bySpace =
          (interp.bySpace.setThread cursor m).setSwitch entry.spaceId (some (callback, some i)) :=
        fun cursor m => @bySpace_setCursor (interp.setThread cursor m) _
          (h.setThread cursor m) _ _ hswitch i
      have hthreads : interp.bySpace.threads = interp.threads := rfl
      cases hcursor : entry.lastBytecodeThread with
      | none =>
        simp only [hcallback, hcursor]
        exact congrArg (fun s => some (s, [])) (bySpace_setCursor h hswitch i)
      | some cursor =>
        simp only [hcallback, hcursor, hthreads]
        by_cases hown : cursor = i
        · rw [if_pos hown, if_pos hown]
          rfl
        · rw [if_neg hown, if_neg hown]
          cases threadDeltaForTstate (interp.threads cursor) entry.spaceId choices.deltaAllocates
              choices.tupleAllocates with
          | mk result m =>
            cases result with
            | error => rfl
            | noSpace =>
              dsimp only
              rw [← hmoved]
              rfl
            | delta previousDelta =>
              dsimp only
              rw [← hmoved]
              split
              · rw [← bySpace_startCallback, Option.map_map, Option.map_map]
                rfl
              · rfl

theorem Tidy.switch_flag (h : Tidy interp) (previous : Nat) :
    (if interp.threadSwitchArmed then deliverThreadSwitchCallback p interp previous i choices
      else some (interp, [])) = deliverThreadSwitchCallback p interp previous i choices := by
  cases harmed : interp.threadSwitchArmed with
  | true => rfl
  | false =>
    have hnone := h.switchArmed
    rw [harmed, eq_comm, List.any_eq_false] at hnone
    have hentry : switchEntry interp i = none := by
      unfold switchEntry
      rw [List.find?_eq_none]
      intro entry hmem
      simp [hnone entry hmem]
    unfold deliverThreadSwitchCallback
    rw [hentry]
    exact (ite_self _).symm

theorem bySpace_checkThreadSwitch (h : Tidy interp) :
    (checkThreadSwitch p interp i choices).map (fun result => (result.1.bySpace, result.2)) =
      interp.bySpace.checkThreadSwitch p i choices := by
  have hlast : ∀ mid : Interp, (if mid.idle i then mid.setLast i else mid).bySpace =
      if (mid.bySpace.pending i).isNone then mid.bySpace.setLast i else mid.bySpace :=
    fun mid => apply_ite Interp.bySpace _ _ _
  have hwritten : ∀ delivered : Option (Interp × List Output),
      (delivered.map (fun result => (if result.1.idle i then result.1.setLast i else result.1,
        result.2))).map (fun result => (result.1.bySpace, result.2)) =
      (delivered.map (fun result => (result.1.bySpace, result.2))).map (fun result =>
        (if (result.1.pending i).isNone then result.1.setLast i else result.1, result.2)) := by
    intro delivered
    cases delivered with
    | none => rfl
    | some result => exact congrArg (fun s => some (s, result.2)) (hlast result.1)
  unfold checkThreadSwitch SpaceInterp.checkThreadSwitch
  by_cases hown : interp.lastBytecodeThread = some i
  · rw [if_pos hown, if_pos (by exact hown)]
    rfl
  · rw [if_neg hown, if_neg (by exact hown)]
    dsimp only
    rw [hwritten]
    change _ = Option.map _ (match interp.lastBytecodeThread with
      | none => some (interp.bySpace, [])
      | some previous => interp.bySpace.deliverThreadSwitchCallback p previous i choices)
    cases interp.lastBytecodeThread with
    | none => rfl
    | some previous =>
      dsimp only
      rw [h.switch_flag, bySpace_deliver h]

theorem bySpace_checkBoundary (h : Tidy interp) (hneeded : AllNeeded interp) :
    (checkBoundary p interp i choices).map (fun result => (result.1.bySpace, result.2)) =
      interp.bySpace.checkBoundary p i choices := by
  have hcheck := @bySpace_checkCallAt interp i h hneeded choices.compareAllocates
  unfold checkBoundary SpaceInterp.checkBoundary
  by_cases hvisible : (topSpaceId (interp.threads i)).isSome = true
  · by_cases harmed : interp.callAt.isSome = true ∨ interp.callAtExtraArmed = true
    · rw [if_pos ⟨harmed, hvisible⟩, if_pos (by exact hvisible), hcheck]
      cases hresult : checkCallAt interp i choices.compareAllocates with
      | mk mid delivery =>
        cases delivery with
        | none =>
          have hmid : Tidy mid := by
            have hkept := @checkCallAt_keeps interp i choices.compareAllocates Tidy
              (fun _ cleared htidy => (htidy.clearCallAt cleared).1) h
            rwa [hresult] at hkept
          exact bySpace_checkThreadSwitch hmid
        | some delivery => exact bySpace_startCallback mid _ _
    · rw [if_neg (fun hboth => harmed hboth.1), if_pos (by exact hvisible), hcheck]
      -- without a target the pass would find nothing
      have hnothing : checkCallAt interp i choices.compareAllocates = (interp, none) := by
        rw [not_or] at harmed
        unfold checkCallAt
        rw [Option.not_isSome_iff_eq_none.mp harmed.1]
        split
        · rfl
        · exact if_neg harmed.2
      rw [hnothing]
      exact bySpace_checkThreadSwitch h
  · rw [if_neg (fun hboth => hvisible hboth.2), if_neg (by exact hvisible)]
    exact bySpace_checkThreadSwitch h

theorem bySpace_beginInstruction (h : Tidy interp) (hneeded : AllNeeded interp)
    (jumps : List (Int × Int)) (offset : Nat) :
    (beginInstruction p interp i jumps offset choices).map
        (fun result => (result.1.bySpace, result.2)) =
      interp.bySpace.beginInstruction p i jumps offset choices := by
  unfold beginInstruction SpaceInterp.beginInstruction
  change _ = match threadStep p (interp.threads i) (.begin jumps offset) with
    | none => none
    | some m => _
  cases threadStep p (interp.threads i) (.begin jumps offset) with
  | none => rfl
  | some m =>
    have hboundary := @bySpace_checkBoundary p (interp.setThread i m) i choices
      (h.setThread i m) (hneeded.congr rfl)
    dsimp only
    split
    · rfl
    · rw [← bySpace_setThread, ← hboundary, Option.map_map, Option.map_map]
      rfl

theorem bySpace_endCallback (h : Tidy interp) (raised : Bool) :
    (endCallback p interp i raised choices).map (fun result => (result.1.bySpace, result.2)) =
      interp.bySpace.endCallback p i raised choices := by
  unfold endCallback SpaceInterp.endCallback
  change _ = match interp.pending i, threadStep p (interp.threads i) .callbackEnd with
    | some pending, some m => _
    | _, _ => none
  cases interp.pending i with
  | none => rfl
  | some pending =>
    cases threadStep p (interp.threads i) .callbackEnd with
    | none => rfl
    | some m =>
      cases pending with
      | afterSwitch => rfl
      | afterCallAt =>
        cases raised with
        | true => rfl
        | false =>
          have hswitch := @bySpace_checkThreadSwitch p ((interp.setThread i m).setPending i none) i
            choices ⟨h.distinct, h.root, h.callAtArmed, h.switchArmed⟩
          change Option.map _ (Option.map _ (checkThreadSwitch p _ i choices)) = Option.map _
            (SpaceInterp.checkThreadSwitch p ((interp.setThread i m).setPending i none).bySpace i
              choices)
          rw [← hswitch, Option.map_map, Option.map_map]
          rfl

theorem map_guarded {α β : Type} {c : Prop} [Decidable c] {f : α → β} {result : Option α}
    {mapped : Option β} (h : result.map f = mapped) :
    (if c then result else none).map f = if c then mapped else none := by
  split
  · exact h
  · rfl

theorem bySpace_step (h : Tidy interp) (hneeded : AllNeeded interp) (event : InterpEvent) :
    (interpStep p interp event).map (fun result => (result.1.bySpace, result.2)) =
      spaceStep p interp.bySpace event := by
  cases event with
  | run j event => exact map_guarded (Option.map_map _ _ _)
  | boundary j jumps offset choices =>
    exact map_guarded (bySpace_beginInstruction h hneeded jumps offset)
  | callbackReturns j raised choices => exact map_guarded (bySpace_endCallback h raised)
  | callAt request => exact congrArg (fun s => some (s, [])) (bySpace_callAt h hneeded request)
  | clearCallAt spaceId =>
    exact congrArg (fun s => some (s, [])) (bySpace_clearCallAt h hneeded spaceId)
  | setThreadSwitchCallback j callback spaceId allocates =>
    exact map_guarded (congrArg (fun s => some (s, []))
      (bySpace_setThreadSwitchCallback h j callback spaceId allocates))
  | clearThread j =>
    exact map_guarded (congrArg (fun s => some (s, [])) (bySpace_clearThread h j))

end maps

section runs
variable {p : Platform} {interp₀ : Interp} {events : List InterpEvent}

/-- Whatever the threads do and register, the registry behaves as its maps: both refuse the same
events and call the same callbacks, and what it holds in the end is what the maps hold. -/
theorem registry_maps (hunused : Unused interp₀) :
    StepRun.run (spaceStep p) events interp₀.bySpace =
      (StepRun.run (interpStep p) events interp₀).map
        (fun result => (result.1.bySpace, result.2)) := by
  have hstart : Sound interp₀ ∧ AllNeeded interp₀ := by
    refine ⟨hunused.sound, ?_⟩
    intro entry hmem
    rw [hunused.entries] at hmem
    cases hmem
  have hkept : ∀ interp event interp' out, Sound interp ∧ AllNeeded interp →
      interpStep p interp event = some (interp', out) → Sound interp' ∧ AllNeeded interp' := by
    rintro interp event interp' out ⟨hsound, hneeded⟩ hstep
    have hstepping := hsound.stepping hstep
    exact ⟨hstepping.sound hsound, hstepping.allNeeded hneeded hsound⟩
  have hmap : ∀ interp event, Sound interp ∧ AllNeeded interp →
      (interpStep p interp event).map (fun result => (result.1.bySpace, result.2)) =
        spaceStep p interp.bySpace event :=
    fun interp event h => bySpace_step h.1.tidy h.2 event
  exact StepRun.run_map hkept hmap events hstart

end runs

/-- A target of space 5 and a switch callback of the root. The target is hit, and its space leaves
the order; then the other thread is seen. -/
def hitThenSwitch : List InterpEvent := [
  .run 0 (.call 0 0 true true), .boundary 0 [] 2 (roomyChoices 9),
  .setThreadSwitchCallback 0 (some 4) 0 true, .run 0 (.enterSpace 3 5 true),
  .run 0 (.call 1 0 true true), .boundary 0 [] 1 (roomyChoices 9),
  .callAt ⟨1, [6, 0], 1, none, 5, true, true⟩, .boundary 0 [] 6 (roomyChoices 9),
  .callbackReturns 0 false (roomyChoices 9), .run 1 (.call 2 0 true true),
  .boundary 1 [] 3 (roomyChoices 8)]

theorem registry_maps_hitThenSwitch : ∃ interp out,
    StepRun.run (interpStep ⟨true, true⟩) hitThenSwitch (freshInterp ⟨true, true⟩ [0, 1]) =
      some (interp, out) ∧
    .threadSwitch 1 0 4 0 [0, 2, 0] 2 ∈ out ∧ interp.bySpace.order = [0] ∧
    StepRun.run (spaceStep ⟨true, true⟩) hitThenSwitch
      (freshInterp ⟨true, true⟩ [0, 1]).bySpace = some (interp.bySpace, out) := by
  obtain ⟨interp, out, hrun⟩ : ∃ interp out, StepRun.run (interpStep ⟨true, true⟩) hitThenSwitch
      (freshInterp ⟨true, true⟩ [0, 1]) = some (interp, out) := ⟨_, _, rfl⟩
  refine ⟨interp, out, hrun, ?_, ?_, ?_⟩
  · cases hrun
    decide +kernel
  · cases hrun
    rfl
  · rw [registry_maps (freshInterp_unused ⟨true, true⟩ (by decide)), hrun]
    rfl

end Retrace
