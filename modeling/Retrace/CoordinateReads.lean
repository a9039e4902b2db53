import Retrace.Registrations
import Retrace.SharedFrames

/-!
`coordinates` of another thread. The call looks at the thread twice, and lets go of the lock in
between to allocate the buffer.
-/

set_option autoImplicit false

namespace Retrace

structure CoordinatesRequest where
  thread : Option Nat
  drop : Nat
  spaceId : Nat
  deriving DecidableEq, Repr

inductive CoordinatesError where
  | registration (error : RegistrationError)
  | runtimeError (message : String)
  deriving DecidableEq, Repr

def ssizeFromObject : Option Int → Except RegistrationError Int
  | none => .error .notAnInt
  | some n => if -2 ^ 63 ≤ n ∧ n < 2 ^ 63 then .ok n else .error .outOfRange

def parseCoordinates (args : List PyArg) : Except RegistrationError CoordinatesRequest :=
  if args.length > 3 then
    .error (.typeError ("coordinates() takes at most 3 arguments (" ++ toString args.length ++
      " given)"))
  else do
    let drop ← match args[1]? with
      | none => .ok 0
      | some arg => ssizeFromObject arg.int
    if drop < 0 then
      .error (.raised (.valueError "coordinates drop must be non-negative"))
    else do
      let thread ← match args[0]? with
        | none => .ok none
        | some arg => if arg.isNone then .ok none else (u64FromObject arg.int).map some
      let spaceId ← match args[2]? with
        | none => .ok spaceIdRoot
        | some arg => spaceIdFromObject arg
      .ok ⟨thread, drop.toNat, spaceId⟩

/-- `retrace_find_thread_state`, over the list of threads with the newest one first. -/
def findSharedThread (s : SharedState) (threadId : Nat) : Option Nat :=
  if threadId = 0 then none else s.live.find? (fun t => (s.tstates t).threadId = threadId)

def findTarget (s : SharedState) (current : Nat) : Option Nat → Option Nat
  | none => some current
  | some threadId => findSharedThread s threadId

/-- What one time under the lock finds: the thread and its space, if it has run there. -/
def locate (s : SharedState) (current : Nat) (request : CoordinatesRequest) :
    Except CoordinatesError (Option (Machine × Nat)) :=
  match findTarget s current request.thread with
  | none => .error (.registration (.raised (.lookupError "unknown thread id")))
  | some t =>
    match findThreadSpace (s.tstates t) request.spaceId with
    | none => .ok none
    | some node => if ((s.tstates t).space node).seen then .ok (some (s.thread t, node)) else .ok none

/-- `allocates` is the buffer, `tupleAllocates` the result. -/
structure ReadRoom where
  allocates : Bool
  tupleAllocates : Bool

/-- The second part of the call, with the count and the root ordinal of the first. -/
def readCoordinates (found : Option (Machine × Nat)) (drop count rootCallOrdinal size : Nat)
    (tupleAllocates : Bool) : Except CoordinatesError (Option (List Nat)) :=
  match found with
  | none => .ok none
  | some (m, node) =>
    let chain := threadStateFrame m node
    if coordinateCount m (m.spacePtr node) chain ≠ count then
      .error (.runtimeError "thread frame stack changed")
    else if (m.tstate.space node).rootCallOrdinal ≠ rootCallOrdinal then
      .error (.runtimeError "thread root call ordinal changed")
    else
      let coordinates := if count ≠ 0 then
        fillCoordinates m (m.spacePtr node) chain count (List.replicate count 0) else []
      if tupleAllocates then .ok (some ((coordinates.drop drop).take size))
      else .error (.registration (.raised .memoryError))

/-- The part behind the arguments, called by `current`, with the threads as they are each time
under the lock. -/
def readTwice (first second : SharedState) (current : Nat) (request : CoordinatesRequest)
    (room : ReadRoom) : Except CoordinatesError (Option (List Nat)) :=
  match locate first current request with
  | .error error => .error error
  | .ok none => .ok none
  | .ok (some (m, node)) =>
    let count := coordinateCount m (m.spacePtr node) (threadStateFrame m node)
    let rootCallOrdinal := (m.tstate.space node).rootCallOrdinal
    let size := if count > request.drop then count - request.drop else 0
    if count ≠ 0 ∧ !room.allocates then .error (.registration (.raised .memoryError))
    else
      match locate second current request with
      | .error error => .error error
      | .ok found => readCoordinates found request.drop count rootCallOrdinal size room.tupleAllocates

def retraceCoordinates (first second : SharedState) (current : Nat) (args : List PyArg)
    (room : ReadRoom) : Except CoordinatesError (Option (List Nat)) :=
  match parseCoordinates args with
  | .error error => .error (.registration error)
  | .ok request => readTwice first second current request room

def DistinctIds (s : SharedState) : Prop :=
  ∀ t ∈ s.live, ∀ u ∈ s.live, (s.tstates t).threadId = (s.tstates u).threadId → t = u

section reads
variable {p : Platform} {s s' first second : SharedState} {current t : Nat}
  {request : CoordinatesRequest} {room : ReadRoom} {m : Machine} {node : Nat} {words : List Nat}
  {before events : List SharedEvent} {outs outs' : List (Nat × Nat × DeltaResult)}

theorem startThread_threadId (address inherited threadId : Nat) :
    (startThread p address inherited threadId).tstate.threadId = threadId :=
  (setCurrentSpaceById_sameThread _ inherited true).threadId

theorem DistinctIds.step {e : SharedEvent} {out : List (Nat × Nat × DeltaResult)}
    (h : DistinctIds s) (hsound : s.Sound) (hstep : sharedStep p s e = some (s', out)) :
    DistinctIds s' := by
  obtain ⟨address, inherited, threadId, -, hfree, rfl, -⟩ |
    ⟨u, event, m, -, hu, -, hm, rfl, -⟩ | ⟨u, -, -, rfl, -⟩ := SharedState.sharedStep_cases hstep
  · have hold : ∀ v ∈ s.live, (s.add (startThread p address inherited threadId).tstate).tstates v =
        s.tstates v := fun v hv => SharedState.add_tstates_of_ne _ (hsound.ne_started hv)
    intro v hv w hw hid
    obtain rfl | hv := List.mem_cons.mp hv
    · obtain rfl | hw := List.mem_cons.mp hw
      · rfl
      · rw [SharedState.add_tstates_self, hold w hw, startThread_threadId] at hid
        exact absurd hid.symm (hfree w hw)
    · obtain rfl | hw := List.mem_cons.mp hw
      · rw [SharedState.add_tstates_self, hold v hv, startThread_threadId] at hid
        exact absurd hid (hfree v hv)
      · rw [hold v hv, hold w hw] at hid
        exact h v hv w hw hid
  · have hids : ∀ v, ((s.put u m).tstates v).threadId = (s.tstates v).threadId := by
      intro v
      by_cases hv : v = u
      · subst hv
        have hself : (s.put v m).tstates v = m.tstate := Function.update_self ..
        rw [hself]
        exact (threadStep_sameThread hm).threadId
      · have hother : (s.put u m).tstates v = s.tstates v := Function.update_of_ne hv _ _
        rw [hother]
    intro v hv w hw hid
    rw [hids, hids] at hid
    exact h v hv w hw hid
  · intro v hv w hw hid
    exact h v (List.mem_of_mem_filter hv) w (List.mem_of_mem_filter hw) hid

theorem sharedRun_distinctIds
    (hrun : StepRun.run (sharedStep p) events (SharedState.initial p) = some (s, outs)) :
    DistinctIds s := by
  have hkept : ∀ s e s' out, s.Sound ∧ DistinctIds s → sharedStep p s e = some (s', out) →
      s'.Sound ∧ DistinctIds s' :=
    fun s e s' out h hstep => ⟨SharedState.sharedStep_sound h.1 hstep, h.2.step h.1 hstep⟩
  exact (StepRun.run_invariant hkept
    ⟨SharedState.sound_initial p, fun _ ht => absurd ht List.not_mem_nil⟩ hrun).2

theorem findSharedThread_some {threadId : Nat} (h : findSharedThread s threadId = some t) :
    threadId ≠ 0 ∧ t ∈ s.live ∧ (s.tstates t).threadId = threadId := by
  unfold findSharedThread at h
  split at h
  · cases h
  · rename_i hne
    exact ⟨hne, List.mem_of_find?_eq_some h, by simpa using List.find?_some h⟩

theorem findSharedThread_eq (hids : DistinctIds s) (ht : t ∈ s.live)
    (hne : (s.tstates t).threadId ≠ 0) : findSharedThread s (s.tstates t).threadId = some t := by
  unfold findSharedThread
  rw [if_neg hne]
  cases hfind : s.live.find? (fun u => (s.tstates u).threadId = (s.tstates t).threadId) with
  | none => exact absurd (List.find?_eq_none.mp hfind t ht) (by simp)
  | some u =>
    have hu := List.mem_of_find?_eq_some hfind
    rw [hids u hu t ht (by simpa using List.find?_some hfind)]

theorem findTarget_live {thread : Option Nat} (hcurrent : current ∈ s.live)
    (htarget : findTarget s current thread = some t) : t ∈ s.live := by
  cases thread with
  | none =>
    cases htarget
    exact hcurrent
  | some threadId => exact (findSharedThread_some htarget).2.1

theorem locate_eq (htarget : findTarget s current request.thread = some t) :
    ∃ found, locate s current request = .ok found ∧
      (∀ m node, found = some (m, node) → m = s.thread t ∧
        findThreadSpace (s.tstates t) request.spaceId = some node) ∧
      ∀ drop, coordinates (s.thread t) request.spaceId drop = found.map (fun place =>
        (coordinatesOf place.1 (place.1.spacePtr place.2)
          (threadStateFrame place.1 place.2)).drop drop) := by
  unfold locate coordinates
  rw [htarget]
  have hsame : (s.thread t).tstate = s.tstates t := rfl
  dsimp only
  rw [hsame]
  cases hfind : findThreadSpace (s.tstates t) request.spaceId with
  | none => exact ⟨none, rfl, fun _ _ h => absurd h (by simp), fun _ => rfl⟩
  | some node =>
    dsimp only
    cases hseen : ((s.tstates t).space node).seen with
    | false => exact ⟨none, rfl, fun _ _ h => absurd h (by simp), fun _ => rfl⟩
    | true =>
      refine ⟨some (s.thread t, node), rfl, ?_, fun _ => rfl⟩
      intro m node' heq
      cases heq
      exact ⟨rfl, rfl⟩

theorem readCoordinates_same {count rootCallOrdinal drop : Nat} {tupleAllocates : Bool}
    (hcount : coordinateCount m (m.spacePtr node) (threadStateFrame m node) = count)
    (hroot : (m.tstate.space node).rootCallOrdinal = rootCallOrdinal) :
    readCoordinates (some (m, node)) drop count rootCallOrdinal
        (if count > drop then count - drop else 0) tupleAllocates =
      if tupleAllocates then
        .ok (some ((coordinatesOf m (m.spacePtr node) (threadStateFrame m node)).drop drop))
      else .error (.registration (.raised .memoryError)) := by
  have hlength : (coordinatesOf m (m.spacePtr node) (threadStateFrame m node)).length = count := by
    rw [coordinatesOf_eq, ← coordinateCount_eq, hcount]
  have hbuffer : (if count ≠ 0 then fillCoordinates m (m.spacePtr node) (threadStateFrame m node)
      count (List.replicate count 0) else []) =
      coordinatesOf m (m.spacePtr node) (threadStateFrame m node) := by
    by_cases hzero : count = 0
    · rw [if_neg (not_not.mpr hzero)]
      exact (List.length_eq_zero_iff.mp (hlength.trans hzero)).symm
    · rw [if_pos hzero, coordinatesOf, hcount]
  have hsize : ((coordinatesOf m (m.spacePtr node) (threadStateFrame m node)).drop drop).take
      (if count > drop then count - drop else 0) =
      (coordinatesOf m (m.spacePtr node) (threadStateFrame m node)).drop drop := by
    apply List.take_of_length_le
    rw [List.length_drop, hlength]
    split <;> omega
  unfold readCoordinates
  dsimp only
  rw [if_neg (not_not.mpr hcount), if_neg (not_not.mpr hroot), hbuffer, hsize]

theorem readCoordinates_ok {found : Option (Machine × Nat)}
    {count rootCallOrdinal drop : Nat} {tupleAllocates : Bool}
    (h : readCoordinates found drop count rootCallOrdinal
      (if count > drop then count - drop else 0) tupleAllocates = .ok (some words)) :
    ∃ m node, found = some (m, node) ∧
      words = (coordinatesOf m (m.spacePtr node) (threadStateFrame m node)).drop drop := by
  cases found with
  | none => cases h
  | some place =>
    obtain ⟨m, node⟩ := place
    refine ⟨m, node, rfl, ?_⟩
    by_cases hcount : coordinateCount m (m.spacePtr node) (threadStateFrame m node) = count
    · by_cases hroot : (m.tstate.space node).rootCallOrdinal = rootCallOrdinal
      · rw [readCoordinates_same hcount hroot] at h
        cases tupleAllocates with
        | false => cases h
        | true =>
          cases h
          rfl
      · unfold readCoordinates at h
        dsimp only at h
        rw [if_neg (not_not.mpr hcount), if_pos hroot] at h
        cases h
    · unfold readCoordinates at h
      dsimp only at h
      rw [if_pos hcount] at h
      cases h

theorem readTwice_ok
    (h : readTwice first second current request room = .ok (some words)) :
    ∃ t, findTarget second current request.thread = some t ∧
      coordinates (second.thread t) request.spaceId request.drop = some words := by
  unfold readTwice at h
  cases hfirst : locate first current request with
  | error error =>
    rw [hfirst] at h
    cases h
  | ok found =>
    rw [hfirst] at h
    cases found with
    | none => cases h
    | some place =>
      dsimp only at h
      split at h
      · cases h
      · cases htarget : findTarget second current request.thread with
        | none =>
          unfold locate at h
          rw [htarget] at h
          cases h
        | some t =>
          obtain ⟨found, hlocate, -, hcoordinates⟩ := locate_eq htarget
          rw [hlocate] at h
          obtain ⟨m, node, rfl, hwords⟩ := readCoordinates_ok h
          refine ⟨t, rfl, ?_⟩
          rw [hcoordinates, hwords]
          rfl

theorem readTwice_still
    (htarget : findTarget first current request.thread = some t)
    (htarget' : findTarget second current request.thread = some t)
    (htstate : second.tstates t = first.tstates t)
    (hsame : SamePositions p (first.thread t) (second.thread t)) :
    readTwice first second current request room =
        .ok (coordinates (first.thread t) request.spaceId request.drop) ∨
      (room.allocates = false ∨ room.tupleAllocates = false) ∧
        readTwice first second current request room =
          .error (.registration (.raised .memoryError)) := by
  obtain ⟨found, hfirst, hplace, hcoordinates⟩ := locate_eq htarget
  obtain ⟨found', hsecond, hplace', hcoordinates'⟩ := locate_eq htarget'
  have hfound : ∀ drop, found'.map (fun place => (coordinatesOf place.1
      (place.1.spacePtr place.2) (threadStateFrame place.1 place.2)).drop drop) =
      found.map (fun place => (coordinatesOf place.1 (place.1.spacePtr place.2)
        (threadStateFrame place.1 place.2)).drop drop) := by
    intro drop
    rw [← hcoordinates, ← hcoordinates', hsame.coordinates]
  unfold readTwice
  rw [hfirst]
  cases found with
  | none =>
    left
    rw [hcoordinates]
    rfl
  | some place =>
    obtain ⟨m, node⟩ := place
    cases found' with
    | none => exact absurd (hfound 0) (by simp)
    | some place' =>
      obtain ⟨m', node'⟩ := place'
      obtain ⟨hm, hnode⟩ := hplace m node rfl
      obtain ⟨hm', hnode'⟩ := hplace' m' node' rfl
      obtain rfl : node' = node := by
        rw [htstate, hnode] at hnode'
        exact (Option.some.inj hnode').symm
      have hroot : (m'.tstate.space node').rootCallOrdinal =
          (m.tstate.space node').rootCallOrdinal := by
        have hstate : m'.tstate = m.tstate := by
          rw [hm, hm']
          exact htstate
        rw [hstate]
      have hwords : coordinatesOf m' (m'.spacePtr node') (threadStateFrame m' node') =
          coordinatesOf m (m.spacePtr node') (threadStateFrame m node') :=
        Option.some.inj (hfound 0)
      have hcount : coordinateCount m' (m'.spacePtr node') (threadStateFrame m' node') =
          coordinateCount m (m.spacePtr node') (threadStateFrame m node') := by
        rw [coordinateCount_eq, coordinateCount_eq, ← coordinatesOf_eq, ← coordinatesOf_eq, hwords]
      dsimp only
      split
      · rename_i hroom
        right
        exact ⟨.inl (by simpa using hroom.2), rfl⟩
      · rw [hsecond, hcoordinates]
        dsimp only
        rw [readCoordinates_same hcount hroot, hwords]
        cases hallocates : room.tupleAllocates with
        | false => exact .inr ⟨.inr rfl, rfl⟩
        | true => exact .inl rfl

section runs
variable (hbefore : StepRun.run (sharedStep p) before (SharedState.initial p) = some (first, outs))
  (hrun : StepRun.run (sharedStep p) events first = some (second, outs'))
  (hcurrent : current ∈ first.live) (hwaits : ∀ e ∈ events, e.isOf current = false)
include hbefore hrun

theorem findTarget_still (ht : t ∈ first.live) (hstill : ∀ e ∈ events, e.isOf t = false)
    (htarget : findTarget first current request.thread = some t) :
    findTarget second current request.thread = some t := by
  obtain ⟨hlive, htstate, -⟩ := otherThreads_keep hbefore hrun ht hstill
  cases hid : request.thread with
  | none =>
    rw [hid] at htarget
    exact htarget
  | some threadId =>
    rw [hid] at htarget
    obtain ⟨hne, -, hthread⟩ := findSharedThread_some htarget
    rw [← hthread, ← htstate] at hne
    have hids := sharedRun_distinctIds (StepRun.run_append.mpr ⟨_, _, _, hbefore, hrun, rfl⟩)
    have hfound := findSharedThread_eq hids hlive hne
    rw [htstate, hthread] at hfound
    exact hfound

include hcurrent

theorem readTwice_quiet (htarget : findTarget first current request.thread = some t)
    (hstill : ∀ e ∈ events, e.isOf t = false) :
    readTwice first second current request room =
        .ok (coordinates (first.thread t) request.spaceId request.drop) ∨
      (room.allocates = false ∨ room.tupleAllocates = false) ∧
        readTwice first second current request room =
          .error (.registration (.raised .memoryError)) := by
  have hlive := findTarget_live hcurrent htarget
  obtain ⟨-, htstate, hsame⟩ := otherThreads_keep hbefore hrun hlive hstill
  exact readTwice_still htarget (findTarget_still hbefore hrun hlive hstill htarget) htstate hsame

include hwaits

/-- `coordinates`, called while other threads run, answers as at one moment. A target that takes no
step in between is read, and only one that takes a step makes the call fail. -/
theorem retraceCoordinates_oneMoment {args : List PyArg}
    (hparse : parseCoordinates args = .ok request) :
    (∀ words, retraceCoordinates first second current args room = .ok (some words) →
      ∃ t ∈ second.live, findTarget second current request.thread = some t ∧
        coordinates (second.thread t) request.spaceId request.drop = some words) ∧
    (∀ t, findTarget first current request.thread = some t → (∀ e ∈ events, e.isOf t = false) →
      room.allocates = true → room.tupleAllocates = true →
      retraceCoordinates first second current args room =
        .ok (coordinates (first.thread t) request.spaceId request.drop)) ∧
    (∀ message,
      retraceCoordinates first second current args room = .error (.runtimeError message) →
      ∃ t, findTarget first current request.thread = some t ∧ ∃ e ∈ events, e.isOf t = true) := by
  have hcall : retraceCoordinates first second current args room =
      readTwice first second current request room := by
    unfold retraceCoordinates
    rw [hparse]
  rw [hcall]
  refine ⟨?_, ?_, ?_⟩
  · intro words h
    obtain ⟨t, htarget, hwords⟩ := readTwice_ok h
    have hlive := (otherThreads_keep hbefore hrun hcurrent hwaits).1
    exact ⟨t, findTarget_live hlive htarget, htarget, hwords⟩
  · intro t htarget hstill hallocates htuple
    obtain h | ⟨hroom, -⟩ :=
      @readTwice_quiet _ _ _ _ _ _ room _ _ _ _ hbefore hrun hcurrent htarget hstill
    · exact h
    · rw [hallocates, htuple] at hroom
      exact absurd hroom (by decide)
  · intro message h
    cases htarget : findTarget first current request.thread with
    | none =>
      unfold readTwice locate at h
      rw [htarget] at h
      cases h
    | some t =>
      refine ⟨t, rfl, ?_⟩
      by_contra hnone
      have hstill : ∀ e ∈ events, e.isOf t = false :=
        fun e he => Bool.eq_false_iff.mpr (fun hof => hnone ⟨e, he, hof⟩)
      obtain hok | ⟨-, hmemory⟩ := readTwice_quiet hbefore hrun hcurrent htarget hstill
      · rw [hok] at h
        cases h
      · rw [hmemory] at h
        cases h

end runs

end reads

/-- A second thread reads the first, which is in a generator. -/
def readsOther : List SharedEvent := handsOver.take 6 ++ [
  .start 128 0 2, .run 1 (.call 1 0 true true), .run 1 (.begin [] 2)]

/-- A third thread runs between the two parts of the call. -/
def thirdRuns : List SharedEvent := [
  .start 192 0 3, .run 2 (.call 2 0 true true), .run 2 (.begin [] 7)]

theorem retraceCoordinates_oneMoment_thirdRuns : ∃ first outs second outs',
    StepRun.run (sharedStep ⟨true, true⟩) readsOther (SharedState.initial ⟨true, true⟩) =
      some (first, outs) ∧
    StepRun.run (sharedStep ⟨true, true⟩) thirdRuns first = some (second, outs') ∧
    coordinates (first.thread 0) 0 1 = some [0, 3, 0] ∧
    retraceCoordinates first second 1 [intArg 1, intArg 1] ⟨true, true⟩ =
      .ok (coordinates (first.thread 0) 0 1) := by
  obtain ⟨first, outs, hbefore⟩ : ∃ first outs, StepRun.run (sharedStep ⟨true, true⟩) readsOther
      (SharedState.initial ⟨true, true⟩) = some (first, outs) := ⟨_, _, rfl⟩
  obtain ⟨second, outs', hrun⟩ : ∃ second outs',
      StepRun.run (sharedStep ⟨true, true⟩) thirdRuns first = some (second, outs') := by
    cases hbefore
    exact ⟨_, _, rfl⟩
  have hcurrent : 1 ∈ first.live := by
    cases hbefore
    decide
  have htarget : findTarget first 1 (some 1) = some 0 := by
    cases hbefore
    rfl
  refine ⟨first, outs, second, outs', hbefore, hrun, ?_, ?_⟩
  · cases hbefore
    rfl
  · have hparse : parseCoordinates [intArg 1, intArg 1] = .ok ⟨some 1, 1, 0⟩ := rfl
    exact (retraceCoordinates_oneMoment hbefore hrun hcurrent (by decide) hparse).2.1 0 htarget
      (by decide) rfl rfl

-- The generator suspends in between.
example : ((StepRun.run (sharedStep ⟨true, true⟩) readsOther
    (SharedState.initial ⟨true, true⟩)).bind (fun first =>
      (StepRun.run (sharedStep ⟨true, true⟩) [.run 0 (.leave 0)] first.1).map (fun second =>
        retraceCoordinates first.1 second.1 1 [intArg 1, intArg 1] ⟨true, true⟩))) =
    some (.error (.runtimeError "thread frame stack changed")) := rfl

end Retrace
