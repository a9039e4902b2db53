import Retrace.ThreadIds

/-! Thread ids in two runs whose threads end at different times. -/

set_option autoImplicit false

namespace Retrace

def LifeEvent.ends : LifeEvent → Bool
  | .clear _ => true
  | .delete _ => true
  | _ => false

/-- The candidates that are refused before one is taken. -/
def refusedIds (p : Platform) (proc : Process) (skip spaceId : Nat) : Nat → Nat → Nat → Nat
  | 0, _, _ => 0
  | fuel + 1, threadId, retry =>
    if threadIdIsActive proc skip threadId then
      refusedIds p proc skip spaceId fuel (composeThreadId spaceId (mix64 p threadId retry))
        ((retry + 0x9e3779b97f4a7c15) % 2 ^ 64) + 1
    else 0

def refusals (p : Platform) (seed : List Nat) (lives : Lives) : LifeEvent → List Nat
  | .seedThread parent child choices =>
    let (hash, proc) := startSeed p seed lives.proc parent child choices.parentAllocates
    let spaceId := inheritedSpaceId lives.proc parent child
    [refusedIds p proc child spaceId choices.fuel (composeThreadId spaceId hash)
      0x9e3779b97f4a7c15]
  | _ => []

def runRefusals (p : Platform) (seed : List Nat) : List LifeEvent → Lives → List Nat
  | [], _ => []
  | event :: events, lives =>
    refusals p seed lives event ++
      match lifeStep p seed lives event with
      | none => []
      | some lives => runRefusals p seed events lives

/-- The threads that have not been cleared in either run are the same, and all ids are. -/
structure Alike (lives lives' : Lives) : Prop where
  inherited : lives'.inherited = lives.inherited
  threadId : ∀ i, lives'.threadId i = lives.threadId i
  thread : ∀ i, lives.cleared i = false → lives'.cleared i = false →
    lives'.proc.threads i = lives.proc.threads i

section alike
variable {p : Platform} {seed : List Nat} {lives lives' next next' : Lives}

theorem Alike.symm (h : Alike lives lives') : Alike lives' lives where
  inherited := h.inherited.symm
  threadId i := (h.threadId i).symm
  thread i hi hi' := (h.thread i hi' hi).symm

theorem Alike.ends (h : Alike lives lives') {event : LifeEvent} (hends : event.ends = true)
    (hstep : lifeStep p seed lives event = some next) : Alike next lives' := by
  cases event with
  | clear i =>
    simp only [lifeStep] at hstep
    split at hstep
    · simp only [Option.some.injEq] at hstep
      subst hstep
      refine ⟨h.inherited, ?_, ?_⟩
      · intro j
        exact (h.threadId j).trans (setThread_threadId lives i j ((lives.proc.threads i).setTstate
        (clearThreadState (lives.proc.threads i).tstate)) rfl).symm
      · intro j hj hj'
        have hji : j ≠ i := fun heq => by simp [heq] at hj
        simp only [Function.update_of_ne hji] at hj
        exact (h.thread j hj hj').trans ((setThread_threads _ _ _ _).trans (if_neg hji)).symm
    · exact absurd hstep (by simp)
  | delete i =>
    simp only [lifeStep] at hstep
    split at hstep
    · simp only [Option.some.injEq] at hstep
      subst hstep
      exact ⟨h.inherited, h.threadId, h.thread⟩
    · exact absurd hstep (by simp)
  | _ => simp [LifeEvent.ends] at hends

theorem uniqueThreadIdLoop_refused {proc proc' : Process} {skip spaceId fuel candidate retry id id' :
    Nat} (h : refusedIds p proc skip spaceId fuel candidate retry =
      refusedIds p proc' skip spaceId fuel candidate retry)
    (hid : uniqueThreadIdLoop p proc skip spaceId fuel candidate retry = some id)
    (hid' : uniqueThreadIdLoop p proc' skip spaceId fuel candidate retry = some id') :
    id = id' := by
  induction fuel generalizing candidate retry with
  | zero => simp [uniqueThreadIdLoop] at hid
  | succ fuel ih =>
    unfold refusedIds at h
    unfold uniqueThreadIdLoop at hid hid'
    cases hactive : threadIdIsActive proc skip candidate with
    | true =>
      cases hactive' : threadIdIsActive proc' skip candidate with
      | true =>
        simp only [hactive, hactive', if_true, Nat.add_right_cancel_iff] at h hid hid'
        exact ih h hid hid'
      | false => simp [hactive, hactive'] at h
    | false =>
      cases hactive' : threadIdIsActive proc' skip candidate with
      | true => simp [hactive, hactive'] at h
      | false =>
        simp only [hactive, hactive', Bool.false_eq_true, if_false, Option.some.injEq] at hid hid'
        exact hid.symm.trans hid'

theorem startSeed_alike {proc proc' : Process} {parent : Option Nat} {child : Nat}
    {allocates : Bool} (h : ∀ i, parent = some i → proc'.threads i = proc.threads i) :
    (startSeed p seed proc' parent child allocates).1 =
        (startSeed p seed proc parent child allocates).1 ∧
      ∀ i, proc'.threads i = proc.threads i →
        (startSeed p seed proc' parent child allocates).2.threads i =
          (startSeed p seed proc parent child allocates).2.threads i := by
  unfold startSeed
  by_cases hself : parent = some child
  · simp only [if_pos hself]
    exact ⟨rfl, fun i hi => hi⟩
  · simp only [if_neg hself]
    cases parent with
    | none => exact ⟨rfl, fun i hi => hi⟩
    | some j =>
      simp only [Option.map_some, h j rfl, true_and]
      intro i hi
      split
      · rw [setThread_threads, setThread_threads, hi]
      · exact hi

theorem inheritedSpaceId_alike {proc proc' : Process} {parent : Option Nat} {child : Nat}
    (h : ∀ i, parent = some i → proc'.threads i = proc.threads i) :
    inheritedSpaceId proc' parent child = inheritedSpaceId proc parent child := by
  unfold inheritedSpaceId
  by_cases hself : parent = some child
  · simp only [if_pos hself]
  · simp only [if_neg hself]
    cases parent with
    | none => rfl
    | some j => simp only [h j rfl]

theorem Alike.seedThread (h : Alike lives lives') {parent : Option Nat} {child : Nat}
    {choices : StartChoices}
    (hrefusals : refusals p seed lives' (.seedThread parent child choices) =
      refusals p seed lives (.seedThread parent child choices))
    (hstep : lifeStep p seed lives (.seedThread parent child choices) = some next)
    (hstep' : lifeStep p seed lives' (.seedThread parent child choices) = some next') :
    Alike next next' := by
  simp only [lifeStep] at hstep hstep'
  split at hstep
  · next hchild =>
    split at hstep'
    · next hchild' =>
      obtain ⟨proc, hseed, rfl⟩ := Option.map_eq_some_iff.mp hstep
      obtain ⟨proc', hseed', rfl⟩ := Option.map_eq_some_iff.mp hstep'
      have hparent : ∀ i, parent = some i → lives'.proc.threads i = lives.proc.threads i :=
        fun i hi => h.thread i (hchild.2.2.2 i hi).2 (hchild'.2.2.2 i hi).2
      have hsame := h.thread child hchild.2.2.1 hchild'.2.2.1
      obtain ⟨hhash, hthreads⟩ := @startSeed_alike p seed _ _ parent child choices.parentAllocates
        hparent
      have hspace := @inheritedSpaceId_alike _ _ parent child hparent
      rw [seedThreadState_eq] at hseed hseed'
      obtain ⟨id, hid, rfl⟩ := Option.map_eq_some_iff.mp hseed
      obtain ⟨id', hid', rfl⟩ := Option.map_eq_some_iff.mp hseed'
      simp only [refusals, hhash, hspace, List.cons.injEq, and_true] at hrefusals
      rw [hhash, hspace] at hid'
      have heq : id' = id := uniqueThreadIdLoop_refused hrefusals hid' hid
      subst heq
      have hadopt : ∀ i, lives'.proc.threads i = lives.proc.threads i →
          (adoptThread p (startSeed p seed lives'.proc parent child choices.parentAllocates).2 child
            (inheritedSpaceId lives'.proc parent child) id' choices.childAllocates).threads i =
          (adoptThread p (startSeed p seed lives.proc parent child choices.parentAllocates).2 child
            (inheritedSpaceId lives.proc parent child) id' choices.childAllocates).threads i := by
        intro i hi
        by_cases hic : i = child
        · subst hic
          simp only [adoptThread, setThread_threads, if_true, hthreads i hi, hspace]
        · rw [adoptThread_threads _ _ _ _ _ _ hic, adoptThread_threads _ _ _ _ _ _ hic]
          exact hthreads i hi
      refine ⟨?_, ?_, fun i hi hi' => hadopt i (h.thread i hi hi')⟩
      · simp only [h.inherited, hspace]
      · intro i
        by_cases hic : i = child
        · subst hic
          exact congrArg (fun m : Machine => m.tstate.threadId) (hadopt i hsame)
        · unfold Lives.threadId
          simp only [adoptThread_threads _ _ _ _ _ _ hic,
            (startSeed_threads choices.parentAllocates i).2.threadId]
          exact h.threadId i
    · exact absurd hstep' (by simp)
  · exact absurd hstep (by simp)

theorem Alike.setThread (h : Alike lives lives') (i : Nat) {m m' : Machine} (hm : m' = m) :
    Alike (lives.setThread i m) (lives'.setThread i m') := by
  subst hm
  refine ⟨h.inherited, ?_, ?_⟩
  · intro j
    unfold Lives.threadId Lives.setThread
    simp only [setThread_threads]
    split
    · rfl
    · exact h.threadId j
  · intro j hj hj'
    unfold Lives.setThread
    simp only [setThread_threads]
    split
    · rfl
    · exact h.thread j hj hj'

theorem Alike.step (h : Alike lives lives') {event : LifeEvent} (hends : event.ends = false)
    (hrefusals : refusals p seed lives' event = refusals p seed lives event)
    (hstep : lifeStep p seed lives event = some next)
    (hstep' : lifeStep p seed lives' event = some next') : Alike next next' := by
  cases event with
  | initializeThread i =>
    simp only [lifeStep] at hstep hstep'
    split at hstep
    · exact absurd hstep (by simp)
    · split at hstep'
      · exact absurd hstep' (by simp)
      · simp only [Option.some.injEq] at hstep hstep'
        subst hstep hstep'
        have hset := h.setThread i (show freshMachine p i = freshMachine p i from rfl)
        refine ⟨?_, hset.threadId, ?_⟩
        · simp only [h.inherited]
        · intro j hj hj'
          by_cases hji : j = i
          · subst hji
            simp only [setThread_threads, if_true]
          · simp only [Function.update_of_ne hji] at hj hj'
            exact hset.thread j hj hj'
  | seedThread parent child choices => exact h.seedThread hrefusals hstep hstep'
  | run i event =>
    simp only [lifeStep] at hstep hstep'
    split at hstep
    · next hrunning =>
      split at hstep'
      · next hrunning' =>
        obtain ⟨m, hm, rfl⟩ := Option.map_eq_some_iff.mp hstep
        obtain ⟨m', hm', rfl⟩ := Option.map_eq_some_iff.mp hstep'
        rw [h.thread i (running_spec hrunning).2.2 (running_spec hrunning').2.2, hm] at hm'
        exact h.setThread i (Option.some.inj hm').symm
      · exact absurd hstep' (by simp)
    · exact absurd hstep (by simp)
  | handOver i j g =>
    simp only [lifeStep] at hstep hstep'
    split at hstep
    · next hrunning =>
      split at hstep'
      · next hrunning' =>
        simp only [Option.some.injEq] at hstep hstep'
        subst hstep hstep'
        refine h.setThread j ?_
        rw [h.thread i (running_spec hrunning.1).2.2 (running_spec hrunning'.1).2.2,
          h.thread j (running_spec hrunning.2.1).2.2 (running_spec hrunning'.2.1).2.2]
      · exact absurd hstep' (by simp)
    · exact absurd hstep (by simp)
  | clear i => simp [LifeEvent.ends] at hends
  | delete i => simp [LifeEvent.ends] at hends

theorem refusals_ends {event : LifeEvent} (hends : event.ends = true) :
    refusals p seed lives event = [] := by
  cases event with
  | clear i => rfl
  | delete i => rfl
  | _ => simp [LifeEvent.ends] at hends

theorem refusals_length (lives lives' : Lives) (event : LifeEvent) :
    (refusals p seed lives event).length = (refusals p seed lives' event).length := by
  cases event <;> rfl

theorem runRefusals_cons {event : LifeEvent} {events : List LifeEvent}
    (hstep : lifeStep p seed lives event = some next) :
    runRefusals p seed (event :: events) lives =
      refusals p seed lives event ++ runRefusals p seed events next := by
  simp only [runRefusals, hstep]

theorem Alike.run {events events' : List LifeEvent} (h : Alike lives lives')
    (hrun : lifeRun p seed events lives = some next)
    (hrun' : lifeRun p seed events' lives' = some next')
    (hsame : events'.filter (fun event => !event.ends) = events.filter (fun event => !event.ends))
    (hrefusals : runRefusals p seed events' lives' = runRefusals p seed events lives) :
    Alike next next' := by
  induction hn : events.length + events'.length using Nat.strongRecOn
    generalizing events events' lives lives' with
  | ind n ih =>
    have hleft : ∀ event rest, events = event :: rest → event.ends = true → Alike next next' := by
      intro event rest heq hends
      subst heq
      obtain ⟨between, hstep, hrest⟩ := Option.bind_eq_some_iff.mp hrun
      rw [runRefusals_cons hstep, refusals_ends hends, List.nil_append] at hrefusals
      simp only [List.filter_cons, hends, Bool.not_true, Bool.false_eq_true, if_false] at hsame
      simp only [List.length_cons] at hn
      exact ih _ (by omega) (h.ends hends hstep) hrest hrun' hsame hrefusals rfl
    have hright : ∀ event rest, events' = event :: rest → event.ends = true → Alike next next' := by
      intro event rest heq hends
      subst heq
      obtain ⟨between, hstep, hrest⟩ := Option.bind_eq_some_iff.mp hrun'
      rw [runRefusals_cons hstep, refusals_ends hends, List.nil_append] at hrefusals
      simp only [List.filter_cons, hends, Bool.not_true, Bool.false_eq_true, if_false] at hsame
      simp only [List.length_cons] at hn
      exact ih _ (by omega) (h.symm.ends hends hstep).symm hrun hrest hsame hrefusals rfl
    cases events with
    | nil =>
      cases events' with
      | nil =>
        cases hrun
        cases hrun'
        exact h
      | cons event' rest' =>
        cases hends' : event'.ends with
        | true => exact hright event' rest' rfl hends'
        | false => simp [hends'] at hsame
    | cons event rest =>
      cases hends : event.ends with
      | true => exact hleft event rest rfl hends
      | false =>
        cases events' with
        | nil => simp [hends] at hsame
        | cons event' rest' =>
          cases hends' : event'.ends with
          | true => exact hright event' rest' rfl hends'
          | false =>
            simp only [List.filter_cons, hends, hends', Bool.not_false, if_true,
              List.cons.injEq] at hsame
            obtain ⟨rfl, hsame⟩ := hsame
            obtain ⟨between, hstep, hrest⟩ := Option.bind_eq_some_iff.mp hrun
            obtain ⟨between', hstep', hrest'⟩ := Option.bind_eq_some_iff.mp hrun'
            rw [runRefusals_cons hstep, runRefusals_cons hstep'] at hrefusals
            obtain ⟨hhead, htail⟩ := List.append_inj hrefusals (refusals_length _ _ _)
            simp only [List.length_cons] at hn
            exact ih _ (by omega) (h.step hends hhead hstep hstep') hrest hrest' hsame htail rfl

/-- Two runs that differ in when threads end give corresponding threads the same id, if each
seeding refuses as many candidates in the one as in the other. -/
theorem threadIds_schedule {events events' : List LifeEvent}
    (hrun : lifeRun p seed events (noThreads p) = some lives)
    (hrun' : lifeRun p seed events' (noThreads p) = some lives')
    (hsame : events'.filter (fun event => !event.ends) = events.filter (fun event => !event.ends))
    (hrefusals : runRefusals p seed events' (noThreads p) =
      runRefusals p seed events (noThreads p)) (i : Nat) :
    lives'.inherited i = lives.inherited i ∧ lives'.threadId i = lives.threadId i := by
  have hstart : Alike (noThreads p) (noThreads p) := ⟨rfl, fun _ => rfl, fun _ _ _ => rfl⟩
  have halike := hstart.run hrun hrun' hsame hrefusals
  exact ⟨congrFun halike.inherited i, halike.threadId i⟩

end alike

def firstStart : List LifeEvent := [
  .initializeThread 0, .seedThread none 0 ⟨1, true, true⟩,
  .run 0 (.call 0 0 true true), .run 0 (.begin [] 2),
  .initializeThread 1, .seedThread (some 0) 1 ⟨1, true, true⟩]

def startAfter : List LifeEvent := [
  .run 0 (.begin [] 4), .initializeThread 2, .seedThread (some 0) 2 ⟨1, true, true⟩]

def secondEnds : List LifeEvent := [.clear 1, .delete 1]

/-- The same instruction, a call of a builtin that calls the starter twice, starts another. -/
def startAgain : List LifeEvent := [
  .initializeThread 2, .seedThread (some 0) 2 ⟨2, true, true⟩]

theorem threadIds_schedule_after :
    ∃ lives lives', lifeRun ⟨true, true⟩ defaultRootSeed
        (firstStart ++ startAfter) (noThreads ⟨true, true⟩) = some lives ∧
      lifeRun ⟨true, true⟩ defaultRootSeed
        (firstStart ++ secondEnds ++ startAfter) (noThreads ⟨true, true⟩) =
          some lives' ∧
      lives'.threadId 2 = lives.threadId 2 := by
  obtain ⟨lives, lives', hrun, hrun'⟩ : ∃ lives lives',
      lifeRun ⟨true, true⟩ defaultRootSeed (firstStart ++ startAfter)
        (noThreads ⟨true, true⟩) = some lives ∧
      lifeRun ⟨true, true⟩ defaultRootSeed (firstStart ++ secondEnds ++ startAfter)
        (noThreads ⟨true, true⟩) = some lives' := ⟨_, _, rfl, rfl⟩
  exact ⟨lives, lives', hrun, hrun',
    (threadIds_schedule hrun hrun' (by decide) (by decide +kernel) 2).2⟩

/-- The third thread gets the id of the second if that has ended, and another if it has not. -/
theorem threadIds_depend_on_schedule :
    ∃ lives lives', lifeRun ⟨true, true⟩ defaultRootSeed
        (firstStart ++ startAgain) (noThreads ⟨true, true⟩) = some lives ∧
      lifeRun ⟨true, true⟩ defaultRootSeed (firstStart ++ secondEnds ++ startAgain)
        (noThreads ⟨true, true⟩) = some lives' ∧
      (firstStart ++ secondEnds ++ startAgain).filter (fun event => !event.ends) =
        (firstStart ++ startAgain).filter (fun event => !event.ends) ∧
      lives'.threadId 2 ≠ lives.threadId 2 :=
  ⟨_, _, rfl, rfl, by decide, by decide +kernel⟩

end Retrace
