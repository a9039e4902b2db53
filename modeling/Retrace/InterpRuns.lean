import Retrace.BoundaryEffects
import Retrace.CallAtChecks
import Retrace.Callbacks

/-! Runs of an interpreter: what every state has, and the run of each thread inside. -/

set_option autoImplicit false

namespace Retrace

/-- A target is armed, and the running frame is visible. -/
def Polls (interp : Interp) (i : Nat) : Prop :=
  (interp.callAt.isSome = true ∨ interp.callAtExtraArmed = true) ∧
    (topSpaceId (interp.threads i)).isSome = true

/-- What a boundary outside callbacks can do behind the start of its instruction. -/
inductive Checking (p : Platform) (interp : Interp) (i : Nat) (choices : BoundaryChoices) :
    Interp → List Output → Prop
  | unchecked {interp' : Interp} {out : List Output} (quiet : ¬Polls interp i)
      (switching : Switching p interp i choices interp' out) :
      Checking p interp i choices interp' out
  | passed {mid interp' : Interp} {out : List Output} (polls : Polls interp i)
      (check : checkCallAt interp i choices.compareAllocates = (mid, none))
      (switching : Switching p mid i choices interp' out) :
      Checking p interp i choices interp' out
  | enterFails {mid : Interp} {d : Delivery} {m : Machine} (polls : Polls interp i)
      (check : checkCallAt interp i choices.compareAllocates = (mid, some d))
      (step : threadStep p (mid.threads i)
        (.callbackBegin choices.scope choices.enterAllocates) = some m)
      (inactive : m.tstate.threadCallbackActive = false) :
      Checking p interp i choices (mid.setThread i m) [callbackRan i choices]
  | called {mid : Interp} {d : Delivery} {m : Machine} (polls : Polls interp i)
      (check : checkCallAt interp i choices.compareAllocates = (mid, some d))
      (step : threadStep p (mid.threads i)
        (.callbackBegin choices.scope choices.enterAllocates) = some m)
      (active : m.tstate.threadCallbackActive = true) :
      Checking p interp i choices ((mid.setThread i m).setPending i (some .afterCallAt))
        [callbackRan i choices, .callAt i d]

/-- What a returning callback can do behind its own end. -/
inductive Returning (p : Platform) (interp : Interp) (i : Nat) (raised : Bool)
    (choices : BoundaryChoices) : Pending → Interp → List Output → Prop
  | afterSwitch : Returning p interp i raised choices .afterSwitch (interp.setLast i) []
  | raised (failed : raised = true) : Returning p interp i raised choices .afterCallAt interp []
  | afterCallAt {interp' : Interp} {out : List Output} (returned : raised = false)
      (switching : Switching p interp i choices interp' out) :
      Returning p interp i raised choices .afterCallAt interp' out

inductive Stepping (p : Platform) (interp : Interp) : InterpEvent → Interp → List Output → Prop
  | run {i : Nat} {event : ThreadEvent} {m : Machine} (live : i ∈ interp.live)
      (program : event.ofProgram = true) (step : threadStep p (interp.threads i) event = some m) :
      Stepping p interp (.run i event) (interp.setThread i m) [.ran i event]
  | inside {i offset : Nat} {jumps : List (Int × Int)} {choices : BoundaryChoices} {m : Machine}
      (live : i ∈ interp.live)
      (step : threadStep p (interp.threads i) (.begin jumps offset) = some m)
      (active : m.tstate.threadCallbackActive = true) :
      Stepping p interp (.boundary i jumps offset choices) (interp.setThread i m)
        [.ran i (.begin jumps offset)]
  | boundary {i offset : Nat} {jumps : List (Int × Int)} {choices : BoundaryChoices} {m : Machine}
      {interp' : Interp} {rest : List Output} (live : i ∈ interp.live)
      (step : threadStep p (interp.threads i) (.begin jumps offset) = some m)
      (inactive : m.tstate.threadCallbackActive = false)
      (checking : Checking p (interp.setThread i m) i choices interp' rest) :
      Stepping p interp (.boundary i jumps offset choices) interp'
        (.ran i (.begin jumps offset) :: rest)
  | returns {i : Nat} {raised : Bool} {choices : BoundaryChoices} {pending : Pending} {m : Machine}
      {interp' : Interp} {rest : List Output} (live : i ∈ interp.live)
      (pended : interp.pending i = some pending)
      (step : threadStep p (interp.threads i) .callbackEnd = some m)
      (returning : Returning p ((interp.setThread i m).setPending i none) i raised choices pending
        interp' rest) :
      Stepping p interp (.callbackReturns i raised choices) interp' (.ran i .callbackEnd :: rest)
  | callAt {request : CallAtRequest} :
      Stepping p interp (.callAt request) (callAt interp request).2 []
  | clearCallAt {spaceId : Nat} :
      Stepping p interp (.clearCallAt spaceId) (clearCallAt interp spaceId) []
  | setThreadSwitchCallback {i spaceId : Nat} {callback : Option Nat} {allocates : Bool}
      (live : i ∈ interp.live) :
      Stepping p interp (.setThreadSwitchCallback i callback spaceId allocates)
        (setThreadSwitchCallback interp i callback spaceId allocates).2 []
  | clearThread {i : Nat} (live : i ∈ interp.live) :
      Stepping p interp (.clearThread i) (clearThread clearThreadState interp i) []

def ranBy (i : Nat) (out : List Output) : List ThreadEvent :=
  out.filterMap (fun output => match output with
    | .ran j event => if j = i then some event else none
    | _ => none)

/-- The threads went on by the events that the outputs show. -/
def Ran (p : Platform) (interp interp' : Interp) (out : List Output) : Prop :=
  ∀ j, threadRun p (ranBy j out) (interp.threads j) = some (interp'.threads j)

/-- What every state of a run of an interpreter has. -/
structure Sound (interp : Interp) : Prop where
  tidy : Tidy interp
  distinct : interp.live.Nodup
  standing : ∀ i ∈ interp.live, ∃ l, Standing (interp.threads i) l
  pinned : ∀ i ∈ interp.live, Pinned (interp.threads i).tstate
  synced : ∀ i ∈ interp.live,
    (interp.pending i).isSome = (interp.threads i).tstate.threadCallbackActive
  cursors : ∀ spaceId callback v, switchAt interp spaceId = some (callback, some v) →
    v ∈ interp.live

/-- An interpreter whose threads have not run yet, without callbacks. -/
structure Unused (interp : Interp) : Prop where
  distinct : interp.live.Nodup
  idle : ∀ i ∈ interp.live, Idle (interp.threads i)
  last : interp.lastBytecodeThread = none
  callAt : interp.callAt = none
  callAtArmed : interp.callAtExtraArmed = false
  switchArmed : interp.threadSwitchArmed = false
  entries : interp.spaceCallbacks = []
  pending : ∀ i, interp.pending i = none

theorem Unused.sound {interp : Interp} (h : Unused interp) : Sound interp := by
  refine ⟨⟨?_, ?_, ?_, ?_⟩, h.distinct, ?_, ?_, ?_, ?_⟩
  · rw [h.entries]
    exact List.nodup_nil
  · intro entry hmem
    rw [h.entries] at hmem
    cases hmem
  · rw [h.entries]
    exact h.callAtArmed
  · rw [h.entries]
    exact h.switchArmed
  · intro i hi
    exact ⟨_, (h.idle i hi).standing⟩
  · intro i hi
    exact (h.idle i hi).pinned
  · intro i hi
    rw [h.pending, (h.idle i hi).callback]
    rfl
  · intro spaceId callback v hv
    unfold switchAt findSpaceCallbackState at hv
    rw [h.entries] at hv
    cases hv

/-- Fresh threads with ids from 1 on. -/
def freshInterp (p : Platform) (live : List Nat) : Interp where
  threads i := (freshMachine p i).setTstate { (freshMachine p i).tstate with threadId := i + 1 }
  live := live
  lastBytecodeThread := none
  threadSwitchArmed := false
  callAt := none
  callAtExtraArmed := false
  spaceCallbacks := []
  pending _ := none
  armings := 0

def roomyChoices (scope : Nat) : BoundaryChoices where
  compareAllocates _ := true
  scope := scope
  enterAllocates := true
  deltaAllocates := true
  tupleAllocates := true
  identAllocates := true

theorem freshInterp_unused (p : Platform) {live : List Nat} (h : live.Nodup) :
    Unused (freshInterp p live) := by
  refine ⟨h, ?_, rfl, rfl, rfl, rfl, rfl, fun _ => rfl⟩
  intro i _
  have hidle := freshMachine_idle p i
  exact ⟨hidle.circle.congr rfl rfl (fun _ _ => ⟨rfl, rfl⟩), hidle.stack, hidle.ptr, hidle.current,
    hidle.id, hidle.inactive, hidle.depth, hidle.ordinal, hidle.callback⟩

section steps
variable {p : Platform} {interp interp' mid : Interp} {i : Nat} {choices : BoundaryChoices}
  {out : List Output}

theorem checkBoundary_checking (hidle : interp.idle i = true)
    (h : checkBoundary p interp i choices = some (interp', out)) :
    Checking p interp i choices interp' out := by
  unfold checkBoundary at h
  by_cases hpolls : Polls interp i
  · rw [if_pos (by exact hpolls)] at h
    cases hcheck : checkCallAt interp i choices.compareAllocates with
    | mk mid delivery =>
      rw [hcheck] at h
      have hsame := checkCallAt_threads hcheck
      cases delivery with
      | none =>
        have hidle' : mid.idle i = true := by
          unfold Interp.idle
          rw [hsame.pending]
          exact hidle
        exact .passed hpolls hcheck (checkThreadSwitch_switching hidle' h)
      | some d =>
        obtain ⟨m, hstep, ⟨hinactive, rfl, rfl⟩ | ⟨hactive, rfl, rfl⟩⟩ := startCallback_spec h
        · exact .enterFails hpolls hcheck hstep hinactive
        · exact .called hpolls hcheck hstep hactive
  · rw [if_neg (by exact hpolls)] at h
    exact .unchecked hpolls (checkThreadSwitch_switching hidle h)

theorem beginInstruction_spec {jumps : List (Int × Int)} {offset : Nat}
    (hidle : ∀ m, threadStep p (interp.threads i) (.begin jumps offset) = some m →
      m.tstate.threadCallbackActive = false → interp.idle i = true)
    (h : beginInstruction p interp i jumps offset choices = some (interp', out)) :
    ∃ m rest, threadStep p (interp.threads i) (.begin jumps offset) = some m ∧
      out = .ran i (.begin jumps offset) :: rest ∧
      ((m.tstate.threadCallbackActive = true ∧ interp' = interp.setThread i m ∧ rest = []) ∨
        m.tstate.threadCallbackActive = false ∧
          Checking p (interp.setThread i m) i choices interp' rest) := by
  unfold beginInstruction at h
  cases hstep : threadStep p (interp.threads i) (.begin jumps offset) with
  | none =>
    rw [hstep] at h
    cases h
  | some m =>
    rw [hstep] at h
    dsimp only at h
    rw [Option.map_eq_some_iff] at h
    obtain ⟨⟨final, rest⟩, hrest, heq⟩ := h
    cases heq
    refine ⟨m, rest, rfl, rfl, ?_⟩
    cases hactive : m.tstate.threadCallbackActive with
    | true =>
      rw [hactive] at hrest
      cases hrest
      exact Or.inl ⟨rfl, rfl, rfl⟩
    | false =>
      rw [hactive] at hrest
      exact Or.inr ⟨rfl, checkBoundary_checking (hidle m hstep hactive) hrest⟩

theorem endCallback_spec {raised : Bool}
    (h : endCallback p interp i raised choices = some (interp', out)) :
    ∃ pending m rest, interp.pending i = some pending ∧
      threadStep p (interp.threads i) .callbackEnd = some m ∧
      out = .ran i .callbackEnd :: rest ∧
      Returning p ((interp.setThread i m).setPending i none) i raised choices pending interp'
        rest := by
  unfold endCallback at h
  split at h
  · rename_i pending m hpending hstep
    dsimp only at h
    rw [Option.map_eq_some_iff] at h
    obtain ⟨⟨final, rest⟩, hrest, heq⟩ := h
    cases heq
    refine ⟨pending, m, rest, hpending, hstep, rfl, ?_⟩
    cases pending with
    | afterSwitch =>
      cases hrest
      exact .afterSwitch
    | afterCallAt =>
      dsimp only at hrest
      cases raised with
      | true =>
        cases hrest
        exact .raised rfl
      | false =>
        refine .afterCallAt rfl (checkThreadSwitch_switching ?_ hrest)
        simp [Interp.idle, Interp.setPending]
  · cases h

theorem ranBy_append (j : Nat) (first second : List Output) :
    ranBy j (first ++ second) = ranBy j first ++ ranBy j second :=
  List.filterMap_append

theorem ranBy_ran (i j : Nat) (event : ThreadEvent) (rest : List Output) :
    ranBy j (.ran i event :: rest) = if i = j then event :: ranBy j rest else ranBy j rest := by
  unfold ranBy
  rw [List.filterMap_cons]
  by_cases h : i = j <;> simp [h]

theorem Ran.same (h : interp'.threads = interp.threads) (hout : ∀ j, ranBy j out = []) :
    Ran p interp interp' out := by
  intro j
  rw [hout, h]
  rfl

theorem Ran.trans {more : List Output} (h : Ran p interp mid out) (h' : Ran p mid interp' more) :
    Ran p interp interp' (out ++ more) := by
  intro j
  rw [ranBy_append, threadRun_join _ (h j)]
  exact h' j

theorem Ran.step {event : ThreadEvent} {m : Machine}
    (hstep : threadStep p (interp.threads i) event = some m) :
    Ran p interp (interp.setThread i m) [.ran i event] := by
  intro j
  rw [ranBy_ran]
  by_cases hij : i = j
  · subst hij
    rw [if_pos rfl, setThread_self, threadRun_cons, hstep]
    rfl
  · rw [if_neg hij, setThread_of_ne _ _ (Ne.symm hij)]
    rfl

theorem Switching.ran (h : Switching p interp i choices interp' out) :
    Ran p interp interp' out := by
  have htaken : ∀ v spaceId, Ran p interp (takeDelta interp v spaceId choices)
      [deltaRan v spaceId choices] := fun v spaceId => Ran.step rfl
  have hbegun : ∀ {v spaceId m}, v ≠ i → threadStep p (interp.threads i)
      (.callbackBegin choices.scope choices.enterAllocates) = some m →
      Ran p interp (((takeDelta interp v spaceId choices).setCursor spaceId i).setThread i m)
        [deltaRan v spaceId choices, callbackRan i choices] := by
    intro v spaceId m hne hstep
    change Ran p interp _ ([_] ++ [_])
    refine (htaken v spaceId).trans (Ran.step ?_)
    exact (congrArg (fun m => threadStep p m _) (setThread_of_ne interp _ (Ne.symm hne))).trans hstep
  cases h with
  | same last => exact Ran.same rfl (fun _ => rfl)
  | quiet last none => exact Ran.same rfl (fun _ => rfl)
  | first switches cursor => exact Ran.same rfl (fun _ => rfl)
  | own switches cursor => exact Ran.same rfl (fun _ => rfl)
  | error switches cursor other result => exact htaken _ _
  | gone switches cursor other result => exact htaken _ _
  | identFails switches cursor other result fails => exact htaken _ _
  | enterFails switches cursor other result step inactive => exact hbegun other step
  | called switches cursor other result step active =>
    change Ran p interp _ ([_, _] ++ [_])
    exact (hbegun other step).trans (Ran.same rfl (fun _ => rfl))

theorem Checking.ran (h : Checking p interp i choices interp' out) :
    Ran p interp interp' out := by
  cases h with
  | unchecked quiet switching => exact switching.ran
  | passed polls check switching =>
    intro j
    rw [← (checkCallAt_threads check).threads]
    exact switching.ran j
  | enterFails polls check step inactive =>
    intro j
    rw [← (checkCallAt_threads check).threads]
    exact Ran.step step j
  | called polls check step active =>
    rename_i mid d m
    intro j
    rw [← (checkCallAt_threads check).threads]
    have hboth : Ran p mid ((mid.setThread i m).setPending i (some .afterCallAt))
        ([callbackRan i choices] ++ [.callAt i d]) :=
      (Ran.step step).trans (Ran.same rfl (fun _ => rfl))
    exact hboth j

theorem Returning.ran {raised : Bool} {pending : Pending}
    (h : Returning p interp i raised choices pending interp' out) : Ran p interp interp' out := by
  cases h with
  | afterSwitch => exact Ran.same rfl (fun _ => rfl)
  | raised failed => exact Ran.same rfl (fun _ => rfl)
  | afterCallAt returned switching => exact switching.ran

theorem Sound.idle (h : Sound interp) (hlive : i ∈ interp.live)
    (hinactive : (interp.threads i).tstate.threadCallbackActive = false) :
    interp.idle i = true := by
  have hsynced := h.synced i hlive
  rw [hinactive] at hsynced
  unfold Interp.idle
  rw [Option.isNone_iff_eq_none]
  exact Option.not_isSome_iff_eq_none.mp (by simp [hsynced])

theorem Sound.thread (h : Sound interp) (hlive : i ∈ interp.live) {event : ThreadEvent}
    {m : Machine} (hstep : threadStep p (interp.threads i) event = some m)
    {pending : Option Pending} (hsynced : pending.isSome = m.tstate.threadCallbackActive) :
    Sound ((interp.setThread i m).setPending i pending) := by
  obtain ⟨l, hstanding⟩ := h.standing i hlive
  obtain ⟨hnext, heffect⟩ := hstanding.step hstep
  have hsame : ∀ j, j ≠ i →
      ((interp.setThread i m).setPending i pending).threads j = interp.threads j :=
    fun j hj => setThread_of_ne interp m hj
  have hself : ((interp.setThread i m).setPending i pending).threads i = m :=
    setThread_self interp i m
  refine ⟨⟨h.tidy.distinct, h.tidy.root, h.tidy.callAtArmed, h.tidy.switchArmed⟩, h.distinct,
    ?_, ?_, ?_, h.cursors⟩
  · intro j hj
    by_cases hji : j = i
    · rw [hji, hself]
      exact ⟨_, hnext⟩
    · rw [hsame j hji]
      exact h.standing j hj
  · intro j hj
    by_cases hji : j = i
    · rw [hji, hself]
      exact (h.pinned i hlive).step heffect
    · rw [hsame j hji]
      exact h.pinned j hj
  · intro j hj
    by_cases hji : j = i
    · rw [hji, hself]
      simpa [Interp.setPending] using hsynced
    · rw [hsame j hji]
      change (Function.update interp.pending i pending j).isSome = _
      rw [Function.update_of_ne hji]
      exact h.synced j hj

theorem setPending_same (interp : Interp) (i : Nat) :
    interp.setPending i (interp.pending i) = interp := by
  unfold Interp.setPending
  rw [Function.update_eq_self]

theorem Sound.ran (h : Sound interp) (hlive : i ∈ interp.live) {event : ThreadEvent}
    {m : Machine} (hstep : threadStep p (interp.threads i) event = some m)
    (hbegin : ∀ k allocates, event ≠ .callbackBegin k allocates) (hend : event ≠ .callbackEnd) :
    Sound (interp.setThread i m) := by
  obtain ⟨l, hstanding⟩ := h.standing i hlive
  obtain ⟨-, heffect⟩ := hstanding.step hstep
  have hactive := (heffect.callbackState hbegin hend).1
  have hsound := h.thread hlive hstep ((h.synced i hlive).trans hactive.symm)
  have hsame : (interp.setThread i m).setPending i (interp.pending i) = interp.setThread i m :=
    setPending_same (interp.setThread i m) i
  rwa [hsame] at hsound

theorem Sound.setLast (h : Sound interp) (i : Nat) : Sound (interp.setLast i) :=
  ⟨⟨h.tidy.distinct, h.tidy.root, h.tidy.callAtArmed, h.tidy.switchArmed⟩, h.distinct, h.standing,
    h.pinned, h.synced, h.cursors⟩

theorem Sound.setCursor (h : Sound interp) (hlive : i ∈ interp.live) (spaceId : Nat) :
    Sound (interp.setCursor spaceId i) := by
  obtain ⟨htidy, -, hswitch⟩ := h.tidy.setCursor spaceId i
  refine ⟨htidy, h.distinct, h.standing, h.pinned, h.synced, ?_⟩
  intro other callback v hv
  rw [hswitch] at hv
  split at hv
  · rw [Option.map_eq_some_iff] at hv
    obtain ⟨entry, -, heq⟩ := hv
    cases heq
    exact hlive
  · exact h.cursors other callback v hv

theorem Sound.changed (h : Sound interp) (htidy : Tidy interp')
    (hthreads : SameThreads interp interp')
    (hswitch : ∀ spaceId callback v, switchAt interp' spaceId = some (callback, some v) →
      v ∈ interp.live) : Sound interp' := by
  refine ⟨htidy, hthreads.live ▸ h.distinct, ?_, ?_, ?_, ?_⟩
  · rw [hthreads.threads, hthreads.live]
    exact h.standing
  · rw [hthreads.threads, hthreads.live]
    exact h.pinned
  · rw [hthreads.threads, hthreads.live, hthreads.pending]
    exact h.synced
  · rw [hthreads.live]
    exact hswitch

theorem Sound.passed (h : Sound interp) (hpassed : Passed interp interp') : Sound interp' :=
  h.changed hpassed.tidy hpassed.threads
    (fun spaceId callback v hv => h.cursors spaceId callback v (hpassed.switches spaceId ▸ hv))

theorem SwitchesIn.switchAt (h : Tidy interp) {entry : SpaceCallbackState} {callback : Nat}
    (hswitches : SwitchesIn interp i entry callback) :
    Retrace.switchAt interp entry.spaceId = some (callback, entry.lastBytecodeThread) := by
  obtain ⟨-, -, hmem⟩ := switchEntry_callback hswitches.found
  unfold Retrace.switchAt findSpaceCallbackState
  rw [findEntry_mem h.distinct hmem, Option.bind_some, hswitches.calls]
  rfl

theorem Sound.cursor (h : Sound interp) {entry : SpaceCallbackState} {callback v : Nat}
    (hswitches : SwitchesIn interp i entry callback) (hcursor : entry.lastBytecodeThread = some v) :
    v ∈ interp.live :=
  h.cursors entry.spaceId callback v (by rw [hswitches.switchAt h.tidy, hcursor])

theorem Sound.takeDelta (h : Sound interp) {v : Nat} (hlive : v ∈ interp.live) (spaceId : Nat)
    (choices : BoundaryChoices) : Sound (Retrace.takeDelta interp v spaceId choices) := by
  have hstep : threadStep ⟨true, true⟩ (interp.threads v) (.threadDelta spaceId
      choices.deltaAllocates choices.tupleAllocates) = some _ := rfl
  exact h.ran hlive hstep (by simp) (by simp)

theorem Sound.began (h : Sound interp) (hlive : i ∈ interp.live)
    {m : Machine} (hstep : threadStep p (interp.threads i)
      (.callbackBegin choices.scope choices.enterAllocates) = some m) :
    (m.tstate.threadCallbackActive = true → ∀ pending,
      Sound ((interp.setThread i m).setPending i (some pending))) ∧
    (m.tstate.threadCallbackActive = false → interp.idle i = true →
      Sound (interp.setThread i m)) := by
  refine ⟨?_, ?_⟩
  · intro hactive pending
    exact h.thread hlive hstep (by rw [hactive]; rfl)
  · intro hinactive hidle
    have hnone : interp.pending i = none := by
      unfold Interp.idle at hidle
      exact Option.isNone_iff_eq_none.mp hidle
    have hsound : Sound ((interp.setThread i m).setPending i none) :=
      h.thread hlive hstep (by rw [hinactive]; rfl)
    have hsame : (interp.setThread i m).setPending i none = interp.setThread i m := by
      rw [← hnone]
      exact setPending_same (interp.setThread i m) i
    rwa [hsame] at hsound

theorem Switching.sound (h : Switching p interp i choices interp' out) (hsound : Sound interp)
    (hlive : i ∈ interp.live) (hidle : interp.idle i = true) : Sound interp' := by
  have hthread : ∀ {v spaceId}, v ≠ i →
      ((Retrace.takeDelta interp v spaceId choices).setCursor spaceId i).threads i =
        interp.threads i := fun hv => setThread_of_ne interp _ (Ne.symm hv)
  cases h with
  | same last => exact hsound
  | quiet last none => exact hsound.setLast i
  | first switches cursor => exact (hsound.setCursor hlive _).setLast i
  | own switches cursor => exact hsound.setLast i
  | error switches cursor other result =>
    exact (hsound.takeDelta (hsound.cursor switches cursor) _ choices).setLast i
  | gone switches cursor other result =>
    rename_i entry callback v
    have htaken := hsound.takeDelta (hsound.cursor switches cursor) entry.spaceId choices
    exact (htaken.setCursor hlive entry.spaceId).setLast i
  | identFails switches cursor other result fails =>
    rename_i entry callback v delta
    have htaken := hsound.takeDelta (hsound.cursor switches cursor) entry.spaceId choices
    exact (htaken.setCursor hlive entry.spaceId).setLast i
  | enterFails switches cursor other result step inactive =>
    rename_i entry callback v delta m
    have htaken := hsound.takeDelta (hsound.cursor switches cursor) entry.spaceId choices
    have hmoved := htaken.setCursor hlive entry.spaceId
    exact ((hmoved.began hlive (hthread other ▸ step)).2 inactive hidle).setLast i
  | called switches cursor other result step active =>
    rename_i entry callback v delta m
    have htaken := hsound.takeDelta (hsound.cursor switches cursor) entry.spaceId choices
    have hmoved := htaken.setCursor hlive entry.spaceId
    exact (hmoved.began hlive (hthread other ▸ step)).1 active _

theorem Sound.checked (h : Sound interp) {allocates : Nat → Bool} {delivery : Option Delivery}
    (hcheck : checkCallAt interp i allocates = (mid, delivery)) : Sound mid := by
  by_cases hnamed : (interp.threads i).tstate.threadId = 0
  · unfold checkCallAt at hcheck
    rw [if_pos hnamed] at hcheck
    cases hcheck
    exact h
  · exact h.passed (checkCallAt_checked h.tidy hnamed hcheck).1

theorem Checking.sound (h : Checking p interp i choices interp' out) (hsound : Sound interp)
    (hlive : i ∈ interp.live) (hidle : interp.idle i = true) : Sound interp' := by
  have hchecked : ∀ {mid delivery}, checkCallAt interp i choices.compareAllocates = (mid, delivery) →
      Sound mid ∧ i ∈ mid.live ∧ mid.idle i = true := by
    intro mid delivery hcheck
    have hsame := checkCallAt_threads hcheck
    refine ⟨hsound.checked hcheck, hsame.live ▸ hlive, ?_⟩
    unfold Interp.idle
    rw [hsame.pending]
    exact hidle
  cases h with
  | unchecked quiet switching => exact switching.sound hsound hlive hidle
  | passed polls check switching =>
    obtain ⟨hmid, hlive', hidle'⟩ := hchecked check
    exact switching.sound hmid hlive' hidle'
  | enterFails polls check step inactive =>
    obtain ⟨hmid, hlive', hidle'⟩ := hchecked check
    exact (hmid.began hlive' step).2 inactive hidle'
  | called polls check step active =>
    obtain ⟨hmid, hlive', -⟩ := hchecked check
    exact (hmid.began hlive' step).1 active _

theorem Sound.callAt (h : Sound interp) (request : CallAtRequest) :
    Sound (Retrace.callAt interp request).2 := by
  obtain ⟨error, heq⟩ | ⟨heq, -⟩ := callAt_cases interp request
  · rw [heq]
    exact h
  · rw [heq]
    obtain ⟨htidy, hthreads, hswitch, -⟩ := h.tidy.armCallAt request
    exact h.changed htidy hthreads
      (fun spaceId callback v hv => h.cursors spaceId callback v (hswitch spaceId ▸ hv))

theorem Sound.setThreadSwitchCallback (h : Sound interp) (hlive : i ∈ interp.live)
    (callback : Option Nat) (spaceId : Nat) (allocates : Bool) :
    Sound (Retrace.setThreadSwitchCallback interp i callback spaceId allocates).2 := by
  obtain ⟨htidy, hthreads, -, -, hswitch⟩ :=
    h.tidy.setThreadSwitchCallback i callback spaceId allocates
  refine h.changed htidy hthreads ?_
  intro other callback' v hv
  obtain ⟨-, hsame⟩ | hnew := hswitch
  · exact h.cursors other callback' v (hsame other ▸ hv)
  · rw [hnew] at hv
    split at hv
    · rw [Option.map_eq_some_iff] at hv
      obtain ⟨callback, -, heq⟩ := hv
      have hvisible : visibleThreadForSpace interp i spaceId = some v := (Prod.mk.inj heq).2
      unfold visibleThreadForSpace at hvisible
      dsimp only at hvisible
      split at hvisible
      · cases hvisible
      · split at hvisible
        · exact Option.some.inj hvisible ▸ hlive
        · cases hvisible
    · exact h.cursors other callback' v hv

theorem Sound.clearThread (h : Sound interp) (i : Nat) :
    Sound (Retrace.clearThread clearThreadState interp i) := by
  obtain ⟨htidy, -, hswitch⟩ := h.tidy.clearThread clearThreadState i
  have hother : ∀ j ∈ (Retrace.clearThread clearThreadState interp i).live, j ∈ interp.live ∧
      (Retrace.clearThread clearThreadState interp i).threads j = interp.threads j := by
    intro j hj
    obtain ⟨hne, hmem⟩ := h.distinct.mem_erase_iff.mp hj
    exact ⟨hmem, setThread_of_ne interp _ hne⟩
  refine ⟨htidy, h.distinct.erase i, ?_, ?_, ?_, ?_⟩
  · intro j hj
    obtain ⟨hmem, hsame⟩ := hother j hj
    rw [hsame]
    exact h.standing j hmem
  · intro j hj
    obtain ⟨hmem, hsame⟩ := hother j hj
    rw [hsame]
    exact h.pinned j hmem
  · intro j hj
    obtain ⟨hmem, hsame⟩ := hother j hj
    rw [hsame]
    exact h.synced j hmem
  · intro spaceId callback v hv
    rw [hswitch, Option.map_eq_some_iff] at hv
    obtain ⟨entry, hentry, heq⟩ := hv
    have hcursor := (Prod.mk.inj heq).2
    split at hcursor
    · cases hcursor
    · rename_i hne
      rw [hcursor] at hne
      have hmem := h.cursors spaceId entry.1 v (by rw [hentry, ← hcursor])
      exact h.distinct.mem_erase_iff.mpr ⟨fun heq => hne (congrArg some heq), hmem⟩

theorem Returning.sound {raised : Bool} {pending : Pending}
    (h : Returning p interp i raised choices pending interp' out) (hsound : Sound interp)
    (hlive : i ∈ interp.live) (hidle : interp.idle i = true) : Sound interp' := by
  cases h with
  | afterSwitch => exact hsound.setLast i
  | raised failed => exact hsound
  | afterCallAt returned switching => exact switching.sound hsound hlive hidle

theorem Sound.idleBoundary (h : Sound interp) (hlive : i ∈ interp.live) {jumps : List (Int × Int)}
    {offset : Nat} {m : Machine}
    (hstep : threadStep p (interp.threads i) (.begin jumps offset) = some m)
    (hinactive : m.tstate.threadCallbackActive = false) :
    Sound (interp.setThread i m) ∧ (interp.setThread i m).idle i = true := by
  have hsound : Sound (interp.setThread i m) := h.ran hlive hstep (by simp) (by simp)
  exact ⟨hsound, hsound.idle hlive (by rwa [setThread_self])⟩

theorem Sound.stepping (h : Sound interp) {event : InterpEvent}
    (hstep : interpStep p interp event = some (interp', out)) :
    Stepping p interp event interp' out := by
  cases event with
  | run j event =>
    by_cases hallowed : j ∈ interp.live ∧ event.ofProgram = true
    · simp only [interpStep, if_pos hallowed, Option.map_eq_some_iff] at hstep
      obtain ⟨m, hm, heq⟩ := hstep
      cases heq
      exact .run hallowed.1 hallowed.2 hm
    · simp only [interpStep, if_neg hallowed, reduceCtorEq] at hstep
  | boundary j jumps offset choices =>
    by_cases hlive : j ∈ interp.live
    · simp only [interpStep, if_pos hlive] at hstep
      obtain ⟨m, rest, hbegin, rfl, ⟨hactive, rfl, rfl⟩ | ⟨hinactive, hchecking⟩⟩ :=
        beginInstruction_spec (fun m hm hinactive => (h.idleBoundary hlive hm hinactive).2) hstep
      · exact .inside hlive hbegin hactive
      · exact .boundary hlive hbegin hinactive hchecking
    · simp only [interpStep, if_neg hlive, reduceCtorEq] at hstep
  | callbackReturns j raised choices =>
    by_cases hlive : j ∈ interp.live
    · simp only [interpStep, if_pos hlive] at hstep
      obtain ⟨pending, m, rest, hpending, hend, rfl, hreturning⟩ := endCallback_spec hstep
      exact .returns hlive hpending hend hreturning
    · simp only [interpStep, if_neg hlive, reduceCtorEq] at hstep
  | callAt request =>
    cases hstep
    exact .callAt
  | clearCallAt spaceId =>
    cases hstep
    exact .clearCallAt
  | setThreadSwitchCallback j callback spaceId allocates =>
    by_cases hlive : j ∈ interp.live
    · simp only [interpStep, if_pos hlive] at hstep
      cases hstep
      exact .setThreadSwitchCallback hlive
    · simp only [interpStep, if_neg hlive, reduceCtorEq] at hstep
  | clearThread j =>
    by_cases hlive : j ∈ interp.live
    · simp only [interpStep, if_pos hlive] at hstep
      cases hstep
      exact .clearThread hlive
    · simp only [interpStep, if_neg hlive, reduceCtorEq] at hstep

theorem Sound.returned (h : Sound interp) (hlive : i ∈ interp.live) {m : Machine}
    (hstep : threadStep p (interp.threads i) .callbackEnd = some m) :
    Sound ((interp.setThread i m).setPending i none) ∧
      ((interp.setThread i m).setPending i none).idle i = true := by
  refine ⟨h.thread hlive hstep ?_, by simp [Interp.idle, Interp.setPending]⟩
  obtain ⟨l, hstanding⟩ := h.standing i hlive
  obtain ⟨-, heffect⟩ := hstanding.step hstep
  cases heffect
  rfl

theorem Stepping.sound {event : InterpEvent} (h : Stepping p interp event interp' out)
    (hsound : Sound interp) : Sound interp' := by
  cases h with
  | run live program step =>
    refine hsound.ran live step ?_ ?_
    · intro k allocates hevent
      rw [hevent] at program
      cases program
    · intro hevent
      rw [hevent] at program
      cases program
  | inside live step active => exact hsound.ran live step (by simp) (by simp)
  | boundary live step inactive checking =>
    obtain ⟨hbegun, hidle⟩ := hsound.idleBoundary live step inactive
    exact checking.sound hbegun live hidle
  | returns live pended step returning =>
    obtain ⟨hended, hidle⟩ := hsound.returned live step
    exact returning.sound hended live hidle
  | callAt => exact hsound.callAt _
  | clearCallAt => exact hsound.passed (hsound.tidy.clearPassed _)
  | setThreadSwitchCallback live => exact hsound.setThreadSwitchCallback live _ _ _
  | clearThread live => exact hsound.clearThread _

theorem Sound.run (h : Sound interp) {events : List InterpEvent}
    (hrun : StepRun.run (interpStep p) events interp = some (interp', out)) : Sound interp' :=
  StepRun.run_invariant (fun _ _ _ _ hsound hstep => (hsound.stepping hstep).sound hsound) h hrun

theorem Stepping.ran {event : InterpEvent} (h : Stepping p interp event interp' out)
    (hsound : Sound interp) (hclear : ∀ i, event ≠ .clearThread i) : Ran p interp interp' out := by
  cases h with
  | run live program step => exact Ran.step step
  | inside live step active => exact Ran.step step
  | boundary live step inactive checking => exact (Ran.step step).trans checking.ran
  | returns live pended step returning =>
    refine Ran.trans (Ran.step step) ?_
    exact returning.ran
  | callAt =>
    rename_i request
    refine Ran.same ?_ (fun _ => rfl)
    obtain ⟨error, heq⟩ | ⟨heq, -⟩ := callAt_cases interp request
    · rw [heq]
    · rw [heq]
      exact (hsound.tidy.armCallAt request).2.1.threads
  | clearCallAt => exact Ran.same (clearCallAt_threads interp _).threads (fun _ => rfl)
  | setThreadSwitchCallback live =>
    rename_i i spaceId callback allocates
    have hkept := hsound.tidy.setThreadSwitchCallback i callback spaceId allocates
    exact Ran.same hkept.2.1.threads (fun _ => rfl)
  | clearThread live => exact absurd rfl (hclear _)

theorem Switching.live (h : Switching p interp i choices interp' out) :
    interp'.live = interp.live := by
  cases h <;> rfl

theorem Checking.live (h : Checking p interp i choices interp' out) :
    interp'.live = interp.live := by
  cases h with
  | unchecked quiet switching => exact switching.live
  | passed polls check switching => exact switching.live.trans (checkCallAt_threads check).live
  | enterFails polls check step inactive => exact (checkCallAt_threads check).live
  | called polls check step active => exact (checkCallAt_threads check).live

theorem Stepping.live {event : InterpEvent} (h : Stepping p interp event interp' out)
    (hsound : Sound interp) : ∀ i ∈ interp'.live, i ∈ interp.live := by
  have hsame : interp'.live = interp.live → ∀ i ∈ interp'.live, i ∈ interp.live :=
    fun heq i hi => heq ▸ hi
  cases h with
  | run live program step => exact hsame rfl
  | inside live step active => exact hsame rfl
  | boundary live step inactive checking => exact hsame checking.live
  | returns live pended step returning =>
    cases returning with
    | afterSwitch => exact hsame rfl
    | raised failed => exact hsame rfl
    | afterCallAt returned switching => exact hsame switching.live
  | callAt =>
    rename_i request
    refine hsame ?_
    obtain ⟨error, heq⟩ | ⟨heq, -⟩ := callAt_cases interp request
    · rw [heq]
    · rw [heq]
      exact (hsound.tidy.armCallAt request).2.1.live
  | clearCallAt => exact hsame (clearCallAt_threads interp _).live
  | setThreadSwitchCallback live =>
    exact hsame (hsound.tidy.setThreadSwitchCallback _ _ _ _).2.1.live
  | clearThread live => exact fun i hi => List.mem_of_mem_erase hi

theorem Sound.live_run (h : Sound interp) {events : List InterpEvent}
    (hrun : StepRun.run (interpStep p) events interp = some (interp', out)) :
    ∀ i ∈ interp'.live, i ∈ interp.live := by
  induction events generalizing interp out with
  | nil =>
    cases hrun
    exact fun i hi => hi
  | cons event events ih =>
    obtain ⟨mid, first, more, hstep, hrest, -⟩ := StepRun.run_cons.mp hrun
    have hstepping := h.stepping hstep
    exact fun i hi => hstepping.live h i (ih (hstepping.sound h) hrest i hi)

/-- In a run in which no thread ends, each thread has run by the events that are shown of it. -/
theorem Sound.ranRun (h : Sound interp) {events : List InterpEvent}
    (hrun : StepRun.run (interpStep p) events interp = some (interp', out))
    (hclear : ∀ i, .clearThread i ∉ events) : Ran p interp interp' out := by
  induction events generalizing interp out with
  | nil =>
    cases hrun
    exact Ran.same rfl (fun _ => rfl)
  | cons event events ih =>
    obtain ⟨mid, first, more, hstep, hrest, rfl⟩ := StepRun.run_cons.mp hrun
    have hstepping := h.stepping hstep
    refine (hstepping.ran h ?_).trans (ih (hstepping.sound h) hrest ?_)
    · intro i heq
      exact hclear i (heq ▸ List.mem_cons_self)
    · intro i hmem
      exact hclear i (List.mem_cons_of_mem _ hmem)

end steps

end Retrace
