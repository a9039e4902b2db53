import Retrace.CallbackBodies
import Retrace.PinnedDeltas
import Retrace.ThreadIds

/-! The callbacks of one space as a stream: whose delta each of them carries, and what the deltas
of a thread add up to. -/

set_option autoImplicit false

namespace Retrace

/-- The allocations between a switch and the call of its callback succeed. -/
def BoundaryChoices.findsRoom (choices : BoundaryChoices) : Bool :=
  choices.enterAllocates && choices.deltaAllocates && choices.tupleAllocates &&
    choices.identAllocates

def InterpEvent.findsRoom : InterpEvent → Bool
  | .boundary _ _ _ choices => choices.findsRoom
  | .callbackReturns _ _ choices => choices.findsRoom
  | _ => true

/-- The event finds room, ends no thread, takes no delta of the space and keeps its callback. -/
def undisturbed (spaceId : Nat) : InterpEvent → Bool
  | .run _ (.threadDelta id _ _) => id ≠ spaceId
  | .setThreadSwitchCallback _ _ id _ => id ≠ spaceId
  | .clearThread _ => false
  | event => event.findsRoom

/-- The consumer keeps one stack for each thread, and decodes each delta over the stack of the
thread it is said to be of. -/
def accumulated (spaceId v : Nat) : List Output → List Nat → Option (List Nat)
  | [], stack => some stack
  | .threadSwitch _ id _ previous previousDelta _ :: rest, stack =>
    if id = spaceId ∧ previous = v then
      (decode stack (.delta previousDelta)).bind (accumulated spaceId v rest)
    else accumulated spaceId v rest stack
  | _ :: rest, stack => accumulated spaceId v rest stack

def named (spaceId : Nat) (last : Option (Nat × Nat)) : Output → Option (Nat × Nat)
  | .threadSwitch i id _ _ _ nextThreadId => if id = spaceId then some (i, nextThreadId) else last
  | _ => last

/-- The thread that the last callback of the space was called on, and the id that it was given. -/
def lastNamed (spaceId : Nat) (out : List Output) : Option (Nat × Nat) :=
  out.foldl (named spaceId) none

def cursorAt (interp : Interp) (spaceId : Nat) : Option Nat :=
  (switchAt interp spaceId).bind (fun entry => entry.2)

/-- The first thread that the cursor of the space holds along a run. -/
def initialiser (p : Platform) (spaceId : Nat) : List InterpEvent → Interp → Option Nat
  | [], interp => cursorAt interp spaceId
  | event :: events, interp =>
    match cursorAt interp spaceId with
    | some v => some v
    | none => (interpStep p interp event).bind (fun next => initialiser p spaceId events next.1)

/-- The thread has been in the space. -/
def Knows (m : Machine) (spaceId : Nat) : Prop :=
  ∃ n, findThreadSpace m.tstate spaceId = some n ∧ (m.tstate.space n).seen = true

/-- No delta of the space and none of its callbacks. -/
structure Silent (spaceId : Nat) (out : List Output) : Prop where
  deltas : ∀ v allocates tuple, .ran v (.threadDelta spaceId allocates tuple) ∉ out
  calls : ∀ i callback v delta next, .threadSwitch i spaceId callback v delta next ∉ out

/-- What a step does to a space that has a callback: nothing, or it moves the cursor to a thread at
a boundary in the space, for the first time or with the callback. -/
inductive Streams (spaceId i : Nat) (interp interp' : Interp) (out : List Output) : Prop
  | silent (kept : switchAt interp' spaceId = switchAt interp spaceId) (quiet : Silent spaceId out)
  | first {callback : Nat} (cursor : switchAt interp spaceId = some (callback, none))
      (moved : switchAt interp' spaceId = some (callback, some i)) (quiet : Silent spaceId out)
      (knows : Knows (interp'.threads i) spaceId)
      (inactive : (interp'.threads i).tstate.threadCallbackActive = false)
  | called {callback v k : Nat} {allocates : Bool} {delta : List Nat} {lead : List Output}
      (cursor : switchAt interp spaceId = some (callback, some v)) (other : v ≠ i)
      (moved : switchAt interp' spaceId = some (callback, some i))
      (shown : out = lead ++ [.ran v (.threadDelta spaceId true true),
        .ran i (.callbackBegin k allocates),
        .threadSwitch i spaceId callback v delta (interp.threads i).tstate.threadId])
      (quiet : ∀ output ∈ lead, ∃ event, output = .ran i event ∧ ¬event.takesDelta spaceId)
      (result : (threadDeltaForTstate (interp.threads v) spaceId true true).1 = .delta delta)
      (knows : Knows (interp'.threads i) spaceId)

section knows
variable {p : Platform} {m m' : Machine} {spaceId : Nat} {l : Ledger}

theorem knows_of_top (hstanding : Standing m l) (hseen : SeenFrames m)
    (htop : topSpaceId m = some spaceId) : Knows m spaceId := by
  obtain ⟨base, -, hseg⟩ := hstanding.segment
  unfold topSpaceId Retrace.topFrame at htop
  cases hstack : m.tstate.stack with
  | nil =>
    rw [hstack] at htop
    cases htop
  | cons item rest =>
    cases item with
    | frame f =>
      rw [hstack] at htop
      dsimp only at htop
      obtain ⟨n, hlt, hspace⟩ := hseg.frame_space (hstack ▸ List.mem_cons_self)
      rw [hspace] at htop
      split at htop
      · have hid : (m.tstate.space n).spaceId = spaceId := Option.some.inj htop
        exact ⟨n, hid ▸ hseg.circle.find_eq hlt, hseen f n hspace⟩
      · cases htop
    | scope k =>
      rw [hstack] at htop
      cases htop
    | callback k =>
      rw [hstack] at htop
      cases htop

theorem Knows.run {events : List ThreadEvent} (h : Knows m spaceId) (hstanding : Standing m l)
    (hrun : threadRun p events m = some m') : Knows m' spaceId := by
  obtain ⟨n, hfind, hseen⟩ := h
  obtain ⟨hfind', -, hseen'⟩ := hstanding.spaceKept hrun hfind
  exact ⟨n, hfind', hseen' hseen⟩

theorem Knows.delta (h : Knows m spaceId) :
    ∃ delta, (threadDeltaForTstate m spaceId true true).1 = .delta delta := by
  obtain ⟨n, hfind, hseen⟩ := h
  rw [threadDelta_answer, hfind]
  simp [hseen]

theorem getThreadSpace_room (p : Platform) (t : ThreadState) (spaceId : Nat) :
    ∃ node t', getThreadSpace p t spaceId true = (some node, t') ∧
      t'.threadCallbackActive = t.threadCallbackActive := by
  unfold getThreadSpace
  cases findThreadSpace t spaceId with
  | none => exact ⟨_, _, rfl, rfl⟩
  | some node => exact ⟨_, _, rfl, rfl⟩

theorem enterSpace_room (p : Platform) (m : Machine) (k spaceId : Nat) :
    ∃ m', enterSpace p m k spaceId true = some m' ∧
      m'.tstate.threadCallbackActive = m.tstate.threadCallbackActive := by
  obtain ⟨node, t, hget, hactive⟩ := getThreadSpace_room p m.tstate spaceId
  unfold enterSpace
  rw [hget]
  refine ⟨_, rfl, ?_⟩
  dsimp only
  split
  · exact hactive
  · exact hactive

theorem callbackBegin_active {k : Nat}
    (hstep : threadStep p m (.callbackBegin k true) = some m') :
    m'.tstate.threadCallbackActive = true := by
  unfold threadStep at hstep
  dsimp only at hstep
  split at hstep
  · split at hstep
    · cases hstep
    · rename_i f rest _ _
      obtain ⟨entered, henter, hactive⟩ :=
        enterSpace_room p (m.setCallback true (some f)) k spaceIdDisabled
      have hbegun : callbackBegin p m f k true = entered.push (.callback k) := by
        unfold Machine.setCallback Machine.setTstate at henter
        unfold callbackBegin
        dsimp only at henter ⊢
        rw [henter]
      rw [hbegun] at hstep
      cases hstep
      exact hactive
  · cases hstep

end knows

section streams
variable {p : Platform} {interp interp' mid : Interp} {i spaceId : Nat} {choices : BoundaryChoices}
  {out : List Output}

theorem Silent.nil (spaceId : Nat) : Silent spaceId [] := ⟨by simp, by simp⟩

theorem Silent.cons {event : ThreadEvent} (h : Silent spaceId out)
    (hevent : ¬event.takesDelta spaceId) : Silent spaceId (.ran i event :: out) := by
  refine ⟨?_, ?_⟩
  · intro v allocates tuple hmem
    rw [List.mem_cons] at hmem
    obtain heq | hmem := hmem
    · rw [Output.ran.injEq] at heq
      exact hevent (heq.2 ▸ rfl)
    · exact h.deltas v allocates tuple hmem
  · intro j callback v delta next hmem
    rw [List.mem_cons] at hmem
    exact h.calls j callback v delta next (hmem.resolve_left (by simp))

theorem BoundaryChoices.findsRoom_spec (h : choices.findsRoom = true) :
    choices.enterAllocates = true ∧ choices.deltaAllocates = true ∧
      choices.tupleAllocates = true ∧ choices.identAllocates = true := by
  unfold BoundaryChoices.findsRoom at h
  simp only [Bool.and_eq_true] at h
  exact ⟨h.1.1.1, h.1.1.2, h.1.2, h.2⟩

theorem Silent.deltaRan {v other : Nat} (hne : other ≠ spaceId) (h : Silent spaceId out) :
    Silent spaceId (Retrace.deltaRan v other choices :: out) :=
  h.cons hne

theorem Silent.threadSwitch {v other callback next : Nat} {delta : List Nat}
    (hne : other ≠ spaceId) :
    Silent spaceId [callbackRan i choices, .threadSwitch i other callback v delta next] := by
  refine Silent.cons ⟨by simp, ?_⟩ id
  intro j callback' v' delta' next' hmem
  simp only [List.mem_singleton, Output.threadSwitch.injEq] at hmem
  exact hne hmem.2.1.symm

theorem SwitchesIn.known {entry : SpaceCallbackState} {callback : Nat} {l : Ledger}
    (h : SwitchesIn interp i entry callback) (htidy : Tidy interp)
    (hstanding : Standing (interp.threads i) l) (hseen : SeenFrames (interp.threads i)) :
    Retrace.switchAt interp entry.spaceId = some (callback, entry.lastBytecodeThread) ∧
      Knows (interp.threads i) entry.spaceId :=
  ⟨h.switchAt htidy, knows_of_top hstanding hseen (switchEntry_callback h.found).2.1⟩

theorem BoundaryChoices.answered {m : Machine} (hroom : choices.findsRoom = true)
    (hknows : Knows m spaceId) : ∃ delta, (threadDeltaForTstate m spaceId choices.deltaAllocates
      choices.tupleAllocates).1 = .delta delta := by
  obtain ⟨-, hdelta, htuple, -⟩ := choices.findsRoom_spec hroom
  rw [hdelta, htuple]
  exact hknows.delta

theorem Streams.switched {callback v : Nat} {delta : List Nat} {l : Ledger} {m : Machine}
    (htidy : Tidy interp) (hroom : choices.findsRoom = true)
    (hstanding : Standing (interp.threads i) l) (hknows : Knows (interp.threads i) spaceId)
    (hswitch : switchAt interp spaceId = some (callback, some v)) (hother : v ≠ i)
    (hresult : (threadDeltaForTstate (interp.threads v) spaceId choices.deltaAllocates
      choices.tupleAllocates).1 = .delta delta)
    (hstep : threadStep p (interp.threads i)
      (.callbackBegin choices.scope choices.enterAllocates) = some m) :
    Streams spaceId i interp ((((takeDelta interp v spaceId choices).setCursor
        spaceId i).setThread i m).setPending i (some .afterSwitch))
      [deltaRan v spaceId choices, callbackRan i choices,
        .threadSwitch i spaceId callback v delta (interp.threads i).tstate.threadId] := by
  obtain ⟨-, hdelta, htuple, -⟩ := choices.findsRoom_spec hroom
  have hself : ((((takeDelta interp v spaceId choices).setCursor spaceId i).setThread i
      m).setPending i (some .afterSwitch)).threads i = m := setThread_self _ i m
  have hrun : threadRun p [.callbackBegin choices.scope choices.enterAllocates]
      (interp.threads i) = some m := by
    rw [threadRun_cons, hstep]
    rfl
  have htaken : Tidy (takeDelta interp v spaceId choices) := htidy.setThread v _
  have hshown : [deltaRan v spaceId choices, callbackRan i choices,
      .threadSwitch i spaceId callback v delta (interp.threads i).tstate.threadId] =
      [] ++ [.ran v (.threadDelta spaceId true true), callbackRan i choices,
        .threadSwitch i spaceId callback v delta (interp.threads i).tstate.threadId] := by
    unfold deltaRan
    rw [hdelta, htuple]
    rfl
  rw [hdelta, htuple] at hresult
  refine .called hswitch hother (htaken.cursor_moves i hswitch) hshown (by simp) hresult ?_
  rw [hself]
  exact hknows.run hstanding hrun

theorem Switching.streams (h : Switching p interp i choices interp' out) (hsound : Sound interp)
    (hlive : i ∈ interp.live) (hroom : choices.findsRoom = true)
    (hseen : SeenFrames (interp.threads i))
    (hinactive : (interp.threads i).tstate.threadCallbackActive = false)
    (hknows : ∀ v, cursorAt interp spaceId = some v → Knows (interp.threads v) spaceId) :
    Streams spaceId i interp interp' out := by
  obtain ⟨henter, -, -, hident⟩ := choices.findsRoom_spec hroom
  obtain ⟨l, hstanding⟩ := hsound.standing i hlive
  have htidy := hsound.tidy
  -- a delta that is taken for the space is there
  have hanswer : ∀ {entry callback v}, SwitchesIn interp i entry callback →
      entry.lastBytecodeThread = some v → entry.spaceId = spaceId →
      ∃ delta, (threadDeltaForTstate (interp.threads v) entry.spaceId choices.deltaAllocates
        choices.tupleAllocates).1 = .delta delta := by
    intro entry callback v hswitches hcursor heq
    subst heq
    refine BoundaryChoices.answered hroom (hknows v ?_)
    unfold cursorAt
    rw [hswitches.switchAt htidy, hcursor]
    rfl
  cases h with
  | same last => exact .silent rfl (Silent.nil _)
  | quiet last none => exact .silent rfl (Silent.nil _)
  | own switches cursor => exact .silent rfl (Silent.nil _)
  | first switches cursor =>
    rename_i entry callback
    by_cases heq : entry.spaceId = spaceId
    · subst heq
      obtain ⟨hswitch, hknown⟩ := switches.known htidy hstanding hseen
      rw [cursor] at hswitch
      exact .first hswitch (htidy.cursor_moves i hswitch) (Silent.nil _) hknown hinactive
    · exact .silent (htidy.cursor_other i heq) (Silent.nil _)
  | error switches cursor other result =>
    refine .silent rfl ((Silent.nil _).deltaRan ?_)
    intro heq
    obtain ⟨delta, hfound⟩ := hanswer switches cursor heq
    rw [result] at hfound
    cases hfound
  | gone switches cursor other result =>
    rename_i entry callback v
    have hne : entry.spaceId ≠ spaceId := by
      intro heq
      obtain ⟨delta, hfound⟩ := hanswer switches cursor heq
      rw [result] at hfound
      cases hfound
    exact .silent ((htidy.setThread v _).cursor_other i hne) ((Silent.nil _).deltaRan hne)
  | identFails switches cursor other result fails =>
    rw [hident] at fails
    cases fails
  | enterFails switches cursor other result step inactive =>
    rw [henter] at step
    rw [callbackBegin_active step] at inactive
    cases inactive
  | called switches cursor other result step active =>
    rename_i entry callback v delta m
    by_cases heq : entry.spaceId = spaceId
    · subst heq
      obtain ⟨hswitch, hknown⟩ := switches.known htidy hstanding hseen
      rw [cursor] at hswitch
      exact .switched htidy hroom hstanding hknown hswitch other result step
    · exact .silent ((htidy.setThread v _).cursor_other i heq)
        ((Silent.threadSwitch heq).deltaRan heq)

theorem Streams.lead (h : Streams spaceId i mid interp' out)
    (hswitch : switchAt mid spaceId = switchAt interp spaceId)
    (hthreads : ∀ v, v ≠ i → mid.threads v = interp.threads v)
    (hid : (mid.threads i).tstate.threadId = (interp.threads i).tstate.threadId)
    {lead : List Output}
    (hlead : ∀ output ∈ lead, ∃ event, output = .ran i event ∧ ¬event.takesDelta spaceId) :
    Streams spaceId i interp interp' (lead ++ out) := by
  have hsilent : Silent spaceId out → Silent spaceId (lead ++ out) := by
    intro hquiet
    refine ⟨?_, ?_⟩
    · intro v allocates tuple hmem
      rw [List.mem_append] at hmem
      obtain hmem | hmem := hmem
      · obtain ⟨event, heq, hnot⟩ := hlead _ hmem
        rw [Output.ran.injEq] at heq
        exact hnot (heq.2 ▸ rfl)
      · exact hquiet.deltas v allocates tuple hmem
    · intro j callback v delta next hmem
      rw [List.mem_append] at hmem
      obtain hmem | hmem := hmem
      · obtain ⟨event, heq, -⟩ := hlead _ hmem
        cases heq
      · exact hquiet.calls j callback v delta next hmem
  cases h with
  | silent kept quiet => exact .silent (kept.trans hswitch) (hsilent quiet)
  | first cursor moved quiet knows inactive =>
    exact .first (hswitch ▸ cursor) moved (hsilent quiet) knows inactive
  | called cursor other moved shown quiet result knows =>
    rename_i callback v k allocates delta lead'
    rw [hswitch] at cursor
    rw [hid] at shown
    rw [hthreads v other] at result
    have hshown : lead ++ out = (lead ++ lead') ++ [.ran v (.threadDelta spaceId true true),
        .ran i (.callbackBegin k allocates),
        .threadSwitch i spaceId callback v delta (interp.threads i).tstate.threadId] := by
      rw [shown, List.append_assoc]
    refine .called cursor other moved hshown ?_ result knows
    intro output hmem
    rw [List.mem_append] at hmem
    exact hmem.elim (hlead output) (quiet output)

theorem checkCallAt_switchAt (h : Tidy interp) {allocates : Nat → Bool}
    {delivery : Option Delivery} (hcheck : checkCallAt interp i allocates = (mid, delivery)) :
    switchAt mid spaceId = switchAt interp spaceId := by
  by_cases hnamed : (interp.threads i).tstate.threadId = 0
  · unfold checkCallAt at hcheck
    rw [if_pos hnamed] at hcheck
    cases hcheck
    rfl
  · exact (checkCallAt_checked h hnamed hcheck).1.switches spaceId

theorem Checking.streams (h : Checking p interp i choices interp' out) (hsound : Sound interp)
    (hlive : i ∈ interp.live) (hroom : choices.findsRoom = true)
    (hseen : SeenFrames (interp.threads i))
    (hinactive : (interp.threads i).tstate.threadCallbackActive = false)
    (hknows : ∀ v, cursorAt interp spaceId = some v → Knows (interp.threads v) spaceId) :
    Streams spaceId i interp interp' out := by
  cases h with
  | unchecked quiet switching =>
    exact switching.streams hsound hlive hroom hseen hinactive hknows
  | passed polls check switching =>
    rename_i before
    have hsame := checkCallAt_threads check
    have hswitch := @checkCallAt_switchAt _ _ _ spaceId hsound.tidy _ _ check
    have hstreams : Streams spaceId i before interp' out := by
      refine switching.streams (hsound.checked check) (hsame.live ▸ hlive) hroom ?_ ?_ ?_
      · rw [hsame.threads]
        exact hseen
      · rw [hsame.threads]
        exact hinactive
      · unfold cursorAt
        rw [hswitch, hsame.threads]
        exact hknows
    exact hstreams.lead hswitch (fun v _ => congrFun hsame.threads v)
      (congrArg (fun m => m.tstate.threadId) (congrFun hsame.threads i))
      (fun output hmem => absurd hmem List.not_mem_nil)
  | enterFails polls check step inactive =>
    rw [(choices.findsRoom_spec hroom).1] at step
    rw [callbackBegin_active step] at inactive
    cases inactive
  | called polls check step active =>
    have hswitch := @checkCallAt_switchAt _ _ _ spaceId hsound.tidy _ _ check
    exact .silent hswitch (Silent.cons ⟨by simp, by simp⟩ id)

theorem Streams.behind {event : ThreadEvent} {m : Machine} (h : Streams spaceId i mid interp' out)
    (hstep : threadStep p (interp.threads i) event = some m) (hquiet : ¬event.takesDelta spaceId)
    (hthreads : mid.threads = (interp.setThread i m).threads)
    (hswitch : switchAt mid spaceId = switchAt interp spaceId) :
    Streams spaceId i interp interp' (.ran i event :: out) := by
  have hthread : ∀ v, mid.threads v = (interp.setThread i m).threads v := congrFun hthreads
  have hid : (mid.threads i).tstate.threadId = (interp.threads i).tstate.threadId := by
    rw [hthread, setThread_self]
    exact (threadStep_sameThread hstep).threadId
  have hlead : ∀ output ∈ [Output.ran i event], ∃ shown, output = .ran i shown ∧
      ¬shown.takesDelta spaceId :=
    fun output hmem => ⟨event, List.mem_singleton.mp hmem, hquiet⟩
  exact h.lead hswitch (fun v hv => (hthread v).trans (setThread_of_ne interp m hv)) hid hlead

theorem Sound.knowsNext {event : ThreadEvent} {m : Machine} (h : Sound interp)
    (hlive : i ∈ interp.live) (hstep : threadStep p (interp.threads i) event = some m)
    (hseen : SeenFrames (interp.threads i))
    (hknows : ∀ v, cursorAt interp spaceId = some v → Knows (interp.threads v) spaceId) :
    SeenFrames m ∧
      ∀ v, cursorAt interp spaceId = some v → Knows ((interp.setThread i m).threads v) spaceId := by
  obtain ⟨l, hstanding⟩ := h.standing i hlive
  have hrun : threadRun p [event] (interp.threads i) = some m := by
    rw [threadRun_cons, hstep]
    rfl
  refine ⟨hseen.run hstanding hrun, ?_⟩
  intro v hv
  by_cases hvi : v = i
  · rw [hvi, setThread_self]
    exact (hvi ▸ hknows v hv).run hstanding hrun
  · rw [setThread_of_ne interp m hvi]
    exact hknows v hv

theorem Stepping.streams {event : InterpEvent} (h : Stepping p interp event interp' out)
    (hsound : Sound interp) (hroom : event.findsRoom = true) (hclear : ∀ i, event ≠ .clearThread i)
    (honly : ∀ i allocates tuple, event ≠ .run i (.threadDelta spaceId allocates tuple))
    (hkept : ∀ i callback allocates,
      event ≠ .setThreadSwitchCallback i callback spaceId allocates)
    (hseen : ∀ v ∈ interp.live, SeenFrames (interp.threads v))
    (hknows : ∀ v, cursorAt interp spaceId = some v → Knows (interp.threads v) spaceId) :
    ∃ i, Streams spaceId i interp interp' out := by
  cases h with
  | run live program step =>
    rename_i i event m
    have hevent : ¬event.takesDelta spaceId := by
      intro htakes
      cases event with
      | threadDelta id allocates tuple =>
        have heq : id = spaceId := htakes
        exact honly i allocates tuple (heq ▸ rfl)
      | _ => exact htakes
    exact ⟨i, .silent rfl ((Silent.nil _).cons hevent)⟩
  | inside live step active => exact ⟨0, .silent rfl ((Silent.nil _).cons id)⟩
  | boundary live step inactive checking =>
    rename_i i offset jumps choices m rest
    obtain ⟨hseen', hknows'⟩ := hsound.knowsNext live step (hseen i live) hknows
    have hself := setThread_self interp i m
    have hchecked : Streams spaceId i (interp.setThread i m) interp' rest :=
      checking.streams (hsound.idleBoundary live step inactive).1 live hroom (hself.symm ▸ hseen')
        (hself.symm ▸ inactive) hknows'
    exact ⟨i, hchecked.behind step id rfl rfl⟩
  | returns live pended step returning =>
    rename_i i raised choices pending m rest
    cases returning with
    | afterSwitch => exact ⟨i, .silent rfl ((Silent.nil _).cons id)⟩
    | raised failed => exact ⟨i, .silent rfl ((Silent.nil _).cons id)⟩
    | afterCallAt returned switching =>
      obtain ⟨hseen', hknows'⟩ := hsound.knowsNext live step (hseen i live) hknows
      have hself : ((interp.setThread i m).setPending i none).threads i = m :=
        setThread_self interp i m
      have hinactive : m.tstate.threadCallbackActive = false := by
        obtain ⟨l, hstanding⟩ := hsound.standing i live
        obtain ⟨-, heffect⟩ := hstanding.step step
        cases heffect
        rfl
      have hchecked : Streams spaceId i ((interp.setThread i m).setPending i none) interp' rest :=
        switching.streams (hsound.returned live step).1 live hroom (hself.symm ▸ hseen')
          (hself.symm ▸ hinactive) hknows'
      exact ⟨i, hchecked.behind step id rfl rfl⟩
  | callAt =>
    rename_i request
    refine ⟨0, .silent ?_ (Silent.nil _)⟩
    obtain ⟨error, heq⟩ | ⟨heq, -⟩ := callAt_cases interp request
    · rw [heq]
    · rw [heq]
      exact (hsound.tidy.armCallAt request).2.2.1 spaceId
  | clearCallAt => exact ⟨0, .silent ((hsound.tidy.clearCallAt _).2.2 spaceId) (Silent.nil _)⟩
  | setThreadSwitchCallback live =>
    rename_i i other callback allocates
    have hne : spaceId ≠ other := fun heq => hkept i callback allocates (heq ▸ rfl)
    obtain ⟨-, -, -, -, ⟨-, hsame⟩ | hsame⟩ :=
      hsound.tidy.setThreadSwitchCallback i callback other allocates
    · exact ⟨0, .silent (hsame spaceId) (Silent.nil _)⟩
    · exact ⟨0, .silent ((hsame spaceId).trans (if_neg hne)) (Silent.nil _)⟩
  | clearThread live => exact absurd rfl (hclear _)

end streams

section folds
variable {p : Platform} {interp interp' : Interp} {spaceId v : Nat} {out first second : List Output}

theorem Silent.tail {output : Output} (h : Silent spaceId (output :: out)) : Silent spaceId out :=
  ⟨fun v allocates tuple hmem => h.deltas v allocates tuple (List.mem_cons_of_mem _ hmem),
    fun i callback v delta next hmem => h.calls i callback v delta next (List.mem_cons_of_mem _ hmem)⟩

theorem Silent.named (h : Silent spaceId out) (last : Option (Nat × Nat)) :
    out.foldl (Retrace.named spaceId) last = last := by
  induction out generalizing last with
  | nil => rfl
  | cons output out ih =>
    have hone : Retrace.named spaceId last output = last := by
      cases output with
      | threadSwitch i id callback previous delta next =>
        refine if_neg (fun heq => ?_)
        exact h.calls i callback previous delta next (heq ▸ List.mem_cons_self)
      | _ => rfl
    rw [List.foldl_cons, hone]
    exact ih h.tail last

theorem accumulated_append (stack : List Nat) : accumulated spaceId v (first ++ second) stack =
    (accumulated spaceId v first stack).bind (accumulated spaceId v second) := by
  induction first generalizing stack with
  | nil => rfl
  | cons output first ih =>
    cases output with
    | threadSwitch i id callback previous delta next =>
      rw [List.cons_append, accumulated, accumulated]
      split
      · cases decode stack (.delta delta) with
        | none => rfl
        | some next => exact ih next
      · exact ih stack
    | _ => exact ih stack

theorem Silent.accumulated (h : Silent spaceId out) (stack : List Nat) :
    Retrace.accumulated spaceId v out stack = some stack := by
  induction out with
  | nil => rfl
  | cons output out ih =>
    cases output with
    | threadSwitch i id callback previous delta next =>
      rw [Retrace.accumulated, if_neg]
      · exact ih h.tail
      · rintro ⟨heq, -⟩
        exact h.calls i callback previous delta next (heq ▸ List.mem_cons_self)
    | _ => exact ih h.tail

theorem Silent.quiet (h : Silent spaceId out) (v : Nat) :
    ∀ event ∈ ranBy v out, ¬event.takesDelta spaceId := by
  intro event hmem htakes
  cases event with
  | threadDelta id allocates tuple =>
    have heq : id = spaceId := htakes
    exact h.deltas v allocates tuple (heq ▸ mem_ranBy.mp hmem)
  | _ => exact htakes

theorem initialiser_append {done : List InterpEvent} {event : InterpEvent} {start : Interp}
    {outs : List Output}
    (hrun : StepRun.run (interpStep p) done start = some (interp, outs))
    (hstep : interpStep p interp event = some (interp', out)) :
    initialiser p spaceId (done ++ [event]) start =
      (initialiser p spaceId done start).or (cursorAt interp' spaceId) := by
  induction done generalizing start outs with
  | nil =>
    cases hrun
    rw [List.nil_append, initialiser, initialiser]
    cases cursorAt interp spaceId with
    | some v => rfl
    | none =>
      rw [hstep]
      rfl
  | cons first done ih =>
    obtain ⟨mid, out', more, hfirst, hrest, -⟩ := StepRun.run_cons.mp hrun
    rw [List.cons_append, initialiser, initialiser]
    cases cursorAt start spaceId with
    | some v => rfl
    | none =>
      rw [hfirst]
      exact ih hrest

theorem ran_sameThread {m m' : Machine} {events : List ThreadEvent}
    (hrun : threadRun p events m = some m') : m'.tstate.threadId = m.tstate.threadId := by
  induction events generalizing m with
  | nil =>
    cases hrun
    rfl
  | cons event events ih =>
    rw [threadRun_cons, Option.bind_eq_some_iff] at hrun
    obtain ⟨mid, hstep, hrun⟩ := hrun
    exact (ih hrun).trans (threadStep_sameThread hstep).threadId

end folds

/-- What is known of a space from its registration at `start` on: whose its cursor is, and what its
deltas of each thread add up to. -/
structure Streamed (p : Platform) (spaceId : Nat) (origin start : Interp) (earlier : List Output)
    (done : List InterpEvent) (interp : Interp) (outs : List Output) : Prop where
  registered : ∃ callback, switchAt interp spaceId = some (callback, cursorAt interp spaceId)
  named : ∀ r id, lastNamed spaceId outs = some (r, id) → cursorAt interp spaceId = some r ∧
    id = (interp.threads r).tstate.threadId
  initialised : lastNamed spaceId outs = none →
    initialiser p spaceId done start = cursorAt interp spaceId
  knows : ∀ v, cursorAt interp spaceId = some v → Knows (interp.threads v) spaceId
  once : ∀ v, oncePerCallback p spaceId (ranBy v (earlier ++ outs)) (origin.threads v) true = true
  fresh : ∀ v, cursorAt interp spaceId = some v →
    (interp.threads v).tstate.threadCallbackActive = true →
    (ranBy v (earlier ++ outs)).foldl (untaken spaceId) true = true
  stack : ∀ v, accumulated spaceId v outs [] =
    consumerStack p spaceId (ranBy v (earlier ++ outs)) (origin.threads v) []

section streamed
variable {p : Platform} {spaceId : Nat} {origin start interp interp' : Interp}
  {earlier outs out : List Output} {done : List InterpEvent} {event : InterpEvent}

theorem cursorAt_of {callback : Nat} {cursor : Option Nat}
    (h : switchAt interp spaceId = some (callback, cursor)) : cursorAt interp spaceId = cursor := by
  unfold cursorAt
  rw [h]
  rfl

section called
variable {i v w k callback next : Nat} {allocates : Bool} {delta : List Nat} {lead : List Output}

theorem ranBy_lead (hquiet : ∀ output ∈ lead, ∃ event, output = .ran i event ∧
    ¬event.takesDelta spaceId) : ∀ e ∈ ranBy w lead, w = i ∧ ¬e.takesDelta spaceId := by
  intro e he
  obtain ⟨shown, heq, hnot⟩ := hquiet _ (mem_ranBy.mp he)
  rw [Output.ran.injEq] at heq
  exact ⟨heq.1, heq.2 ▸ hnot⟩

theorem ranBy_called (w : Nat) : ranBy w (lead ++ [.ran v (.threadDelta spaceId true true),
    .ran i (.callbackBegin k allocates), .threadSwitch i spaceId callback v delta next]) =
      ranBy w lead ++ ((if v = w then [.threadDelta spaceId true true] else []) ++
        if i = w then [.callbackBegin k allocates] else []) := by
  rw [ranBy_append, ranBy_ran, ranBy_ran]
  by_cases hv : v = w
  · rw [if_pos hv, if_pos hv]
    split <;> rfl
  · rw [if_neg hv, if_neg hv]
    split <;> rfl

/-- The step of a callback takes the delta of the previous thread, and nothing else of it. -/
theorem ranBy_previous (hquiet : ∀ output ∈ lead, ∃ event, output = .ran i event ∧
    ¬event.takesDelta spaceId) (hother : v ≠ i) :
    ranBy v (lead ++ [.ran v (.threadDelta spaceId true true),
      .ran i (.callbackBegin k allocates), .threadSwitch i spaceId callback v delta next]) =
      [.threadDelta spaceId true true] := by
  have hnil : ranBy v lead = [] :=
    List.eq_nil_iff_forall_not_mem.mpr (fun e he => hother (ranBy_lead hquiet e he).1)
  rw [ranBy_called, hnil, if_pos rfl, if_neg (Ne.symm hother)]
  rfl

theorem called_untouched (hshown : out = lead ++ [.ran v (.threadDelta spaceId true true),
    .ran i (.callbackBegin k allocates), .threadSwitch i spaceId callback v delta next])
    (hquiet : ∀ output ∈ lead, ∃ event, output = .ran i event ∧ ¬event.takesDelta spaceId)
    (hw : w ≠ v) : ∀ e ∈ ranBy w out, ¬e.takesDelta spaceId := by
  intro e he
  rw [hshown, ranBy_called, if_neg (Ne.symm hw), List.nil_append, List.mem_append] at he
  obtain he | he := he
  · exact (ranBy_lead hquiet e he).2
  · split at he
    · rw [List.mem_singleton.mp he]
      exact id
    · cases he

theorem called_named (hshown : out = lead ++ [.ran v (.threadDelta spaceId true true),
    .ran i (.callbackBegin k allocates), .threadSwitch i spaceId callback v delta next])
    (last : Option (Nat × Nat)) : out.foldl (Retrace.named spaceId) last = some (i, next) := by
  rw [hshown, List.foldl_append]
  simp only [List.foldl_cons, List.foldl_nil, Retrace.named, if_true]

theorem called_accumulated (hshown : out = lead ++ [.ran v (.threadDelta spaceId true true),
    .ran i (.callbackBegin k allocates), .threadSwitch i spaceId callback v delta next])
    (hquiet : ∀ output ∈ lead, ∃ event, output = .ran i event ∧ ¬event.takesDelta spaceId)
    (stack : List Nat) : accumulated spaceId w out stack =
      if v = w then decode stack (.delta delta) else some stack := by
  have hsilent : Silent spaceId lead := by
    refine ⟨?_, ?_⟩
    · intro u room tuple hmem
      exact (ranBy_lead hquiet _ (mem_ranBy.mpr hmem)).2 rfl
    · intro j callback' v' delta' next' hmem
      obtain ⟨event, heq, -⟩ := hquiet _ hmem
      cases heq
  rw [hshown, accumulated_append, hsilent.accumulated, Option.bind_some]
  change (if spaceId = spaceId ∧ v = w then
    (decode stack (.delta delta)).bind (accumulated spaceId w []) else some stack) = _
  simp only [true_and]
  split
  · cases decode stack (.delta delta) <;> rfl
  · rfl

end called

section steps
variable (h : Streamed p spaceId origin start earlier done interp outs)
  (hran : ∀ v, threadRun p (ranBy v (earlier ++ outs)) (origin.threads v) = some (interp.threads v))
  (hnext : Ran p interp interp' out)
include h hran hnext

theorem Streamed.silent (hquiet : Silent spaceId out) :
    (∀ v, oncePerCallback p spaceId (ranBy v (earlier ++ (outs ++ out))) (origin.threads v) true =
      true) ∧
    (∀ v, accumulated spaceId v (outs ++ out) [] =
      consumerStack p spaceId (ranBy v (earlier ++ (outs ++ out))) (origin.threads v) []) ∧
    lastNamed spaceId (outs ++ out) = lastNamed spaceId outs := by
  refine ⟨?_, ?_, ?_⟩
  · intro v
    rw [← List.append_assoc, ranBy_append, oncePerCallback_append (hran v)]
    exact ⟨h.once v, oncePerCallback_quiet (hquiet.quiet v)⟩
  · intro v
    rw [accumulated_append, ← List.append_assoc, ranBy_append, consumerStack_append (hran v),
      h.stack v]
    cases consumerStack p spaceId (ranBy v (earlier ++ outs)) (origin.threads v) [] with
    | none => rfl
    | some stack =>
      rw [Option.bind_some, Option.bind_some, hquiet.accumulated,
        consumerStack_quiet (hnext v) (hquiet.quiet v)]
  · unfold lastNamed
    rw [List.foldl_append]
    exact hquiet.named _

theorem Streamed.kept
    (hinit : initialiser p spaceId (done ++ [event]) start =
      (initialiser p spaceId done start).or (cursorAt interp' spaceId))
    (hstanding : ∀ v, cursorAt interp spaceId = some v → ∃ l, Standing (interp.threads v) l)
    (hkept : switchAt interp' spaceId = switchAt interp spaceId) (hquiet : Silent spaceId out) :
    Streamed p spaceId origin start earlier (done ++ [event]) interp' (outs ++ out) := by
  have hcursor : cursorAt interp' spaceId = cursorAt interp spaceId := by
    unfold cursorAt
    rw [hkept]
  obtain ⟨honce, hstack, hnamed⟩ := h.silent hran hnext hquiet
  refine ⟨?_, ?_, ?_, ?_, honce, ?_, hstack⟩
  · rw [hkept, hcursor]
    exact h.registered
  · rw [hnamed, hcursor]
    intro r id hlast
    rw [ran_sameThread (hnext r)]
    exact h.named r id hlast
  · rw [hnamed, hcursor, hinit, hcursor]
    intro hlast
    rw [h.initialised hlast]
    cases cursorAt interp spaceId <;> rfl
  · rw [hcursor]
    intro v hv
    obtain ⟨l, hstanding⟩ := hstanding v hv
    exact (h.knows v hv).run hstanding (hnext v)
  · rw [hcursor]
    intro v hv hactive
    obtain ⟨l, hstanding⟩ := hstanding v hv
    rw [← List.append_assoc, ranBy_append, List.foldl_append]
    exact untaken_quiet hstanding (hnext v) (hquiet.quiet v) (h.fresh v hv) hactive

theorem Streamed.first {i callback : Nat}
    (hinit : initialiser p spaceId (done ++ [event]) start =
      (initialiser p spaceId done start).or (cursorAt interp' spaceId))
    (hcursor : switchAt interp spaceId = some (callback, none))
    (hmoved : switchAt interp' spaceId = some (callback, some i)) (hquiet : Silent spaceId out)
    (hknows : Knows (interp'.threads i) spaceId)
    (hinactive : (interp'.threads i).tstate.threadCallbackActive = false) :
    Streamed p spaceId origin start earlier (done ++ [event]) interp' (outs ++ out) := by
  have hbefore := cursorAt_of hcursor
  have hafter := cursorAt_of hmoved
  obtain ⟨honce, hstack, hnamed⟩ := h.silent hran hnext hquiet
  have hlast : lastNamed spaceId outs = none := by
    cases hnone : lastNamed spaceId outs with
    | none => rfl
    | some last =>
      have hheld := (h.named last.1 last.2 hnone).1
      rw [hbefore] at hheld
      cases hheld
  refine ⟨⟨_, by rw [hafter]; exact hmoved⟩, ?_, ?_, ?_, honce, ?_, hstack⟩
  · intro r id hsome
    rw [hnamed, hlast] at hsome
    cases hsome
  · intro _
    rw [hinit, h.initialised hlast, hbefore]
    rfl
  · intro v hv
    rw [hafter] at hv
    exact Option.some.inj hv ▸ hknows
  · intro v hv hactive
    rw [hafter] at hv
    rw [← Option.some.inj hv, hinactive] at hactive
    cases hactive

/-- The cursor moves with a callback, which carries a delta of the thread that it was at. -/
theorem Streamed.called {i v k callback : Nat} {allocates : Bool} {delta : List Nat}
    {lead : List Output} (hcursor : switchAt interp spaceId = some (callback, some v))
    (hother : v ≠ i) (hmoved : switchAt interp' spaceId = some (callback, some i))
    (hshown : out = lead ++ [.ran v (.threadDelta spaceId true true),
      .ran i (.callbackBegin k allocates),
      .threadSwitch i spaceId callback v delta (interp.threads i).tstate.threadId])
    (hquiet : ∀ output ∈ lead, ∃ event, output = .ran i event ∧ ¬event.takesDelta spaceId)
    (hresult : (threadDeltaForTstate (interp.threads v) spaceId true true).1 = .delta delta)
    (hknows : Knows (interp'.threads i) spaceId) :
    Streamed p spaceId origin start earlier (done ++ [event]) interp' (outs ++ out) := by
  have hbefore := cursorAt_of hcursor
  have hafter := cursorAt_of hmoved
  have huntouched : ∀ w, w ≠ v → ∀ e ∈ ranBy w out, ¬e.takesDelta spaceId :=
    fun _ => called_untouched hshown hquiet
  have htaken : ranBy v out = [.threadDelta spaceId true true] :=
    hshown ▸ ranBy_previous hquiet hother
  have hlast : lastNamed spaceId (outs ++ out) = some (i, (interp.threads i).tstate.threadId) := by
    unfold lastNamed
    rw [List.foldl_append]
    exact called_named hshown _
  refine ⟨⟨_, by rw [hafter]; exact hmoved⟩, ?_, ?_, ?_, ?_, ?_, ?_⟩
  · intro r id hsome
    rw [hlast] at hsome
    cases hsome
    exact ⟨hafter, (ran_sameThread (hnext i)).symm⟩
  · intro hnone
    rw [hlast] at hnone
    cases hnone
  · intro w hw
    rw [hafter] at hw
    exact Option.some.inj hw ▸ hknows
  · intro w
    rw [← List.append_assoc, ranBy_append, oncePerCallback_append (hran w)]
    refine ⟨h.once w, ?_⟩
    by_cases hw : w = v
    · rw [hw, htaken]
      have hfirst : firstInCallback (interp.threads v) spaceId
          ((ranBy v (earlier ++ outs)).foldl (untaken spaceId) true)
          (.threadDelta spaceId true true) = true := by
        cases hactive : (interp.threads v).tstate.threadCallbackActive with
        | false => simp [firstInCallback, hactive]
        | true => simp [firstInCallback, h.fresh v hbefore hactive]
      rw [oncePerCallback, hfirst]
      rfl
    · exact oncePerCallback_quiet (huntouched w hw)
  · intro w hw _
    rw [hafter] at hw
    rw [← Option.some.inj hw, ← List.append_assoc, ranBy_append, hshown, ranBy_called,
      if_neg hother, if_pos rfl, List.nil_append, ← List.append_assoc, List.foldl_append]
    rfl
  · intro w
    rw [accumulated_append, ← List.append_assoc, ranBy_append, consumerStack_append (hran w),
      h.stack w]
    cases consumerStack p spaceId (ranBy w (earlier ++ outs)) (origin.threads w) [] with
    | none => rfl
    | some stack =>
      rw [Option.bind_some, Option.bind_some, called_accumulated hshown hquiet]
      by_cases hw : w = v
      · have hconsume : consume (interp.threads v) spaceId stack
            (.threadDelta spaceId true true) = decode stack (.delta delta) := by
          rw [← hresult]
          exact if_pos rfl
        rw [if_pos hw.symm, hw, htaken, consumerStack, hconsume]
        cases decode stack (.delta delta) with
        | none => rfl
        | some next => rfl
      · rw [if_neg (Ne.symm hw), consumerStack_quiet (hnext w) (huntouched w hw)]

theorem Streamed.step (hdone : StepRun.run (interpStep p) done start = some (interp, outs))
    (hstep : interpStep p interp event = some (interp', out))
    (hstanding : ∀ v, cursorAt interp spaceId = some v → ∃ l, Standing (interp.threads v) l)
    {i : Nat} (hstreams : Streams spaceId i interp interp' out) :
    Streamed p spaceId origin start earlier (done ++ [event]) interp' (outs ++ out) := by
  have hinit := @initialiser_append p interp interp' spaceId out done event start outs hdone hstep
  cases hstreams with
  | silent kept quiet => exact h.kept hran hnext hinit hstanding kept quiet
  | first cursor moved quiet knows inactive =>
    exact h.first hran hnext hinit cursor moved quiet knows inactive
  | called cursor other moved shown quiet result knows =>
    exact h.called hran hnext cursor other moved shown quiet result knows

end steps

theorem Streamed.begun {registered callback : Nat} (hunused : Unused origin)
    (hsound : Sound interp) (hlive : ∀ v ∈ interp.live, v ∈ origin.live)
    (hregistered : registered ∈ interp.live)
    (hran : ∀ v, threadRun p (ranBy v earlier) (origin.threads v) = some (interp.threads v))
    (hquiet : ∀ v allocates tuple, .ran v (.threadDelta spaceId allocates tuple) ∉ earlier) :
    Streamed p spaceId origin
      (setThreadSwitchCallback interp registered (some callback) spaceId true).2 earlier []
      (setThreadSwitchCallback interp registered (some callback) spaceId true).2 [] := by
  obtain ⟨-, hthreads, -, -, ⟨hwhy, -⟩ | hswitch⟩ :=
    hsound.tidy.setThreadSwitchCallback registered (some callback) spaceId true
  · obtain hwhy | hwhy := hwhy <;> cases hwhy
  have hentry : switchAt (setThreadSwitchCallback interp registered (some callback) spaceId true).2
      spaceId = some (callback, visibleThreadForSpace interp registered spaceId) :=
    (hswitch spaceId).trans (if_pos rfl)
  have hcursor := cursorAt_of hentry
  have hquiet' : ∀ v, ∀ event ∈ ranBy v earlier, ¬event.takesDelta spaceId := by
    intro v event hmem htakes
    cases event with
    | threadDelta id allocates tuple =>
      have heq : id = spaceId := htakes
      exact hquiet v allocates tuple (heq ▸ mem_ranBy.mp hmem)
    | _ => exact htakes
  -- the thread that the registration finds is the one that registers
  have hvisible : ∀ v, visibleThreadForSpace interp registered spaceId = some v →
      v = registered ∧ Knows (interp.threads v) spaceId := by
    intro v hv
    have hidle := hunused.idle registered (hlive registered hregistered)
    have hseen := hidle.seenFrames.run hidle.standing (hran registered)
    unfold visibleThreadForSpace at hv
    dsimp only at hv
    split at hv
    · cases hv
    · rename_i n hfind
      split at hv
      · rename_i hnear
        cases hv
        obtain ⟨f, hf⟩ := Option.isSome_iff_exists.mp hnear
        unfold nearestVisibleFrameInSpace at hf
        exact ⟨rfl, n, hfind, hseen f n (visibleIn_space (List.find?_some hf))⟩
      · cases hv
  refine ⟨⟨callback, by rw [hcursor]; exact hentry⟩, ?_, fun _ => rfl, ?_, ?_, ?_, ?_⟩
  · intro r id hlast
    cases hlast
  · intro v hv
    rw [hcursor] at hv
    rw [hthreads.threads]
    exact (hvisible v hv).2
  · intro v
    rw [List.append_nil]
    exact oncePerCallback_quiet (hquiet' v)
  · intro v hv hactive
    rw [hcursor] at hv
    obtain ⟨rfl, -⟩ := hvisible v hv
    rw [hthreads.threads] at hactive
    rw [List.append_nil]
    exact untaken_quiet (hunused.idle v (hlive v hregistered)).standing (hran v) (hquiet' v)
      (fun _ => rfl) hactive
  · intro v
    rw [List.append_nil, consumerStack_quiet (hran v) (hquiet' v)]
    rfl

theorem undisturbed_spec (h : undisturbed spaceId event = true) :
    event.findsRoom = true ∧ (∀ j, event ≠ .clearThread j) ∧
      (∀ j allocates tuple, event ≠ .run j (.threadDelta spaceId allocates tuple)) ∧
      ∀ j callback allocates, event ≠ .setThreadSwitchCallback j callback spaceId allocates := by
  cases event with
  | run j shown =>
    refine ⟨rfl, by simp, ?_, by simp⟩
    intro j' allocates tuple heq
    cases heq
    simp [undisturbed] at h
  | setThreadSwitchCallback j callback id allocates =>
    refine ⟨rfl, by simp, by simp, ?_⟩
    intro j' callback' allocates' heq
    cases heq
    simp [undisturbed] at h
  | clearThread j => cases h
  | boundary j jumps offset choices => exact ⟨h, by simp, by simp, by simp⟩
  | callbackReturns j raised choices => exact ⟨h, by simp, by simp, by simp⟩
  | callAt request => exact ⟨rfl, by simp, by simp, by simp⟩
  | clearCallAt id => exact ⟨rfl, by simp, by simp, by simp⟩

/-- What the callbacks of the space are described by, and how the threads got there. -/
structure Stream (p : Platform) (spaceId : Nat) (origin start : Interp) (earlier : List Output)
    (done : List InterpEvent) (interp : Interp) (outs : List Output) : Prop where
  sound : Sound interp
  live : ∀ v ∈ interp.live, v ∈ origin.live
  ran : ∀ v, threadRun p (ranBy v (earlier ++ outs)) (origin.threads v) = some (interp.threads v)
  streamed : Streamed p spaceId origin start earlier done interp outs

theorem Stream.streams (h : Stream p spaceId origin start earlier done interp outs)
    (hunused : Unused origin) (hevent : undisturbed spaceId event = true)
    (hstep : interpStep p interp event = some (interp', out)) :
    Ran p interp interp' out ∧ ∃ i, Streams spaceId i interp interp' out := by
  obtain ⟨hroom, hclear, honly, hkept⟩ := undisturbed_spec hevent
  have hstepping := h.sound.stepping hstep
  refine ⟨hstepping.ran h.sound hclear, ?_⟩
  refine hstepping.streams h.sound hroom hclear honly hkept ?_ h.streamed.knows
  intro v hv
  have hidle := hunused.idle v (h.live v hv)
  exact hidle.seenFrames.run hidle.standing (h.ran v)

theorem Stream.step (h : Stream p spaceId origin start earlier done interp outs)
    (hunused : Unused origin) (hevent : undisturbed spaceId event = true)
    (hdone : StepRun.run (interpStep p) done start = some (interp, outs))
    (hstep : interpStep p interp event = some (interp', out)) :
    Stream p spaceId origin start earlier (done ++ [event]) interp' (outs ++ out) := by
  obtain ⟨hnext, i, hstreams⟩ := h.streams hunused hevent hstep
  have hstepping := h.sound.stepping hstep
  refine ⟨hstepping.sound h.sound, ?_, ?_, ?_⟩
  · intro v hv
    exact h.live v (hstepping.live h.sound v hv)
  · intro v
    rw [← List.append_assoc, ranBy_append, threadRun_join _ (h.ran v)]
    exact hnext v
  · refine h.streamed.step h.ran hnext hdone hstep ?_ hstreams
    intro v hv
    obtain ⟨callback, hswitch⟩ := h.streamed.registered
    exact h.sound.standing v (h.sound.cursors spaceId callback v (hv ▸ hswitch))

theorem Stream.run {events : List InterpEvent} (hunused : Unused origin)
    (hbegun : Stream p spaceId origin start earlier [] start [])
    (hevents : ∀ event ∈ events, undisturbed spaceId event = true)
    (hrun : StepRun.run (interpStep p) events start = some (interp, outs)) :
    Stream p spaceId origin start earlier events interp outs := by
  refine @StepRun.run_induction _ _ _ (interpStep p) (fun done interp outs =>
    (∀ event ∈ done, undisturbed spaceId event = true) →
      Stream p spaceId origin start earlier done interp outs) start (fun _ => hbegun) ?_ _ _ _ hrun
    hevents
  intro done mid outs event next out hdone ih hstep hevents
  refine (ih ?_).step hunused ?_ hdone hstep
  · exact fun e he => hevents e (List.mem_append_left _ he)
  · exact hevents event (List.mem_append_right _ List.mem_cons_self)

end streamed

section description
variable {p : Platform} {interp₀ interp₁ interp₂ interp interp' : Interp} {spaceId i : Nat}
  {before after : List InterpEvent} {event : InterpEvent} {outs₀ none₁ outs out : List Output}
  {registered callback called v next : Nat} {delta : List Nat}

/-- Each delta that a callback of a space carries is of the thread that the last callback named, or
first of the thread that the cursor started at, and it decodes over what that thread's deltas add
up to, as long as that thread's instructions come one after the other. -/
theorem switchStream_describesItself (hunused : Unused interp₀)
    (hbefore : StepRun.run (interpStep p) before interp₀ = some (interp₁, outs₀))
    (hkept : ∀ j, .clearThread j ∉ before)
    (huntaken : ∀ j allocates tuple, .ran j (.threadDelta spaceId allocates tuple) ∉ outs₀)
    (hregister : interpStep p interp₁
      (.setThreadSwitchCallback registered (some callback) spaceId true) = some (interp₂, none₁))
    (hafter : StepRun.run (interpStep p) after interp₂ = some (interp, outs))
    (hstep : interpStep p interp event = some (interp', out))
    (hevents : ∀ e ∈ after ++ [event], undisturbed spaceId e = true)
    (hdelivered : .threadSwitch i spaceId called v delta next ∈ out)
    (hsettled : ∀ f, Settled ((interp₀.threads v).frames f)) :
    v ≠ i ∧ next = (interp.threads i).tstate.threadId ∧
      (lastNamed spaceId outs = some (v, (interp.threads v).tstate.threadId) ∨
        lastNamed spaceId outs = none ∧ initialiser p spaceId after interp₂ = some v) ∧
      (promised p climbs spaceId (ranBy v (outs₀ ++ outs ++ out)) (interp₀.threads v) [] = true →
        ∃ stack, accumulated spaceId v outs [] = some stack ∧
          Decodes stack (coordinates (interp.threads v) spaceId 0) (.delta delta)) := by
  have hsound₁ := hunused.sound.run hbefore
  have hran₁ := hunused.sound.ranRun hbefore hkept
  have hlive₁ := hunused.sound.live_run hbefore
  obtain ⟨hregistered, rfl⟩ : registered ∈ interp₁.live ∧
      (setThreadSwitchCallback interp₁ registered (some callback) spaceId true).2 = interp₂ := by
    have hstepping := hsound₁.stepping hregister
    cases hstepping with
    | setThreadSwitchCallback live => exact ⟨live, rfl⟩
  have hbegun : Stream p spaceId interp₀
      (setThreadSwitchCallback interp₁ registered (some callback) spaceId true).2 outs₀ []
      (setThreadSwitchCallback interp₁ registered (some callback) spaceId true).2 [] := by
    have hthreads := (hsound₁.tidy.setThreadSwitchCallback registered (some callback) spaceId
      true).2.1
    refine ⟨hsound₁.setThreadSwitchCallback hregistered _ _ _, ?_, ?_,
      Streamed.begun hunused hsound₁ hlive₁ hregistered hran₁ huntaken⟩
    · rw [hthreads.live]
      exact hlive₁
    · intro w
      rw [List.append_nil, hthreads.threads]
      exact hran₁ w
  have hstream := Stream.run hunused hbegun
    (fun e he => hevents e (List.mem_append_left _ he)) hafter
  obtain ⟨-, j, hstreams⟩ := hstream.streams hunused
    (hevents event (List.mem_append_right _ List.mem_cons_self)) hstep
  cases hstreams with
  | silent kept quiet => exact absurd hdelivered (quiet.calls _ _ _ _ _)
  | first cursor moved quiet knows inactive => exact absurd hdelivered (quiet.calls _ _ _ _ _)
  | called cursor other moved shown quiet result knows =>
    rename_i callback' v' k allocates delta' lead
    -- the step calls the space's callback once, at its end
    have hlast : i = j ∧ v = v' ∧ delta = delta' ∧ next = (interp.threads j).tstate.threadId := by
      rw [shown, List.mem_append] at hdelivered
      obtain hmem | hmem := hdelivered
      · obtain ⟨e, heq, -⟩ := quiet _ hmem
        cases heq
      · simp only [List.mem_cons, reduceCtorEq, List.not_mem_nil, or_false, false_or,
          Output.threadSwitch.injEq] at hmem
        exact ⟨hmem.1, hmem.2.2.2.1, hmem.2.2.2.2.1, hmem.2.2.2.2.2⟩
    obtain ⟨rfl, rfl, rfl, rfl⟩ := hlast
    have hcursor := cursorAt_of cursor
    refine ⟨other, rfl, ?_, ?_⟩
    · cases hlast : lastNamed spaceId outs with
      | none =>
        refine Or.inr ⟨rfl, ?_⟩
        rw [hstream.streamed.initialised hlast, hcursor]
      | some last =>
        obtain ⟨hheld, hid⟩ := hstream.streamed.named last.1 last.2 hlast
        rw [hcursor] at hheld
        have hsame : last.1 = v := (Option.some.inj hheld).symm
        rw [hsame] at hid
        exact Or.inl (congrArg some (Prod.ext hsame hid))
    · intro hpromised
      have hlive := hstream.sound.cursors spaceId callback' v cursor
      have htaken : ranBy v (outs₀ ++ outs ++ out) =
          ranBy v (outs₀ ++ outs) ++ [.threadDelta spaceId true true] := by
        rw [ranBy_append, shown, ranBy_previous quiet other]
      rw [htaken] at hpromised
      obtain ⟨stack, hstack, hdecodes⟩ := (hunused.idle v (hstream.live v hlive)).decodesPinned
        hsettled (hstream.ran v) hpromised (hstream.streamed.once v)
        (hstream.streamed.fresh v hcursor)
      refine ⟨stack, (hstream.streamed.stack v).trans hstack, ?_⟩
      rw [← result]
      exact hdecodes

/-- A second thread's callback runs a frame; in the meantime a third thread's boundary takes the
second one's delta. -/
def bodyOverlap : List InterpEvent := [
  .run 1 (.call 0 0 true true), .boundary 1 [] 2 (roomyChoices 9),
  .run 1 (.call 1 0 true true), .boundary 1 [] 0 (roomyChoices 8),
  .run 2 (.call 0 0 true true)]

theorem switchStream_describesItself_overlap :
    ∃ interp₁ interp₂ interp interp', ∃ outs₀ none₁ outs out : List Output,
      StepRun.run (interpStep ⟨true, true⟩) [.run 0 (.call 0 0 true true),
        .boundary 0 [] 4 (roomyChoices 9)] (freshInterp ⟨true, true⟩ [0, 1, 2]) =
          some (interp₁, outs₀) ∧
      interpStep ⟨true, true⟩ interp₁ (.setThreadSwitchCallback 0 (some 7) 0 true) =
        some (interp₂, none₁) ∧
      StepRun.run (interpStep ⟨true, true⟩) bodyOverlap interp₂ = some (interp, outs) ∧
      (interp.threads 1).tstate.threadCallbackActive = true ∧
      interpStep ⟨true, true⟩ interp (.boundary 2 [] 0 (roomyChoices 9)) = some (interp', out) ∧
      .threadSwitch 2 0 7 1 [0, 2, 0] 3 ∈ out ∧
      Decodes [] (coordinates (interp.threads 1) 0 0) (.delta [0, 2, 0]) := by
  obtain ⟨interp₁, outs₀, hbefore⟩ : ∃ interp₁ outs₀, StepRun.run (interpStep ⟨true, true⟩)
      [.run 0 (.call 0 0 true true), .boundary 0 [] 4 (roomyChoices 9)]
      (freshInterp ⟨true, true⟩ [0, 1, 2]) = some (interp₁, outs₀) := ⟨_, _, rfl⟩
  obtain ⟨interp₂, none₁, hregister⟩ : ∃ interp₂ none₁, interpStep ⟨true, true⟩ interp₁
      (.setThreadSwitchCallback 0 (some 7) 0 true) = some (interp₂, none₁) := by
    cases hbefore
    exact ⟨_, _, rfl⟩
  obtain ⟨interp, outs, hafter, hactive⟩ : ∃ interp outs, StepRun.run (interpStep ⟨true, true⟩)
      bodyOverlap interp₂ = some (interp, outs) ∧
      (interp.threads 1).tstate.threadCallbackActive = true := by
    cases hbefore
    cases hregister
    exact ⟨_, _, rfl, rfl⟩
  obtain ⟨interp', out, hstep, hdelivered⟩ : ∃ interp' out, interpStep ⟨true, true⟩ interp
      (.boundary 2 [] 0 (roomyChoices 9)) = some (interp', out) ∧
      .threadSwitch 2 0 7 1 [0, 2, 0] 3 ∈ out := by
    cases hbefore
    cases hregister
    cases hafter
    exact ⟨_, _, rfl, .tail _ (.tail _ (.tail _ (.head _)))⟩
  have hdescribed := switchStream_describesItself (freshInterp_unused ⟨true, true⟩ (by decide))
    hbefore (by simp) (by cases hbefore; simp) hregister hafter hstep (by decide) hdelivered
    (fun _ => Or.inl rfl)
  obtain ⟨stack, hstack, hdecodes⟩ := hdescribed.2.2.2 (by
    cases hbefore
    cases hregister
    cases hafter
    cases hstep
    rfl)
  refine ⟨interp₁, interp₂, interp, interp', outs₀, none₁, outs, out, hbefore, hregister, hafter,
    hactive, hstep, hdelivered, ?_⟩
  have hempty : stack = [] := by
    cases hbefore
    cases hregister
    cases hafter
    exact (Option.some.inj hstack).symm
  exact hempty ▸ hdecodes

/-- A frame's generator is at 2 and both are shown, the frame is shown alone, and then two jumps in
each bring the frame and its generator back to where they were shown. -/
def bodyJumpsBack : List InterpEvent := [
  .boundary 0 [] 5 (roomyChoices 9), .run 0 (.newGenerator 1 1), .run 0 (.resume 1 false true),
  .boundary 0 [] 2 (roomyChoices 9),
  .run 1 (.call 2 0 true true), .boundary 1 [] 0 (roomyChoices 8),
  .callbackReturns 1 false (roomyChoices 8),
  .run 0 (.leave 0), .boundary 0 [(5, 7), (5, 3)] 3 (roomyChoices 9),
  .callbackReturns 0 false (roomyChoices 9),
  .boundary 1 [] 1 (roomyChoices 8), .callbackReturns 1 false (roomyChoices 8),
  .run 0 (.resume 1 false true), .boundary 0 [(2, 4), (2, 0)] 0 (roomyChoices 9),
  .callbackReturns 0 false (roomyChoices 9)]

theorem switchStream_describesItself_jumpsBack :
    ∃ interp₁ interp₂ interp interp', ∃ outs₀ none₁ outs out : List Output,
      Unused (freshInterp ⟨true, true⟩ [0, 1]) ∧
      (∀ f, Settled (((freshInterp ⟨true, true⟩ [0, 1]).threads 0).frames f)) ∧
      StepRun.run (interpStep ⟨true, true⟩) [.run 0 (.call 0 0 true true),
        .boundary 0 [] 4 (roomyChoices 9)] (freshInterp ⟨true, true⟩ [0, 1]) =
          some (interp₁, outs₀) ∧
      interpStep ⟨true, true⟩ interp₁ (.setThreadSwitchCallback 0 (some 7) 0 true) =
        some (interp₂, none₁) ∧
      StepRun.run (interpStep ⟨true, true⟩) bodyJumpsBack interp₂ = some (interp, outs) ∧
      interpStep ⟨true, true⟩ interp (.boundary 1 [] 2 (roomyChoices 8)) = some (interp', out) ∧
      (∀ e ∈ bodyJumpsBack ++ [.boundary 1 [] 2 (roomyChoices 8)], undisturbed 0 e = true) ∧
      promised ⟨true, true⟩ fromItself 0 (ranBy 0 (outs₀ ++ outs ++ out))
        ((freshInterp ⟨true, true⟩ [0, 1]).threads 0) [] = true ∧
      .threadSwitch 1 0 7 0 [4] 2 ∈ out ∧ accumulated 0 0 outs [] = some [5, 0] ∧
      coordinates (interp.threads 0) 0 0 = some [5, 0, 2, 0] ∧
      ¬Decodes [5, 0] (coordinates (interp.threads 0) 0 0) (.delta [4]) := by
  have hruns : ((StepRun.run (interpStep ⟨true, true⟩) [.run 0 (.call 0 0 true true),
      .boundary 0 [] 4 (roomyChoices 9)] (freshInterp ⟨true, true⟩ [0, 1])).bind fun first =>
    (interpStep ⟨true, true⟩ first.1 (.setThreadSwitchCallback 0 (some 7) 0 true)).bind fun second =>
    (StepRun.run (interpStep ⟨true, true⟩) bodyJumpsBack second.1).bind fun third =>
    (interpStep ⟨true, true⟩ third.1 (.boundary 1 [] 2 (roomyChoices 8))).map fun last =>
      (promised ⟨true, true⟩ fromItself 0 (ranBy 0 (first.2 ++ third.2 ++ last.2))
        ((freshInterp ⟨true, true⟩ [0, 1]).threads 0) [],
      decide (.threadSwitch 1 0 7 0 [4] 2 ∈ last.2), accumulated 0 0 third.2 [],
      coordinates (third.1.threads 0) 0 0)) =
      some (true, true, some [5, 0], some [5, 0, 2, 0]) := by decide +kernel
  obtain ⟨⟨interp₁, outs₀⟩, hbefore, hruns⟩ := Option.bind_eq_some_iff.mp hruns
  obtain ⟨⟨interp₂, none₁⟩, hregister, hruns⟩ := Option.bind_eq_some_iff.mp hruns
  obtain ⟨⟨interp, outs⟩, hafter, hruns⟩ := Option.bind_eq_some_iff.mp hruns
  obtain ⟨⟨interp', out⟩, hstep, hshown⟩ := Option.map_eq_some_iff.mp hruns
  simp only [Prod.mk.injEq, decide_eq_true_eq] at hshown
  obtain ⟨hpromised, hdelivered, hstack, hcoordinates⟩ := hshown
  refine ⟨interp₁, interp₂, interp, interp', outs₀, none₁, outs, out,
    freshInterp_unused ⟨true, true⟩ (by decide), fun _ => Or.inl rfl, hbefore, hregister, hafter,
    hstep, by decide, hpromised, hdelivered, hstack, hcoordinates, ?_⟩
  rw [hcoordinates]
  rintro ⟨hshort, -⟩
  exact absurd hshort (by decide)

end description

end Retrace
