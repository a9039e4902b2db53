import Retrace.SwitchAlgorithm
import Retrace.TargetHits
import Retrace.ThreadTwins

/-! Programs with `call_at` callbacks that touch nothing, with all targets armed and with one. -/

set_option autoImplicit false

namespace Retrace

/-- What a check for a thread switch comes to when nothing fails. -/
inductive SwitchTurn where
  | stays
  | passes
  | starts (spaceId : Nat)
  | calls (spaceId previous : Nat)
  deriving DecidableEq, Repr

/-- It goes by the last thread, and by the entry of the running frame's space. -/
def switchTurn (interp : Interp) (i : Nat) : SwitchTurn :=
  if interp.lastBytecodeThread = some i then .stays
  else if interp.lastBytecodeThread = none then .passes
  else
    match topSpaceId (interp.threads i) with
    | none => .passes
    | some spaceId =>
      match switchAt interp spaceId with
      | none => .passes
      | some (_, none) => .starts spaceId
      | some (_, some v) => if v = i then .passes else .calls spaceId v

inductive Turned (p : Platform) (interp : Interp) (i : Nat) (choices : BoundaryChoices) :
    SwitchTurn → Interp → Prop
  | stays : Turned p interp i choices .stays interp
  | passes : Turned p interp i choices .passes (interp.setLast i)
  | starts {spaceId : Nat} :
      Turned p interp i choices (.starts spaceId) ((interp.setCursor spaceId i).setLast i)
  | calls {spaceId v : Nat} {m : Machine} (other : v ≠ i) (live : v ∈ interp.live)
      (step : threadStep p (interp.threads i) (.callbackBegin choices.scope true) = some m) :
      Turned p interp i choices (.calls spaceId v) ((((takeDelta interp v spaceId choices).setCursor
        spaceId i).setThread i m).setPending i (some .afterSwitch))

section turns
variable {p : Platform} {interp interp' : Interp} {i : Nat} {choices : BoundaryChoices}
  {out : List Output}

def turnFrom (i spaceId : Nat) : Option Nat → SwitchTurn
  | none => .starts spaceId
  | some v => if v = i then .passes else .calls spaceId v

theorem SwitchesIn.turn {entry : SpaceCallbackState} {callback : Nat}
    (h : SwitchesIn interp i entry callback) (htidy : Tidy interp) :
    switchTurn interp i = turnFrom i entry.spaceId entry.lastBytecodeThread := by
  obtain ⟨u, hlast, hne, -⟩ := h.previous
  have hother : interp.lastBytecodeThread ≠ some i := by
    rw [hlast]
    exact fun heq => hne (Option.some.inj heq)
  have hsome : interp.lastBytecodeThread ≠ none := by
    rw [hlast]
    exact Option.some_ne_none u
  unfold switchTurn
  rw [if_neg hother, if_neg hsome, (switchEntry_callback h.found).2.1]
  dsimp only
  rw [h.switchAt htidy]
  cases entry.lastBytecodeThread <;> rfl

theorem switchTurn_quiet (htracked : Tracked interp) (hlive : i ∈ interp.live)
    (hother : interp.lastBytecodeThread ≠ some i)
    (hnone : ∀ entry callback, ¬SwitchesIn interp i entry callback) :
    switchTurn interp i = .passes := by
  unfold switchTurn
  rw [if_neg hother]
  split
  · rfl
  · rename_i hsome
    obtain ⟨u, hu⟩ := Option.ne_none_iff_exists'.mp hsome
    have hne : u ≠ i := fun heq => hother (heq ▸ hu)
    cases htop : topSpaceId (interp.threads i) with
    | none => rfl
    | some spaceId =>
      dsimp only
      cases hswitch : switchAt interp spaceId with
      | none => rfl
      | some registered =>
        obtain ⟨entry, called, hswitches⟩ := htracked.switchesIn hlive htop hswitch hu hne
        exact absurd hswitches (hnone entry called)

theorem Switching.turned (h : Switching p interp i choices interp' out) (htracked : Tracked interp)
    (hlive : i ∈ interp.live) (hroom : choices.findsRoom = true) :
    Turned p interp i choices (switchTurn interp i) interp' := by
  obtain ⟨henter, -, -, hident⟩ := choices.findsRoom_spec hroom
  cases h with
  | same last =>
    unfold switchTurn
    rw [if_pos last]
    exact .stays
  | quiet last none =>
    rw [switchTurn_quiet htracked hlive last none]
    exact .passes
  | first switches cursor =>
    rw [switches.turn htracked.sound.tidy, cursor]
    exact .starts
  | own switches cursor =>
    rw [switches.turn htracked.sound.tidy, cursor, turnFrom, if_pos rfl]
    exact .passes
  | error switches cursor other result =>
    obtain ⟨-, delta, hdelta⟩ := switches.answers htracked hroom cursor
    rw [result] at hdelta
    cases hdelta
  | gone switches cursor other result =>
    obtain ⟨-, delta, hdelta⟩ := switches.answers htracked hroom cursor
    rw [result] at hdelta
    cases hdelta
  | identFails switches cursor other result fails =>
    rw [hident] at fails
    cases fails
  | enterFails switches cursor other result step inactive =>
    rw [henter] at step
    rw [callbackBegin_active step] at inactive
    cases inactive
  | called switches cursor other result step active =>
    obtain ⟨hlive', -⟩ := switches.answers htracked hroom cursor
    rw [henter] at step
    rw [switches.turn htracked.sound.tidy, cursor, turnFrom, if_neg other]
    exact .calls other hlive' step

end turns

/-- The same threads, as far as the space and the program's frames go, the same switch callbacks,
and the same target of the space. -/
structure AlikeIn (own : Nat → Prop) (spaceId : Nat) (interp interp' : Interp) : Prop where
  live : interp'.live = interp.live
  last : interp'.lastBytecodeThread = interp.lastBytecodeThread
  pending : interp'.pending = interp.pending
  switches : ∀ id, switchAt interp' id = switchAt interp id
  slot : slotAt interp' spaceId = slotAt interp spaceId
  twins : ∀ i ∈ interp.live, Twin own spaceId (interp.threads i) (interp'.threads i)

section alike
variable {p : Platform} {own : Nat → Prop} {spaceId : Nat} {interp interp' mid mid' : Interp}
  {i : Nat} {choices : BoundaryChoices}

theorem AlikeIn.trans (h : AlikeIn own spaceId interp mid) (h' : AlikeIn own spaceId mid mid') :
    AlikeIn own spaceId interp mid' :=
  ⟨h'.live.trans h.live, h'.last.trans h.last, h'.pending.trans h.pending,
    fun id => (h'.switches id).trans (h.switches id), h'.slot.trans h.slot,
    fun i hi => (h.twins i hi).trans (h'.twins i (h.live ▸ hi))⟩

theorem AlikeIn.symm (h : AlikeIn own spaceId interp mid) : AlikeIn own spaceId mid interp :=
  ⟨h.live.symm, h.last.symm, h.pending.symm, fun id => (h.switches id).symm, h.slot.symm,
    fun i hi => (h.twins i (h.live ▸ hi)).symm⟩

theorem AlikeIn.setThread (h : AlikeIn own spaceId interp mid) {m m' : Machine}
    (htwin : Twin own spaceId m m') :
    AlikeIn own spaceId (interp.setThread i m) (mid.setThread i m') := by
  refine ⟨h.live, h.last, h.pending, h.switches, h.slot, ?_⟩
  intro j hj
  by_cases hij : j = i
  · subst hij
    rw [setThread_self, setThread_self]
    exact htwin
  · rw [setThread_of_ne _ _ hij, setThread_of_ne _ _ hij]
    exact h.twins j hj

theorem AlikeIn.setPending (h : AlikeIn own spaceId interp mid) (i : Nat)
    (pending : Option Pending) :
    AlikeIn own spaceId (interp.setPending i pending) (mid.setPending i pending) :=
  ⟨h.live, h.last, congrArg (fun before : Nat → Option Pending =>
    Function.update before i pending) h.pending, h.switches, h.slot, h.twins⟩

theorem AlikeIn.setLast (h : AlikeIn own spaceId interp mid) (i : Nat) :
    AlikeIn own spaceId (interp.setLast i) (mid.setLast i) :=
  ⟨h.live, rfl, h.pending, h.switches, h.slot, h.twins⟩

theorem AlikeIn.setCursor (h : AlikeIn own spaceId interp mid) (htidy : Tidy interp)
    (htidy' : Tidy mid) (id i : Nat) :
    AlikeIn own spaceId (interp.setCursor id i) (mid.setCursor id i) := by
  obtain ⟨-, hslot, hswitch⟩ := htidy.setCursor id i
  obtain ⟨-, hslot', hswitch'⟩ := htidy'.setCursor id i
  refine ⟨h.live, h.last, h.pending, ?_, (hslot' _).trans (h.slot.trans (hslot _).symm), h.twins⟩
  intro other
  rw [hswitch, hswitch', h.switches, h.switches]

theorem Sound.segment (h : Sound interp) (hlive : i ∈ interp.live) :
    ∃ base, Segment [] base (interp.threads i) := by
  obtain ⟨l, hstanding⟩ := h.standing i hlive
  obtain ⟨base, -, hseg⟩ := hstanding.segment
  exact ⟨base, hseg⟩

theorem AlikeIn.topSpaceId (h : AlikeIn own spaceId interp mid) (hsound : Sound interp)
    (hsound' : Sound mid) (hlive : i ∈ interp.live) :
    topSpaceId (mid.threads i) = Retrace.topSpaceId (interp.threads i) := by
  obtain ⟨base, hseg⟩ := hsound.segment hlive
  obtain ⟨base', hseg'⟩ := hsound'.segment (h.live ▸ hlive)
  exact (h.twins i hlive).topSpaceId hseg hseg'

theorem AlikeIn.switched (h : AlikeIn own spaceId interp mid) (htracked : Tracked interp)
    (htracked' : Tracked mid) (hlive : i ∈ interp.live) (hroom : choices.findsRoom = true)
    {out out' : List Output} (hswitching : Switching p interp i choices interp' out)
    (hswitching' : Switching p mid i choices mid' out') : AlikeIn own spaceId interp' mid' := by
  have hlive' : i ∈ mid.live := h.live ▸ hlive
  have hturned := hswitching.turned htracked hlive hroom
  have hturned' := hswitching'.turned htracked' hlive' hroom
  have hturn : switchTurn mid i = switchTurn interp i := by
    unfold switchTurn
    rw [h.last, h.topSpaceId htracked.sound htracked'.sound hlive]
    simp only [h.switches]
  rw [hturn] at hturned'
  generalize switchTurn interp i = turn at hturned hturned'
  cases hturned with
  | stays =>
    cases hturned'
    exact h
  | passes =>
    cases hturned'
    exact h.setLast i
  | starts =>
    cases hturned'
    exact (h.setCursor htracked.sound.tidy htracked'.sound.tidy _ i).setLast i
  | calls other live step =>
    cases hturned' with
    | calls other' live' step' =>
      rename_i id v m m'
      have htaken : AlikeIn own spaceId (takeDelta interp v id choices)
          (takeDelta mid v id choices) := by
        obtain ⟨base, hseg⟩ := htracked.sound.segment live
        obtain ⟨base', hseg'⟩ := htracked'.sound.segment live'
        exact h.setThread ((h.twins v live).threadDelta hseg hseg' _ _ _ _ _ _)
      have htidy : Tidy (takeDelta interp v id choices) :=
        (htracked.sound.takeDelta live id choices).tidy
      have htidy' : Tidy (takeDelta mid v id choices) :=
        (htracked'.sound.takeDelta live' id choices).tidy
      obtain ⟨l, hstanding⟩ := htracked.sound.standing i hlive
      obtain ⟨l', hstanding'⟩ := htracked'.sound.standing i hlive'
      have hkeeps : (ThreadEvent.callbackBegin choices.scope true).keepsTo own := rfl
      exact ((htaken.setCursor htidy htidy' id i).setThread ((h.twins i hlive).step hstanding
        hstanding' hkeeps step step')).setPending i _

theorem AlikeIn.passed (h : AlikeIn own spaceId interp mid) (hpassed : Passed interp interp')
    (hpassed' : Passed mid mid') (hslot : slotAt mid' spaceId = slotAt interp' spaceId) :
    AlikeIn own spaceId interp' mid' := by
  refine ⟨hpassed'.threads.live.trans (h.live.trans hpassed.threads.live.symm),
    hpassed'.threads.last.trans (h.last.trans hpassed.threads.last.symm),
    hpassed'.threads.pending.trans (h.pending.trans hpassed.threads.pending.symm), ?_, hslot, ?_⟩
  · intro id
    rw [hpassed.switches, hpassed'.switches]
    exact h.switches id
  · intro i hi
    rw [hpassed.threads.threads, hpassed'.threads.threads]
    exact h.twins i (hpassed.threads.live ▸ hi)

theorem AlikeIn.callback {later : Interp} {m m' : Machine} (hsound : Sound mid)
    (hsound' : Sound later) (hlive : i ∈ mid.live) (hidle : mid.pending i = none)
    (howned : ∀ f, .frame f ∈ (mid.threads i).tstate.stack → own f)
    (hbegin : threadStep p (mid.threads i) (.callbackBegin choices.scope true) = some m)
    (h : AlikeIn own spaceId ((mid.setThread i m).setPending i (some .afterCallAt)) later)
    (hend : threadStep p (later.threads i) .callbackEnd = some m') :
    AlikeIn own spaceId mid ((later.setThread i m').setPending i none) := by
  have hpending : later.pending = Function.update mid.pending i (some .afterCallAt) := h.pending
  refine ⟨h.live, h.last, ?_, h.switches, h.slot, ?_⟩
  · change Function.update later.pending i none = mid.pending
    rw [hpending, Function.update_idem, ← hidle, Function.update_eq_self]
  · intro j hj
    by_cases hji : j = i
    · subst hji
      obtain ⟨l, hstanding⟩ := hsound.standing j hlive
      obtain ⟨l', hstanding'⟩ := hsound'.standing j (h.live ▸ hlive)
      have htwin : Twin own spaceId m (later.threads j) := by
        have hself := h.twins j hlive
        rwa [show ((mid.setThread j m).setPending j (some .afterCallAt)).threads j = m from
          setThread_self mid j m] at hself
      rw [show ((later.setThread j m').setPending j none).threads j = m' from
        setThread_self later j m']
      exact htwin.called hstanding hstanding' howned hbegin hend
    · have hsame : ((mid.setThread i m).setPending i (some .afterCallAt)).threads j =
          mid.threads j := setThread_of_ne mid m hji
      rw [show ((later.setThread i m').setPending i none).threads j = later.threads j from
        setThread_of_ne later m' hji, ← hsame]
      exact h.twins j hj

end alike

/-- What a boundary says of the target of a space, if its check comes to it. -/
def verdictAt (interp : Interp) (i : Nat) (choices : BoundaryChoices) (spaceId : Nat) : SlotCheck :=
  if (topSpaceId (interp.threads i)).isSome then slotCheck interp i choices.compareAllocates spaceId
  else .pass

/-- The slot behind a check that comes to it. -/
def SlotCheck.leaves (check : SlotCheck) (slot : Option CallAt) : Option CallAt :=
  match check with
  | .pass => slot
  | _ => none

def SlotCheck.fires (check : SlotCheck) (i : Nat) : List (Nat × Delivery) :=
  match check with
  | .deliver delivery => [(i, delivery)]
  | _ => []

/-- The calls for the target of a space: the thread, and whether it is a hit or an overshoot. -/
def firedFor (spaceId : Nat) (out : List Output) : List (Nat × Delivery) :=
  out.filterMap (fun output => match output with
    | .callAt i delivery => if delivery.spaceId = spaceId then some (i, delivery) else none
    | _ => none)

section verdict
variable {p : Platform} {own : Nat → Prop} {spaceId : Nat} {interp interp' mid : Interp} {i : Nat}
  {choices : BoundaryChoices} {out : List Output}

theorem firedFor_none (h : ∀ j d, .callAt j d ∈ out → d.spaceId ≠ spaceId) :
    firedFor spaceId out = [] := by
  unfold firedFor
  rw [List.filterMap_eq_nil_iff]
  intro output hmem
  cases output with
  | callAt j d => exact if_neg (h j d hmem)
  | ran j event => rfl
  | threadSwitch j id callback previous delta next => rfl

theorem firedFor_callAt (event : ThreadEvent) (d : Delivery) :
    firedFor spaceId [.ran i event, callbackRan i choices, .callAt i d] =
      if d.spaceId = spaceId then [(i, d)] else [] := by
  unfold firedFor callbackRan
  by_cases h : d.spaceId = spaceId <;> simp [h]

/-- The check of the targets, when it comes to the one of the space: it does to it what the
verdict says, and the boundary goes on to the check for a thread switch or calls a callback. -/
structure Judged (p : Platform) (spaceId : Nat) (interp : Interp) (i : Nat)
    (choices : BoundaryChoices) (mid interp' : Interp) (out : List Output) : Prop where
  passed : Passed interp mid
  slot : slotAt mid spaceId = (verdictAt interp i choices spaceId).leaves (slotAt interp spaceId)
  goes : (Switching p mid i choices interp' out ∧
      (verdictAt interp i choices spaceId).fires i = []) ∨
    ∃ d m, out = [callbackRan i choices, .callAt i d] ∧
      (verdictAt interp i choices spaceId).fires i =
        (if d.spaceId = spaceId then [(i, d)] else []) ∧
      threadStep p (mid.threads i) (.callbackBegin choices.scope true) = some m ∧
      m.tstate.threadCallbackActive = true ∧
      interp' = (mid.setThread i m).setPending i (some .afterCallAt)

theorem Checking.judged (h : Checking p interp i choices interp' out) (htidy : Tidy interp)
    (hnamed : (interp.threads i).tstate.threadId ≠ 0) (hroom : choices.findsRoom = true)
    (hreached : (topSpaceId (interp.threads i)).isSome = true →
      slotCheck interp i choices.compareAllocates spaceId = .pass ∨
      reaches interp i choices.compareAllocates spaceId = true) :
    ∃ mid, Judged p spaceId interp i choices mid interp' out := by
  obtain ⟨henter, -, -, -⟩ := choices.findsRoom_spec hroom
  -- where the boundary polls, the pass does what the verdict says
  have hpass : ∀ {mid delivery}, Polls interp i →
      checkCallAt interp i choices.compareAllocates = (mid, delivery) →
      Passed interp mid ∧
      slotAt mid spaceId = (verdictAt interp i choices spaceId).leaves (slotAt interp spaceId) ∧
      (verdictAt interp i choices spaceId).fires i = (delivery.map (fun d =>
        if d.spaceId = spaceId then [(i, d)] else [])).getD [] := by
    intro mid delivery hpolls hcheck
    obtain ⟨hpassed, hall⟩ := checkCallAt_checked htidy hnamed hcheck
    have hverdict : verdictAt interp i choices spaceId =
        slotCheck interp i choices.compareAllocates spaceId := if_pos hpolls.2
    refine ⟨hpassed, ?_⟩
    rw [hverdict]
    have hother : (∀ d, delivery = some d → d.spaceId ≠ spaceId) →
        (delivery.map (fun d => if d.spaceId = spaceId then [(i, d)] else [])).getD [] = [] := by
      intro hne
      cases delivery with
      | none => rfl
      | some d => exact if_neg (hne d rfl)
    cases hall spaceId with
    | kept slot other passes =>
      have hpasses := (hreached hpolls.2).elim id passes
      rw [hpasses, hother other]
      exact ⟨slot, rfl⟩
    | cleared slot other comes check =>
      rw [check, hother other]
      exact ⟨slot, rfl⟩
    | delivered slot comes check result =>
      rw [check, result]
      obtain ⟨hspace, -⟩ := checkCallAtSlot_deliver check
      exact ⟨slot, (if_pos hspace).symm⟩
  cases h with
  | unchecked quiet switching =>
    have hverdict : verdictAt interp i choices spaceId = .pass := by
      unfold verdictAt
      split
      · rename_i hvisible
        by_contra hmoves
        obtain ⟨target, hslot, -⟩ := slotCheck_armed hmoves
        exact quiet (htidy.polls hslot hvisible)
      · rfl
    refine ⟨interp, ⟨htidy, SameThreads.refl _, fun _ => rfl⟩, ?_, Or.inl ⟨switching, ?_⟩⟩
    · rw [hverdict]
      rfl
    · rw [hverdict]
      rfl
  | passed polls check switching =>
    obtain ⟨hpassed, hslot, hfires⟩ := hpass polls check
    exact ⟨_, hpassed, hslot, Or.inl ⟨switching, hfires⟩⟩
  | enterFails polls check step inactive =>
    rw [henter] at step
    rw [callbackBegin_active step] at inactive
    cases inactive
  | called polls check step active =>
    obtain ⟨hpassed, hslot, hfires⟩ := hpass polls check
    rw [henter] at step
    exact ⟨_, hpassed, hslot, Or.inr ⟨_, _, rfl, hfires, step, active, rfl⟩⟩

end verdict

/-- An event of the threads, and what a `call_at` callback that it calls runs before it returns
None. -/
structure Play where
  event : InterpEvent
  body : Nat → List InterpEvent

def calledBack (out : List Output) : Option Delivery :=
  out.findSome? (fun output => match output with
    | .callAt _ delivery => some delivery
    | _ => none)

/-- The event, and the callback that it calls up to its return. What is shown is the event. -/
def playStep (p : Platform) (interp : Interp) (play : Play) :
    Option (Interp × List (List Output)) :=
  (interpStep p interp play.event).bind (fun result =>
    match play.event, calledBack result.2 with
    | .boundary i _ _ choices, some delivery =>
      (StepRun.run (interpStep p) (play.body delivery.callback) result.1).bind (fun body =>
        (interpStep p body.1 (.callbackReturns i false choices)).map (fun returned =>
          (returned.1, [result.2])))
    | _, _ => some (result.1, [result.2]))

/-- The event is one that a thread comes to by itself, over the frames of the program. -/
def Play.ofThreads (own : Nat → Prop) (play : Play) : Prop :=
  match play.event with
  | .run _ event => event.keepsTo own
  | .boundary _ _ _ choices => choices.findsRoom = true
  | .callbackReturns _ _ choices => choices.findsRoom = true
  | _ => False

/-- The callback leaves what it finds, apart from the disabled space that it runs in. -/
def TouchesNothing (p : Platform) (own : Nat → Prop) (spaceId : Nat) (interp : Interp) (play : Play)
    (_ : Interp) (_ : List (List Output)) : Prop :=
  ∀ mid out delivery later outs, interpStep p interp play.event = some (mid, out) →
    calledBack out = some delivery →
    StepRun.run (interpStep p) (play.body delivery.callback) mid = some (later, outs) →
    AlikeIn own spaceId mid later ∧ ∀ id, slotAt later id = slotAt mid id

/-- At a boundary at which the target of the space is due, the pass comes to it: no target that is
polled before it is delivered. -/
def ComesWhenDue (p : Platform) (spaceId : Nat) (interp : Interp) (play : Play) (_ : Interp)
    (_ : List (List Output)) : Prop :=
  ∀ i jumps offset choices m target, play.event = .boundary i jumps offset choices →
    threadStep p (interp.threads i) (.begin jumps offset) = some m →
    m.tstate.threadCallbackActive = false → (topSpaceId m).isSome = true →
    slotAt interp spaceId = some target → target.threadId = m.tstate.threadId →
    ¬Ahead m spaceId target (choices.compareAllocates spaceId) →
    reaches (interp.setThread i m) i choices.compareAllocates spaceId = true

/-- The same state with the target of one space only. -/
def onlyTarget (interp : Interp) (spaceId : Nat) : Interp :=
  ((spaceIdRoot :: interp.spaceCallbacks.map (fun entry => entry.spaceId)).filter
    (fun other => other ≠ spaceId)).foldl clearCallAt interp

section plays
variable {p : Platform} {own : Nat → Prop} {spaceId : Nat} {interp interp' : Interp} {i : Nat}
  {play : Play} {logs : List (List Output)}

theorem calledBack_none {out : List Output} (h : ∀ j d, .callAt j d ∉ out) :
    calledBack out = none := by
  unfold calledBack
  rw [List.findSome?_eq_none_iff]
  intro output hmem
  cases output with
  | callAt j d => exact absurd hmem (h j d)
  | ran j event => rfl
  | threadSwitch j id callback previous delta next => rfl

theorem playStep_spec (h : playStep p interp play = some (interp', logs)) :
    ∃ mid out, interpStep p interp play.event = some (mid, out) ∧ logs = [out] ∧
      (((calledBack out = none ∨ ∀ i jumps offset choices,
          play.event ≠ .boundary i jumps offset choices) ∧ interp' = mid) ∨
        ∃ delivery later outs i jumps offset choices returned, calledBack out = some delivery ∧
          play.event = .boundary i jumps offset choices ∧
          StepRun.run (interpStep p) (play.body delivery.callback) mid = some (later, outs) ∧
          interpStep p later (.callbackReturns i false choices) = some (interp', returned)) := by
  unfold playStep at h
  rw [Option.bind_eq_some_iff] at h
  obtain ⟨⟨mid, out⟩, hstep, hrest⟩ := h
  refine ⟨mid, out, hstep, ?_⟩
  dsimp only at hrest
  split at hrest
  · rename_i i jumps offset choices delivery hevent hcalled
    rw [Option.bind_eq_some_iff] at hrest
    obtain ⟨⟨later, outs⟩, hbody, hreturn⟩ := hrest
    rw [Option.map_eq_some_iff] at hreturn
    obtain ⟨⟨final, returned⟩, hend, heq⟩ := hreturn
    cases heq
    exact ⟨rfl, Or.inr ⟨delivery, later, outs, i, jumps, offset, choices, returned, hcalled, hevent,
      hbody, hend⟩⟩
  · rename_i hneither
    cases hrest
    refine ⟨rfl, Or.inl ⟨?_, rfl⟩⟩
    cases hcalled : calledBack out with
    | none => exact Or.inl rfl
    | some delivery =>
      exact Or.inr (fun i jumps offset choices hevent =>
        hneither i jumps offset choices delivery hevent hcalled)

theorem playStep_tracked (h : playStep p interp play = some (interp', logs))
    (htracked : Tracked interp) : Tracked interp' := by
  obtain ⟨mid, out, hstep, -, hcases⟩ := playStep_spec h
  have hmid := (htracked.sound.stepping hstep).tracked htracked
  obtain ⟨-, rfl⟩ | ⟨delivery, later, outs, i, jumps, offset, choices, returned, -, -, hbody,
    hend⟩ := hcases
  · exact hmid
  · have hlater := hmid.run hbody
    exact (hlater.sound.stepping hend).tracked hlater

theorem playStep_empty (h : playStep p interp play = some (interp', logs)) (hsound : Sound interp)
    (hthreads : play.ofThreads own)
    (huntouched : TouchesNothing p own spaceId interp play interp' logs)
    {other : Nat} (hnone : slotAt interp other = none) : slotAt interp' other = none := by
  obtain ⟨mid, out, hstep, -, hcases⟩ := playStep_spec h
  have hstepping := hsound.stepping hstep
  have hleaves : LeavesTarget spaceId interp play.event mid out := by
    unfold Play.ofThreads at hthreads
    unfold LeavesTarget
    split at hthreads <;> simp_all
  have hmid := hstepping.empty hsound hleaves hnone
  obtain ⟨-, rfl⟩ | ⟨delivery, later, outs, i, jumps, offset, choices, returned, hcalled, -, hbody,
    hend⟩ := hcases
  · exact hmid
  · obtain ⟨-, hslots⟩ := huntouched mid out delivery later outs hstep hcalled hbody
    have hlater := (hstepping.sound hsound).run hbody
    have hreturned :
        LeavesTarget spaceId later (.callbackReturns i false choices) interp' returned := trivial
    exact (hlater.stepping hend).empty hlater hreturned ((hslots other).trans hmid)

/-- A boundary outside callbacks, one run: behind the check of the targets and the callback that it
calls, the check for a thread switch goes on as if there had been no callback. -/
structure PlayedOn (p : Platform) (own : Nat → Prop) (spaceId : Nat) (begun : Interp) (i : Nat)
    (choices : BoundaryChoices) (mid ready final : Interp) (logs : List (List Output)) : Prop where
  passed : Passed begun mid
  slot : slotAt mid spaceId = (verdictAt begun i choices spaceId).leaves (slotAt begun spaceId)
  alike : AlikeIn own spaceId mid ready
  tracked : Tracked ready
  switching : ∃ rest, Switching p ready i choices final rest
  fired : logs.map (firedFor spaceId) = [(verdictAt begun i choices spaceId).fires i]

theorem AlikeIn.refl (howned : ∀ i ∈ interp.live, ∀ f, .frame f ∈ (interp.threads i).tstate.stack →
    own f) : AlikeIn own spaceId interp interp :=
  ⟨rfl, rfl, rfl, fun _ => rfl, rfl, fun i hi => Twin.refl (howned i hi)⟩

theorem playStep_boundary {body : Nat → List InterpEvent} {jumps : List (Int × Int)} {offset : Nat}
    {choices : BoundaryChoices} {m : Machine}
    (h : playStep p interp ⟨.boundary i jumps offset choices, body⟩ = some (interp', logs))
    (htracked : Tracked interp) (hroom : choices.findsRoom = true)
    (hbegin : threadStep p (interp.threads i) (.begin jumps offset) = some m)
    (hinactive : m.tstate.threadCallbackActive = false)
    (howned : ∀ j ∈ interp.live, ∀ f,
      .frame f ∈ ((interp.setThread i m).threads j).tstate.stack → own f)
    (huntouched : TouchesNothing p own spaceId interp ⟨.boundary i jumps offset choices, body⟩
      interp' logs)
    (hreached : (topSpaceId m).isSome = true →
      slotCheck (interp.setThread i m) i choices.compareAllocates spaceId = .pass ∨
      reaches (interp.setThread i m) i choices.compareAllocates spaceId = true) :
    ∃ mid ready,
      PlayedOn p own spaceId (interp.setThread i m) i choices mid ready interp' logs := by
  obtain ⟨after, out, hstep, rfl, hcases⟩ := playStep_spec h
  have hstepping := htracked.sound.stepping hstep
  cases hstepping with
  | inside live step active =>
    rw [hbegin] at step
    cases step
    rw [hinactive] at active
    cases active
  | boundary live step inactive checking =>
    rename_i m' rest
    rw [hbegin] at step
    cases step
    have hbegun := htracked.begun live hbegin
    have hafter : Tracked after := (htracked.sound.stepping hstep).tracked htracked
    obtain ⟨mid, hpassed, hslot, hgoes⟩ :=
      checking.judged hbegun.sound.tidy (hbegun.named i live) hroom (by rwa [setThread_self])
    have hmid : Sound mid := hbegun.sound.passed hpassed
    have hsame : mid.live = interp.live := hpassed.threads.live
    have hownedMid : ∀ j ∈ mid.live, ∀ f, .frame f ∈ (mid.threads j).tstate.stack → own f := by
      intro j hj f hf
      rw [hpassed.threads.threads] at hf
      exact howned j (hsame ▸ hj) f hf
    have hnone : calledBack (.ran i (.begin jumps offset) :: rest) = none →
        interp' = after := by
      intro hquiet
      obtain ⟨-, heq⟩ | ⟨delivery, later, outs, j, jumps', offset', choices', returned, hcalled,
        -⟩ := hcases
      · exact heq
      · rw [hquiet] at hcalled
        cases hcalled
    obtain ⟨switching, hquiet⟩ | ⟨d, m₂, rfl, hfires, hcall, hactive, rfl⟩ := hgoes
    · have huncalled : ∀ j d, .callAt j d ∉ Output.ran i (.begin jumps offset) :: rest := by
        intro j d
        rw [List.mem_cons, not_or]
        exact ⟨by simp, switching.not_callAt hmid.tidy j d⟩
      obtain rfl := hnone (calledBack_none huncalled)
      refine ⟨mid, mid, hpassed, hslot, AlikeIn.refl hownedMid, ?_, ⟨rest, switching⟩, ?_⟩
      · refine hbegun.changed hmid hpassed.threads ?_
        intro id v hv
        unfold cursorAt at hv ⊢
        rw [hpassed.switches] at hv
        exact Or.inl hv
      · rw [hquiet, List.map_singleton, firedFor_none (fun j d hd => absurd hd (huncalled j d))]
    · obtain ⟨henter, -, -, -⟩ := choices.findsRoom_spec hroom
      obtain ⟨hquiet | hother, -⟩ | ⟨delivery, later, outs, j, jumps', offset', choices', returned,
        hcalled, hevent, hbody, hend⟩ := hcases
      · cases hquiet
      · exact absurd rfl (hother i jumps offset choices)
      · cases hevent
        cases hcalled
        obtain ⟨halike, hslots⟩ := huntouched _ _ _ _ _ hstep rfl hbody
        have hlater := hafter.run hbody
        have hidle : mid.pending i = none := by
          have hnone := (htracked.sound.idleBoundary live hbegin hinactive).2
          unfold Interp.idle at hnone
          rw [hpassed.threads.pending]
          exact Option.isNone_iff_eq_none.mp hnone
        cases hlater.sound.stepping hend with
        | returns live' pended step' returning =>
          rename_i pending m₃ returned
          have hpending : pending = .afterCallAt := by
            rw [halike.pending] at pended
            simpa [Interp.setPending] using pended.symm
          subst hpending
          cases returning with
          | raised failed => cases failed
          | afterCallAt returned switching =>
            refine ⟨mid, _, hpassed, hslot, AlikeIn.callback hmid hlater.sound (hsame ▸ live) hidle
              (hownedMid i (hsame ▸ live)) hcall halike step', hlater.ended live' step',
              ⟨_, switching⟩, ?_⟩
            rw [hfires, List.map_singleton, firedFor_callAt]

end plays

/-- The run with all targets and the run with the one of the space, between two plays. -/
structure InStep (own : Nat → Prop) (spaceId : Nat) (interp single : Interp) : Prop where
  tracked : Tracked interp
  trackedSingle : Tracked single
  alike : AlikeIn own spaceId interp single
  only : ∀ other, other ≠ spaceId → slotAt single other = none

section inStep
variable {p : Platform} {own : Nat → Prop} {spaceId : Nat}
  {interp single interp' single' mid mid' ready ready' : Interp} {i : Nat} {play : Play}
  {choices : BoundaryChoices} {logs logs' : List (List Output)}

theorem AlikeIn.verdictAt (h : AlikeIn own spaceId interp single) (hsound : Sound interp)
    (hsound' : Sound single) (hlive : i ∈ interp.live)
    (hidle : (interp.threads i).tstate.threadCallbackActive = false) (choices : BoundaryChoices) :
    Retrace.verdictAt single i choices spaceId = Retrace.verdictAt interp i choices spaceId := by
  obtain ⟨base, hseg⟩ := hsound.segment hlive
  obtain ⟨base', hseg'⟩ := hsound'.segment (h.live ▸ hlive)
  unfold Retrace.verdictAt slotCheck
  rw [h.topSpaceId hsound hsound' hlive, h.slot,
    (h.twins i hlive).checkCallAtSlot hseg hseg' hidle]

theorem PlayedOn.both (h : PlayedOn p own spaceId interp i choices mid ready interp' logs)
    (h' : PlayedOn p own spaceId single i choices mid' ready' single' logs')
    (halike : AlikeIn own spaceId interp single) (hsound : Sound interp) (hsound' : Sound single)
    (hlive : i ∈ interp.live) (hidle : (interp.threads i).tstate.threadCallbackActive = false)
    (hroom : choices.findsRoom = true) : AlikeIn own spaceId interp' single' ∧
      logs.map (firedFor spaceId) = logs'.map (firedFor spaceId) := by
  have hverdict := halike.verdictAt hsound hsound' hlive hidle choices
  have hmid : AlikeIn own spaceId mid mid' := by
    refine halike.passed h.passed h'.passed ?_
    rw [h.slot, h'.slot, hverdict, halike.slot]
  have hready : AlikeIn own spaceId ready ready' := (h.alike.symm.trans hmid).trans h'.alike
  obtain ⟨rest, hswitching⟩ := h.switching
  obtain ⟨rest', hswitching'⟩ := h'.switching
  have hliveReady : i ∈ ready.live := by
    rw [h.alike.live, h.passed.threads.live]
    exact hlive
  refine ⟨hready.switched h.tracked h'.tracked hliveReady hroom hswitching hswitching', ?_⟩
  rw [h.fired, h'.fired, hverdict]

theorem ComesWhenDue.reached {jumps : List (Int × Int)} {offset : Nat} {m : Machine}
    {body : Nat → List InterpEvent}
    (h : ComesWhenDue p spaceId interp ⟨.boundary i jumps offset choices, body⟩ interp' logs)
    (hbegin : threadStep p (interp.threads i) (.begin jumps offset) = some m)
    (hinactive : m.tstate.threadCallbackActive = false) (hvisible : (topSpaceId m).isSome = true) :
    slotCheck (interp.setThread i m) i choices.compareAllocates spaceId = .pass ∨
      reaches (interp.setThread i m) i choices.compareAllocates spaceId = true := by
  have hslots : slotAt (interp.setThread i m) spaceId = slotAt interp spaceId := rfl
  by_cases hpass : slotCheck (interp.setThread i m) i choices.compareAllocates spaceId = .pass
  · exact Or.inl hpass
  · right
    obtain ⟨target, hslot, hid⟩ := slotCheck_armed hpass
    rw [setThread_self] at hid
    refine h i jumps offset choices m target rfl hbegin hinactive hvisible (hslots ▸ hslot) hid ?_
    intro hahead
    refine hpass ?_
    unfold slotCheck
    rw [setThread_self, hslot, checkCallAtSlot_pass_iff hinactive]
    exact Or.inr hahead

theorem playStep_quiet (h : playStep p interp play = some (interp', logs)) (hsound : Sound interp)
    (hother : ∀ i jumps offset choices, play.event ≠ .boundary i jumps offset choices) :
    ∃ out, Stepping p interp play.event interp' out ∧
      ∀ spaceId, logs.map (firedFor spaceId) = [[]] := by
  obtain ⟨after, out, hstep, rfl, hcases⟩ := playStep_spec h
  have hstepping := hsound.stepping hstep
  obtain ⟨-, rfl⟩ | ⟨delivery, later, outs, i, jumps, offset, choices, returned, -, hevent, -⟩ :=
    hcases
  · refine ⟨out, hstepping, fun spaceId => ?_⟩
    obtain hnone | ⟨i, jumps, offset, choices, d, hevent, -⟩ := hstepping.calls hsound
    · rw [List.map_singleton, firedFor_none (fun j d hd => absurd hd (hnone j d))]
    · exact absurd hevent (hother i jumps offset choices)
  · exact absurd hevent (hother i jumps offset choices)

theorem playStep_begins {jumps : List (Int × Int)} {offset : Nat} {body : Nat → List InterpEvent}
    (h : playStep p interp ⟨.boundary i jumps offset choices, body⟩ = some (interp', logs))
    (hsound : Sound interp) : ∃ m, i ∈ interp.live ∧
      threadStep p (interp.threads i) (.begin jumps offset) = some m ∧
      (m.tstate.threadCallbackActive = true → ∀ spaceId,
        interp' = interp.setThread i m ∧ logs.map (firedFor spaceId) = [[]]) := by
  obtain ⟨after, out, hstep, rfl, hcases⟩ := playStep_spec h
  cases hsound.stepping hstep with
  | inside live step active =>
    refine ⟨_, live, step, fun _ spaceId => ?_⟩
    obtain ⟨-, rfl⟩ | ⟨delivery, later, outs, j, jumps', offset', choices', returned, hcalled, -⟩ :=
      hcases
    · exact ⟨rfl, rfl⟩
    · cases hcalled
  | boundary live step inactive checking =>
    refine ⟨_, live, step, fun active => ?_⟩
    rw [inactive] at active
    cases active

theorem AlikeIn.step {event : ThreadEvent} {m m' : Machine} (h : AlikeIn own spaceId interp single)
    (hsound : Sound interp) (hsound' : Sound single) (hlive : i ∈ interp.live)
    (hkeeps : event.keepsTo own) (hstep : threadStep p (interp.threads i) event = some m)
    (hstep' : threadStep p (single.threads i) event = some m') :
    AlikeIn own spaceId (interp.setThread i m) (single.setThread i m') := by
  obtain ⟨l, hstanding⟩ := hsound.standing i hlive
  obtain ⟨l', hstanding'⟩ := hsound'.standing i (h.live ▸ hlive)
  exact h.setThread ((h.twins i hlive).step hstanding hstanding' hkeeps hstep hstep')

theorem AlikeIn.returned {raised : Bool} {pending pending' : Pending} {out out' : List Output}
    (h : AlikeIn own spaceId interp single) (htracked : Tracked interp) (htracked' : Tracked single)
    (hlive : i ∈ interp.live) (hroom : choices.findsRoom = true) (hsame : pending' = pending)
    (hreturning : Returning p interp i raised choices pending interp' out)
    (hreturning' : Returning p single i raised choices pending' single' out') :
    AlikeIn own spaceId interp' single' := by
  subst hsame
  cases hreturning with
  | afterSwitch =>
    cases hreturning' with
    | afterSwitch => exact h.setLast i
  | raised failed =>
    cases hreturning' with
    | raised failed' => exact h
    | afterCallAt returned switching =>
      rw [failed] at returned
      cases returned
  | afterCallAt returned switching =>
    cases hreturning' with
    | raised failed' =>
      rw [returned] at failed'
      cases failed'
    | afterCallAt returned' switching' =>
      exact h.switched htracked htracked' hlive hroom switching switching'

theorem InStep.played (h : InStep own spaceId interp single) (hthreads : play.ofThreads own)
    (huntouched : TouchesNothing p own spaceId interp play interp' logs)
    (hcomes : ComesWhenDue p spaceId interp play interp' logs)
    (huntouched' : TouchesNothing p own spaceId single play single' logs')
    (hstep : playStep p interp play = some (interp', logs))
    (hstep' : playStep p single play = some (single', logs')) :
    InStep own spaceId interp' single' ∧
      logs.map (firedFor spaceId) = logs'.map (firedFor spaceId) := by
  have hsound := h.tracked.sound
  have hsound' := h.trackedSingle.sound
  have hboth : AlikeIn own spaceId interp' single' →
      logs.map (firedFor spaceId) = logs'.map (firedFor spaceId) →
      InStep own spaceId interp' single' ∧
        logs.map (firedFor spaceId) = logs'.map (firedFor spaceId) := by
    intro halike hfired
    refine ⟨⟨playStep_tracked hstep h.tracked, playStep_tracked hstep' h.trackedSingle, halike, ?_⟩,
      hfired⟩
    intro other hother
    exact playStep_empty hstep' hsound' hthreads huntouched' (h.only other hother)
  obtain ⟨event, body⟩ := play
  cases event with
  | run i event =>
    obtain ⟨out, hstepping, hfired⟩ := playStep_quiet hstep hsound (by simp)
    obtain ⟨out', hstepping', hfired'⟩ := playStep_quiet hstep' hsound' (by simp)
    cases hstepping with
    | run live program step =>
      cases hstepping' with
      | run live' program' step' =>
        exact hboth (h.alike.step hsound hsound' live hthreads step step')
          ((hfired spaceId).trans (hfired' spaceId).symm)
  | callbackReturns i raised choices =>
    obtain ⟨out, hstepping, hfired⟩ := playStep_quiet hstep hsound (by simp)
    obtain ⟨out', hstepping', hfired'⟩ := playStep_quiet hstep' hsound' (by simp)
    cases hstepping with
    | returns live pended step returning =>
      cases hstepping' with
      | returns live' pended' step' returning' =>
        have hkeeps : ThreadEvent.callbackEnd.keepsTo own := trivial
        have hended := (h.alike.step hsound hsound' live hkeeps step step').setPending i none
        have hsame := pended'.symm.trans ((congrFun h.alike.pending i).trans pended)
        exact hboth (hended.returned (h.tracked.ended live step) (h.trackedSingle.ended live' step')
          live hthreads (Option.some.inj hsame) returning returning')
          ((hfired spaceId).trans (hfired' spaceId).symm)
  | boundary i jumps offset choices =>
    obtain ⟨m, hlive, hbegin, hplayed⟩ := playStep_begins hstep hsound
    obtain ⟨m', hlive', hbegin', hplayed'⟩ := playStep_begins hstep' hsound'
    have hkeeps : (ThreadEvent.begin jumps offset).keepsTo own := trivial
    have hbegun := h.alike.step hsound hsound' hlive hkeeps hbegin hbegin'
    have hself := hbegun.twins i hlive
    rw [setThread_self, setThread_self] at hself
    cases hactive : m.tstate.threadCallbackActive with
    | true =>
      obtain ⟨rfl, hfired⟩ := hplayed hactive spaceId
      obtain ⟨rfl, hfired'⟩ := hplayed' (hself.active.trans hactive) spaceId
      exact hboth hbegun (hfired.trans hfired'.symm)
    | false =>
      have hactive' : m'.tstate.threadCallbackActive = false := hself.active.trans hactive
      obtain ⟨mid, ready, hon⟩ := playStep_boundary hstep h.tracked hthreads hbegin hactive
        (fun j hj => (hbegun.twins j hj).owned) huntouched (hcomes.reached hbegin hactive)
      obtain ⟨mid', ready', hon'⟩ := playStep_boundary hstep' h.trackedSingle hthreads hbegin'
        hactive' (fun j hj => (hbegun.symm.twins j hj).owned) huntouched'
        (fun _ => Or.inr ((h.trackedSingle.begun hlive' hbegin').sound.tidy.reachesOnly
          (fun other hother => h.only other hother) _))
      obtain ⟨halike, hfired⟩ := hon.both hon' hbegun (h.tracked.begun hlive hbegin).sound
        (h.trackedSingle.begun hlive' hbegin').sound hlive (by rwa [setThread_self]) hthreads
      exact hboth halike hfired
  | callAt request => exact absurd hthreads id
  | clearCallAt cleared => exact absurd hthreads id
  | setThreadSwitchCallback i callback id allocates => exact absurd hthreads (fun hno => hno)
  | clearThread i => exact absurd hthreads id

end inStep

section only
variable {p : Platform} {own : Nat → Prop} {spaceId : Nat} {origin start final final' : Interp}
  {history : List InterpEvent} {plays : List Play} {outs : List Output}
  {logs logs' : List (List Output)}

theorem Tracked.cleared (h : Tracked start) (ids : List Nat) :
    Tracked (ids.foldl clearCallAt start) ∧ Passed start (ids.foldl clearCallAt start) ∧
    ∀ other, slotAt (ids.foldl clearCallAt start) other =
      if other ∈ ids then none else slotAt start other := by
  induction ids generalizing start with
  | nil => exact ⟨h, ⟨h.sound.tidy, SameThreads.refl _, fun _ => rfl⟩, fun other => by simp⟩
  | cons id ids ih =>
    have hstepping : Stepping ⟨true, true⟩ start (.clearCallAt id) (clearCallAt start id) [] :=
      .clearCallAt
    obtain ⟨htracked, hpassed, hslots⟩ := ih (hstepping.tracked h)
    refine ⟨htracked, (h.sound.tidy.clearPassed id).trans hpassed, fun other => ?_⟩
    rw [List.foldl_cons, hslots, (h.sound.tidy.clearCallAt id).2.1]
    by_cases hid : other = id
    · simp [hid]
    · simp [hid]

theorem Tracked.inStep (h : Tracked start) (howned : ∀ i ∈ start.live, ∀ f,
    .frame f ∈ (start.threads i).tstate.stack → own f) (spaceId : Nat) :
    InStep own spaceId start (onlyTarget start spaceId) := by
  obtain ⟨htracked, hpassed, hslots⟩ := h.cleared ((spaceIdRoot :: start.spaceCallbacks.map
    (fun entry => entry.spaceId)).filter (fun other => other ≠ spaceId))
  refine ⟨h, htracked, ?_, ?_⟩
  · refine (AlikeIn.refl howned).passed ⟨h.sound.tidy, SameThreads.refl _, fun _ => rfl⟩ hpassed ?_
    exact (hslots spaceId).trans (if_neg (by simp))
  · intro other hother
    change slotAt (List.foldl clearCallAt start _) other = none
    rw [hslots]
    split
    · rfl
    · rename_i hnot
      rw [List.mem_filter, List.mem_cons, List.mem_map] at hnot
      refine slotAt_none (fun hroot => hnot ⟨Or.inl hroot, by simpa using hother⟩) ?_
      intro entry hmem hid
      exact absurd ⟨Or.inr ⟨entry, hmem, hid⟩, by simpa using hother⟩ hnot

/-- A target is delivered at the same boundary, as the same hit or overshoot, as if it were the only
one, as long as the pass over the targets comes to it whenever it is due. -/
theorem callAt_independent (hunused : Unused origin)
    (hnamed : ∀ i ∈ origin.live, (origin.threads i).tstate.threadId ≠ 0)
    (hhistory : StepRun.run (interpStep p) history origin = some (start, outs))
    (howned : ∀ i ∈ start.live, ∀ f, .frame f ∈ (start.threads i).tstate.stack → own f)
    (hthreads : ∀ play ∈ plays, play.ofThreads own)
    (hall : StepRun.run (playStep p) plays start = some (final, logs))
    (honly : StepRun.run (playStep p) plays (onlyTarget start spaceId) = some (final', logs'))
    (huntouched : StepRun.Always (playStep p) (TouchesNothing p own spaceId) plays start)
    (huntouched' : StepRun.Always (playStep p) (TouchesNothing p own spaceId) plays
      (onlyTarget start spaceId))
    (hcomes : StepRun.Always (playStep p) (ComesWhenDue p spaceId) plays start) :
    logs.map (firedFor spaceId) = logs'.map (firedFor spaceId) := by
  have hstart := ((hunused.tracked hnamed).run hhistory).inStep howned spaceId
  refine (StepRun.Always.lockstep ?_ hstart (huntouched.and hcomes) huntouched' hall honly).2
  intro play hmem interp single interp' single' out out' hinStep hone hone' hstep hstep'
  exact hinStep.played (hthreads play hmem) hone.1 hone.2 hone' hstep hstep'

theorem touchesNothing_empty {interp interp' : Interp} {play : Play}
    (hbody : ∀ callback, play.body callback = []) :
    TouchesNothing p (fun _ => True) spaceId interp play interp' logs := by
  intro mid out delivery later outs _ _ hrun
  rw [hbody] at hrun
  cases hrun
  exact ⟨AlikeIn.refl (fun _ _ _ _ => trivial), fun _ => rfl⟩

/-- A frame of the root space, and one of the space 5 that it calls. -/
def callsInto : List InterpEvent := [
  .run 0 (.call 0 0 true true), .boundary 0 [] 4 (roomyChoices 9),
  .run 0 (.enterSpace 1 5 true), .run 0 (.call 1 0 true true), .boundary 0 [] 0 (roomyChoices 9)]

/-- The root's target is ahead when the one of the callee is hit. -/
def armsApart : List InterpEvent := callsInto ++ [
  .callAt ⟨1, [6, 0], 1, some 2, 0, true, true⟩, .callAt ⟨1, [2, 0], 3, some 4, 5, true, true⟩]

def playsApart : List Play := [
  ⟨.boundary 0 [] 2 (roomyChoices 9), fun _ => []⟩, ⟨.run 0 (.leave 0), fun _ => []⟩,
  ⟨.run 0 .leaveSpace, fun _ => []⟩, ⟨.boundary 0 [] 6 (roomyChoices 9), fun _ => []⟩]

theorem callAt_independent_apart : ∃ start final final', ∃ outs logs logs',
    StepRun.run (interpStep ⟨true, true⟩) armsApart (freshInterp ⟨true, true⟩ [0]) =
      some (start, outs) ∧
    StepRun.run (playStep ⟨true, true⟩) playsApart start = some (final, logs) ∧
    StepRun.run (playStep ⟨true, true⟩) playsApart (onlyTarget start 5) = some (final', logs') ∧
    logs'.map (firedFor 5) = [[(0, ⟨5, ⟨1, [2, 0], 3, some 4, 1⟩, true, 3⟩)], [], [], []] := by
  obtain ⟨start, outs, hstart⟩ : ∃ start outs, StepRun.run (interpStep ⟨true, true⟩) armsApart
      (freshInterp ⟨true, true⟩ [0]) = some (start, outs) := ⟨_, _, rfl⟩
  obtain ⟨final, logs, hall⟩ : ∃ final logs, StepRun.run (playStep ⟨true, true⟩) playsApart start =
      some (final, logs) := by
    cases hstart
    exact ⟨_, _, rfl⟩
  obtain ⟨final', logs', honly⟩ : ∃ final' logs', StepRun.run (playStep ⟨true, true⟩) playsApart
      (onlyTarget start 5) = some (final', logs') := by
    cases hstart
    exact ⟨_, _, rfl⟩
  have huntouched : ∀ interp, StepRun.Always (playStep ⟨true, true⟩)
      (TouchesNothing ⟨true, true⟩ (fun _ => True) 5) playsApart interp := fun interp _ _ _ =>
    ⟨touchesNothing_empty (fun _ => rfl), fun _ _ _ => ⟨touchesNothing_empty (fun _ => rfl),
      fun _ _ _ => ⟨touchesNothing_empty (fun _ => rfl), fun _ _ _ =>
        ⟨touchesNothing_empty (fun _ => rfl), trivial⟩⟩⟩⟩
  refine ⟨start, final, final', outs, logs, logs', hstart, hall, honly, ?_⟩
  have hsame := @callAt_independent _ (fun _ => True) 5 _ _ _ _ _ _ _ _ _
    (freshInterp_unused _ (by decide)) (fun _ _ => Nat.succ_ne_zero _) hstart
    (fun _ _ _ _ => trivial) ?_ hall honly (huntouched _) (huntouched _) ?_
  · rw [← hsame]
    cases hstart
    cases hall
    rfl
  · intro play hplay
    simp only [playsApart, List.mem_cons, List.not_mem_nil, or_false] at hplay
    obtain rfl | rfl | rfl | rfl := hplay
    · rfl
    · trivial
    · trivial
    · rfl
  · cases hstart
    refine fun mid out hstep => ⟨?_, ?_⟩
    · intro i jumps offset choices m target hevent hbegin _ _ _ _ _
      cases hevent
      cases hbegin
      rfl
    cases hstep
    refine fun mid out hstep => ⟨?_, ?_⟩
    · intro i jumps offset choices m target hevent
      cases hevent
    cases hstep
    refine fun mid out hstep => ⟨?_, ?_⟩
    · intro i jumps offset choices m target hevent
      cases hevent
    cases hstep
    refine fun mid out hstep => ⟨?_, trivial⟩
    intro i jumps offset choices m target hevent hbegin _ _ hslot
    cases hslot

/-- The root's target is due at the boundary at which the one of the callee is. -/
def armsTogether : List InterpEvent := callsInto ++ [
  .callAt ⟨1, [4, 0], 1, some 2, 0, true, true⟩, .callAt ⟨1, [2, 0], 3, some 4, 5, true, true⟩]

def playsTogether : List Play := [
  ⟨.boundary 0 [] 2 (roomyChoices 9), fun _ => []⟩,
  ⟨.boundary 0 [] 4 (roomyChoices 9), fun _ => []⟩]

/-- Of two targets that are due at one boundary, the second is not delivered there, and is overshot
at the next one. -/
theorem callAt_dependent : ∃ start final final', ∃ outs logs logs',
    StepRun.run (interpStep ⟨true, true⟩) armsTogether (freshInterp ⟨true, true⟩ [0]) =
      some (start, outs) ∧
    StepRun.run (playStep ⟨true, true⟩) playsTogether start = some (final, logs) ∧
    StepRun.run (playStep ⟨true, true⟩) playsTogether (onlyTarget start 5) = some (final', logs') ∧
    (∀ play ∈ playsTogether, play.ofThreads (fun _ => True)) ∧
    StepRun.Always (playStep ⟨true, true⟩) (TouchesNothing ⟨true, true⟩ (fun _ => True) 5)
      playsTogether start ∧
    StepRun.Always (playStep ⟨true, true⟩) (TouchesNothing ⟨true, true⟩ (fun _ => True) 5)
      playsTogether (onlyTarget start 5) ∧
    logs.map (firedFor 0) = [[(0, ⟨0, ⟨1, [4, 0], 1, some 2, 0⟩, true, 1⟩)], []] ∧
    logs.map (firedFor 5) = [[], [(0, ⟨5, ⟨1, [2, 0], 3, some 4, 1⟩, false, 4⟩)]] ∧
    logs'.map (firedFor 5) = [[(0, ⟨5, ⟨1, [2, 0], 3, some 4, 1⟩, true, 3⟩)], []] := by
  have huntouched : ∀ interp, StepRun.Always (playStep ⟨true, true⟩)
      (TouchesNothing ⟨true, true⟩ (fun _ => True) 5) playsTogether interp := fun interp _ _ _ =>
    ⟨touchesNothing_empty (fun _ => rfl), fun _ _ _ =>
      ⟨touchesNothing_empty (fun _ => rfl), trivial⟩⟩
  refine ⟨_, _, _, _, _, _, rfl, rfl, rfl, ?_, huntouched _, huntouched _, rfl, rfl, rfl⟩
  intro play hplay
  simp only [playsTogether, List.mem_cons, List.not_mem_nil, or_false] at hplay
  obtain rfl | rfl := hplay <;> rfl

end only

end Retrace
