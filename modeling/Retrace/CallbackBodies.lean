import Retrace.InterpRuns
import Retrace.OtherSpaces

/-! What the body of a callback leaves of the boundary that delivered it. -/

set_option autoImplicit false

namespace Retrace

section thread
variable {p : Platform} {start mid m m' : Machine} {spaceId k : Nat} {quiet : Prop}
  {below : List StackItem} {base : Context} {l : Ledger} {body : List ThreadEvent}

theorem Inside.callbackBegin (quiet : Prop) (hseg : Segment below base start) {allocates : Bool}
    (hne : spaceId ≠ spaceIdDisabled) (heffect : Effect start (.callbackBegin k allocates) m)
    (hactive : m.tstate.threadCallbackActive = true) :
    Inside spaceId start.tstate.stack start.context m [.callback k] ∧
      Segment start.tstate.stack start.context m ∧ Beside spaceId quiet start m := by
  have hstep := hseg.fresh.step heffect
  cases heffect with
  | callbackFails unused idle => cases hactive
  | callbackBegin top unused idle enters =>
    rename_i f node rest entered t scope ptr
    have hstack : (entered.push (.callback k)).tstate.stack =
        [.callback k] ++ start.tstate.stack := congrArg _ enters.callbackState.1
    have hseg' := hstep (hstack ▸ List.suffix_append _ _)
    refine ⟨Inside.single hseg' (Or.inr rfl) hstack ?_, hseg', ?_⟩
    · change (entered.tstate.space (entered.scopes k).space).spaceId ≠ spaceId
      rw [enters.scope_spaceId]
      exact Ne.symm hne
    · have hpinned : Beside spaceId quiet start (start.setCallback true (some f)) :=
        Beside.sameSpaces hseg.circle rfl rfl rfl rfl
      have hentered : Beside spaceId quiet (start.setCallback true (some f)) entered :=
        Beside.enterSpace (hseg.circle.congr rfl rfl (fun _ _ => ⟨rfl, rfl⟩)) enters (Ne.symm hne)
      exact (hpinned.trans hentered).trans (Beside.sameSpaces enters.circle rfl rfl rfl rfl)

/-- A callback that has started on `start` and has not returned. -/
structure Within (spaceId : Nat) (quiet : Prop) (start : Machine) (k : Nat) (m : Machine) :
    Prop where
  standing : ∃ l, Standing m l
  pinned : Pinned m.tstate
  segment : Segment start.tstate.stack start.context m
  above : .callback k :: start.tstate.stack <:+ m.tstate.stack
  active : m.tstate.threadCallbackActive = true
  inside : ∃ items, Inside spaceId start.tstate.stack start.context m items
  beside : Beside spaceId quiet start m

theorem Within.begun (quiet : Prop) (hstanding : Standing start l) (hpinned : Pinned start.tstate)
    {allocates : Bool} (hne : spaceId ≠ spaceIdDisabled)
    (hbegin : threadStep p start (.callbackBegin k allocates) = some m)
    (hactive : m.tstate.threadCallbackActive = true) : Within spaceId quiet start k m := by
  obtain ⟨hstanding', heffect⟩ := hstanding.step hbegin
  obtain ⟨base, -, hseg⟩ := hstanding.segment
  obtain ⟨hinside, hseg', hbeside⟩ := Inside.callbackBegin quiet hseg hne heffect hactive
  exact ⟨⟨_, hstanding'⟩, hpinned.step heffect, hseg', hinside.stack ▸ List.suffix_refl _, hactive,
    ⟨_, hinside⟩, hbeside⟩

theorem Within.step (h : Within spaceId quiet start k m) {event : ThreadEvent}
    (hstep : threadStep p m event = some m') (hend : event ≠ .callbackEnd)
    (havoid : event.enters ≠ some spaceId) (hquiet : quiet → ¬event.takesDelta spaceId) :
    Within spaceId quiet start k m' := by
  obtain ⟨l, hstanding⟩ := h.standing
  obtain ⟨items, hinside⟩ := h.inside
  obtain ⟨hstanding', heffect⟩ := hstanding.step hstep
  have habove := heffect.staysInCallback hend h.above
  have hactive := (heffect.staysActive h.active hend).1
  exact ⟨⟨_, hstanding'⟩, h.pinned.step heffect,
    h.segment.step heffect ((List.suffix_cons _ _).trans habove), habove, hactive,
    hinside.step h.segment heffect havoid (Or.inr rfl) habove,
    h.beside.trans (hinside.beside h.segment heffect havoid hquiet)⟩

theorem Within.run (h : Within spaceId quiet start k m)
    (hrun : threadRun p body m = some m') (hend : .callbackEnd ∉ body)
    (havoid : ∀ event ∈ body, event.enters ≠ some spaceId)
    (hquiet : quiet → ∀ event ∈ body, ¬event.takesDelta spaceId) :
    Within spaceId quiet start k m' := by
  induction body generalizing m with
  | nil =>
    cases hrun
    exact h
  | cons event body ih =>
    rw [threadRun_cons, Option.bind_eq_some_iff] at hrun
    obtain ⟨next, hstep, hrun⟩ := hrun
    rw [List.mem_cons, not_or] at hend
    have hnext := h.step hstep (Ne.symm hend.1) (havoid event List.mem_cons_self)
      (fun hq => hquiet hq event List.mem_cons_self)
    exact ih hnext hrun hend.2 (fun e he => havoid e (List.mem_cons_of_mem _ he))
      (fun hq e he => hquiet hq e (List.mem_cons_of_mem _ he))

theorem Within.untouched (h : Within spaceId quiet start k m) (p : Platform)
    (hpinned : Pinned start.tstate) (hidle : start.tstate.threadCallbackActive = false) :
    Untouched p spaceId quiet start m := by
  obtain ⟨items, hinside⟩ := h.inside
  exact (hinside.away h.segment.circle).untouched p h.beside hpinned hidle h.pinned h.segment.nodup

theorem Within.onTop (h : Within spaceId quiet start k m) {j : Nat} {rest : List StackItem}
    (htop : m.tstate.stack = .callback j :: rest) : rest = start.tstate.stack := by
  have habove := h.above
  rw [htop, List.suffix_cons_iff] at habove
  obtain heq | habove := habove
  · rw [List.cons.injEq] at heq
    exact heq.2.symm
  · have hpinned := h.pinned
    unfold Pinned at hpinned
    rw [if_pos h.active] at hpinned
    obtain ⟨upper, i, f, lower, hstack, -, hnone⟩ := hpinned
    have hmem : .callback k ∈ rest := habove.subset List.mem_cons_self
    rw [htop] at hstack
    cases upper with
    | nil =>
      rw [List.nil_append, List.cons.injEq] at hstack
      rw [hstack.2, List.mem_cons] at hmem
      exact absurd (hmem.resolve_left (by simp)) (hnone k)
    | cons first upper =>
      rw [List.cons_append, List.cons.injEq] at hstack
      exact absurd (hstack.1 ▸ List.mem_cons_self) (hnone j)

theorem Within.ends (h : Within spaceId quiet start k m) (hpinned : Pinned start.tstate)
    (hidle : start.tstate.threadCallbackActive = false)
    (hstep : threadStep p m .callbackEnd = some m') :
    m'.tstate.stack = start.tstate.stack ∧ m'.context = start.context ∧
      m'.tstate.threadCallbackActive = false ∧ m'.tstate.threadCallbackFrame = none ∧
      Untouched p spaceId quiet start m' := by
  obtain ⟨l, hstanding⟩ := h.standing
  obtain ⟨items, hinside⟩ := h.inside
  obtain ⟨hstanding', heffect⟩ := hstanding.step hstep
  have hbeside : Beside spaceId quiet m m' :=
    hinside.beside h.segment heffect (by simp [ThreadEvent.enters]) (fun _ => id)
  have hnext := h.segment.step heffect
  have hpinned' := h.pinned.step heffect
  have hflags : m'.tstate.threadCallbackActive = false ∧
      m'.tstate.threadCallbackFrame = none := by
    cases heffect
    exact ⟨rfl, rfl⟩
  have hstack : m'.tstate.stack = start.tstate.stack := by
    cases heffect with
    | callbackEnd top => exact h.onTop top
  have hseg' := hnext (hstack ▸ List.suffix_refl _)
  refine ⟨hstack, ?_, hflags.1, hflags.2, ?_⟩
  · obtain ⟨rest, hrest, hd⟩ := hseg'.items
    rw [hstack, List.self_eq_append_left] at hrest
    rw [hrest] at hd
    exact hd.2
  · have haway : Away spaceId start.tstate.stack m' [] :=
      ⟨hstack, fun _ hf => absurd hf List.not_mem_nil⟩
    exact haway.untouched p (h.beside.trans hbeside) hpinned hidle hpinned' hseg'.nodup

end thread

def Output.calls (i : Nat) : Output → Bool
  | .ran _ _ => false
  | .callAt j _ => j = i
  | .threadSwitch j _ _ _ _ _ => j = i

/-- The thread at the boundary at which a step may call a callback. -/
def boundaryOf (p : Platform) (interp : Interp) : InterpEvent → Option (Nat × Machine)
  | .boundary i jumps offset _ =>
    (threadStep p (interp.threads i) (.begin jumps offset)).map (fun m => (i, m))
  | .callbackReturns i _ _ =>
    (threadStep p (interp.threads i) .callbackEnd).map (fun m => (i, m))
  | _ => none

section interp
variable {p : Platform} {interp interp' mid : Interp} {i j : Nat} {choices : BoundaryChoices}
  {out : List Output}

theorem Switching.delivered (h : Switching p interp i choices interp' out)
    (hcalled : ∃ output ∈ out, output.calls j = true) :
    i = j ∧ ∃ k allocates, threadStep p (interp.threads i) (.callbackBegin k allocates) =
      some (interp'.threads i) ∧ (interp'.threads i).tstate.threadCallbackActive = true := by
  cases h with
  | same last => simp at hcalled
  | quiet last none => simp at hcalled
  | first switches cursor => simp at hcalled
  | own switches cursor => simp at hcalled
  | error switches cursor other result => simp [deltaRan, Output.calls] at hcalled
  | gone switches cursor other result => simp [deltaRan, Output.calls] at hcalled
  | identFails switches cursor other result fails => simp [deltaRan, Output.calls] at hcalled
  | enterFails switches cursor other result step inactive =>
    simp [deltaRan, callbackRan, Output.calls] at hcalled
  | called switches cursor other result step active =>
    rename_i entry callback v delta m
    have hself : ((((takeDelta interp v entry.spaceId choices).setCursor
        entry.spaceId i).setThread i m).setPending i (some .afterSwitch)).threads i = m :=
      setThread_self _ i m
    rw [hself]
    exact ⟨by simpa [deltaRan, callbackRan, Output.calls] using hcalled, _, _, step, active⟩

theorem Checking.delivered (h : Checking p interp i choices interp' out)
    (hcalled : ∃ output ∈ out, output.calls j = true) :
    i = j ∧ ∃ k allocates, threadStep p (interp.threads i) (.callbackBegin k allocates) =
      some (interp'.threads i) ∧ (interp'.threads i).tstate.threadCallbackActive = true := by
  cases h with
  | unchecked quiet switching => exact switching.delivered hcalled
  | passed polls check switching =>
    rw [← (checkCallAt_threads check).threads]
    exact switching.delivered hcalled
  | enterFails polls check step inactive => simp [callbackRan, Output.calls] at hcalled
  | called polls check step active =>
    rename_i before d m
    have hself : ((before.setThread i m).setPending i (some .afterCallAt)).threads i = m :=
      setThread_self _ i m
    rw [hself, ← (checkCallAt_threads check).threads]
    exact ⟨by simpa [callbackRan, Output.calls] using hcalled, _, _, step, active⟩

theorem Stepping.delivered {event : InterpEvent} (h : Stepping p interp event interp' out)
    (hsound : Sound interp) (hcalled : ∃ output ∈ out, output.calls j = true) :
    ∃ start l k allocates, boundaryOf p interp event = some (j, start) ∧ Standing start l ∧
      Pinned start.tstate ∧ start.tstate.threadCallbackActive = false ∧
      threadStep p start (.callbackBegin k allocates) = some (interp'.threads j) ∧
      (interp'.threads j).tstate.threadCallbackActive = true := by
  obtain ⟨output, hmem, hcalls⟩ := hcalled
  have hrest : ∀ {i event rest}, output ∈ Output.ran i event :: rest →
      ∃ output ∈ rest, output.calls j = true := by
    intro i event rest hmem
    rw [List.mem_cons] at hmem
    refine ⟨output, hmem.resolve_left (fun heq => ?_), hcalls⟩
    rw [heq] at hcalls
    cases hcalls
  cases h with
  | run live program step =>
    obtain ⟨_, hnil, _⟩ := hrest hmem
    cases hnil
  | inside live step active =>
    obtain ⟨_, hnil, _⟩ := hrest hmem
    cases hnil
  | boundary live step inactive checking =>
    rename_i i offset jumps choices m rest
    obtain ⟨rfl, k, allocates, hbegin, hactive⟩ := checking.delivered (hrest hmem)
    rw [setThread_self] at hbegin
    have hbegun := (hsound.idleBoundary live step inactive).1
    obtain ⟨l, hstanding⟩ := hbegun.standing i live
    have hpinned := hbegun.pinned i live
    rw [setThread_self] at hstanding hpinned
    exact ⟨m, l, k, allocates, by simp [boundaryOf, step], hstanding, hpinned, inactive, hbegin,
      hactive⟩
  | returns live pended step returning =>
    rename_i i raised choices pending m rest
    obtain ⟨hended, hidle⟩ := hsound.returned live step
    have hself : ((interp.setThread i m).setPending i none).threads i = m :=
      setThread_self interp i m
    have hcalled' := hrest hmem
    cases returning with
    | afterSwitch =>
      obtain ⟨_, hnil, _⟩ := hcalled'
      cases hnil
    | raised failed =>
      obtain ⟨_, hnil, _⟩ := hcalled'
      cases hnil
    | afterCallAt returned switching =>
      obtain ⟨rfl, k, allocates, hbegin, hactive⟩ := switching.delivered hcalled'
      obtain ⟨l, hstanding⟩ := hended.standing i live
      have hpinned := hended.pinned i live
      have hsynced := hended.synced i live
      rw [hself] at hstanding hpinned hsynced hbegin
      refine ⟨m, l, k, allocates, by simp [boundaryOf, step], hstanding, hpinned, ?_, hbegin,
        hactive⟩
      rw [← hsynced]
      unfold Interp.idle at hidle
      rw [Option.isNone_iff_eq_none.mp hidle]
      rfl
  | callAt => cases hmem
  | clearCallAt => cases hmem
  | setThreadSwitchCallback live => cases hmem
  | clearThread live => cases hmem

theorem Stepping.ranThread {event : InterpEvent} (h : Stepping p interp event interp' out)
    (hsound : Sound interp) (hclear : event ≠ .clearThread i) :
    threadRun p (ranBy i out) (interp.threads i) = some (interp'.threads i) := by
  obtain hother | hnone := em (∃ j, event = .clearThread j)
  · obtain ⟨j, rfl⟩ := hother
    cases h with
    | clearThread live =>
      have hne : i ≠ j := fun heq => hclear (heq ▸ rfl)
      have hsame : (Retrace.clearThread clearThreadState interp j).threads i = interp.threads i :=
        setThread_of_ne interp _ hne
      rw [hsame]
      rfl
  · exact h.ran hsound (fun j heq => hnone ⟨j, heq⟩) i

theorem Sound.ranThread (h : Sound interp) {events : List InterpEvent}
    (hrun : StepRun.run (interpStep p) events interp = some (interp', out))
    (hclear : .clearThread i ∉ events) :
    threadRun p (ranBy i out) (interp.threads i) = some (interp'.threads i) := by
  induction events generalizing interp out with
  | nil =>
    cases hrun
    rfl
  | cons event events ih =>
    obtain ⟨mid, first, more, hstep, hrest, rfl⟩ := StepRun.run_cons.mp hrun
    rw [List.mem_cons, not_or] at hclear
    have hstepping := h.stepping hstep
    rw [ranBy_append, threadRun_join _ (hstepping.ranThread h (Ne.symm hclear.1))]
    exact ih (hstepping.sound h) hrest hclear.2

/-- What a thread does by itself is what the program runs on it and the end of its callback. -/
def ownEvent : ThreadEvent → Bool
  | .begin _ _ => false
  | .callbackBegin _ _ => false
  | .threadDelta _ _ _ => false
  | _ => true

theorem Switching.shown (h : Switching p interp i choices interp' out) {event : ThreadEvent}
    (hmem : .ran j event ∈ out) : ownEvent event = false := by
  cases h with
  | same last => simp at hmem
  | quiet last none => simp at hmem
  | first switches cursor => simp at hmem
  | own switches cursor => simp at hmem
  | error switches cursor other result =>
    simp only [deltaRan, List.mem_singleton, Output.ran.injEq] at hmem
    exact hmem.2 ▸ rfl
  | gone switches cursor other result =>
    simp only [deltaRan, List.mem_singleton, Output.ran.injEq] at hmem
    exact hmem.2 ▸ rfl
  | identFails switches cursor other result fails =>
    simp only [deltaRan, List.mem_singleton, Output.ran.injEq] at hmem
    exact hmem.2 ▸ rfl
  | enterFails switches cursor other result step inactive =>
    simp only [deltaRan, callbackRan, List.mem_cons, Output.ran.injEq, List.not_mem_nil,
      or_false] at hmem
    obtain ⟨-, rfl⟩ | ⟨-, rfl⟩ := hmem
    · rfl
    · rfl
  | called switches cursor other result step active =>
    simp only [deltaRan, callbackRan, List.mem_cons, Output.ran.injEq, List.not_mem_nil,
      or_false, reduceCtorEq] at hmem
    obtain ⟨-, rfl⟩ | ⟨-, rfl⟩ := hmem
    · rfl
    · rfl

theorem Checking.shown (h : Checking p interp i choices interp' out) {event : ThreadEvent}
    (hmem : .ran j event ∈ out) : ownEvent event = false := by
  cases h with
  | unchecked quiet switching => exact switching.shown hmem
  | passed polls check switching => exact switching.shown hmem
  | enterFails polls check step inactive =>
    simp only [callbackRan, List.mem_singleton, Output.ran.injEq] at hmem
    exact hmem.2 ▸ rfl
  | called polls check step active =>
    simp only [callbackRan, List.mem_cons, Output.ran.injEq, List.not_mem_nil, or_false,
      reduceCtorEq] at hmem
    exact hmem.2 ▸ rfl

theorem Stepping.shown {event : InterpEvent} (h : Stepping p interp event interp' out)
    {shown : ThreadEvent} (hmem : .ran j shown ∈ out) (hown : ownEvent shown = true) :
    (shown.ofProgram = true ∧ event = .run j shown) ∨
      shown = .callbackEnd ∧ ∃ raised choices, event = .callbackReturns j raised choices := by
  cases h with
  | run live program step =>
    cases List.mem_singleton.mp hmem
    exact Or.inl ⟨program, rfl⟩
  | inside live step active =>
    cases List.mem_singleton.mp hmem
    cases hown
  | boundary live step inactive checking =>
    rw [List.mem_cons] at hmem
    obtain hmem | hmem := hmem
    · cases hmem
      cases hown
    · rw [checking.shown hmem] at hown
      cases hown
  | returns live pended step returning =>
    rw [List.mem_cons] at hmem
    obtain hmem | hmem := hmem
    · cases hmem
      exact Or.inr ⟨rfl, _, _, rfl⟩
    · cases returning with
      | afterSwitch => cases hmem
      | raised failed => cases hmem
      | afterCallAt returned switching =>
        rw [switching.shown hmem] at hown
        cases hown
  | callAt => cases hmem
  | clearCallAt => cases hmem
  | setThreadSwitchCallback live => cases hmem
  | clearThread live => cases hmem

theorem Sound.shown (h : Sound interp) {events : List InterpEvent}
    (hrun : StepRun.run (interpStep p) events interp = some (interp', out)) {shown : ThreadEvent}
    (hmem : .ran j shown ∈ out) (hown : ownEvent shown = true) :
    (shown.ofProgram = true ∧ .run j shown ∈ events) ∨ shown = .callbackEnd ∧
      ∃ raised choices, .callbackReturns j raised choices ∈ events := by
  induction events generalizing interp out with
  | nil =>
    cases hrun
    cases hmem
  | cons event events ih =>
    obtain ⟨mid, first, more, hstep, hrest, rfl⟩ := StepRun.run_cons.mp hrun
    have hstepping := h.stepping hstep
    rw [List.mem_append] at hmem
    obtain hmem | hmem := hmem
    · obtain ⟨hprogram, rfl⟩ | ⟨hend, raised, choices, rfl⟩ := hstepping.shown hmem hown
      · exact Or.inl ⟨hprogram, List.mem_cons_self⟩
      · exact Or.inr ⟨hend, raised, choices, List.mem_cons_self⟩
    · obtain ⟨hprogram, hrun⟩ | ⟨hend, raised, choices, hreturns⟩ :=
        ih (hstepping.sound h) hrest hmem
      · exact Or.inl ⟨hprogram, List.mem_cons_of_mem _ hrun⟩
      · exact Or.inr ⟨hend, raised, choices, List.mem_cons_of_mem _ hreturns⟩

theorem mem_ranBy {event : ThreadEvent} : event ∈ ranBy i out ↔ .ran i event ∈ out := by
  unfold ranBy
  rw [List.mem_filterMap]
  constructor
  · rintro ⟨output, hmem, heq⟩
    cases output with
    | ran j shown =>
      dsimp only at heq
      by_cases hji : j = i
      · rw [if_pos hji] at heq
        cases heq
        exact hji ▸ hmem
      · rw [if_neg hji] at heq
        cases heq
    | callAt => cases heq
    | threadSwitch => cases heq
  · intro hmem
    exact ⟨_, hmem, by simp⟩

theorem Switching.uncalled (h : Switching p interp i choices interp' out)
    (hstanding : ∃ l, Standing (interp.threads i) l)
    (hactive : (interp.threads i).tstate.threadCallbackActive = false)
    (hframe : (interp.threads i).tstate.threadCallbackFrame = none)
    (hnone : ∀ output ∈ out, output.calls i = false) :
    interp'.threads i = interp.threads i := by
  have hother : ∀ {v spaceId}, v ≠ i →
      (takeDelta interp v spaceId choices).threads i = interp.threads i :=
    fun hv => setThread_of_ne interp _ (Ne.symm hv)
  cases h with
  | same last => rfl
  | quiet last none => rfl
  | first switches cursor => rfl
  | own switches cursor => rfl
  | error switches cursor other result => exact hother other
  | gone switches cursor other result => exact hother other
  | identFails switches cursor other result fails => exact hother other
  | enterFails switches cursor other result step inactive =>
    rename_i entry callback v delta m
    have hself : ((((takeDelta interp v entry.spaceId choices).setCursor
        entry.spaceId i).setThread i m).setLast i).threads i = m := setThread_self _ i m
    obtain ⟨l, hstanding⟩ := hstanding
    obtain ⟨-, heffect⟩ := hstanding.step step
    rw [hself]
    cases heffect with
    | callbackFails unused idle =>
      unfold Machine.setCallback
      rw [← hframe, ← hactive]
      rfl
    | callbackBegin top unused idle enters =>
      have hoff := enters.callbackState.2.1.symm.trans inactive
      cases hoff
  | called switches cursor other result step active =>
    have hcalls := hnone _ (List.mem_cons_of_mem _ (List.mem_cons_of_mem _ List.mem_cons_self))
    exact absurd hcalls (by simp [Output.calls])

/-- A callback, whatever its body does and however it returns, is transparent for every space but
the disabled one that it does not enter: throughout the body the thread's coordinates and hash are
those of the boundary, and when it has returned the thread stands where it stood, with the same
ordinals. The caches are as they were unless a delta of the space is taken of the thread in the
meantime, by the body or for a callback of another thread. -/
theorem callbacks_transparent {interp₀ last : Interp} {history body : List InterpEvent}
    {event : InterpEvent} {outs bodyOut : List Output} {spaceId : Nat} (hunused : Unused interp₀)
    (hhistory : StepRun.run (interpStep p) history interp₀ = some (interp, outs))
    (hstep : interpStep p interp event = some (mid, out))
    (hcalled : ∃ output ∈ out, output.calls i = true)
    (hbody : StepRun.run (interpStep p) body mid = some (last, bodyOut))
    (hreturns : ∀ raised choices, .callbackReturns i raised choices ∉ body)
    (hclear : .clearThread i ∉ body) (hne : spaceId ≠ spaceIdDisabled)
    (havoid : ∀ k allocates, .run i (.enterSpace k spaceId allocates) ∉ body) :
    ∃ start, boundaryOf p interp event = some (i, start) ∧
      (∀ drop, coordinates (last.threads i) spaceId drop = coordinates start spaceId drop) ∧
      coordinateHash p (last.threads i) spaceId = coordinateHash p start spaceId ∧
      ∀ raised choices final finalOut,
        interpStep p last (.callbackReturns i raised choices) = some (final, finalOut) →
        ∃ ended, boundaryOf p last (.callbackReturns i raised choices) = some (i, ended) ∧
          ((∀ output ∈ finalOut, output.calls i = false) → final.threads i = ended) ∧
          ended.tstate.threadCallbackActive = false ∧ ended.tstate.threadCallbackFrame = none ∧
          ended.context = start.context ∧
          Untouched p spaceId
            (∀ allocates tuple, .ran i (.threadDelta spaceId allocates tuple) ∉ bodyOut)
            start ended := by
  have hsound := hunused.sound.run hhistory
  have hstepping := hsound.stepping hstep
  obtain ⟨start, l, k, allocates, hstart, hstanding, hpinned, hidle, hbegin, hactive⟩ :=
    hstepping.delivered hsound hcalled
  have hmid := hstepping.sound hsound
  have hrun := hmid.ranThread hbody hclear
  have hwithin : Within spaceId (∀ allocates tuple,
      .ran i (.threadDelta spaceId allocates tuple) ∉ bodyOut) start k (last.threads i) := by
    refine (Within.begun _ hstanding hpinned hne hbegin hactive).run hrun ?_ ?_ ?_
    · intro hend
      obtain ⟨hprogram, -⟩ | ⟨-, raised, choices, hreturn⟩ :=
        hmid.shown hbody (mem_ranBy.mp hend) rfl
      · cases hprogram
      · exact hreturns raised choices hreturn
    · intro shown hshown henters
      cases shown with
      | enterSpace j entered allocates =>
        obtain ⟨-, hprogram⟩ | ⟨hfalse, -⟩ := hmid.shown hbody (mem_ranBy.mp hshown) rfl
        · have heq : entered = spaceId := Option.some.inj henters
          exact havoid j allocates (heq ▸ hprogram)
        · cases hfalse
      | callbackBegin j allocates => exact hne (Option.some.inj henters).symm
      | _ => cases henters
    · intro hquiet shown hshown htakes
      cases shown with
      | threadDelta taken allocates tuple =>
        have heq : taken = spaceId := htakes
        exact hquiet allocates tuple (heq ▸ mem_ranBy.mp hshown)
      | _ => cases htakes
  have huntouched := hwithin.untouched p hpinned hidle
  refine ⟨start, hstart, huntouched.coordinates, huntouched.hash, ?_⟩
  intro raised choices final finalOut hend
  have hlast := hmid.run hbody
  cases hlast.stepping hend with
  | returns live pended step returning =>
    rename_i pending ended rest
    obtain ⟨-, hcontext, hinactive, hframe, hended⟩ := hwithin.ends hpinned hidle step
    refine ⟨ended, by simp [boundaryOf, step], ?_, hinactive, hframe, hcontext, hended⟩
    intro hnone
    have hself : ((last.setThread i ended).setPending i none).threads i = ended :=
      setThread_self last i ended
    cases returning with
    | afterSwitch => exact hself
    | raised failed => exact hself
    | afterCallAt returned switching =>
      have hreturned := (hlast.returned live step).1
      have hsame := switching.uncalled (hreturned.standing i live) (by rw [hself]; exact hinactive)
        (by rw [hself]; exact hframe) (fun output hmem => hnone output (List.mem_cons_of_mem _ hmem))
      rw [hsame]
      exact hself

/-- A target of the root space is hit; its callback runs a frame, and one in a space of its own. -/
def hitTarget : List InterpEvent := [
  .run 0 (.call 0 0 true true), .boundary 0 [] 4 (roomyChoices 9),
  .callAt ⟨1, [6, 0], 1, none, 0, true, true⟩]

theorem callbacks_transparent_hit :
    ∃ interp mid last, ∃ outs out bodyOut : List Output,
      StepRun.run (interpStep ⟨true, true⟩) hitTarget (freshInterp ⟨true, true⟩ [0]) =
        some (interp, outs) ∧
      interpStep ⟨true, true⟩ interp (.boundary 0 [] 6 (roomyChoices 9)) = some (mid, out) ∧
      StepRun.run (interpStep ⟨true, true⟩) [.run 0 (.call 1 0 true true),
        .boundary 0 [] 0 (roomyChoices 8), .run 0 (.enterSpace 3 7 true),
        .run 0 (.call 2 0 true true), .boundary 0 [] 2 (roomyChoices 8)] mid =
          some (last, bodyOut) ∧
      coordinates (last.threads 0) 0 0 = some [6, 0] := by
  obtain ⟨interp, outs, hhistory⟩ : ∃ interp outs, StepRun.run (interpStep ⟨true, true⟩) hitTarget
      (freshInterp ⟨true, true⟩ [0]) = some (interp, outs) := ⟨_, _, rfl⟩
  obtain ⟨mid, out, hstep, hcalled⟩ : ∃ mid out, interpStep ⟨true, true⟩ interp
      (.boundary 0 [] 6 (roomyChoices 9)) = some (mid, out) ∧
      ∃ output ∈ out, output.calls 0 = true := by
    cases hhistory
    exact ⟨_, _, rfl, by decide⟩
  obtain ⟨last, bodyOut, hbody⟩ : ∃ last bodyOut, StepRun.run (interpStep ⟨true, true⟩)
      [.run 0 (.call 1 0 true true), .boundary 0 [] 0 (roomyChoices 8),
        .run 0 (.enterSpace 3 7 true), .run 0 (.call 2 0 true true),
        .boundary 0 [] 2 (roomyChoices 8)] mid = some (last, bodyOut) := by
    cases hhistory
    cases hstep
    exact ⟨_, _, rfl⟩
  refine ⟨interp, mid, last, outs, out, bodyOut, hhistory, hstep, hbody, ?_⟩
  obtain ⟨start, hstart, hcoordinates, -⟩ := @callbacks_transparent _ _ _ _ _ _ _ _ _ _ _ _ 0
    (freshInterp_unused ⟨true, true⟩ (by decide)) hhistory hstep hcalled hbody (by simp) (by simp)
    (by decide) (by simp)
  rw [hcoordinates]
  cases hhistory
  cases hstart
  rfl

/-- The same target with a switch callback for the root space, and a second thread in it. -/
def hitWithSwitch : List InterpEvent := [
  .run 0 (.call 0 0 true true), .boundary 0 [] 4 (roomyChoices 9),
  .run 1 (.call 0 0 true true), .setThreadSwitchCallback 0 (some 5) 0 true,
  .callAt ⟨1, [6, 0], 1, none, 0, true, true⟩]

/-- The second thread's boundary takes a delta of the first while that one is in its callback. -/
theorem callbacks_otherDelta :
    ∃ interp mid last final, ∃ start : Machine, ∃ outs out bodyOut finalOut : List Output,
      StepRun.run (interpStep ⟨true, true⟩) hitWithSwitch (freshInterp ⟨true, true⟩ [0, 1]) =
        some (interp, outs) ∧
      interpStep ⟨true, true⟩ interp (.boundary 0 [] 6 (roomyChoices 9)) = some (mid, out) ∧
      (∃ output ∈ out, output.calls 0 = true) ∧
      StepRun.run (interpStep ⟨true, true⟩) [.boundary 1 [] 0 (roomyChoices 8)] mid =
        some (last, bodyOut) ∧
      interpStep ⟨true, true⟩ last (.callbackReturns 0 false (roomyChoices 8)) =
        some (final, finalOut) ∧
      boundaryOf ⟨true, true⟩ interp (.boundary 0 [] 6 (roomyChoices 9)) = some (0, start) ∧
      findThreadSpace start.tstate 0 = some 0 ∧ (start.frames 0).space = some (start.spacePtr 0) ∧
      ((final.threads 0).frames 0).delta ≠ (start.frames 0).delta :=
  ⟨_, _, _, _, _, _, _, _, _, rfl, rfl, by decide, rfl, rfl, rfl, rfl, rfl, by decide⟩

end interp

end Retrace
