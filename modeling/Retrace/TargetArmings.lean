import Retrace.SwitchStream
import Retrace.TargetOwners

/-! What the steps of a run do to the targets: which of them they arm, keep and take out. -/

set_option autoImplicit false

namespace Retrace

/-- The armings whose callbacks are called. -/
def calledArmings (out : List Output) : List Nat :=
  out.filterMap (fun output => match output with
    | .callAt _ d => some d.target.arming
    | _ => none)

/-- The step arms no target, and does not clear the one of the space. -/
def LeavesTarget (spaceId : Nat) (interp : Interp) (event : InterpEvent) (_ : Interp)
    (_ : List Output) : Prop :=
  match event with
  | .callAt request => (callAt interp request).2 = interp
  | .clearCallAt other => other ≠ spaceId
  | _ => True

/-- No other live thread has the id of the thread. -/
def OwnId (interp : Interp) (t : Nat) : Prop :=
  ∀ u ∈ interp.live, (interp.threads u).tstate.threadId = (interp.threads t).tstate.threadId → u = t

section threads
variable {p : Platform} {interp interp' : Interp} {event : InterpEvent} {out : List Output}
  {t : Nat}

theorem calledArmings_append (first second : List Output) :
    calledArmings (first ++ second) = calledArmings first ++ calledArmings second :=
  List.filterMap_append

theorem mem_calledArmings {arming : Nat} :
    arming ∈ calledArmings out ↔ ∃ i d, .callAt i d ∈ out ∧ d.target.arming = arming := by
  unfold calledArmings
  rw [List.mem_filterMap]
  constructor
  · rintro ⟨output, hmem, hsome⟩
    cases output with
    | callAt i d => exact ⟨i, d, hmem, Option.some.inj hsome⟩
    | ran i event => cases hsome
    | threadSwitch i spaceId callback previous delta id => cases hsome
  · rintro ⟨i, d, hmem, rfl⟩
    exact ⟨_, hmem, rfl⟩

theorem Stepping.ranOf (h : Stepping p interp event interp' out) (hsound : Sound interp)
    (hlive : t ∈ interp'.live) :
    threadRun p (ranBy t out) (interp.threads t) = some (interp'.threads t) := by
  refine h.ranThread hsound ?_
  rintro rfl
  cases h with
  | clearThread live => exact absurd rfl (hsound.distinct.mem_erase_iff.mp hlive).1

theorem Sound.ranOf (h : Sound interp) {events : List InterpEvent}
    (hrun : StepRun.run (interpStep p) events interp = some (interp', out))
    (hlive : t ∈ interp'.live) :
    threadRun p (ranBy t out) (interp.threads t) = some (interp'.threads t) := by
  induction events generalizing interp out with
  | nil =>
    cases hrun
    rfl
  | cons event events ih =>
    obtain ⟨mid, first, more, hstep, hrest, rfl⟩ := StepRun.run_cons.mp hrun
    have hstepping := h.stepping hstep
    have hmid := hstepping.sound h
    rw [ranBy_append, threadRun_join _ (hstepping.ranOf h (hmid.live_run hrest t hlive))]
    exact ih hmid hrest

theorem Stepping.sameId (h : Stepping p interp event interp' out) (hsound : Sound interp)
    (hlive : t ∈ interp'.live) :
    (interp'.threads t).tstate.threadId = (interp.threads t).tstate.threadId :=
  ran_sameThread (h.ranOf hsound hlive)

theorem OwnId.step (h : OwnId interp t) (hstepping : Stepping p interp event interp' out)
    (hsound : Sound interp) (hlive : t ∈ interp'.live) : OwnId interp' t := by
  intro u hu hid
  rw [hstepping.sameId hsound hu, hstepping.sameId hsound hlive] at hid
  exact h u (hstepping.live hsound u hu) hid

theorem OwnId.run (h : OwnId interp t) (hsound : Sound interp) {events : List InterpEvent}
    (hrun : StepRun.run (interpStep p) events interp = some (interp', out))
    (hlive : t ∈ interp'.live) : OwnId interp' t := by
  induction events generalizing interp out with
  | nil =>
    cases hrun
    exact h
  | cons event events ih =>
    obtain ⟨mid, first, more, hstep, hrest, -⟩ := StepRun.run_cons.mp hrun
    have hstepping := hsound.stepping hstep
    have hmid := hstepping.sound hsound
    exact ih (h.step hstepping hsound (hmid.live_run hrest t hlive)) hmid hrest

end threads

section slots
variable {p : Platform} {interp interp' mid : Interp} {event : InterpEvent} {out : List Output}
  {i spaceId : Nat} {choices : BoundaryChoices}

/-- A boundary calls one `call_at` callback at most, for a target that it takes out of its slot. -/
theorem Checking.calls (h : Checking p interp i choices interp' out) (htidy : Tidy interp) :
    (∀ j d, .callAt j d ∉ out) ∨ ∃ d, out = [callbackRan i choices, .callAt i d] ∧
      slotAt interp d.spaceId = some d.target ∧ slotAt interp' d.spaceId = none ∧
      interp'.pending i = some .afterCallAt := by
  cases h with
  | unchecked quiet switching => exact Or.inl (switching.not_callAt htidy)
  | passed polls check switching =>
    refine Or.inl (switching.not_callAt ?_)
    by_cases hnamed : (interp.threads i).tstate.threadId = 0
    · unfold checkCallAt at check
      rw [if_pos hnamed] at check
      cases check
      exact htidy
    · exact (checkCallAt_checked htidy hnamed check).1.tidy
  | enterFails polls check step inactive => exact Or.inl (by simp [callbackRan])
  | called polls check step active =>
    rename_i mid d m
    have hnamed : (interp.threads i).tstate.threadId ≠ 0 := by
      intro hzero
      unfold checkCallAt at check
      rw [if_pos hzero] at check
      cases check
    refine Or.inr ⟨d, rfl, ?_⟩
    cases (checkCallAt_checked htidy hnamed check).2 d.spaceId with
    | kept slot other passes => exact absurd rfl (other d rfl)
    | cleared slot other comes check => exact absurd rfl (other d rfl)
    | delivered slot comes check result =>
      cases result
      obtain ⟨-, hslot, -⟩ := checkCallAtSlot_deliver check
      exact ⟨hslot, slot, by simp [Interp.setPending]⟩

theorem Stepping.calls (h : Stepping p interp event interp' out) (hsound : Sound interp) :
    (∀ j d, .callAt j d ∉ out) ∨ ∃ i jumps offset choices d,
      event = .boundary i jumps offset choices ∧
      out = [.ran i (.begin jumps offset), callbackRan i choices, .callAt i d] ∧
      slotAt interp d.spaceId = some d.target ∧ slotAt interp' d.spaceId = none ∧
      interp'.pending i = some .afterCallAt := by
  cases h with
  | run live program step => exact Or.inl (by simp)
  | inside live step active => exact Or.inl (by simp)
  | boundary live step inactive checking =>
    rename_i i offset jumps choices m rest
    obtain hnone | ⟨d, rfl, hslot, hempty, hpending⟩ :=
      checking.calls (hsound.idleBoundary live step inactive).1.tidy
    · exact Or.inl (fun j d => by simpa using hnone j d)
    · exact Or.inr ⟨i, jumps, offset, choices, d, rfl, rfl, hslot, hempty, hpending⟩
  | returns live pended step returning =>
    refine Or.inl (fun j d => ?_)
    rw [List.mem_cons, not_or]
    refine ⟨by simp, ?_⟩
    cases returning with
    | afterSwitch => simp
    | raised failed => simp
    | afterCallAt returned switching =>
      exact switching.not_callAt (hsound.returned live step).1.tidy j d
  | callAt => exact Or.inl (by simp)
  | clearCallAt => exact Or.inl (by simp)
  | setThreadSwitchCallback live => exact Or.inl (by simp)
  | clearThread live => exact Or.inl (by simp)

theorem Returning.slots {raised : Bool} {pending : Pending}
    (h : Returning p interp i raised choices pending interp' out) (htidy : Tidy interp) :
    slotAt interp' spaceId = slotAt interp spaceId := by
  cases h with
  | afterSwitch => rfl
  | raised failed => rfl
  | afterCallAt returned switching => exact (switching.slots htidy).1

/-- What a step that leaves the target of a space can still do to it: a boundary of its thread
may move it. -/
theorem Stepping.slot (h : Stepping p interp event interp' out) (hsound : Sound interp)
    (hleaves : LeavesTarget spaceId interp event interp' out) :
    slotAt interp' spaceId = slotAt interp spaceId ∨
    ∃ i jumps offset choices m rest, event = .boundary i jumps offset choices ∧
      i ∈ interp.live ∧ threadStep p (interp.threads i) (.begin jumps offset) = some m ∧
      m.tstate.threadCallbackActive = false ∧ out = .ran i (.begin jumps offset) :: rest ∧
      Moved (interp.setThread i m) i choices spaceId ∧ slotAt interp' spaceId = none := by
  cases h with
  | run live program step => exact Or.inl rfl
  | inside live step active => exact Or.inl rfl
  | boundary live step inactive checking =>
    rename_i i offset jumps choices m rest
    obtain ⟨hmoved, hempty, -⟩ | ⟨-, hkept, -⟩ :=
      checking.slots (hsound.idleBoundary live step inactive).1.tidy spaceId
    · exact Or.inr ⟨i, jumps, offset, choices, m, rest, rfl, live, step, inactive, rfl, hmoved,
        hempty⟩
    · exact Or.inl hkept
  | returns live pended step returning =>
    exact Or.inl (returning.slots (hsound.returned live step).1.tidy)
  | callAt => exact Or.inl (congrArg (fun interp => slotAt interp spaceId) hleaves)
  | clearCallAt =>
    left
    rw [(hsound.tidy.clearCallAt _).2.1, if_neg (Ne.symm hleaves)]
  | setThreadSwitchCallback live =>
    rename_i i other callback allocates
    exact Or.inl ((hsound.tidy.setThreadSwitchCallback i callback other allocates).2.2.2.1 spaceId)
  | clearThread live => exact Or.inl ((hsound.tidy.clearThread clearThreadState _).2.1 spaceId)

theorem checkCallAt_armings {allocates : Nat → Bool} {delivery : Option Delivery}
    (hrun : checkCallAt interp i allocates = (interp', delivery)) :
    interp'.armings = interp.armings := by
  have hkept : (checkCallAt interp i allocates).1.armings = interp.armings :=
    @checkCallAt_keeps interp i allocates (fun mid => mid.armings = interp.armings)
      (fun mid cleared h => (clearCallAt_armings mid cleared).trans h) rfl
  rw [hrun] at hkept
  exact hkept

theorem Switching.armings (h : Switching p interp i choices interp' out) :
    interp'.armings = interp.armings := by
  cases h <;> rfl

theorem Checking.armings (h : Checking p interp i choices interp' out) :
    interp'.armings = interp.armings := by
  cases h with
  | unchecked quiet switching => exact switching.armings
  | passed polls check switching => exact switching.armings.trans (checkCallAt_armings check)
  | enterFails polls check step inactive =>
    have hsame := checkCallAt_armings check
    exact hsame
  | called polls check step active =>
    have hsame := checkCallAt_armings check
    exact hsame

theorem Stepping.arms (h : Stepping p interp event interp' out) (hsound : Sound interp) :
    interp.armings ≤ interp'.armings ∧ ∀ target, slotAt interp' spaceId = some target →
      slotAt interp spaceId = some target ∨ target.arming = interp.armings ∧
        interp'.armings = interp.armings + 1 ∧
        ∃ request, event = .callAt request ∧ request.spaceId = spaceId := by
  have hleft : LeavesTarget spaceId interp event interp' out →
      ∀ target, slotAt interp' spaceId = some target →
        slotAt interp spaceId = some target ∨ target.arming = interp.armings ∧
          interp'.armings = interp.armings + 1 ∧
          ∃ request, event = .callAt request ∧ request.spaceId = spaceId := by
    intro hleaves target htarget
    obtain hkept | ⟨i, jumps, offset, choices, m, rest, -, -, -, -, -, -, hempty⟩ :=
      h.slot hsound hleaves
    · exact Or.inl (hkept ▸ htarget)
    · rw [hempty] at htarget
      cases htarget
  cases h with
  | run live program step => exact ⟨Nat.le_refl _, hleft trivial⟩
  | inside live step active => exact ⟨Nat.le_refl _, hleft trivial⟩
  | boundary live step inactive checking =>
    exact ⟨Nat.le_of_eq checking.armings.symm, hleft trivial⟩
  | returns live pended step returning =>
    refine ⟨?_, hleft trivial⟩
    cases returning with
    | afterSwitch => exact Nat.le_refl _
    | raised failed => exact Nat.le_refl _
    | afterCallAt returned switching => exact Nat.le_of_eq switching.armings.symm
  | callAt =>
    rename_i request
    obtain ⟨error, heq⟩ | ⟨heq, -⟩ := callAt_cases interp request
    · have hsame : (Retrace.callAt interp request).2 = interp := by rw [heq]
      exact ⟨Nat.le_of_eq (congrArg Interp.armings hsame).symm, hleft hsame⟩
    · rw [heq]
      obtain ⟨-, -, -, ⟨-, harmings, hslots⟩ | ⟨-, harmings, hslots⟩⟩ :=
        hsound.tidy.armCallAt request
      · refine ⟨harmings ▸ Nat.le_succ _, ?_⟩
        intro target htarget
        rw [hslots] at htarget
        split at htarget
        · rename_i hspace
          cases htarget
          exact Or.inr ⟨rfl, harmings, request, rfl, hspace.symm⟩
        · exact Or.inl htarget
      · refine ⟨Nat.le_of_eq harmings.symm, ?_⟩
        intro target htarget
        rw [hslots] at htarget
        split at htarget
        · cases htarget
        · exact Or.inl htarget
  | clearCallAt =>
    rename_i cleared
    refine ⟨Nat.le_of_eq (clearCallAt_armings interp cleared).symm, ?_⟩
    intro target htarget
    rw [(hsound.tidy.clearCallAt cleared).2.1] at htarget
    split at htarget
    · cases htarget
    · exact Or.inl htarget
  | setThreadSwitchCallback live =>
    rename_i i other callback allocates
    exact ⟨Nat.le_of_eq (hsound.tidy.setThreadSwitchCallback i callback other
      allocates).2.2.1.symm, hleft trivial⟩
  | clearThread live => exact ⟨Nat.le_refl _, hleft trivial⟩

end slots

/-- The targets of a state are apart, and apart from those whose callbacks have been called. -/
structure Numbered (interp : Interp) (outs : List Output) : Prop where
  below : ∀ spaceId target, slotAt interp spaceId = some target → target.arming < interp.armings
  distinct : ∀ spaceId other target target', slotAt interp spaceId = some target →
    slotAt interp other = some target' → target.arming = target'.arming → spaceId = other
  called : ∀ arming ∈ calledArmings outs, arming < interp.armings ∧
    ∀ spaceId target, slotAt interp spaceId = some target → target.arming ≠ arming
  once : (calledArmings outs).Nodup

section numbered
variable {p : Platform} {origin interp interp' : Interp} {event : InterpEvent}
  {out outs : List Output}

theorem Numbered.step (h : Numbered interp outs) (hsound : Sound interp)
    (hstepping : Stepping p interp event interp' out) : Numbered interp' (outs ++ out) := by
  have harms : ∀ spaceId, _ := fun spaceId => @Stepping.arms p interp interp' event out spaceId
    hstepping hsound
  have hle : interp.armings ≤ interp'.armings := (harms 0).1
  have hbelow : ∀ spaceId target, slotAt interp' spaceId = some target →
      target.arming < interp'.armings := by
    intro spaceId target htarget
    obtain hold | ⟨hnew, hnext, -⟩ := (harms spaceId).2 target htarget
    · exact Nat.lt_of_lt_of_le (h.below spaceId target hold) hle
    · omega
  have hdistinct : ∀ spaceId other target target', slotAt interp' spaceId = some target →
      slotAt interp' other = some target' → target.arming = target'.arming → spaceId = other := by
    intro spaceId other target target' htarget htarget' hsame
    obtain hold | ⟨hnew, -, request, hevent, hspace⟩ := (harms spaceId).2 target htarget
    · obtain hold' | ⟨hnew', -⟩ := (harms other).2 target' htarget'
      · exact h.distinct spaceId other target target' hold hold' hsame
      · have hlt := h.below spaceId target hold
        omega
    · obtain hold' | ⟨-, -, request', hevent', hspace'⟩ := (harms other).2 target' htarget'
      · have hlt := h.below other target' hold'
        omega
      · rw [hevent] at hevent'
        cases hevent'
        exact hspace.symm.trans hspace'
  have hcalled : ∀ arming ∈ calledArmings outs, arming < interp'.armings ∧
      ∀ spaceId target, slotAt interp' spaceId = some target → target.arming ≠ arming := by
    intro arming hmem
    obtain ⟨hlt, hother⟩ := h.called arming hmem
    refine ⟨Nat.lt_of_lt_of_le hlt hle, ?_⟩
    intro spaceId target htarget
    obtain hold | ⟨hnew, -⟩ := (harms spaceId).2 target htarget
    · exact hother spaceId target hold
    · omega
  obtain hnone | ⟨i, jumps, offset, choices, d, -, rfl, hslot, hempty, -⟩ :=
    hstepping.calls hsound
  · have hsame : calledArmings (outs ++ out) = calledArmings outs := by
      have hnil : calledArmings out = [] := by
        rw [List.eq_nil_iff_forall_not_mem]
        intro arming hmem
        obtain ⟨j, d, hd, -⟩ := mem_calledArmings.mp hmem
        exact hnone j d hd
      rw [calledArmings_append, hnil, List.append_nil]
    exact ⟨hbelow, hdistinct, hsame ▸ hcalled, hsame ▸ h.once⟩
  · have hadded : calledArmings (outs ++ [.ran i (.begin jumps offset), callbackRan i choices,
        .callAt i d]) = calledArmings outs ++ [d.target.arming] := by
      rw [calledArmings_append]
      rfl
    have htaken : d.target.arming < interp'.armings ∧ ∀ spaceId target,
        slotAt interp' spaceId = some target → target.arming ≠ d.target.arming := by
      have hlt := h.below d.spaceId d.target hslot
      refine ⟨Nat.lt_of_lt_of_le hlt hle, ?_⟩
      intro spaceId target htarget
      obtain hold | ⟨hnew, -⟩ := (harms spaceId).2 target htarget
      · intro hsame
        rw [h.distinct spaceId d.spaceId target d.target hold hslot hsame, hempty] at htarget
        cases htarget
      · omega
    refine ⟨hbelow, hdistinct, ?_, ?_⟩
    · rw [hadded]
      intro arming hmem
      obtain hmem | hmem := List.mem_append.mp hmem
      · exact hcalled arming hmem
      · rw [List.mem_singleton.mp hmem]
        exact htaken
    · rw [hadded, List.nodup_append]
      refine ⟨h.once, List.nodup_singleton _, ?_⟩
      intro arming hmem other hother heq
      rw [List.mem_singleton.mp hother] at heq
      exact (h.called arming hmem).2 d.spaceId d.target hslot heq.symm

end numbered

section rearmed
variable {p : Platform} {interp interp' : Interp} {event : InterpEvent} {out : List Output}
  {i t spaceId : Nat} {choices : BoundaryChoices}

theorem Moved.sameId {m : Machine} {target : CallAt} {jumps : List (Int × Int)} {offset : Nat}
    (hmoved : Moved (interp.setThread i m) i choices spaceId)
    (hstep : threadStep p (interp.threads i) (.begin jumps offset) = some m)
    (hslot : slotAt interp spaceId = some target) :
    (interp.threads i).tstate.threadId = target.threadId := by
  obtain ⟨target', hslot', hid⟩ := slotCheck_armed hmoved.check
  have hsame : target' = target := Option.some.inj (hslot'.symm.trans hslot)
  rw [setThread_self, (threadStep_sameThread hstep).threadId] at hid
  rw [← hsame, hid]

end rearmed

end Retrace
