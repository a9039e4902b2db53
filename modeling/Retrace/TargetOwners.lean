import Retrace.InterpRuns

/-! Which boundaries move the `call_at` target of a space. -/

set_option autoImplicit false

namespace Retrace

/-- The coordinates of the space are still before the target, or there is no room to compare. -/
def Ahead (m : Machine) (spaceId : Nat) (target : CallAt) (room : Bool) : Prop :=
  ∃ words, coordinates m spaceId 0 = some words ∧
    (words < target.coordinates ∨ words ≠ [] ∧ room = false)

/-- The running frame is visible, and not of the space. -/
def RunsElsewhere (m : Machine) (spaceId : Nat) : Prop :=
  ∃ own, topSpaceId m = some own ∧ own ≠ spaceId

section checks
variable {m : Machine} {spaceId : Nat} {target : CallAt} {room : Bool}

theorem checkCallAtSlot_pass_iff (hidle : m.tstate.threadCallbackActive = false) :
    checkCallAtSlot m spaceId (some target) room = .pass ↔
      target.threadId ≠ m.tstate.threadId ∨ Ahead m spaceId target room := by
  unfold checkCallAtSlot
  dsimp only
  by_cases hid : target.threadId ≠ m.tstate.threadId
  · rw [if_pos hid]
    exact iff_of_true rfl (Or.inl hid)
  · rw [if_neg hid, or_iff_right hid]
    cases hfind : findThreadSpace m.tstate spaceId with
    | none =>
      refine iff_of_false (by simp) ?_
      rintro ⟨words, hwords, -⟩
      unfold coordinates at hwords
      rw [hfind] at hwords
      cases hwords
    | some node =>
      dsimp only
      by_cases hseen : (m.tstate.space node).seen = false
      · rw [if_pos hseen]
        refine iff_of_false (by simp) ?_
        rintro ⟨words, hwords, -⟩
        unfold coordinates at hwords
        rw [hfind] at hwords
        simp [hseen] at hwords
      · rw [if_neg hseen]
        obtain ⟨words, hwords⟩ : ∃ words, coordinates m spaceId 0 = some words := by
          unfold coordinates
          rw [hfind]
          dsimp only
          rw [if_pos (by simpa using hseen)]
          exact ⟨_, rfl⟩
        have hahead : Ahead m spaceId target room ↔
            words < target.coordinates ∨ words ≠ [] ∧ room = false := by
          unfold Ahead
          rw [hwords]
          simp
        rw [hahead, compareTargetToFrame_eq hidle hfind hwords]
        by_cases hroom : words ≠ [] ∧ room = false
        · rw [if_pos hroom]
          exact iff_of_true rfl (Or.inr hroom)
        · rw [if_neg hroom, or_iff_left hroom, ← (compareWords_spec target.coordinates words).2.2]
          dsimp only
          by_cases hpast : compareWords target.coordinates words > 0
          · rw [if_pos hpast]
            exact iff_of_true rfl hpast
          · rw [if_neg hpast]
            refine iff_of_false ?_ hpast
            cases hcallback : (if compareWords target.coordinates words = 0 then
              some target.callback else target.overshootCallback) <;> simp

theorem slotCheck_armed {interp : Interp} {i : Nat} {allocates : Nat → Bool}
    (h : slotCheck interp i allocates spaceId ≠ .pass) :
    ∃ target, slotAt interp spaceId = some target ∧
      target.threadId = (interp.threads i).tstate.threadId := by
  unfold slotCheck at h
  cases hslot : slotAt interp spaceId with
  | none =>
    rw [hslot] at h
    exact absurd rfl h
  | some target =>
    refine ⟨target, rfl, ?_⟩
    by_contra hid
    rw [hslot] at h
    unfold checkCallAtSlot at h
    dsimp only at h
    rw [if_pos hid] at h
    exact h rfl

theorem Tidy.polls {interp : Interp} {i : Nat} (h : Tidy interp)
    (hslot : slotAt interp spaceId = some target)
    (hvisible : (topSpaceId (interp.threads i)).isSome = true) : Polls interp i := by
  refine ⟨?_, hvisible⟩
  by_cases hroot : spaceId = spaceIdRoot
  · unfold slotAt at hslot
    rw [if_pos hroot] at hslot
    exact Or.inl (by rw [hslot]; rfl)
  · right
    by_contra harmed
    have hnone := h.callAt_none (by simpa using harmed) hroot
    rw [hslot] at hnone
    cases hnone

end checks

section slots
variable {p : Platform} {interp interp' : Interp} {i spaceId : Nat} {choices : BoundaryChoices}
  {out : List Output}

theorem Switching.slots (h : Switching p interp i choices interp' out) (htidy : Tidy interp) :
    slotAt interp' spaceId = slotAt interp spaceId ∧ ∀ j d, .callAt j d ∉ out := by
  have hmoved : ∀ {mid : Interp} {s}, Tidy mid →
      slotAt (mid.setCursor s i) spaceId = slotAt mid spaceId :=
    fun hmid => (hmid.setCursor _ _).2.1 spaceId
  cases h with
  | same last => exact ⟨rfl, by simp⟩
  | quiet last none => exact ⟨rfl, by simp⟩
  | first switches cursor => exact ⟨hmoved htidy, by simp⟩
  | own switches cursor => exact ⟨rfl, by simp⟩
  | error switches cursor other result => exact ⟨rfl, by simp [deltaRan]⟩
  | gone switches cursor other result => exact ⟨hmoved (htidy.setThread _ _), by simp [deltaRan]⟩
  | identFails switches cursor other result fails =>
    exact ⟨hmoved (htidy.setThread _ _), by simp [deltaRan]⟩
  | enterFails switches cursor other result step inactive =>
    exact ⟨hmoved (htidy.setThread _ _), by simp [deltaRan, callbackRan]⟩
  | called switches cursor other result step active =>
    exact ⟨hmoved (htidy.setThread _ _), by simp [deltaRan, callbackRan]⟩

theorem Switching.not_callAt (h : Switching p interp i choices interp' out) (htidy : Tidy interp) :
    ∀ j d, .callAt j d ∉ out :=
  have hslots : slotAt interp' spaceIdRoot = slotAt interp spaceIdRoot ∧ ∀ j d, .callAt j d ∉ out :=
    h.slots htidy
  hslots.2

/-- The check of the target of a space comes to it and does not pass. -/
structure Moved (interp : Interp) (i : Nat) (choices : BoundaryChoices) (spaceId : Nat) : Prop where
  polls : Polls interp i
  named : (interp.threads i).tstate.threadId ≠ 0
  reached : reaches interp i choices.compareAllocates spaceId = true
  check : slotCheck interp i choices.compareAllocates spaceId ≠ .pass

theorem Checking.slots (h : Checking p interp i choices interp' out) (htidy : Tidy interp)
    (spaceId : Nat) :
    (Moved interp i choices spaceId ∧ slotAt interp' spaceId = none ∧
      ∀ j d, .callAt j d ∈ out → j = i) ∨
    (¬Moved interp i choices spaceId ∧ slotAt interp' spaceId = slotAt interp spaceId ∧
      ∀ j d, .callAt j d ∈ out → d.spaceId ≠ spaceId) := by
  have hunnamed : ∀ {mid delivery}, (interp.threads i).tstate.threadId = 0 →
      checkCallAt interp i choices.compareAllocates = (mid, delivery) →
      mid = interp ∧ delivery = none := by
    intro mid delivery hzero hcheck
    unfold checkCallAt at hcheck
    rw [if_pos hzero] at hcheck
    cases hcheck
    exact ⟨rfl, rfl⟩
  -- what the pass does to the slot, when the boundary polls
  have hpass : ∀ {mid delivery}, Polls interp i →
      checkCallAt interp i choices.compareAllocates = (mid, delivery) → Tidy mid ∧
      ((Moved interp i choices spaceId ∧ slotAt mid spaceId = none) ∨
        (¬Moved interp i choices spaceId ∧ slotAt mid spaceId = slotAt interp spaceId ∧
          ∀ d, delivery = some d → d.spaceId ≠ spaceId)) := by
    intro mid delivery hpolls hcheck
    by_cases hzero : (interp.threads i).tstate.threadId = 0
    · obtain ⟨rfl, rfl⟩ := hunnamed hzero hcheck
      exact ⟨htidy, Or.inr ⟨fun hmoved => hmoved.named hzero, rfl, by simp⟩⟩
    · obtain ⟨hpassed, hall⟩ := checkCallAt_checked htidy hzero hcheck
      refine ⟨hpassed.tidy, ?_⟩
      cases hall spaceId with
      | kept slot other passes =>
        exact Or.inr ⟨fun hmoved => hmoved.check (passes hmoved.reached), slot, other⟩
      | cleared slot other comes check =>
        exact Or.inl ⟨⟨hpolls, hzero, comes, by rw [check]; simp⟩, slot⟩
      | delivered slot comes check result =>
        exact Or.inl ⟨⟨hpolls, hzero, comes, by rw [check]; simp⟩, slot⟩
  cases h with
  | unchecked quiet switching =>
    obtain ⟨hslot, hnone⟩ := switching.slots htidy
    exact Or.inr ⟨fun hmoved => quiet hmoved.polls, hslot, fun j d hd => absurd hd (hnone j d)⟩
  | passed polls check switching =>
    obtain ⟨hmid, hcases⟩ := hpass polls check
    obtain ⟨hslot, hnone⟩ := switching.slots hmid
    rw [hslot]
    obtain ⟨hmoved, hempty⟩ | ⟨hstays, hkept, -⟩ := hcases
    · exact Or.inl ⟨hmoved, hempty, fun j d hd => absurd hd (hnone j d)⟩
    · exact Or.inr ⟨hstays, hkept, fun j d hd => absurd hd (hnone j d)⟩
  | enterFails polls check step inactive =>
    obtain ⟨-, hcases⟩ := hpass polls check
    have hnone : ∀ j d, Output.callAt j d ∉ [callbackRan i choices] := by simp [callbackRan]
    obtain ⟨hmoved, hempty⟩ | ⟨hstays, hkept, -⟩ := hcases
    · exact Or.inl ⟨hmoved, hempty, fun j d hd => absurd hd (hnone j d)⟩
    · exact Or.inr ⟨hstays, hkept, fun j d hd => absurd hd (hnone j d)⟩
  | called polls check step active =>
    rename_i mid delivered m
    obtain ⟨-, hcases⟩ := hpass polls check
    have honly : ∀ j d, Output.callAt j d ∈ [callbackRan i choices, .callAt i delivered] →
        j = i ∧ d = delivered := by
      intro j d hd
      simpa [callbackRan] using hd
    obtain ⟨hmoved, hempty⟩ | ⟨hstays, hkept, hother⟩ := hcases
    · exact Or.inl ⟨hmoved, hempty, fun j d hd => (honly j d hd).1⟩
    · exact Or.inr ⟨hstays, hkept, fun j d hd => hother d (by rw [(honly j d hd).2])⟩

end slots

/-- The target of a space is hit, overshot and cleared by its own boundaries only: no other
boundary touches its slot, and its callbacks are called nowhere else. -/
def MovedByOwner (p : Platform) (spaceId : Nat) (interp : Interp) (event : InterpEvent)
    (interp' : Interp) (out : List Output) : Prop :=
  (∀ i d, .callAt i d ∈ out → d.spaceId = spaceId → ∃ jumps offset choices m,
    event = .boundary i jumps offset choices ∧
    threadStep p (interp.threads i) (.begin jumps offset) = some m ∧
    topSpaceId m = some spaceId) ∧
  ∀ i jumps offset choices m, event = .boundary i jumps offset choices →
    threadStep p (interp.threads i) (.begin jumps offset) = some m →
    topSpaceId m ≠ some spaceId → slotAt interp' spaceId = slotAt interp spaceId

/-- At a boundary of another space, outside callbacks, a target that the check comes to is ahead
of its own thread. -/
def AheadElsewhere (p : Platform) (spaceId : Nat) (interp : Interp) (event : InterpEvent) : Prop :=
  ∀ i jumps offset choices m target, event = .boundary i jumps offset choices →
    threadStep p (interp.threads i) (.begin jumps offset) = some m →
    m.tstate.threadCallbackActive = false → RunsElsewhere m spaceId →
    slotAt interp spaceId = some target → target.threadId = m.tstate.threadId →
    m.tstate.threadId ≠ 0 →
    reaches (interp.setThread i m) i choices.compareAllocates spaceId = true →
    Ahead m spaceId target (choices.compareAllocates spaceId)

section owners
variable {p : Platform} {interp interp' : Interp} {spaceId : Nat} {event : InterpEvent}
  {out : List Output}

theorem moved_iff {i : Nat} {choices : BoundaryChoices} {m : Machine} (htidy : Tidy interp)
    (hidle : m.tstate.threadCallbackActive = false) :
    Moved (interp.setThread i m) i choices spaceId ↔
      (topSpaceId m).isSome = true ∧ m.tstate.threadId ≠ 0 ∧
      reaches (interp.setThread i m) i choices.compareAllocates spaceId = true ∧
      ∃ target, slotAt interp spaceId = some target ∧ target.threadId = m.tstate.threadId ∧
        ¬Ahead m spaceId target (choices.compareAllocates spaceId) := by
  have hself := setThread_self interp i m
  have hslots : slotAt (interp.setThread i m) spaceId = slotAt interp spaceId := rfl
  constructor
  · intro hmoved
    obtain ⟨target, hslot, hid⟩ := slotCheck_armed hmoved.check
    have hcheck := hmoved.check
    have hvisible := hmoved.polls.2
    have hnamed := hmoved.named
    unfold slotCheck at hcheck
    rw [hself] at hid hcheck hvisible hnamed
    rw [hslot] at hcheck
    refine ⟨hvisible, hnamed, hmoved.reached, target, hslots ▸ hslot, hid, ?_⟩
    intro hahead
    exact hcheck ((checkCallAtSlot_pass_iff hidle).mpr (Or.inr hahead))
  · rintro ⟨hvisible, hnamed, hreached, target, hslot, hid, hbehind⟩
    refine ⟨(htidy.setThread i m).polls (hslots ▸ hslot) (by rwa [hself]), by rwa [hself], hreached, ?_⟩
    unfold slotCheck
    rw [hself, hslots, hslot, ne_eq, checkCallAtSlot_pass_iff hidle]
    exact fun hpass => hpass.elim (fun hother => hother hid) hbehind

theorem aheadElsewhere_iff {i offset : Nat} {jumps : List (Int × Int)} {choices : BoundaryChoices}
    {m : Machine} (htidy : Tidy interp)
    (hstep : threadStep p (interp.threads i) (.begin jumps offset) = some m)
    (hidle : m.tstate.threadCallbackActive = false) :
    AheadElsewhere p spaceId interp (.boundary i jumps offset choices) ↔
      (topSpaceId m = some spaceId ∨ ¬Moved (interp.setThread i m) i choices spaceId) := by
  rw [moved_iff htidy hidle]
  constructor
  · intro hall
    by_cases hown : topSpaceId m = some spaceId
    · exact Or.inl hown
    · refine Or.inr ?_
      rintro ⟨hvisible, hnamed, hreached, target, hslot, hid, hbehind⟩
      obtain ⟨own, hsome⟩ := Option.isSome_iff_exists.mp hvisible
      refine hbehind (hall i jumps offset choices m target rfl hstep hidle
        ⟨own, hsome, ?_⟩ hslot hid hnamed hreached)
      exact fun heq => hown (heq ▸ hsome)
  · rintro hmoved j jumps' offset' choices' m' target hevent hstep' - ⟨own, hsome, hne⟩ hslot hid
      hnamed hreached
    cases hevent
    rw [hstep] at hstep'
    cases hstep'
    by_contra hbehind
    refine (hmoved.resolve_left ?_) ⟨by rw [hsome]; rfl, hnamed, hreached, target, hslot, hid,
      hbehind⟩
    rw [hsome]
    exact fun heq => hne (Option.some.inj heq)

theorem Checking.movedByOwner_iff {i offset : Nat} {jumps : List (Int × Int)}
    {choices : BoundaryChoices} {m : Machine} {rest : List Output}
    (h : Checking p (interp.setThread i m) i choices interp' rest) (hsound : Sound interp)
    (hlive : i ∈ interp.live)
    (hstep : threadStep p (interp.threads i) (.begin jumps offset) = some m)
    (hidle : m.tstate.threadCallbackActive = false) :
    MovedByOwner p spaceId interp (.boundary i jumps offset choices) interp'
        (.ran i (.begin jumps offset) :: rest) ↔
      AheadElsewhere p spaceId interp (.boundary i jumps offset choices) := by
  have hbegun := (hsound.idleBoundary hlive hstep hidle).1
  have hslots : slotAt (interp.setThread i m) spaceId = slotAt interp spaceId := rfl
  have hcallAt : ∀ j d, Output.callAt j d ∈ .ran i (.begin jumps offset) :: rest ↔
      .callAt j d ∈ rest := by simp
  rw [aheadElsewhere_iff hsound.tidy hstep hidle]
  obtain ⟨hmoved, hempty, honly⟩ | ⟨hstays, hkept, hnone⟩ := h.slots hbegun.tidy spaceId
  · constructor
    · intro howner
      refine Or.inl ?_
      by_contra hown
      have hkept := howner.2 i jumps offset choices m rfl hstep hown
      obtain ⟨target, hslot, -⟩ := slotCheck_armed hmoved.check
      rw [hempty, ← hslots, hslot] at hkept
      cases hkept
    · intro hown
      have hown := hown.resolve_right (fun hnot => hnot hmoved)
      refine ⟨?_, ?_⟩
      · intro j d hd _
        rw [honly j d ((hcallAt j d).mp hd)]
        exact ⟨jumps, offset, choices, m, rfl, hstep, hown⟩
      · intro j jumps' offset' choices' m' hevent hstep' hne
        cases hevent
        rw [hstep] at hstep'
        cases hstep'
        exact absurd hown hne
  · refine iff_of_true ⟨?_, ?_⟩ (Or.inr hstays)
    · intro j d hd hspace
      exact absurd hspace (hnone j d ((hcallAt j d).mp hd))
    · intro j jumps' offset' choices' m' hevent _ _
      cases hevent
      exact hkept

theorem Stepping.movedByOwner_iff (h : Stepping p interp event interp' out) (hsound : Sound interp) :
    MovedByOwner p spaceId interp event interp' out ↔ AheadElsewhere p spaceId interp event := by
  have hquiet : (∀ i jumps offset choices, event ≠ .boundary i jumps offset choices) →
      (∀ i d, .callAt i d ∉ out) →
      (MovedByOwner p spaceId interp event interp' out ↔ AheadElsewhere p spaceId interp event) := by
    intro hother hnone
    refine iff_of_true ⟨fun i d hd => absurd hd (hnone i d), ?_⟩ ?_
    · intro i jumps offset choices m hevent
      exact absurd hevent (hother i jumps offset choices)
    · intro i jumps offset choices m target hevent
      exact absurd hevent (hother i jumps offset choices)
  cases h with
  | run live program step => exact hquiet (by simp) (by simp)
  | callAt => exact hquiet (by simp) (by simp)
  | clearCallAt => exact hquiet (by simp) (by simp)
  | setThreadSwitchCallback live => exact hquiet (by simp) (by simp)
  | clearThread live => exact hquiet (by simp) (by simp)
  | returns live pended step returning =>
    refine hquiet (by simp) ?_
    intro i d
    rw [List.mem_cons, not_or]
    refine ⟨by simp, ?_⟩
    cases returning with
    | afterSwitch => simp
    | raised failed => simp
    | afterCallAt returned switching =>
      exact switching.not_callAt (hsound.returned live step).1.tidy i d
  | inside live step active =>
    rename_i i offset jumps choices m
    refine iff_of_true ⟨by simp, ?_⟩ ?_
    · intro j jumps' offset' choices' m' hevent _ _
      cases hevent
      rfl
    · intro j jumps' offset' choices' m' target hevent hstep hidle
      cases hevent
      rw [step] at hstep
      cases hstep
      rw [active] at hidle
      cases hidle
  | boundary live step inactive checking =>
    exact checking.movedByOwner_iff hsound live step inactive

/-- In every run of an interpreter, boundaries of other spaces leave the target of a space alone
exactly if it is ahead of its thread at each of them that checks it. -/
theorem callAt_movedByOwner {events : List InterpEvent} (hunused : Unused interp) (spaceId : Nat) :
    StepRun.Always (interpStep p) (MovedByOwner p spaceId) events interp ↔
      StepRun.Always (interpStep p)
        (fun interp event _ _ => AheadElsewhere p spaceId interp event) events interp :=
  StepRun.always_congr (fun _ _ _ _ hsound hstep => (hsound.stepping hstep).sound hsound)
    (fun _ _ _ _ hsound hstep => (hsound.stepping hstep).movedByOwner_iff hsound) hunused.sound

/-- A frame of the root space, a target for it, and a frame of the disabled space above it. -/
def targetAhead : List InterpEvent := [
  .run 0 (.call 0 0 true true), .boundary 0 [] 4 (roomyChoices 9),
  .callAt ⟨1, [6, 0], 1, none, 0, true, true⟩,
  .run 0 (.enterSpace 0 1 true), .run 0 (.call 1 0 true true), .boundary 0 [] 0 (roomyChoices 9)]

theorem callAt_movedByOwner_ahead : StepRun.Always (interpStep ⟨true, true⟩)
    (MovedByOwner ⟨true, true⟩ 0) targetAhead (freshInterp ⟨true, true⟩ [0]) := by
  refine (callAt_movedByOwner (freshInterp_unused _ (by decide)) 0).mpr ?_
  have hother : ∀ {interp event},
      (∀ i jumps offset choices, event ≠ .boundary i jumps offset choices) →
      AheadElsewhere ⟨true, true⟩ 0 interp event := by
    intro interp event hne i jumps offset choices m target hevent
    exact absurd hevent (hne i jumps offset choices)
  refine fun mid out hstep => ⟨hother (by simp), ?_⟩
  cases hstep
  refine fun mid out hstep => ⟨?_, ?_⟩
  · intro i jumps offset choices m target hevent hbegin hidle helsewhere hslot
    cases hslot
  cases hstep
  refine fun mid out hstep => ⟨hother (by simp), ?_⟩
  cases hstep
  refine fun mid out hstep => ⟨hother (by simp), ?_⟩
  cases hstep
  refine fun mid out hstep => ⟨hother (by simp), ?_⟩
  cases hstep
  refine fun mid out hstep => ⟨?_, trivial⟩
  intro i jumps offset choices m target hevent hbegin _ _ hslot _ _ _
  cases hevent
  cases hbegin
  cases hslot
  exact ⟨[4, 0], rfl, Or.inl (by decide)⟩

/-- The callee that the target names returns before the target; the caller goes on in the
disabled space. -/
def targetPassed : List InterpEvent := [
  .run 0 (.call 0 0 true true), .boundary 0 [] 4 (roomyChoices 9),
  .callAt ⟨1, [4, 0, 9, 0], 1, some 2, 0, true, true⟩,
  .run 0 (.call 1 0 false true), .boundary 0 [] 0 (roomyChoices 9), .run 0 (.leave 0),
  .run 0 (.enterSpace 0 1 true), .run 0 (.call 1 0 true true)]

/-- A boundary of the disabled space overshoots the target of the root space. -/
theorem callAt_movedByOther : ¬StepRun.Always (interpStep ⟨true, true⟩)
    (MovedByOwner ⟨true, true⟩ 0) (targetPassed ++ [.boundary 0 [] 0 (roomyChoices 9)])
    (freshInterp ⟨true, true⟩ [0]) := by
  obtain ⟨mid, out, hrun⟩ : ∃ mid out, StepRun.run (interpStep ⟨true, true⟩) targetPassed
      (freshInterp ⟨true, true⟩ [0]) = some (mid, out) := ⟨_, _, rfl⟩
  rw [StepRun.always_append hrun]
  rintro ⟨-, hlast⟩
  cases hrun
  obtain ⟨howner, -⟩ := (hlast _ _ rfl).1
  obtain ⟨jumps, offset, choices, m, hevent, hbegin, htop⟩ :=
    howner 0 ⟨0, ⟨1, [4, 0, 9, 0], 1, some 2, 0⟩, false, 2⟩ (by decide) rfl
  cases hevent
  cases hbegin
  cases htop

end owners

end Retrace
