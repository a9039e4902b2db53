import Retrace.BytecodeBoundary

/-! What a boundary can do to an interpreter, case by case. -/

set_option autoImplicit false

namespace Retrace

/-- The boundary follows bytecode of another thread, and its frame's space has a callback. -/
structure SwitchesIn (interp : Interp) (i : Nat) (entry : SpaceCallbackState) (callback : Nat) :
    Prop where
  previous : ∃ u, interp.lastBytecodeThread = some u ∧ u ≠ i ∧
    (interp.threads u).tstate.threadId ≠ 0
  named : (interp.threads i).tstate.threadId ≠ 0
  armed : interp.threadSwitchArmed = true
  found : switchEntry interp i = some entry
  calls : entry.threadSwitchCallback = some callback

def takeDelta (interp : Interp) (v spaceId : Nat) (choices : BoundaryChoices) : Interp :=
  interp.setThread v (threadDeltaForTstate (interp.threads v) spaceId choices.deltaAllocates
    choices.tupleAllocates).2

def deltaRan (v spaceId : Nat) (choices : BoundaryChoices) : Output :=
  .ran v (.threadDelta spaceId choices.deltaAllocates choices.tupleAllocates)

def callbackRan (i : Nat) (choices : BoundaryChoices) : Output :=
  .ran i (.callbackBegin choices.scope choices.enterAllocates)

inductive Switching (p : Platform) (interp : Interp) (i : Nat) (choices : BoundaryChoices) :
    Interp → List Output → Prop
  | same (last : interp.lastBytecodeThread = some i) : Switching p interp i choices interp []
  | quiet (last : interp.lastBytecodeThread ≠ some i)
      (none : ∀ entry callback, ¬SwitchesIn interp i entry callback) :
      Switching p interp i choices (interp.setLast i) []
  | first {entry : SpaceCallbackState} {callback : Nat}
      (switches : SwitchesIn interp i entry callback) (cursor : entry.lastBytecodeThread = none) :
      Switching p interp i choices ((interp.setCursor entry.spaceId i).setLast i) []
  | own {entry : SpaceCallbackState} {callback : Nat}
      (switches : SwitchesIn interp i entry callback) (cursor : entry.lastBytecodeThread = some i) :
      Switching p interp i choices (interp.setLast i) []
  | error {entry : SpaceCallbackState} {callback v : Nat}
      (switches : SwitchesIn interp i entry callback) (cursor : entry.lastBytecodeThread = some v)
      (other : v ≠ i) (result : (threadDeltaForTstate (interp.threads v) entry.spaceId
        choices.deltaAllocates choices.tupleAllocates).1 = .error) :
      Switching p interp i choices ((takeDelta interp v entry.spaceId choices).setLast i)
        [deltaRan v entry.spaceId choices]
  | gone {entry : SpaceCallbackState} {callback v : Nat}
      (switches : SwitchesIn interp i entry callback) (cursor : entry.lastBytecodeThread = some v)
      (other : v ≠ i) (result : (threadDeltaForTstate (interp.threads v) entry.spaceId
        choices.deltaAllocates choices.tupleAllocates).1 = .noSpace) :
      Switching p interp i choices
        (((takeDelta interp v entry.spaceId choices).setCursor entry.spaceId i).setLast i)
        [deltaRan v entry.spaceId choices]
  | identFails {entry : SpaceCallbackState} {callback v : Nat} {delta : List Nat}
      (switches : SwitchesIn interp i entry callback) (cursor : entry.lastBytecodeThread = some v)
      (other : v ≠ i) (result : (threadDeltaForTstate (interp.threads v) entry.spaceId
        choices.deltaAllocates choices.tupleAllocates).1 = .delta delta)
      (fails : choices.identAllocates = false) :
      Switching p interp i choices
        (((takeDelta interp v entry.spaceId choices).setCursor entry.spaceId i).setLast i)
        [deltaRan v entry.spaceId choices]
  | enterFails {entry : SpaceCallbackState} {callback v : Nat} {delta : List Nat} {m : Machine}
      (switches : SwitchesIn interp i entry callback) (cursor : entry.lastBytecodeThread = some v)
      (other : v ≠ i) (result : (threadDeltaForTstate (interp.threads v) entry.spaceId
        choices.deltaAllocates choices.tupleAllocates).1 = .delta delta)
      (step : threadStep p (interp.threads i)
        (.callbackBegin choices.scope choices.enterAllocates) = some m)
      (inactive : m.tstate.threadCallbackActive = false) :
      Switching p interp i choices ((((takeDelta interp v entry.spaceId choices).setCursor
        entry.spaceId i).setThread i m).setLast i)
        [deltaRan v entry.spaceId choices, callbackRan i choices]
  | called {entry : SpaceCallbackState} {callback v : Nat} {delta : List Nat} {m : Machine}
      (switches : SwitchesIn interp i entry callback) (cursor : entry.lastBytecodeThread = some v)
      (other : v ≠ i) (result : (threadDeltaForTstate (interp.threads v) entry.spaceId
        choices.deltaAllocates choices.tupleAllocates).1 = .delta delta)
      (step : threadStep p (interp.threads i)
        (.callbackBegin choices.scope choices.enterAllocates) = some m)
      (active : m.tstate.threadCallbackActive = true) :
      Switching p interp i choices ((((takeDelta interp v entry.spaceId choices).setCursor
        entry.spaceId i).setThread i m).setPending i (some .afterSwitch))
        [deltaRan v entry.spaceId choices, callbackRan i choices,
          .threadSwitch i entry.spaceId callback v delta (interp.threads i).tstate.threadId]

section interp
variable {p : Platform} {interp interp' : Interp} {i j v spaceId : Nat} {choices : BoundaryChoices}
  {out : List Output}

@[simp] theorem setThread_self (interp : Interp) (i : Nat) (m : Machine) :
    (interp.setThread i m).threads i = m := by
  simp [Interp.setThread]

theorem setThread_of_ne (interp : Interp) {i j : Nat} (m : Machine) (h : j ≠ i) :
    (interp.setThread i m).threads j = interp.threads j := by
  simp [Interp.setThread, h]

theorem startCallback_spec {pending : Pending} {called : Output}
    (h : startCallback p interp i choices pending called = some (interp', out)) :
    ∃ m, threadStep p (interp.threads i) (.callbackBegin choices.scope choices.enterAllocates) =
        some m ∧
      ((m.tstate.threadCallbackActive = false ∧ interp' = interp.setThread i m ∧
        out = [callbackRan i choices]) ∨
      (m.tstate.threadCallbackActive = true ∧
        interp' = (interp.setThread i m).setPending i (some pending) ∧
        out = [callbackRan i choices, called])) := by
  unfold startCallback at h
  rw [Option.map_eq_some_iff] at h
  obtain ⟨m, hstep, hresult⟩ := h
  refine ⟨m, hstep, ?_⟩
  cases hactive : m.tstate.threadCallbackActive with
  | false =>
    rw [hactive] at hresult
    cases hresult
    exact Or.inl ⟨rfl, rfl, rfl⟩
  | true =>
    rw [hactive] at hresult
    cases hresult
    exact Or.inr ⟨rfl, rfl, rfl⟩

theorem switchEntry_callback {entry : SpaceCallbackState}
    (h : switchEntry interp i = some entry) : entry.threadSwitchCallback.isSome = true ∧
      topSpaceId (interp.threads i) = some entry.spaceId ∧ entry ∈ interp.spaceCallbacks := by
  unfold switchEntry at h
  have hfound := List.find?_some h
  simp only [Bool.and_eq_true, beq_iff_eq] at hfound
  exact ⟨hfound.1, hfound.2, List.mem_of_find?_eq_some h⟩

theorem setThread_idle (interp : Interp) (i : Nat) (m : Machine) (j : Nat) :
    (interp.setThread i m).idle j = interp.idle j := rfl

theorem setCursor_idle (interp : Interp) (spaceId i j : Nat) :
    (interp.setCursor spaceId i).idle j = interp.idle j := rfl

/-- The delta is there: what is left is the id, and then the callback. -/
theorem startCallback_switching {entry : SpaceCallbackState} {callback v : Nat} {delta : List Nat}
    (hswitches : SwitchesIn interp i entry callback)
    (hcursor : entry.lastBytecodeThread = some v) (hv : v ≠ i) (hidle : interp.idle i = true)
    (hresult : (threadDeltaForTstate (interp.threads v) entry.spaceId choices.deltaAllocates
      choices.tupleAllocates).1 = .delta delta) {final : Interp} {more : List Output}
    (hstart : startCallback p ((takeDelta interp v entry.spaceId choices).setCursor entry.spaceId i)
      i choices .afterSwitch (.threadSwitch i entry.spaceId callback v delta
        (((takeDelta interp v entry.spaceId choices).setCursor entry.spaceId i).threads
          i).tstate.threadId) = some (final, more)) :
    Switching p interp i choices (if final.idle i then final.setLast i else final)
      (deltaRan v entry.spaceId choices :: more) := by
  obtain ⟨m, hstep, hcases⟩ := startCallback_spec hstart
  have hkept : ((takeDelta interp v entry.spaceId choices).setCursor entry.spaceId i).threads i =
      interp.threads i := setThread_of_ne interp _ (Ne.symm hv)
  rw [hkept] at hstep hcases
  obtain ⟨hinactive, rfl, rfl⟩ | ⟨hactive, rfl, rfl⟩ := hcases
  · have hstays : ((((takeDelta interp v entry.spaceId choices).setCursor entry.spaceId
        i).setThread i m).idle i) = true := hidle
    rw [if_pos hstays]
    exact .enterFails hswitches hcursor hv hresult hstep hinactive
  · rw [if_neg (by simp [Interp.idle, Interp.setPending])]
    exact .called hswitches hcursor hv hresult hstep hactive

theorem deliverThreadSwitchCallback_switching {previous : Nat}
    (hlast : interp.lastBytecodeThread = some previous) (hne : previous ≠ i)
    (harmed : interp.threadSwitchArmed = true) (hidle : interp.idle i = true)
    (h : deliverThreadSwitchCallback p interp previous i choices = some (interp', out)) :
    Switching p interp i choices (if interp'.idle i then interp'.setLast i else interp') out := by
  have hother : interp.lastBytecodeThread ≠ some i := by
    rw [hlast]
    exact fun heq => hne (Option.some.inj heq)
  unfold deliverThreadSwitchCallback at h
  by_cases hnamed : (interp.threads previous).tstate.threadId = 0 ∨
      (interp.threads i).tstate.threadId = 0
  · rw [if_pos hnamed] at h
    cases h
    rw [if_pos hidle]
    refine .quiet hother ?_
    intro entry callback hswitches
    obtain ⟨u, hu, -, hid⟩ := hswitches.previous
    rw [hlast] at hu
    cases hu
    exact hnamed.elim hid hswitches.named
  · rw [if_neg hnamed] at h
    rw [not_or] at hnamed
    cases hentry : switchEntry interp i with
    | none =>
      rw [hentry] at h
      cases h
      rw [if_pos hidle]
      refine .quiet hother ?_
      intro entry callback hswitches
      rw [hswitches.found] at hentry
      cases hentry
    | some entry =>
      rw [hentry] at h
      obtain ⟨callback, hcallback⟩ := Option.isSome_iff_exists.mp (switchEntry_callback hentry).1
      have hswitches : SwitchesIn interp i entry callback :=
        ⟨⟨previous, hlast, hne, hnamed.1⟩, hnamed.2, harmed, hentry, hcallback⟩
      cases hcursor : entry.lastBytecodeThread with
      | none =>
        simp only [hcallback, hcursor] at h
        cases h
        rw [setCursor_idle, if_pos hidle]
        exact .first hswitches hcursor
      | some v =>
        simp only [hcallback, hcursor] at h
        by_cases hv : v = i
        · rw [if_pos hv] at h
          cases h
          rw [if_pos hidle]
          exact .own hswitches (hv ▸ hcursor)
        · rw [if_neg hv] at h
          cases hresult : (threadDeltaForTstate (interp.threads v) entry.spaceId
            choices.deltaAllocates choices.tupleAllocates).1 with
          | error =>
            simp only [hresult] at h
            cases h
            rw [setThread_idle, if_pos hidle]
            exact .error hswitches hcursor hv hresult
          | noSpace =>
            simp only [hresult] at h
            cases h
            rw [setCursor_idle, setThread_idle, if_pos hidle]
            exact .gone hswitches hcursor hv hresult
          | delta delta =>
            simp only [hresult] at h
            by_cases hident : choices.identAllocates = true
            · rw [if_pos hident, Option.map_eq_some_iff] at h
              obtain ⟨⟨final, more⟩, hstart, heq⟩ := h
              cases heq
              exact startCallback_switching hswitches hcursor hv hidle hresult hstart
            · rw [if_neg hident] at h
              cases h
              rw [setCursor_idle, setThread_idle, if_pos hidle]
              exact .identFails hswitches hcursor hv hresult (by simpa using hident)

theorem checkThreadSwitch_switching (hidle : interp.idle i = true)
    (h : checkThreadSwitch p interp i choices = some (interp', out)) :
    Switching p interp i choices interp' out := by
  unfold checkThreadSwitch at h
  by_cases hsame : interp.lastBytecodeThread = some i
  · rw [if_pos hsame] at h
    cases h
    exact .same hsame
  · rw [if_neg hsame, Option.map_eq_some_iff] at h
    obtain ⟨⟨final, more⟩, hdelivered, heq⟩ := h
    have hquiet : (∀ entry callback, ¬SwitchesIn interp i entry callback) →
        (interp, []) = (final, more) → Switching p interp i choices interp' out := by
      intro hnone hfinal
      cases hfinal
      cases heq
      dsimp only
      rw [if_pos hidle]
      exact .quiet hsame hnone
    cases hlast : interp.lastBytecodeThread with
    | none =>
      rw [hlast] at hdelivered
      refine hquiet ?_ (Option.some.inj hdelivered)
      intro entry callback hswitches
      obtain ⟨u, hu, -⟩ := hswitches.previous
      rw [hlast] at hu
      cases hu
    | some previous =>
      rw [hlast] at hdelivered
      dsimp only at hdelivered
      by_cases harmed : interp.threadSwitchArmed = true
      · rw [if_pos harmed] at hdelivered
        have hne : previous ≠ i := fun heq => hsame (by rw [hlast, heq])
        have hswitching := deliverThreadSwitchCallback_switching hlast hne harmed hidle hdelivered
        cases heq
        exact hswitching
      · rw [if_neg harmed] at hdelivered
        refine hquiet ?_ (Option.some.inj hdelivered)
        intro entry callback hswitches
        exact harmed hswitches.armed

end interp

end Retrace
