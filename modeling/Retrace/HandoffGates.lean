import Retrace.HandoffRuns
import Mathlib.Tactic.IntervalCases

/-! The gate locks of a handoff: who is woken, and what a timeout leaves behind. -/

set_option autoImplicit false

namespace Retrace

inductive ToError where
  | valueError (message : String)
  | runtimeError (message : String)
  | timeoutError (message : String)
  | memoryError
  deriving DecidableEq, Repr

def ToResult.raises : ToResult → Option ToError
  | .returned => none
  | .zeroTarget => some (.valueError "thread handoff target id must be non-zero")
  | .noThreadId => some (.runtimeError "no Retrace thread id")
  | .closed => some (.runtimeError "thread handoff is closed")
  | .noMemory => some .memoryError
  | .timedOut => some (.timeoutError "thread handoff timed out")
  | .waitFailed => some (.runtimeError "thread handoff wait failed")

/-- Between the set and the reset of `waiting`. -/
def Pc.waits : Pc → Bool
  | .loop => true
  | .gateWait => true
  | .lockAgain _ => true
  | .afterGate _ => true
  | _ => false

/-- A thread that waits has an entry that says so, and a thread that is to be woken has a free
gate. -/
structure Awake (s : HandoffState) (t : Nat) : Prop where
  waiting : (s.pc t).waits = true → ∃ entry, s.handoff.findEntry t = some entry ∧
    entry.waiting = true
  gate : ∀ entry, s.pc t = .gateWait → s.handoff.findEntry t = some entry →
    entry.permit = true ∨ s.handoff.closed = true → 0 < entry.gate

/-- The points of a call that has passed its gate in a closed handoff, by its own steps. -/
def wayOut : Nat → Pc
  | 0 => .lockAgain true
  | 1 => .afterGate true
  | 2 => .loop
  | 3 => .leave .returned
  | _ => .running

def refusal (target : Nat) : Nat → Pc
  | 0 => .lockTo target
  | 1 => .inTo target
  | 2 => .leave .closed
  | _ => .running

/-- In a closed handoff, the steps of the thread follow the path to its end, where the call has the
result, and each has the effect. -/
def Follows (t : Nat) (path : Nat → Pc) (last : Nat) (result : ToResult)
    (effect : HandoffState → HandoffState → Prop) : Prop :=
  ∀ s s' event n, s.handoff.closed = true → s.pc t = path n → n < last → event.thread = t →
    handoffStep s event = some s' → s'.pc t = path (n + 1) ∧ effect s s' ∧
      (n + 1 = last → s'.result t = some result)

section entries
variable {s s' : HandoffState} {t u : Nat}

theorem findEntry_update_of_ne (s : HandoffState) {t u : Nat} (f : HandoffEntry → HandoffEntry)
    (h : u ≠ t) : (s.handoff.updateEntry t f).findEntry u = s.handoff.findEntry u := by
  rw [findEntry_updateEntry]
  cases s.handoff.findEntry u with
  | none => rfl
  | some entry => simp [h]

theorem findEntry_update_self {entry : HandoffEntry} (f : HandoffEntry → HandoffEntry)
    (h : s.handoff.findEntry t = some entry) :
    (s.handoff.updateEntry t f).findEntry t =
      some { f entry with threadId := entry.threadId } := by
  rw [findEntry_updateEntry, h]
  simp

/-- What a step of another thread does to the entry of `u`: nothing, or it makes it, or grants the
permit, or closes. -/
theorem HandoffMove.entry_of_ne (h : HandoffMove s t s') (hu : u ≠ t) {entry : HandoffEntry}
    (hentry : s'.handoff.findEntry u = some entry) :
    (s.handoff.findEntry u = some entry ∧ (s'.handoff.closed = s.handoff.closed)) ∨
    (s.handoff.findEntry u = none ∧ entry = ⟨u, false, false, 0⟩) ∨
    (∃ old, s.handoff.findEntry u = some old ∧ s.pc t = .wake u ∧
      entry = { wakeEntryLocked old with threadId := old.threadId } ∧
      s'.handoff.closed = s.handoff.closed) ∨
    ∃ old, s.handoff.findEntry u = some old ∧ s.pc t = .inClose ∧ s.handoff.closed = false ∧
      entry = if old.waiting && !old.permit then { old with gate := old.gate + 1 } else old := by
  have hown : ∀ f, (s.handoff.updateEntry t f).findEntry u = some entry →
      s.handoff.findEntry u = some entry :=
    fun f hf => (findEntry_update_of_ne s f hu).symm.trans hf
  have hgrown : ∀ {self}, MoreEntries s.handoff self → self.findEntry u = some entry →
      s.handoff.findEntry u = some entry ∨
        s.handoff.findEntry u = none ∧ entry = ⟨u, false, false, 0⟩ := by
    intro self grown hself
    obtain hsame | ⟨hnone, hnew⟩ := grown.entry u
    · exact Or.inl (hsame.symm.trans hself)
    · rw [hnew] at hself
      exact Or.inr ⟨hnone, (Option.some.inj hself).symm⟩
  cases h with
  | refused at_ grown why =>
    exact (hgrown grown hentry).imp (fun h => ⟨h, grown.closed⟩) Or.inl
  | entered at_ opened other grown own found =>
    exact (hgrown grown hentry).imp (fun h => ⟨h, grown.closed⟩) Or.inl
  | transfer at_ =>
    rename_i target
    by_cases htarget : u = target
    · subst htarget
      have hwoken : (s.handoff.updateEntry u wakeEntryLocked).findEntry u = some entry := hentry
      rw [findEntry_updateEntry] at hwoken
      obtain ⟨old, hold, heq⟩ := Option.map_eq_some_iff.mp hwoken
      rw [if_pos rfl] at heq
      exact Or.inr (Or.inr (Or.inl ⟨old, hold, at_, heq.symm, rfl⟩))
    · exact Or.inl ⟨(findEntry_update_of_ne s _ htarget).symm.trans hentry, rfl⟩
  | close at_ =>
    cases hclosed : s.handoff.closed with
    | true =>
      have hsame : closeLocked s.handoff = s.handoff := by
        unfold closeLocked
        rw [if_pos hclosed]
      left
      rw [goto_handoff, hsame] at hentry
      refine ⟨hentry, ?_⟩
      rw [goto_handoff, hsame, hclosed]
    | false =>
      have hwoken : (closeLocked s.handoff).findEntry u = some entry := hentry
      rw [findEntry_closeLocked hclosed] at hwoken
      obtain ⟨old, hold, heq⟩ := Option.map_eq_some_iff.mp hwoken
      exact Or.inr (Or.inr (Or.inr ⟨old, hold, at_, rfl, heq.symm⟩))
  | takeLock free next => exact Or.inl ⟨hentry, rfl⟩
  | wait at_ found opened unpermitted => exact Or.inl ⟨hentry, rfl⟩
  | again at_ => exact Or.inl ⟨hentry, rfl⟩
  | left at_ => exact Or.inl ⟨hentry, rfl⟩
  | closed at_ => exact Or.inl ⟨hentry, rfl⟩
  | _ => exact Or.inl ⟨hown _ hentry, rfl⟩

theorem HandoffMove.entry_kept (h : HandoffMove s t s') {u : Nat}
    (hu : (s.handoff.findEntry u).isSome = true) : (s'.handoff.findEntry u).isSome = true := by
  have hupdate : ∀ v f, ((s.handoff.updateEntry v f).findEntry u).isSome = true := by
    intro v f
    rw [findEntry_updateEntry, Option.isSome_map]
    exact hu
  cases h with
  | refused at_ grown why => exact grown.isSome hu
  | entered at_ opened other grown own found => exact grown.isSome hu
  | close at_ =>
    cases hclosed : s.handoff.closed with
    | true =>
      rw [goto_handoff]
      unfold closeLocked
      rw [if_pos hclosed]
      exact hu
    | false =>
      change ((closeLocked s.handoff).findEntry u).isSome = true
      rw [findEntry_closeLocked hclosed, Option.isSome_map]
      exact hu
  | takeLock free next => exact hu
  | wait at_ found opened unpermitted => exact hu
  | again at_ => exact hu
  | left at_ => exact hu
  | closed at_ => exact hu
  | _ => exact hupdate _ _

@[simp] theorem wakeEntryLocked_waiting (entry : HandoffEntry) :
    (wakeEntryLocked entry).waiting = entry.waiting := by
  unfold wakeEntryLocked
  split <;> rfl

@[simp] theorem wakeEntryLocked_permit (entry : HandoffEntry) :
    (wakeEntryLocked entry).permit = true := by
  unfold wakeEntryLocked
  split <;> rfl

theorem wakeEntryLocked_gate (entry : HandoffEntry) : (wakeEntryLocked entry).gate =
    if entry.permit = false ∧ entry.waiting = true then entry.gate + 1 else entry.gate := by
  unfold wakeEntryLocked
  cases entry.permit <;> cases entry.waiting <;> rfl

theorem Awake.of_not_waits (h : (s.pc t).waits = false) : Awake s t := by
  refine ⟨?_, ?_⟩
  · intro hwaits
    rw [h] at hwaits
    cases hwaits
  · intro entry hpc
    rw [hpc] at h
    cases h

theorem Awake.congr (h : Awake s t) (hpc : s'.pc t = s.pc t) (hhandoff : s'.handoff = s.handoff) :
    Awake s' t := by
  refine ⟨?_, ?_⟩
  · rw [hpc, hhandoff]
    exact h.waiting
  · rw [hpc, hhandoff]
    exact h.gate

theorem Awake.other (h : Awake s u) (hmove : HandoffMove s t s') (hu : u ≠ t) : Awake s' u := by
  have hpc := hmove.pc_of_ne hu
  refine ⟨?_, ?_⟩
  · intro hwaits
    rw [hpc] at hwaits
    obtain ⟨old, hold, hwaiting⟩ := h.waiting hwaits
    obtain ⟨entry, hentry⟩ := Option.isSome_iff_exists.mp (hmove.entry_kept (by rw [hold]; rfl))
    refine ⟨entry, hentry, ?_⟩
    obtain ⟨hsame, -⟩ | ⟨hnone, -⟩ | ⟨old', hold', -, rfl, -⟩ | ⟨old', hold', -, -, rfl⟩ :=
      hmove.entry_of_ne hu hentry
    · rw [hold] at hsame
      exact Option.some.inj hsame ▸ hwaiting
    · rw [hold] at hnone
      cases hnone
    · rw [hold] at hold'
      simpa using Option.some.inj hold' ▸ hwaiting
    · rw [hold] at hold'
      cases hold'
      split <;> exact hwaiting
  · intro entry hgate hentry hwhy
    rw [hpc] at hgate
    obtain ⟨old, hold, hwaiting⟩ := h.waiting (by rw [hgate]; rfl)
    have hfree := h.gate old hgate hold
    obtain ⟨hsame, hclosed⟩ | ⟨hnone, -⟩ | ⟨old', hold', -, rfl, -⟩ |
      ⟨old', hold', -, -, rfl⟩ := hmove.entry_of_ne hu hentry
    · rw [hold] at hsame
      cases hsame
      rw [hclosed] at hwhy
      exact hfree hwhy
    · rw [hold] at hnone
      cases hnone
    · rw [hold] at hold'
      cases hold'
      change 0 < (wakeEntryLocked old).gate
      rw [wakeEntryLocked_gate]
      split
      · exact Nat.succ_pos _
      · rename_i hcond
        have hpermit : old.permit = true := by
          rw [← Bool.not_eq_false]
          exact fun hp => hcond ⟨hp, hwaiting⟩
        exact hfree (Or.inl hpermit)
    · rw [hold] at hold'
      cases hold'
      cases hpermit : old.permit with
      | true =>
        rw [if_neg (by simp)]
        exact hfree (Or.inl hpermit)
      | false =>
        rw [if_pos (by simp [hwaiting])]
        exact Nat.succ_pos _

theorem Awake.own (h : Awake s t) (hmove : HandoffMove s t s') : Awake s' t := by
  cases hmove with
  | takeLock free next =>
    rename_i pc
    have hwaits : pc.waits = true → (s.pc t).waits = true := by
      cases hpc : s.pc t <;> rw [hpc] at next <;> cases next <;> simp [Pc.waits]
    refine ⟨?_, ?_⟩
    · rw [goto_pc]
      exact fun hw => h.waiting (hwaits hw)
    · intro entry hgate
      rw [goto_pc] at hgate
      cases hpc : s.pc t <;> rw [hpc, hgate] at next <;> cases next
  | park at_ found unpermitted =>
    refine ⟨fun _ => ⟨_, findEntry_update_self _ found, rfl⟩, ?_⟩
    intro entry hgate
    rw [goto_pc] at hgate
    cases hgate
  | wait at_ found opened unpermitted =>
    refine ⟨fun _ => h.waiting (by rw [at_]; rfl), ?_⟩
    intro entry _ hentry hwhy
    have hsame : s.handoff.findEntry t = some entry := hentry
    rw [found] at hsame
    cases hsame
    obtain hpermit | hclosed := hwhy
    · rw [unpermitted] at hpermit
      cases hpermit
    · have hstill : s.handoff.closed = true := hclosed
      rw [opened] at hstill
      cases hstill
  | pass at_ found free =>
    rename_i entry
    obtain ⟨old, hold, hwaiting⟩ := h.waiting (by rw [at_]; rfl)
    rw [found] at hold
    cases hold
    refine ⟨fun _ => ⟨_, findEntry_update_self _ found, hwaiting⟩, ?_⟩
    intro entry hgate
    rw [goto_pc] at hgate
    cases hgate
  | again at_ =>
    refine ⟨fun _ => h.waiting (by rw [at_]; rfl), ?_⟩
    intro entry hgate
    rw [goto_pc] at hgate
    cases hgate
  | left at_ => exact Awake.of_not_waits (by rw [finish_pc]; rfl)
  | _ => exact Awake.of_not_waits (by rw [goto_pc]; rfl)

theorem Awake.step {event : HandoffEvent} (h : Awake s t) (hstep : Stepped s event s') :
    Awake s' t := by
  by_cases hne : t = event.thread
  · subst hne
    cases hstep with
    | invalid at_ why => exact Awake.of_not_waits (by simp [HandoffEvent.thread, Pc.waits])
    | call at_ valid => exact Awake.of_not_waits (by simp [HandoffEvent.thread, Pc.waits])
    | callClose at_ => exact Awake.of_not_waits (by simp [HandoffEvent.thread, Pc.waits])
    | advance move => exact h.own move
    | timeout at_ timed =>
      refine ⟨fun _ => h.waiting ?_, ?_⟩
      · dsimp only [HandoffEvent.thread]
        rw [at_]
        rfl
      · intro entry hgate
        simp [HandoffEvent.thread] at hgate
  · have hpc := hstep.pc_of_ne hne
    cases hstep with
    | advance move => exact h.other move hne
    | _ => exact h.congr hpc rfl

end entries

section closed
variable {s s' : HandoffState} {t : Nat} {log : List HandoffLog} {events : List HandoffEvent}

theorem HandoffMove.result_of_ne (h : HandoffMove s t s') {u : Nat} (hu : u ≠ t) :
    s'.result u = s.result u := by
  cases h with
  | left at_ => exact Function.update_of_ne hu _ _
  | _ => rfl

theorem Stepped.result_of_ne {event : HandoffEvent} (h : Stepped s event s') {u : Nat}
    (hu : u ≠ event.thread) : s'.result u = s.result u := by
  cases h with
  | invalid at_ why => exact Function.update_of_ne hu _ _
  | advance move => exact move.result_of_ne hu
  | _ => rfl

theorem advances_of_pc {event : HandoffEvent} (hrunning : s.pc event.thread ≠ .running)
    (hgate : s.pc event.thread ≠ .gateWait) (hstep : handoffStep s event = some s') :
    ∃ allocTarget allocCurrent, advance s event.thread allocTarget allocCurrent = some s' := by
  cases event with
  | call u target =>
    simp only [handoffStep] at hstep
    rw [if_neg (show ¬s.pc u = .running from hrunning)] at hstep
    cases hstep
  | callClose u =>
    simp only [handoffStep] at hstep
    rw [if_neg (show ¬s.pc u = .running from hrunning)] at hstep
    cases hstep
  | advance u allocTarget allocCurrent => exact ⟨allocTarget, allocCurrent, hstep⟩
  | timeout u =>
    simp only [handoffStep] at hstep
    rw [if_neg (fun hcond => hgate hcond.1)] at hstep
    cases hstep

theorem Follows.of_advance {path : Nat → Pc} {last : Nat} {result : ToResult}
    {effect : HandoffState → HandoffState → Prop}
    (hpath : ∀ n < last, path n ≠ .running ∧ path n ≠ .gateWait)
    (hadvance : ∀ s s' n allocTarget allocCurrent, s.handoff.closed = true → s.pc t = path n →
      n < last → advance s t allocTarget allocCurrent = some s' → s'.pc t = path (n + 1) ∧
        effect s s' ∧ (n + 1 = last → s'.result t = some result)) :
    Follows t path last result effect := by
  intro s s' event n hclosed hpc hn hthread hstep
  subst hthread
  obtain ⟨hrunning, hgate⟩ := hpath n hn
  rw [← hpc] at hrunning hgate
  obtain ⟨allocTarget, allocCurrent, hrun⟩ := advances_of_pc hrunning hgate hstep
  exact hadvance s s' n allocTarget allocCurrent hclosed hpc hn hrun

theorem wayOut_follows (t : Nat) : Follows t wayOut 4 .returned (fun _ _ => True) := by
  refine Follows.of_advance ?_ ?_
  · intro n hn
    interval_cases n <;> simp [wayOut]
  intro s s' n allocTarget allocCurrent hclosed hpc hn hadvance
  unfold advance at hadvance
  rw [hpc] at hadvance
  interval_cases n
  · simp only [wayOut] at hadvance
    split at hadvance
    · cases hadvance
      exact ⟨goto_pc _ _ _, trivial, by simp⟩
    · cases hadvance
  · simp only [wayOut, afterGate, Bool.not_true, Bool.and_false, Bool.false_eq_true, if_false,
      Option.some.injEq] at hadvance
    subst hadvance
    exact ⟨goto_pc _ _ _, trivial, by simp⟩
  · simp only [wayOut, hclosed, Bool.not_true, Bool.false_and, Bool.false_eq_true, if_false,
      Option.bind_eq_bind, Option.bind_eq_some_iff, Option.some.injEq] at hadvance
    obtain ⟨entry, -, rfl⟩ := hadvance
    exact ⟨goto_pc _ _ _, trivial, by simp⟩
  · simp only [wayOut, Option.some.injEq] at hadvance
    subst hadvance
    exact ⟨finish_pc _ _, trivial, fun _ => Function.update_self _ _ _⟩

theorem refusal_follows (t target : Nat) : Follows t (refusal target) 3 .closed
    (fun s s' => s'.handoff.entries = s.handoff.entries) := by
  refine Follows.of_advance ?_ ?_
  · intro n hn
    interval_cases n <;> simp [refusal]
  intro s s' n allocTarget allocCurrent hclosed hpc hn hadvance
  unfold advance at hadvance
  rw [hpc] at hadvance
  interval_cases n
  · simp only [refusal] at hadvance
    split at hadvance
    · cases hadvance
      exact ⟨goto_pc _ _ _, rfl, by simp⟩
    · cases hadvance
  · simp only [refusal, enterTo, hclosed, if_true, Option.some.injEq] at hadvance
    subst hadvance
    exact ⟨goto_pc _ _ _, rfl, by simp⟩
  · simp only [refusal, Option.some.injEq] at hadvance
    subst hadvance
    exact ⟨finish_pc _ _, rfl, fun _ => Function.update_self _ _ _⟩

theorem loggedStep_some {event : HandoffEvent} {out : List HandoffLog}
    (h : loggedStep s event = some (s', out)) : handoffStep s event = some s' := by
  obtain ⟨next, hnext, heq⟩ := Option.map_eq_some_iff.mp h
  cases heq
  exact hnext

theorem Follows.run {path : Nat → Pc} {last : Nat} {result : ToResult}
    {effect : HandoffState → HandoffState → Prop} (h : Follows t path last result effect)
    (hclosed : s.handoff.closed = true) {n : Nat} (hpc : s.pc t = path n)
    (hresult : n = last → s.result t = some result)
    (hrun : StepRun.run loggedStep events s = some (s', log))
    (hn : n + events.countP (fun event => event.thread = t) ≤ last) :
    s'.pc t = path (n + events.countP (fun event => event.thread = t)) ∧
      (n + events.countP (fun event => event.thread = t) = last → s'.result t = some result) ∧
      StepRun.Always loggedStep (fun s event s' _ => event.thread = t → effect s s') events s := by
  induction events generalizing s n log with
  | nil =>
    cases hrun
    exact ⟨hpc, hresult, trivial⟩
  | cons event events ih =>
    obtain ⟨mid, out, more, hone, hrest, -⟩ := StepRun.run_cons.mp hrun
    have hstep := loggedStep_some hone
    have hstepped := handoffStep_stepped hstep
    have hclosed' := hstepped.closed_mono hclosed
    rw [StepRun.always_cons hone]
    by_cases hthread : event.thread = t
    · rw [List.countP_cons_of_pos (by simpa using hthread)] at hn ⊢
      obtain ⟨hpc', heffect, hresult'⟩ := h s mid event n hclosed hpc (by omega) hthread hstep
      obtain ⟨hend, hlast, halways⟩ := ih hclosed' hpc' hresult' hrest (by omega)
      have hcount : n + (events.countP (fun event => event.thread = t) + 1) =
          n + 1 + events.countP (fun event => event.thread = t) := by omega
      rw [hcount]
      exact ⟨hend, hlast, fun _ => heffect, halways⟩
    · rw [List.countP_cons_of_neg (by simpa using hthread)] at hn ⊢
      have hne : t ≠ event.thread := Ne.symm hthread
      obtain ⟨hend, hlast, halways⟩ := ih hclosed' ((hstepped.pc_of_ne hne).trans hpc)
        (fun heq => (hstepped.result_of_ne hne).trans (hresult heq)) hrest hn
      exact ⟨hend, hlast, fun heq => absurd heq hthread, halways⟩

theorem awake_run {hasTimeout : Bool}
    (hrun : StepRun.run loggedStep events (newHandoff hasTimeout) = some (s, log)) (t : Nat) :
    Awake s t := by
  refine @StepRun.run_invariant _ _ _ loggedStep (fun s => Awake s t) ?_ _ _ _ _
    (Awake.of_not_waits rfl) hrun
  intro s event s' out h hstep
  exact h.step (handoffStep_stepped (loggedStep_some hstep))

/-- In every state of every run, a thread that waits at its gate with a permit, or in a closed
handoff, finds the gate free. Once the handoff is closed, a thread that has passed its gate returns
by its next four steps, and a later `to` of a valid id raises a `RuntimeError` and changes no entry. -/
theorem handoff_noLostWakeup {hasTimeout : Bool}
    (hrun : StepRun.run loggedStep events (newHandoff hasTimeout) = some (s, log)) :
    (∀ t, s.pc t = .gateWait → s.permit t = true ∨ s.handoff.closed = true →
      ∃ entry, s.handoff.findEntry t = some entry ∧ 0 < entry.gate) ∧
    (s.handoff.closed = true → ∀ t, s.pc t = .lockAgain true → ∀ events' s' log',
      StepRun.run loggedStep events' s = some (s', log') →
      events'.countP (fun event => event.thread = t) ≤ 4 →
      s'.pc t = wayOut (events'.countP (fun event => event.thread = t)) ∧
        (events'.countP (fun event => event.thread = t) = 4 → s'.result t = some .returned)) ∧
    (s.handoff.closed = true → ∀ t target s₁, target ≠ 0 →
      handoffStep s (.call t target) = some s₁ → s₁.handoff = s.handoff ∧
      if t = 0 then s₁.pc t = .running ∧ s₁.result t = some .noThreadId
      else ∀ events' s' log', StepRun.run loggedStep events' s₁ = some (s', log') →
        events'.countP (fun event => event.thread = t) ≤ 3 →
        s'.pc t = refusal target (events'.countP (fun event => event.thread = t)) ∧
          (events'.countP (fun event => event.thread = t) = 3 → s'.result t = some .closed) ∧
          StepRun.Always loggedStep (fun s event s' _ => event.thread = t →
            s'.handoff.entries = s.handoff.entries) events' s₁) := by
  refine ⟨?_, ?_, ?_⟩
  · intro t hgate hwhy
    have hawake := awake_run hrun t
    obtain ⟨entry, hentry, -⟩ := hawake.waiting (by rw [hgate]; rfl)
    refine ⟨entry, hentry, hawake.gate entry hgate hentry ?_⟩
    rwa [permit_of_entry hentry] at hwhy
  · intro hclosed t hpc events' s' log' hrun' hcount
    have hout := (wayOut_follows t).run hclosed (n := 0) hpc (by simp) hrun' (by omega)
    rw [Nat.zero_add] at hout
    exact ⟨hout.1, hout.2.1⟩
  · intro hclosed t target s₁ htarget hcall
    simp only [handoffStep] at hcall
    split at hcall
    · cases hcall
      unfold callTo
      rw [if_neg htarget]
      by_cases ht : t = 0
      · rw [if_pos ht, if_pos ht]
        exact ⟨rfl, finish_pc _ _, Function.update_self _ _ _⟩
      · rw [if_neg ht, if_neg ht]
        refine ⟨rfl, ?_⟩
        intro events' s' log' hrun' hcount
        have hout := (refusal_follows t target).run (s := s.goto t (.lockTo target)) hclosed (n := 0)
          (goto_pc _ _ _) (by simp) hrun' (by omega)
        rw [Nat.zero_add] at hout
        exact hout
    · cases hcall

/-- Thread 1 parks, thread 2 closes, and thread 1 passes its gate. -/
def closedWhileParked : List HandoffEvent :=
  .call 1 2 :: List.replicate 6 (.advance 1 true true) ++
    .callClose 2 :: List.replicate 3 (.advance 2 true true) ++ [.advance 1 true true]

theorem handoff_noLostWakeup_closed : ∃ s s' log log',
    StepRun.run loggedStep closedWhileParked (newHandoff true) = some (s, log) ∧
      StepRun.run loggedStep (List.replicate 4 (.advance 1 true true)) s = some (s', log') ∧
      s'.result 1 = some .returned := by
  obtain ⟨s, log, hrun, hclosed, hpc⟩ : ∃ s log,
      StepRun.run loggedStep closedWhileParked (newHandoff true) = some (s, log) ∧
      s.handoff.closed = true ∧ s.pc 1 = .lockAgain true := ⟨_, _, rfl, rfl, by decide⟩
  obtain ⟨s', log', hrun'⟩ : ∃ s' log', StepRun.run loggedStep
      (List.replicate 4 (.advance 1 true true)) s = some (s', log') := by
    cases hrun
    exact ⟨_, _, rfl⟩
  obtain ⟨-, hout, -⟩ := handoff_noLostWakeup hrun
  exact ⟨s, s', log, log', hrun, hrun',
    (hout hclosed 1 hpc _ s' log' hrun' (by decide)).2 (by decide)⟩

/-- The id is looked at before the handoff. -/
theorem handoff_closed_zeroTarget : ∃ s s' log,
    StepRun.run loggedStep (.callClose 1 :: List.replicate 3 (.advance 1 true true))
      (newHandoff true) = some (s, log) ∧ s.handoff.closed = true ∧
      handoffStep s (.call 1 0) = some s' ∧
      (s'.result 1).bind ToResult.raises =
        some (.valueError "thread handoff target id must be non-zero") :=
  ⟨_, _, _, rfl, rfl, rfl, rfl⟩

end closed

end Retrace
