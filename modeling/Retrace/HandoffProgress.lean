import Retrace.HandoffSchedules
import Retrace.HandoffTimeouts
import Mathlib.Algebra.BigOperators.Ring.Finset
import Mathlib.Algebra.Order.BigOperators.Group.Finset

/-! The steps inside the calls of a handoff come to an end, and where they stop nobody is stuck. -/

set_option autoImplicit false

namespace Retrace

/-- How far a thread is from the end of its call. A gate that it passes costs 4. -/
def Pc.rank : Pc → Nat
  | .running => 0
  | .lockTo _ => 12
  | .inTo _ => 11
  | .clearStale _ => 10
  | .wake _ => 9
  | .startWait => 4
  | .loop => 3
  | .gateWait => 2
  | .lockAgain _ => 5
  | .afterGate _ => 4
  | .leave _ => 1
  | .lockClose => 3
  | .inClose => 2
  | .leaveClose => 1

def HandoffState.gateOf (s : HandoffState) (t : Nat) : Nat :=
  match s.handoff.findEntry t with
  | some entry => entry.gate
  | none => 0

/-- What is left to do for the threads. A close may free the gate of each once. -/
def HandoffState.work (s : HandoffState) (threads : Finset Nat) : Nat :=
  ∑ t ∈ threads, (s.pc t).rank + 4 * ∑ t ∈ threads, s.gateOf t +
    if s.handoff.closed then 0 else 4 * threads.card

def Pc.entered : Pc → Bool
  | .clearStale _ => true
  | .wake _ => true
  | .startWait => true
  | pc => pc.waits

def HandoffEvent.isAdvance : HandoffEvent → Bool
  | .advance _ _ _ => true
  | _ => false

section work
variable {s s' : HandoffState} {t u : Nat} {threads : Finset Nat}

@[simp] theorem goto_gateOf (s : HandoffState) (t u : Nat) (pc : Pc) :
    (s.goto t pc).gateOf u = s.gateOf u := rfl

theorem gateOf_update (s : HandoffState) (t u : Nat) (f : HandoffEntry → HandoffEntry) :
    ({ s with handoff := s.handoff.updateEntry t f } : HandoffState).gateOf u =
      match s.handoff.findEntry u with
      | some entry => if u = t then (f entry).gate else entry.gate
      | none => 0 := by
  unfold HandoffState.gateOf
  rw [findEntry_updateEntry]
  cases s.handoff.findEntry u with
  | none => rfl
  | some entry =>
    simp only [Option.map_some]
    split <;> rfl

theorem gateOf_update_of_gate (s : HandoffState) (t u : Nat) {f : HandoffEntry → HandoffEntry}
    (h : ∀ entry, (f entry).gate = entry.gate) :
    ({ s with handoff := s.handoff.updateEntry t f } : HandoffState).gateOf u = s.gateOf u := by
  rw [gateOf_update]
  unfold HandoffState.gateOf
  cases s.handoff.findEntry u with
  | none => rfl
  | some entry => simp [h]

theorem MoreEntries.gateOf {self : ThreadHandoff} (h : MoreEntries s.handoff self) (u : Nat) :
    ({ s with handoff := self } : HandoffState).gateOf u = s.gateOf u := by
  unfold HandoffState.gateOf
  obtain hsame | ⟨hnone, hnew⟩ := h.entry u
  · rw [hsame]
  · rw [hnone, hnew]

theorem gateOf_wake (s : HandoffState) (target u : Nat) :
    ({ s with handoff := s.handoff.updateEntry target wakeEntryLocked } : HandoffState).gateOf u ≤
      s.gateOf u + if u = target then 1 else 0 := by
  rw [gateOf_update]
  unfold HandoffState.gateOf
  cases s.handoff.findEntry u with
  | none => exact Nat.zero_le _
  | some entry =>
    dsimp only
    split
    · rw [wakeEntryLocked_gate]
      split <;> omega
    · exact Nat.le_refl _

theorem gateOf_closeLocked (h : s.handoff.closed = false) (u : Nat) :
    ({ s with handoff := closeLocked s.handoff } : HandoffState).gateOf u ≤ s.gateOf u + 1 := by
  unfold HandoffState.gateOf
  rw [findEntry_closeLocked h]
  cases s.handoff.findEntry u with
  | none => exact Nat.zero_le _
  | some entry =>
    simp only [Option.map_some]
    split
    · exact Nat.le_refl _
    · exact Nat.le_succ _

theorem ranks_goto (ht : t ∈ threads) (pcs : Nat → Pc) (pc : Pc) :
    ∑ u ∈ threads, (Function.update pcs t pc u).rank + (pcs t).rank =
      ∑ u ∈ threads, (pcs u).rank + pc.rank := by
  have hrest : ∑ u ∈ threads.erase t, (Function.update pcs t pc u).rank =
      ∑ u ∈ threads.erase t, (pcs u).rank := by
    refine Finset.sum_congr rfl (fun u hu => ?_)
    rw [Function.update_of_ne (Finset.ne_of_mem_erase hu)]
  rw [← Finset.add_sum_erase _ _ ht, ← Finset.add_sum_erase _ (fun u => (pcs u).rank) ht, hrest,
    Function.update_self]
  omega

theorem work_lt (ht : t ∈ threads) {pc : Pc} (hpc : s'.pc = Function.update s.pc t pc)
    (hclosed : s'.handoff.closed = s.handoff.closed)
    (hless : 4 * ∑ u ∈ threads, s'.gateOf u + pc.rank <
      4 * ∑ u ∈ threads, s.gateOf u + (s.pc t).rank) : s'.work threads < s.work threads := by
  have hranks := ranks_goto ht s.pc pc
  unfold HandoffState.work
  rw [hpc, hclosed]
  omega

theorem work_lt_quiet (ht : t ∈ threads) {pc : Pc} (hpc : s'.pc = Function.update s.pc t pc)
    (hclosed : s'.handoff.closed = s.handoff.closed) (hgates : ∀ u, s'.gateOf u = s.gateOf u)
    (hrank : pc.rank < (s.pc t).rank) : s'.work threads < s.work threads := by
  have hsame : ∑ u ∈ threads, s'.gateOf u = ∑ u ∈ threads, s.gateOf u :=
    Finset.sum_congr rfl (fun u _ => hgates u)
  refine work_lt ht hpc hclosed ?_
  omega

theorem gates_wake (s : HandoffState) (target : Nat) (threads : Finset Nat) :
    ∑ u ∈ threads, ({ s with
      handoff := s.handoff.updateEntry target wakeEntryLocked } : HandoffState).gateOf u ≤
      ∑ u ∈ threads, s.gateOf u + 1 := by
  refine (Finset.sum_le_sum (fun u _ => gateOf_wake s target u)).trans ?_
  rw [Finset.sum_add_distrib, Finset.sum_ite_eq']
  split <;> omega

theorem gates_pass (ht : t ∈ threads) {entry : HandoffEntry}
    (found : s.handoff.findEntry t = some entry) (free : 0 < entry.gate) :
    ∑ u ∈ threads, ({ s with handoff := s.handoff.updateEntry t (fun entry =>
      { entry with gate := entry.gate - 1 }) } : HandoffState).gateOf u <
      ∑ u ∈ threads, s.gateOf u := by
  refine Finset.sum_lt_sum (fun u _ => ?_) ⟨t, ht, ?_⟩
  · rw [gateOf_update]
    unfold HandoffState.gateOf
    cases s.handoff.findEntry u with
    | none => exact Nat.zero_le _
    | some entry =>
      dsimp only
      split
      · exact Nat.sub_le _ _
      · exact Nat.le_refl _
  · rw [gateOf_update]
    unfold HandoffState.gateOf
    rw [found]
    dsimp only
    rw [if_pos rfl]
    exact Nat.sub_lt free Nat.one_pos

theorem work_lt_close (ht : t ∈ threads) (at_ : s.pc t = .inClose) :
    ({ s with handoff := closeLocked s.handoff }.goto t .leaveClose).work threads <
      s.work threads := by
  cases hclosed : s.handoff.closed with
  | true =>
    have hsame : closeLocked s.handoff = s.handoff := by
      unfold closeLocked
      rw [if_pos hclosed]
    rw [hsame]
    exact work_lt_quiet ht rfl rfl (fun _ => rfl) (by simp [at_, Pc.rank])
  | false =>
    have hranks := ranks_goto ht s.pc .leaveClose
    have hrank : Pc.leaveClose.rank < (s.pc t).rank := by simp [at_, Pc.rank]
    have hgates : ∑ u ∈ threads, ({ s with handoff := closeLocked s.handoff } :
        HandoffState).gateOf u ≤ ∑ u ∈ threads, s.gateOf u + threads.card := by
      refine (Finset.sum_le_sum (fun u _ => gateOf_closeLocked hclosed u)).trans ?_
      rw [Finset.sum_add_distrib, Finset.card_eq_sum_ones]
    have hnow : (closeLocked s.handoff).closed = true := by
      unfold closeLocked
      rw [if_neg (by simp [hclosed])]
    unfold HandoffState.work
    rw [hclosed, if_neg Bool.false_ne_true, goto_handoff, hnow, if_pos rfl]
    change ∑ u ∈ threads, (Function.update s.pc t .leaveClose u).rank +
      4 * ∑ u ∈ threads, ({ s with handoff := closeLocked s.handoff } : HandoffState).gateOf u +
      0 < _
    omega

theorem HandoffMove.work_lt (h : HandoffMove s t s') (ht : t ∈ threads) :
    s'.work threads < s.work threads := by
  cases h with
  | takeLock free next =>
    refine work_lt_quiet ht rfl rfl (fun _ => rfl) ?_
    cases hpc : s.pc t <;> rw [hpc] at next <;> cases next <;> simp [Pc.rank]
  | refused at_ grown why =>
    exact work_lt_quiet ht rfl grown.closed grown.gateOf (by simp [at_, Pc.rank])
  | entered at_ opened other grown own found =>
    exact work_lt_quiet ht rfl grown.closed grown.gateOf (by simp [at_, Pc.rank])
  | transfer at_ =>
    rename_i target
    have hgates := gates_wake s target threads
    have hrank : Pc.startWait.rank + 4 < (s.pc t).rank := by simp [at_, Pc.rank]
    refine Retrace.work_lt ht rfl rfl ?_
    simp only [goto_gateOf]
    omega
  | pass at_ found free =>
    have hgates := gates_pass ht found free
    have hrank : (Pc.lockAgain true).rank < (s.pc t).rank + 4 := by simp [at_, Pc.rank]
    refine Retrace.work_lt ht rfl rfl ?_
    simp only [goto_gateOf]
    omega
  | close at_ => exact work_lt_close ht at_
  | wait at_ found opened unpermitted =>
    exact work_lt_quiet ht rfl rfl (fun _ => rfl) (by simp [at_, Pc.rank])
  | again at_ => exact work_lt_quiet ht rfl rfl (fun _ => rfl) (by simp [at_, Pc.rank])
  | left at_ => exact work_lt_quiet ht rfl rfl (fun _ => rfl) (by simp [at_, Pc.rank])
  | closed at_ => exact work_lt_quiet ht rfl rfl (fun _ => rfl) (by simp [at_, Pc.rank])
  | clear at_ =>
    exact work_lt_quiet ht rfl rfl (fun u => gateOf_update_of_gate s t u (fun _ => rfl))
      (by simp [at_, Pc.rank])
  | ready at_ found permitted =>
    exact work_lt_quiet ht rfl rfl (fun u => gateOf_update_of_gate s t u (fun _ => rfl))
      (by simp [at_, Pc.rank])
  | park at_ found unpermitted =>
    exact work_lt_quiet ht rfl rfl (fun u => gateOf_update_of_gate s t u (fun _ => rfl))
      (by simp [at_, Pc.rank])
  | exit at_ found why =>
    exact work_lt_quiet ht rfl rfl (fun u => gateOf_update_of_gate s t u (fun _ => rfl))
      (by simp [at_, Pc.rank])
  | fail at_ why =>
    exact work_lt_quiet ht rfl rfl (fun u => gateOf_update_of_gate s t u (fun _ => rfl))
      (by simp [at_, Pc.rank])

end work

section settled
variable {s s' : HandoffState} {t u : Nat} {threads : Finset Nat} {event : HandoffEvent}
  {events : List HandoffEvent} {log : List HandoffLog}

/-- The lock has one holder, a call that is under way has its entry, and a thread that is to be woken
has a free gate. -/
structure InOrder (s : HandoffState) : Prop where
  lock : ∀ t, (s.pc t).holdsLock = true ↔ s.handoff.lock = some t
  entered : ∀ t, (s.pc t).entered = true → (s.handoff.findEntry t).isSome = true
  awake : ∀ t, Awake s t

theorem HandoffMove.keepsEntry (h : HandoffMove s t s')
    (hhas : (s.pc t).entered = true → (s.handoff.findEntry t).isSome = true)
    (hhas' : (s'.pc t).entered = true) : (s'.handoff.findEntry t).isSome = true := by
  have hkept := @HandoffMove.entry_kept s s' t h t
  cases h with
  | entered at_ opened other grown own found => exact own
  | takeLock free next =>
    refine hkept (hhas ?_)
    rw [goto_pc] at hhas'
    cases hpc : s.pc t <;> rw [hpc] at next <;> cases next <;> first | rfl | exact hhas'
  | clear at_ => exact hkept (hhas (by rw [at_]; rfl))
  | transfer at_ => exact hkept (hhas (by rw [at_]; rfl))
  | park at_ found unpermitted => exact hkept (by rw [found]; rfl)
  | wait at_ found opened unpermitted => exact hkept (by rw [found]; rfl)
  | pass at_ found free => exact hkept (by rw [found]; rfl)
  | again at_ => exact hkept (hhas (by rw [at_]; rfl))
  | left at_ =>
    rw [finish_pc] at hhas'
    cases hhas'
  | _ =>
    rw [goto_pc] at hhas'
    cases hhas'

theorem InOrder.step (h : InOrder s) (hstep : Stepped s event s') : InOrder s' := by
  refine ⟨hstep.lockMove.holder (fun u hu => hstep.pc_of_ne hu) h.lock, fun u hu => ?_,
    fun u => (h.awake u).step hstep⟩
  cases hstep with
  | invalid at_ why =>
    rename_i t target result
    by_cases hut : u = t
    · rw [hut, finish_pc] at hu
      cases hu
    · rw [finish_pc_of_ne _ _ hut] at hu
      exact h.entered u hu
  | advance move =>
    rename_i t allocTarget allocCurrent
    by_cases hut : u = t
    · rw [hut] at hu ⊢
      exact move.keepsEntry (h.entered t) hu
    · rw [move.pc_of_ne hut] at hu
      exact move.entry_kept (h.entered u hu)
  | call at_ valid =>
    rename_i t target
    by_cases hut : u = t
    · rw [hut, goto_pc] at hu
      cases hu
    · rw [goto_pc_of_ne _ _ hut] at hu
      exact h.entered u hu
  | callClose at_ =>
    rename_i t
    by_cases hut : u = t
    · rw [hut, goto_pc] at hu
      cases hu
    · rw [goto_pc_of_ne _ _ hut] at hu
      exact h.entered u hu
  | timeout at_ timed =>
    rename_i t
    by_cases hut : u = t
    · rw [hut]
      exact h.entered t (by rw [at_]; rfl)
    · rw [goto_pc_of_ne _ _ hut] at hu
      exact h.entered u hu

theorem newHandoff_inOrder (hasTimeout : Bool) : InOrder (newHandoff hasTimeout) := by
  refine ⟨fun t => ?_, fun t ht => ?_, fun t => Awake.of_not_waits rfl⟩
  · constructor <;> intro h <;> cases h
  · cases ht

theorem inOrder_run {hasTimeout : Bool}
    (hrun : StepRun.run loggedStep events (newHandoff hasTimeout) = some (s, log)) : InOrder s := by
  refine @StepRun.run_invariant _ _ _ loggedStep InOrder ?_ _ _ _ _ (newHandoff_inOrder hasTimeout) hrun
  intro s event s' out h hstep
  exact h.step (handoffStep_stepped (loggedStep_some hstep))

theorem InOrder.advance_isSome (h : InOrder s) (hholds : (s.pc t).holdsLock = true)
    (allocTarget allocCurrent : Bool) :
    (Retrace.advance s t allocTarget allocCurrent).isSome = true := by
  have hentered := h.entered t
  unfold Retrace.advance
  cases hpc : s.pc t <;> rw [hpc] at hholds hentered <;> first | rfl | cases hholds
  all_goals
    obtain ⟨entry, hfind⟩ := Option.isSome_iff_exists.mp (hentered rfl)
    simp only [hfind, Option.bind_eq_bind, Option.bind_some]
    split <;> rfl

/-- No thread can go on with its call by itself. -/
def HandoffState.Settled (s : HandoffState) (threads : Finset Nat) : Prop :=
  ∀ t ∈ threads, ∀ allocTarget allocCurrent, advance s t allocTarget allocCurrent = none

theorem InOrder.settled (h : InOrder s) (hsettled : s.Settled threads)
    (hknown : ∀ t, s.handoff.lock = some t → t ∈ threads) :
    s.handoff.lock = none ∧ ∀ t ∈ threads, s.pc t = .running ∨
      (s.pc t = .gateWait ∧ s.permit t = false ∧ s.handoff.closed = false) := by
  have hfree : s.handoff.lock = none := by
    cases hlock : s.handoff.lock with
    | none => rfl
    | some t =>
      have hsome := h.advance_isSome ((h.lock t).mpr hlock) true true
      rw [hsettled t (hknown t hlock) true true] at hsome
      cases hsome
  refine ⟨hfree, fun t ht => ?_⟩
  have hnot : (s.pc t).holdsLock = false := by
    rw [Bool.eq_false_iff]
    intro hholds
    rw [(h.lock t).mp hholds] at hfree
    cases hfree
  have hstuck := hsettled t ht true true
  unfold Retrace.advance at hstuck
  cases hpc : s.pc t <;> rw [hpc] at hnot <;> first | exact Or.inl rfl | cases hnot
  · rw [hpc] at hstuck
    simp [hfree] at hstuck
  · obtain ⟨entry, hfind, -⟩ := (h.awake t).waiting (by rw [hpc]; rfl)
    have hgate := (h.awake t).gate entry hpc hfind
    have hzero : entry.gate = 0 := by
      rw [hpc] at hstuck
      simpa [hfind] using hstuck
    rw [hzero, ← permit_of_entry hfind] at hgate
    refine Or.inr ⟨rfl, ?_, ?_⟩ <;> rw [Bool.eq_false_iff] <;> intro htrue
    · exact absurd (hgate (Or.inl htrue)) (Nat.lt_irrefl 0)
    · exact absurd (hgate (Or.inr htrue)) (Nat.lt_irrefl 0)
  · rw [hpc] at hstuck
    simp [hfree] at hstuck
  · rw [hpc] at hstuck
    simp [hfree] at hstuck

theorem pc_of_untouched (hrun : StepRun.run loggedStep events s = some (s', log))
    (hnot : ∀ event ∈ events, event.thread ≠ t) : s'.pc t = s.pc t := by
  induction events generalizing s log with
  | nil =>
    cases hrun
    rfl
  | cons event events ih =>
    obtain ⟨mid, out, more, hone, hrest, -⟩ := StepRun.run_cons.mp hrun
    have hpc := (handoffStep_stepped (loggedStep_some hone)).pc_of_ne
      (hnot event List.mem_cons_self).symm
    exact (ih hrest (fun e he => hnot e (List.mem_cons_of_mem _ he))).trans hpc

theorem work_run (houtside : ∀ t, t ∉ threads → s.pc t = .running)
    (hadvances : ∀ event ∈ events, event.isAdvance = true)
    (hrun : StepRun.run loggedStep events s = some (s', log)) :
    events.length + s'.work threads ≤ s.work threads ∧ ∀ t, t ∉ threads → s'.pc t = .running := by
  induction events generalizing s log with
  | nil =>
    cases hrun
    exact ⟨by simp, houtside⟩
  | cons event events ih =>
    obtain ⟨mid, out, more, hone, hrest, -⟩ := StepRun.run_cons.mp hrun
    have hstepped := handoffStep_stepped (loggedStep_some hone)
    have hadvance := hadvances event List.mem_cons_self
    cases hstepped with
    | advance move =>
      rename_i t allocTarget allocCurrent
      have ht : t ∈ threads := by
        by_contra hnot
        have hnone := loggedStep_some hone
        simp [handoffStep, advance, houtside t hnot] at hnone
      have hless := move.work_lt ht
      obtain ⟨hbound, hout⟩ := ih (fun u hu => by
        rw [move.pc_of_ne (fun heq : u = t => hu (heq ▸ ht))]
        exact houtside u hu) (fun e he => hadvances e (List.mem_cons_of_mem _ he)) hrest
      refine ⟨?_, hout⟩
      rw [List.length_cons]
      omega
    | _ => cases hadvance

/-- From every state of every run, the steps that threads take inside their calls come to an end, and
then the internal lock is free and each thread runs or is parked, without a permit, in an open
handoff. -/
theorem handoff_settles {hasTimeout : Bool}
    (hrun : StepRun.run loggedStep events (newHandoff hasTimeout) = some (s, log)) :
    ∃ bound, ∀ steps s' log', (∀ event ∈ steps, event.isAdvance = true) →
      StepRun.run loggedStep steps s = some (s', log') → steps.length ≤ bound ∧
        ((∀ t allocTarget allocCurrent, advance s' t allocTarget allocCurrent = none) →
          s'.handoff.lock = none ∧ ∀ t, s'.pc t = .running ∨
            (s'.pc t = .gateWait ∧ s'.permit t = false ∧ s'.handoff.closed = false)) := by
  let threads := (events.map HandoffEvent.thread).toFinset
  have houtside : ∀ t, t ∉ threads → s.pc t = .running := by
    intro t ht
    refine pc_of_untouched hrun (fun event hevent heq => ht ?_)
    rw [List.mem_toFinset, ← heq]
    exact List.mem_map_of_mem hevent
  refine ⟨s.work threads, fun steps s' log' hadvances hsteps => ?_⟩
  obtain ⟨hbound, hout⟩ := work_run houtside hadvances hsteps
  refine ⟨by omega, fun hstuck => ?_⟩
  have hall := StepRun.run_append.mpr ⟨s, log, log', hrun, hsteps, rfl⟩
  have hinOrder := inOrder_run hall
  have hknown : ∀ t, s'.handoff.lock = some t → t ∈ threads := by
    intro t hlock
    by_contra hnot
    have hholds := (hinOrder.lock t).mpr hlock
    rw [hout t hnot] at hholds
    cases hholds
  obtain ⟨hfree, hpcs⟩ := hinOrder.settled (fun t _ => hstuck t) hknown
  refine ⟨hfree, fun t => ?_⟩
  by_cases ht : t ∈ threads
  · exact hpcs t ht
  · exact Or.inl (hout t ht)

/-- Thread 1 is parked with a permit, and thread 2 with none. -/
def bothParked : List HandoffEvent :=
  .call 1 2 :: List.replicate 6 (.advance 1 true true) ++ .call 2 1 ::
    List.replicate 6 (.advance 2 true true)

theorem handoff_settles_bothParked : ∃ s log,
    StepRun.run loggedStep bothParked (newHandoff false) = some (s, log) ∧
      s.pc 1 = .gateWait ∧ s.permit 1 = true ∧ ∃ bound, ∀ steps s' log',
        (∀ event ∈ steps, event.isAdvance = true) →
        StepRun.run loggedStep steps s = some (s', log') → steps.length ≤ bound := by
  obtain ⟨s, log, hrun, hpc, hpermit⟩ : ∃ s log,
      StepRun.run loggedStep bothParked (newHandoff false) = some (s, log) ∧
      s.pc 1 = .gateWait ∧ s.permit 1 = true := ⟨_, _, rfl, rfl, rfl⟩
  obtain ⟨bound, hbound⟩ := handoff_settles hrun
  exact ⟨s, log, hrun, hpc, hpermit, bound,
    fun steps s' log' hadvances hsteps => (hbound steps s' log' hadvances hsteps).1⟩

/-- Once the scripts' steps have come to an end between two calls, every call that has been made has
been answered, and the thread whose turn it is runs while all others are parked. -/
theorem threadHandoff_completes (participants : Finset Nat) (script : Nat → Nat → Nat)
    {hasTimeout : Bool} {before : List HandoffEvent} {s₀ : HandoffState} {log₀ : List HandoffLog}
    (hbefore : StepRun.run loggedStep before (newHandoff hasTimeout) = some (s₀, log₀))
    {runner : Nat} (hstart : BatonStart participants s₀) (hzero : 0 ∉ participants)
    (hrunner : runner ∈ participants) (hruns : s₀.pc runner = .running)
    (hevents : Relayed participants script events)
    (hrun : StepRun.run loggedStep events s₀ = some (s, log)) (hsettled : s.Settled participants) :
    ∃ n, log.filter HandoffLog.isTurn = turns script n ⟨runner, fun _ => 0⟩ ∧
      callsOf events = ((Turn.next script)^[n] ⟨runner, fun _ => 0⟩).made ∧
      s.pc ((Turn.next script)^[n] ⟨runner, fun _ => 0⟩).thread = .running ∧
      ∀ t ∈ participants, t ≠ ((Turn.next script)^[n] ⟨runner, fun _ => 0⟩).thread →
        s.pc t = .gateWait ∧ s.permit t = false := by
  obtain ⟨hinv, -, n, hturn⟩ := onSchedule_run hstart hzero hrunner hruns hrun hevents
  have hall := StepRun.run_append.mpr ⟨s₀, log₀, log, hbefore, hrun, rfl⟩
  obtain ⟨-, hpcs⟩ := (inOrder_run hall).settled hsettled hinv.lockKnown
  have hquiet : ∀ t ∈ participants, s.Baton t = true → s.pc t = .running := by
    intro t ht hbaton
    obtain hpc | ⟨hpc, hpermit, -⟩ := hpcs t ht
    · exact hpc
    · simp [HandoffState.Baton, hpc, hpermit] at hbaton
  cases hturn with
  | runs member at_ counted seen =>
    refine ⟨n, seen, counted, at_, fun t ht hne => ?_⟩
    obtain hpc | ⟨hpc, hpermit, -⟩ := hpcs t ht
    · exact absurd (hinv.eq_holder member (by simp [HandoffState.Baton, at_]) ht
        (by simp [HandoffState.Baton, hpc])) hne
    · exact ⟨hpc, hpermit⟩
  | calls member at_ counted seen =>
    rw [hquiet _ member (baton_of_calls at_)] at at_
    cases at_
  | given member at_ counted seen =>
    have hpc := hquiet _ member at_.baton
    unfold HandoffState.Resumes at at_
    simp [hpc, Pc.waits] at at_

end settled

def secondParks : List HandoffEvent := .call 2 1 :: List.replicate 6 (.advance 2 true true)

theorem threadHandoff_completes_overAndBack : ∃ s₀ s log₀ log,
    StepRun.run loggedStep secondParks (newHandoff false) = some (s₀, log₀) ∧
      StepRun.run loggedStep overAndBack s₀ = some (s, log) ∧ s.pc 1 = .running ∧
      ∃ n, log.filter HandoffLog.isTurn = turns (fun t _ => 3 - t) n ⟨1, fun _ => 0⟩ := by
  have hfirst : (StepRun.run loggedStep secondParks (newHandoff false)).map (fun r =>
      (r.1.handoff, r.1.pc 1, r.1.pc 2)) =
      some (⟨none, false, false, [⟨2, false, true, 0⟩, ⟨1, true, false, 0⟩]⟩, .running, .gateWait) := by
    decide +kernel
  have hlast : (StepRun.run loggedStep (secondParks ++ overAndBack) (newHandoff false)).map
      (fun r => (r.1.handoff, r.1.pc 1, r.1.pc 2)) =
      some (⟨none, false, false, [⟨2, false, true, 0⟩, ⟨1, false, false, 0⟩]⟩, .running, .gateWait) := by
    decide +kernel
  obtain ⟨⟨s, log'⟩, hall, hend⟩ := Option.map_eq_some_iff.mp hlast
  obtain ⟨s₀, log₀, log, hbefore, hrun, rfl⟩ := StepRun.run_append.mp hall
  rw [hbefore, Option.map_some, Option.some.injEq] at hfirst
  obtain ⟨hhandoff, hruns, hparked⟩ : s₀.handoff = _ ∧ s₀.pc 1 = .running ∧ s₀.pc 2 = .gateWait := by
    simpa using hfirst
  obtain ⟨hhandoff', hruns', hparked'⟩ : s.handoff = _ ∧ s.pc 1 = .running ∧ s.pc 2 = .gateWait := by
    simpa using hend
  have hstart : BatonStart {1, 2} s₀ := by
    refine ⟨by rw [hhandoff], by rw [hhandoff], 1, by decide, hruns, fun t ht hne => ?_⟩
    obtain rfl : t = 2 := by
      simp only [Finset.mem_insert, Finset.mem_singleton] at ht
      omega
    refine ⟨Or.inl hparked, ?_, ?_⟩
    · unfold HandoffState.HasEntry
      rw [hhandoff]
      rfl
    · unfold HandoffState.permit
      rw [hhandoff]
      rfl
  have hsettled : s.Settled {1, 2} := by
    intro t ht allocTarget allocCurrent
    obtain rfl | rfl : t = 1 ∨ t = 2 := by simpa using ht
    · unfold advance
      rw [hruns']
    · unfold advance
      rw [hparked', hhandoff']
      rfl
  obtain ⟨n, hlog, -⟩ := threadHandoff_completes {1, 2} (fun t _ => 3 - t) hbefore hstart (by decide)
    (by decide) hruns overAndBack_relayed hrun hsettled
  exact ⟨s₀, s, log₀, log, hbefore, hrun, hruns', n, hlog⟩

end Retrace
