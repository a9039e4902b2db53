import Retrace.HandoffRuns
import Mathlib.Tactic.IntervalCases

/-! Normal returns of `to`: each one uses up a transfer that came after the call had cleared its
permit. -/

set_option autoImplicit false

namespace Retrace

/-- The entry is about a call of the thread: its begin, its end, or what it takes of its permit. -/
def HandoffLog.marks (t : Nat) : HandoffLog → Bool
  | .called u _ => u = t
  | .cleared u => u = t
  | .consumed u => u = t
  | .returned u _ => u = t
  | _ => false

/-- Behind `c`, the log has no such entry but at the given places. -/
def Quietly (log : List HandoffLog) (t c : Nat) (places : List Nat) : Prop :=
  ∀ m y, c < m → m ∉ places → log[m]? = some y → y.marks t = false

/-- The call is the last one that the thread has begun before `k`. -/
structure LastCall (log : List HandoffLog) (t target c k : Nat) : Prop where
  before : c < k
  called : log[c]? = some (.called t target)
  last : ∀ m x, c < m → m < k → log[m]? ≠ some (.called t x)

/-- Between `c` and `k` the thread clears its permit, another thread stores one at `j`, and the
thread consumes it, and takes no permit besides. -/
def Backed (log : List HandoffLog) (t c j k : Nat) : Prop :=
  ∃ i d u, c < i ∧ i < j ∧ j < d ∧ d < k ∧ log[i]? = some (.cleared t) ∧ u ≠ t ∧
    log[j]? = some (.stored u t) ∧ log[d]? = some (.consumed t) ∧
    ∀ m y, c < m → m < k → m ∉ [i, d] → log[m]? = some y → y.marks t = false

def Begun (log : List HandoffLog) (t target : Nat) : Prop :=
  ∃ c, log[c]? = some (.called t target) ∧ Quietly log t c []

/-- The thread has cleared its permit; a permit that it has now has been stored since. -/
def Waits (log : List HandoffLog) (s : HandoffState) (t : Nat) : Prop :=
  ∃ c i target, c < i ∧ log[c]? = some (.called t target) ∧ log[i]? = some (.cleared t) ∧
    Quietly log t c [i] ∧
    (s.permit t = true → ∃ j u, i < j ∧ u ≠ t ∧ log[j]? = some (.stored u t))

/-- The call is over up to the release of the lock. -/
def Leaves (log : List HandoffLog) (s : HandoffState) (t : Nat) (result : ToResult) : Prop :=
  ∃ c target places, log[c]? = some (.called t target) ∧ Quietly log t c places ∧
    (∀ m ∈ places, log[m]? = some (.cleared t) ∨ log[m]? = some (.consumed t)) ∧
    (result = .returned → s.handoff.closed = false → target ≠ t →
      ∃ i j d u, places = [i, d] ∧ c < i ∧ i < j ∧ j < d ∧ log[i]? = some (.cleared t) ∧ u ≠ t ∧
        log[j]? = some (.stored u t) ∧ log[d]? = some (.consumed t))

/-- What the log says of a thread that stands at `pc`. -/
def HistoryAt (log : List HandoffLog) (s : HandoffState) (t : Nat) : Pc → Prop
  | .running => True
  | .lockTo target => Begun log t target
  | .inTo target => Begun log t target
  | .clearStale target => target ≠ t ∧ Begun log t target
  | .wake target => target ≠ t ∧ Waits log s t
  | .startWait => Waits log s t
  | .loop => Waits log s t
  | .gateWait => Waits log s t
  | .lockAgain _ => Waits log s t
  | .afterGate _ => Waits log s t
  | .leave result => Leaves log s t result
  | .lockClose => True
  | .inClose => True
  | .leaveClose => True

def History (log : List HandoffLog) (s : HandoffState) (t : Nat) : Prop :=
  HistoryAt log s t (s.pc t)

section logs
variable {log more : List HandoffLog} {s s' : HandoffState} {t c : Nat} {x : HandoffLog}

theorem at_append {k : Nat} (h : log[k]? = some x) : (log ++ more)[k]? = some x := by
  obtain ⟨hk, -⟩ := List.getElem?_eq_some_iff.mp h
  rw [List.getElem?_append_left hk]
  exact h

theorem Quietly.append {places : List Nat} (h : Quietly log t c places)
    (hmore : ∀ y ∈ more, y.marks t = false) : Quietly (log ++ more) t c places := by
  intro m y hm hplace hy
  rw [List.getElem?_append] at hy
  split at hy
  · exact h m y hm hplace hy
  · exact hmore y (List.mem_of_getElem? hy)

theorem Quietly.push {places : List Nat} (h : Quietly log t c places) (x : HandoffLog) :
    Quietly (log ++ [x]) t c (places ++ [log.length]) := by
  intro m y hm hplace hy
  rw [List.mem_append, not_or, List.mem_singleton] at hplace
  rw [List.getElem?_append] at hy
  split at hy
  · exact h m y hm hplace.1 hy
  · rename_i hge
    obtain ⟨hlt, -⟩ := List.getElem?_eq_some_iff.mp hy
    simp only [List.length_singleton] at hlt
    omega

theorem at_push (log : List HandoffLog) (x : HandoffLog) : (log ++ [x])[log.length]? = some x := by
  simp

theorem Begun.append {target : Nat} (h : Begun log t target)
    (hmore : ∀ y ∈ more, y.marks t = false) : Begun (log ++ more) t target := by
  obtain ⟨c, hc, hquiet⟩ := h
  exact ⟨c, at_append hc, hquiet.append hmore⟩

theorem Waits.append (h : Waits log s t) (hmore : ∀ y ∈ more, y.marks t = false)
    (hpermit : s'.permit t = true → s.permit t = true ∨ ∃ u, u ≠ t ∧ more = [.stored u t]) :
    Waits (log ++ more) s' t := by
  obtain ⟨c, i, target, hci, hc, hi, hquiet, hstored⟩ := h
  refine ⟨c, i, target, hci, at_append hc, at_append hi, hquiet.append hmore, ?_⟩
  intro hp
  obtain hp | ⟨u, hu, rfl⟩ := hpermit hp
  · obtain ⟨j, u, hij, hu, hj⟩ := hstored hp
    exact ⟨j, u, hij, hu, at_append hj⟩
  · obtain ⟨hlt, -⟩ := List.getElem?_eq_some_iff.mp hi
    exact ⟨log.length, u, hlt, hu, at_push _ _⟩

theorem Leaves.append {result : ToResult} (h : Leaves log s t result)
    (hmore : ∀ y ∈ more, y.marks t = false)
    (hclosed : s.handoff.closed = true → s'.handoff.closed = true) :
    Leaves (log ++ more) s' t result := by
  obtain ⟨c, target, places, hc, hquiet, hplaces, hserved⟩ := h
  refine ⟨c, target, places, at_append hc, hquiet.append hmore, ?_, ?_⟩
  · intro m hm
    exact (hplaces m hm).imp at_append at_append
  · intro hresult hopen hne
    have hopen' : s.handoff.closed = false := by
      rw [Bool.eq_false_iff]
      intro hc
      rw [hclosed hc] at hopen
      cases hopen
    obtain ⟨i, j, d, u, hp, hci, hij, hjd, hi, hu, hj, hd⟩ := hserved hresult hopen' hne
    exact ⟨i, j, d, u, hp, hci, hij, hjd, at_append hi, hu, at_append hj, at_append hd⟩

theorem marks_of_ne {event : HandoffEvent} (h : t ≠ event.thread) :
    ∀ y ∈ handoffShows s event, y.marks t = false := by
  intro y hy
  cases event with
  | call u target =>
    cases List.mem_singleton.mp hy
    exact decide_eq_false (Ne.symm h)
  | callClose u => cases hy
  | timeout u => cases hy
  | advance u allocTarget allocCurrent =>
    have hu : decide (u = t) = false := decide_eq_false (Ne.symm h)
    change y ∈ pcShows s u (s.pc u) at hy
    cases hpc : s.pc u with
    | clearStale target =>
      rw [hpc] at hy
      cases List.mem_singleton.mp hy
      exact hu
    | wake target =>
      rw [hpc] at hy
      cases List.mem_singleton.mp hy
      rfl
    | startWait =>
      simp only [hpc, pcShows] at hy
      split at hy
      · cases List.mem_singleton.mp hy
        exact hu
      · cases List.mem_singleton.mp hy
        rfl
    | loop =>
      simp only [hpc, pcShows] at hy
      split at hy
      · cases List.mem_singleton.mp hy
        exact hu
      · cases hy
    | leave result =>
      cases result with
      | returned =>
        rw [hpc] at hy
        cases List.mem_singleton.mp hy
        exact hu
      | timedOut =>
        rw [hpc] at hy
        cases List.mem_singleton.mp hy
        rfl
      | _ =>
        rw [hpc] at hy
        cases hy
    | _ =>
      rw [hpc] at hy
      cases hy

theorem History.other {event : HandoffEvent} (h : History log s t) (hstep : Stepped s event s')
    (hne : t ≠ event.thread) : History (log ++ handoffShows s event) s' t := by
  have hmarks := @marks_of_ne s t event hne
  have hpermit : s'.permit t = true →
      s.permit t = true ∨ ∃ u, u ≠ t ∧ handoffShows s event = [.stored u t] := by
    intro hp
    cases hstep with
    | advance move =>
      rename_i u allocTarget allocCurrent
      obtain hp | hwake := move.permit_of_ne hne hp
      · exact Or.inl hp
      · refine Or.inr ⟨u, Ne.symm hne, ?_⟩
        change pcShows s u (s.pc u) = [.stored u t]
        rw [hwake]
        rfl
    | _ => exact Or.inl hp
  have hclosed := @Stepped.closed_mono s s' event hstep
  unfold History at h ⊢
  rw [hstep.pc_of_ne hne]
  cases hpc : s.pc t with
  | running => trivial
  | lockTo target =>
    rw [hpc] at h
    exact h.append hmarks
  | inTo target =>
    rw [hpc] at h
    exact h.append hmarks
  | clearStale target =>
    rw [hpc] at h
    exact ⟨h.1, h.2.append hmarks⟩
  | wake target =>
    rw [hpc] at h
    exact ⟨h.1, h.2.append hmarks hpermit⟩
  | leave result =>
    rw [hpc] at h
    exact h.append hmarks hclosed
  | lockClose => trivial
  | inClose => trivial
  | leaveClose => trivial
  | _ =>
    rw [hpc] at h
    exact h.append hmarks hpermit

theorem Waits.keep (h : Waits log s t) (hmore : ∀ y ∈ more, y.marks t = false)
    (hpermit : s'.permit t = s.permit t) : Waits (log ++ more) s' t :=
  h.append hmore (fun hp => Or.inl (hpermit ▸ hp))

theorem Begun.refused {target : Nat} {result : ToResult} (h : Begun log t target)
    (hresult : result = .returned → s'.handoff.closed = true ∨ target = t) :
    Leaves log s' t result := by
  obtain ⟨c, hc, hquiet⟩ := h
  refine ⟨c, target, [], hc, hquiet, by simp, ?_⟩
  intro hreturned hopen hne
  obtain hclosed | hself := hresult hreturned
  · rw [hclosed] at hopen
    cases hopen
  · exact absurd hself hne

theorem Begun.clear {target : Nat} (h : Begun log t target) (hpermit : s'.permit t = false) :
    Waits (log ++ [.cleared t]) s' t := by
  obtain ⟨c, hc, hquiet⟩ := h
  obtain ⟨hlt, -⟩ := List.getElem?_eq_some_iff.mp hc
  refine ⟨c, log.length, target, hlt, at_append hc, at_push _ _, hquiet.push _, ?_⟩
  intro hp
  rw [hpermit] at hp
  cases hp

theorem Waits.exit {result : ToResult} (h : Waits log s t)
    (hwhy : result = .returned → s'.handoff.closed = false → s.permit t = true) :
    Leaves (log ++ if s.permit t then [.consumed t] else []) s' t result := by
  obtain ⟨c, i, target, hci, hc, hi, hquiet, hstored⟩ := h
  by_cases hp : s.permit t = true
  · rw [if_pos hp]
    obtain ⟨j, u, hij, hu, hj⟩ := hstored hp
    obtain ⟨hlt, -⟩ := List.getElem?_eq_some_iff.mp hj
    refine ⟨c, target, [i, log.length], at_append hc, hquiet.push _, ?_, ?_⟩
    · intro m hm
      rw [List.mem_pair] at hm
      obtain rfl | rfl := hm
      · exact Or.inl (at_append hi)
      · exact Or.inr (at_push _ _)
    · intro _ _ _
      exact ⟨i, j, log.length, u, rfl, hci, hij, hlt, at_append hi, hu, at_append hj, at_push _ _⟩
  · rw [if_neg hp, List.append_nil]
    refine ⟨c, target, [i], hc, hquiet, ?_, ?_⟩
    · intro m hm
      exact Or.inl (List.mem_singleton.mp hm ▸ hi)
    · intro hreturned hopen _
      exact absurd (hwhy hreturned hopen) hp

theorem Waits.fail {result : ToResult} (h : Waits log s t) (hresult : result ≠ .returned) :
    Leaves log s' t result := by
  obtain ⟨c, i, target, hci, hc, hi, hquiet, -⟩ := h
  refine ⟨c, target, [i], hc, hquiet, ?_, fun hreturned => absurd hreturned hresult⟩
  intro m hm
  exact Or.inl (List.mem_singleton.mp hm ▸ hi)

end logs

section steps
variable {log : List HandoffLog} {s s' : HandoffState} {t : Nat}

theorem History.own (h : History log s t) (hmove : HandoffMove s t s') :
    History (log ++ pcShows s t (s.pc t)) s' t := by
  unfold History at h ⊢
  cases hmove with
  | takeLock free next =>
    rename_i pc
    rw [goto_pc]
    cases hpc : s.pc t with
    | lockTo target =>
      rw [hpc] at h next
      cases next
      exact h.append (by simp [pcShows])
    | lockAgain acquired =>
      rw [hpc] at h next
      cases next
      exact h.keep (by simp [pcShows]) rfl
    | lockClose =>
      rw [hpc] at next
      cases next
      trivial
    | _ =>
      rw [hpc] at next
      cases next
  | refused at_ grown why =>
    rename_i target result self
    rw [goto_pc, at_]
    rw [at_] at h
    have hbegun : Begun (log ++ pcShows s t (.inTo target)) t target := h.append (by simp [pcShows])
    refine hbegun.refused ?_
    intro hreturned
    obtain ⟨hclosed, rfl, -⟩ | ⟨-, -, hself⟩ | ⟨-, rfl⟩ := why
    · cases hreturned
    · exact Or.inr hself
    · cases hreturned
  | entered at_ opened other grown own found =>
    rw [goto_pc, at_]
    rw [at_] at h
    exact ⟨other, h.append (by simp [pcShows])⟩
  | clear at_ =>
    rw [goto_pc, at_]
    rw [at_] at h
    refine ⟨h.1, h.2.clear ?_⟩
    rw [goto_permit, permit_update]
    cases s.handoff.findEntry t with
    | none => rfl
    | some entry => simp
  | transfer at_ =>
    rw [goto_pc, at_]
    rw [at_] at h
    refine h.2.keep (by simp [pcShows, HandoffLog.marks]) ?_
    exact permit_update_of_ne s _ (Ne.symm h.1)
  | ready at_ found permitted =>
    rw [goto_pc, at_]
    rw [at_] at h
    have hp : s.permit t = true := (permit_of_entry found).trans permitted
    have hshows : pcShows s t .startWait = if s.permit t then [.consumed t] else [] := by
      rw [pcShows, if_pos hp, if_pos hp]
    rw [hshows]
    exact h.exit (fun _ _ => hp)
  | park at_ found unpermitted =>
    rw [goto_pc, at_]
    rw [at_] at h
    have hp : s.permit t = false := (permit_of_entry found).trans unpermitted
    have hshows : pcShows s t .startWait = [.parked t] := by
      rw [pcShows, if_neg (by simp [hp])]
    rw [hshows]
    refine h.keep (by simp [HandoffLog.marks]) ?_
    rw [goto_permit, permit_update_self _ found, hp]
    exact unpermitted
  | wait at_ found opened unpermitted =>
    rw [goto_pc, at_]
    rw [at_] at h
    have hp : s.permit t = false := (permit_of_entry found).trans unpermitted
    refine h.keep ?_ rfl
    simp [pcShows, hp]
  | exit at_ found why =>
    rw [goto_pc, at_]
    rw [at_] at h
    refine h.exit (fun _ hopen => ?_)
    obtain hclosed | hpermit := why
    · exact absurd hclosed (by rw [show s.handoff.closed = false from hopen]; simp)
    · exact (permit_of_entry found).trans hpermit
  | pass at_ found free =>
    rw [goto_pc, at_]
    rw [at_] at h
    refine h.keep (by simp [pcShows]) ?_
    rw [goto_permit, permit_update_self _ found, permit_of_entry found]
  | again at_ =>
    rw [goto_pc, at_]
    rw [at_] at h
    exact h.keep (by simp [pcShows]) rfl
  | fail at_ why =>
    rw [goto_pc, at_]
    rw [at_] at h
    have hkept : Waits (log ++ pcShows s t (.afterGate false)) s t :=
      h.keep (by simp [pcShows]) rfl
    refine hkept.fail ?_
    obtain rfl | rfl := why
    · simp
    · simp
  | left at_ =>
    rw [finish_pc]
    trivial
  | close at_ =>
    rw [goto_pc]
    trivial
  | closed at_ =>
    rw [goto_pc]
    trivial

theorem History.step {event : HandoffEvent} (h : History log s t) (hstep : Stepped s event s') :
    History (log ++ handoffShows s event) s' t := by
  by_cases hne : t = event.thread
  · subst hne
    cases hstep with
    | invalid at_ why =>
      unfold History
      dsimp only [HandoffEvent.thread]
      rw [finish_pc]
      trivial
    | call at_ valid =>
      rename_i u target
      unfold History
      dsimp only [HandoffEvent.thread]
      rw [goto_pc]
      refine ⟨log.length, at_push _ _, ?_⟩
      intro m y hm _ hy
      obtain ⟨hlt, -⟩ := List.getElem?_eq_some_iff.mp hy
      simp only [handoffShows, List.length_append, List.length_singleton] at hlt
      omega
    | callClose at_ =>
      unfold History
      dsimp only [HandoffEvent.thread]
      rw [goto_pc]
      trivial
    | advance move => exact h.own move
    | timeout at_ timed =>
      unfold History at h ⊢
      dsimp only [HandoffEvent.thread] at h ⊢
      rw [at_] at h
      rw [goto_pc]
      exact Waits.keep h (by simp [handoffShows]) rfl
  · exact h.other hstep hne

theorem loggedStep_stepped {event : HandoffEvent} {out : List HandoffLog}
    (h : loggedStep s event = some (s', out)) : Stepped s event s' ∧ out = handoffShows s event := by
  obtain ⟨next, hnext, heq⟩ := Option.map_eq_some_iff.mp h
  cases heq
  exact ⟨handoffStep_stepped hnext, rfl⟩

theorem history_run {hasTimeout : Bool} {events : List HandoffEvent}
    (hrun : StepRun.run loggedStep events (newHandoff hasTimeout) = some (s, log)) (t : Nat) :
    History log s t := by
  refine @StepRun.run_induction _ _ _ loggedStep (fun _ s log => History log s t)
    (newHandoff hasTimeout) trivial ?_ _ _ _ hrun
  intro _ s log event s' out _ ih hstep
  obtain ⟨hstepped, rfl⟩ := loggedStep_stepped hstep
  exact ih.step hstepped

theorem returned_shown {event : HandoffEvent} {closed : Bool}
    (h : .returned t closed ∈ handoffShows s event) :
    handoffShows s event = [.returned t closed] ∧ s.handoff.closed = closed ∧
      s.pc t = .leave .returned := by
  cases event with
  | call u target => simp [handoffShows] at h
  | callClose u => cases h
  | timeout u => cases h
  | advance u allocTarget allocCurrent =>
    change _ ∈ pcShows s u (s.pc u) at h
    change pcShows s u (s.pc u) = _ ∧ _
    cases hpc : s.pc u with
    | leave result =>
      rw [hpc] at h
      cases result with
      | returned =>
        simp only [pcShows, List.mem_singleton, HandoffLog.returned.injEq] at h
        obtain ⟨rfl, rfl⟩ := h
        exact ⟨rfl, rfl, hpc⟩
      | _ => simp [pcShows] at h
    | startWait =>
      simp only [hpc, pcShows] at h
      split at h
      · simp at h
      · simp at h
    | loop =>
      simp only [hpc, pcShows] at h
      split at h
      · simp at h
      · simp at h
    | _ => simp [hpc, pcShows] at h

theorem leaves_of_returned {hasTimeout : Bool} {events : List HandoffEvent} {k : Nat}
    {closed : Bool} (hrun : StepRun.run loggedStep events (newHandoff hasTimeout) = some (s, log))
    (hk : log[k]? = some (.returned t closed)) :
    ∃ mid, Leaves (log.take k) mid t .returned ∧ mid.handoff.closed = closed := by
  revert hk
  refine @StepRun.run_induction _ _ _ loggedStep (fun _ _ log =>
    log[k]? = some (.returned t closed) →
      ∃ mid, Leaves (log.take k) mid t .returned ∧ mid.handoff.closed = closed)
    (newHandoff hasTimeout) (by simp) ?_ _ _ _ hrun
  intro done s log event s' out hdone ih hstep hk
  obtain ⟨-, rfl⟩ := loggedStep_stepped hstep
  by_cases hlt : k < log.length
  · rw [List.getElem?_append_left hlt] at hk
    rw [List.take_append_of_le_length (Nat.le_of_lt hlt)]
    exact ih hk
  · have hge : log.length ≤ k := Nat.le_of_not_lt hlt
    rw [List.getElem?_append_right hge] at hk
    obtain ⟨hshown, hclosed, hpc⟩ := returned_shown (List.mem_of_getElem? hk)
    rw [hshown] at hk
    obtain ⟨hone, -⟩ := List.getElem?_eq_some_iff.mp hk
    rw [List.length_singleton] at hone
    have hat : k = log.length := by omega
    have hhistory := history_run hdone t
    unfold History at hhistory
    rw [hpc] at hhistory
    refine ⟨s, ?_, hclosed⟩
    rw [hat, List.take_left]
    exact hhistory

theorem at_of_take {k m : Nat} {x : HandoffLog} (h : (log.take k)[m]? = some x) :
    m < k ∧ log[m]? = some x := by
  rw [List.getElem?_take] at h
  split at h
  · exact ⟨‹_›, h⟩
  · cases h

theorem take_of_at {k m : Nat} {x : HandoffLog} (hm : m < k) (h : log[m]? = some x) :
    (log.take k)[m]? = some x := by
  rw [List.getElem?_take, if_pos hm]
  exact h

theorem LastCall.unique {target target' c c' k : Nat} (h : LastCall log t target c k)
    (h' : LastCall log t target' c' k) : c = c' := by
  by_contra hne
  obtain hlt | hlt := Nat.lt_or_gt_of_ne hne
  · exact h.last c' target' hlt h'.before h'.called
  · exact h'.last c target hlt h.before h.called

theorem Leaves.lastCall {k : Nat} {mid : HandoffState} (h : Leaves (log.take k) mid t .returned) :
    ∃ c target, LastCall log t target c k ∧ (mid.handoff.closed = false → target ≠ t →
      ∃ j, Backed log t c j k) := by
  obtain ⟨c, target, places, hc, hquiet, hplaces, hserved⟩ := h
  obtain ⟨hck, hcalled⟩ := at_of_take hc
  refine ⟨c, target, ⟨hck, hcalled, ?_⟩, ?_⟩
  · intro m x hcm hmk hm
    by_cases hplace : m ∈ places
    · obtain hat | hat := hplaces m hplace
      · rw [(at_of_take hat).2] at hm
        cases hm
      · rw [(at_of_take hat).2] at hm
        cases hm
    · have hmarks := hquiet m _ hcm hplace (take_of_at hmk hm)
      simp [HandoffLog.marks] at hmarks
  · intro hopen hne
    obtain ⟨i, j, d, u, rfl, hci, hij, hjd, hi, hu, hj, hd⟩ := hserved rfl hopen hne
    obtain ⟨hdk, hd⟩ := at_of_take hd
    refine ⟨j, i, d, u, hci, hij, hjd, hdk, (at_of_take hi).2, hu, (at_of_take hj).2, hd, ?_⟩
    intro m y hcm hmk hplace hm
    exact hquiet m y hcm hplace (take_of_at hmk hm)

theorem Backed.later {c c' j j' k k' target' : Nat} (h : Backed log t c j k)
    (h' : Backed log t c' j' k') (hk : log[k]? = some (.returned t false))
    (hlast' : LastCall log t target' c' k') (hlt : k < k') : j < j' := by
  obtain ⟨i, d, u, hci, hij, hjd, hdk, -⟩ := h
  obtain ⟨i', d', u', hci', hij', hjd', hdk', hi', -, -, hd', hquiet'⟩ := h'
  have hafter : k < c' := by
    by_contra hle
    by_cases hsame : k = c'
    · rw [hsame, hlast'.called] at hk
      cases hk
    · have hplace : k ∉ [i', d'] := by
        intro hmem
        rw [List.mem_pair] at hmem
        obtain rfl | rfl := hmem
        · rw [hi'] at hk
          cases hk
        · rw [hd'] at hk
          cases hk
      have hmarks := hquiet' k _ (by omega) hlt hplace hk
      simp [HandoffLog.marks] at hmarks
  omega

/-- Each normal return before the handoff is closed ends a call in which the thread consumes what
another thread stored after the call had cleared the permit, and no two use the same transfer. -/
theorem handoffReturns_backed {hasTimeout : Bool} {events : List HandoffEvent}
    (hrun : StepRun.run loggedStep events (newHandoff hasTimeout) = some (s, log)) :
    (∀ k t closed, log[k]? = some (.returned t closed) → ∃ c target, LastCall log t target c k) ∧
    ∃ store : Nat → Nat,
      (∀ k t c target, log[k]? = some (.returned t false) → LastCall log t target c k →
        target ≠ t → Backed log t c (store k) k) ∧
      ∀ k k' t t' c c' target target', log[k]? = some (.returned t false) →
        LastCall log t target c k → target ≠ t → log[k']? = some (.returned t' false) →
        LastCall log t' target' c' k' → target' ≠ t' → store k = store k' → k = k' := by
  have hcalls : ∀ k t closed, log[k]? = some (.returned t closed) →
      ∃ c target, LastCall log t target c k ∧ (closed = false → target ≠ t →
        ∃ j, Backed log t c j k) := by
    intro k t closed hk
    obtain ⟨mid, hleaves, hclosed⟩ := leaves_of_returned hrun hk
    obtain ⟨c, target, hlast, hserved⟩ := hleaves.lastCall
    exact ⟨c, target, hlast, fun hopen => hserved (hclosed.trans hopen)⟩
  have hstores : ∀ k, ∃ j, ∀ t c target, log[k]? = some (.returned t false) →
      LastCall log t target c k → target ≠ t → Backed log t c j k := by
    intro k
    by_cases hany : ∃ t c target, log[k]? = some (.returned t false) ∧
        LastCall log t target c k ∧ target ≠ t
    · obtain ⟨t, c, target, hk, hlast, hne⟩ := hany
      obtain ⟨c₀, target₀, hlast₀, hserved⟩ := hcalls k t false hk
      obtain rfl := hlast.unique hlast₀
      obtain rfl : target = target₀ := by
        have hcalled := hlast₀.called
        rw [hlast.called] at hcalled
        cases hcalled
        rfl
      obtain ⟨j, hj⟩ := hserved rfl hne
      refine ⟨j, fun t' c' target' hk' hlast' _ => ?_⟩
      rw [hk] at hk'
      cases hk'
      exact hlast.unique hlast' ▸ hj
    · exact ⟨0, fun t c target hk hlast hne => absurd ⟨t, c, target, hk, hlast, hne⟩ hany⟩
  choose store hstore using hstores
  refine ⟨?_, store, hstore, ?_⟩
  · intro k t closed hk
    obtain ⟨c, target, hlast, -⟩ := hcalls k t closed hk
    exact ⟨c, target, hlast⟩
  · intro k k' t t' c c' target target' hk hlast hne hk' hlast' hne' heq
    have hbacked := hstore k t c target hk hlast hne
    have hbacked' := hstore k' t' c' target' hk' hlast' hne'
    -- the transfer names the thread that uses it
    have hsame : t = t' := by
      obtain ⟨i, d, u, -, -, -, -, -, -, hj, -⟩ := hbacked
      obtain ⟨i', d', u', -, -, -, -, -, -, hj', -⟩ := hbacked'
      rw [heq, hj'] at hj
      cases hj
      rfl
    subst hsame
    by_contra hkk
    obtain hlt | hlt := Nat.lt_or_gt_of_ne hkk
    · have hlater := hbacked.later hbacked' hk hlast' hlt
      omega
    · have hlater := hbacked'.later hbacked hk' hlast hlt
      omega

/-- Thread 1 parks for thread 2, which transfers back and parks; thread 1 returns. -/
def turnAndBack : List HandoffEvent :=
  .call 1 2 :: List.replicate 6 (.advance 1 true true) ++
    .call 2 1 :: List.replicate 6 (.advance 2 true true) ++ List.replicate 5 (.advance 1 true true)

theorem handoffReturns_backed_turnAndBack :
    ∃ s log j, StepRun.run loggedStep turnAndBack (newHandoff false) = some (s, log) ∧
      log[9]? = some (.returned 1 false) ∧ Backed log 1 0 j 9 := by
  obtain ⟨s, log, hrun, hlog⟩ : ∃ s log,
      StepRun.run loggedStep turnAndBack (newHandoff false) = some (s, log) ∧
      log = [.called 1 2, .cleared 1, .stored 1 2, .parked 1, .called 2 1, .cleared 2,
        .stored 2 1, .parked 2, .consumed 1, .returned 1 false] := ⟨_, _, rfl, by decide⟩
  obtain ⟨-, store, hstore, -⟩ := handoffReturns_backed hrun
  have hk : log[9]? = some (.returned 1 false) := by
    rw [hlog]
    rfl
  refine ⟨s, log, store 9, hrun, hk, hstore 9 1 0 2 hk ⟨by decide, ?_, ?_⟩ (by decide)⟩
  · rw [hlog]
    rfl
  · intro m x hm hlt
    rw [hlog]
    interval_cases m <;> simp

end steps

end Retrace
