import Retrace.HandoffBaton
import Retrace.StepRun

/-! All runs of a handoff, from its creation: calls, transfers, timeouts and closes of any threads,
and the log of what the calls do. -/

set_option autoImplicit false

namespace Retrace

/-- What a run shows of the calls of `to`. `stored` is a transfer, `consumed` the end of a wait that
finds a permit, `returned` the normal end of a call with the handoff open or closed. -/
inductive HandoffLog where
  | called (t target : Nat)
  | cleared (t : Nat)
  | stored (t target : Nat)
  | parked (t : Nat)
  | consumed (t : Nat)
  | returned (t : Nat) (closed : Bool)
  | timedOut (t : Nat)
  deriving DecidableEq, Repr

def pcShows (s : HandoffState) (t : Nat) : Pc → List HandoffLog
  | .clearStale _ => [.cleared t]
  | .wake target => [.stored t target]
  | .startWait => if s.permit t then [.consumed t] else [.parked t]
  | .loop => if s.permit t then [.consumed t] else []
  | .leave .returned => [.returned t s.handoff.closed]
  | .leave .timedOut => [.timedOut t]
  | _ => []

def handoffShows (s : HandoffState) : HandoffEvent → List HandoffLog
  | .call t target => [.called t target]
  | .callClose _ => []
  | .advance t _ _ => pcShows s t (s.pc t)
  | .timeout _ => []

def loggedStep (s : HandoffState) (event : HandoffEvent) : Option (HandoffState × List HandoffLog) :=
  (handoffStep s event).map (fun s' => (s', handoffShows s event))

/-- `ThreadHandoff(timeout)`, before any call. -/
def newHandoff (hasTimeout : Bool) : HandoffState where
  handoff := ⟨none, false, hasTimeout, []⟩
  pc _ := .running
  result _ := none

/-- Entries are only added, and start without a permit and with a held gate. -/
structure MoreEntries (old new : ThreadHandoff) : Prop where
  lock : new.lock = old.lock
  closed : new.closed = old.closed
  hasTimeout : new.hasTimeout = old.hasTimeout
  entry : ∀ u, new.findEntry u = old.findEntry u ∨
    old.findEntry u = none ∧ new.findEntry u = some ⟨u, false, false, 0⟩

/-- Where a thread goes on when it gets the internal lock. -/
def Pc.locked : Pc → Option Pc
  | .lockTo target => some (.inTo target)
  | .lockAgain acquired => some (.afterGate acquired)
  | .lockClose => some .inClose
  | _ => none

inductive HandoffMove (s : HandoffState) (t : Nat) : HandoffState → Prop
  | takeLock {pc : Pc} (free : s.handoff.lock = none) (next : (s.pc t).locked = some pc) :
      HandoffMove s t ({ s with handoff := { s.handoff with lock := some t } }.goto t pc)
  | refused {target : Nat} {result : ToResult} {self : ThreadHandoff} (at_ : s.pc t = .inTo target)
      (grown : MoreEntries s.handoff self)
      (why : s.handoff.closed = true ∧ result = .closed ∧ self = s.handoff ∨
        s.handoff.closed = false ∧ result = .returned ∧ target = t ∨
        s.handoff.closed = false ∧ result = .noMemory) :
      HandoffMove s t ({ s with handoff := self }.goto t (.leave result))
  | entered {target : Nat} {self : ThreadHandoff} (at_ : s.pc t = .inTo target)
      (opened : s.handoff.closed = false) (other : target ≠ t) (grown : MoreEntries s.handoff self)
      (own : (self.findEntry t).isSome = true) (found : (self.findEntry target).isSome = true) :
      HandoffMove s t ({ s with handoff := self }.goto t (.clearStale target))
  | clear {target : Nat} (at_ : s.pc t = .clearStale target) :
      HandoffMove s t ({ s with handoff := s.handoff.updateEntry t (fun entry =>
        { entry with permit := false }) }.goto t (.wake target))
  | transfer {target : Nat} (at_ : s.pc t = .wake target) :
      HandoffMove s t ({ s with
        handoff := s.handoff.updateEntry target wakeEntryLocked }.goto t .startWait)
  | ready {entry : HandoffEntry} (at_ : s.pc t = .startWait)
      (found : s.handoff.findEntry t = some entry) (permitted : entry.permit = true) :
      HandoffMove s t ({ s with handoff := s.handoff.updateEntry t (fun entry =>
        { entry with permit := false, waiting := false }) }.goto t (.leave .returned))
  | park {entry : HandoffEntry} (at_ : s.pc t = .startWait)
      (found : s.handoff.findEntry t = some entry) (unpermitted : entry.permit = false) :
      HandoffMove s t ({ s with handoff := s.handoff.updateEntry t (fun entry =>
        { entry with waiting := true }) }.goto t .loop)
  | wait {entry : HandoffEntry} (at_ : s.pc t = .loop)
      (found : s.handoff.findEntry t = some entry) (opened : s.handoff.closed = false)
      (unpermitted : entry.permit = false) :
      HandoffMove s t ({ s with handoff := { s.handoff with lock := none } }.goto t .gateWait)
  | exit {entry : HandoffEntry} (at_ : s.pc t = .loop)
      (found : s.handoff.findEntry t = some entry)
      (why : s.handoff.closed = true ∨ entry.permit = true) :
      HandoffMove s t ({ s with handoff := s.handoff.updateEntry t (fun entry =>
        { entry with waiting := false, permit := false }) }.goto t (.leave .returned))
  | pass {entry : HandoffEntry} (at_ : s.pc t = .gateWait)
      (found : s.handoff.findEntry t = some entry) (free : 0 < entry.gate) :
      HandoffMove s t ({ s with handoff := s.handoff.updateEntry t (fun entry =>
        { entry with gate := entry.gate - 1 }) }.goto t (.lockAgain true))
  | again (at_ : s.pc t = .afterGate true) : HandoffMove s t (s.goto t .loop)
  | fail {result : ToResult} (at_ : s.pc t = .afterGate false)
      (why : result = .timedOut ∨ result = .waitFailed) :
      HandoffMove s t ({ s with handoff := s.handoff.updateEntry t (fun entry =>
        { entry with waiting := false }) }.goto t (.leave result))
  | left {result : ToResult} (at_ : s.pc t = .leave result) :
      HandoffMove s t ({ s with handoff := { s.handoff with lock := none } }.finish t result)
  | close (at_ : s.pc t = .inClose) :
      HandoffMove s t ({ s with handoff := closeLocked s.handoff }.goto t .leaveClose)
  | closed (at_ : s.pc t = .leaveClose) :
      HandoffMove s t ({ s with handoff := { s.handoff with lock := none } }.goto t .running)

inductive Stepped (s : HandoffState) : HandoffEvent → HandoffState → Prop
  | invalid {t target : Nat} {result : ToResult} (at_ : s.pc t = .running)
      (why : target = 0 ∧ result = .zeroTarget ∨ target ≠ 0 ∧ t = 0 ∧ result = .noThreadId) :
      Stepped s (.call t target) (s.finish t result)
  | call {t target : Nat} (at_ : s.pc t = .running) (valid : target ≠ 0 ∧ t ≠ 0) :
      Stepped s (.call t target) (s.goto t (.lockTo target))
  | callClose {t : Nat} (at_ : s.pc t = .running) :
      Stepped s (.callClose t) (s.goto t .lockClose)
  | advance {t : Nat} {allocTarget allocCurrent : Bool} {s' : HandoffState}
      (move : HandoffMove s t s') : Stepped s (.advance t allocTarget allocCurrent) s'
  | timeout {t : Nat} (at_ : s.pc t = .gateWait) (timed : s.handoff.hasTimeout = true) :
      Stepped s (.timeout t) (s.goto t (.lockAgain false))

section moves
variable {s s' : HandoffState} {t : Nat} {self self' : ThreadHandoff} {allocates : Bool}

theorem MoreEntries.refl (self : ThreadHandoff) : MoreEntries self self :=
  ⟨rfl, rfl, rfl, fun _ => Or.inl rfl⟩

theorem MoreEntries.trans {self'' : ThreadHandoff} (h : MoreEntries self self')
    (h' : MoreEntries self' self'') : MoreEntries self self'' := by
  refine ⟨h'.lock.trans h.lock, h'.closed.trans h.closed, h'.hasTimeout.trans h.hasTimeout, ?_⟩
  intro u
  obtain hsame | ⟨hnone, hnew⟩ := h.entry u
  · rw [← hsame]
    exact h'.entry u
  · obtain hsame | ⟨hnone', -⟩ := h'.entry u
    · exact Or.inr ⟨hnone, hsame.trans hnew⟩
    · rw [hnew] at hnone'
      cases hnone'

theorem moreEntries_getEntry (h : self.getEntry t allocates = some self') :
    MoreEntries self self' ∧ (self'.findEntry t).isSome = true := by
  obtain ⟨hfound, hlock, hclosed, hentry⟩ := findEntry_getEntry h
  refine ⟨⟨hlock, hclosed, ?_, hentry⟩, hfound⟩
  unfold ThreadHandoff.getEntry at h
  cases hfind : self.findEntry t with
  | some entry =>
    simp only [hfind, Option.some.injEq] at h
    rw [h]
  | none =>
    simp only [hfind] at h
    split at h
    · cases h
      rfl
    · cases h

theorem MoreEntries.isSome (h : MoreEntries self self') {u : Nat}
    (hu : (self.findEntry u).isSome = true) : (self'.findEntry u).isSome = true := by
  obtain hsame | ⟨-, hnew⟩ := h.entry u
  · rw [hsame]
    exact hu
  · rw [hnew]
    rfl

theorem enterTo_moves {target : Nat} (hpc : s.pc t = .inTo target) (allocTarget allocCurrent : Bool) :
    HandoffMove s t (enterTo s t target allocTarget allocCurrent) := by
  unfold enterTo
  cases hclosed : s.handoff.closed with
  | true => exact .refused hpc (MoreEntries.refl _) (Or.inl ⟨hclosed, rfl, rfl⟩)
  | false =>
    rw [if_neg Bool.false_ne_true]
    by_cases hself : target = t
    · rw [if_pos hself]
      exact .refused hpc (MoreEntries.refl _) (Or.inr (Or.inl ⟨hclosed, rfl, hself⟩))
    · rw [if_neg hself]
      cases hget : s.handoff.getEntry target allocTarget with
      | none => exact .refused hpc (MoreEntries.refl _) (Or.inr (Or.inr ⟨hclosed, rfl⟩))
      | some self =>
        obtain ⟨hgrown, hfound⟩ := moreEntries_getEntry hget
        cases hget' : self.getEntry t allocCurrent with
        | none =>
          simp only [hget']
          exact .refused hpc hgrown (Or.inr (Or.inr ⟨hclosed, rfl⟩))
        | some self' =>
          obtain ⟨hgrown', hown⟩ := moreEntries_getEntry hget'
          simp only [hget']
          exact .entered hpc hclosed hself (hgrown.trans hgrown') hown (hgrown'.isSome hfound)

theorem advance_moves {allocTarget allocCurrent : Bool}
    (h : advance s t allocTarget allocCurrent = some s') : HandoffMove s t s' := by
  unfold advance at h
  cases hpc : s.pc t with
  | running => simp [hpc] at h
  | lockTo target =>
    simp only [hpc] at h
    split at h
    · cases h
      exact .takeLock ‹_› (by rw [hpc]; rfl)
    · cases h
  | inTo target =>
    simp only [hpc, Option.some.injEq] at h
    exact h ▸ enterTo_moves hpc _ _
  | clearStale target =>
    simp only [hpc, Option.some.injEq] at h
    exact h ▸ .clear hpc
  | wake target =>
    simp only [hpc, Option.some.injEq] at h
    exact h ▸ .transfer hpc
  | startWait =>
    simp only [hpc, Option.bind_eq_bind, Option.bind_eq_some_iff] at h
    obtain ⟨entry, hfound, h⟩ := h
    split at h
    · cases h
      exact .ready hpc hfound ‹_›
    · rename_i hpermit
      cases h
      exact .park hpc hfound (Bool.eq_false_iff.mpr hpermit)
  | loop =>
    simp only [hpc, Option.bind_eq_bind, Option.bind_eq_some_iff] at h
    obtain ⟨entry, hfound, h⟩ := h
    split at h
    · rename_i hcond
      simp only [Bool.and_eq_true, Bool.not_eq_true'] at hcond
      cases h
      exact .wait hpc hfound hcond.1 hcond.2
    · rename_i hcond
      simp only [Bool.and_eq_true, Bool.not_eq_true', not_and_or, Bool.not_eq_false] at hcond
      cases h
      exact .exit hpc hfound hcond
  | gateWait =>
    simp only [hpc, Option.bind_eq_bind, Option.bind_eq_some_iff] at h
    obtain ⟨entry, hfound, h⟩ := h
    split at h
    · cases h
    · cases h
      exact .pass hpc hfound (Nat.pos_of_ne_zero ‹_›)
  | lockAgain acquired =>
    simp only [hpc] at h
    split at h
    · cases h
      exact .takeLock ‹_› (by rw [hpc]; rfl)
    · cases h
  | afterGate acquired =>
    simp only [hpc, Option.some.injEq] at h
    subst h
    unfold afterGate
    cases acquired with
    | true =>
      simp only [Bool.not_true, Bool.and_false, Bool.false_eq_true, if_false]
      exact .again hpc
    | false =>
      simp only [Bool.not_false, Bool.and_true, if_true]
      split
      · exact .fail hpc (Or.inl rfl)
      · exact .fail hpc (Or.inr rfl)
  | leave result =>
    simp only [hpc, Option.some.injEq] at h
    exact h ▸ .left hpc
  | lockClose =>
    simp only [hpc] at h
    split at h
    · cases h
      exact .takeLock ‹_› (by rw [hpc]; rfl)
    · cases h
  | inClose =>
    simp only [hpc, Option.some.injEq] at h
    exact h ▸ .close hpc
  | leaveClose =>
    simp only [hpc, Option.some.injEq] at h
    exact h ▸ .closed hpc

theorem handoffStep_stepped {event : HandoffEvent} (h : handoffStep s event = some s') :
    Stepped s event s' := by
  cases event with
  | call t target =>
    simp only [handoffStep, callTo] at h
    split at h
    · cases h
      split
      · exact .invalid ‹_› (Or.inl ⟨‹_›, rfl⟩)
      · split
        · exact .invalid ‹_› (Or.inr ⟨‹_›, ‹_›, rfl⟩)
        · exact .call ‹_› ⟨‹_›, ‹_›⟩
    · cases h
  | callClose t =>
    simp only [handoffStep] at h
    split at h
    · cases h
      exact .callClose ‹_›
    · cases h
  | advance t allocTarget allocCurrent => exact .advance (advance_moves h)
  | timeout t =>
    simp only [handoffStep] at h
    split at h
    · rename_i hcond
      cases h
      exact .timeout hcond.1 hcond.2
    · cases h

theorem finish_pc_of_ne (s : HandoffState) {u : Nat} (result : ToResult) (h : u ≠ t) :
    (s.finish t result).pc u = s.pc u := Function.update_of_ne h _ _

@[simp] theorem finish_pc (s : HandoffState) (result : ToResult) :
    (s.finish t result).pc t = .running := Function.update_self _ _ _

@[simp] theorem finish_handoff (s : HandoffState) (result : ToResult) :
    (s.finish t result).handoff = s.handoff := rfl

theorem HandoffMove.pc_of_ne (h : HandoffMove s t s') {u : Nat} (hu : u ≠ t) : s'.pc u = s.pc u := by
  cases h with
  | left at_ => exact finish_pc_of_ne _ _ hu
  | _ => exact goto_pc_of_ne _ _ hu

theorem Stepped.pc_of_ne {event : HandoffEvent} (h : Stepped s event s') {u : Nat}
    (hu : u ≠ event.thread) : s'.pc u = s.pc u := by
  cases h with
  | invalid at_ why => exact finish_pc_of_ne _ _ hu
  | advance move => exact move.pc_of_ne hu
  | _ => exact goto_pc_of_ne _ _ hu

theorem HandoffMove.closed_mono (h : HandoffMove s t s') (hclosed : s.handoff.closed = true) :
    s'.handoff.closed = true := by
  cases h with
  | refused at_ grown why => exact grown.closed.trans hclosed
  | entered at_ opened other grown own found => exact grown.closed.trans hclosed
  | close at_ =>
    change (closeLocked s.handoff).closed = true
    unfold closeLocked
    rw [if_pos hclosed]
    exact hclosed
  | _ => exact hclosed

theorem Stepped.closed_mono {event : HandoffEvent} (h : Stepped s event s')
    (hclosed : s.handoff.closed = true) : s'.handoff.closed = true := by
  cases h with
  | advance move => exact move.closed_mono hclosed
  | _ => exact hclosed

theorem findEntry_closeLocked (h : self.closed = false) (u : Nat) :
    (closeLocked self).findEntry u = (self.findEntry u).map (fun entry =>
      if entry.waiting && !entry.permit then { entry with gate := entry.gate + 1 } else entry) := by
  unfold closeLocked ThreadHandoff.findEntry
  rw [if_neg (by simp [h])]
  simp only [List.find?_map]
  congr 2
  funext entry
  simp only [Function.comp]
  split <;> rfl

theorem permit_closeLocked (s : HandoffState) (u : Nat) :
    ({ s with handoff := closeLocked s.handoff } : HandoffState).permit u = s.permit u := by
  cases hclosed : s.handoff.closed with
  | true =>
    unfold closeLocked
    rw [if_pos hclosed]
  | false =>
    unfold HandoffState.permit
    rw [findEntry_closeLocked hclosed]
    cases s.handoff.findEntry u with
    | none => rfl
    | some entry =>
      simp only [Option.map_some]
      split <;> rfl

theorem MoreEntries.permit (h : MoreEntries s.handoff self) (u : Nat) :
    ({ s with handoff := self } : HandoffState).permit u = s.permit u := by
  unfold HandoffState.permit
  obtain hsame | ⟨hnone, hnew⟩ := h.entry u
  · rw [hsame]
  · rw [hnone, hnew]

theorem HandoffMove.permit_of_ne (h : HandoffMove s t s') {u : Nat} (hu : u ≠ t)
    (hpermit : s'.permit u = true) : s.permit u = true ∨ s.pc t = .wake u := by
  cases h with
  | takeLock free next => exact Or.inl hpermit
  | refused at_ grown why => exact Or.inl ((grown.permit u).symm.trans hpermit)
  | entered at_ opened other grown own found => exact Or.inl ((grown.permit u).symm.trans hpermit)
  | transfer at_ =>
    rename_i target
    by_cases htarget : u = target
    · exact Or.inr (htarget ▸ at_)
    · exact Or.inl ((permit_update_of_ne s _ htarget).symm.trans hpermit)
  | wait at_ found opened unpermitted => exact Or.inl hpermit
  | again at_ => exact Or.inl hpermit
  | left at_ => exact Or.inl hpermit
  | close at_ => exact Or.inl ((permit_closeLocked s u).symm.trans hpermit)
  | closed at_ => exact Or.inl hpermit
  | _ => exact Or.inl ((permit_update_of_ne s _ hu).symm.trans hpermit)

end moves

end Retrace
