import Retrace.HandoffGates
import Retrace.HandoffReturns

/-! Timeouts of a handoff whose threads only call `to`: when they drop no transfer and leave the gate
as it was. -/

set_option autoImplicit false

namespace Retrace

def Pc.wakes : Pc → Option Nat
  | .wake target => some target
  | _ => none

/-- Only `to` is called; a timed acquire gives up while the gate is held, and no transfer is
recorded for a thread between that and its taking the internal lock. -/
def Undisputed (s : HandoffState) : HandoffEvent → Prop
  | .call _ _ => True
  | .callClose _ => False
  | .advance t _ _ => ∀ target ∈ (s.pc t).wakes, s.pc target ≠ .lockAgain false
  | .timeout t => ∀ entry ∈ s.handoff.findEntry t, entry.gate = 0

instance (s : HandoffState) (event : HandoffEvent) : Decidable (Undisputed s event) :=
  match event with
  | .call _ _ => isTrue trivial
  | .callClose _ => isFalse id
  | .advance t _ _ =>
    inferInstanceAs (Decidable (∀ target ∈ (s.pc t).wakes, s.pc target ≠ .lockAgain false))
  | .timeout t => inferInstanceAs (Decidable (∀ entry ∈ s.handoff.findEntry t, entry.gate = 0))

/-- What the entry of a thread holds when the thread stands at `pc`. -/
def CleanAt (entry : HandoffEntry) : Pc → Prop
  | .loop => entry.waiting = true ∧ entry.gate = 0
  | .gateWait => entry.waiting = true ∧ entry.gate = if entry.permit then 1 else 0
  | .lockAgain acquired => entry.waiting = true ∧ entry.permit = acquired ∧ entry.gate = 0
  | .afterGate acquired => entry.waiting = true ∧ entry.permit = acquired ∧ entry.gate = 0
  | .leave .timedOut => entry.waiting = false ∧ entry.permit = false ∧ entry.gate = 0
  | _ => entry.waiting = false ∧ entry.gate = 0

/-- The points that need an entry of the thread. -/
def Pc.hasEntry : Pc → Bool
  | .leave .timedOut => true
  | pc => pc.waits

def Pc.closes : Pc → Bool
  | .lockClose => true
  | .inClose => true
  | .leaveClose => true
  | _ => false

/-- The last time the thread parked is at `k`; if it has no permit, none has been stored since. -/
structure SinceParked (log : List HandoffLog) (s : HandoffState) (t k : Nat) : Prop where
  parked : log[k]? = some (.parked t)
  last : ∀ m, k < m → log[m]? ≠ some (.parked t)
  quiet : s.permit t = false → ∀ m u, k < m → log[m]? ≠ some (.stored u t)

/-- Before `k` the thread parks, and from then on no transfer to it is recorded. -/
def Untransferred (log : List HandoffLog) (t k : Nat) : Prop :=
  ∃ c, c < k ∧ log[c]? = some (.parked t) ∧ ∀ m, c < m → m < k →
    log[m]? ≠ some (.parked t) ∧ ∀ u, log[m]? ≠ some (.stored u t)

structure Clean (s : HandoffState) : Prop where
  lock : ∀ t, (s.pc t).holdsLock = true ↔ s.handoff.lock = some t
  opened : ∀ t, (s.pc t).closes = false
  hasEntry : ∀ t, (s.pc t).hasEntry = true → (s.handoff.findEntry t).isSome = true
  clean : ∀ t entry, s.handoff.findEntry t = some entry → CleanAt entry (s.pc t)

/-- The log and the state of a run: nothing is dropped between a park and a timeout. -/
structure Timed (s : HandoffState) (log : List HandoffLog) : Prop where
  clean : Clean s
  since : ∀ t, (s.pc t).hasEntry = true → ∃ k, SinceParked log s t k
  past : ∀ k t, log[k]? = some (.timedOut t) → Untransferred log t k

section clean
variable {s s' : HandoffState} {t : Nat} {event : HandoffEvent}

theorem HandoffMove.lockMove (h : HandoffMove s t s') : LockMove s s' t := by
  cases h with
  | takeLock free next =>
    rename_i pc
    refine Or.inr (Or.inl ⟨free, rfl, ?_⟩)
    rw [goto_pc]
    cases hpc : s.pc t <;> rw [hpc] at next <;> cases next <;> rfl
  | refused at_ grown why => exact Or.inl ⟨grown.lock, by rw [goto_pc, at_]; rfl⟩
  | entered at_ opened other grown own found => exact Or.inl ⟨grown.lock, by rw [goto_pc, at_]; rfl⟩
  | wait at_ found opened unpermitted =>
    exact Or.inr (Or.inr ⟨by rw [at_]; rfl, rfl, by rw [goto_pc]; rfl⟩)
  | left at_ => exact Or.inr (Or.inr ⟨by rw [at_]; rfl, rfl, by rw [finish_pc]; rfl⟩)
  | closed at_ => exact Or.inr (Or.inr ⟨by rw [at_]; rfl, rfl, by rw [goto_pc]; rfl⟩)
  | close at_ =>
    refine Or.inl ⟨?_, by rw [goto_pc, at_]; rfl⟩
    change (closeLocked s.handoff).lock = s.handoff.lock
    unfold closeLocked
    split <;> rfl
  | clear at_ => exact Or.inl ⟨rfl, by rw [goto_pc, at_]; rfl⟩
  | transfer at_ => exact Or.inl ⟨rfl, by rw [goto_pc, at_]; rfl⟩
  | ready at_ found permitted => exact Or.inl ⟨rfl, by rw [goto_pc, at_]; rfl⟩
  | park at_ found unpermitted => exact Or.inl ⟨rfl, by rw [goto_pc, at_]; rfl⟩
  | exit at_ found why => exact Or.inl ⟨rfl, by rw [goto_pc, at_]; rfl⟩
  | pass at_ found free => exact Or.inl ⟨rfl, by rw [goto_pc, at_]; rfl⟩
  | again at_ => exact Or.inl ⟨rfl, by rw [goto_pc, at_]; rfl⟩
  | fail at_ why => exact Or.inl ⟨rfl, by rw [goto_pc, at_]; rfl⟩

theorem Stepped.lockMove (h : Stepped s event s') : LockMove s s' event.thread := by
  cases h with
  | invalid at_ why => exact Or.inl ⟨rfl, by rw [HandoffEvent.thread, finish_pc, at_]⟩
  | call at_ valid => exact Or.inl ⟨rfl, by rw [HandoffEvent.thread, goto_pc, at_]; rfl⟩
  | callClose at_ => exact Or.inl ⟨rfl, by rw [HandoffEvent.thread, goto_pc, at_]; rfl⟩
  | advance move => exact move.lockMove
  | timeout at_ timed => exact Or.inl ⟨rfl, by rw [HandoffEvent.thread, goto_pc, at_]; rfl⟩

theorem LockMove.holder (h : LockMove s s' t) (hpc : ∀ u, u ≠ t → s'.pc u = s.pc u)
    (hlock : ∀ u, (s.pc u).holdsLock = true ↔ s.handoff.lock = some u) (u : Nat) :
    (s'.pc u).holdsLock = true ↔ s'.handoff.lock = some u := by
  by_cases hut : u = t
  · subst hut
    obtain ⟨hsame, hholds⟩ | ⟨-, htaken, hholds⟩ | ⟨-, hgiven, hholds⟩ := h
    · rw [hsame, hholds]
      exact hlock u
    · simp [htaken, hholds]
    · simp [hgiven, hholds]
  · rw [hpc u hut, hlock u]
    obtain ⟨hsame, -⟩ | ⟨hfree, htaken, -⟩ | ⟨hheld, hgiven, -⟩ := h
    · rw [hsame]
    · simp [hfree, htaken, Ne.symm hut]
    · simp [(hlock t).mp hheld, hgiven, Ne.symm hut]

theorem HandoffMove.opened (h : HandoffMove s t s') (hopen : (s.pc t).closes = false) :
    (s'.pc t).closes = false := by
  cases h with
  | takeLock free next =>
    rw [goto_pc]
    cases hpc : s.pc t with
    | lockClose =>
      rw [hpc] at hopen
      cases hopen
    | _ =>
      rw [hpc] at next
      cases next <;> rfl
  | left at_ =>
    rw [finish_pc]
    rfl
  | close at_ =>
    rw [at_] at hopen
    cases hopen
  | _ =>
    rw [goto_pc]
    rfl

theorem Stepped.opened (h : Stepped s event s') (hevent : ∀ u, event ≠ .callClose u)
    (hopen : ∀ u, (s.pc u).closes = false) (u : Nat) : (s'.pc u).closes = false := by
  by_cases hu : u = event.thread
  · subst hu
    cases h with
    | invalid at_ why => simp [HandoffEvent.thread, Pc.closes]
    | call at_ valid => simp [HandoffEvent.thread, Pc.closes]
    | callClose at_ => exact absurd rfl (hevent _)
    | advance move => exact move.opened (hopen _)
    | timeout at_ timed => simp [HandoffEvent.thread, Pc.closes]
  · rw [h.pc_of_ne hu]
    exact hopen u

theorem CleanAt.locked {entry : HandoffEntry} {pc pc' : Pc} (h : CleanAt entry pc)
    (hnext : pc.locked = some pc') (hopen : pc.closes = false) : CleanAt entry pc' := by
  cases pc with
  | lockTo target =>
    cases hnext
    exact h
  | lockAgain acquired =>
    cases hnext
    exact h
  | lockClose => cases hopen
  | _ => cases hnext

theorem wakeEntryLocked_idle {entry : HandoffEntry} (h : entry.waiting = false ∧ entry.gate = 0) :
    (wakeEntryLocked entry).waiting = false ∧ (wakeEntryLocked entry).gate = 0 := by
  refine ⟨by simpa using h.1, ?_⟩
  rw [wakeEntryLocked_gate, if_neg (by simp [h.1]), h.2]

theorem CleanAt.passed {entry : HandoffEntry} (h : CleanAt entry .gateWait)
    (hfree : 0 < entry.gate) :
    CleanAt { entry with gate := entry.gate - 1 } (.lockAgain true) := by
  obtain ⟨hwaiting, hgate⟩ := h
  cases hpermit : entry.permit with
  | false =>
    rw [hpermit] at hgate
    simp only [Bool.false_eq_true, if_false] at hgate
    omega
  | true =>
    rw [hpermit, if_pos rfl] at hgate
    refine ⟨hwaiting, rfl, ?_⟩
    change entry.gate - 1 = 0
    omega

theorem CleanAt.left {entry : HandoffEntry} {result : ToResult}
    (h : CleanAt entry (.leave result)) : CleanAt entry .running := by
  cases result with
  | timedOut => exact ⟨h.1, h.2.2⟩
  | _ => exact h

theorem Clean.grown (h : Clean s) {self : ThreadHandoff} {entry : HandoffEntry}
    (grown : MoreEntries s.handoff self) (hself : self.findEntry t = some entry)
    (hwaits : (s.pc t).waits = false) (hleave : ∀ result, s.pc t ≠ .leave result) :
    entry.waiting = false ∧ entry.gate = 0 := by
  obtain hsame | ⟨-, hnew⟩ := grown.entry t
  · have hclean := h.clean t entry (hsame.symm.trans hself)
    cases hpc : s.pc t with
    | leave result => exact absurd hpc (hleave result)
    | loop =>
      rw [hpc] at hwaits
      cases hwaits
    | gateWait =>
      rw [hpc] at hwaits
      cases hwaits
    | lockAgain acquired =>
      rw [hpc] at hwaits
      cases hwaits
    | afterGate acquired =>
      rw [hpc] at hwaits
      cases hwaits
    | _ =>
      rw [hpc] at hclean
      exact hclean
  · rw [hself] at hnew
    cases hnew
    exact ⟨rfl, rfl⟩

theorem Clean.written (h : Clean s) {target : Nat} {f : HandoffEntry → HandoffEntry}
    {entry : HandoffEntry}
    (hentry : (s.handoff.updateEntry target f).findEntry t = some entry) :
    ∃ old, s.handoff.findEntry t = some old ∧ CleanAt old (s.pc t) ∧
      entry = if t = target then { f old with threadId := old.threadId } else old := by
  rw [findEntry_updateEntry] at hentry
  obtain ⟨old, hold, heq⟩ := Option.map_eq_some_iff.mp hentry
  exact ⟨old, hold, h.clean t old hold, heq.symm⟩

theorem Clean.other (h : Clean s) (hmove : HandoffMove s t s') {u : Nat} (hu : u ≠ t)
    (hundisputed : ∀ target ∈ (s.pc t).wakes, s.pc target ≠ .lockAgain false)
    {entry : HandoffEntry} (hentry : s'.handoff.findEntry u = some entry) :
    CleanAt entry (s.pc u) := by
  obtain ⟨hsame, -⟩ | ⟨hnone, rfl⟩ | ⟨old, hold, hwake, rfl, -⟩ | ⟨old, -, hclose, -, -⟩ :=
    hmove.entry_of_ne hu hentry
  · exact h.clean u entry hsame
  · have hwithout : (s.pc u).hasEntry = false := by
      rw [Bool.eq_false_iff]
      intro hhas
      have hsome := h.hasEntry u hhas
      rw [hnone] at hsome
      cases hsome
    cases hpc : s.pc u with
    | leave result => cases result <;> simp [CleanAt]
    | loop =>
      rw [hpc] at hwithout
      cases hwithout
    | gateWait =>
      rw [hpc] at hwithout
      cases hwithout
    | lockAgain acquired =>
      rw [hpc] at hwithout
      cases hwithout
    | afterGate acquired =>
      rw [hpc] at hwithout
      cases hwithout
    | _ => exact ⟨rfl, rfl⟩
  · have hclean := h.clean u old hold
    -- the lock is held by the thread that grants the permit
    have hunlocked : (s.pc u).holdsLock = false := by
      rw [Bool.eq_false_iff]
      intro hholds
      have hheld := (h.lock t).mp (by rw [hwake]; rfl)
      rw [(h.lock u).mp hholds] at hheld
      exact hu (Option.some.inj hheld)
    have hgate := wakeEntryLocked_gate old
    cases hpc : s.pc u with
    | gateWait =>
      rw [hpc] at hclean
      obtain ⟨hwaiting, hfree⟩ := hclean
      refine ⟨by simpa using hwaiting, ?_⟩
      change (wakeEntryLocked old).gate = if (wakeEntryLocked old).permit then 1 else 0
      rw [hgate, wakeEntryLocked_permit, if_pos rfl, hfree]
      cases hpermit : old.permit with
      | true => simp
      | false => simp [hwaiting]
    | lockAgain acquired =>
      rw [hpc] at hclean
      obtain ⟨hwaiting, hpermit, hheld⟩ := hclean
      cases acquired with
      | false => exact absurd hpc (hundisputed u (by rw [hwake]; rfl))
      | true =>
        refine ⟨by simpa using hwaiting, by simp, ?_⟩
        change (wakeEntryLocked old).gate = 0
        rw [hgate, if_neg (by simp [hpermit]), hheld]
    | running =>
      rw [hpc] at hclean
      exact wakeEntryLocked_idle hclean
    | lockTo target =>
      rw [hpc] at hclean
      exact wakeEntryLocked_idle hclean
    | lockClose =>
      have hopen := h.opened u
      rw [hpc] at hopen
      cases hopen
    | _ =>
      rw [hpc] at hunlocked
      cases hunlocked
  · have hopen := h.opened t
    rw [hclose] at hopen
    cases hopen

theorem Clean.own (h : Clean s) (hmove : HandoffMove s t s') {entry : HandoffEntry}
    (hentry : s'.handoff.findEntry t = some entry) : CleanAt entry (s'.pc t) := by
  have hopen := h.opened t
  cases hmove with
  | takeLock free next =>
    rw [goto_pc]
    exact (h.clean t entry hentry).locked next hopen
  | refused at_ grown why =>
    have hidle := h.grown grown hentry (by rw [at_]; rfl) (by rw [at_]; simp)
    rw [goto_pc]
    obtain ⟨-, rfl, -⟩ | ⟨-, rfl, -⟩ | ⟨-, rfl⟩ := why
    · exact hidle
    · exact hidle
    · exact hidle
  | entered at_ opened other grown own found =>
    rw [goto_pc]
    exact h.grown grown hentry (by rw [at_]; rfl) (by rw [at_]; simp)
  | clear at_ =>
    obtain ⟨old, -, hclean, rfl⟩ := h.written hentry
    rw [at_] at hclean
    rw [goto_pc, if_pos rfl]
    exact hclean
  | transfer at_ =>
    obtain ⟨old, -, hclean, rfl⟩ := h.written hentry
    rw [at_] at hclean
    rw [goto_pc]
    split
    · exact wakeEntryLocked_idle hclean
    · exact hclean
  | ready at_ found permitted =>
    obtain ⟨old, -, hclean, rfl⟩ := h.written hentry
    rw [at_] at hclean
    rw [goto_pc, if_pos rfl]
    exact ⟨rfl, hclean.2⟩
  | park at_ found unpermitted =>
    obtain ⟨old, -, hclean, rfl⟩ := h.written hentry
    rw [at_] at hclean
    rw [goto_pc, if_pos rfl]
    exact ⟨rfl, hclean.2⟩
  | wait at_ found opened unpermitted =>
    have hsame : s.handoff.findEntry t = some entry := hentry
    have hclean := h.clean t entry hsame
    rw [found] at hsame
    cases hsame
    rw [at_] at hclean
    rw [goto_pc]
    refine ⟨hclean.1, ?_⟩
    rw [unpermitted, hclean.2]
    rfl
  | exit at_ found why =>
    obtain ⟨old, -, hclean, rfl⟩ := h.written hentry
    rw [at_] at hclean
    rw [goto_pc, if_pos rfl]
    exact ⟨rfl, hclean.2⟩
  | pass at_ found free =>
    obtain ⟨old, hold, hclean, rfl⟩ := h.written hentry
    rw [found] at hold
    cases hold
    rw [at_] at hclean
    rw [goto_pc, if_pos rfl]
    exact hclean.passed free
  | again at_ =>
    have hclean := h.clean t entry hentry
    rw [at_] at hclean
    rw [goto_pc]
    exact ⟨hclean.1, hclean.2.2⟩
  | fail at_ why =>
    obtain ⟨old, -, hclean, rfl⟩ := h.written hentry
    rw [at_] at hclean
    obtain ⟨-, hpermit, hgate⟩ := hclean
    rw [goto_pc, if_pos rfl]
    obtain rfl | rfl := why
    · exact ⟨rfl, hpermit, hgate⟩
    · exact ⟨rfl, hgate⟩
  | left at_ =>
    have hclean := h.clean t entry hentry
    rw [at_] at hclean
    rw [finish_pc]
    exact hclean.left
  | close at_ =>
    rw [at_] at hopen
    cases hopen
  | closed at_ =>
    rw [at_] at hopen
    cases hopen

theorem HandoffMove.hasEntry (h : HandoffMove s t s')
    (hhas : (s.pc t).hasEntry = true → (s.handoff.findEntry t).isSome = true)
    (hhas' : (s'.pc t).hasEntry = true) : (s'.handoff.findEntry t).isSome = true := by
  have hkept := @HandoffMove.entry_kept s s' t h t
  cases h with
  | takeLock free next =>
    refine hkept (hhas ?_)
    rw [goto_pc] at hhas'
    cases hpc : s.pc t <;> rw [hpc] at next <;> cases next <;> first | rfl | exact hhas'
  | refused at_ grown why =>
    rename_i result self
    rw [goto_pc] at hhas'
    obtain ⟨-, rfl, -⟩ | ⟨-, rfl, -⟩ | ⟨-, rfl⟩ := why <;> cases hhas'
  | park at_ found unpermitted => exact hkept (by rw [found]; rfl)
  | wait at_ found opened unpermitted => exact hkept (by rw [found]; rfl)
  | pass at_ found free => exact hkept (by rw [found]; rfl)
  | again at_ => exact hkept (hhas (by rw [at_]; rfl))
  | fail at_ why => exact hkept (hhas (by rw [at_]; rfl))
  | left at_ =>
    rw [finish_pc] at hhas'
    cases hhas'
  | _ =>
    rw [goto_pc] at hhas'
    cases hhas'

theorem Clean.step (h : Clean s) (hstep : Stepped s event s') (hevent : Undisputed s event) :
    Clean s' := by
  have hclose : ∀ u, event ≠ .callClose u := by
    rintro u rfl
    exact hevent
  refine ⟨hstep.lockMove.holder (fun u hu => hstep.pc_of_ne hu) h.lock,
    hstep.opened hclose h.opened, ?_, ?_⟩
  · intro u hhas
    by_cases hu : u = event.thread
    · subst hu
      cases hstep with
      | invalid at_ why => simp [HandoffEvent.thread, Pc.hasEntry, Pc.waits] at hhas
      | call at_ valid => simp [HandoffEvent.thread, Pc.hasEntry, Pc.waits] at hhas
      | callClose at_ => exact absurd rfl (hclose _)
      | advance move => exact move.hasEntry (h.hasEntry _) hhas
      | timeout at_ timed =>
        refine h.hasEntry _ ?_
        dsimp only [HandoffEvent.thread]
        rw [at_]
        rfl
    · rw [hstep.pc_of_ne hu] at hhas
      have hsome := h.hasEntry u hhas
      cases hstep with
      | advance move => exact move.entry_kept hsome
      | _ => exact hsome
  · intro u entry hentry
    by_cases hu : u = event.thread
    · subst hu
      cases hstep with
      | invalid at_ why =>
        have hclean := h.clean _ entry hentry
        dsimp only [HandoffEvent.thread] at hclean ⊢
        rw [at_] at hclean
        rw [finish_pc]
        exact hclean
      | call at_ valid =>
        have hclean := h.clean _ entry hentry
        dsimp only [HandoffEvent.thread] at hclean ⊢
        rw [at_] at hclean
        rw [goto_pc]
        exact hclean
      | callClose at_ => exact absurd rfl (hclose _)
      | advance move => exact h.own move hentry
      | timeout at_ timed =>
        have hclean := h.clean _ entry hentry
        have hheld := hevent entry hentry
        dsimp only [HandoffEvent.thread] at hclean ⊢
        rw [at_] at hclean
        rw [goto_pc]
        obtain ⟨hwaiting, hgate⟩ := hclean
        refine ⟨hwaiting, ?_, hheld⟩
        rw [hheld] at hgate
        cases hpermit : entry.permit with
        | false => rfl
        | true =>
          rw [hpermit] at hgate
          cases hgate
    · have hpc := hstep.pc_of_ne hu
      rw [hpc]
      cases hstep with
      | advance move => exact h.other move hu hevent hentry
      | _ => exact h.clean u entry hentry

theorem CleanAt.gate_le {entry : HandoffEntry} {pc : Pc} (h : CleanAt entry pc) :
    entry.gate ≤ 1 := by
  cases pc with
  | gateWait =>
    rw [h.2]
    split <;> simp
  | loop => simp [h.2]
  | lockAgain acquired => simp [h.2.2]
  | afterGate acquired => simp [h.2.2]
  | leave result =>
    cases result with
    | timedOut => simp [h.2.2]
    | _ => simp [h.2]
  | _ => simp [h.2]

section since
variable {log more : List HandoffLog} {u k : Nat}

theorem SinceParked.append (h : SinceParked log s t k) (hparked : ∀ y ∈ more, y ≠ .parked t)
    (hpermit : s'.permit t = false →
      s.permit t = false ∧ ∀ y ∈ more, ∀ u, y ≠ .stored u t) : SinceParked (log ++ more) s' t k := by
  refine ⟨at_append h.parked, ?_, ?_⟩
  · intro m hm hat
    rw [List.getElem?_append] at hat
    split at hat
    · exact h.last m hm hat
    · exact hparked _ (List.mem_of_getElem? hat) rfl
  · intro hfree m u hm hat
    obtain ⟨hbefore, hstored⟩ := hpermit hfree
    rw [List.getElem?_append] at hat
    split at hat
    · exact h.quiet hbefore m u hm hat
    · exact hstored _ (List.mem_of_getElem? hat) u rfl

theorem SinceParked.keep (h : SinceParked log s t k) (hmore : more = [])
    (hpermit : s'.permit t = s.permit t) : SinceParked (log ++ more) s' t k := by
  subst hmore
  exact h.append (by simp) (fun hfree => ⟨hpermit.symm.trans hfree, by simp⟩)

theorem pcShows_parked_of_ne {pc : Pc} (hu : u ≠ t) : ∀ y ∈ pcShows s t pc, y ≠ .parked u := by
  rintro y hy rfl
  cases pc with
  | leave result => cases result <;> simp [pcShows] at hy
  | startWait =>
    rw [pcShows] at hy
    split at hy
    · simp at hy
    · exact hu (by simpa using hy)
  | loop =>
    rw [pcShows] at hy
    split at hy <;> simp at hy
  | _ => simp [pcShows] at hy

theorem wake_of_stored {pc : Pc} {v : Nat} (h : .stored v u ∈ pcShows s t pc) : pc = .wake u := by
  cases pc with
  | wake target =>
    simp only [pcShows, List.mem_singleton, HandoffLog.stored.injEq] at h
    rw [h.2]
  | leave result => cases result <;> simp [pcShows] at h
  | startWait =>
    rw [pcShows] at h
    split at h <;> simp at h
  | loop =>
    rw [pcShows] at h
    split at h <;> simp at h
  | _ => simp [pcShows] at h

theorem HandoffMove.permit_of_wake (h : HandoffMove s t s') (hpc : s.pc t = .wake u)
    {entry : HandoffEntry} (hentry : s.handoff.findEntry u = some entry) : s'.permit u = true := by
  cases h with
  | transfer at_ =>
    rw [hpc] at at_
    cases at_
    rw [goto_permit, permit_update_self _ hentry]
    exact wakeEntryLocked_permit entry
  | takeLock free next =>
    rw [hpc] at next
    cases next
  | _ => simp_all

theorem SinceParked.other (h : SinceParked log s u k) (hclean : Clean s)
    (hmove : HandoffMove s t s') (hu : u ≠ t) (hhas : (s.pc u).hasEntry = true) :
    SinceParked (log ++ pcShows s t (s.pc t)) s' u k := by
  obtain ⟨old, hold⟩ := Option.isSome_iff_exists.mp (hclean.hasEntry u hhas)
  refine h.append (pcShows_parked_of_ne hu) ?_
  intro hfree
  refine ⟨?_, ?_⟩
  · obtain ⟨entry, hentry⟩ := Option.isSome_iff_exists.mp (hmove.entry_kept (by rw [hold]; rfl))
    rw [permit_of_entry hentry] at hfree
    obtain ⟨hsame, -⟩ | ⟨hnone, -⟩ | ⟨old', -, -, rfl, -⟩ | ⟨old', -, hclose, -⟩ :=
      hmove.entry_of_ne hu hentry
    · rw [permit_of_entry hsame]
      exact hfree
    · rw [hold] at hnone
      cases hnone
    · simp at hfree
    · have hopen := hclean.opened t
      rw [hclose] at hopen
      cases hopen
  · rintro y hy v rfl
    rw [hmove.permit_of_wake (wake_of_stored hy) hold] at hfree
    cases hfree

theorem since_own (hclean : Clean s) (h : (s.pc t).hasEntry = true → ∃ k, SinceParked log s t k)
    (hmove : HandoffMove s t s') (hhas : (s'.pc t).hasEntry = true) :
    ∃ k, SinceParked (log ++ pcShows s t (s.pc t)) s' t k := by
  cases hmove with
  | takeLock free next =>
    rename_i pc
    rw [goto_pc] at hhas
    cases hpc : s.pc t with
    | lockAgain acquired =>
      obtain ⟨k, hk⟩ := h (by rw [hpc]; rfl)
      exact ⟨k, hk.keep rfl rfl⟩
    | lockTo target =>
      rw [hpc] at next
      cases next
      cases hhas
    | lockClose =>
      rw [hpc] at next
      cases next
      cases hhas
    | _ =>
      rw [hpc] at next
      cases next
  | refused at_ grown why =>
    rw [goto_pc] at hhas
    obtain ⟨-, rfl, -⟩ | ⟨-, rfl, -⟩ | ⟨-, rfl⟩ := why <;> cases hhas
  | park at_ found unpermitted =>
    have hp : s.permit t = false := (permit_of_entry found).trans unpermitted
    refine ⟨log.length, ?_⟩
    rw [at_, pcShows, if_neg (by simp [hp])]
    have hend : ∀ m x, log.length < m → (log ++ [.parked t])[m]? ≠ some x := by
      intro m x hm hat
      obtain ⟨hlt, -⟩ := List.getElem?_eq_some_iff.mp hat
      rw [List.length_append, List.length_singleton] at hlt
      omega
    exact ⟨at_push _ _, fun m hm => hend m _ hm, fun _ m u hm => hend m _ hm⟩
  | wait at_ found opened unpermitted =>
    obtain ⟨k, hk⟩ := h (by rw [at_]; rfl)
    have hp : s.permit t = false := (permit_of_entry found).trans unpermitted
    exact ⟨k, hk.keep (by rw [at_, pcShows, if_neg (by simp [hp])]) rfl⟩
  | pass at_ found free =>
    obtain ⟨k, hk⟩ := h (by rw [at_]; rfl)
    refine ⟨k, hk.keep (by rw [at_]; rfl) ?_⟩
    rw [goto_permit, permit_update_self _ found, permit_of_entry found]
  | again at_ =>
    obtain ⟨k, hk⟩ := h (by rw [at_]; rfl)
    exact ⟨k, hk.keep (by rw [at_]; rfl) rfl⟩
  | fail at_ why =>
    obtain ⟨k, hk⟩ := h (by rw [at_]; rfl)
    refine ⟨k, hk.keep (by rw [at_]; rfl) ?_⟩
    obtain ⟨entry, hentry⟩ := Option.isSome_iff_exists.mp (hclean.hasEntry t (by rw [at_]; rfl))
    rw [goto_permit, permit_update_self _ hentry, permit_of_entry hentry]
  | left at_ =>
    rw [finish_pc] at hhas
    cases hhas
  | _ =>
    rw [goto_pc] at hhas
    cases hhas

theorem since_step (hclean : Clean s)
    (h : (s.pc t).hasEntry = true → ∃ k, SinceParked log s t k) (hstep : Stepped s event s')
    (hhas : (s'.pc t).hasEntry = true) :
    ∃ k, SinceParked (log ++ handoffShows s event) s' t k := by
  by_cases ht : t = event.thread
  · subst ht
    cases hstep with
    | invalid at_ why => simp [HandoffEvent.thread, Pc.hasEntry, Pc.waits] at hhas
    | call at_ valid => simp [HandoffEvent.thread, Pc.hasEntry, Pc.waits] at hhas
    | callClose at_ => simp [HandoffEvent.thread, Pc.hasEntry, Pc.waits] at hhas
    | advance move => exact since_own hclean h move hhas
    | timeout at_ timed =>
      dsimp only [HandoffEvent.thread] at h
      obtain ⟨k, hk⟩ := h (by rw [at_]; rfl)
      exact ⟨k, hk.keep rfl rfl⟩
  · rw [hstep.pc_of_ne ht] at hhas
    obtain ⟨k, hk⟩ := h hhas
    refine ⟨k, ?_⟩
    cases hstep with
    | invalid at_ why =>
      exact hk.append (by simp [handoffShows]) (fun hfree => ⟨hfree, by simp [handoffShows]⟩)
    | call at_ valid =>
      exact hk.append (by simp [handoffShows]) (fun hfree => ⟨hfree, by simp [handoffShows]⟩)
    | callClose at_ => exact hk.keep rfl rfl
    | advance move => exact hk.other hclean move ht hhas
    | timeout at_ timed => exact hk.keep rfl rfl

theorem timedOut_shown (h : .timedOut t ∈ handoffShows s event) :
    handoffShows s event = [.timedOut t] ∧ s.pc t = .leave .timedOut := by
  cases event with
  | advance v allocTarget allocCurrent =>
    change _ ∈ pcShows s v (s.pc v) at h
    change pcShows s v (s.pc v) = _ ∧ _
    cases hpc : s.pc v with
    | leave result =>
      rw [hpc] at h
      cases result with
      | timedOut =>
        simp only [pcShows, List.mem_singleton, HandoffLog.timedOut.injEq] at h
        subst h
        exact ⟨rfl, hpc⟩
      | _ => simp [pcShows] at h
    | startWait =>
      rw [hpc, pcShows] at h
      split at h <;> simp at h
    | loop =>
      rw [hpc, pcShows] at h
      split at h <;> simp at h
    | _ => simp [hpc, pcShows] at h
  | _ => simp [handoffShows] at h

theorem SinceParked.untransferred (h : SinceParked log s t k) (hfree : s.permit t = false) :
    Untransferred (log ++ more) t log.length := by
  obtain ⟨hlt, -⟩ := List.getElem?_eq_some_iff.mp h.parked
  refine ⟨k, hlt, at_append h.parked, ?_⟩
  intro m hm hlog
  rw [List.getElem?_append_left hlog]
  exact ⟨h.last m hm, fun u => h.quiet hfree m u hm⟩

theorem Untransferred.append (h : Untransferred log t k) (hk : k < log.length) :
    Untransferred (log ++ more) t k := by
  obtain ⟨c, hck, hc, hquiet⟩ := h
  refine ⟨c, hck, at_append hc, ?_⟩
  intro m hm hmk
  rw [List.getElem?_append_left (by omega)]
  exact hquiet m hm hmk

theorem Clean.leaves (h : Clean s) (hpc : s.pc t = .leave .timedOut) :
    ∃ entry, s.handoff.findEntry t = some entry ∧ entry.waiting = false ∧ entry.permit = false ∧
      entry.gate = 0 := by
  obtain ⟨entry, hentry⟩ := Option.isSome_iff_exists.mp (h.hasEntry t (by rw [hpc]; rfl))
  have hclean := h.clean t entry hentry
  rw [hpc] at hclean
  exact ⟨entry, hentry, hclean⟩

theorem Timed.step (h : Timed s log) (hstep : Stepped s event s') (hevent : Undisputed s event) :
    Timed s' (log ++ handoffShows s event) := by
  refine ⟨h.clean.step hstep hevent, fun t => since_step h.clean (h.since t) hstep, ?_⟩
  intro k t hk
  by_cases hlt : k < log.length
  · rw [List.getElem?_append_left hlt] at hk
    exact (h.past k t hk).append hlt
  · rw [List.getElem?_append_right (Nat.le_of_not_lt hlt)] at hk
    obtain ⟨hshown, hpc⟩ := timedOut_shown (List.mem_of_getElem? hk)
    rw [hshown] at hk
    obtain ⟨hone, -⟩ := List.getElem?_eq_some_iff.mp hk
    rw [List.length_singleton] at hone
    obtain rfl : k = log.length := by omega
    obtain ⟨j, hj⟩ := h.since t (by rw [hpc]; rfl)
    obtain ⟨entry, hentry, -, hpermit, -⟩ := h.clean.leaves hpc
    exact hj.untransferred ((permit_of_entry hentry).trans hpermit)

theorem newHandoff_timed (hasTimeout : Bool) : Timed (newHandoff hasTimeout) [] := by
  refine ⟨⟨?_, fun _ => rfl, ?_, ?_⟩, ?_, ?_⟩
  · intro t
    simp [newHandoff, Pc.holdsLock]
  · intro t hhas
    cases hhas
  · intro t entry hentry
    cases hentry
  · intro t hhas
    cases hhas
  · intro k t hk
    cases hk

/-- A release of the gate that finds it free. -/
def ReleasesFree (s s' : HandoffState) : Prop :=
  ∃ t entry entry', s.handoff.findEntry t = some entry ∧ s'.handoff.findEntry t = some entry' ∧
    0 < entry.gate ∧ entry.gate < entry'.gate

/-- In a run in which no transfer names a thread between the end of its timed acquire, which gives
up only while the gate is held, and its taking the internal lock, a timeout ends a wait without a
transfer and leaves the entry as it was, and no release finds a gate free. -/
theorem handoffTimeout_clean {hasTimeout : Bool} {events : List HandoffEvent}
    (hrun : StepRun.run loggedStep events (newHandoff hasTimeout) = some (s, log))
    (hundisputed : StepRun.Always loggedStep (fun s event _ _ => Undisputed s event) events
      (newHandoff hasTimeout)) :
    (∀ k t, log[k]? = some (.timedOut t) → Untransferred log t k) ∧
    (∀ t, s.pc t = .leave .timedOut → ∃ entry, s.handoff.findEntry t = some entry ∧
      entry.waiting = false ∧ entry.permit = false ∧ entry.gate = 0) ∧
    StepRun.Always loggedStep (fun s _ s' _ => ¬ ReleasesFree s s') events
      (newHandoff hasTimeout) := by
  have htimed : Timed s log := by
    refine StepRun.Always.run_induction (newHandoff_timed hasTimeout) ?_ hundisputed hrun
    intro s log event s' out h hstep hevent
    obtain ⟨hstepped, rfl⟩ := loggedStep_stepped hstep
    exact h.step hstepped hevent
  refine ⟨htimed.past, fun t => htimed.clean.leaves, ?_⟩
  refine StepRun.Always.imp ?_ (newHandoff_timed hasTimeout).clean hundisputed
  intro s event s' out h hstep hevent
  have hclean := h.step (loggedStep_stepped hstep).1 hevent
  refine ⟨hclean, ?_⟩
  rintro ⟨t, entry, entry', -, hentry', hfree, hgrows⟩
  have hle := (hclean.clean t entry' hentry').gate_le
  omega

/-- Thread 1 parks for thread 2 and nobody transfers to it. -/
def waitInVain : List HandoffEvent :=
  .call 1 2 :: List.replicate 6 (.advance 1 true true) ++
    .timeout 1 :: List.replicate 3 (.advance 1 true true)

theorem handoffTimeout_clean_waitInVain :
    ∃ s log, StepRun.run loggedStep waitInVain (newHandoff true) = some (s, log) ∧
      log[4]? = some (.timedOut 1) ∧ Untransferred log 1 4 := by
  obtain ⟨s, log, hrun, hlog⟩ : ∃ s log,
      StepRun.run loggedStep waitInVain (newHandoff true) = some (s, log) ∧
      log[4]? = some (.timedOut 1) := ⟨_, _, rfl, rfl⟩
  have hundisputed : StepRun.Always loggedStep (fun s event _ _ => Undisputed s event) waitInVain
      (newHandoff true) := by
    decide
  exact ⟨s, log, hrun, hlog, (handoffTimeout_clean hrun hundisputed).1 4 1 hlog⟩

/-- Thread 2 transfers to thread 1 after the acquire of thread 1 has given up and before thread 1
has the internal lock again. -/
def transferAtTimeout : List HandoffEvent :=
  .call 1 2 :: List.replicate 6 (.advance 1 true true) ++ [.timeout 1, .call 2 1] ++
    List.replicate 6 (.advance 2 true true) ++ List.replicate 3 (.advance 1 true true)

/-- Thread 1 transfers to thread 2 and parks again, and thread 3 is about to transfer to thread 1. -/
def parkedAgain : List HandoffEvent :=
  .call 1 2 :: List.replicate 6 (.advance 1 true true) ++
    .call 3 1 :: List.replicate 3 (.advance 3 true true)

/-- The transfer is in the log between the park and the timeout, the permit and a free gate stay
behind, and the next wait of the thread has its gate released while it is free. -/
theorem handoffTimeout_transfer :
    ∃ s s' s'' log log', StepRun.run loggedStep transferAtTimeout (newHandoff true) = some (s, log) ∧
      log[8]? = some (.timedOut 1) ∧ ¬Untransferred log 1 8 ∧
      s.handoff.findEntry 1 = some ⟨1, true, false, 1⟩ ∧
      StepRun.run loggedStep parkedAgain s = some (s', log') ∧
      handoffStep s' (.advance 3 true true) = some s'' ∧ ReleasesFree s' s'' := by
  obtain ⟨s, log, hrun, hlog, hentry, s', s'', log', hrun', hstep, hfree⟩ : ∃ s log,
      StepRun.run loggedStep transferAtTimeout (newHandoff true) = some (s, log) ∧
      log = [.called 1 2, .cleared 1, .stored 1 2, .parked 1, .called 2 1, .cleared 2, .stored 2 1,
        .parked 2, .timedOut 1] ∧ s.handoff.findEntry 1 = some ⟨1, true, false, 1⟩ ∧
      ∃ s' s'' log', StepRun.run loggedStep parkedAgain s = some (s', log') ∧
        handoffStep s' (.advance 3 true true) = some s'' ∧ ReleasesFree s' s'' :=
    ⟨_, _, rfl, by decide, rfl, _, _, _, rfl, rfl, 1, _, _, rfl, rfl, by decide, by decide⟩
  refine ⟨s, s', s'', log, log', hrun, by rw [hlog]; rfl, ?_, hentry, hrun', hstep, hfree⟩
  rintro ⟨c, hc, hparked, hquiet⟩
  rw [hlog] at hparked hquiet
  obtain rfl : c = 3 := by
    interval_cases c <;> first | rfl | cases hparked
  exact (hquiet 6 (by decide) (by decide)).2 2 rfl

end since

end clean

end Retrace
