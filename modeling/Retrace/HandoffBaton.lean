import Retrace.ThreadHandoff
import Mathlib.Data.Finset.Basic

/-! While nobody closes the handoff or times out, one thread has the baton. -/

set_option autoImplicit false

namespace Retrace

/-- The thread runs, or will run without another transfer. -/
def HandoffState.Baton (s : HandoffState) (t : Nat) : Bool :=
  match s.pc t with
  | .startWait => s.permit t
  | .loop => s.permit t
  | .gateWait => s.permit t
  | .lockAgain _ => s.permit t
  | .afterGate _ => s.permit t
  | _ => true

def HandoffState.HasEntry (s : HandoffState) (t : Nat) : Prop :=
  (s.handoff.findEntry t).isSome = true

/-- What a thread relies on at its own point of the call. -/
def PcInv (participants : Finset Nat) (s : HandoffState) (t : Nat) : Prop :=
  match s.pc t with
  | .running => True
  | .lockTo target => target ∈ participants
  | .inTo target => target ∈ participants
  | .clearStale target =>
    target ∈ participants ∧ target ≠ t ∧ s.HasEntry t ∧ s.HasEntry target
  | .wake target =>
    target ∈ participants ∧ target ≠ t ∧ s.HasEntry t ∧ s.HasEntry target ∧ s.permit t = false
  | .startWait => s.HasEntry t
  | .loop => s.HasEntry t
  | .gateWait => s.HasEntry t
  | .lockAgain acquired => acquired = true ∧ s.HasEntry t
  | .afterGate acquired => acquired = true ∧ s.HasEntry t
  | .leave _ => True
  | .lockClose => False
  | .inClose => False
  | .leaveClose => False

structure BatonInv (participants : Finset Nat) (s : HandoffState) : Prop where
  notClosed : s.handoff.closed = false
  lockHolder : ∀ t ∈ participants, (s.pc t).holdsLock = true ↔ s.handoff.lock = some t
  lockKnown : ∀ t, s.handoff.lock = some t → t ∈ participants
  one : ∃! t, t ∈ participants ∧ s.Baton t = true
  pcs : ∀ t ∈ participants, PcInv participants s t

section permits
variable {s : HandoffState}

theorem permit_of_handoff {s s' : HandoffState} (h : s'.handoff.entries = s.handoff.entries)
    (t : Nat) : s'.permit t = s.permit t := by
  unfold HandoffState.permit ThreadHandoff.findEntry
  rw [h]

theorem permit_update (s : HandoffState) (t u : Nat) (f : HandoffEntry → HandoffEntry) :
    ({ s with handoff := s.handoff.updateEntry t f } : HandoffState).permit u =
      match s.handoff.findEntry u with
      | some entry => if u = t then (f entry).permit else entry.permit
      | none => false := by
  unfold HandoffState.permit
  rw [findEntry_updateEntry]
  cases s.handoff.findEntry u with
  | none => rfl
  | some entry =>
    simp only [Option.map_some]
    split <;> rfl

theorem permit_update_of_ne (s : HandoffState) {t u : Nat} (f : HandoffEntry → HandoffEntry)
    (h : u ≠ t) :
    ({ s with handoff := s.handoff.updateEntry t f } : HandoffState).permit u = s.permit u := by
  rw [permit_update]
  unfold HandoffState.permit
  cases s.handoff.findEntry u with
  | none => rfl
  | some entry => simp only [h, if_false]

theorem hasEntry_update (s : HandoffState) (t u : Nat) (f : HandoffEntry → HandoffEntry) :
    ({ s with handoff := s.handoff.updateEntry t f } : HandoffState).HasEntry u ↔
      s.HasEntry u := by
  unfold HandoffState.HasEntry
  rw [findEntry_updateEntry, Option.isSome_map]

theorem hasEntry_iff (t : Nat) : s.HasEntry t ↔ ∃ entry, s.handoff.findEntry t = some entry :=
  Option.isSome_iff_exists

@[simp] theorem goto_handoff (s : HandoffState) (t : Nat) (pc : Pc) :
    (s.goto t pc).handoff = s.handoff := rfl

@[simp] theorem goto_pc (s : HandoffState) (t : Nat) (pc : Pc) : (s.goto t pc).pc t = pc := by
  simp [HandoffState.goto]

theorem goto_pc_of_ne (s : HandoffState) {t u : Nat} (pc : Pc) (h : u ≠ t) :
    (s.goto t pc).pc u = s.pc u := by
  simp [HandoffState.goto, Function.update_of_ne h]

@[simp] theorem goto_permit (s : HandoffState) (t u : Nat) (pc : Pc) :
    (s.goto t pc).permit u = s.permit u := rfl

@[simp] theorem goto_hasEntry (s : HandoffState) (t u : Nat) (pc : Pc) :
    (s.goto t pc).HasEntry u ↔ s.HasEntry u := Iff.rfl

@[simp] theorem setLock_permit (s : HandoffState) (lock : Option Nat) (u : Nat) :
    ({ s with handoff := { s.handoff with lock := lock } } : HandoffState).permit u =
      s.permit u := rfl

@[simp] theorem setLock_hasEntry (s : HandoffState) (lock : Option Nat) (u : Nat) :
    ({ s with handoff := { s.handoff with lock := lock } } : HandoffState).HasEntry u ↔
      s.HasEntry u := Iff.rfl

end permits

/-- The lock of a step stays, is taken, or is given back. -/
def LockMove (s s' : HandoffState) (t : Nat) : Prop :=
  (s'.handoff.lock = s.handoff.lock ∧ (s'.pc t).holdsLock = (s.pc t).holdsLock) ∨
  (s.handoff.lock = none ∧ s'.handoff.lock = some t ∧ (s'.pc t).holdsLock = true) ∨
  ((s.pc t).holdsLock = true ∧ s'.handoff.lock = none ∧ (s'.pc t).holdsLock = false)

/-- What a step of one thread leaves to the others. -/
structure Quiet (s s' : HandoffState) (t : Nat) : Prop where
  closed : s'.handoff.closed = s.handoff.closed
  pc : ∀ u, u ≠ t → s'.pc u = s.pc u
  permit : ∀ u, u ≠ t → s'.permit u = s.permit u
  entry : ∀ u, s.HasEntry u → s'.HasEntry u
  lock : LockMove s s' t

section steps
variable {participants : Finset Nat} {s s' : HandoffState} {t : Nat}

theorem Quiet.pcInv (h : Quiet s s' t) {u : Nat} (hu : u ≠ t)
    (hpc : PcInv participants s u) : PcInv participants s' u := by
  unfold PcInv at hpc ⊢
  rw [h.pc u hu]
  cases hcase : s.pc u <;> simp only [hcase, h.permit u hu] at hpc ⊢ <;> grind [h.entry]

theorem BatonInv.lock_step (h : BatonInv participants s) (ht : t ∈ participants)
    (hpc : ∀ u, u ≠ t → s'.pc u = s.pc u) (hlock : LockMove s s' t) :
    (∀ u ∈ participants, (s'.pc u).holdsLock = true ↔ s'.handoff.lock = some u) ∧
      ∀ u, s'.handoff.lock = some u → u ∈ participants := by
  have hself : (s'.pc t).holdsLock = true ↔ s'.handoff.lock = some t := by
    obtain ⟨hl, hsame⟩ | ⟨-, hl, hnow⟩ | ⟨-, hl, hnow⟩ := hlock
    · rw [hl, hsame]
      exact h.lockHolder t ht
    · simp [hl, hnow]
    · simp [hl, hnow]
  have hother : ∀ u, u ≠ t → (s'.handoff.lock = some u ↔ s.handoff.lock = some u) := by
    intro u hu
    obtain ⟨hl, -⟩ | ⟨hfree, hl, -⟩ | ⟨hwas, hl, -⟩ := hlock
    · rw [hl]
    · simp [hl, hfree, hu.symm]
    · simp [hl, (h.lockHolder t ht).mp hwas, hu.symm]
  constructor
  · intro u hu
    by_cases hut : u = t
    · rw [hut]
      exact hself
    · rw [hpc u hut, hother u hut]
      exact h.lockHolder u hu
  · intro u hu
    by_cases hut : u = t
    · rw [hut]
      exact ht
    · exact h.lockKnown u ((hother u hut).mp hu)

theorem BatonInv.keep (h : BatonInv participants s) (ht : t ∈ participants)
    (hq : Quiet s s' t) (hbaton : s'.Baton t = s.Baton t) (hpc : PcInv participants s' t) :
    BatonInv participants s' := by
  obtain ⟨hholder, hknown⟩ := h.lock_step ht hq.pc hq.lock
  have hsame : ∀ u, s'.Baton u = s.Baton u := by
    intro u
    by_cases hut : u = t
    · rw [hut, hbaton]
    · unfold HandoffState.Baton
      rw [hq.pc u hut, hq.permit u hut]
  refine ⟨by rw [hq.closed]; exact h.notClosed, hholder, hknown, ?_, ?_⟩
  · simp only [hsame]
    exact h.one
  · intro u hu
    by_cases hut : u = t
    · rw [hut]
      exact hpc
    · exact hq.pcInv hut (h.pcs u hu)

theorem BatonInv.ownEntry (h : BatonInv participants s) (ht : t ∈ participants)
    (f : HandoffEntry → HandoffEntry) (pc : Pc) (hl : pc.holdsLock = (s.pc t).holdsLock)
    (hbaton : ({ s with handoff := s.handoff.updateEntry t f }.goto t pc).Baton t = s.Baton t)
    (hpc : PcInv participants ({ s with handoff := s.handoff.updateEntry t f }.goto t pc) t) :
    BatonInv participants ({ s with handoff := s.handoff.updateEntry t f }.goto t pc) := by
  refine h.keep ht ⟨rfl, ?_, ?_, ?_, Or.inl ⟨rfl, ?_⟩⟩ hbaton hpc
  · intro u hu
    exact goto_pc_of_ne _ pc hu
  · intro u hu
    exact permit_update_of_ne s f hu
  · intro u hu
    exact (hasEntry_update s t u f).mpr hu
  · simpa using hl

theorem BatonInv.takeLock (h : BatonInv participants s) (ht : t ∈ participants) (pc : Pc)
    (hfree : s.handoff.lock = none) (hl : pc.holdsLock = true)
    (hbaton : (s.goto t pc).Baton t = s.Baton t) (hpc : PcInv participants (s.goto t pc) t) :
    BatonInv participants
      ({ s with handoff := { s.handoff with lock := some t } }.goto t pc) := by
  refine h.keep ht ⟨rfl, ?_, fun _ _ => rfl, fun _ hu => hu,
    Or.inr (Or.inl ⟨hfree, rfl, ?_⟩)⟩ hbaton hpc
  · intro u hu
    exact goto_pc_of_ne _ pc hu
  · simpa using hl

theorem BatonInv.dropLock (h : BatonInv participants s) (ht : t ∈ participants)
    (hwas : (s.pc t).holdsLock = true) (hs' : s'.handoff = { s.handoff with lock := none })
    (hother : ∀ u, u ≠ t → s'.pc u = s.pc u) (hl : (s'.pc t).holdsLock = false)
    (hbaton : s'.Baton t = s.Baton t) (hpc : PcInv participants s' t) :
    BatonInv participants s' := by
  refine h.keep ht ⟨by rw [hs'], hother, ?_, ?_, Or.inr (Or.inr ⟨hwas, by rw [hs'], hl⟩)⟩
    hbaton hpc
  · intro u _
    exact permit_of_handoff (by rw [hs']) u
  · intro u hu
    unfold HandoffState.HasEntry ThreadHandoff.findEntry at hu ⊢
    rw [hs']
    exact hu

theorem permit_of_entry {entry : HandoffEntry} (h : s.handoff.findEntry t = some entry) :
    s.permit t = entry.permit := by
  simp [HandoffState.permit, h]

theorem permit_update_self {entry : HandoffEntry} (f : HandoffEntry → HandoffEntry)
    (h : s.handoff.findEntry t = some entry) :
    ({ s with handoff := s.handoff.updateEntry t f } : HandoffState).permit t =
      (f entry).permit := by
  rw [permit_update, h]
  simp

theorem BatonInv.transfer (h : BatonInv participants s) (ht : t ∈ participants) {target : Nat}
    (hpc : s.pc t = .wake target) :
    BatonInv participants ({ s with
      handoff := s.handoff.updateEntry target wakeEntryLocked }.goto t .startWait) := by
  have hinv := h.pcs t ht
  simp only [PcInv, hpc] at hinv
  obtain ⟨htarget, hne, hentry, htentry, hpermit⟩ := hinv
  obtain ⟨entry, hfind⟩ := (hasEntry_iff target).mp htentry
  have hpcs : ∀ u, u ≠ t → ({ s with
      handoff := s.handoff.updateEntry target wakeEntryLocked }.goto t .startWait).pc u =
      s.pc u := fun u hu => goto_pc_of_ne _ _ hu
  have hpermits : ∀ u, u ≠ target → ({ s with
      handoff := s.handoff.updateEntry target wakeEntryLocked }.goto t .startWait).permit u =
      s.permit u := fun u hu => permit_update_of_ne s _ hu
  have hentries : ∀ u, s.HasEntry u → ({ s with
      handoff := s.handoff.updateEntry target wakeEntryLocked }.goto t .startWait).HasEntry u :=
    fun u hu => (hasEntry_update s target u _).mpr hu
  have hgiven : ({ s with
      handoff := s.handoff.updateEntry target wakeEntryLocked }.goto t .startWait).permit target =
      true := by
    rw [goto_permit, permit_update_self _ hfind]
    unfold wakeEntryLocked
    split <;> rfl
  have hmine : s.Baton t = true := by simp [HandoffState.Baton, hpc]
  have honly : ∀ u ∈ participants, s.Baton u = true → u = t := fun u hu hb =>
    h.one.unique ⟨hu, hb⟩ ⟨ht, hmine⟩
  -- the lock is the caller's, so the target stands somewhere between its wait and its relock
  have hlocked : ∀ u ∈ participants, u ≠ t → (s.pc u).holdsLock = false := by
    intro u hu hut
    rw [Bool.eq_false_iff]
    intro hl
    have hmylock := (h.lockHolder t ht).mp (by simp [hpc, Pc.holdsLock])
    rw [(h.lockHolder u hu).mp hl, Option.some.injEq] at hmylock
    exact hut hmylock
  obtain ⟨hholder, hknown⟩ := h.lock_step ht hpcs (Or.inl ⟨rfl, by simp [hpc, Pc.holdsLock]⟩)
  refine ⟨h.notClosed, hholder, hknown, ⟨target, ⟨htarget, ?_⟩, ?_⟩, ?_⟩
  · have hbefore : s.Baton target ≠ true := fun hb => hne (honly target htarget hb)
    unfold HandoffState.Baton at hbefore ⊢
    rw [hpcs target hne, hgiven]
    cases hcase : s.pc target <;> rfl
  · rintro u ⟨hu, hb⟩
    by_contra hut
    unfold HandoffState.Baton at hb
    by_cases hself : u = t
    · subst hself
      rw [goto_pc, hpermits u hut, hpermit] at hb
      cases hb
    · rw [hpcs u hself, hpermits u hut] at hb
      exact hself (honly u hu hb)
  · intro u hu
    by_cases hself : u = t
    · subst hself
      simp only [PcInv, goto_pc]
      exact hentries u hentry
    · have hold := h.pcs u hu
      have hl := hlocked u hu hself
      unfold PcInv at hold ⊢
      rw [hpcs u hself]
      cases hcase : s.pc u <;> simp only [hcase, Pc.holdsLock] at hold hl ⊢ <;> grind

theorem quiet_getEntry {self' : ThreadHandoff} {u : Nat} {allocates : Bool}
    (h : s.handoff.getEntry u allocates = some self') (v : Nat) :
    ({ s with handoff := self' } : HandoffState).permit v = s.permit v ∧
      (s.HasEntry v → ({ s with handoff := self' } : HandoffState).HasEntry v) := by
  obtain ⟨-, -, -, hfind⟩ := findEntry_getEntry h
  unfold HandoffState.permit HandoffState.HasEntry
  obtain heq | ⟨hnone, hnew⟩ := hfind v
  · rw [heq]
    exact ⟨rfl, id⟩
  · rw [hnone, hnew]
    exact ⟨rfl, by simp⟩

theorem BatonInv.getEntries (h : BatonInv participants s) (ht : t ∈ participants)
    {self' : ThreadHandoff} (hclosed : self'.closed = s.handoff.closed)
    (hlock : self'.lock = s.handoff.lock)
    (hq : ∀ v, ({ s with handoff := self' } : HandoffState).permit v = s.permit v ∧
      (s.HasEntry v → ({ s with handoff := self' } : HandoffState).HasEntry v))
    (pc : Pc) (hl : pc.holdsLock = (s.pc t).holdsLock) (hbaton : s.Baton t = true)
    (hpc : PcInv participants ({ s with handoff := self' }.goto t pc) t)
    (hpcBaton : ({ s with handoff := self' }.goto t pc).Baton t = true) :
    BatonInv participants ({ s with handoff := self' }.goto t pc) := by
  refine h.keep ht ⟨hclosed, ?_, fun u _ => (hq u).1, fun u => (hq u).2,
    Or.inl ⟨hlock, by simpa using hl⟩⟩ (by rw [hpcBaton, hbaton]) hpc
  intro u hu
  exact goto_pc_of_ne _ pc hu

theorem BatonInv.enterTo (h : BatonInv participants s) (ht : t ∈ participants) {target : Nat}
    (hpc : s.pc t = .inTo target) (allocTarget allocCurrent : Bool) :
    BatonInv participants (enterTo s t target allocTarget allocCurrent) := by
  have htarget : target ∈ participants := by
    have hinv := h.pcs t ht
    simpa only [PcInv, hpc] using hinv
  have hmine : s.Baton t = true := by simp [HandoffState.Baton, hpc]
  have hsame : ∀ v, ({ s with handoff := s.handoff } : HandoffState).permit v = s.permit v ∧
      (s.HasEntry v → ({ s with handoff := s.handoff } : HandoffState).HasEntry v) :=
    fun _ => ⟨rfl, id⟩
  unfold Retrace.enterTo
  rw [h.notClosed]
  simp only [Bool.false_eq_true, if_false]
  by_cases hself : target = t
  · rw [if_pos hself]
    exact h.getEntries ht rfl rfl hsame _ (by simp [hpc, Pc.holdsLock]) hmine (by simp [PcInv])
      (by simp [HandoffState.Baton])
  · rw [if_neg hself]
    cases hget : s.handoff.getEntry target allocTarget with
    | none =>
      exact h.getEntries ht rfl rfl hsame _ (by simp [hpc, Pc.holdsLock]) hmine (by simp [PcInv])
        (by simp [HandoffState.Baton])
    | some self' =>
      obtain ⟨htfound, hlock, hclosed, -⟩ := findEntry_getEntry hget
      have hq := quiet_getEntry hget
      cases hget' : self'.getEntry t allocCurrent with
      | none =>
        simp only [hget']
        exact h.getEntries ht hclosed hlock hq _ (by simp [hpc, Pc.holdsLock]) hmine
          (by simp [PcInv]) (by simp [HandoffState.Baton])
      | some self'' =>
        obtain ⟨hfound, hlock', hclosed', -⟩ := findEntry_getEntry hget'
        have hq' := @quiet_getEntry { s with handoff := self' } self'' t allocCurrent hget'
        simp only [hget']
        refine h.getEntries ht (hclosed'.trans hclosed) (hlock'.trans hlock) ?_ _
          (by simp [hpc, Pc.holdsLock]) hmine ?_ (by simp [HandoffState.Baton])
        · intro v
          exact ⟨(hq' v).1.trans (hq v).1, fun hv => (hq' v).2 ((hq v).2 hv)⟩
        · simp only [PcInv, goto_pc]
          exact ⟨htarget, hself, hfound, (hq' target).2 htfound⟩

theorem BatonInv.startWait (h : BatonInv participants s) (ht : t ∈ participants)
    (hpc : s.pc t = .startWait) {allocTarget allocCurrent : Bool}
    (hs : Retrace.advance s t allocTarget allocCurrent = some s') : BatonInv participants s' := by
  have hinv := h.pcs t ht
  unfold Retrace.advance at hs
  simp only [PcInv, hpc] at hinv hs
  obtain ⟨entry, hfind⟩ := (hasEntry_iff t).mp hinv
  simp only [hfind, Option.bind_eq_bind, Option.bind_some] at hs
  split at hs
  · rename_i hpermit
    simp only [Option.some.injEq] at hs
    subst hs
    refine h.ownEntry ht _ _ (by simp [hpc, Pc.holdsLock]) ?_ (by simp [PcInv])
    simp [HandoffState.Baton, hpc, permit_of_entry hfind, hpermit]
  · simp only [Option.some.injEq] at hs
    subst hs
    refine h.ownEntry ht _ _ (by simp [hpc, Pc.holdsLock]) ?_ (by
      simp only [PcInv, goto_pc, goto_hasEntry, hasEntry_update]
      exact hinv)
    simp only [HandoffState.Baton, hpc, goto_pc, goto_permit, permit_update_self _ hfind,
      permit_of_entry hfind]

theorem BatonInv.loop (h : BatonInv participants s) (ht : t ∈ participants)
    (hpc : s.pc t = .loop) {allocTarget allocCurrent : Bool}
    (hs : Retrace.advance s t allocTarget allocCurrent = some s') : BatonInv participants s' := by
  have hinv := h.pcs t ht
  unfold Retrace.advance at hs
  simp only [PcInv, hpc] at hinv hs
  obtain ⟨entry, hfind⟩ := (hasEntry_iff t).mp hinv
  have hcond : (!s.handoff.closed && !entry.permit) = !entry.permit := by
    rw [h.notClosed]
    rfl
  simp only [hfind, Option.bind_eq_bind, Option.bind_some, hcond] at hs
  split at hs
  · simp only [Option.some.injEq] at hs
    subst hs
    refine h.dropLock ht (by simp [hpc, Pc.holdsLock]) rfl (fun u hu => goto_pc_of_ne _ _ hu)
      (by simp [Pc.holdsLock]) (by simp [HandoffState.Baton, hpc]) ?_
    simp only [PcInv, goto_pc, goto_hasEntry, setLock_hasEntry]
    exact hinv
  · rename_i hpermit
    simp only [Option.some.injEq] at hs
    subst hs
    refine h.ownEntry ht _ _ (by simp [hpc, Pc.holdsLock]) ?_ (by simp [PcInv])
    simp only [Bool.not_eq_true', Bool.not_eq_false] at hpermit
    simp [HandoffState.Baton, hpc, permit_of_entry hfind, hpermit]

theorem BatonInv.gateWait (h : BatonInv participants s) (ht : t ∈ participants)
    (hpc : s.pc t = .gateWait) {allocTarget allocCurrent : Bool}
    (hs : Retrace.advance s t allocTarget allocCurrent = some s') : BatonInv participants s' := by
  have hinv := h.pcs t ht
  unfold Retrace.advance at hs
  simp only [PcInv, hpc] at hinv hs
  obtain ⟨entry, hfind⟩ := (hasEntry_iff t).mp hinv
  simp only [hfind, Option.bind_eq_bind, Option.bind_some] at hs
  split at hs
  · simp at hs
  · simp only [Option.some.injEq] at hs
    subst hs
    refine h.ownEntry ht _ _ (by simp [hpc, Pc.holdsLock]) ?_ (by
      simp only [PcInv, goto_pc, goto_hasEntry, hasEntry_update]
      exact ⟨trivial, hinv⟩)
    simp only [HandoffState.Baton, hpc, goto_pc, goto_permit, permit_update_self _ hfind,
      permit_of_entry hfind]

theorem BatonInv.advance (h : BatonInv participants s) (ht : t ∈ participants)
    {allocTarget allocCurrent : Bool} (hs : advance s t allocTarget allocCurrent = some s') :
    BatonInv participants s' := by
  have hinv := h.pcs t ht
  have hwhole := hs
  unfold Retrace.advance at hs
  cases hpc : s.pc t with
  | running => simp [hpc] at hs
  | lockTo target =>
    simp only [PcInv, hpc] at hinv hs
    split at hs
    · simp only [Option.some.injEq] at hs
      subst hs
      exact h.takeLock ht _ ‹_› rfl (by simp [HandoffState.Baton, hpc]) (by simpa [PcInv] using hinv)
    · simp at hs
  | inTo target =>
    simp only [hpc, Option.some.injEq] at hs
    subst hs
    exact h.enterTo ht hpc _ _
  | clearStale target =>
    simp only [PcInv, hpc, Option.some.injEq] at hinv hs
    subst hs
    obtain ⟨htarget, hne, hentry, htentry⟩ := hinv
    obtain ⟨entry, hfind⟩ := (hasEntry_iff t).mp hentry
    refine h.ownEntry ht _ _ (by simp [hpc, Pc.holdsLock]) (by simp [HandoffState.Baton, hpc]) ?_
    simp only [PcInv, goto_pc, goto_permit, goto_hasEntry, hasEntry_update,
      permit_update_self _ hfind]
    exact ⟨htarget, hne, hentry, htentry, trivial⟩
  | wake target =>
    simp only [hpc, Option.some.injEq] at hs
    subst hs
    exact h.transfer ht hpc
  | startWait => exact h.startWait ht hpc hwhole
  | loop => exact h.loop ht hpc hwhole
  | gateWait => exact h.gateWait ht hpc hwhole
  | lockAgain acquired =>
    simp only [PcInv, hpc] at hinv hs
    split at hs
    · simp only [Option.some.injEq] at hs
      subst hs
      exact h.takeLock ht _ ‹_› rfl (by simp [HandoffState.Baton, hpc]) (by simpa [PcInv] using hinv)
    · simp at hs
  | afterGate acquired =>
    simp only [PcInv, hpc, Option.some.injEq] at hinv hs
    obtain ⟨rfl, hentry⟩ := hinv
    subst hs
    simp only [Retrace.afterGate, Bool.not_true, Bool.and_false, Bool.false_eq_true, if_false]
    exact h.keep ht ⟨rfl, fun u hu => goto_pc_of_ne _ _ hu, fun _ _ => rfl, fun _ hu => hu,
      Or.inl ⟨rfl, by simp [hpc, Pc.holdsLock]⟩⟩ (by simp [HandoffState.Baton, hpc])
      (by simpa [PcInv] using hentry)
  | leave result =>
    simp only [hpc, Option.some.injEq] at hs
    subst hs
    exact h.dropLock ht (by simp [hpc, Pc.holdsLock]) rfl
      (fun u hu => Function.update_of_ne hu _ _) (by simp [HandoffState.finish, Pc.holdsLock])
      (by simp [HandoffState.Baton, HandoffState.finish, hpc])
      (by simp [PcInv, HandoffState.finish])
  | lockClose => simp [PcInv, hpc] at hinv
  | inClose => simp [PcInv, hpc] at hinv
  | leaveClose => simp [PcInv, hpc] at hinv

/-- The events of threads that share the baton: nobody closes, no wait times out, and every
transfer names one of them. -/
def BatonEvent (participants : Finset Nat) : HandoffEvent → Prop
  | .call t target => t ∈ participants ∧ target ∈ participants
  | .advance t _ _ => t ∈ participants
  | .callClose _ => False
  | .timeout _ => False

theorem BatonInv.call (h : BatonInv participants s) (ht : t ∈ participants) {target : Nat}
    (htarget : target ∈ participants) (hpc : s.pc t = .running) :
    BatonInv participants (callTo s t target) := by
  have hfinish : ∀ result, BatonInv participants (s.finish t result) := by
    intro result
    exact h.keep ht ⟨rfl, fun u hu => Function.update_of_ne hu _ _, fun _ _ => rfl,
      fun _ hu => hu, Or.inl ⟨rfl, by simp [HandoffState.finish, hpc]⟩⟩
      (by simp [HandoffState.Baton, HandoffState.finish, hpc])
      (by simp [PcInv, HandoffState.finish])
  unfold callTo
  split
  · exact hfinish _
  · split
    · exact hfinish _
    · exact h.keep ht ⟨rfl, fun u hu => goto_pc_of_ne _ _ hu, fun _ _ => rfl, fun _ hu => hu,
        Or.inl ⟨rfl, by simp [hpc, Pc.holdsLock]⟩⟩ (by simp [HandoffState.Baton, hpc])
        (by simpa [PcInv] using htarget)

theorem BatonInv.step (h : BatonInv participants s) {event : HandoffEvent}
    (hevent : BatonEvent participants event) (hs : handoffStep s event = some s') :
    BatonInv participants s' := by
  cases event with
  | call t target =>
    simp only [handoffStep] at hs
    split at hs
    · simp only [Option.some.injEq] at hs
      subst hs
      exact h.call hevent.1 hevent.2 ‹_›
    · simp at hs
  | callClose t => exact hevent.elim
  | advance t allocTarget allocCurrent => exact h.advance hevent hs
  | timeout t => exact hevent.elim

theorem BatonInv.run (events : List HandoffEvent)
    (hevents : ∀ event ∈ events, BatonEvent participants event)
    (h : BatonInv participants s) (hs : handoffRun events s = some s') :
    BatonInv participants s' := by
  induction events generalizing s with
  | nil =>
    simp only [handoffRun, Option.some.injEq] at hs
    exact hs ▸ h
  | cons event events ih =>
    simp only [handoffRun, Option.bind_eq_bind, Option.bind_eq_some_iff] at hs
    obtain ⟨next, hstep, hrest⟩ := hs
    exact ih (fun e he => hevents e (List.mem_cons_of_mem _ he))
      (h.step (hevents event List.mem_cons_self) hstep) hrest

/-- One participant runs; the others are parked without a permit. The runner may have an
entry, and in it a permit from an earlier transfer. -/
structure BatonStart (participants : Finset Nat) (s : HandoffState) : Prop where
  notClosed : s.handoff.closed = false
  lockFree : s.handoff.lock = none
  runner : ∃ r ∈ participants, s.pc r = .running ∧
    ∀ t ∈ participants, t ≠ r → (s.pc t = .gateWait ∨ s.pc t = .lockAgain true) ∧
      s.HasEntry t ∧ s.permit t = false

theorem BatonStart.inv (h : BatonStart participants s) : BatonInv participants s := by
  obtain ⟨r, hr, hrun, hparked⟩ := h.runner
  refine ⟨h.notClosed, ?_, ?_, ⟨r, ⟨hr, by simp [HandoffState.Baton, hrun]⟩, ?_⟩, ?_⟩
  · intro t ht
    rw [h.lockFree]
    by_cases htr : t = r
    · simp [htr, hrun, Pc.holdsLock]
    · rcases (hparked t ht htr).1 with hpc | hpc <;> simp [hpc, Pc.holdsLock]
  · intro t ht
    rw [h.lockFree] at ht
    cases ht
  · rintro t ⟨ht, hb⟩
    by_contra htr
    obtain ⟨hpc, -, hpermit⟩ := hparked t ht htr
    rcases hpc with hpc | hpc <;> simp [HandoffState.Baton, hpc, hpermit] at hb
  · intro t ht
    by_cases htr : t = r
    · simp [PcInv, htr, hrun]
    · obtain ⟨hpc, hentry, -⟩ := hparked t ht htr
      rcases hpc with hpc | hpc <;> simpa [PcInv, hpc] using hentry

/-- The thread is inside `to`, past the point where it gave the internal lock away to wait. -/
def HandoffState.Parked (s : HandoffState) (t : Nat) : Prop :=
  s.pc t = .gateWait ∨ ∃ acquired, s.pc t = .lockAgain acquired

/-- Whenever the internal lock is free, exactly one participant runs or is parked with a
permit it has not consumed. -/
theorem threadHandoff_single_baton (participants : Finset Nat) (s s' : HandoffState)
    (events : List HandoffEvent) (hstart : BatonStart participants s)
    (hevents : ∀ event ∈ events, BatonEvent participants event)
    (hrun : handoffRun events s = some s') (hfree : s'.handoff.lock = none) :
    ∃! t, t ∈ participants ∧
      (¬ s'.Parked t ∨ (s'.Parked t ∧ s'.permit t = true)) := by
  have hinv := hstart.inv.run events hevents hrun
  have hiff : ∀ t ∈ participants, (¬ s'.Parked t ∨ (s'.Parked t ∧ s'.permit t = true)) ↔
      s'.Baton t = true := by
    intro t ht
    have hl : (s'.pc t).holdsLock = false := by
      rw [Bool.eq_false_iff]
      intro hl
      rw [(hinv.lockHolder t ht).mp hl] at hfree
      cases hfree
    unfold HandoffState.Parked HandoffState.Baton
    cases hpc : s'.pc t <;> simp_all [Pc.holdsLock]
  obtain ⟨t, ⟨ht, hb⟩, hone⟩ := hinv.one
  refine ⟨t, ⟨ht, (hiff t ht).mpr hb⟩, ?_⟩
  rintro u ⟨hu, hcond⟩
  exact hone u ⟨hu, (hiff u hu).mp hcond⟩

end steps

def pingStart : HandoffState where
  handoff := ⟨none, false, false, [⟨2, false, true, 0⟩]⟩
  pc := fun t => if t = 2 then .gateWait else .running
  result := fun _ => none

/-- Thread 1 transfers to thread 2 and parks; thread 2 passes its gate. -/
def pingEvents : List HandoffEvent :=
  .call 1 2 :: List.replicate 6 (.advance 1 true true) ++ [.advance 2 true true]

theorem threadHandoff_single_baton_ping :
    ∃! t, t ∈ ({1, 2} : Finset Nat) ∧
      (¬ ((handoffRun pingEvents pingStart).get (by decide)).Parked t ∨
        (((handoffRun pingEvents pingStart).get (by decide)).Parked t ∧
          ((handoffRun pingEvents pingStart).get (by decide)).permit t = true)) := by
  refine threadHandoff_single_baton {1, 2} pingStart _ pingEvents ⟨rfl, rfl, 1, by decide, rfl, ?_⟩
    ?_ (Option.some_get _).symm (by decide)
  · intro t ht hne
    have ht2 : t = 2 := by
      simp only [Finset.mem_insert, Finset.mem_singleton] at ht
      omega
    subst ht2
    exact ⟨Or.inl rfl, rfl, rfl⟩
  · intro event hevent
    have hcases : event = .call 1 2 ∨ event = .advance 1 true true ∨
        event = .advance 2 true true := by
      simpa [pingEvents] using hevent
    rcases hcases with rfl | rfl | rfl <;> simp [BatonEvent]

end Retrace
