import Retrace.TableRuns

/-! The sizes of new and grown tables, in words that could wrap. -/

set_option autoImplicit false

namespace Retrace
open RobinHood

/-- The doubling loop with its product taken as a word. -/
def wordCapacityLoop (p : Platform) (minCapacity : Nat) : Nat → Nat → Option (Option Nat)
  | 0, _ => none
  | fuel + 1, capacity =>
    if capacity < minCapacity then
      if capacity > p.sizeMax / 2 then some none
      else wordCapacityLoop p minCapacity fuel (capacity * 2 % 2 ^ p.bits)
    else some (some capacity)

structure SizesFit (p : Platform) (minCapacity : Nat) (t : IdentityHashTable) : Prop where
  power : ∃ e, identityHashCapacity p t = 2 ^ e
  capacity_ge : max 16 minCapacity ≤ identityHashCapacity p t
  mask_eq : t.mask = identityHashCapacity p t - 1
  bytes : identityHashCapacity p t * p.wordBytes < 2 ^ p.bits
  product : identityHashCapacity p t * 5 < 2 ^ p.bits
  resizeAt_eq : t.resizeAt = identityHashCapacity p t * 5 / 8
  resizeAt_pos : 0 < t.resizeAt
  resizeAt_lt : t.resizeAt < identityHashCapacity p t

def doubledCapacity (p : Platform) (interp : IdentityHashes) : Nat :=
  match interp.identityHashes with
  | none => identityHashMinCapacity
  | some old => identityHashCapacity p old * 2

/-- The used words that a growth has to move. -/
def movedEntries (interp : IdentityHashes) : Nat :=
  match interp.identityHashes with
  | none => 0
  | some old => old.keys.countP (fun entry => entry != 0)

/-- A growth fails and the old table stays in place, or it installs one of twice the capacity with
all entries moved and room for one more. -/
def GrowsTwofold (p : Platform) (interp : IdentityHashes) (status : Int)
    (interp' : IdentityHashes) : Prop :=
  status = -1 ∧ interp'.identityHashes = interp.identityHashes ∨
    status = 0 ∧ ∃ t, interp'.identityHashes = some t ∧
      identityHashCapacity p t = doubledCapacity p interp ∧ t.used = movedEntries interp ∧
      movedEntries interp + 1 ≤ t.resizeAt

section sizes
variable {p : Platform}

theorem wordCapacityLoop_eq (minCapacity fuel capacity : Nat) :
    wordCapacityLoop p minCapacity fuel capacity =
      newCapacityLoop p minCapacity fuel capacity := by
  induction fuel generalizing capacity with
  | zero => rfl
  | succ fuel ih =>
    unfold wordCapacityLoop newCapacityLoop
    split_ifs with hlt hbig
    · rfl
    · have hpos := Nat.two_pow_pos p.bits
      have hfit : capacity * 2 < 2 ^ p.bits := by
        unfold Platform.sizeMax at hbig
        omega
      rw [Nat.mod_eq_of_lt hfit, ih]
    · rfl

theorem wordCapacityLoop_ends (minCapacity : Nat) :
    ∃ r, wordCapacityLoop p minCapacity p.bits identityHashMinCapacity = some r := by
  have hbits : 4 < p.bits := by rcases p.bits_cases with h | h <;> omega
  obtain ⟨r, hr, -⟩ := newCapacityLoop_spec (p := p) minCapacity p.bits 4 (by omega) hbits
  have hstart : identityHashMinCapacity = 2 ^ 4 := rfl
  exact ⟨r, by rw [wordCapacityLoop_eq, hstart, hr]⟩

theorem TableCore.sizesFit {t : IdentityHashTable} (h : TableCore p t) {minCapacity : Nat}
    (hmin : minCapacity ≤ t.mask + 1) : SizesFit p minCapacity t := by
  have hfit := capacity_fits h.isPow h.bytes
  have hcapacity := h.capacity_eq
  have hbytes := h.bytes
  have hpos := Nat.two_pow_pos p.bits
  have hsixteen : 16 ≤ t.mask + 1 := h.min_capacity
  have hresize := h.resizeAt_eq
  unfold Platform.sizeMax at hbytes
  constructor
  case power => rw [hcapacity]; exact h.isPow
  case resizeAt_eq => rw [hcapacity]; exact hresize
  case bytes => rw [hcapacity]; omega
  all_goals omega

theorem newIdentityHashTable_fits (minCapacity : Nat) (malloc : RawMalloc) :
    ∃ r malloc', newIdentityHashTable p minCapacity malloc = some (r, malloc') ∧
      ∀ t, r = some t → SizesFit p minCapacity t := by
  obtain ⟨r, malloc', hrun, hspec⟩ := newIdentityHashTable_spec (p := p) minCapacity malloc
  refine ⟨r, malloc', hrun, ?_⟩
  intro t ht
  obtain ⟨hcore, -, hmin, -⟩ := hspec t ht
  exact hcore.sizesFit hmin

theorem Refines.movedEntries {interp : IdentityHashes} {m : HashMap} (h : Refines p interp m) :
    movedEntries interp = m.keys.card := by
  unfold Retrace.movedEntries
  cases hold : interp.identityHashes with
  | none =>
    unfold Refines at h
    rw [hold] at h
    dsimp only at h ⊢
    rw [h, Finmap.keys_empty, Finset.card_empty]
  | some old =>
    obtain ⟨hok, hm⟩ := h.table hold
    dsimp only
    rw [← hok.toTableCore.used_eq_card hm, hok.used_eq, occupied_countP hok.keys_length]

theorem Refines.doubledCapacity {interp : IdentityHashes} {m : HashMap} (h : Refines p interp m) :
    doubledCapacity p interp = grownCapacity interp := by
  unfold Retrace.doubledCapacity grownCapacity
  cases hold : interp.identityHashes with
  | none => rfl
  | some old =>
    dsimp only
    rw [(h.table hold).1.toTableCore.capacity_eq]

/-- With the entries counted as `used`, the threshold of the doubled table is above them. -/
theorem growIdentityHashTable_twofold {interp : IdentityHashes} {m : HashMap}
    (h : Refines p interp m) : ∃ status interp',
      growIdentityHashTable p interp = some (status, interp') ∧
      GrowsTwofold p interp status interp' := by
  obtain ⟨status, interp', hrun, ⟨rfl, hkeep⟩ | ⟨rfl, t, ht, hcore, hm, hroom, hgrown⟩⟩ :=
    growIdentityHashTable_spec h
  · exact ⟨-1, interp', hrun, Or.inl ⟨rfl, hkeep⟩⟩
  · have hmoved : t.used = movedEntries interp := by
      rw [hcore.used_eq_card hm, h.movedEntries]
    have hcapacity : identityHashCapacity p t = doubledCapacity p interp := by
      rw [hcore.capacity_eq, h.doubledCapacity, hgrown]
    exact ⟨0, interp', hrun, Or.inr ⟨rfl, t, ht, hcapacity, hmoved, by omega⟩⟩

/-- For every minimum the doubling ends, no product of a new table's sizes wraps, and a growth
either leaves the old table in place or doubles it. -/
theorem tableSizes_fit (minCapacity : Nat) (malloc : RawMalloc) {interp : IdentityHashes}
    (h : TableReached p interp) :
    (∃ r, wordCapacityLoop p minCapacity p.bits identityHashMinCapacity = some r) ∧
    (∃ r malloc', newIdentityHashTable p minCapacity malloc = some (r, malloc') ∧
      ∀ t, r = some t → SizesFit p minCapacity t) ∧
    ∃ status interp', growIdentityHashTable p interp = some (status, interp') ∧
      GrowsTwofold p interp status interp' := by
  obtain ⟨m, href⟩ := h.refines
  exact ⟨wordCapacityLoop_ends minCapacity, newIdentityHashTable_fits minCapacity malloc,
    growIdentityHashTable_twofold href⟩

end sizes

theorem tableSizes_fit_one : ∃ interp : IdentityHashes, usedCount interp = 1 ∧
    (∃ r, wordCapacityLoop ⟨true, true⟩ 17 64 16 = some r) ∧
    (∃ r malloc', newIdentityHashTable ⟨true, true⟩ 17 interp.malloc = some (r, malloc') ∧
      ∀ t, r = some t → SizesFit ⟨true, true⟩ 17 t) ∧
    ∃ status interp', growIdentityHashTable ⟨true, true⟩ interp = some (status, interp') ∧
      GrowsTwofold ⟨true, true⟩ interp status interp' := by
  obtain ⟨interp, t, hreached, ht, hone⟩ := tableReached_one
  refine ⟨interp, ?_, tableSizes_fit 17 interp.malloc hreached⟩
  rw [usedCount, ht]
  exact hone

end Retrace
