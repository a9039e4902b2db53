import Retrace.IdentityHashLayout
import Mathlib.Data.Finmap

/-! Every operation of the identity hash table against a finite map from addresses. -/

set_option autoImplicit false

namespace Retrace
open RobinHood

/-- A table with room: what the insertion loop needs, also in the middle of a rehash. -/
structure TableCore (p : Platform) (t : IdentityHashTable) : Prop extends Layout p t where
  ordered : Ordered (t.mask + 1) (home p t.mask) (slots p t)
  used_eq : t.used = occupied (t.mask + 1) (slots p t)
  resizeAt_eq : t.resizeAt = (t.mask + 1) * 5 / 8
  min_capacity : identityHashMinCapacity ≤ t.mask + 1
  bytes : (t.mask + 1) * p.wordBytes ≤ p.sizeMax

structure TableOk (p : Platform) (t : IdentityHashTable) : Prop extends TableCore p t where
  used_le : t.used ≤ t.resizeAt

abbrev HashMap := Finmap (fun _ : Nat => Int)

def Contents (p : Platform) (t : IdentityHashTable) (m : HashMap) : Prop :=
  ∀ k v, Holds (t.mask + 1) (slots p t) k v ↔ m.lookup k = some v

/-- The abstract map a state stands for: no table stands for the empty one. -/
def Refines (p : Platform) (interp : IdentityHashes) (m : HashMap) : Prop :=
  match interp.identityHashes with
  | none => m = ∅
  | some t => TableOk p t ∧ Contents p t m

def grownCapacity (interp : IdentityHashes) : Nat :=
  match interp.identityHashes with
  | none => identityHashMinCapacity
  | some table => (table.mask + 1) * 2

section capacity
variable {p : Platform}

/-- On 32 bits the byte guard alone would let `capacity * 5` wrap; a power of two below
the guard is at most `2 ^ 29`. -/
theorem capacity_fits {c : Nat} (hpow : ∃ e, c = 2 ^ e) (h : c * p.wordBytes ≤ p.sizeMax) :
    c * 5 < 2 ^ p.bits ∧ c * 2 < 2 ^ p.bits := by
  obtain ⟨e, rfl⟩ := hpow
  unfold Platform.sizeMax Platform.wordBytes Platform.bits at *
  cases hw : p.wide <;> simp only [hw, if_true, Bool.false_eq_true, if_false] at *
  · have hlt : 2 ^ e < 2 ^ 30 := by omega
    have he : e < 30 := (Nat.pow_lt_pow_iff_right (by omega)).mp hlt
    have hle : 2 ^ e ≤ 2 ^ 29 := Nat.pow_le_pow_right (by omega) (by omega)
    omega
  · omega

theorem Layout.isPow {t : IdentityHashTable} (h : Layout p t) : ∃ e, t.mask + 1 = 2 ^ e :=
  ⟨h.pow.choose, h.pow.choose_spec.1⟩

/-- The doubling loop ends before its fuel does: with the power of two that it starts from or the
first one that is large enough, or with NULL where that is past the range. -/
theorem newCapacityLoop_spec (minCapacity fuel a : Nat) (hf : p.bits ≤ a + fuel)
    (ha : a < p.bits) :
    ∃ r, newCapacityLoop p minCapacity fuel (2 ^ a) = some r ∧
      (r = none → p.sizeMax / 2 + 1 < minCapacity) ∧
      ∀ c, r = some c → minCapacity ≤ c ∧ (c = 2 ^ a ∨ c < 2 * minCapacity) ∧
        ∃ e, c = 2 ^ e ∧ a ≤ e ∧ e < p.bits := by
  induction fuel generalizing a with
  | zero => omega
  | succ fuel ih =>
    unfold newCapacityLoop
    by_cases hlt : 2 ^ a < minCapacity
    · simp only [hlt, if_true]
      by_cases hbig : 2 ^ a > p.sizeMax / 2
      · simp only [hbig, if_true]
        exact ⟨none, rfl, fun _ => by omega, by simp⟩
      · simp only [hbig, if_false]
        have hnext : a + 1 < p.bits := by
          have hle : 2 ^ a ≤ p.sizeMax / 2 := by omega
          have hpow : 2 ^ (a + 1) < 2 ^ p.bits := by
            have hpos := Nat.two_pow_pos p.bits
            unfold Platform.sizeMax at hle
            rw [Nat.pow_succ]
            omega
          exact (Nat.pow_lt_pow_iff_right (by omega)).mp hpow
        obtain ⟨r, hr, hnone, hspec⟩ := ih (a + 1) (by omega) hnext
        refine ⟨r, ?_, hnone, ?_⟩
        · rw [← hr, Nat.pow_succ]
        · intro c hc
          obtain ⟨hmin, hfirst, e, he, hae, heb⟩ := hspec c hc
          refine ⟨hmin, Or.inr ?_, e, he, by omega, heb⟩
          rw [Nat.pow_succ] at hfirst
          omega
    · simp only [hlt, if_false]
      refine ⟨_, rfl, by simp, ?_⟩
      rintro c hc
      simp only [Option.some.injEq] at hc
      subst hc
      exact ⟨by omega, Or.inl rfl, a, rfl, Nat.le_refl a, ha⟩

theorem pow_of_lt_double {e f : Nat} (hle : 2 ^ e ≤ 2 ^ f) (hlt : 2 ^ f < 2 * 2 ^ e) :
    2 ^ f = 2 ^ e := by
  rw [← Nat.pow_succ'] at hlt
  have hef : e ≤ f := (Nat.pow_le_pow_iff_right (by omega)).mp hle
  have hfe : f < e + 1 := (Nat.pow_lt_pow_iff_right (by omega)).mp hlt
  rw [Nat.le_antisymm (Nat.le_of_lt_succ hfe) hef]

theorem TableCore.empty {t : IdentityHashTable} {e : Nat} (hmask : t.mask + 1 = 2 ^ e)
    (he4 : 4 ≤ e) (heb : e < p.bits) (hbytes : 2 ^ e * p.wordBytes ≤ p.sizeMax)
    (hused : t.used = 0) (hresize : t.resizeAt = identityHashResizeAt p (2 ^ e))
    (hkeys : t.keys = List.replicate (2 ^ e) 0) (hvalues : t.values.length = 2 ^ e) :
    TableCore p t ∧ ∀ i, slots p t i = none := by
  have hkey : ∀ i, t.key i = 0 := by
    intro i
    unfold IdentityHashTable.key
    rw [hkeys, List.getD_eq_getElem?_getD, List.getElem?_replicate]
    split <;> rfl
  have hslots : ∀ i, slots p t i = none := fun i => (slots_eq_none_iff i).mpr (hkey i)
  have hlayout : Layout p t := by
    refine ⟨⟨e, hmask, Nat.le_of_lt heb⟩, by simp [hkeys, hmask], by simp [hvalues, hmask], ?_⟩
    intro i _ hne
    exact absurd (hkey i) hne
  refine ⟨⟨hlayout, ⟨?_, ?_⟩, ?_, ?_, ?_, ?_⟩, hslots⟩
  · intro i _
    simp [rank, hslots]
  · intro i _ j _ k v w hs
    rw [hslots] at hs
    simp at hs
  · simp [occupied, hslots, hused]
  · have hfive := (capacity_fits ⟨e, rfl⟩ hbytes).1
    rw [hresize, hmask, identityHashResizeAt, Nat.mod_eq_of_lt hfive]
  · rw [hmask]
    exact Nat.pow_le_pow_right (n := 2) (by omega) he4
  · rw [hmask]
    exact hbytes

theorem newIdentityHashTable_spec (minCapacity : Nat) (m : RawMalloc) :
    ∃ r m', newIdentityHashTable p minCapacity m = some (r, m') ∧
      ∀ t, r = some t → TableCore p t ∧ t.used = 0 ∧ minCapacity ≤ t.mask + 1 ∧
        (t.mask + 1 = identityHashMinCapacity ∨ t.mask + 1 < 2 * minCapacity) ∧
        ∀ i, slots p t i = none := by
  have hbits : 4 < p.bits := by rcases p.bits_cases with h | h <;> omega
  obtain ⟨r, hr, -, hspec⟩ := newCapacityLoop_spec (p := p) minCapacity p.bits 4 (by omega) hbits
  have hstart : identityHashMinCapacity = 2 ^ 4 := rfl
  unfold newIdentityHashTable
  rw [hstart, hr]
  cases r with
  | none => exact ⟨none, m, rfl, by simp⟩
  | some c =>
    obtain ⟨hmin, hfirst, e, rfl, he4, heb⟩ := hspec c rfl
    have hpos := Nat.two_pow_pos e
    simp only [Option.bind_eq_bind, Option.bind_some]
    by_cases hbytes : 2 ^ e > p.sizeMax / p.wordBytes
    · simp only [hbytes, if_true]
      exact ⟨none, m, rfl, by simp⟩
    · simp only [hbytes, if_false]
      have hwb : 0 < p.wordBytes := by unfold Platform.wordBytes; split <;> omega
      have hfit : 2 ^ e * p.wordBytes ≤ p.sizeMax :=
        (Nat.le_div_iff_mul_le hwb).mp (by omega)
      have hmask : 2 ^ e - 1 + 1 = 2 ^ e := by omega
      unfold rawMalloc
      split_ifs <;> first | exact ⟨none, _, rfl, by simp⟩ | skip
      refine ⟨_, _, rfl, ?_⟩
      rintro t ht
      simp only [Option.some.injEq] at ht
      have hm : t.mask + 1 = 2 ^ e := by rw [← ht]; exact hmask
      obtain ⟨hcore, hslots⟩ := TableCore.empty (t := t) hm he4 heb hfit (by rw [← ht])
        (by rw [← ht]) (by rw [← ht]) (by rw [← ht]; simp)
      exact ⟨hcore, by rw [← ht], by rw [hm]; exact hmin, by rw [hm]; exact hfirst, hslots⟩

end capacity

section operations
variable {p : Platform}

theorem TableCore.used_eq_card {t : IdentityHashTable} {m : HashMap} (h : TableCore p t)
    (hm : Contents p t m) : t.used = m.keys.card := by
  rw [h.used_eq, h.ordered.unique.card_eq_occupied m.keys]
  intro k
  rw [Finmap.mem_keys, Finmap.mem_iff]
  exact exists_congr fun v => (hm k v).symm

theorem insertKnownRoom_spec {t : IdentityHashTable} {m : HashMap} (h : TableCore p t)
    (hm : Contents p t m) (hroom : t.used < t.mask + 1) {key : Nat} (hk : ObjectKey p key)
    (value : Int) :
    ∃ t', identityHashTableInsertKnownRoom p t key value = some t' ∧ TableCore p t' ∧
      SameBlock t t' ∧ Contents p t' (m.insert key value) ∧ t'.used ≤ t.used + 1 := by
  have hhome := home_lt (p := p) h.isPow
  rw [h.used_eq] at hroom
  obtain ⟨s', filled, hplace, hord, hholds, hocc⟩ :=
    place_spec hhome h.ordered hroom key value
  obtain ⟨t', hrun, rfl, hlayout, hsame, hused⟩ :=
    insertKnownRoomLoop_place (t.mask + 1) h.toLayout hk value
      (ahead_zero (hhome key)).symm (by omega) hplace
  refine ⟨t', hrun, ⟨hlayout, ?_, ?_, ?_, ?_, ?_⟩, hsame, ?_, ?_⟩
  · rw [hsame.mask]
    exact hord
  · rw [hused, h.used_eq, hsame.mask, hocc]
  · rw [hsame.resizeAt, hsame.mask, h.resizeAt_eq]
  · rw [hsame.mask]
    exact h.min_capacity
  · rw [hsame.mask]
    exact h.bytes
  · intro k v
    rw [hsame.mask, hholds]
    by_cases hkk : k = key
    · subst hkk
      simp [Finmap.lookup_insert, eq_comm]
    · simp [Finmap.lookup_insert_of_ne _ hkk, hkk, hm k v]
  · rw [hused]
    have := Bool.toNat_le filled
    omega

theorem probe_spec {t : IdentityHashTable} {m : HashMap} (h : TableCore p t)
    (hm : Contents p t m) (hroom : t.used < t.mask + 1) {key : Nat} (hk : ObjectKey p key) :
    (∃ i < t.mask + 1, probe p t key = some (some i) ∧ slots p t i = some (key, t.value i) ∧
      m.lookup key = some (t.value i)) ∨
    (probe p t key = some none ∧ m.lookup key = none) := by
  have hhome := home_lt (p := p) h.isPow
  have hprobe : probe p t key = search (t.mask + 1) (home p t.mask) (slots p t) key
      (t.mask + 1) (home p t.mask key) 0 := probeLoop_eq_search h.toLayout hk _ _ _ (hhome key)
  rw [h.used_eq] at hroom
  rw [hprobe]
  obtain ⟨i, hi, v, hrun, hs⟩ | ⟨hrun, habs⟩ := search_spec hhome h.ordered hroom key
  · have hv : v = t.value i := by
      unfold slots at hs
      split at hs
      · simp at hs
      · simp only [Option.some.injEq, Prod.mk.injEq] at hs
        exact hs.2.symm
    subst hv
    exact Or.inl ⟨i, hi, hrun, hs, (hm key _).mp ⟨i, hi, hs⟩⟩
  · refine Or.inr ⟨hrun, ?_⟩
    cases hlook : m.lookup key with
    | none => rfl
    | some v => exact absurd ((hm key v).mpr hlook) (habs v)

theorem backshift_removes {t : IdentityHashTable} {m : HashMap} (h : TableCore p t)
    (hm : Contents p t m) (hroom : t.used < t.mask + 1) {key i : Nat} {v : Int}
    (hi : i < t.mask + 1) (hs : slots p t i = some (key, v)) :
    ∃ t', backshiftLoop p (t.mask + 1) { t with used := t.used - 1 } i = some t' ∧
      TableCore p t' ∧ SameBlock t t' ∧ Contents p t' (m.erase key) ∧ t'.used ≤ t.used := by
  have hhome := home_lt (p := p) h.isPow
  have hroom' := h.used_eq ▸ hroom
  obtain ⟨s', hshift, hord, hholds, hocc⟩ := remove_spec hhome h.ordered hroom' hi hs
  have hlayout : Layout p { t with used := t.used - 1 } :=
    ⟨h.pow, h.keys_length, h.values_length, h.stored⟩
  obtain ⟨t', hrun, rfl, hlayout', hsame, hused⟩ :=
    backshiftLoop_backshift (t.mask + 1) hlayout hi hshift
  have hmask : t'.mask = t.mask := hsame.mask
  have hresize : t'.resizeAt = t.resizeAt := hsame.resizeAt
  have hused' : t'.used = t.used - 1 := hused
  refine ⟨t', hrun, ⟨hlayout', ?_, ?_, ?_, ?_, ?_⟩, ⟨hsame.address, hmask, hresize⟩, ?_, ?_⟩
  · rw [hmask]
    exact hord
  · rw [hused', h.used_eq, hmask, ← hocc, Nat.add_sub_cancel]
  · rw [hresize, hmask, h.resizeAt_eq]
  · rw [hmask]
    exact h.min_capacity
  · rw [hmask]
    exact h.bytes
  · intro k w
    rw [hmask, hholds, hm k w]
    by_cases hkk : k = key
    · subst hkk
      simp [Finmap.lookup_erase]
    · simp [Finmap.lookup_erase_ne hkk, hkk]
  · omega

/-- Rehashing: the new table holds the entries of the slots already visited, at most one for each,
so there is room to the end. -/
theorem rehashLoop_spec {old : IdentityHashTable} (hold : TableCore p old) {visited rest : List Nat}
    (hlt : ∀ i ∈ visited ++ rest, i < old.mask + 1) {new : IdentityHashTable} {m : HashMap}
    (hnew : TableCore p new) (hm : Contents p new m)
    (hroom : new.used + rest.length < new.mask + 1)
    (hvisited : ∀ k v, m.lookup k = some v ↔ ∃ i ∈ visited, slots p old i = some (k, v)) :
    ∃ new' m', rehashLoop p old rest new = some new' ∧ TableCore p new' ∧ SameBlock new new' ∧
      Contents p new' m' ∧ new'.used ≤ new.used + rest.length ∧
      ∀ k v, m'.lookup k = some v ↔ ∃ i ∈ visited ++ rest, slots p old i = some (k, v) := by
  induction rest generalizing visited new m with
  | nil =>
    rw [List.append_nil]
    exact ⟨new, m, rfl, hnew, ⟨rfl, rfl, rfl⟩, hm, Nat.le_refl _, hvisited⟩
  | cons i rest ih =>
    have happend : visited ++ i :: rest = visited ++ [i] ++ rest := by simp
    rw [happend] at hlt ⊢
    have hin : i < old.mask + 1 := hlt i (by simp)
    rw [List.length_cons] at hroom ⊢
    unfold rehashLoop
    by_cases hz : old.key i = 0
    · have hnone : slots p old i = none := (slots_eq_none_iff _).mpr hz
      obtain ⟨new', m', hrun, hcore, hsame, hm', hused, hlook⟩ :=
        ih hlt hnew hm (by omega) (by
          intro k v
          rw [hvisited]
          simp [hnone])
      rw [if_neg (fun hne => hne hz)]
      exact ⟨new', m', hrun, hcore, hsame, hm', by omega, hlook⟩
    · obtain ⟨key, hk, hs, -, hkey, -, -⟩ := hold.toLayout.decode hin hz
      obtain ⟨mid, hins, hcore, hsame, hm', hused⟩ :=
        insertKnownRoom_spec hnew hm (by omega) hk (old.value i)
      have hinserted : ∀ k v, (m.insert key (old.value i)).lookup k = some v ↔
          ∃ j ∈ visited ++ [i], slots p old j = some (k, v) := by
        intro k v
        by_cases hkk : k = key
        · subst hkk
          rw [Finmap.lookup_insert, Option.some.injEq]
          constructor
          · rintro rfl
            exact ⟨i, by simp, hs⟩
          · rintro ⟨j, hj, hsj⟩
            have hij := hold.ordered.unique i hin j (hlt j (List.mem_append_left _ hj)) _ _ _ hs hsj
            subst hij
            rw [hs] at hsj
            simpa using hsj
        · rw [Finmap.lookup_insert_of_ne _ hkk, hvisited]
          simp [hs, Ne.symm hkk]
      obtain ⟨new', m', hrun, hcore', hsame', hm'', hused', hlook⟩ :=
        ih hlt hcore hm' (by rw [hsame.mask]; omega) hinserted
      rw [if_pos hz, hkey, hins, Option.bind_eq_bind, Option.bind_some]
      exact ⟨new', m', hrun, hcore', hsame.trans hsame', hm'', by omega, hlook⟩

theorem contents_empty {t : IdentityHashTable} (h : ∀ i, slots p t i = none) : Contents p t ∅ := by
  intro k v
  simp [Holds, h]

theorem TableCore.capacity_eq {t : IdentityHashTable} (h : TableCore p t) :
    identityHashCapacity p t = t.mask + 1 := by
  have hfit := capacity_fits h.isPow h.bytes
  exact Nat.mod_eq_of_lt (by omega)

theorem growIdentityHashTable_spec {interp : IdentityHashes} {m : HashMap}
    (h : Refines p interp m) :
    ∃ status interp', growIdentityHashTable p interp = some (status, interp') ∧
      ((status = -1 ∧ interp'.identityHashes = interp.identityHashes) ∨
        (status = 0 ∧ ∃ t, interp'.identityHashes = some t ∧ TableCore p t ∧ Contents p t m ∧
          t.used + 1 ≤ t.resizeAt ∧ t.mask + 1 = grownCapacity interp)) := by
  have hstart : identityHashMinCapacity = 2 ^ 4 := rfl
  unfold grownCapacity
  unfold growIdentityHashTable
  unfold Refines at h
  cases htable : interp.identityHashes with
  | none =>
    simp only [htable] at h
    subst h
    obtain ⟨r, malloc, hnew, hspec⟩ :=
      newIdentityHashTable_spec (p := p) identityHashMinCapacity interp.malloc
    simp only [hnew, Option.bind_eq_bind, Option.bind_some]
    cases r with
    | none => exact ⟨-1, _, rfl, Or.inl ⟨rfl, rfl⟩⟩
    | some t =>
      obtain ⟨hcore, hused, hmin, hfirst, hempty⟩ := hspec t rfl
      refine ⟨0, _, rfl, Or.inr ⟨rfl, t, rfl, hcore, contents_empty hempty, ?_, ?_⟩⟩
      · rw [hused, hcore.resizeAt_eq]
        unfold identityHashMinCapacity at hmin
        omega
      · obtain ⟨f, hf⟩ := hcore.isPow
        rw [hf, hstart] at hmin hfirst
        rw [hf, hstart]
        exact pow_of_lt_double hmin (by omega)
  | some old =>
    simp only [htable] at h
    obtain ⟨hok, hm⟩ := h
    have hfit := capacity_fits hok.isPow hok.bytes
    have hdouble : (old.mask + 1) * 2 % 2 ^ p.bits = (old.mask + 1) * 2 :=
      Nat.mod_eq_of_lt hfit.2
    simp only [hok.toTableCore.capacity_eq, hdouble]
    have hgt : ¬ (old.mask + 1) * 2 ≤ old.mask + 1 := by omega
    simp only [hgt, if_false]
    obtain ⟨r, malloc, hnew, hspec⟩ :=
      newIdentityHashTable_spec (p := p) ((old.mask + 1) * 2) interp.malloc
    simp only [hnew, Option.bind_eq_bind, Option.bind_some]
    cases r with
    | none => exact ⟨-1, _, rfl, Or.inl ⟨rfl, rfl⟩⟩
    | some new =>
      obtain ⟨hcore, hused, hmin, hfirst, hempty⟩ := hspec new rfl
      obtain ⟨t, m', hrun, hcore', hsame, hcontents, -, hlook⟩ :=
        @rehashLoop_spec p old hok.toTableCore [] (List.range (old.mask + 1))
          (fun i hi => List.mem_range.mp hi) new ∅ hcore (contents_empty hempty)
          (by rw [List.length_range, hused]; omega) (by simp)
      have hmm : m' = m := by
        apply Finmap.ext_lookup
        intro k
        apply Option.ext
        intro v
        rw [hlook, ← hm k v]
        simp [Holds]
      subst hmm
      simp only [hrun, Option.bind_some]
      have hmin' := hok.min_capacity
      refine ⟨0, _, rfl, Or.inr ⟨rfl, t, rfl, hcore', hcontents, ?_, ?_⟩⟩
      · have hu : t.used = old.used := by
          rw [hcore'.used_eq_card hcontents, hok.toTableCore.used_eq_card hm]
        have hle := hok.used_le
        rw [hok.resizeAt_eq] at hle
        rw [hcore'.resizeAt_eq, hsame.mask, hu]
        unfold identityHashMinCapacity at hmin'
        omega
      · obtain ⟨e, he⟩ := hok.isPow
        obtain ⟨f, hf⟩ := hcore.isPow
        rw [hf, he, ← Nat.pow_succ] at hmin hfirst
        rw [hsame.mask, hf, he, ← Nat.pow_succ]
        apply pow_of_lt_double hmin
        obtain hfirst | hfirst := hfirst
        · rw [he] at hmin'
          rw [hfirst, Nat.pow_succ]
          omega
        · exact hfirst

theorem TableOk.room {t : IdentityHashTable} (h : TableOk p t) : t.used < t.mask + 1 := by
  have hle := h.used_le
  have hmin := h.min_capacity
  rw [h.resizeAt_eq] at hle
  unfold identityHashMinCapacity at hmin
  omega

theorem TableOk.empty_of_used {t : IdentityHashTable} {m : HashMap} (h : TableOk p t)
    (hm : Contents p t m) (hz : t.used = 0) (key : Nat) : m.lookup key = none := by
  rw [h.toTableCore.used_eq_card hm, Finset.card_eq_zero] at hz
  rw [Finmap.lookup_eq_none, ← Finmap.mem_keys, hz]
  exact Finset.notMem_empty key

theorem lookupIdentityHash_spec {interp : IdentityHashes} {m : HashMap} (h : Refines p interp m)
    {obj : Nat} (hk : ObjectKey p obj) (value : Int) :
    lookupIdentityHash p interp obj value =
      some (match m.lookup obj with
        | some v => (1, v)
        | none => (0, value)) := by
  unfold lookupIdentityHash
  unfold Refines at h
  cases htable : interp.identityHashes with
  | none =>
    simp only [htable] at h
    subst h
    rfl
  | some t =>
    simp only [htable] at h
    obtain ⟨hok, hm⟩ := h
    by_cases hz : t.used = 0
    · simp only [hz, if_true, hok.empty_of_used hm hz obj]
    · simp only [hz, if_false]
      obtain ⟨i, -, hrun, -, hlook⟩ | ⟨hrun, hlook⟩ :=
        probe_spec hok.toTableCore hm hok.room hk
      · simp only [hrun, hlook, Option.bind_eq_bind, Option.bind_some]
      · simp only [hrun, hlook, Option.bind_eq_bind, Option.bind_some]

theorem setIdentityHash_spec {interp : IdentityHashes} {m : HashMap} (h : Refines p interp m)
    {obj : Nat} (hk : ObjectKey p obj) (value : Int) :
    ∃ status interp', setIdentityHash p interp obj value = some (status, interp') ∧
      ((status = -1 ∧ interp'.identityHashes = interp.identityHashes) ∨
        (status = 0 ∧ Refines p interp' (m.insert obj value))) := by
  have hinsert : ∀ t : IdentityHashTable, TableCore p t → Contents p t m →
      t.used + 1 ≤ t.resizeAt → ∀ malloc,
      ∃ t', identityHashTableInsertKnownRoom p t obj value = some t' ∧
        Refines p ⟨some t', malloc⟩ (m.insert obj value) := by
    intro t hcore hm hroom malloc
    have hresize := hcore.resizeAt_eq
    obtain ⟨t', hrun, hcore', hsame, hm', hused⟩ :=
      insertKnownRoom_spec hcore hm (by omega) hk value
    exact ⟨t', hrun, ⟨hcore', by rw [hsame.resizeAt]; omega⟩, hm'⟩
  have hgrow := growIdentityHashTable_spec h
  unfold setIdentityHash
  cases hfull : mustGrow p interp with
  | true =>
    obtain ⟨status, grown, hrun, ⟨rfl, hkeep⟩ | ⟨rfl, t, htable, hcore, hm, hroom, -⟩⟩ := hgrow
    · simp only [if_true, hrun, Option.bind_eq_bind, Option.bind_some]
      exact ⟨-1, grown, rfl, Or.inl ⟨rfl, hkeep⟩⟩
    · obtain ⟨t', hins, href⟩ := hinsert t hcore hm hroom grown.malloc
      simp only [if_true, hrun, Option.bind_eq_bind, Option.bind_some, htable, hins]
      exact ⟨0, _, rfl, Or.inr ⟨rfl, href⟩⟩
  | false =>
    unfold mustGrow at hfull
    cases htable : interp.identityHashes with
    | none => simp [htable] at hfull
    | some t =>
      unfold Refines at h
      simp only [htable] at h hfull
      obtain ⟨hok, hm⟩ := h
      have hfit := capacity_fits hok.isPow hok.bytes
      have hlt := hok.room
      have hmod : (t.used + 1) % 2 ^ p.bits = t.used + 1 := Nat.mod_eq_of_lt (by omega)
      rw [hmod, decide_eq_false_iff_not] at hfull
      obtain ⟨t', hins, href⟩ := hinsert t hok.toTableCore hm (by omega) interp.malloc
      simp only [Bool.false_eq_true, if_false, Option.bind_eq_bind, Option.bind_some, htable,
        hins]
      exact ⟨0, _, rfl, Or.inr ⟨rfl, href⟩⟩

theorem deleteIdentityHash_spec {interp : IdentityHashes} {m : HashMap} (h : Refines p interp m)
    {obj : Nat} (hk : ObjectKey p obj) :
    ∃ interp', deleteIdentityHash p interp obj =
        some (if (m.lookup obj).isSome then 1 else 0, interp') ∧
      Refines p interp' (m.erase obj) := by
  have habsent : m.lookup obj = none → m.erase obj = m := by
    intro hlook
    apply Finmap.ext_lookup
    intro k
    by_cases hkk : k = obj
    · subst hkk
      rw [Finmap.lookup_erase, hlook]
    · rw [Finmap.lookup_erase_ne hkk]
  have hstart := h
  unfold deleteIdentityHash
  unfold Refines at h
  cases htable : interp.identityHashes with
  | none =>
    simp only [htable] at h
    have hlook : m.lookup obj = none := by rw [h]; exact Finmap.lookup_empty obj
    exact ⟨interp, by simp [hlook], by rw [habsent hlook]; exact hstart⟩
  | some t =>
    simp only [htable] at h
    obtain ⟨hok, hm⟩ := h
    by_cases hz : t.used = 0
    · have hlook := hok.empty_of_used hm hz obj
      exact ⟨interp, by simp [hlook, hz], by rw [habsent hlook]; exact hstart⟩
    · simp only [hz, if_false]
      obtain ⟨i, hi, hrun, hs, hlook⟩ | ⟨hrun, hlook⟩ :=
        probe_spec hok.toTableCore hm hok.room hk
      · obtain ⟨t', hshift, hcore, hsame, hm', hused⟩ :=
          backshift_removes hok.toTableCore hm hok.room hi hs
        simp only [hrun, hshift, hlook, Option.bind_eq_bind, Option.bind_some, Option.isSome_some,
          if_true]
        have hle := hok.used_le
        exact ⟨_, rfl, ⟨hcore, by rw [hsame.resizeAt]; omega⟩, hm'⟩
      · simp only [hrun, hlook, Option.bind_eq_bind, Option.bind_some, Option.isSome_none,
          Bool.false_eq_true, if_false]
        exact ⟨interp, rfl, by rw [habsent hlook]; exact hstart⟩

theorem clearIdentityHashTable_spec (interp : IdentityHashes) :
    Refines p (clearIdentityHashTable interp) ∅ := rfl

end operations

/-! ## Runs of calls -/

inductive HashCall where
  | set (obj : Nat) (value : Int)
  | lookup (obj : Nat) (value : Int)
  | delete (obj : Nat)
  | clear
  deriving DecidableEq, Repr

/-- What a call returns; a lookup also leaves something in `*value`. -/
inductive HashReply where
  | set (status : Int)
  | lookup (found : Int) (value : Int)
  | delete (found : Int)
  | clear
  deriving DecidableEq, Repr

def HashCall.KeyOk (p : Platform) : HashCall → Prop
  | .set obj _ => ObjectKey p obj
  | .lookup obj _ => ObjectKey p obj
  | .delete obj => ObjectKey p obj
  | .clear => True

def hashCall (p : Platform) (interp : IdentityHashes) :
    HashCall → Option (HashReply × IdentityHashes)
  | .set obj value => do
    let (status, interp) ← setIdentityHash p interp obj value
    some (.set status, interp)
  | .lookup obj value => do
    let (found, value) ← lookupIdentityHash p interp obj value
    some (.lookup found value, interp)
  | .delete obj => do
    let (found, interp) ← deleteIdentityHash p interp obj
    some (.delete found, interp)
  | .clear => some (.clear, clearIdentityHashTable interp)

/-- The calls made so far with their replies, newest first. -/
abbrev HashLog := List (HashCall × HashReply)

def hashRun (p : Platform) : List HashCall → HashLog × IdentityHashes →
    Option (HashLog × IdentityHashes)
  | [], run => some run
  | call :: calls, (log, interp) => do
    let (reply, interp) ← hashCall p interp call
    hashRun p calls ((call, reply) :: log, interp)

/-- The value of the key's last successful set, unless a later delete found it or a clear
came after. -/
def lastStored (key : Nat) : HashLog → Option Int
  | [] => none
  | (.clear, _) :: _ => none
  | (.set obj value, .set 0) :: log => if obj = key then some value else lastStored key log
  | (.delete obj, .delete 1) :: log => if obj = key then none else lastStored key log
  | _ :: log => lastStored key log

def freshIdentityHashes (malloc : RawMalloc) : IdentityHashes :=
  { identityHashes := none, malloc := malloc }

def usedCount (interp : IdentityHashes) : Nat :=
  match interp.identityHashes with
  | none => 0
  | some table => table.used

/-- What the reply to a call has to be, and what the call has to leave alone. -/
def Answers (log : HashLog) (interp interp' : IdentityHashes) : HashCall → HashReply → Prop
  | .set _ _, reply => reply = .set 0 ∨
      reply = .set (-1) ∧ interp'.identityHashes = interp.identityHashes
  | .lookup obj value, reply => interp' = interp ∧
      reply = (match lastStored obj log with
        | some v => .lookup 1 v
        | none => .lookup 0 value)
  | .delete obj, reply => reply = .delete (if (lastStored obj log).isSome then 1 else 0)
  | .clear, reply => reply = .clear ∧ interp'.identityHashes = none

/-- The log and the table describe the same map. -/
def LogRefines (p : Platform) (log : HashLog) (interp : IdentityHashes) : Prop :=
  ∃ m, Refines p interp m ∧ ∀ key, m.lookup key = lastStored key log

section runs
variable {p : Platform}

theorem hashCall_step {log : HashLog} {interp : IdentityHashes} (h : LogRefines p log interp)
    {call : HashCall} (hk : call.KeyOk p) :
    ∃ reply interp', hashCall p interp call = some (reply, interp') ∧
      Answers log interp interp' call reply ∧
      LogRefines p ((call, reply) :: log) interp' := by
  obtain ⟨m, href, hlog⟩ := h
  cases call with
  | set obj value =>
    obtain ⟨status, interp', hrun, ⟨rfl, hkeep⟩ | ⟨rfl, href'⟩⟩ := setIdentityHash_spec href hk value
    · refine ⟨.set (-1), interp', by simp [hashCall, hrun], Or.inr ⟨rfl, hkeep⟩, m, ?_, hlog⟩
      unfold Refines at href ⊢
      rw [hkeep]
      exact href
    · refine ⟨.set 0, interp', by simp [hashCall, hrun], Or.inl rfl, _, href', ?_⟩
      intro key
      simp only [lastStored]
      split
      · rename_i heq
        subst heq
        exact Finmap.lookup_insert m
      · rename_i hne
        rw [Finmap.lookup_insert_of_ne m (Ne.symm hne), hlog]
  | lookup obj value =>
    have hrun := lookupIdentityHash_spec href hk value
    rw [hlog] at hrun
    cases hlast : lastStored obj log with
    | none =>
      rw [hlast] at hrun
      exact ⟨.lookup 0 value, interp, by simp [hashCall, hrun], ⟨rfl, by rw [hlast]⟩, m, href, hlog⟩
    | some v =>
      rw [hlast] at hrun
      exact ⟨.lookup 1 v, interp, by simp [hashCall, hrun], ⟨rfl, by rw [hlast]⟩, m, href, hlog⟩
  | delete obj =>
    obtain ⟨interp', hrun, href'⟩ := deleteIdentityHash_spec href hk
    rw [hlog] at hrun
    refine ⟨_, interp', by simp [hashCall, hrun], rfl, _, href', ?_⟩
    intro key
    cases hlast : lastStored obj log with
    | none =>
      simp only [Option.isSome_none, Bool.false_eq_true, if_false, lastStored]
      by_cases hkk : key = obj
      · subst hkk
        rw [Finmap.lookup_erase, hlast]
      · rw [Finmap.lookup_erase_ne hkk, hlog]
    | some v =>
      simp only [Option.isSome_some, if_true, lastStored]
      split
      · rename_i heq
        subst heq
        exact Finmap.lookup_erase _ _
      · rename_i hne
        rw [Finmap.lookup_erase_ne (Ne.symm hne), hlog]
  | clear =>
    refine ⟨.clear, _, rfl, ⟨rfl, rfl⟩, ∅, clearIdentityHashTable_spec interp, ?_⟩
    intro key
    exact Finmap.lookup_empty key

theorem hashRun_spec (calls : List HashCall) (hk : ∀ call ∈ calls, call.KeyOk p)
    {log : HashLog} {interp : IdentityHashes} (h : LogRefines p log interp) :
    ∃ log' interp', hashRun p calls (log, interp) = some (log', interp') ∧
      LogRefines p log' interp' := by
  induction calls generalizing log interp with
  | nil => exact ⟨log, interp, rfl, h⟩
  | cons call calls ih =>
    obtain ⟨reply, interp', hrun, -, hnext⟩ := hashCall_step h (hk call List.mem_cons_self)
    obtain ⟨log', final, hrest, hfinal⟩ :=
      ih (fun c hc => hk c (List.mem_cons_of_mem _ hc)) hnext
    exact ⟨log', final, by simp [hashRun, hrun, hrest], hfinal⟩

theorem LogRefines.used {log : HashLog} {interp : IdentityHashes} (h : LogRefines p log interp) :
    ∃ keys : Finset Nat, (∀ key, key ∈ keys ↔ (lastStored key log).isSome) ∧
      usedCount interp = keys.card := by
  obtain ⟨m, href, hlog⟩ := h
  refine ⟨m.keys, ?_, ?_⟩
  · intro key
    rw [Finmap.mem_keys, ← Finmap.lookup_isSome, hlog]
  · unfold usedCount
    unfold Refines at href
    split at href
    · subst href
      simp
    · exact href.1.toTableCore.used_eq_card href.2

/-- From a fresh interpreter, whatever allocations fail, no call gets stuck, the table counts
the present keys, and the next call is answered by the log of the earlier ones. -/
theorem identityHashTable_refines_map (malloc : RawMalloc) (calls : List HashCall)
    (call : HashCall) (hkeys : ∀ c ∈ call :: calls, c.KeyOk p) :
    ∃ log interp reply interp',
      hashRun p calls ([], freshIdentityHashes malloc) = some (log, interp) ∧
      (∃ keys : Finset Nat, (∀ key, key ∈ keys ↔ (lastStored key log).isSome) ∧
        usedCount interp = keys.card) ∧
      hashCall p interp call = some (reply, interp') ∧
      Answers log interp interp' call reply := by
  have hfresh : LogRefines p [] (freshIdentityHashes malloc) :=
    ⟨∅, rfl, fun key => Finmap.lookup_empty key⟩
  obtain ⟨log, interp, hrun, hlog⟩ :=
    hashRun_spec calls (fun c hc => hkeys c (List.mem_cons_of_mem _ hc)) hfresh
  obtain ⟨reply, interp', hcall, hans, -⟩ := hashCall_step hlog (hkeys call List.mem_cons_self)
  exact ⟨log, interp, reply, interp', hrun, hlog.used, hcall, hans⟩

end runs

/-- The third allocation fails, so the first set does and the second one does not. -/
theorem identityHashTable_refines_map_third_malloc_fails :
    ∃ log interp reply interp',
      hashRun ⟨true, true⟩ [.set 16 1, .set 24 2, .delete 16]
        ([], freshIdentityHashes ⟨fun n => n == 2, fun _ _ => 0, 0⟩) = some (log, interp) ∧
      (∃ keys : Finset Nat, (∀ key, key ∈ keys ↔ (lastStored key log).isSome) ∧
        usedCount interp = keys.card) ∧
      hashCall ⟨true, true⟩ interp (.lookup 24 7) = some (reply, interp') ∧
      Answers log interp interp' (.lookup 24 7) reply := by
  have hkey : ∀ key ∈ [16, 24], ObjectKey ⟨true, true⟩ key := by
    intro key hmem
    rcases List.mem_pair.mp hmem with rfl | rfl
    · exact ⟨by decide, by decide, by decide⟩
    · exact ⟨by decide, by decide, by decide⟩
  apply identityHashTable_refines_map
  intro c hc
  simp only [List.mem_cons, List.not_mem_nil, or_false] at hc
  rcases hc with rfl | rfl | rfl | rfl
  · exact hkey 24 (by decide)
  · exact hkey 16 (by decide)
  · exact hkey 24 (by decide)
  · exact hkey 16 (by decide)

example : (hashRun ⟨true, true⟩ [.set 16 1, .set 24 2, .delete 16, .lookup 24 7]
    ([], freshIdentityHashes ⟨fun n => n == 2, fun _ _ => 0, 0⟩)).map (fun run => run.1.map Prod.snd) =
    some [.lookup 1 2, .delete 0, .set 0, .set (-1)] := by decide +kernel

end Retrace
