import Retrace.IdentityHash
import Retrace.RobinHood
import Mathlib.Data.Nat.Bitwise

/-! The stored words of a table as Robin Hood slots, and its loops as the abstract ones. -/

set_option autoImplicit false

namespace Retrace
open RobinHood

/-- What `_PyRetrace_IdentityHashObjectKey` asserts of an object's address. -/
structure ObjectKey (p : Platform) (key : Nat) : Prop where
  nonzero : key ≠ 0
  aligned : key % 8 = 0
  word : key < 2 ^ p.bits

theorem Platform.bits_cases (p : Platform) : p.bits = 64 ∨ p.bits = 32 := by
  unfold Platform.bits
  cases p.wide <;> simp

theorem and_pointerMask {p : Platform} {x : Nat} (hx : x < 2 ^ p.bits) :
    x &&& identityHashPointerMask p = 8 * (x / 8) := by
  have hdiv : (x &&& identityHashPointerMask p) / 2 ^ 3 = x / 8 := by
    rw [Nat.and_div_two_pow]
    rcases p.bits_cases with h | h <;> rw [h] at hx <;> unfold identityHashPointerMask <;> rw [h]
    · have hmask : (2 ^ 64 - 8) / 2 ^ 3 = 2 ^ 61 - 1 := by decide
      rw [hmask, Nat.and_two_pow_sub_one_eq_mod]
      exact Nat.mod_eq_of_lt (by omega)
    · have hmask : (2 ^ 32 - 8) / 2 ^ 3 = 2 ^ 29 - 1 := by decide
      rw [hmask, Nat.and_two_pow_sub_one_eq_mod]
      exact Nat.mod_eq_of_lt (by omega)
  have hmod : (x &&& identityHashPointerMask p) % 2 ^ 3 = 0 := by
    rw [Nat.and_mod_two_pow]
    have hmask : identityHashPointerMask p % 2 ^ 3 = 0 := by
      unfold identityHashPointerMask
      rcases p.bits_cases with h | h <;> rw [h] <;> decide
    rw [hmask, Nat.and_zero]
  omega

theorem entry_eq_add {key psl : Nat} (ha : key % 8 = 0) :
    identityHashEntry key psl = key + min 7 psl := by
  have hq : (if psl > identityHashPslSaturated then identityHashPslSaturated else psl) =
      min 7 psl := by
    unfold identityHashPslSaturated
    grind
  have hlt : min 7 psl < 2 ^ 3 := by omega
  have hor := Nat.two_pow_add_eq_or_of_lt hlt (key / 8)
  have hkey : 2 ^ 3 * (key / 8) = key := by omega
  rw [hkey] at hor
  rw [identityHashEntry, hq, hor]

theorem entryPsl_eq_mod (entry : Nat) : identityHashEntryPsl entry = entry % 8 := by
  have h := Nat.and_two_pow_sub_one_eq_mod entry 3
  exact h

theorem entryMatches_iff (entry key : Nat) :
    identityHashEntryMatches entry key = true ↔ entry / 8 = key / 8 := by
  have hdiv : (entry ^^^ key) / 8 = entry / 8 ^^^ key / 8 := @Nat.xor_div_two_pow entry key 3
  unfold identityHashEntryMatches identityHashPslMask
  rw [← Nat.xor_eq_zero_iff, ← hdiv, decide_eq_true_eq]
  omega

abbrev home (p : Platform) (mask : Nat) (key : Nat) : Nat := identityHashIndex p key mask

def slots (p : Platform) (t : IdentityHashTable) : Slots Nat Int := fun i =>
  if t.key i = 0 then none else some (identityHashEntryKey p (t.key i), t.value i)

/-- Every used word is an aligned key with its probe length in the low bits, saturated at 7. -/
structure Layout (p : Platform) (t : IdentityHashTable) : Prop where
  pow : ∃ e, t.mask + 1 = 2 ^ e ∧ e ≤ p.bits
  keys_length : t.keys.length = t.mask + 1
  values_length : t.values.length = t.mask + 1
  stored : ∀ i < t.mask + 1, t.key i ≠ 0 → ∃ key, ObjectKey p key ∧
    t.key i = key + min 7 (dist (t.mask + 1) (home p t.mask key) i)

section ring
variable {p : Platform} {mask : Nat}

theorem home_lt (hp : ∃ e, mask + 1 = 2 ^ e) (key : Nat) : home p mask key < mask + 1 := by
  obtain ⟨e, he⟩ := hp
  have hmask : mask = 2 ^ e - 1 := by omega
  rw [home, identityHashIndex, hmask, Nat.and_two_pow_sub_one_eq_mod, ← hmask, he]
  exact Nat.mod_lt _ (Nat.two_pow_pos e)

theorem succ_and_mask (hp : ∃ e, mask + 1 = 2 ^ e) (i : Nat) :
    (i + 1) &&& mask = next (mask + 1) i := by
  obtain ⟨e, he⟩ := hp
  have hmask : mask = 2 ^ e - 1 := by omega
  rw [hmask, Nat.and_two_pow_sub_one_eq_mod, ← hmask, he, next]

theorem exactPsl_eq_dist (hp : ∃ e, mask + 1 = 2 ^ e ∧ e ≤ p.bits) (key i : Nat) :
    identityHashExactPsl p key i mask = dist (mask + 1) (home p mask key) i := by
  obtain ⟨e, he, hb⟩ := hp
  have hh := home_lt (p := p) ⟨e, he⟩ key
  have hmask : mask = 2 ^ e - 1 := by omega
  have hdvd : 2 ^ e ∣ 2 ^ p.bits := Nat.pow_dvd_pow 2 hb
  obtain ⟨c, hc⟩ := hdvd
  have hcpos : 1 ≤ c := by
    rcases Nat.eq_zero_or_pos c with hz | hpos
    · rw [hz] at hc
      have := Nat.two_pow_pos p.bits
      omega
    · exact hpos
  unfold identityHashExactPsl RobinHood.dist
  have hand : ∀ x, x &&& mask = x % 2 ^ e := by
    intro x
    rw [hmask, Nat.and_two_pow_sub_one_eq_mod]
  rw [hand, hc, Nat.mod_mul_right_mod, he]
  have hsplit : 2 ^ e * c = 2 ^ e * (c - 1) + 2 ^ e := by
    rw [← Nat.mul_succ]
    congr 1
    omega
  change (i + (2 ^ e * c - home p mask key)) % 2 ^ e = (i + (2 ^ e - home p mask key)) % 2 ^ e
  have hsum : i + (2 ^ e * c - home p mask key) =
      i + (2 ^ e - home p mask key) + 2 ^ e * (c - 1) := by omega
  rw [hsum, Nat.add_mul_mod_self_left]

end ring

section words
variable {p : Platform} {t : IdentityHashTable}

theorem ObjectKey.entryKey {key : Nat} (hk : ObjectKey p key) (q : Nat) :
    identityHashEntryKey p (key + min 7 q) = key := by
  have ha := hk.aligned
  have hw := hk.word
  have hlt : key + min 7 q < 2 ^ p.bits := by
    rcases p.bits_cases with h | h <;> rw [h] at hw ⊢ <;> omega
  rw [identityHashEntryKey, and_pointerMask hlt]
  omega

theorem ObjectKey.entryPsl {key : Nat} (hk : ObjectKey p key) (q : Nat) :
    identityHashEntryPsl (key + min 7 q) = min 7 q := by
  have ha := hk.aligned
  rw [entryPsl_eq_mod]
  omega

theorem ObjectKey.entryMatches {key key' : Nat} (hk : ObjectKey p key) (hk' : ObjectKey p key')
    (q : Nat) : identityHashEntryMatches (key' + min 7 q) key = decide (key' = key) := by
  have ha := hk.aligned
  have ha' := hk'.aligned
  rw [Bool.eq_iff_iff, entryMatches_iff, decide_eq_true_eq]
  omega

theorem Layout.decode (h : Layout p t) {i : Nat} (hi : i < t.mask + 1) (hne : t.key i ≠ 0) :
    ∃ key, ObjectKey p key ∧ slots p t i = some (key, t.value i) ∧
      t.key i = key + min 7 (dist (t.mask + 1) (home p t.mask key) i) ∧
      identityHashEntryKey p (t.key i) = key ∧
      identityHashEntryPsl (t.key i) = min 7 (dist (t.mask + 1) (home p t.mask key) i) ∧
      identityHashSlotPsl p t i = dist (t.mask + 1) (home p t.mask key) i := by
  obtain ⟨key, hk, heq⟩ := h.stored i hi hne
  have hkey : identityHashEntryKey p (t.key i) = key := by rw [heq]; exact hk.entryKey _
  have hpsl : identityHashEntryPsl (t.key i) =
      min 7 (dist (t.mask + 1) (home p t.mask key) i) := by rw [heq]; exact hk.entryPsl _
  refine ⟨key, hk, ?_, heq, hkey, hpsl, ?_⟩
  · simp only [slots, hne, if_false, hkey]
  · simp only [identityHashSlotPsl, hpsl, hkey, exactPsl_eq_dist h.pow, identityHashPslSaturated]
    split <;> omega

theorem slots_eq_none_iff (i : Nat) : slots p t i = none ↔ t.key i = 0 := by
  simp [slots]

theorem IdentityHashTable.key_set (i j x : Nat) (hi : i < t.keys.length) :
    (t.keys.set i x).getD j 0 = if j = i then x else t.key j := by
  unfold IdentityHashTable.key
  by_cases hj : j = i
  · subst hj
    simp [hi]
  · have hne : i ≠ j := fun h => hj h.symm
    simp [List.getD_eq_getElem?_getD, List.getElem?_set_ne hne, hj]

theorem IdentityHashTable.value_set (i j : Nat) (x : Int) (hi : i < t.values.length) :
    (t.values.set i x).getD j 0 = if j = i then x else t.value j := by
  unfold IdentityHashTable.value
  by_cases hj : j = i
  · subst hj
    simp [hi]
  · have hne : i ≠ j := fun h => hj h.symm
    simp [List.getD_eq_getElem?_getD, List.getElem?_set_ne hne, hj]

end words

section writes
variable {p : Platform} {t : IdentityHashTable}

/-- The fields no loop writes. -/
structure SameBlock (t t' : IdentityHashTable) : Prop where
  address : t'.address = t.address
  mask : t'.mask = t.mask
  resizeAt : t'.resizeAt = t.resizeAt

theorem SameBlock.trans {t t' t'' : IdentityHashTable} (h : SameBlock t t')
    (h' : SameBlock t' t'') : SameBlock t t'' :=
  ⟨h'.address.trans h.address, h'.mask.trans h.mask, h'.resizeAt.trans h.resizeAt⟩

theorem Layout.store (h : Layout p t) {i key : Nat} (v : Int) (hi : i < t.mask + 1)
    (hk : ObjectKey p key) {psl : Nat} (hd : dist (t.mask + 1) (home p t.mask key) i = psl) :
    Layout p (t.store i (identityHashEntry key psl) v) := by
  refine ⟨h.pow, by simpa [IdentityHashTable.store] using h.keys_length,
    by simpa [IdentityHashTable.store] using h.values_length, ?_⟩
  intro j hj hne
  have hkey : (t.store i (identityHashEntry key psl) v).key j =
      if j = i then identityHashEntry key psl else t.key j :=
    IdentityHashTable.key_set i j _ (by rw [h.keys_length]; exact hi)
  rw [hkey] at hne ⊢
  by_cases hji : j = i
  · subst hji
    refine ⟨key, hk, ?_⟩
    rw [if_pos rfl, entry_eq_add hk.aligned, ← hd]
    rfl
  · rw [if_neg hji] at hne ⊢
    exact h.stored j hj hne

theorem Layout.slots_store (h : Layout p t) {i key : Nat} (v : Int) (hi : i < t.mask + 1)
    (hk : ObjectKey p key) (psl : Nat) :
    slots p (t.store i (identityHashEntry key psl) v) =
      Function.update (slots p t) i (some (key, v)) := by
  have hpos : identityHashEntry key psl ≠ 0 := by
    rw [entry_eq_add hk.aligned]
    have := hk.nonzero
    omega
  funext j
  have hkey : (t.store i (identityHashEntry key psl) v).key j =
      if j = i then identityHashEntry key psl else t.key j :=
    IdentityHashTable.key_set i j _ (by rw [h.keys_length]; exact hi)
  have hvalue : (t.store i (identityHashEntry key psl) v).value j =
      if j = i then v else t.value j :=
    IdentityHashTable.value_set i j _ (by rw [h.values_length]; exact hi)
  unfold slots
  rw [hkey, hvalue]
  by_cases hji : j = i
  · subst hji
    rw [if_pos rfl, if_pos rfl, if_neg hpos, Function.update_self, entry_eq_add hk.aligned,
      hk.entryKey]
  · rw [if_neg hji, if_neg hji, Function.update_of_ne hji]

theorem Layout.setValue (h : Layout p t) (i : Nat) (v : Int) :
    Layout p { t with values := t.values.set i v } :=
  ⟨h.pow, h.keys_length, by simpa using h.values_length, h.stored⟩

theorem Layout.slots_setValue (h : Layout p t) {i key : Nat} {w : Int} (v : Int)
    (hi : i < t.mask + 1) (hs : slots p t i = some (key, w)) :
    slots p { t with values := t.values.set i v } =
      Function.update (slots p t) i (some (key, v)) := by
  funext j
  have hvalue : IdentityHashTable.value { t with values := t.values.set i v } j =
      if j = i then v else t.value j :=
    IdentityHashTable.value_set i j _ (by rw [h.values_length]; exact hi)
  have hkey : IdentityHashTable.key { t with values := t.values.set i v } j = t.key j := rfl
  unfold slots at hs ⊢
  rw [hvalue, hkey]
  by_cases hji : j = i
  · subst hji
    split at hs
    · simp at hs
    · rename_i hne
      simp only [Option.some.injEq, Prod.mk.injEq] at hs
      rw [if_neg hne, if_pos rfl, Function.update_self, hs.1]
  · rw [if_neg hji, Function.update_of_ne hji]

theorem Layout.key_clear (h : Layout p t) {i : Nat} (hi : i < t.mask + 1) (j : Nat) :
    IdentityHashTable.key { t with keys := t.keys.set i 0 } j = if j = i then 0 else t.key j :=
  IdentityHashTable.key_set i j _ (by rw [h.keys_length]; exact hi)

theorem Layout.clear (h : Layout p t) {i : Nat} (hi : i < t.mask + 1) :
    Layout p { t with keys := t.keys.set i 0 } := by
  refine ⟨h.pow, by simpa using h.keys_length, h.values_length, ?_⟩
  intro j hj hne
  rw [h.key_clear hi] at hne ⊢
  by_cases hji : j = i
  · simp [hji] at hne
  · rw [if_neg hji] at hne ⊢
    exact h.stored j hj hne

theorem Layout.slots_clear (h : Layout p t) {i : Nat} (hi : i < t.mask + 1) :
    slots p { t with keys := t.keys.set i 0 } = Function.update (slots p t) i none := by
  funext j
  unfold slots
  rw [h.key_clear hi]
  by_cases hji : j = i
  · subst hji
    simp
  · rw [if_neg hji, Function.update_of_ne hji]
    rfl

end writes

section loops
variable {p : Platform}

/-- The search of lookup and delete is the abstract search: a saturated word is decided by
the recomputed probe length, an unsaturated one by the stored length. -/
theorem probeLoop_eq_search {t : IdentityHashTable} (h : Layout p t) {key : Nat}
    (hk : ObjectKey p key) (fuel index psl : Nat) (hi : index < t.mask + 1) :
    probeLoop p t key fuel index psl =
      search (t.mask + 1) (home p t.mask) (slots p t) key fuel index psl := by
  induction fuel generalizing index psl with
  | zero => rfl
  | succ fuel ih =>
    have hp := h.pow
    have hnext : (index + 1) &&& t.mask = next (t.mask + 1) index :=
      succ_and_mask ⟨hp.choose, hp.choose_spec.1⟩ index
    have hrec := ih (next (t.mask + 1) index) (psl + 1) (next_lt _ (by omega))
    unfold probeLoop search
    by_cases hz : t.key index = 0
    · have hs := (slots_eq_none_iff (p := p) index).mpr hz
      simp [hz, hs]
    · obtain ⟨key', hk', hs, heq, hkey, hpsl, -⟩ := h.decode hi hz
      have hmatch : identityHashEntryMatches (t.key index) key = decide (key' = key) := by
        rw [heq]; exact hk.entryMatches hk' _
      simp only [hz, if_false, hs, hmatch, decide_eq_true_eq, hpsl, hkey, hnext, hrec,
        exactPsl_eq_dist hp, identityHashPslSaturated]
      by_cases hkk : key' = key
      · simp [hkk]
      · simp only [hkk, if_false]
        split_ifs <;> first | rfl | omega

theorem insertKnownRoomLoop_place (fuel : Nat) {t : IdentityHashTable} (h : Layout p t)
    {key : Nat} (hk : ObjectKey p key) (value : Int) {index psl : Nat}
    (hi : index = ahead (t.mask + 1) (home p t.mask key) psl) (hf : psl + fuel ≤ t.mask + 1)
    {s' : Slots Nat Int} {filled : Bool}
    (hplace : place (t.mask + 1) (home p t.mask) (slots p t) fuel key value index psl =
      some (s', filled)) :
    ∃ t', insertKnownRoomLoop p fuel t key value index psl = some t' ∧ slots p t' = s' ∧
      Layout p t' ∧ SameBlock t t' ∧ t'.used = t.used + filled.toNat := by
  induction fuel generalizing t key value index psl with
  | zero => simp [place] at hplace
  | succ fuel ih =>
    have hp := h.pow
    have hp' : ∃ e, t.mask + 1 = 2 ^ e := ⟨hp.choose, hp.choose_spec.1⟩
    have hin : index < t.mask + 1 := by rw [hi]; exact ahead_lt _ _ (by omega)
    have hnext := succ_and_mask hp' index
    have hdist : dist (t.mask + 1) (home p t.mask key) index = psl := by
      rw [hi, dist_ahead (home_lt hp' key) (by omega)]
    have hstep : next (t.mask + 1) index = ahead (t.mask + 1) (home p t.mask key) (psl + 1) := by
      rw [hi, next_ahead]
    unfold place at hplace
    unfold insertKnownRoomLoop
    by_cases hz : t.key index = 0
    · have hs := (slots_eq_none_iff (p := p) index).mpr hz
      simp only [hs, Option.some.injEq, Prod.mk.injEq] at hplace
      obtain ⟨rfl, rfl⟩ := hplace
      simp only [hz, if_true]
      refine ⟨_, rfl, ?_, ?_, ⟨rfl, rfl, rfl⟩, rfl⟩
      · exact h.slots_store value hin hk psl
      · have hl := h.store value hin hk hdist
        exact ⟨hl.pow, hl.keys_length, hl.values_length, hl.stored⟩
    · obtain ⟨key', hk', hs, heq, hkey, -, hslot⟩ := h.decode hin hz
      have hmatch : identityHashEntryMatches (t.key index) key = decide (key' = key) := by
        rw [heq]; exact hk.entryMatches hk' _
      simp only [hs] at hplace
      simp only [hz, if_false, hmatch, decide_eq_true_eq, hslot, hkey, hnext]
      by_cases hkk : key' = key
      · simp only [hkk, if_true, Option.some.injEq, Prod.mk.injEq] at hplace ⊢
        obtain ⟨rfl, rfl⟩ := hplace
        refine ⟨_, rfl, ?_, h.setValue _ _, ⟨rfl, rfl, rfl⟩, rfl⟩
        rw [← hkk]
        exact h.slots_setValue value hin hs
      · simp only [hkk, if_false] at hplace ⊢
        by_cases hrich : dist (t.mask + 1) (home p t.mask key') index < psl
        · simp only [hrich, if_true] at hplace ⊢
          rw [← h.slots_store value hin hk psl] at hplace
          have hcarry : next (t.mask + 1) index = ahead (t.mask + 1) (home p t.mask key')
              (dist (t.mask + 1) (home p t.mask key') index + 1) := by
            rw [← next_ahead, ahead_dist (home_lt hp' key') hin]
          obtain ⟨t', hrun, hs', hl', hsame, hused⟩ :=
            ih (h.store value hin hk hdist) hk' (t.value index) hcarry
              (by simp only [IdentityHashTable.store]; omega) hplace
          exact ⟨t', hrun, hs', hl', ⟨hsame.address, hsame.mask, hsame.resizeAt⟩, hused⟩
        · simp only [hrich, if_false] at hplace ⊢
          exact ih h hk value hstep (by omega) hplace

theorem backshiftLoop_backshift (fuel : Nat) {t : IdentityHashTable} (h : Layout p t)
    {hole : Nat} (hh : hole < t.mask + 1) {s' : Slots Nat Int}
    (hshift : backshift (t.mask + 1) (home p t.mask) (slots p t) fuel hole = some s') :
    ∃ t', backshiftLoop p fuel t hole = some t' ∧ slots p t' = s' ∧ Layout p t' ∧
      SameBlock t t' ∧ t'.used = t.used := by
  induction fuel generalizing t hole with
  | zero => simp [backshift] at hshift
  | succ fuel ih =>
    have hp := h.pow
    have hp' : ∃ e, t.mask + 1 = 2 ^ e := ⟨hp.choose, hp.choose_spec.1⟩
    have hnext := succ_and_mask hp' hole
    have hscan := next_lt hole (show 0 < t.mask + 1 by omega)
    unfold backshift at hshift
    unfold backshiftLoop
    rw [hnext]
    by_cases hz : t.key (next (t.mask + 1) hole) = 0
    · have hs := (slots_eq_none_iff (p := p) (next (t.mask + 1) hole)).mpr hz
      simp only [hs, Option.some.injEq] at hshift
      subst hshift
      simp only [hz, if_true]
      exact ⟨_, rfl, h.slots_clear hh, h.clear hh, ⟨rfl, rfl, rfl⟩, rfl⟩
    · obtain ⟨key', hk', hs, heq, hkey, -, hslot⟩ := h.decode hscan hz
      simp only [hs] at hshift
      simp only [hz, if_false, hslot, hkey]
      by_cases hzero : dist (t.mask + 1) (home p t.mask key') (next (t.mask + 1) hole) = 0
      · simp only [hzero, if_true, Option.some.injEq] at hshift ⊢
        subst hshift
        exact ⟨_, rfl, h.slots_clear hh, h.clear hh, ⟨rfl, rfl, rfl⟩, rfl⟩
      · simp only [hzero, if_false] at hshift ⊢
        have hback := dist_next (home_lt hp' key') hh hzero
        rw [hback, Nat.add_sub_cancel]
        rw [← h.slots_store _ hh hk' (dist (t.mask + 1) (home p t.mask key') hole)] at hshift
        obtain ⟨t', hrun, hs', hl', hsame, hused⟩ := ih (h.store _ hh hk' rfl) hscan hshift
        exact ⟨t', hrun, hs', hl', ⟨hsame.address, hsame.mask, hsame.resizeAt⟩, hused⟩

end loops

end Retrace
