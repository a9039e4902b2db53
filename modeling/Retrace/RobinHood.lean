import Mathlib.Data.Finset.Card
import Mathlib.Logic.Function.Basic
import Mathlib.Tactic.Common

/-!
Robin Hood open addressing on a ring of `n` slots, for an arbitrary key type
and home function. Probe lengths are exact here; how a program stores or
abbreviates them is the business of the program.
-/

set_option autoImplicit false

namespace RobinHood

/-- Only the slots below the capacity are meaningful. -/
abbrev Slots (K V : Type) := Nat → Option (K × V)

def next (n i : Nat) : Nat := (i + 1) % n

/-- Number of forward steps from slot `a` to slot `i`. -/
def dist (n a i : Nat) : Nat := (i + (n - a)) % n

def ahead (n a d : Nat) : Nat := (a + d) % n

theorem wrap_eq {n m : Nat} (h : m < 2 * n) : m % n = if m < n then m else m - n := by
  split
  · exact Nat.mod_eq_of_lt ‹_›
  · rw [Nat.mod_eq_sub_mod (by omega), Nat.mod_eq_of_lt (by omega)]

theorem next_eq {n i : Nat} (hi : i < n) : next n i = if i + 1 < n then i + 1 else 0 := by
  unfold next
  rw [wrap_eq (by omega)]
  split <;> omega

theorem dist_eq {n a i : Nat} (ha : a < n) (hi : i < n) :
    dist n a i = if a ≤ i then i - a else i + n - a := by
  unfold dist
  rw [wrap_eq (by omega)]
  split <;> split <;> omega

theorem ahead_eq {n a d : Nat} (ha : a < n) (hd : d < n) :
    ahead n a d = if a + d < n then a + d else a + d - n := by
  unfold ahead
  rw [wrap_eq (by omega)]

theorem next_ahead (n a d : Nat) : next n (ahead n a d) = ahead n a (d + 1) := by
  simp [next, ahead, Nat.add_assoc]

theorem ahead_lt {n : Nat} (a d : Nat) (hn : 0 < n) : ahead n a d < n := Nat.mod_lt _ hn

theorem next_lt {n : Nat} (i : Nat) (hn : 0 < n) : next n i < n := Nat.mod_lt _ hn

theorem dist_lt {n : Nat} (a i : Nat) (hn : 0 < n) : dist n a i < n := Nat.mod_lt _ hn

theorem ahead_zero {n a : Nat} (ha : a < n) : ahead n a 0 = a := Nat.mod_eq_of_lt ha

theorem dist_ahead {n a d : Nat} (ha : a < n) (hd : d < n) : dist n a (ahead n a d) = d := by
  rw [dist_eq ha (ahead_lt a d (by omega)), ahead_eq ha hd]
  split <;> split <;> omega

theorem ahead_dist {n a i : Nat} (ha : a < n) (hi : i < n) : ahead n a (dist n a i) = i := by
  have hd := dist_lt a i (show 0 < n by omega)
  rw [ahead_eq ha hd, dist_eq ha hi]
  split <;> split <;> omega

theorem next_injective {n i j : Nat} (hi : i < n) (hj : j < n)
    (h : next n i = next n j) : i = j := by
  rw [next_eq hi, next_eq hj] at h
  split at h <;> split at h <;> omega

theorem dist_next {n a i : Nat} (ha : a < n) (hi : i < n) (h : dist n a (next n i) ≠ 0) :
    dist n a (next n i) = dist n a i + 1 := by
  have hn := next_lt i (show 0 < n by omega)
  rw [dist_eq ha hn, next_eq hi] at h ⊢
  rw [dist_eq ha hi]
  split_ifs at h ⊢ <;> omega

theorem ahead_next (n i e : Nat) : ahead n (next n i) e = ahead n i (e + 1) := by
  unfold ahead next
  rw [Nat.mod_add_mod]
  congr 1
  omega

section table
variable {K V : Type} (n : Nat) (home : K → Nat)

/-- Zero for an empty slot, otherwise one more than the probe length. -/
def rank (s : Slots K V) (i : Nat) : Nat :=
  match s i with
  | none => 0
  | some (k, _) => dist n (home k) i + 1

/-- Going forward the rank climbs by at most one. -/
def Climbs (s : Slots K V) : Prop :=
  ∀ i < n, rank n home s (next n i) ≤ rank n home s i + 1

def Unique (s : Slots K V) : Prop :=
  ∀ i < n, ∀ j < n, ∀ k v w, s i = some (k, v) → s j = some (k, w) → i = j

structure Ordered (s : Slots K V) : Prop where
  climbs : Climbs n home s
  unique : Unique n s

def Holds (s : Slots K V) (k : K) (v : V) : Prop := ∃ i < n, s i = some (k, v)

def Absent (s : Slots K V) (k : K) : Prop := ∀ v, ¬ Holds n s k v

def occupied (s : Slots K V) : Nat := ((Finset.range n).filter (fun i => (s i).isSome)).card

/-- Fuel bounds the number of slots inspected; the outer `none` means it ran out. -/
def search [DecidableEq K] (s : Slots K V) (k : K) : Nat → Nat → Nat → Option (Option Nat)
  | 0, _, _ => none
  | fuel + 1, i, d =>
    match s i with
    | none => some none
    | some (k', _) =>
      if k' = k then some (some i)
      else if dist n (home k') i < d then some none
      else search s k fuel (next n i) (d + 1)

/-- Also reports whether an empty slot was filled. -/
def place [DecidableEq K] (s : Slots K V) : Nat → K → V → Nat → Nat → Option (Slots K V × Bool)
  | 0, _, _, _, _ => none
  | fuel + 1, k, v, i, d =>
    match s i with
    | none => some (Function.update s i (some (k, v)), true)
    | some (k', v') =>
      if k' = k then some (Function.update s i (some (k', v)), false)
      else if dist n (home k') i < d then
        place (Function.update s i (some (k, v))) fuel k' v' (next n i) (dist n (home k') i + 1)
      else place s fuel k v (next n i) (d + 1)

/-- Shift the run after `hole` back by one slot, up to an entry at home. -/
def backshift (s : Slots K V) : Nat → Nat → Option (Slots K V)
  | 0, _ => none
  | fuel + 1, hole =>
    match s (next n hole) with
    | none => some (Function.update s hole none)
    | some (k, v) =>
      if dist n (home k) (next n hole) = 0 then some (Function.update s hole none)
      else backshift (Function.update s hole (some (k, v))) fuel (next n hole)

end table

section contents
variable {K V : Type} {n : Nat}

theorem occupied_lt_exists_empty {s : Slots K V} (h : occupied n s < n) :
    ∃ i < n, s i = none := by
  by_contra hne
  push Not at hne
  have hall : (Finset.range n).filter (fun i => (s i).isSome) = Finset.range n := by
    apply Finset.filter_true_of_mem
    intro i hi
    exact Option.isSome_iff_ne_none.mpr (hne i (Finset.mem_range.mp hi))
  unfold occupied at h
  rw [hall, Finset.card_range] at h
  omega

theorem occupied_fill {s : Slots K V} {i : Nat} (x : K × V) (hi : i < n) (h : s i = none) :
    occupied n (Function.update s i (some x)) = occupied n s + 1 := by
  have hs : (Finset.range n).filter (fun j => (Function.update s i (some x) j).isSome) =
      insert i ((Finset.range n).filter (fun j => (s j).isSome)) := by
    ext j
    by_cases hj : j = i
    · subst hj; simp [hi]
    · simp [hj]
  unfold occupied
  rw [hs, Finset.card_insert_of_notMem (by simp [h])]

theorem occupied_replace {s : Slots K V} {i : Nat} (x y : K × V) (h : s i = some y) :
    occupied n (Function.update s i (some x)) = occupied n s := by
  unfold occupied
  congr 1
  ext j
  by_cases hj : j = i
  · subst hj; simp [h]
  · simp [Function.update_of_ne hj]

theorem occupied_clear {s : Slots K V} {i : Nat} {x : K × V} (hi : i < n) (h : s i = some x) :
    occupied n (Function.update s i none) + 1 = occupied n s := by
  have hfill := occupied_fill (n := n) (s := Function.update s i none) x hi (by simp)
  rw [Function.update_idem, ← h, Function.update_eq_self] at hfill
  exact hfill.symm

theorem holds_fill {s : Slots K V} {i : Nat} {k : K} {v : V} (hi : i < n) (h : s i = none)
    (k' : K) (v' : V) :
    Holds n (Function.update s i (some (k, v))) k' v' ↔
      Holds n s k' v' ∨ (k' = k ∧ v' = v) := by
  constructor
  · rintro ⟨j, hj, hs⟩
    by_cases hji : j = i
    · subst hji
      simp only [Function.update_self, Option.some.injEq, Prod.mk.injEq] at hs
      exact Or.inr ⟨hs.1.symm, hs.2.symm⟩
    · rw [Function.update_of_ne hji] at hs
      exact Or.inl ⟨j, hj, hs⟩
  · rintro (⟨j, hj, hs⟩ | ⟨rfl, rfl⟩)
    · have hji : j ≠ i := by rintro rfl; simp [h] at hs
      exact ⟨j, hj, by rw [Function.update_of_ne hji]; exact hs⟩
    · exact ⟨i, hi, by simp⟩

theorem holds_swap {s : Slots K V} {i : Nat} {k kx : K} {v vx : V} (hi : i < n)
    (h : s i = some (kx, vx)) (k' : K) (v' : V) :
    (Holds n (Function.update s i (some (k, v))) k' v' ∨ (k' = kx ∧ v' = vx)) ↔
      (Holds n s k' v' ∨ (k' = k ∧ v' = v)) := by
  constructor
  · rintro (⟨j, hj, hs⟩ | ⟨rfl, rfl⟩)
    · by_cases hji : j = i
      · subst hji
        simp only [Function.update_self, Option.some.injEq, Prod.mk.injEq] at hs
        exact Or.inr ⟨hs.1.symm, hs.2.symm⟩
      · rw [Function.update_of_ne hji] at hs
        exact Or.inl ⟨j, hj, hs⟩
    · exact Or.inl ⟨i, hi, h⟩
  · rintro (⟨j, hj, hs⟩ | ⟨rfl, rfl⟩)
    · by_cases hji : j = i
      · subst hji
        rw [h] at hs
        simp only [Option.some.injEq, Prod.mk.injEq] at hs
        exact Or.inr ⟨hs.1.symm, hs.2.symm⟩
      · exact Or.inl ⟨j, hj, by rw [Function.update_of_ne hji]; exact hs⟩
    · exact Or.inl ⟨i, hi, by simp⟩

theorem Unique.holds_eq {s : Slots K V} (hu : Unique n s) {k : K} {v w : V}
    (hv : Holds n s k v) (hw : Holds n s k w) : v = w := by
  obtain ⟨i, hi, hsi⟩ := hv
  obtain ⟨j, hj, hsj⟩ := hw
  have hij := hu i hi j hj k v w hsi hsj
  subst hij
  rw [hsi] at hsj
  simpa using hsj

theorem Unique.clear {s : Slots K V} (hu : Unique n s) (i : Nat) :
    Unique n (Function.update s i none) := by
  intro a ha b hb k v w hsa hsb
  have hai : a ≠ i := by rintro rfl; simp at hsa
  have hbi : b ≠ i := by rintro rfl; simp at hsb
  rw [Function.update_of_ne hai] at hsa
  rw [Function.update_of_ne hbi] at hsb
  exact hu a ha b hb k v w hsa hsb

theorem Unique.put {s : Slots K V} (hu : Unique n s) {i : Nat} {k : K} (v : V)
    (hk : Absent n s k) : Unique n (Function.update s i (some (k, v))) := by
  intro a ha b hb k' x y hsa hsb
  by_cases hai : a = i <;> by_cases hbi : b = i
  · rw [hai, hbi]
  · subst hai
    simp only [Function.update_self, Option.some.injEq, Prod.mk.injEq] at hsa
    rw [Function.update_of_ne hbi, ← hsa.1] at hsb
    exact absurd ⟨b, hb, hsb⟩ (hk y)
  · subst hbi
    simp only [Function.update_self, Option.some.injEq, Prod.mk.injEq] at hsb
    rw [Function.update_of_ne hai, ← hsb.1] at hsa
    exact absurd ⟨a, ha, hsa⟩ (hk x)
  · rw [Function.update_of_ne hai] at hsa
    rw [Function.update_of_ne hbi] at hsb
    exact hu a ha b hb k' x y hsa hsb

theorem holds_clear {s : Slots K V} (hu : Unique n s) {i : Nat} {k : K} {v : V} (hi : i < n)
    (h : s i = some (k, v)) (k' : K) (v' : V) :
    Holds n (Function.update s i none) k' v' ↔ Holds n s k' v' ∧ k' ≠ k := by
  constructor
  · rintro ⟨j, hj, hs⟩
    have hji : j ≠ i := by rintro rfl; simp at hs
    rw [Function.update_of_ne hji] at hs
    refine ⟨⟨j, hj, hs⟩, ?_⟩
    rintro rfl
    exact hji (hu j hj i hi k' v' v hs h)
  · rintro ⟨⟨j, hj, hs⟩, hne⟩
    have hji : j ≠ i := by
      rintro rfl
      rw [h] at hs
      simp only [Option.some.injEq, Prod.mk.injEq] at hs
      exact hne hs.1.symm
    exact ⟨j, hj, by rw [Function.update_of_ne hji]; exact hs⟩

end contents

section probing
variable {K V : Type} {n : Nat} {home : K → Nat}

theorem Climbs.ahead {s : Slots K V} (hc : Climbs n home s) (hn : 0 < n) (a d m : Nat) :
    rank n home s (ahead n a (d + m)) ≤ rank n home s (ahead n a d) + m := by
  induction m with
  | zero => simp
  | succ m ih =>
    have hstep := hc _ (ahead_lt a (d + m) hn)
    rw [next_ahead] at hstep
    have hassoc : d + (m + 1) = d + m + 1 := by omega
    rw [hassoc]
    omega

theorem Climbs.before {s : Slots K V} (hc : Climbs n home s) {k : K} {v : V} {i d : Nat}
    (hk : home k < n) (hi : i < n) (hs : s i = some (k, v)) (hd : d ≤ dist n (home k) i) :
    d < rank n home s (RobinHood.ahead n (home k) d) := by
  have hup := hc.ahead (by omega) (home k) d (dist n (home k) i - d)
  have hidx : d + (dist n (home k) i - d) = dist n (home k) i := by omega
  rw [hidx, ahead_dist hk hi] at hup
  have hrank : rank n home s i = dist n (home k) i + 1 := by simp [rank, hs]
  omega

theorem Ordered.onWay {s : Slots K V} (ho : Ordered n home s) {k : K} {v : V} {i d : Nat}
    (hk : home k < n) (hi : i < n) (hs : s i = some (k, v)) (hd : d ≤ dist n (home k) i) :
    RobinHood.ahead n (home k) d = i ∨ d < dist n (home k) i ∧
      ∃ k' v', s (RobinHood.ahead n (home k) d) = some (k', v') ∧ k' ≠ k ∧
        ¬ dist n (home k') (RobinHood.ahead n (home k) d) < d := by
  have hbefore := ho.climbs.before hk hi hs hd
  by_cases heq : d = dist n (home k) i
  · rw [heq]
    exact Or.inl (ahead_dist hk hi)
  · have hn : 0 < n := by omega
    have hmax := dist_lt (home k) i hn
    cases hslot : s (RobinHood.ahead n (home k) d) with
    | none => simp [rank, hslot] at hbefore
    | some entry =>
      obtain ⟨k', v'⟩ := entry
      simp only [rank, hslot] at hbefore
      refine Or.inr ⟨by omega, k', v', rfl, ?_, by omega⟩
      rintro rfl
      have hpos := ho.unique _ (ahead_lt _ d hn) i hi k' v' v hslot hs
      rw [← hpos, dist_ahead hk (by omega)] at heq
      exact heq rfl

theorem search_hit [DecidableEq K] {s : Slots K V} (ho : Ordered n home s) {k : K} {v : V}
    {i : Nat} (hk : home k < n) (hi : i < n) (hs : s i = some (k, v)) (fuel d : Nat)
    (hd : d ≤ dist n (home k) i) (hf : dist n (home k) i < d + fuel) :
    search n home s k fuel (ahead n (home k) d) d = some (some i) := by
  induction fuel generalizing d with
  | zero => omega
  | succ fuel ih =>
    unfold search
    obtain hat | ⟨hlt, k', v', hslot, hkk, hpoor⟩ := ho.onWay hk hi hs hd
    · rw [hat, hs]
      simp
    · rw [hslot]
      simp only [hkk, hpoor, if_false]
      rw [next_ahead]
      exact ih (d + 1) (by omega) (by omega)

theorem search_miss [DecidableEq K] {s : Slots K V} {k : K} (hn : 0 < n) (ha : Absent n s k)
    (fuel d e : Nat) (he : s (ahead n (home k) (d + e)) = none) (hf : e < fuel) :
    search n home s k fuel (ahead n (home k) d) d = some none := by
  induction fuel generalizing d e with
  | zero => omega
  | succ fuel ih =>
    have hlt := ahead_lt (home k) d hn
    unfold search
    cases hslot : s (ahead n (home k) d) with
    | none => rfl
    | some entry =>
      obtain ⟨k', v'⟩ := entry
      have hkk : k' ≠ k := by
        rintro rfl
        exact ha v' ⟨_, hlt, hslot⟩
      have he0 : e ≠ 0 := by
        rintro rfl
        simp [hslot] at he
      simp only [hkk, if_false]
      split
      · rfl
      · rw [next_ahead]
        have hidx : d + 1 + (e - 1) = d + e := by omega
        exact ih (d + 1) (e - 1) (by rw [hidx]; exact he) (by omega)

theorem place_hit [DecidableEq K] {s : Slots K V} (ho : Ordered n home s) {k : K} {v w : V}
    {i : Nat} (hk : home k < n) (hi : i < n) (hs : s i = some (k, v)) (fuel d : Nat)
    (hd : d ≤ dist n (home k) i) (hf : dist n (home k) i < d + fuel) :
    place n home s fuel k w (ahead n (home k) d) d =
      some (Function.update s i (some (k, w)), false) := by
  induction fuel generalizing d with
  | zero => omega
  | succ fuel ih =>
    unfold place
    obtain hat | ⟨hlt, k', v', hslot, hkk, hpoor⟩ := ho.onWay hk hi hs hd
    · rw [hat, hs]
      simp
    · rw [hslot]
      simp only [hkk, hpoor, if_false]
      rw [next_ahead]
      exact ih (d + 1) (by omega) (by omega)

theorem Climbs.put {s : Slots K V} (hc : Climbs n home s) {i : Nat} {k : K} (v : V)
    (hpred : ∀ j < n, next n j = i → dist n (home k) i ≤ rank n home s j)
    (hold : rank n home s i ≤ dist n (home k) i + 1) :
    Climbs n home (Function.update s i (some (k, v))) := by
  have hself : rank n home (Function.update s i (some (k, v))) i = dist n (home k) i + 1 := by
    simp [rank]
  have hother : ∀ j, j ≠ i →
      rank n home (Function.update s i (some (k, v))) j = rank n home s j := by
    intro j hj
    simp [rank, Function.update_of_ne hj]
  intro j hj
  by_cases hji : j = i
  · subst hji
    by_cases hnj : next n j = j
    · rw [hnj]; omega
    · have hstep := hc j hj
      rw [hself, hother _ hnj]
      omega
  · by_cases hnj : next n j = i
    · have hp := hpred j hj hnj
      rw [hnj, hself, hother _ hji]
      omega
    · rw [hother _ hnj, hother _ hji]
      exact hc j hj

/-- Carry a key that the table lacks: the predecessor of the current slot ranks at least
the carried probe length, which is what placing it here needs. -/
theorem place_miss [DecidableEq K] (hhome : ∀ k, home k < n) (fuel : Nat) {s : Slots K V}
    (ho : Ordered n home s) {k : K} {v : V} {i d e : Nat} (ha : Absent n s k)
    (hi : i = ahead n (home k) d)
    (hpred : ∀ j < n, next n j = i → d ≤ rank n home s j)
    (he : s (ahead n i e) = none) (hde : d + e < n) (hf : e < fuel) :
    ∃ s', place n home s fuel k v i d = some (s', true) ∧ Ordered n home s' ∧
      (∀ k' v', Holds n s' k' v' ↔ Holds n s k' v' ∨ (k' = k ∧ v' = v)) ∧
      occupied n s' = occupied n s + 1 := by
  induction fuel generalizing s k v i d e with
  | zero => omega
  | succ fuel ih =>
    have hn : 0 < n := by omega
    have hin : i < n := by rw [hi]; exact ahead_lt _ _ hn
    have hdist : dist n (home k) i = d := by rw [hi, dist_ahead (hhome k) (by omega)]
    unfold place
    cases hslot : s i with
    | none =>
      refine ⟨_, rfl, ⟨?_, ho.unique.put v ha⟩, holds_fill hin hslot, occupied_fill _ hin hslot⟩
      apply ho.climbs.put v
      · rw [hdist]; exact hpred
      · simp [rank, hslot]
    | some entry =>
      obtain ⟨k', v'⟩ := entry
      have hkk : k' ≠ k := by
        rintro rfl
        exact ha v' ⟨i, hin, hslot⟩
      have he0 : e ≠ 0 := by
        rintro rfl
        have hzero : ahead n i 0 = i := ahead_zero hin
        simp [hzero, hslot] at he
      have he' : ahead n (next n i) (e - 1) = ahead n i e := by
        rw [ahead_next]
        congr 1
        omega
      simp only [hkk, if_false]
      split
      · -- the richer entry is displaced and carried on
        rename_i hrich
        have hmoved := holds_swap (k := k) (v := v) hin hslot
        have hcl : Climbs n home (Function.update s i (some (k, v))) := by
          apply ho.climbs.put v
          · rw [hdist]; exact hpred
          · simp only [rank, hslot]; omega
        have habs : Absent n (Function.update s i (some (k, v))) k' := by
          intro w hw
          obtain ⟨j, hj, hsj⟩ := hw
          by_cases hji : j = i
          · subst hji
            simp only [Function.update_self, Option.some.injEq, Prod.mk.injEq] at hsj
            exact hkk hsj.1.symm
          · rw [Function.update_of_ne hji] at hsj
            exact hji (ho.unique j hj i hin k' w v' hsj hslot)
        have hempty : Function.update s i (some (k, v)) (ahead n (next n i) (e - 1)) = none := by
          rw [he']
          have hne : ahead n i e ≠ i := by
            intro heq
            simp [heq, hslot] at he
          rw [Function.update_of_ne hne]
          exact he
        obtain ⟨s', hrun, hord, hholds, hocc⟩ :=
          ih (v := v') (e := e - 1) ⟨hcl, ho.unique.put v ha⟩ habs
            (i := next n i) (d := dist n (home k') i + 1)
            (by rw [← next_ahead, ahead_dist (hhome k') hin])
            (by
              intro j hj hnj
              have hji := next_injective hj hin hnj
              subst hji
              simp only [rank, Function.update_self, hdist]
              omega)
            hempty (by omega) (by omega)
        refine ⟨s', hrun, hord, ?_, ?_⟩
        · intro a b
          rw [hholds, hmoved]
        · rw [hocc, occupied_replace _ _ hslot]
      · rename_i hpoor
        exact ih ho ha (by rw [hi, next_ahead])
          (by
            intro j hj hnj
            have hji := next_injective hj hin hnj
            subst hji
            simp only [rank, hslot]
            omega)
          (by rw [he']; exact he) (by omega) (by omega)

theorem Climbs.clear {s : Slots K V} (hc : Climbs n home s) {hole : Nat}
    (hne : next n hole ≠ hole) (hrank : rank n home s (next n hole) ≤ 1)
    (hu : Unique n (Function.update s hole none)) :
    Ordered n home (Function.update s hole none) := by
  refine ⟨?_, hu⟩
  intro j hj
  by_cases hjh : j = hole
  · subst hjh
    simpa [rank, Function.update_of_ne hne] using hrank
  · by_cases hnj : next n j = hole
    · simp [rank, hnj]
    · have hstep := hc j hj
      simp only [rank] at hstep ⊢
      rw [Function.update_of_ne hnj, Function.update_of_ne hjh]
      exact hstep

section shift
variable {s : Slots K V} {hole : Nat} {k : K} {v : V} (hne : next n hole ≠ hole)
  (hslot : s (next n hole) = some (k, v))
include hne hslot

/-- The entry of the next slot, which is not at home, moves into the hole. -/
theorem Climbs.shift (hhome : ∀ k, home k < n) (hc : Climbs n home s) {x : K × V} (hh : hole < n)
    (hx : s hole = some x) (hzero : dist n (home k) (next n hole) ≠ 0) :
    Climbs n home (Function.update s hole (some (k, v))) := by
  have hdist := dist_next (hhome k) hh hzero
  have hclimb := hc hole hh
  simp only [rank, hslot, hx] at hclimb
  intro j hj
  have hstep := hc j hj
  by_cases hjh : j = hole
  · subst hjh
    simp only [rank, Function.update_of_ne hne, hslot, Function.update_self]
    omega
  · by_cases hnj : next n j = hole
    · rw [hnj] at hstep ⊢
      simp only [rank, hx, Function.update_self, Function.update_of_ne hjh] at hstep ⊢
      omega
    · simp only [rank, Function.update_of_ne hjh, Function.update_of_ne hnj] at hstep ⊢
      exact hstep

/-- Without its stale entry the hole is filled by the entry the next slot gives up. -/
theorem shift_keeps (hh : hole < n) (hu : Unique n (Function.update s hole none)) :
    Unique n (Function.update (Function.update s hole (some (k, v))) (next n hole) none) ∧
    ∀ a b, Holds n (Function.update (Function.update s hole (some (k, v))) (next n hole) none) a b ↔
      Holds n (Function.update s hole none) a b := by
  have hnh := next_lt hole (show 0 < n by omega)
  have hgap : Function.update s hole none (next n hole) = some (k, v) := by
    rw [Function.update_of_ne hne]
    exact hslot
  have hcleared := holds_clear hu hnh hgap
  have hshape : Function.update (Function.update s hole (some (k, v))) (next n hole) none =
      Function.update (Function.update (Function.update s hole none) (next n hole) none)
        hole (some (k, v)) := by
    rw [Function.update_comm hne.symm (some (k, v)) none s,
      Function.update_comm hne.symm none none s, Function.update_idem]
  have habs : Absent n (Function.update (Function.update s hole none) (next n hole) none) k :=
    fun w hw => ((hcleared k w).mp hw).2 rfl
  have hfree : Function.update (Function.update s hole none) (next n hole) none hole = none := by
    rw [Function.update_of_ne hne.symm]
    simp
  rw [hshape]
  refine ⟨(hu.clear (next n hole)).put v habs, ?_⟩
  intro a b
  rw [holds_fill hh hfree, hcleared]
  constructor
  · rintro (⟨hold, -⟩ | ⟨rfl, rfl⟩)
    · exact hold
    · exact ⟨next n hole, hnh, hgap⟩
  · intro hold
    by_cases hak : a = k
    · subst hak
      exact Or.inr ⟨rfl, hu.holds_eq hold ⟨next n hole, hnh, hgap⟩⟩
    · exact Or.inl ⟨hold, hak⟩

end shift

/-- The entry at the hole is stale; clearing the hole at the end leaves the ranks climbing. -/
theorem backshift_spec (hhome : ∀ k, home k < n) (fuel : Nat) {s : Slots K V}
    (hc : Climbs n home s) {hole e : Nat} {x : K × V} (hh : hole < n) (hx : s hole = some x)
    (hu : Unique n (Function.update s hole none))
    (he : s (ahead n hole (e + 1)) = none) (hen : e + 1 < n) (hf : e < fuel) :
    ∃ s', backshift n home s fuel hole = some s' ∧ Ordered n home s' ∧
      (∀ k v, Holds n s' k v ↔ Holds n (Function.update s hole none) k v) ∧
      occupied n s' + 1 = occupied n s := by
  induction fuel generalizing s hole e x with
  | zero => omega
  | succ fuel ih =>
    have hnh := next_lt hole (show 0 < n by omega)
    have hne : next n hole ≠ hole := by
      rw [next_eq hh]
      split <;> omega
    unfold backshift
    cases hslot : s (next n hole) with
    | none =>
      exact ⟨_, rfl, hc.clear hne (by simp [rank, hslot]) hu, fun _ _ => Iff.rfl,
        occupied_clear hh hx⟩
    | some entry =>
      obtain ⟨k, v⟩ := entry
      by_cases hzero : dist n (home k) (next n hole) = 0
      · simp only [hzero, if_true]
        exact ⟨_, rfl, hc.clear hne (by simp [rank, hslot, hzero]) hu, fun _ _ => Iff.rfl,
          occupied_clear hh hx⟩
      · simp only [hzero, if_false]
        obtain ⟨hu', hmove⟩ := shift_keeps hne hslot hh hu
        have he0 : e ≠ 0 := by
          rintro rfl
          have hone : ahead n hole (0 + 1) = next n hole := rfl
          rw [hone, hslot] at he
          simp at he
        have hempty : Function.update s hole (some (k, v)) (ahead n (next n hole) (e - 1 + 1)) =
            none := by
          have hidx : ahead n (next n hole) (e - 1 + 1) = ahead n hole (e + 1) := by
            rw [ahead_next]
            congr 1
            omega
          rw [hidx]
          have hneh : ahead n hole (e + 1) ≠ hole := by
            intro heq
            simp [heq, hx] at he
          rw [Function.update_of_ne hneh]
          exact he
        obtain ⟨s', hrun, hord, hholds, hocc⟩ :=
          ih (e := e - 1) (x := (k, v)) (Climbs.shift hne hslot hhome hc hh hx hzero) hnh
            (by rw [Function.update_of_ne hne]; exact hslot) hu' hempty (by omega) (by omega)
        refine ⟨s', hrun, hord, ?_, ?_⟩
        · intro a b
          rw [hholds, hmove]
        · rw [hocc, occupied_replace _ _ hx]

end probing

section operations
variable {K V : Type} {n : Nat} {home : K → Nat} {s : Slots K V}

theorem exists_empty_ahead {a : Nat} (ha : a < n) (hroom : occupied n s < n) :
    ∃ e < n, s (ahead n a e) = none := by
  obtain ⟨i, hi, hs⟩ := occupied_lt_exists_empty hroom
  exact ⟨dist n a i, dist_lt a i (by omega), by rw [ahead_dist ha hi]; exact hs⟩

theorem Unique.card_eq_occupied (hu : Unique n s) (keys : Finset K)
    (hkeys : ∀ k, k ∈ keys ↔ ∃ v, Holds n s k v) : keys.card = occupied n s := by
  have hfst : ∀ i, (s i).isSome → ∃ k v, s i = some (k, v) := by
    intro i h
    obtain ⟨⟨k, v⟩, hkv⟩ := Option.isSome_iff_exists.mp h
    exact ⟨k, v, hkv⟩
  symm
  refine Finset.card_bij (fun i hi => ((s i).get (Finset.mem_filter.mp hi).2).1) ?_ ?_ ?_
  · intro i hi
    obtain ⟨hin, hsome⟩ := Finset.mem_filter.mp hi
    obtain ⟨k, v, hkv⟩ := hfst i hsome
    simp only [hkv, Option.get_some]
    exact (hkeys k).mpr ⟨v, i, Finset.mem_range.mp hin, hkv⟩
  · intro i hi j hj heq
    obtain ⟨hin, hisome⟩ := Finset.mem_filter.mp hi
    obtain ⟨hjn, hjsome⟩ := Finset.mem_filter.mp hj
    obtain ⟨k, v, hkv⟩ := hfst i hisome
    obtain ⟨k', w, hkw⟩ := hfst j hjsome
    simp only [hkv, hkw, Option.get_some] at heq
    subst heq
    exact hu i (Finset.mem_range.mp hin) j (Finset.mem_range.mp hjn) k v w hkv hkw
  · intro k hk
    obtain ⟨v, i, hi, hs⟩ := (hkeys k).mp hk
    refine ⟨i, Finset.mem_filter.mpr ⟨Finset.mem_range.mpr hi, by simp [hs]⟩, ?_⟩
    simp only [hs, Option.get_some]

variable (hhome : ∀ k, home k < n) (ho : Ordered n home s) (hroom : occupied n s < n)

include hhome ho hroom

theorem remove_spec {k : K} {v : V} {i : Nat} (hi : i < n) (hs : s i = some (k, v)) :
    ∃ s', backshift n home s n i = some s' ∧ Ordered n home s' ∧
      (∀ k' v', Holds n s' k' v' ↔ Holds n s k' v' ∧ k' ≠ k) ∧
      occupied n s' + 1 = occupied n s := by
  obtain ⟨e, hen, he⟩ := exists_empty_ahead hi hroom
  have he0 : e ≠ 0 := by
    rintro rfl
    rw [ahead_zero hi, hs] at he
    simp at he
  have hidx : e - 1 + 1 = e := by omega
  obtain ⟨s', hrun, hord, hholds, hocc⟩ :=
    backshift_spec hhome n ho.climbs (e := e - 1) hi hs (ho.unique.clear i)
      (by rw [hidx]; exact he) (by omega) (by omega)
  refine ⟨s', hrun, hord, ?_, hocc⟩
  intro k' v'
  rw [hholds, holds_clear ho.unique hi hs]

variable [DecidableEq K]

theorem search_spec (k : K) :
    (∃ i < n, ∃ v, search n home s k n (home k) 0 = some (some i) ∧ s i = some (k, v)) ∨
      (search n home s k n (home k) 0 = some none ∧ Absent n s k) := by
  have hstart : ahead n (home k) 0 = home k := ahead_zero (hhome k)
  by_cases hk : Absent n s k
  · obtain ⟨e, hen, he⟩ := exists_empty_ahead (hhome k) hroom
    have hmiss : search n home s k n (ahead n (home k) 0) 0 = some none :=
      search_miss (by omega) hk n 0 e (by simpa using he) hen
    rw [hstart] at hmiss
    exact Or.inr ⟨hmiss, hk⟩
  · unfold Absent at hk
    push Not at hk
    obtain ⟨v, i, hi, hs⟩ := hk
    have hd := dist_lt (home k) i (show 0 < n by omega)
    have hhit := search_hit ho (hhome k) hi hs n 0 (by omega) (by omega)
    rw [hstart] at hhit
    exact Or.inl ⟨i, hi, v, hhit, hs⟩

theorem place_spec (k : K) (v : V) :
    ∃ s' filled, place n home s n k v (home k) 0 = some (s', filled) ∧ Ordered n home s' ∧
      (∀ k' v', Holds n s' k' v' ↔ (k' = k ∧ v' = v) ∨ (k' ≠ k ∧ Holds n s k' v')) ∧
      occupied n s' = occupied n s + filled.toNat := by
  have hstart : ahead n (home k) 0 = home k := ahead_zero (hhome k)
  by_cases hk : Absent n s k
  · obtain ⟨e, hen, he⟩ := exists_empty_ahead (hhome k) hroom
    obtain ⟨s', hrun, hord, hholds, hocc⟩ :=
      place_miss hhome n ho (v := v) (d := 0) hk hstart.symm (by simp) he (by omega) hen
    refine ⟨s', true, hrun, hord, ?_, hocc⟩
    intro k' v'
    rw [hholds]
    constructor
    · rintro (hold | hnew)
      · refine Or.inr ⟨?_, hold⟩
        rintro rfl
        exact hk v' hold
      · exact Or.inl hnew
    · rintro (hnew | ⟨-, hold⟩)
      · exact Or.inr hnew
      · exact Or.inl hold
  · unfold Absent at hk
    push Not at hk
    obtain ⟨w, i, hi, hs⟩ := hk
    have hd := dist_lt (home k) i (show 0 < n by omega)
    have hhit := place_hit ho (w := v) (hhome k) hi hs n 0 (by omega) (by omega)
    rw [hstart] at hhit
    have hcl : Climbs n home (Function.update s i (some (k, v))) := by
      intro j hj
      have hrank : ∀ j, rank n home (Function.update s i (some (k, v))) j = rank n home s j := by
        intro j
        by_cases hji : j = i
        · subst hji; simp [rank, hs]
        · simp [rank, Function.update_of_ne hji]
      rw [hrank, hrank]
      exact ho.climbs j hj
    have hgone := holds_clear ho.unique hi hs
    have hkeep : ∀ k' v', Holds n (Function.update s i (some (k, v))) k' v' ↔
        (k' = k ∧ v' = v) ∨ (k' ≠ k ∧ Holds n s k' v') := by
      intro k' v'
      have hfill := holds_fill (s := Function.update s i none) (k := k) (v := v) hi (by simp) k' v'
      rw [Function.update_idem, hgone] at hfill
      rw [hfill]
      tauto
    have hun : Unique n (Function.update s i (some (k, v))) := by
      have habs : Absent n (Function.update s i none) k := fun x hx => ((hgone k x).mp hx).2 rfl
      have hput := (ho.unique.clear i).put v (i := i) habs
      rwa [Function.update_idem] at hput
    refine ⟨_, false, hhit, ⟨hcl, hun⟩, hkeep, ?_⟩
    simp [occupied_replace _ _ hs]

end operations

end RobinHood
