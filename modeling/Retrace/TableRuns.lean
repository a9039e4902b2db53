import Retrace.IdentityHashMap

/-! The words of a table after any calls, growing ones among them, and how far its loops go. -/

set_option autoImplicit false

namespace Retrace
open RobinHood

inductive TableCall where
  | hash (call : HashCall)
  | grow
  deriving DecidableEq, Repr

def TableCall.KeyOk (p : Platform) : TableCall → Prop
  | .hash call => call.KeyOk p
  | .grow => True

def tableCall (p : Platform) (interp : IdentityHashes) : TableCall → Option IdentityHashes
  | .hash call => (hashCall p interp call).map Prod.snd
  | .grow => (growIdentityHashTable p interp).map Prod.snd

def tableRun (p : Platform) : List TableCall → IdentityHashes → Option IdentityHashes
  | [], interp => some interp
  | call :: calls, interp => do
    let interp ← tableCall p interp call
    tableRun p calls interp

/-- Some calls on aligned keys lead from a fresh interpreter here, whatever allocations failed. -/
def TableReached (p : Platform) (interp : IdentityHashes) : Prop :=
  ∃ malloc calls, (∀ call ∈ calls, TableCall.KeyOk p call) ∧
    tableRun p calls (freshIdentityHashes malloc) = some interp

section runs
variable {p : Platform}

theorem growIdentityHashTable_refines {interp : IdentityHashes} {m : HashMap}
    (h : Refines p interp m) : ∃ status interp',
      growIdentityHashTable p interp = some (status, interp') ∧ Refines p interp' m := by
  obtain ⟨status, interp', hrun, ⟨-, hkeep⟩ | ⟨-, t, ht, hcore, hm, hroom, -⟩⟩ :=
    growIdentityHashTable_spec h
  · refine ⟨status, interp', hrun, ?_⟩
    unfold Refines at h ⊢
    rw [hkeep]
    exact h
  · refine ⟨status, interp', hrun, ?_⟩
    unfold Refines
    rw [ht]
    exact ⟨⟨hcore, by omega⟩, hm⟩

theorem hashCall_refines {interp : IdentityHashes} {m : HashMap} (h : Refines p interp m)
    {call : HashCall} (hk : call.KeyOk p) : ∃ reply interp' m',
      hashCall p interp call = some (reply, interp') ∧ Refines p interp' m' := by
  cases call with
  | set obj value =>
    obtain ⟨status, interp', hrun, ⟨-, hkeep⟩ | ⟨-, hset⟩⟩ := setIdentityHash_spec h hk value
    · refine ⟨.set status, interp', m, by simp [hashCall, hrun], ?_⟩
      unfold Refines at h ⊢
      rw [hkeep]
      exact h
    · exact ⟨.set status, interp', _, by simp [hashCall, hrun], hset⟩
  | lookup obj value =>
    have hrun := lookupIdentityHash_spec h hk value
    exact ⟨_, interp, m, by rw [hashCall, hrun, Option.bind_eq_bind, Option.bind_some], h⟩
  | delete obj =>
    obtain ⟨interp', hrun, hdelete⟩ := deleteIdentityHash_spec h hk
    exact ⟨_, interp', _, by rw [hashCall, hrun, Option.bind_eq_bind, Option.bind_some], hdelete⟩
  | clear => exact ⟨.clear, _, ∅, rfl, clearIdentityHashTable_spec interp⟩

theorem tableCall_refines {interp : IdentityHashes} {m : HashMap} (h : Refines p interp m)
    {call : TableCall} (hk : call.KeyOk p) :
    ∃ interp' m', tableCall p interp call = some interp' ∧ Refines p interp' m' := by
  cases call with
  | hash call =>
    obtain ⟨reply, interp', m', hrun, hnext⟩ := hashCall_refines h hk
    exact ⟨interp', m', by simp [tableCall, hrun], hnext⟩
  | grow =>
    obtain ⟨status, interp', hrun, hnext⟩ := growIdentityHashTable_refines h
    exact ⟨interp', m, by simp [tableCall, hrun], hnext⟩

theorem tableRun_refines {calls : List TableCall}
    (hk : ∀ call ∈ calls, TableCall.KeyOk p call) {interp : IdentityHashes} {m : HashMap}
    (h : Refines p interp m) :
    ∃ interp' m', tableRun p calls interp = some interp' ∧ Refines p interp' m' := by
  induction calls generalizing interp m with
  | nil => exact ⟨interp, m, rfl, h⟩
  | cons call calls ih =>
    obtain ⟨mid, m', hcall, hmid⟩ := tableCall_refines h (hk call List.mem_cons_self)
    obtain ⟨final, m'', hrest, hfinal⟩ := ih (fun c hc => hk c (List.mem_cons_of_mem _ hc)) hmid
    exact ⟨final, m'', by simp [tableRun, hcall, hrest], hfinal⟩

theorem freshIdentityHashes_refines (malloc : RawMalloc) :
    Refines p (freshIdentityHashes malloc) ∅ := rfl

theorem TableReached.refines {interp : IdentityHashes} (h : TableReached p interp) :
    ∃ m, Refines p interp m := by
  obtain ⟨malloc, calls, hk, hrun⟩ := h
  obtain ⟨interp', m, hrun', href⟩ := tableRun_refines hk (freshIdentityHashes_refines malloc)
  rw [hrun, Option.some.injEq] at hrun'
  rw [hrun']
  exact ⟨m, href⟩

theorem Refines.table {interp : IdentityHashes} {m : HashMap} (h : Refines p interp m)
    {t : IdentityHashTable} (ht : interp.identityHashes = some t) :
    TableOk p t ∧ Contents p t m := by
  unfold Refines at h
  rw [ht] at h
  exact h

theorem TableReached.table {interp : IdentityHashes} (h : TableReached p interp)
    {t : IdentityHashTable} (ht : interp.identityHashes = some t) :
    ∃ m, TableOk p t ∧ Contents p t m := by
  obtain ⟨m, href⟩ := h.refines
  exact ⟨m, href.table ht⟩

end runs

/-! ## The words -/

/-- How many slots forward from the home of its key an entry is. -/
def homeDistance (p : Platform) (t : IdentityHashTable) (i : Nat) : Nat :=
  dist (t.mask + 1) (home p t.mask (identityHashEntryKey p (t.key i))) i

structure RobinHoodWords (p : Platform) (t : IdentityHashTable) : Prop where
  capacity : identityHashCapacity p t = t.mask + 1
  length : t.keys.length = t.mask + 1
  power : ∃ e, t.mask + 1 = 2 ^ e
  min_capacity : 16 ≤ t.mask + 1
  used_eq : t.used = t.keys.countP (fun entry => entry != 0)
  used_le : t.used ≤ t.resizeAt
  resizeAt_lt : t.resizeAt < t.mask + 1
  unique : ∀ i < t.mask + 1, ∀ j < t.mask + 1, t.key i ≠ 0 → t.key j ≠ 0 →
    identityHashEntryKey p (t.key i) = identityHashEntryKey p (t.key j) → i = j
  lowBits : ∀ i < t.mask + 1, t.key i ≠ 0 →
    identityHashEntryPsl (t.key i) = min 7 (homeDistance p t i)
  exactPsl : ∀ i < t.mask + 1, t.key i ≠ 0 →
    identityHashExactPsl p (identityHashEntryKey p (t.key i)) i t.mask = homeDistance p t i
  climbs : ∀ i < t.mask + 1, t.key (next (t.mask + 1) i) ≠ 0 →
    homeDistance p t (next (t.mask + 1) i) ≤
      (if t.key i = 0 then 0 else homeDistance p t i + 1)

section words
variable {p : Platform} {t : IdentityHashTable}

theorem occupied_countP (hlength : t.keys.length = t.mask + 1) :
    occupied (t.mask + 1) (slots p t) = t.keys.countP (fun entry => entry != 0) := by
  have hkeys : t.keys = (List.range (t.mask + 1)).map t.key := by
    apply List.ext_getElem
    · simp [hlength]
    · intro i hi _
      simp [IdentityHashTable.key, hi]
  have hcard : occupied (t.mask + 1) (slots p t) =
      (List.range (t.mask + 1)).countP (fun i => decide ((slots p t i).isSome = true)) := by
    rw [List.countP_eq_length_filter]
    rfl
  rw [hcard]
  conv => rhs; rw [hkeys, List.countP_map]
  congr 1
  funext i
  rw [Bool.eq_iff_iff, decide_eq_true_eq, Option.isSome_iff_ne_none, Ne, slots_eq_none_iff]
  simp

theorem rank_of_key {i : Nat} (hne : t.key i ≠ 0) :
    rank (t.mask + 1) (home p t.mask) (slots p t) i = homeDistance p t i + 1 := by
  simp [rank, slots, homeDistance, hne]

theorem TableOk.robinHoodWords (h : TableOk p t) : RobinHoodWords p t := by
  have hresize := h.resizeAt_eq
  refine ⟨h.toTableCore.capacity_eq, h.keys_length, h.isPow, h.min_capacity, ?_, h.used_le, ?_,
    ?_, ?_, ?_, ?_⟩
  · rw [h.used_eq, occupied_countP h.keys_length]
  · omega
  · intro i hi j hj hzi hzj hkey
    obtain ⟨ki, -, hsi, -, hki, -, -⟩ := h.decode hi hzi
    obtain ⟨kj, -, hsj, -, hkj, -, -⟩ := h.decode hj hzj
    rw [hki, hkj] at hkey
    subst hkey
    exact h.ordered.unique i hi j hj _ _ _ hsi hsj
  · intro i hi hz
    obtain ⟨k, -, -, -, hk, hpsl, -⟩ := h.decode hi hz
    rw [hpsl, homeDistance, hk]
  · intro i _ _
    exact exactPsl_eq_dist h.pow _ i
  · intro i hi hz
    have hclimb := h.ordered.climbs i hi
    rw [rank_of_key hz] at hclimb
    by_cases hzi : t.key i = 0
    · have hrank : rank (t.mask + 1) (home p t.mask) (slots p t) i = 0 := by
        simp [rank, slots, hzi]
      rw [if_pos hzi]
      omega
    · rw [rank_of_key hzi] at hclimb
      rw [if_neg hzi]
      omega

/-- After any calls and growths from a fresh interpreter, whatever allocations fail, the words of
the table are in Robin Hood order. -/
theorem tableRun_robinHoodWords (malloc : RawMalloc) {calls : List TableCall}
    (hkeys : ∀ call ∈ calls, TableCall.KeyOk p call) :
    ∃ interp, tableRun p calls (freshIdentityHashes malloc) = some interp ∧
      ∀ t, interp.identityHashes = some t → RobinHoodWords p t := by
  obtain ⟨interp, m, hrun, href⟩ := tableRun_refines hkeys (freshIdentityHashes_refines malloc)
  exact ⟨interp, hrun, fun t ht => (href.table ht).1.robinHoodWords⟩

end words

theorem objectKey_sixteen : ObjectKey ⟨true, true⟩ 16 := ⟨by decide, by decide, by decide⟩

/-- The third allocation fails: the first set finds no table, the next one does. -/
theorem tableRun_robinHoodWords_regrown :
    ∃ interp, tableRun ⟨true, true⟩ [.hash (.set 16 1), .grow, .hash (.set 16 2), .grow]
        (freshIdentityHashes ⟨fun n => n == 2, fun _ _ => 0, 0⟩) = some interp ∧
      ∀ t, interp.identityHashes = some t → RobinHoodWords ⟨true, true⟩ t := by
  apply tableRun_robinHoodWords
  intro call hcall
  simp only [List.mem_cons, List.not_mem_nil, or_false] at hcall
  rcases hcall with rfl | rfl | rfl | rfl
  · exact objectKey_sixteen
  · exact trivial
  · exact objectKey_sixteen
  · exact trivial

/-! ## The loops -/

/-- The loop ends in as many iterations as the bound, and any more would not be used. -/
def EndsWithin {α : Type} (bound : Nat) (loop : Nat → Option α) : Prop :=
  ∃ result, ∀ fuel, bound ≤ fuel → loop fuel = some result

/-- The search of lookup and delete, the backshift of delete and the insertion, each within one
turn of the table. -/
structure LoopsEnd (p : Platform) (t : IdentityHashTable) (key : Nat) : Prop where
  search : EndsWithin (identityHashCapacity p t) (fun fuel =>
    probeLoop p t key fuel (identityHashIndex p key t.mask) 0)
  backshift : ∀ index, probe p t key = some (some index) →
    EndsWithin (identityHashCapacity p t) (fun fuel =>
      backshiftLoop p fuel { t with used := t.used - 1 } index)
  insertion : ∀ value, EndsWithin (identityHashCapacity p t) (fun fuel =>
    insertKnownRoomLoop p fuel t key value (identityHashIndex p key t.mask) 0)

section loops
variable {p : Platform} {t : IdentityHashTable} {key : Nat}

theorem EndsWithin.of_bound {α : Type} {bound : Nat} {loop : Nat → Option α} {result : α}
    (hmore : ∀ fuel r, loop fuel = some r → loop (fuel + 1) = some r)
    (h : loop bound = some result) : EndsWithin bound loop := by
  refine ⟨result, ?_⟩
  intro fuel hle
  induction fuel, hle using Nat.le_induction with
  | base => exact h
  | succ fuel _ ih => exact hmore fuel result ih

theorem probeLoop_more (fuel : Nat) {index psl : Nat} {r : Option Nat}
    (h : probeLoop p t key fuel index psl = some r) :
    probeLoop p t key (fuel + 1) index psl = some r := by
  induction fuel generalizing index psl with
  | zero => simp [probeLoop] at h
  | succ fuel ih =>
    unfold probeLoop at h ⊢
    dsimp only at h ⊢
    split_ifs at h ⊢ <;> first | exact h | exact ih h

theorem insertKnownRoomLoop_more (fuel : Nat) {t t' : IdentityHashTable} {key : Nat} {value : Int}
    {index psl : Nat} (h : insertKnownRoomLoop p fuel t key value index psl = some t') :
    insertKnownRoomLoop p (fuel + 1) t key value index psl = some t' := by
  induction fuel generalizing t key value index psl with
  | zero => simp [insertKnownRoomLoop] at h
  | succ fuel ih =>
    unfold insertKnownRoomLoop at h ⊢
    dsimp only at h ⊢
    split_ifs at h ⊢ <;> first | exact h | exact ih h

theorem backshiftLoop_more (fuel : Nat) {t t' : IdentityHashTable} {hole : Nat}
    (h : backshiftLoop p fuel t hole = some t') :
    backshiftLoop p (fuel + 1) t hole = some t' := by
  induction fuel generalizing t hole with
  | zero => simp [backshiftLoop] at h
  | succ fuel ih =>
    unfold backshiftLoop at h ⊢
    dsimp only at h ⊢
    split_ifs at h ⊢ <;> first | exact h | exact ih h

theorem insertKnownRoom_ends (h : TableCore p t) {m : HashMap} (hm : Contents p t m)
    (hroom : t.used < t.mask + 1) (hk : ObjectKey p key) (value : Int) :
    EndsWithin (identityHashCapacity p t) (fun fuel =>
      insertKnownRoomLoop p fuel t key value (identityHashIndex p key t.mask) 0) := by
  obtain ⟨t', hrun, -⟩ := insertKnownRoom_spec h hm hroom hk value
  apply EndsWithin.of_bound
  · intro fuel r hr
    exact insertKnownRoomLoop_more fuel hr
  · rw [h.capacity_eq]
    exact hrun

theorem probe_ends (h : TableCore p t) {m : HashMap} (hm : Contents p t m)
    (hroom : t.used < t.mask + 1) (hk : ObjectKey p key) :
    EndsWithin (identityHashCapacity p t) (fun fuel =>
      probeLoop p t key fuel (identityHashIndex p key t.mask) 0) := by
  obtain ⟨r, hrun⟩ : ∃ r, probe p t key = some r := by
    obtain ⟨i, -, hrun, -⟩ | ⟨hrun, -⟩ := probe_spec h hm hroom hk
    · exact ⟨some i, hrun⟩
    · exact ⟨none, hrun⟩
  apply EndsWithin.of_bound
  · intro fuel r hr
    exact probeLoop_more fuel hr
  · rw [h.capacity_eq]
    exact hrun

theorem backshift_ends (h : TableCore p t) {m : HashMap} (hm : Contents p t m)
    (hroom : t.used < t.mask + 1) (hk : ObjectKey p key) {index : Nat}
    (hfound : probe p t key = some (some index)) :
    EndsWithin (identityHashCapacity p t) (fun fuel =>
      backshiftLoop p fuel { t with used := t.used - 1 } index) := by
  obtain ⟨i, hi, hrun, hs, -⟩ | ⟨hrun, -⟩ := probe_spec h hm hroom hk
  · rw [hfound, Option.some.injEq, Option.some.injEq] at hrun
    subst hrun
    obtain ⟨t', hshift, -⟩ := backshift_removes h hm hroom hi hs
    apply EndsWithin.of_bound
    · intro fuel r hr
      exact backshiftLoop_more fuel hr
    · rw [h.capacity_eq]
      exact hshift
  · rw [hfound] at hrun
    simp at hrun

/-- Every insertion of a rehash ends within one turn of the new table: the one of slot `i` goes
into the table that the slots before it have filled. -/
def RehashEnds (p : Platform) (t : IdentityHashTable) (malloc : RawMalloc) : Prop :=
  ∀ new malloc', newIdentityHashTable p (identityHashCapacity p t * 2 % 2 ^ p.bits) malloc =
      some (some new, malloc') →
    ∀ i ≤ identityHashCapacity p t, ∃ mid, rehashLoop p t (List.range i) new = some mid ∧
      ∀ key, ObjectKey p key → ∀ value,
        EndsWithin (identityHashCapacity p mid) (fun fuel =>
          insertKnownRoomLoop p fuel mid key value (identityHashIndex p key mid.mask) 0)

theorem rehash_ends (h : TableCore p t) (malloc : RawMalloc) : RehashEnds p t malloc := by
  intro new malloc' hnew i hi
  have hfit := capacity_fits h.isPow h.bytes
  rw [h.capacity_eq, Nat.mod_eq_of_lt hfit.2] at hnew
  rw [h.capacity_eq] at hi
  obtain ⟨r, m', hrun, hspec⟩ := newIdentityHashTable_spec (p := p) ((t.mask + 1) * 2) malloc
  rw [hnew, Option.some.injEq, Prod.mk.injEq] at hrun
  obtain ⟨hcore, hused, hmin, -, hempty⟩ := hspec new hrun.1.symm
  have hroom : new.used + (List.range i).length < new.mask + 1 := by
    rw [List.length_range]
    omega
  have hlt : ∀ j ∈ [] ++ List.range i, j < t.mask + 1 := by
    intro j hj
    have hji := List.mem_range.mp hj
    omega
  obtain ⟨mid, m, hmid, hcore', hsame, hm', hle, -⟩ :=
    rehashLoop_spec h hlt hcore (contents_empty hempty) hroom (by simp)
  refine ⟨mid, hmid, ?_⟩
  intro key hk value
  apply insertKnownRoom_ends hcore' hm' _ hk value
  rw [hsame.mask]
  omega

/-- On every table that calls lead to, and while one is rehashed, no loop goes further than once
around. -/
theorem reached_loopsEnd {interp : IdentityHashes} (h : TableReached p interp)
    (ht : interp.identityHashes = some t) (hk : ObjectKey p key) :
    LoopsEnd p t key ∧ RehashEnds p t interp.malloc := by
  obtain ⟨m, hok, hm⟩ := h.table ht
  refine ⟨⟨?_, ?_, ?_⟩, ?_⟩
  · exact probe_ends hok.toTableCore hm hok.room hk
  · intro index hfound
    exact backshift_ends hok.toTableCore hm hok.room hk hfound
  · intro value
    exact insertKnownRoom_ends hok.toTableCore hm hok.room hk value
  · exact rehash_ends hok.toTableCore interp.malloc

end loops

theorem tableReached_one : ∃ interp t, TableReached ⟨true, true⟩ interp ∧
    interp.identityHashes = some t ∧ t.used = 1 := by
  have hused : ((tableRun ⟨true, true⟩ [.hash (.set 16 1)]
      (freshIdentityHashes ⟨fun _ => false, fun _ _ => 0, 0⟩)).bind (fun interp =>
        interp.identityHashes)).map IdentityHashTable.used = some 1 := by
    decide +kernel
  rw [Option.map_eq_some_iff] at hused
  obtain ⟨t, hbind, hone⟩ := hused
  obtain ⟨interp, hrun, ht⟩ := Option.bind_eq_some_iff.mp hbind
  refine ⟨interp, t, ⟨_, _, ?_, hrun⟩, ht, hone⟩
  intro call hcall
  rw [List.mem_singleton] at hcall
  rw [hcall]
  exact objectKey_sixteen

theorem reached_loopsEnd_one : ∃ (interp : IdentityHashes) (t : IdentityHashTable),
    interp.identityHashes = some t ∧ t.used = 1 ∧
    LoopsEnd ⟨true, true⟩ t 16 ∧ RehashEnds ⟨true, true⟩ t interp.malloc := by
  obtain ⟨interp, t, hreached, ht, hone⟩ := tableReached_one
  exact ⟨interp, t, ht, hone, reached_loopsEnd hreached ht objectKey_sixteen⟩

end Retrace
