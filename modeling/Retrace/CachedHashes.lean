import Retrace.PointerHashes

/-! Pointer hashes over runs of calls in which any allocation of the table may fail. -/

set_option autoImplicit false

namespace Retrace
open RobinHood

def PointerCall.WordOk (p : Platform) : PointerCall → Prop
  | .allocate _ => True
  | .hash ptr _ => ptr < 2 ^ p.bits
  | .delete ptr => ptr < 2 ^ p.bits

def InTable (p : Platform) (interp : IdentityHashes) (ptr : Nat) : Prop :=
  match interp.identityHashes with
  | none => False
  | some table => ∃ v, Holds (table.mask + 1) (slots p table) ptr v

/-- The table has room for one more entry, or a table of the next capacity is within the size limit
and its three allocations succeed. -/
def FindsMemory (p : Platform) (interp : IdentityHashes) : Prop :=
  mustGrow p interp = false ∨ grownCapacity interp * p.wordBytes ≤ p.sizeMax ∧
    ∀ k < 3, interp.malloc.fails (interp.malloc.calls + k) = false

/-- Whatever calls come next, unless one deletes the pointer, its hash is the one that is returned
here. -/
def KeepsHash (p : Platform) (raw : Nat → Int) (interp : IdentityHashes) (ptr : Nat)
    (m : Machine) : Prop :=
  ∃ v interp', pointerCall p raw (fun ptr => ptr) interp (.hash ptr m) = some ([v], interp') ∧
    ∀ calls : List PointerCall, (∀ call ∈ calls, call.WordOk p ∧ call ≠ .delete ptr) → ∀ m',
      ∃ values last last', pointerRun p raw (fun ptr => ptr) calls interp' = some (values, last) ∧
        pointerCall p raw (fun ptr => ptr) last (.hash ptr m') = some ([v], last')

section memory
variable {p : Platform} {interp : IdentityHashes} {map : HashMap}

theorem newCapacityLoop_pow {e : Nat} (he : 4 ≤ e) (hbits : e < p.bits) :
    newCapacityLoop p (2 ^ e) p.bits (2 ^ 4) = some (some (2 ^ e)) := by
  obtain ⟨r, hrun, hnone, hspec⟩ :=
    newCapacityLoop_spec (p := p) (2 ^ e) p.bits 4 (by omega) (by omega)
  have hfour : 2 ^ 4 ≤ 2 ^ e := Nat.pow_le_pow_right (by omega) he
  cases r with
  | none =>
    have hlarge := hnone rfl
    have hle : 2 ^ (e + 1) ≤ 2 ^ p.bits := Nat.pow_le_pow_right (by omega) hbits
    unfold Platform.sizeMax at hlarge
    rw [Nat.pow_succ] at hle
    omega
  | some c =>
    obtain ⟨hmin, hfirst, f, rfl, -⟩ := hspec c rfl
    rw [hrun, pow_of_lt_double hmin (by omega)]

theorem newIdentityHashTable_isSome {e : Nat} (he : 4 ≤ e) {malloc malloc' : RawMalloc}
    {table : Option IdentityHashTable}
    (hnew : newIdentityHashTable p (2 ^ e) malloc = some (table, malloc')) :
    table.isSome = true ↔ 2 ^ e * p.wordBytes ≤ p.sizeMax ∧
      ∀ k < 3, malloc.fails (malloc.calls + k) = false := by
  have hbytes : 0 < p.wordBytes := by
    unfold Platform.wordBytes
    split <;> omega
  have hbits : 4 < p.bits := by
    obtain h | h := p.bits_cases <;> omega
  have hthree : (∀ k < 3, malloc.fails (malloc.calls + k) = false) ↔
      malloc.fails malloc.calls = false ∧ malloc.fails (malloc.calls + 1) = false ∧
        malloc.fails (malloc.calls + 2) = false := by
    constructor
    · intro h
      exact ⟨h 0 (by omega), h 1 (by omega), h 2 (by omega)⟩
    · rintro ⟨h0, h1, h2⟩ k hk
      obtain rfl | rfl | rfl : k = 0 ∨ k = 1 ∨ k = 2 := by omega
      · exact h0
      · exact h1
      · exact h2
  obtain ⟨r, hloop, -, hspec⟩ :=
    newCapacityLoop_spec (p := p) (2 ^ e) p.bits 4 (by omega) hbits
  unfold newIdentityHashTable at hnew
  rw [show identityHashMinCapacity = 2 ^ 4 from rfl, hloop] at hnew
  by_cases hfit : 2 ^ e * p.wordBytes ≤ p.sizeMax
  · have hle : 2 ^ e ≤ p.sizeMax := Nat.le_trans (Nat.le_mul_of_pos_right _ hbytes) hfit
    have hlt : e < p.bits := by
      refine (Nat.pow_lt_pow_iff_right (a := 2) (by omega)).mp ?_
      have hpos := Nat.two_pow_pos p.bits
      unfold Platform.sizeMax at hle
      omega
    rw [newCapacityLoop_pow he hlt] at hloop
    cases hloop
    have hcapacity : ¬ 2 ^ e > p.sizeMax / p.wordBytes := by
      rw [Nat.not_lt, Nat.le_div_iff_mul_le hbytes]
      exact hfit
    simp only [Option.bind_eq_bind, Option.bind_some, hcapacity, if_false, rawMalloc] at hnew
    rw [hthree]
    cases h0 : malloc.fails malloc.calls <;> cases h1 : malloc.fails (malloc.calls + 1) <;>
      cases h2 : malloc.fails (malloc.calls + 2) <;>
      simp [h0, h1, h2] at hnew <;> simp [← hnew.1, hfit]
  · have hnone : table = none := by
      cases r with
      | none =>
        cases hnew
        rfl
      | some c =>
        obtain ⟨hmin, -⟩ := hspec c rfl
        have hcapacity : c > p.sizeMax / p.wordBytes := by
          rw [gt_iff_lt, Nat.div_lt_iff_lt_mul hbytes]
          have hmul := Nat.mul_le_mul_right p.wordBytes hmin
          omega
        simp only [Option.bind_eq_bind, Option.bind_some, hcapacity, if_true, Option.some.injEq,
          Prod.mk.injEq] at hnew
        exact hnew.1.symm
    rw [hnone]
    simp [hfit]

theorem growIdentityHashTable_zero (h : Refines p interp map) :
    (growIdentityHashTable p interp).map Prod.fst = some 0 ↔
      grownCapacity interp * p.wordBytes ≤ p.sizeMax ∧
        ∀ k < 3, interp.malloc.fails (interp.malloc.calls + k) = false := by
  obtain ⟨status, interp', hgrow, -⟩ := growIdentityHashTable_spec h
  unfold growIdentityHashTable at hgrow ⊢
  unfold grownCapacity
  unfold Refines at h
  cases htable : interp.identityHashes with
  | none =>
    obtain ⟨table, malloc, hnew, -⟩ :=
      newIdentityHashTable_spec (p := p) identityHashMinCapacity interp.malloc
    simp only [hnew, Option.bind_eq_bind, Option.bind_some]
    rw [show identityHashMinCapacity = 2 ^ 4 from rfl] at hnew ⊢
    rw [← newIdentityHashTable_isSome (Nat.le_refl 4) hnew]
    cases table <;> simp
  | some old =>
    rw [htable] at h hgrow
    obtain ⟨hok, -⟩ := h
    obtain ⟨e, he⟩ := hok.isPow
    have hdouble : (old.mask + 1) * 2 % 2 ^ p.bits = (old.mask + 1) * 2 :=
      Nat.mod_eq_of_lt (capacity_fits hok.isPow hok.bytes).2
    have hgt : ¬ (old.mask + 1) * 2 ≤ old.mask + 1 := by omega
    have hlarge : 4 ≤ e + 1 := by
      have hmin := hok.min_capacity
      rw [he, show identityHashMinCapacity = 2 ^ 4 from rfl] at hmin
      have hle := (Nat.pow_le_pow_iff_right (a := 2) (by omega)).mp hmin
      omega
    simp only [hok.toTableCore.capacity_eq, hdouble, hgt, if_false] at hgrow ⊢
    obtain ⟨table, malloc, hnew, -⟩ :=
      newIdentityHashTable_spec (p := p) ((old.mask + 1) * 2) interp.malloc
    simp only [hnew, Option.bind_eq_bind, Option.bind_some] at hgrow ⊢
    rw [he, ← Nat.pow_succ] at hnew ⊢
    rw [← newIdentityHashTable_isSome hlarge hnew]
    cases table with
    | none => simp
    | some new =>
      -- the entries are moved whenever there is a table to move them to
      dsimp only at hgrow ⊢
      rw [he] at hgrow
      cases hrehash : rehashLoop p old (List.range (2 ^ e)) new with
      | none =>
        rw [hrehash] at hgrow
        cases hgrow
      | some filled => simp

theorem canGrow_iff (h : Refines p interp map) : CanGrow p interp ↔ FindsMemory p interp := by
  unfold CanGrow FindsMemory
  rw [growIdentityHashTable_zero h]
  cases mustGrow p interp <;> simp

theorem setIdentityHash_of_not_canGrow (h : Refines p interp map) (hgrow : ¬ CanGrow p interp)
    (obj : Nat) (value : Int) : ∃ interp', setIdentityHash p interp obj value =
      some (-1, interp') ∧ Refines p interp' map := by
  unfold CanGrow at hgrow
  rw [Classical.not_imp] at hgrow
  obtain ⟨hfull, hstatus⟩ := hgrow
  obtain ⟨status, interp', hrun, ⟨rfl, hsame⟩ | ⟨rfl, -⟩⟩ := growIdentityHashTable_spec h
  · refine ⟨interp', ?_, ?_⟩
    · unfold setIdentityHash
      simp [hfull, hrun]
    · unfold Refines at h ⊢
      rw [hsame]
      exact h
  · rw [hrun] at hstatus
    exact absurd rfl hstatus

end memory

def missedHash (raw : Nat → Int) (context : HashContext) (ptr : Nat) : Int :=
  if context.useCoordinate then normalizePyHash context.coordinateHash else rawPointerHash raw ptr

/-- A table that stands for a map whose keys are all cacheable. -/
structure Caches (p : Platform) (interp : IdentityHashes) (map : HashMap) : Prop where
  refines : Refines p interp map
  keys : ∀ k, (map.lookup k).isSome → canCachePointerHash k = true

section calls
variable {p : Platform} (raw : Nat → Int) {interp : IdentityHashes} {map : HashMap} {ptr : Nat}

theorem Caches.insert (h : Caches p interp map) {interp' : IdentityHashes}
    (hc : canCachePointerHash ptr = true) {v : Int} (href : Refines p interp' (map.insert ptr v)) :
    Caches p interp' (map.insert ptr v) := by
  refine ⟨href, fun k hk => ?_⟩
  by_cases heq : k = ptr
  · rw [heq]
    exact hc
  · rw [Finmap.lookup_insert_of_ne _ heq] at hk
    exact h.keys k hk

theorem Refines.inTable (h : Refines p interp map) :
    InTable p interp ptr ↔ (map.lookup ptr).isSome := by
  unfold InTable
  unfold Refines at h
  split
  · rename_i htable
    rw [htable] at h
    rw [h, Finmap.lookup_empty]
    simp
  · rename_i table htable
    rw [htable] at h
    rw [Option.isSome_iff_exists]
    exact exists_congr (fun v => h.2 ptr v)

theorem Caches.miss (h : Caches p interp map) (hc : canCachePointerHash ptr = true)
    (hk : ObjectKey p ptr) (hlook : map.lookup ptr = none) (context : HashContext) :
    ∃ interp', hashPointer p raw context (some interp) ptr =
        some (missedHash raw context ptr, some interp') ∧
      (FindsMemory p interp ∧
          Caches p interp' (map.insert ptr (missedHash raw context ptr)) ∨
        ¬ FindsMemory p interp ∧ Caches p interp' map) := by
  rw [← canGrow_iff h.refines]
  by_cases hgrow : CanGrow p interp
  · obtain ⟨interp', hrun, href⟩ := hashPointer_first raw h.refines hgrow hc hk hlook context
    exact ⟨interp', hrun, Or.inl ⟨hgrow, h.insert hc href⟩⟩
  · have hlookup := lookupIdentityHash_spec h.refines hk 0
    rw [hlook] at hlookup
    obtain ⟨interp', hset, href⟩ := setIdentityHash_of_not_canGrow h.refines hgrow ptr
      (missedHash raw context ptr)
    unfold missedHash at hset
    refine ⟨interp', ?_, Or.inr ⟨hgrow, href, h.keys⟩⟩
    simp [hashPointer, hc, hlookup, hset, missedHash]

theorem pointerCall_hash {object : Nat} {m : Machine} {v : Int} {interp' : IdentityHashes}
    (hrun : hashPointer p raw (hashContext p m) (some interp) object = some (v, some interp')) :
    pointerCall p raw (fun ptr => ptr) interp (.hash object m) = some ([v], interp') := by
  unfold pointerCall
  dsimp only
  rw [hrun]
  rfl

theorem Caches.hit (h : Caches p interp map) (hw : ptr < 2 ^ p.bits) {v : Int}
    (hlook : map.lookup ptr = some v) (m : Machine) :
    pointerCall p raw (fun ptr => ptr) interp (.hash ptr m) = some ([v], interp) := by
  have hc := h.keys ptr (by rw [hlook]; rfl)
  exact pointerCall_hash raw
    (hashPointer_hit raw h.refines hc (objectKey_of_canCache hc hw) hlook (hashContext p m))

theorem Caches.call (h : Caches p interp map) {call : PointerCall} (hword : call.WordOk p) :
    ∃ values interp' map', pointerCall p raw (fun ptr => ptr) interp call =
        some (values, interp') ∧ Caches p interp' map' ∧
      ∀ ptr v, call ≠ .delete ptr → map.lookup ptr = some v → map'.lookup ptr = some v := by
  cases call with
  | allocate object => exact ⟨[], interp, map, rfl, h, fun _ _ _ hv => hv⟩
  | hash object m =>
    cases hc : canCachePointerHash object with
    | false =>
      exact ⟨_, interp, map, pointerCall_hash raw (hashPointer_uncached raw interp hc _), h,
        fun _ _ _ hv => hv⟩
    | true =>
      cases hlook : map.lookup object with
      | some v => exact ⟨[v], interp, map, h.hit raw hword hlook m, h, fun _ _ _ hv => hv⟩
      | none =>
        obtain ⟨interp', hrun, ⟨-, hstored⟩ | ⟨-, hkept⟩⟩ :=
          h.miss raw hc (objectKey_of_canCache hc hword) hlook (hashContext p m)
        · refine ⟨_, interp', _, pointerCall_hash raw hrun, hstored, fun ptr v _ hv => ?_⟩
          rw [Finmap.lookup_insert_of_ne _ (fun heq => ?_)]
          · exact hv
          · rw [heq, hlook] at hv
            cases hv
        · exact ⟨_, interp', map, pointerCall_hash raw hrun, hkept, fun _ _ _ hv => hv⟩
  | delete object =>
    obtain ⟨interp', hrun, href⟩ := deleteObjectIdentityHash_spec h.refines hword h.keys
    refine ⟨[], interp', map.erase object, ?_, ⟨href, fun k hk => ?_⟩, fun ptr v hother hv => ?_⟩
    · unfold pointerCall
      dsimp only
      rw [hrun]
      rfl
    · by_cases heq : k = object
      · rw [heq, Finmap.lookup_erase] at hk
        cases hk
      · rw [Finmap.lookup_erase_ne heq] at hk
        exact h.keys k hk
    · rw [Finmap.lookup_erase_ne (fun heq => hother (congrArg PointerCall.delete heq.symm))]
      exact hv

theorem Caches.run {calls : List PointerCall} (h : Caches p interp map)
    (hwords : ∀ call ∈ calls, call.WordOk p) :
    ∃ values interp' map', pointerRun p raw (fun ptr => ptr) calls interp =
        some (values, interp') ∧ Caches p interp' map' ∧
      ∀ ptr v, (∀ call ∈ calls, call ≠ .delete ptr) → map.lookup ptr = some v →
        map'.lookup ptr = some v := by
  induction calls generalizing interp map with
  | nil => exact ⟨[], interp, map, rfl, h, fun _ _ _ hv => hv⟩
  | cons call calls ih =>
    obtain ⟨values, mid, map', hcall, hmid, hstep⟩ :=
      h.call raw (hwords call List.mem_cons_self)
    obtain ⟨later, last, map'', hrest, hlast, hrun⟩ :=
      ih hmid (fun call hmem => hwords call (List.mem_cons_of_mem _ hmem))
    refine ⟨values ++ later, last, map'', ?_, hlast, fun ptr v hdelete hv => ?_⟩
    · unfold pointerRun
      rw [hcall, Option.bind_eq_bind, Option.bind_some]
      dsimp only
      rw [hrest]
      rfl
    · exact hrun ptr v (fun call hmem => hdelete call (List.mem_cons_of_mem _ hmem))
        (hstep ptr v (hdelete call List.mem_cons_self) hv)

theorem Caches.keepsHash (h : Caches p interp map) (hw : ptr < 2 ^ p.bits) {v : Int}
    (hlook : map.lookup ptr = some v) {calls : List PointerCall}
    (hcalls : ∀ call ∈ calls, call.WordOk p ∧ call ≠ .delete ptr) (m : Machine) :
    ∃ values last last', pointerRun p raw (fun ptr => ptr) calls interp = some (values, last) ∧
      pointerCall p raw (fun ptr => ptr) last (.hash ptr m) = some ([v], last') := by
  obtain ⟨values, last, map', hrun, hlast, hkept⟩ :=
    h.run raw (fun call hmem => (hcalls call hmem).1)
  exact ⟨values, last, last, hrun,
    hlast.hit raw hw (hkept ptr v (fun call hmem => (hcalls call hmem).2) hlook) m⟩

end calls

theorem missedHash_threadAt (p : Platform) (raw : Nat → Int) (ptr : Nat) :
    missedHash raw (hashContext p (threadAt 2)) ptr ≠
      missedHash raw (hashContext p (threadAt 4)) ptr := by
  have hdiffer : ∀ wide int128, (hashContext ⟨wide, int128⟩ (threadAt 2)).useCoordinate = true ∧
      (hashContext ⟨wide, int128⟩ (threadAt 4)).useCoordinate = true ∧
      normalizePyHash (hashContext ⟨wide, int128⟩ (threadAt 2)).coordinateHash ≠
        normalizePyHash (hashContext ⟨wide, int128⟩ (threadAt 4)).coordinateHash := by
    decide +kernel
  obtain ⟨huse, huse', hne⟩ := hdiffer p.wide p.int128
  unfold missedHash
  rw [if_pos huse, if_pos huse']
  exact hne

/-- In any run, whichever allocations fail, a pointer keeps the hash that a call returns exactly if
there is an entry for it already or the call finds the memory for one. -/
theorem hashPointer_keepsHash (p : Platform) (raw : Nat → Int) (malloc : RawMalloc)
    {calls : List PointerCall} (hwords : ∀ call ∈ calls, call.WordOk p) :
    ∃ values interp, pointerRun p raw (fun ptr => ptr) calls (freshIdentityHashes malloc) =
        some (values, interp) ∧
      ∀ ptr m, canCachePointerHash ptr = true → ptr < 2 ^ p.bits →
        (KeepsHash p raw interp ptr m ↔ InTable p interp ptr ∨ FindsMemory p interp) := by
  have hfresh : Caches p (freshIdentityHashes malloc) ∅ :=
    ⟨rfl, fun k hk => by
      rw [Finmap.lookup_empty] at hk
      cases hk⟩
  obtain ⟨values, interp, map, hrun, h, -⟩ := hfresh.run raw hwords
  refine ⟨values, interp, hrun, fun ptr m hc hw => ?_⟩
  have hk := objectKey_of_canCache hc hw
  rw [h.refines.inTable]
  cases hlook : map.lookup ptr with
  | some v =>
    refine iff_of_true ⟨v, interp, h.hit raw hw hlook m, ?_⟩ (Or.inl rfl)
    intro calls hcalls m'
    exact h.keepsHash raw hw hlook hcalls m'
  | none =>
    obtain ⟨interp', hcall, ⟨hfinds, hstored⟩ | ⟨hfails, hkept⟩⟩ :=
      h.miss raw hc hk hlook (hashContext p m)
    · refine iff_of_true ⟨_, interp', pointerCall_hash raw hcall, ?_⟩ (Or.inr hfinds)
      intro calls hcalls m'
      exact hstored.keepsHash raw hw (Finmap.lookup_insert map) hcalls m'
    · refine iff_of_false ?_ ?_
      · rintro ⟨v, mid, hfirst, hlater⟩
        rw [pointerCall_hash raw hcall] at hfirst
        cases hfirst
        -- the next call misses again, and a thread somewhere else gets the hash of its place
        have hagain : ∀ m', missedHash raw (hashContext p m') ptr =
            missedHash raw (hashContext p m) ptr := by
          intro m'
          obtain ⟨values', last, last', hnone, hsecond⟩ := hlater [] (by simp) m'
          cases hnone
          obtain ⟨next, hmiss, -⟩ := hkept.miss raw hc hk hlook (hashContext p m')
          rw [pointerCall_hash raw hmiss, Option.some.injEq, Prod.mk.injEq] at hsecond
          exact (List.cons.inj hsecond.1).1
        exact missedHash_threadAt p raw ptr ((hagain (threadAt 2)).trans (hagain (threadAt 4)).symm)
      · rintro (hin | hfinds)
        · cases hin
        · exact hfails hfinds

/-- The first of the three allocations for the first table fails. -/
theorem hashPointer_keepsHash_secondTry :
    ∃ values interp, pointerRun ⟨true, true⟩ (fun ptr => (ptr / 16 : Nat)) (fun ptr => ptr)
        [.hash 16 (threadAt 2), .hash 32 (threadAt 2)]
        (freshIdentityHashes ⟨fun call => call = 0, fun _ _ => 0, 0⟩) = some (values, interp) ∧
      KeepsHash ⟨true, true⟩ (fun ptr => (ptr / 16 : Nat)) interp 16 (threadAt 4) := by
  have hwords : ∀ call ∈ [PointerCall.hash 16 (threadAt 2), .hash 32 (threadAt 2)],
      call.WordOk ⟨true, true⟩ := by
    intro call hmem
    simp only [List.mem_cons, List.not_mem_nil, or_false] at hmem
    obtain rfl | rfl := hmem
    · exact (by decide : 16 < 2 ^ 64)
    · exact (by decide : 32 < 2 ^ 64)
  obtain ⟨values, interp, hrun, hkeeps⟩ := hashPointer_keepsHash ⟨true, true⟩
    (fun ptr => (ptr / 16 : Nat)) ⟨fun call => call = 0, fun _ _ => 0, 0⟩ hwords
  refine ⟨values, interp, hrun, (hkeeps 16 (threadAt 4) (by decide) (by decide)).mpr (Or.inr ?_)⟩
  have hroom : (pointerRun ⟨true, true⟩ (fun ptr => (ptr / 16 : Nat)) (fun ptr => ptr)
      [.hash 16 (threadAt 2), .hash 32 (threadAt 2)]
      (freshIdentityHashes ⟨fun call => call = 0, fun _ _ => 0, 0⟩)).map
        (fun run => mustGrow ⟨true, true⟩ run.2) = some false := by decide +kernel
  rw [hrun] at hroom
  exact Or.inl (Option.some.inj hroom)

/-- No table can be allocated: a pointer has another hash at the next instruction. -/
theorem hashPointer_notKept : ∃ v v' interp,
    pointerRun ⟨true, true⟩ (fun ptr => (ptr / 16 : Nat)) (fun ptr => ptr)
      [.hash 16 (threadAt 2), .hash 16 (threadAt 4)]
      (freshIdentityHashes ⟨fun _ => true, fun _ _ => 0, 0⟩) = some ([v, v'], interp) ∧
    canCachePointerHash 16 = true ∧ (threadAt 2).tstate.threadId ≠ 0 ∧
    (threadAt 4).tstate.threadId ≠ 0 ∧ v ≠ v' :=
  ⟨_, _, _, rfl, by decide, by decide, by decide,
    missedHash_threadAt ⟨true, true⟩ (fun ptr => (ptr / 16 : Nat)) 16⟩

end Retrace
