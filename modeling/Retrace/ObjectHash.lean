import Retrace.IdentityHashMap

/-!
Identity hashes of objects: the cached pointer hash and the hook that `_Py_Dealloc` runs
after the deallocation body.
-/

set_option autoImplicit false

namespace Retrace

def normalizePyHash (hash : Int) : Int := if hash = -1 then -2 else hash

/-- `raw` is CPython's `_Py_HashPointerRaw`. -/
def rawPointerHash (raw : Nat → Int) (ptr : Nat) : Int := normalizePyHash (raw ptr)

def canCachePointerHash (ptr : Nat) : Bool := ptr ≠ 0 && ptr &&& identityHashPslMask == 0

/-- What a pointer hash reads of the calling thread: whether it has an identity and a visible
frame, and its coordinate hash as a `Py_hash_t`. -/
structure HashContext where
  useCoordinate : Bool
  coordinateHash : Int
  deriving DecidableEq, Repr

/-- No interpreter stands for a call without a current thread state. -/
def hashPointer (p : Platform) (raw : Nat → Int) (context : HashContext)
    (interp : Option IdentityHashes) (ptr : Nat) : Option (Int × Option IdentityHashes) := do
  if !canCachePointerHash ptr then some (rawPointerHash raw ptr, interp) else
  let some hashes := interp | some (rawPointerHash raw ptr, none)
  let (found, hash) ← lookupIdentityHash p hashes ptr 0
  if found ≠ 0 then some (hash, interp) else
  let hash := if context.useCoordinate then normalizePyHash context.coordinateHash
    else rawPointerHash raw ptr
  let (_, hashes) ← setIdentityHash p hashes ptr hash
  some (hash, some hashes)

def deleteObjectIdentityHash (p : Platform) (interp : Option IdentityHashes) (obj : Nat) :
    Option (Option IdentityHashes) := do
  let some hashes := interp | some none
  if !canCachePointerHash obj then some interp else
  let (_, hashes) ← deleteIdentityHash p hashes obj
  some (some hashes)

/-- A hash that was asked for: the object, its hash, and the object whose earlier call had
cached that hash if it was found in the table. -/
structure HashRecord where
  object : Nat
  value : Int
  source : Option Nat
  deriving DecidableEq, Repr

/-- One interpreter's objects, each known by the number of its allocation. `deallocs` are the
unfinished `_Py_Dealloc` calls, innermost first. The last three fields only record the run. -/
structure ObjectWorld where
  interp : IdentityHashes
  owner : Nat → Option Nat
  allocated : Nat
  deallocs : List (Nat × Nat)
  log : List HashRecord
  cachedFor : Nat → Option Nat
  leftover : Nat → Bool

inductive ObjectEvent where
  | alloc (ptr : Nat)
  | hash (ptr : Nat) (context : HashContext)
  | deallocBegin (ptr : Nat)
  | free (ptr : Nat)
  | deallocEnd
  deriving DecidableEq, Repr

def ObjectWorld.Hashed (w : ObjectWorld) (object : Nat) : Prop :=
  ∃ r ∈ w.log, r.object = object

instance (w : ObjectWorld) (object : Nat) : Decidable (w.Hashed object) :=
  inferInstanceAs (Decidable (∃ r ∈ w.log, r.object = object))

/-- An object is freed inside an unfinished `_Py_Dealloc` of its own; a body that ends without
freeing has resurrected it. -/
def ObjectWorld.Possible (p : Platform) (w : ObjectWorld) : ObjectEvent → Prop
  | .alloc ptr => ptr ≠ 0 ∧ ptr < 2 ^ p.bits ∧ w.owner ptr = none
  | .hash ptr _ => w.owner ptr ≠ none
  | .deallocBegin ptr => w.owner ptr ≠ none
  | .free ptr => ∃ d ∈ w.deallocs, d.1 = ptr ∧ w.owner ptr = some d.2
  | .deallocEnd => w.deallocs ≠ []

/-- Whether a pointer hash is answered by the table. -/
def cacheHit (p : Platform) (interp : IdentityHashes) (ptr : Nat) : Option Bool :=
  if canCachePointerHash ptr then
    (lookupIdentityHash p interp ptr 0).map (fun reply => reply.1 ≠ 0)
  else some false

/-- Outer `none` only where a loop of the table or a call of the model does not end; an event
that is not possible leaves the world as it is. -/
def objectStep (p : Platform) (raw : Nat → Int) (w : ObjectWorld) :
    ObjectEvent → Option ObjectWorld
  | .alloc ptr => some { w with
      owner := Function.update w.owner ptr (some w.allocated), allocated := w.allocated + 1 }
  | .hash ptr context =>
    match w.owner ptr with
    | none => some w
    | some object => do
      let hit ← cacheHit p w.interp ptr
      let (value, interp) ← hashPointer p raw context (some w.interp) ptr
      let interp ← interp
      some { w with
        interp := interp
        log := ⟨object, value, if hit then w.cachedFor ptr else none⟩ :: w.log
        cachedFor := if canCachePointerHash ptr && !hit then
          Function.update w.cachedFor ptr (some object) else w.cachedFor }
  | .deallocBegin ptr =>
    match w.owner ptr with
    | none => some w
    | some object => some { w with deallocs := (ptr, object) :: w.deallocs }
  | .free ptr =>
    match w.owner ptr with
    | none => some w
    | some object => some { w with
        owner := Function.update w.owner ptr none
        leftover := Function.update w.leftover ptr
          (w.leftover ptr || decide (w.Hashed object)) }
  | .deallocEnd =>
    match w.deallocs with
    | [] => some w
    | (ptr, _) :: rest => do
      let interp ← deleteObjectIdentityHash p (some w.interp) ptr
      let interp ← interp
      some { w with
        interp := interp
        deallocs := rest
        cachedFor := Function.update w.cachedFor ptr none
        leftover := Function.update w.leftover ptr false }

def objectRun (p : Platform) (raw : Nat → Int) : List ObjectEvent → ObjectWorld →
    Option ObjectWorld
  | [], w => some w
  | event :: events, w => do
    let w ← objectStep p raw w event
    objectRun p raw events w

def freshObjectWorld (malloc : RawMalloc) : ObjectWorld where
  interp := freshIdentityHashes malloc
  owner := fun _ => none
  allocated := 0
  deallocs := []
  log := []
  cachedFor := fun _ => none
  leftover := fun _ => false

/-- If the table has to grow now, its allocations succeed. -/
def CanGrow (p : Platform) (interp : IdentityHashes) : Prop :=
  mustGrow p interp = true → (growIdentityHashTable p interp).map Prod.fst = some 0

instance (p : Platform) (interp : IdentityHashes) : Decidable (CanGrow p interp) :=
  inferInstanceAs (Decidable (_ → _))

/-- Every event is possible and finds what it needs to allocate, and meets `Careful`. -/
def RunMeets (p : Platform) (raw : Nat → Int) (Careful : ObjectWorld → ObjectEvent → Prop) :
    List ObjectEvent → ObjectWorld → Prop
  | [], _ => True
  | event :: events, w => w.Possible p event ∧ CanGrow p w.interp ∧ Careful w event ∧
      match objectStep p raw w event with
      | none => True
      | some w' => RunMeets p raw Careful events w'

instance (p : Platform) (w : ObjectWorld) (event : ObjectEvent) :
    Decidable (w.Possible p event) :=
  match event with
  | .alloc _ => inferInstanceAs (Decidable (_ ∧ _))
  | .hash _ _ => inferInstanceAs (Decidable (_ ≠ _))
  | .deallocBegin _ => inferInstanceAs (Decidable (_ ≠ _))
  | .free _ => inferInstanceAs (Decidable (∃ d ∈ w.deallocs, _))
  | .deallocEnd => inferInstanceAs (Decidable (_ ≠ _))

instance decidableRunMeets (p : Platform) (raw : Nat → Int)
    (Careful : ObjectWorld → ObjectEvent → Prop) [∀ w event, Decidable (Careful w event)] :
    ∀ (events : List ObjectEvent) (w : ObjectWorld), Decidable (RunMeets p raw Careful events w)
  | [], _ => isTrue trivial
  | event :: events, w =>
    have : Decidable (match objectStep p raw w event with
        | none => True
        | some w' => RunMeets p raw Careful events w') :=
      match objectStep p raw w event with
      | none => isTrue trivial
      | some w' => decidableRunMeets p raw Careful events w'
    inferInstanceAs (Decidable (_ ∧ _ ∧ _ ∧ _))

/-- The hash of an object is one value, and never one cached for another object. -/
structure FixedHashes (log : List HashRecord) : Prop where
  same : ∀ r ∈ log, ∀ r' ∈ log, r.object = r'.object → r.value = r'.value
  own : ∀ r ∈ log, ∀ object, r.source = some object → object = r.object

/-- The hook after a deallocation body finds no live object that was hashed at the address, and
no object is hashed where a hashed one was freed with no `_Py_Dealloc` ended there since. -/
def HookOwnsAddress (w : ObjectWorld) : ObjectEvent → Prop
  | .hash ptr _ => canCachePointerHash ptr = true → w.leftover ptr = false
  | .deallocEnd => ∀ d ∈ w.deallocs.head?, canCachePointerHash d.1 = true →
      ∀ object ∈ w.owner d.1, ¬ w.Hashed object
  | _ => True

instance (w : ObjectWorld) (event : ObjectEvent) : Decidable (HookOwnsAddress w event) :=
  match event with
  | .hash ptr _ =>
    inferInstanceAs (Decidable (canCachePointerHash ptr = true → w.leftover ptr = false))
  | .deallocEnd => inferInstanceAs (Decidable (∀ d ∈ w.deallocs.head?,
      canCachePointerHash d.1 = true → ∀ object ∈ w.owner d.1, ¬ w.Hashed object))
  | .alloc _ => isTrue trivial
  | .deallocBegin _ => isTrue trivial
  | .free _ => isTrue trivial

section pointers
variable {p : Platform} (raw : Nat → Int) {interp : IdentityHashes} {m : HashMap}

theorem objectKey_of_canCache {ptr : Nat} (h : canCachePointerHash ptr = true)
    (hw : ptr < 2 ^ p.bits) : ObjectKey p ptr := by
  have hmask : ptr &&& identityHashPslMask = ptr % 8 := Nat.and_two_pow_sub_one_eq_mod ptr 3
  unfold canCachePointerHash at h
  rw [hmask, Bool.and_eq_true, decide_eq_true_eq, beq_iff_eq] at h
  exact ⟨h.1, h.2, hw⟩

theorem setIdentityHash_of_canGrow (h : Refines p interp m) (hgrow : CanGrow p interp)
    {obj : Nat} (hk : ObjectKey p obj) (value : Int) :
    ∃ interp', setIdentityHash p interp obj value = some (0, interp') ∧
      Refines p interp' (m.insert obj value) := by
  obtain ⟨status, interp', hrun, ⟨rfl, -⟩ | ⟨rfl, href⟩⟩ := setIdentityHash_spec h hk value
  · exfalso
    unfold setIdentityHash at hrun
    cases hfull : mustGrow p interp with
    | true =>
      obtain ⟨⟨status, grown⟩, hg, hzero⟩ := Option.map_eq_some_iff.mp (hgrow hfull)
      simp only at hzero
      subst hzero
      simp only [hfull, hg, if_true, Option.bind_eq_bind, Option.bind_some] at hrun
      cases htable : grown.identityHashes with
      | none => simp [htable] at hrun
      | some t => simp [htable, Option.bind_eq_some_iff] at hrun
    | false =>
      simp only [hfull, Bool.false_eq_true, if_false, Option.bind_eq_bind, Option.bind_some]
        at hrun
      cases htable : interp.identityHashes with
      | none => simp [htable] at hrun
      | some t => simp [htable, Option.bind_eq_some_iff] at hrun
  · exact ⟨interp', hrun, href⟩

theorem hashPointer_uncached (interp : IdentityHashes) {ptr : Nat}
    (hc : canCachePointerHash ptr = false)
    (context : HashContext) :
    hashPointer p raw context (some interp) ptr = some (rawPointerHash raw ptr, some interp) := by
  simp [hashPointer, hc]

theorem hashPointer_hit (h : Refines p interp m) {ptr : Nat} {v : Int}
    (hc : canCachePointerHash ptr = true) (hk : ObjectKey p ptr) (hlook : m.lookup ptr = some v)
    (context : HashContext) :
    hashPointer p raw context (some interp) ptr = some (v, some interp) := by
  have hrun := lookupIdentityHash_spec h hk 0
  rw [hlook] at hrun
  simp [hashPointer, hc, hrun]

theorem hashPointer_first (h : Refines p interp m) (hgrow : CanGrow p interp) {ptr : Nat}
    (hc : canCachePointerHash ptr = true) (hk : ObjectKey p ptr) (hlook : m.lookup ptr = none)
    (context : HashContext) :
    ∃ interp', hashPointer p raw context (some interp) ptr =
        some (if context.useCoordinate then normalizePyHash context.coordinateHash
          else rawPointerHash raw ptr, some interp') ∧
      Refines p interp' (m.insert ptr
        (if context.useCoordinate then normalizePyHash context.coordinateHash
          else rawPointerHash raw ptr)) := by
  have hrun := lookupIdentityHash_spec h hk 0
  rw [hlook] at hrun
  obtain ⟨interp', hset, href⟩ := setIdentityHash_of_canGrow h hgrow hk
    (if context.useCoordinate then normalizePyHash context.coordinateHash
      else rawPointerHash raw ptr)
  exact ⟨interp', by simp [hashPointer, hc, hrun, hset], href⟩

theorem hashPointer_miss (h : Refines p interp m) (hgrow : CanGrow p interp) {ptr : Nat}
    (hc : canCachePointerHash ptr = true) (hk : ObjectKey p ptr) (hlook : m.lookup ptr = none)
    (context : HashContext) :
    ∃ v interp', hashPointer p raw context (some interp) ptr = some (v, some interp') ∧
      Refines p interp' (m.insert ptr v) :=
  ⟨_, hashPointer_first raw h hgrow hc hk hlook context⟩

theorem deleteObjectIdentityHash_spec (h : Refines p interp m) {ptr : Nat}
    (hw : ptr < 2 ^ p.bits) (hkeys : ∀ k, (m.lookup k).isSome → canCachePointerHash k = true) :
    ∃ interp', deleteObjectIdentityHash p (some interp) ptr = some (some interp') ∧
      Refines p interp' (m.erase ptr) := by
  cases hc : canCachePointerHash ptr with
  | true =>
    obtain ⟨interp', hrun, href⟩ := deleteIdentityHash_spec h (objectKey_of_canCache hc hw)
    exact ⟨interp', by simp [deleteObjectIdentityHash, hc, hrun], href⟩
  | false =>
    have hsame : m.erase ptr = m := by
      apply Finmap.ext_lookup
      intro k
      by_cases hkk : k = ptr
      · subst hkk
        rw [Finmap.lookup_erase]
        cases hlook : m.lookup k with
        | none => rfl
        | some v => simp [hkeys k (by simp [hlook])] at hc
      · rw [Finmap.lookup_erase_ne hkk]
    exact ⟨interp, by simp [deleteObjectIdentityHash, hc], by rw [hsame]; exact h⟩

end pointers

/-- The table's entries belong to the objects that live at their addresses, except where a
hashed object was freed and the hook has not run yet. -/
structure ObjectInv (p : Platform) (raw : Nat → Int) (w : ObjectWorld) (m : HashMap) : Prop where
  refines : Refines p w.interp m
  cached : ∀ ptr, (m.lookup ptr).isSome ↔ (w.cachedFor ptr).isSome
  source : ∀ ptr object, w.cachedFor ptr = some object → canCachePointerHash ptr = true ∧
    w.Hashed object ∧ (w.owner ptr = some object ∨ w.leftover ptr = true)
  live : ∀ ptr, ∀ r ∈ w.log, w.owner ptr = some r.object →
    if canCachePointerHash ptr then
      m.lookup ptr = some r.value ∧ w.cachedFor ptr = some r.object
    else r.value = rawPointerHash raw ptr
  fixed : FixedHashes w.log
  logged : ∀ r ∈ w.log, r.object < w.allocated
  owned : ∀ ptr object, w.owner ptr = some object → object < w.allocated ∧ ptr < 2 ^ p.bits
  oneHome : ∀ a b object, w.owner a = some object → w.owner b = some object → a = b
  pending : ∀ d ∈ w.deallocs, d.1 < 2 ^ p.bits

section steps
variable {p : Platform} {raw : Nat → Int} {w : ObjectWorld} {m : HashMap}

theorem FixedHashes.cons {log : List HashRecord} (h : FixedHashes log) {r : HashRecord}
    (hsame : ∀ r' ∈ log, r'.object = r.object → r'.value = r.value)
    (hown : ∀ object, r.source = some object → object = r.object) :
    FixedHashes (r :: log) := by
  refine ⟨?_, ?_⟩
  · intro a ha b hb heq
    rcases List.mem_cons.mp ha with hra | hal <;> rcases List.mem_cons.mp hb with hrb | hbl
    · rw [hra, hrb]
    · subst hra
      exact (hsame b hbl heq.symm).symm
    · subst hrb
      exact hsame a hal heq
    · exact h.same a hal b hbl heq
  · intro a ha object hs
    rcases List.mem_cons.mp ha with rfl | ha
    · exact hown object hs
    · exact h.own a ha object hs

theorem ObjectInv.alloc (h : ObjectInv p raw w m) {ptr : Nat}
    (hp : w.Possible p (.alloc ptr)) :
    ObjectInv p raw { w with
      owner := Function.update w.owner ptr (some w.allocated)
      allocated := w.allocated + 1 } m := by
  obtain ⟨-, hword, hfree⟩ := hp
  have hnew : ∀ a object, object < w.allocated →
      Function.update w.owner ptr (some w.allocated) a = some object → w.owner a = some object := by
    intro a object hlt ho
    by_cases ha : a = ptr
    · subst ha
      rw [Function.update_self, Option.some.injEq] at ho
      omega
    · rwa [Function.update_of_ne ha] at ho
  refine ⟨h.refines, h.cached, ?_, ?_, h.fixed, ?_, ?_, ?_, h.pending⟩
  · intro a object hc
    obtain ⟨hcan, hh, ho | hl⟩ := h.source a object hc
    · refine ⟨hcan, hh, Or.inl ?_⟩
      have ha : a ≠ ptr := by
        rintro rfl
        simp [hfree] at ho
      simpa [Function.update_of_ne ha] using ho
    · exact ⟨hcan, hh, Or.inr hl⟩
  · intro a r hr ho
    exact h.live a r hr (hnew a r.object (h.logged r hr) ho)
  · intro r hr
    exact Nat.lt_succ_of_lt (h.logged r hr)
  · intro a object ho
    by_cases ha : a = ptr
    · subst ha
      simp only [Function.update_self, Option.some.injEq] at ho
      exact ⟨by simp only; omega, hword⟩
    · simp only [Function.update_of_ne ha] at ho
      exact ⟨Nat.lt_succ_of_lt (h.owned a object ho).1, (h.owned a object ho).2⟩
  · intro a b object hoa hob
    by_cases ha : a = ptr <;> by_cases hb : b = ptr
    · rw [ha, hb]
    · subst ha
      simp only [Function.update_self, Function.update_of_ne hb, Option.some.injEq] at hoa hob
      have := (h.owned b object hob).1
      omega
    · subst hb
      simp only [Function.update_self, Function.update_of_ne ha, Option.some.injEq] at hoa hob
      have := (h.owned a object hoa).1
      omega
    · simp only [Function.update_of_ne ha, Function.update_of_ne hb] at hoa hob
      exact h.oneHome a b object hoa hob

theorem ObjectInv.free (h : ObjectInv p raw w m) {ptr object : Nat}
    (hown : w.owner ptr = some object) :
    ObjectInv p raw { w with
      owner := Function.update w.owner ptr none
      leftover := Function.update w.leftover ptr
        (w.leftover ptr || decide (w.Hashed object)) } m := by
  have hold : ∀ a object', Function.update w.owner ptr none a = some object' →
      w.owner a = some object' := by
    intro a object' ho
    by_cases ha : a = ptr
    · subst ha
      simp at ho
    · rwa [Function.update_of_ne ha] at ho
  refine ⟨h.refines, h.cached, ?_, ?_, h.fixed, h.logged, ?_, ?_, h.pending⟩
  · intro a object' hc
    obtain ⟨hcan, hh, hor⟩ := h.source a object' hc
    refine ⟨hcan, hh, ?_⟩
    by_cases ha : a = ptr
    · subst ha
      right
      simp only [Function.update_self, Bool.or_eq_true, decide_eq_true_eq]
      rcases hor with ho | hl
      · rw [hown, Option.some.injEq] at ho
        subst ho
        exact Or.inr hh
      · exact Or.inl hl
    · simpa [Function.update_of_ne ha] using hor
  · intro a r hr ho
    exact h.live a r hr (hold a r.object ho)
  · intro a object' ho
    exact h.owned a object' (hold a object' ho)
  · intro a b object' hoa hob
    exact h.oneHome a b object' (hold a object' hoa) (hold b object' hob)

theorem ObjectInv.deallocBegin (h : ObjectInv p raw w m) {ptr object : Nat}
    (hown : w.owner ptr = some object) :
    ObjectInv p raw { w with deallocs := (ptr, object) :: w.deallocs } m := by
  refine ⟨h.refines, h.cached, h.source, h.live, h.fixed, h.logged, h.owned, h.oneHome, ?_⟩
  intro d hd
  rcases List.mem_cons.mp hd with rfl | hd
  · exact (h.owned ptr object hown).2
  · exact h.pending d hd

theorem ObjectInv.cached_canCache (h : ObjectInv p raw w m) (k : Nat)
    (hk : (m.lookup k).isSome) : canCachePointerHash k = true := by
  obtain ⟨object, hc⟩ := Option.isSome_iff_exists.mp ((h.cached k).mp hk)
  exact (h.source k object hc).1

theorem ObjectInv.deallocEnd (h : ObjectInv p raw w m) {d : Nat × Nat} {rest : List (Nat × Nat)}
    (hd : w.deallocs = d :: rest) (hcare : HookOwnsAddress w .deallocEnd) :
    ∃ w', objectStep p raw w .deallocEnd = some w' ∧ ObjectInv p raw w' (m.erase d.1) := by
  obtain ⟨ptr, dying⟩ := d
  have hword : ptr < 2 ^ p.bits := h.pending (ptr, dying) (by simp [hd])
  obtain ⟨interp', hrun, href⟩ :=
    deleteObjectIdentityHash_spec h.refines hword h.cached_canCache
  refine ⟨_, by simp only [objectStep, hd, hrun, Option.bind_eq_bind, Option.bind_some]; rfl, ?_⟩
  refine ⟨href, ?_, ?_, ?_, h.fixed, h.logged, h.owned, h.oneHome, ?_⟩
  · intro a
    by_cases ha : a = ptr
    · subst ha
      simp [Finmap.lookup_erase]
    · simpa [Finmap.lookup_erase_ne ha, Function.update_of_ne ha] using h.cached a
  · intro a object hc
    have ha : a ≠ ptr := by
      rintro rfl
      simp at hc
    simp only [Function.update_of_ne ha] at hc ⊢
    exact h.source a object hc
  · intro a r hr ho
    have hlive := h.live a r hr ho
    cases hcan : canCachePointerHash a with
    | false => simpa [hcan] using hlive
    | true =>
      have ha : a ≠ ptr := by
        rintro rfl
        exact hcare (a, dying) (by simp [hd]) hcan r.object ho ⟨r, hr, rfl⟩
      simpa [hcan, Finmap.lookup_erase_ne ha, Function.update_of_ne ha] using hlive
  · intro d' hd'
    exact h.pending d' (by simp [hd, hd'])

theorem ObjectInv.logs (h : ObjectInv p raw w m) {ptr : Nat} {r : HashRecord}
    (hown : w.owner ptr = some r.object)
    (hlive : if canCachePointerHash ptr then
      m.lookup ptr = some r.value ∧ w.cachedFor ptr = some r.object
      else r.value = rawPointerHash raw ptr)
    (hsource : ∀ object, r.source = some object → object = r.object) :
    ObjectInv p raw { w with log := r :: w.log } m := by
  refine ⟨h.refines, h.cached, ?_, ?_, ?_, ?_, h.owned, h.oneHome, h.pending⟩
  · intro a object hc
    obtain ⟨hcan, ⟨r', hr', hobject⟩, hor⟩ := h.source a object hc
    exact ⟨hcan, ⟨r', List.mem_cons_of_mem _ hr', hobject⟩, hor⟩
  · intro a r' hr' ho
    rcases List.mem_cons.mp hr' with rfl | hr'
    · rw [h.oneHome a ptr r'.object ho hown]
      exact hlive
    · exact h.live a r' hr' ho
  · refine h.fixed.cons ?_ hsource
    intro r' hr' heq
    have hbefore := h.live ptr r' hr' (by rw [hown, heq])
    split at hlive
    · rw [if_pos ‹_›, hlive.1, Option.some.injEq] at hbefore
      exact hbefore.1.symm
    · rw [if_neg ‹_›] at hbefore
      rw [hbefore, hlive]
  · intro r' hr'
    rcases List.mem_cons.mp hr' with rfl | hr'
    · exact (h.owned ptr r'.object hown).1
    · exact h.logged r' hr'

theorem ObjectInv.hashUncached (h : ObjectInv p raw w m) {ptr object : Nat} {context : HashContext}
    (hown : w.owner ptr = some object) (hcan : canCachePointerHash ptr = false) :
    ∃ w' m', objectStep p raw w (.hash ptr context) = some w' ∧ ObjectInv p raw w' m' := by
  have hrun := hashPointer_uncached (p := p) raw w.interp hcan context
  refine ⟨_, m, by simp only [objectStep, hown, cacheHit, hcan, hrun, Option.bind_eq_bind,
    Option.bind_some, Bool.false_eq_true, if_false, Bool.false_and]; rfl, ?_⟩
  refine h.logs hown ?_ ?_
  · simp [hcan]
  · simp

/-- Nothing is left over, so an entry that is found is the living object's own. -/
theorem ObjectInv.hashFound (h : ObjectInv p raw w m) {ptr object : Nat} {context : HashContext}
    (hown : w.owner ptr = some object) (hcare : HookOwnsAddress w (.hash ptr context))
    (hcan : canCachePointerHash ptr = true) (hk : ObjectKey p ptr) {v : Int}
    (hfound : m.lookup ptr = some v) :
    ∃ w' m', objectStep p raw w (.hash ptr context) = some w' ∧ ObjectInv p raw w' m' := by
  have hlook := lookupIdentityHash_spec h.refines hk 0
  rw [hfound] at hlook
  obtain ⟨cacher, hcacher⟩ := Option.isSome_iff_exists.mp ((h.cached ptr).mp (by simp [hfound]))
  obtain ⟨-, ⟨r₀, hr₀, hobj₀⟩, hor⟩ := h.source ptr cacher hcacher
  have hself : cacher = object := by
    rcases hor with ho | hl
    · rw [hown, Option.some.injEq] at ho
      exact ho.symm
    · rw [hcare hcan] at hl
      cases hl
  subst hself
  have hrun := hashPointer_hit raw h.refines hcan hk hfound context
  refine ⟨_, m, by simp only [objectStep, hown, cacheHit, hcan, hlook, hrun,
    Option.bind_eq_bind, Option.bind_some, if_true, Option.map_some]; rfl, ?_⟩
  refine h.logs hown ?_ ?_
  · simp [hcan, hfound, hcacher]
  · intro object' hs
    simpa [hcacher] using hs.symm

theorem ObjectInv.hashFirst (h : ObjectInv p raw w m) (hgrow : CanGrow p w.interp)
    {ptr object : Nat} {context : HashContext} (hown : w.owner ptr = some object)
    (hcan : canCachePointerHash ptr = true) (hk : ObjectKey p ptr)
    (hfound : m.lookup ptr = none) :
    ∃ w' m', objectStep p raw w (.hash ptr context) = some w' ∧ ObjectInv p raw w' m' := by
  have hlook := lookupIdentityHash_spec h.refines hk 0
  rw [hfound] at hlook
  have hother : ∀ a r, w.owner a = some r → r = object → a = ptr := by
    rintro a r ho rfl
    exact h.oneHome a ptr r ho hown
  have hlogged : ∀ (r' : HashRecord), r'.object = object →
      ∀ r ∈ r' :: w.log, r.object < w.allocated := by
    intro r' hr' r hr
    rcases List.mem_cons.mp hr with rfl | hr
    · exact hr' ▸ (h.owned ptr object hown).1
    · exact h.logged r hr
  have hhashed : ∀ (r' : HashRecord) object', w.Hashed object' →
      ({ w with log := r' :: w.log } : ObjectWorld).Hashed object' := by
    rintro r' object' ⟨r, hr, hobj⟩
    exact ⟨r, List.mem_cons_of_mem _ hr, hobj⟩
  have hfirst : ∀ r ∈ w.log, r.object ≠ object := by
    intro r hr heq
    have hlive := h.live ptr r hr (by rw [hown, heq])
    simp [hcan, hfound] at hlive
  obtain ⟨v, interp', hrun, href⟩ := hashPointer_miss raw h.refines hgrow hcan hk hfound context
  refine ⟨_, m.insert ptr v, by simp only [objectStep, hown, cacheHit, hcan, hlook, hrun,
    Option.bind_eq_bind, Option.bind_some, if_true, Option.map_some]; rfl, ?_⟩
  refine ⟨href, ?_, ?_, ?_, ?_, hlogged _ rfl, h.owned, h.oneHome, h.pending⟩
  · intro a
    by_cases ha : a = ptr
    · subst ha
      simp [Finmap.lookup_insert]
    · simpa [Finmap.lookup_insert_of_ne _ ha, Function.update_of_ne ha] using h.cached a
  · intro a object' hc
    by_cases ha : a = ptr
    · subst ha
      simp only [ne_eq, not_true_eq_false, decide_false, Bool.not_false, Bool.and_self,
        if_true, Function.update_self, Option.some.injEq] at hc
      subst hc
      exact ⟨hcan, ⟨_, List.mem_cons_self, rfl⟩, Or.inl hown⟩
    · simp only [ne_eq, not_true_eq_false, decide_false, Bool.not_false, Bool.and_self,
        if_true, Function.update_of_ne ha] at hc
      obtain ⟨hcan', hh, hor⟩ := h.source a object' hc
      exact ⟨hcan', hhashed _ object' hh, hor⟩
  · intro a r hr ho
    rcases List.mem_cons.mp hr with rfl | hrl
    · have ha := hother a object ho rfl
      subst ha
      simp [hcan, Finmap.lookup_insert]
    · have ha : a ≠ ptr := by
        rintro rfl
        have ho' : w.owner a = some r.object := ho
        rw [hown, Option.some.injEq] at ho'
        exact hfirst r hrl ho'.symm
      simpa [Finmap.lookup_insert_of_ne _ ha, Function.update_of_ne ha] using
        h.live a r hrl ho
  · apply h.fixed.cons
    · intro r hr heq
      exact absurd heq (hfirst r hr)
    · simp

theorem ObjectInv.hash (h : ObjectInv p raw w m) (hgrow : CanGrow p w.interp) {ptr object : Nat}
    {context : HashContext} (hown : w.owner ptr = some object)
    (hcare : HookOwnsAddress w (.hash ptr context)) :
    ∃ w' m', objectStep p raw w (.hash ptr context) = some w' ∧ ObjectInv p raw w' m' := by
  cases hcan : canCachePointerHash ptr with
  | false => exact h.hashUncached hown hcan
  | true =>
    have hk := objectKey_of_canCache (p := p) hcan (h.owned ptr object hown).2
    cases hfound : m.lookup ptr with
    | some v => exact h.hashFound hown hcare hcan hk hfound
    | none => exact h.hashFirst hgrow hown hcan hk hfound

theorem ObjectInv.step (h : ObjectInv p raw w m) {event : ObjectEvent}
    (hp : w.Possible p event) (hgrow : CanGrow p w.interp) (hcare : HookOwnsAddress w event) :
    ∃ w' m', objectStep p raw w event = some w' ∧ ObjectInv p raw w' m' := by
  cases event with
  | alloc ptr => exact ⟨_, m, rfl, h.alloc hp⟩
  | hash ptr context =>
    obtain ⟨object, hown⟩ := Option.ne_none_iff_exists'.mp hp
    exact h.hash hgrow hown hcare
  | deallocBegin ptr =>
    obtain ⟨object, hown⟩ := Option.ne_none_iff_exists'.mp hp
    exact ⟨_, m, by simp only [objectStep, hown], h.deallocBegin hown⟩
  | free ptr =>
    obtain ⟨d, -, -, hown⟩ := hp
    exact ⟨_, m, by simp only [objectStep, hown], h.free hown⟩
  | deallocEnd =>
    cases hd : w.deallocs with
    | nil => exact absurd hd hp
    | cons d rest =>
      obtain ⟨w', hrun, hinv⟩ := h.deallocEnd hd hcare
      exact ⟨w', _, hrun, hinv⟩

theorem ObjectInv.run (events : List ObjectEvent) (h : ObjectInv p raw w m)
    (hrun : RunMeets p raw HookOwnsAddress events w) :
    ∃ w' m', objectRun p raw events w = some w' ∧ ObjectInv p raw w' m' := by
  induction events generalizing w m with
  | nil => exact ⟨w, m, rfl, h⟩
  | cons event events ih =>
    obtain ⟨hp, hgrow, hcare, hrest⟩ := hrun
    obtain ⟨w', m', hstep, hinv⟩ := h.step hp hgrow hcare
    rw [hstep] at hrest
    obtain ⟨final, mf, hfinal, hinvf⟩ := ih hinv hrest
    exact ⟨final, mf, by simp [objectRun, hstep, hfinal], hinvf⟩

theorem objectInv_fresh (malloc : RawMalloc) :
    ObjectInv p raw (freshObjectWorld malloc) ∅ := by
  refine ⟨rfl, ?_, ?_, ?_, ⟨?_, ?_⟩, ?_, ?_, ?_, ?_⟩ <;>
    simp [freshObjectWorld, Finmap.lookup_empty]

/-- While the hook only ever removes the entries of the dead, hashes are fixed for life. -/
theorem hashPointer_fixed_while_hook_owns_address (malloc : RawMalloc)
    (events : List ObjectEvent)
    (hrun : RunMeets p raw HookOwnsAddress events (freshObjectWorld malloc)) :
    ∃ w, objectRun p raw events (freshObjectWorld malloc) = some w ∧ FixedHashes w.log := by
  obtain ⟨w, m, hr, hinv⟩ := (objectInv_fresh malloc).run events hrun
  exact ⟨w, hr, hinv.fixed⟩

end steps

/-- A dying object is hashed and freed in its own body; a new object takes the address there
and is hashed after the hook has run. -/
theorem hashPointer_fixed_reused_address :
    ∃ w, objectRun ⟨true, true⟩ (fun ptr => (ptr / 16 : Nat))
      [.alloc 16, .hash 16 ⟨true, 5⟩, .deallocBegin 16, .hash 16 ⟨true, 6⟩, .free 16, .alloc 16,
        .deallocEnd, .hash 16 ⟨true, 7⟩]
      (freshObjectWorld ⟨fun _ => false, fun _ _ => 0, 0⟩) = some w ∧ FixedHashes w.log :=
  hashPointer_fixed_while_hook_owns_address _ _ (by decide +kernel)

/-- A finalizer resurrects its object, the hook drops the entry, and the next hash is
computed at another coordinate. -/
theorem hashPointer_not_fixed_after_resurrection :
    ¬ ∀ (p : Platform) (raw : Nat → Int) (malloc : RawMalloc) (events : List ObjectEvent),
      RunMeets p raw (fun _ _ => True) events (freshObjectWorld malloc) →
      ∃ w, objectRun p raw events (freshObjectWorld malloc) = some w ∧ FixedHashes w.log := by
  intro hclaim
  obtain ⟨w, hrun, hfixed⟩ := hclaim ⟨true, true⟩ (fun ptr => (ptr / 16 : Nat))
    ⟨fun _ => false, fun _ _ => 0, 0⟩
    [.alloc 16, .hash 16 ⟨true, 5⟩, .deallocBegin 16, .deallocEnd, .hash 16 ⟨true, 7⟩]
    (by decide +kernel)
  have hlog : (objectRun ⟨true, true⟩ (fun ptr => (ptr / 16 : Nat))
      [.alloc 16, .hash 16 ⟨true, 5⟩, .deallocBegin 16, .deallocEnd, .hash 16 ⟨true, 7⟩]
      (freshObjectWorld ⟨fun _ => false, fun _ _ => 0, 0⟩)).map ObjectWorld.log =
      some [⟨0, 7, none⟩, ⟨0, 5, none⟩] := by decide +kernel
  rw [hrun, Option.map_some, Option.some.injEq] at hlog
  have hsame := hfixed.same ⟨0, 7, none⟩ (by simp [hlog]) ⟨0, 5, none⟩ (by simp [hlog]) rfl
  cases hsame

-- hashed before the hook has run, the new object gets the hash of the dead one
example : (objectRun ⟨true, true⟩ (fun ptr => (ptr / 16 : Nat))
    [.alloc 16, .hash 16 ⟨true, 5⟩, .deallocBegin 16, .free 16, .alloc 16, .hash 16 ⟨true, 7⟩]
    (freshObjectWorld ⟨fun _ => false, fun _ _ => 0, 0⟩)).map ObjectWorld.log =
    some [⟨1, 5, some 0⟩, ⟨0, 5, none⟩] := by decide +kernel

end Retrace
