import Retrace.ObjectHash
import Retrace.OrdinalCounts
import Mathlib.Data.List.Forall2

/-! Pointer hashes and the addresses of the objects, over two runs of the same calls. -/

set_option autoImplicit false

namespace Retrace

/-- `_PyRetrace_NearestVisibleFrame`, with the frames below it. -/
def visibleChain (m : Machine) (chain : List Nat) : List Nat :=
  chain.dropWhile (fun f => !frameIsVisible (m.frames f))

def pyHash (p : Platform) (hash : Nat) : Int :=
  if hash % 2 ^ p.bits < 2 ^ (p.bits - 1) then (hash % 2 ^ p.bits : Nat)
  else (hash % 2 ^ p.bits : Nat) - (2 ^ p.bits : Nat)

def useCoordinatePointerHash (m : Machine) : Bool :=
  m.tstate.threadId ≠ 0 && !(visibleChain m (currentThreadFrame m)).isEmpty

/-- `_PyRetrace_CurrentCoordinateHash` of a thread with a visible frame, in whose space the hash
is taken. -/
def currentCoordinateHash (p : Platform) (m : Machine) : Nat :=
  match visibleChain m (currentThreadFrame m) with
  | [] => 0
  | f :: rest =>
    match (m.frames f).space with
    | none => 0
    | some space => frameCoordinateHashInSpace p m space.node (f :: rest)

def hashContext (p : Platform) (m : Machine) : HashContext where
  useCoordinate := useCoordinatePointerHash m
  coordinateHash := pyHash p (currentCoordinateHash p m)

/-- The hash and the ordinal of the root and the coordinates, in the space of the nearest visible
frame. -/
def visibleCoordinates (m : Machine) : Option (Nat × Nat × List Nat) :=
  match visibleChain m (currentThreadFrame m) with
  | [] => none
  | f :: rest =>
    (m.frames f).space.map (fun space =>
      ((m.tstate.space space.node).rootCoordinateHash,
        (m.tstate.space space.node).rootCallOrdinal,
        frameWords m (m.spacePtr space.node) (f :: rest)))

/-- The hash that a root and its coordinates give. -/
def mixRoot (p : Platform) (rootHash rootOrdinal : Nat) : Nat :=
  let hash := normalizeCoordinateHash rootHash
  if rootOrdinal ≠ 0 then mixFrameCoordinateHash p hash 0 rootOrdinal else hash

def mixWords (p : Platform) : Nat → List Nat → Nat
  | hash, instructionCounter :: callOrdinal :: rest =>
    mixWords p (mixFrameCoordinateHash p hash instructionCounter callOrdinal) rest
  | hash, _ => hash

def hashOfCoordinates (p : Platform) : Option (Nat × Nat × List Nat) → Nat
  | none => 0
  | some (rootHash, rootOrdinal, words) => mixWords p (mixRoot p rootHash rootOrdinal) words

/-- The calls on objects; each hash is asked for by a thread in some state. -/
inductive PointerCall where
  | allocate (object : Nat)
  | hash (object : Nat) (m : Machine)
  | delete (object : Nat)

/-- One call, in a run whose objects have the addresses `address`. -/
def pointerCall (p : Platform) (raw : Nat → Int) (address : Nat → Nat) (interp : IdentityHashes) :
    PointerCall → Option (List Int × IdentityHashes)
  | .allocate _ => some ([], interp)
  | .hash object m => do
    let (value, interp) ← hashPointer p raw (hashContext p m) (some interp) (address object)
    let interp ← interp
    some ([value], interp)
  | .delete object => do
    let interp ← deleteObjectIdentityHash p (some interp) (address object)
    let interp ← interp
    some ([], interp)

def pointerRun (p : Platform) (raw : Nat → Int) (address : Nat → Nat) :
    List PointerCall → IdentityHashes → Option (List Int × IdentityHashes)
  | [], interp => some ([], interp)
  | call :: calls, interp => do
    let (values, interp) ← pointerCall p raw address interp call
    let (later, interp) ← pointerRun p raw address calls interp
    some (values ++ later, interp)

/-- What the calls so far say of the objects: which live, and which of these have been hashed. -/
structure Objects where
  live : List Nat
  hashed : Nat → Bool

def Objects.none : Objects := ⟨[], fun _ => false⟩

def Objects.after (objects : Objects) : PointerCall → Objects
  | .allocate object => ⟨object :: objects.live, Function.update objects.hashed object false⟩
  | .hash object _ => ⟨objects.live, Function.update objects.hashed object true⟩
  | .delete object => ⟨objects.live.erase object, Function.update objects.hashed object false⟩

/-- Calls are made on objects that live, whose addresses are aligned words and differ; the first
hash of an object is asked for by a seeded thread with a visible frame, and each finds the memory
it needs. -/
def CallOk (p : Platform) (address : Nat → Nat) (objects : Objects) (interp : IdentityHashes) :
    PointerCall → Prop
  | .allocate object => object ∉ objects.live ∧ address object ≠ 0 ∧ address object % 8 = 0 ∧
      address object < 2 ^ p.bits ∧ ∀ other ∈ objects.live, address other ≠ address object
  | .hash object m => object ∈ objects.live ∧ CanGrow p interp ∧
      (objects.hashed object = false → useCoordinatePointerHash m = true)
  | .delete object => object ∈ objects.live

def RunOk (p : Platform) (raw : Nat → Int) (address : Nat → Nat) :
    List PointerCall → Objects → IdentityHashes → Prop
  | [], _, _ => True
  | call :: calls, objects, interp => CallOk p address objects interp call ∧
      match pointerCall p raw address interp call with
      | none => True
      | some (_, interp) => RunOk p raw address calls (objects.after call) interp

instance (p : Platform) (address : Nat → Nat) (objects : Objects) (interp : IdentityHashes)
    (call : PointerCall) : Decidable (CallOk p address objects interp call) :=
  match call with
  | .allocate _ => inferInstanceAs (Decidable (_ ∧ _ ∧ _ ∧ _ ∧ _))
  | .hash _ _ => inferInstanceAs (Decidable (_ ∧ _ ∧ _))
  | .delete _ => inferInstanceAs (Decidable (_ ∈ _))

instance decidableRunOk (p : Platform) (raw : Nat → Int) (address : Nat → Nat) :
    ∀ (calls : List PointerCall) (objects : Objects) (interp : IdentityHashes),
      Decidable (RunOk p raw address calls objects interp)
  | [], _, _ => isTrue trivial
  | call :: calls, objects, interp =>
    have : Decidable (match pointerCall p raw address interp call with
        | none => True
        | some (_, interp) => RunOk p raw address calls (objects.after call) interp) :=
      match pointerCall p raw address interp call with
      | none => isTrue trivial
      | some (_, interp) => decidableRunOk p raw address calls (objects.after call) interp
    inferInstanceAs (Decidable (_ ∧ _))

/-- The same call, by threads that see the same coordinates. -/
inductive SameCall : PointerCall → PointerCall → Prop
  | allocate (object : Nat) : SameCall (.allocate object) (.allocate object)
  | hash (object : Nat) {m m' : Machine}
      (hcoordinates : visibleCoordinates m' = visibleCoordinates m) :
      SameCall (.hash object m) (.hash object m')
  | delete (object : Nat) : SameCall (.delete object) (.delete object)

/-- The purpose of the table: an object keeps the hash of the coordinate at which it was first
hashed, for as long as it lives. -/
def coordinateCall (p : Platform) (cache : Nat → Option Int) :
    PointerCall → List Int × (Nat → Option Int)
  | .allocate object => ([], Function.update cache object none)
  | .hash object m =>
    let value := (cache object).getD (normalizePyHash (pyHash p (currentCoordinateHash p m)))
    ([value], Function.update cache object (some value))
  | .delete object => ([], Function.update cache object none)

def coordinateRun (p : Platform) : List PointerCall → (Nat → Option Int) → List Int
  | [], _ => []
  | call :: calls, cache =>
    (coordinateCall p cache call).1 ++ coordinateRun p calls (coordinateCall p cache call).2

section coordinates
variable {p : Platform}

theorem mixWords_append (hash instructionCounter callOrdinal : Nat) (words : List Nat)
    (h : words.length % 2 = 0) : mixWords p hash (words ++ [instructionCounter, callOrdinal]) =
      mixFrameCoordinateHash p (mixWords p hash words) instructionCounter callOrdinal := by
  induction words using List.twoStepInduction generalizing hash with
  | nil => rfl
  | singleton word => simp at h
  | cons_cons first second rest ih =>
    simp only [List.cons_append, mixWords]
    simp only [List.length_cons] at h
    exact ih _ (by omega)

theorem frameWords_even (m : Machine) (space : SpacePtr) (chain : List Nat) :
    (frameWords m space chain).length % 2 = 0 := by
  induction chain with
  | nil => rfl
  | cons f rest ih =>
    rw [frameWords_cons, List.length_append]
    split
    · simp only [List.length_cons, List.length_nil]
      omega
    · simpa using ih

theorem frameCoordinateHash_eq (m : Machine) (node : Nat) (chain : List Nat) :
    frameCoordinateHashInSpace p m node chain =
      mixWords p (mixRoot p (m.tstate.space node).rootCoordinateHash
        (m.tstate.space node).rootCallOrdinal) (frameWords m (m.spacePtr node) chain) := by
  induction chain with
  | nil => rfl
  | cons f rest ih =>
    rw [frameCoordinateHashInSpace, frameWords_cons]
    by_cases hv : m.visibleIn (m.spacePtr node) f = true
    · rw [if_pos hv, if_pos hv, mixWords_append _ _ _ _ (frameWords_even _ _ _), ih]
    · rw [if_neg hv, if_neg hv, List.append_nil, ih]

theorem currentCoordinateHash_eq (m : Machine) :
    currentCoordinateHash p m = hashOfCoordinates p (visibleCoordinates m) := by
  unfold currentCoordinateHash visibleCoordinates
  cases visibleChain m (currentThreadFrame m) with
  | nil => rfl
  | cons f rest =>
    cases hspace : (m.frames f).space with
    | none =>
      simp only [hspace]
      rfl
    | some space =>
      simp only [hspace]
      exact frameCoordinateHash_eq m space.node (f :: rest)

theorem coordinateRun_same {calls calls' : List PointerCall}
    (h : List.Forall₂ SameCall calls calls') (cache : Nat → Option Int) :
    coordinateRun p calls' cache = coordinateRun p calls cache := by
  induction h generalizing cache with
  | nil => rfl
  | cons hcall _ ih =>
    have hsame : ∀ {call call' : PointerCall}, SameCall call call' →
        coordinateCall p cache call' = coordinateCall p cache call := by
      intro call call' hcall
      cases hcall with
      | allocate object => rfl
      | hash object hcoordinates =>
        simp only [coordinateCall, currentCoordinateHash_eq, hcoordinates]
      | delete object => rfl
    simp only [coordinateRun, hsame hcall, ih]

end coordinates

section runs
variable {p : Platform} {raw : Nat → Int} {address : Nat → Nat} {objects : Objects}
  {cache : Nat → Option Int} {interp : IdentityHashes} {map : HashMap}

/-- The table holds, at the addresses of the live objects, the hashes they have been given. -/
structure Stores (p : Platform) (address : Nat → Nat) (objects : Objects)
    (cache : Nat → Option Int) (interp : IdentityHashes) (map : HashMap) : Prop where
  refines : Refines p interp map
  nodup : objects.live.Nodup
  key : ∀ object ∈ objects.live,
    canCachePointerHash (address object) = true ∧ address object < 2 ^ p.bits
  apart : ∀ a ∈ objects.live, ∀ b ∈ objects.live, address a = address b → a = b
  stored : ∀ object ∈ objects.live, map.lookup (address object) = cache object
  owned : ∀ k, (map.lookup k).isSome → ∃ object ∈ objects.live, address object = k
  hashed : ∀ object, (cache object).isSome = objects.hashed object
  notMinusOne : ∀ object, cache object ≠ some (-1)

theorem stores_none (malloc : RawMalloc) :
    Stores p address Objects.none (fun _ => none) (freshIdentityHashes malloc) ∅ where
  refines := rfl
  nodup := List.nodup_nil
  key _ h := absurd h List.not_mem_nil
  apart _ h := absurd h List.not_mem_nil
  stored _ h := absurd h List.not_mem_nil
  owned k h := by simp [Finmap.lookup_empty] at h
  hashed _ := rfl
  notMinusOne _ := by simp

theorem normalizePyHash_ne (hash : Int) : normalizePyHash hash ≠ -1 := by
  unfold normalizePyHash
  split <;> omega

theorem canCachePointerHash_of {ptr : Nat} (hne : ptr ≠ 0) (haligned : ptr % 8 = 0) :
    canCachePointerHash ptr = true := by
  have hmask : ptr &&& identityHashPslMask = ptr % 8 := Nat.and_two_pow_sub_one_eq_mod ptr 3
  unfold canCachePointerHash
  simp [hmask, hne, haligned]

theorem Stores.allocate (h : Stores p address objects cache interp map) {object : Nat}
    (hok : CallOk p address objects interp (.allocate object)) :
    Stores p address (objects.after (.allocate object)) (Function.update cache object none) interp
      map := by
  obtain ⟨hnew, hne, haligned, hword, hother⟩ := hok
  have hfree : map.lookup (address object) = none := by
    cases hlook : map.lookup (address object) with
    | none => rfl
    | some v =>
      obtain ⟨other, hlive, heq⟩ := h.owned _ (by rw [hlook]; rfl)
      exact absurd heq (hother other hlive)
  refine ⟨h.refines, List.nodup_cons.mpr ⟨hnew, h.nodup⟩, ?_, ?_, ?_, ?_, ?_, ?_⟩
  · intro o ho
    rcases List.mem_cons.mp ho with rfl | ho
    · exact ⟨canCachePointerHash_of hne haligned, hword⟩
    · exact h.key o ho
  · intro a ha b hb heq
    rcases List.mem_cons.mp ha with hao | hold
    · rcases List.mem_cons.mp hb with hbo | hold'
      · exact hao.trans hbo.symm
      · exact absurd (hao ▸ heq.symm) (hother b hold')
    · rcases List.mem_cons.mp hb with hbo | hold'
      · exact absurd (hbo ▸ heq) (hother a hold)
      · exact h.apart a hold b hold' heq
  · intro o ho
    by_cases hoo : o = object
    · subst hoo
      rw [hfree, Function.update_self]
    · rw [Function.update_of_ne hoo]
      exact h.stored o ((List.mem_cons.mp ho).resolve_left hoo)
  · intro k hk
    obtain ⟨o, ho, heq⟩ := h.owned k hk
    exact ⟨o, List.mem_cons_of_mem _ ho, heq⟩
  · intro o
    simp only [Objects.after, Function.update_apply]
    split
    · rfl
    · exact h.hashed o
  · intro o
    rw [Function.update_apply]
    split
    · simp
    · exact h.notMinusOne o

theorem Stores.delete (h : Stores p address objects cache interp map) {object : Nat}
    (hlive : object ∈ objects.live) :
    ∃ interp', pointerCall p raw address interp (.delete object) = some ([], interp') ∧
      Stores p address (objects.after (.delete object)) (Function.update cache object none) interp'
        (map.erase (address object)) := by
  obtain ⟨hcan, hword⟩ := h.key object hlive
  have hkeys : ∀ k, (map.lookup k).isSome → canCachePointerHash k = true := by
    intro k hk
    obtain ⟨o, ho, rfl⟩ := h.owned k hk
    exact (h.key o ho).1
  obtain ⟨interp', hrun, href⟩ := deleteObjectIdentityHash_spec h.refines hword hkeys
  have hold : ∀ o ∈ objects.live.erase object, o ∈ objects.live ∧ o ≠ object :=
    fun o ho => ⟨List.mem_of_mem_erase ho, fun heq =>
      h.nodup.not_mem_erase (heq ▸ ho)⟩
  have hne : ∀ o ∈ objects.live, o ≠ object → address o ≠ address object :=
    fun o ho hoo heq => hoo (h.apart o ho object hlive heq)
  refine ⟨interp', by simp [pointerCall, hrun], href, h.nodup.erase object, ?_, ?_, ?_, ?_, ?_, ?_⟩
  · exact fun o ho => h.key o (hold o ho).1
  · exact fun a ha b hb => h.apart a (hold a ha).1 b (hold b hb).1
  · intro o ho
    obtain ⟨ho, hoo⟩ := hold o ho
    rw [Finmap.lookup_erase_ne (hne o ho hoo), Function.update_of_ne hoo]
    exact h.stored o ho
  · intro k hk
    by_cases hkk : k = address object
    · rw [hkk, Finmap.lookup_erase] at hk
      exact absurd hk (by simp)
    · rw [Finmap.lookup_erase_ne hkk] at hk
      obtain ⟨o, ho, heq⟩ := h.owned k hk
      exact ⟨o, (List.mem_erase_of_ne (fun hoo => hkk (by rw [← heq, hoo]))).mpr ho, heq⟩
  · intro o
    simp only [Objects.after, Function.update_apply]
    split
    · rfl
    · exact h.hashed o
  · intro o
    rw [Function.update_apply]
    split
    · simp
    · exact h.notMinusOne o

theorem Stores.hash (h : Stores p address objects cache interp map) {object : Nat} {m : Machine}
    (hok : CallOk p address objects interp (.hash object m)) :
    ∃ interp' map', pointerCall p raw address interp (.hash object m) =
        some ((coordinateCall p cache (.hash object m)).1, interp') ∧
      Stores p address (objects.after (.hash object m))
        (coordinateCall p cache (.hash object m)).2 interp' map' := by
  obtain ⟨hlive, hgrow, hvisible⟩ := hok
  obtain ⟨hcan, hword⟩ := h.key object hlive
  have hk := objectKey_of_canCache hcan hword
  have hstored := h.stored object hlive
  cases hcache : cache object with
  | some value =>
    rw [hcache] at hstored
    have hrun := hashPointer_hit raw h.refines hcan hk hstored (hashContext p m)
    have hsame : Function.update cache object (some value) = cache := by
      rw [← hcache]
      exact Function.update_eq_self object cache
    refine ⟨interp, map, by simp [pointerCall, coordinateCall, hrun, hcache], ?_⟩
    simp only [coordinateCall, hcache, Option.getD_some, hsame]
    refine ⟨h.refines, h.nodup, h.key, h.apart, h.stored, h.owned, ?_, h.notMinusOne⟩
    intro o
    simp only [Objects.after, Function.update_apply]
    split
    · next hoo => rw [hoo, hcache]; rfl
    · exact h.hashed o
  | none =>
    rw [hcache] at hstored
    have hfirst : useCoordinatePointerHash m = true :=
      hvisible (by rw [← h.hashed, hcache]; rfl)
    obtain ⟨interp', hrun, href⟩ := hashPointer_first raw h.refines hgrow hcan hk hstored
      (hashContext p m)
    have hcontext : (if (hashContext p m).useCoordinate then
        normalizePyHash (hashContext p m).coordinateHash
        else rawPointerHash raw (address object)) =
          normalizePyHash (pyHash p (currentCoordinateHash p m)) := if_pos hfirst
    rw [hcontext] at hrun href
    refine ⟨interp', _, by simp [pointerCall, coordinateCall, hrun, hcache], href, h.nodup, h.key,
      h.apart, ?_, ?_, ?_, ?_⟩
    · intro o ho
      simp only [coordinateCall, hcache, Option.getD_none]
      by_cases hoo : o = object
      · rw [hoo, Finmap.lookup_insert, Function.update_self]
      · rw [Finmap.lookup_insert_of_ne _ (fun heq => hoo (h.apart o ho object hlive heq)),
          Function.update_of_ne hoo]
        exact h.stored o ho
    · intro k hk
      by_cases hkk : k = address object
      · exact ⟨object, hlive, hkk.symm⟩
      · rw [Finmap.lookup_insert_of_ne _ hkk] at hk
        exact h.owned k hk
    · intro o
      simp only [coordinateCall, Objects.after, Function.update_apply]
      split
      · rfl
      · exact h.hashed o
    · intro o
      simp only [coordinateCall, hcache, Option.getD_none, Function.update_apply]
      split
      · simp [normalizePyHash_ne]
      · exact h.notMinusOne o

theorem Stores.call (h : Stores p address objects cache interp map) {call : PointerCall}
    (hok : CallOk p address objects interp call) :
    ∃ interp' map', pointerCall p raw address interp call =
        some ((coordinateCall p cache call).1, interp') ∧
      Stores p address (objects.after call) (coordinateCall p cache call).2 interp' map' := by
  cases call with
  | allocate object => exact ⟨interp, map, rfl, h.allocate hok⟩
  | hash object m => exact h.hash hok
  | delete object =>
    obtain ⟨interp', hrun, hstores⟩ := @Stores.delete p raw _ _ _ _ _ h object hok
    exact ⟨interp', _, hrun, hstores⟩

theorem Stores.run {calls : List PointerCall} (h : Stores p address objects cache interp map)
    (hok : RunOk p raw address calls objects interp) :
    ∃ interp', pointerRun p raw address calls interp =
      some (coordinateRun p calls cache, interp') := by
  induction calls generalizing objects cache interp map with
  | nil => exact ⟨interp, rfl⟩
  | cons call calls ih =>
    obtain ⟨hcall, hrest⟩ := hok
    obtain ⟨between, map', hrun, hstores⟩ := @Stores.call p raw _ _ _ _ _ h call hcall
    rw [hrun] at hrest
    obtain ⟨interp', hlater⟩ := ih hstores hrest
    exact ⟨interp', by simp [pointerRun, coordinateRun, hrun, hlater]⟩

theorem coordinateRun_ne {calls : List PointerCall} (hcache : ∀ object, cache object ≠ some (-1)) :
    ∀ value ∈ coordinateRun p calls cache, value ≠ -1 := by
  induction calls generalizing cache with
  | nil => simp [coordinateRun]
  | cons call calls ih =>
    intro value hvalue
    simp only [coordinateRun, List.mem_append] at hvalue
    cases call with
    | hash object m =>
      have hgiven : (cache object).getD (normalizePyHash (pyHash p (currentCoordinateHash p m))) ≠
          -1 := by
        cases hc : cache object with
        | none => exact normalizePyHash_ne _
        | some v => exact fun heq => hcache object (by rw [hc]; exact congrArg some heq)
      rcases hvalue with hvalue | hvalue
      · simp only [coordinateCall, List.mem_singleton] at hvalue
        exact hvalue ▸ hgiven
      · refine ih ?_ value hvalue
        intro o
        simp only [coordinateCall, Function.update_apply]
        split
        · simpa using hgiven
        · exact hcache o
    | _ object =>
      rcases hvalue with hvalue | hvalue
      · simp [coordinateCall] at hvalue
      · refine ih ?_ value hvalue
        intro o
        simp only [coordinateCall, Function.update_apply]
        split
        · simp
        · exact hcache o

/-- Two runs of the same calls at the same coordinates give the same hashes, whatever the
addresses of the objects are, and never -1. -/
theorem pointerHashes_address_independent {raw' : Nat → Int} {address' : Nat → Nat}
    {calls calls' : List PointerCall} (malloc malloc' : RawMalloc)
    (hsame : List.Forall₂ SameCall calls calls')
    (hok : RunOk p raw address calls Objects.none (freshIdentityHashes malloc))
    (hok' : RunOk p raw' address' calls' Objects.none (freshIdentityHashes malloc')) :
    ∃ values interp interp',
      pointerRun p raw address calls (freshIdentityHashes malloc) = some (values, interp) ∧
      pointerRun p raw' address' calls' (freshIdentityHashes malloc') = some (values, interp') ∧
      ∀ value ∈ values, value ≠ -1 := by
  obtain ⟨interp, hrun⟩ := (stores_none malloc).run hok
  obtain ⟨interp', hrun'⟩ := (stores_none malloc').run hok'
  rw [coordinateRun_same hsame] at hrun'
  exact ⟨_, interp, interp', hrun, hrun', coordinateRun_ne (fun _ => by simp)⟩

end runs

/-- A thread inside a function, at one of its instructions. -/
def threadAt (offset : Nat) : Machine :=
  let m := freshMachine ⟨true, true⟩ 0
  let m := m.setTstate { m.tstate with threadId := 7 }
  (threadRun ⟨true, true⟩ [.call 0 0 true true, .begin [] offset] m).getD m

/-- An object is hashed and deleted, another is hashed twice; only in the first run does it take
the address of the first. -/
theorem pointerHashes_address_reused :
    ∃ values interp interp',
      pointerRun ⟨true, true⟩ (fun ptr => (ptr / 16 : Nat)) (fun _ => 16)
        [.allocate 0, .hash 0 (threadAt 2), .delete 0, .allocate 1, .hash 1 (threadAt 4),
          .hash 1 (threadAt 6)] (freshIdentityHashes ⟨fun _ => false, fun _ _ => 0, 0⟩) =
        some (values, interp) ∧
      pointerRun ⟨true, true⟩ (fun ptr => (ptr / 16 : Nat)) (fun object => 32 + 8 * object)
        [.allocate 0, .hash 0 (threadAt 2), .delete 0, .allocate 1, .hash 1 (threadAt 4),
          .hash 1 (threadAt 6)] (freshIdentityHashes ⟨fun _ => false, fun _ _ => 0, 0⟩) =
        some (values, interp') ∧
      ∀ value ∈ values, value ≠ -1 :=
  pointerHashes_address_independent _ _
    (.cons (.allocate 0) (.cons (.hash 0 rfl) (.cons (.delete 0) (.cons (.allocate 1)
      (.cons (.hash 1 rfl) (.cons (.hash 1 rfl) .nil))))))
    (by decide +kernel) (by decide +kernel)

end Retrace
