import Retrace.PointerChain
import Retrace.ThreadStart

/-! The functions that walk the frames of a thread through their `previous` pointers. -/

set_option autoImplicit false

namespace Retrace

/-- The frames of a thread in memory, each with the pointer to the one before it. -/
structure FrameStack where
  machine : Machine
  previous : Nat → Option Nat

/-- The condition of every walker; no visible frame is without a space. -/
def FrameStack.selects (stack : FrameStack) (space : Option SpacePtr) (f : Nat) : Bool :=
  frameIsVisible (stack.machine.frames f) && (stack.machine.frames f).space == space

def FrameStack.pair (stack : FrameStack) (f : Nat) : Nat × Nat :=
  (frameCoordinate (stack.machine.frames f), (stack.machine.frames f).currentCallOrdinal)

namespace FrameStack

/-- The loop of `retrace_coordinate_count`; `none` if it does not end. -/
def coordinateCount (stack : FrameStack) (space : Option SpacePtr) :
    Nat → Option Nat → Nat → Option Nat
  | _, none, count => some count
  | 0, some _, _ => none
  | fuel + 1, some scan, count =>
    coordinateCount stack space fuel (stack.previous scan)
      (if stack.selects space scan then count + 2 else count)

/-- The loop of `retrace_fill_coordinates`: its writes in their order, as indices and words. -/
def fillCoordinates (stack : FrameStack) (space : Option SpacePtr) :
    Nat → Option Nat → Int → Option (List (Int × Nat))
  | _, none, _ => some []
  | 0, some _, _ => none
  | fuel + 1, some scan, position =>
    if stack.selects space scan then do
      let position := position - 2
      let writes ← fillCoordinates stack space fuel (stack.previous scan) position
      some ((position, (stack.pair scan).1) :: (position + 1, (stack.pair scan).2) :: writes)
    else fillCoordinates stack space fuel (stack.previous scan) position

def nearestVisibleFrameInSpace (stack : FrameStack) (space : Option SpacePtr) (fuel : Nat)
    (frame : Option Nat) : Option (Option Nat) :=
  PointerChain.findFrom stack.previous (stack.selects space) fuel frame

/-- The recursion of `_PyRetrace_FrameCoordinateHashInSpace` and
`_PyRetrace_MixVisibleFrameCoordinates`: behind the last frame they start from `hash`. -/
def mixFrames (p : Platform) (stack : FrameStack) (space : Option SpacePtr) (hash : Nat) :
    Nat → Option Nat → Option Nat
  | 0, frame => (stack.nearestVisibleFrameInSpace space 0 frame).map (fun _ => hash)
  | fuel + 1, frame => do
    match ← stack.nearestVisibleFrameInSpace space (fuel + 1) frame with
    | none => some hash
    | some f =>
      let hash ← mixFrames p stack space hash fuel (stack.previous f)
      some (mixFrameCoordinateHash p hash (stack.pair f).1 (stack.pair f).2)

/-- `_PyRetrace_RootCoordinateHash`; a space is a node of the thread, or NULL. -/
def rootCoordinateHash (p : Platform) (stack : FrameStack) (space : Option Nat) : Nat :=
  match space with
  | none => spaceRootCoordinateHash p stack.machine.tstate
  | some node => Retrace.rootCoordinateHash p stack.machine node

def frameCoordinateHashInSpace (p : Platform) (stack : FrameStack) (space : Option Nat)
    (fuel : Nat) (frame : Option Nat) : Option Nat :=
  stack.mixFrames p (space.map stack.machine.spacePtr) (stack.rootCoordinateHash p space) fuel frame

def mixVisibleFrameCoordinates (p : Platform) (stack : FrameStack) (space : Option Nat)
    (hash fuel : Nat) (frame : Option Nat) : Option Nat :=
  stack.mixFrames p (space.map stack.machine.spacePtr) hash fuel frame

/-- The pairs of the frames that the walkers select, from the root to the leaf. -/
def coordinatePairs (stack : FrameStack) (space : Option SpacePtr) (chain : List Nat) :
    List (Nat × Nat) :=
  ((chain.filter (stack.selects space)).map stack.pair).reverse

end FrameStack

def pairWords (pairs : List (Nat × Nat)) : List Nat := pairs.flatMap (fun pair => [pair.1, pair.2])

def store (writes : List (Int × Nat)) (buffer : Int → Nat) : Int → Nat :=
  writes.foldl (fun buffer write => Function.update buffer write.1 write.2) buffer

def mixPair (p : Platform) (hash : Nat) (pair : Nat × Nat) : Nat :=
  mixFrameCoordinateHash p hash pair.1 pair.2

section walkers
variable {p : Platform} {stack : FrameStack} {space : Option SpacePtr} {frame : Option Nat}
  {chain : List Nat} {fuel : Nat}

theorem coordinatePairs_cons (f : Nat) (rest : List Nat) :
    stack.coordinatePairs space (f :: rest) = stack.coordinatePairs space rest ++
      if stack.selects space f then [stack.pair f] else [] := by
  unfold FrameStack.coordinatePairs
  rw [List.filter_cons]
  split <;> simp

theorem coordinatePairs_length (chain : List Nat) :
    (stack.coordinatePairs space chain).length = chain.countP (stack.selects space) := by
  unfold FrameStack.coordinatePairs
  rw [List.length_reverse, List.length_map, List.countP_eq_length_filter]

theorem pairWords_append (pairs pairs' : List (Nat × Nat)) :
    pairWords (pairs ++ pairs') = pairWords pairs ++ pairWords pairs' := List.flatMap_append

theorem pairWords_length (pairs : List (Nat × Nat)) :
    (pairWords pairs).length = 2 * pairs.length := by
  induction pairs with
  | nil => rfl
  | cons pair pairs ih =>
    change (pair.1 :: pair.2 :: pairWords pairs).length = _
    rw [List.length_cons, List.length_cons, List.length_cons, ih]
    omega

theorem coordinateCount_walk (hchain : PointerChain.Chain stack.previous frame chain)
    (hfuel : chain.length ≤ fuel) (count : Nat) :
    stack.coordinateCount space fuel frame count =
      some (count + 2 * chain.countP (stack.selects space)) := by
  induction hchain generalizing fuel count with
  | nil => cases fuel <;> rfl
  | cons tail ih =>
    rename_i f rest
    cases fuel with
    | zero => simp at hfuel
    | succ fuel =>
      rw [FrameStack.coordinateCount, ih (Nat.le_of_succ_le_succ hfuel), List.countP_cons]
      split
      · congr 1
        omega
      · rfl

theorem coordinatePairs_skip {before : List Nat} (hskip : ∀ f ∈ before, ¬ stack.selects space f)
    (f : Nat) (rest : List Nat) : stack.coordinatePairs space (before ++ f :: rest) =
      stack.coordinatePairs space (f :: rest) := by
  unfold FrameStack.coordinatePairs
  rw [List.filter_append, List.filter_eq_nil_iff.mpr hskip, List.nil_append]

/-- The frame that the search finds is the leaf of the pairs, and the rest of the chain has the
others. -/
theorem mixFrames_walk (hchain : PointerChain.Chain stack.previous frame chain)
    (hfuel : chain.length ≤ fuel) (hash : Nat) :
    stack.mixFrames p space hash fuel frame =
      some ((stack.coordinatePairs space chain).foldl (mixPair p) hash) := by
  induction fuel generalizing frame chain with
  | zero =>
    rw [hchain.start, List.eq_nil_of_length_eq_zero (Nat.le_zero.mp hfuel)]
    rfl
  | succ fuel ih =>
    rw [FrameStack.mixFrames, FrameStack.nearestVisibleFrameInSpace, hchain.findFrom _ hfuel,
      Option.bind_eq_bind, Option.bind_some]
    cases hfind : chain.find? (stack.selects space) with
    | none =>
      rw [List.find?_eq_none] at hfind
      have hnone : stack.coordinatePairs space chain = [] := by
        unfold FrameStack.coordinatePairs
        rw [List.filter_eq_nil_iff.mpr hfind]
        rfl
      rw [hnone]
      rfl
    | some f =>
      obtain ⟨hselected, before, after, rfl, hskip⟩ := List.find?_eq_some_iff_append.mp hfind
      have hafter : PointerChain.Chain stack.previous (stack.previous f) after := by
        cases hchain.from rfl with
        | cons tail => exact tail
      have hlength : after.length ≤ fuel := by
        rw [List.length_append, List.length_cons] at hfuel
        omega
      have hpassed : ∀ g ∈ before, ¬ stack.selects space g = true := by
        intro g hg
        have hfalse := hskip g hg
        rw [Bool.not_eq_true'] at hfalse
        rw [hfalse]
        exact Bool.false_ne_true
      dsimp only
      rw [ih hafter hlength, Option.bind_eq_bind, Option.bind_some, coordinatePairs_skip hpassed,
        coordinatePairs_cons, if_pos hselected, List.foldl_append]
      rfl

theorem store_of_not_mem {writes : List (Int × Nat)} {i : Int} (h : i ∉ writes.map Prod.fst)
    (buffer : Int → Nat) : store writes buffer i = buffer i := by
  induction writes generalizing buffer with
  | nil => rfl
  | cons write writes ih =>
    rw [List.map_cons, List.mem_cons, not_or] at h
    exact (ih h.2 _).trans (Function.update_of_ne h.1 _ _)

def indices (start : Int) (count : Nat) : List Int :=
  (List.range count).map (fun i : Nat => start + (i : Int))

theorem mem_indices {start i : Int} {count : Nat} :
    i ∈ indices start count ↔ start ≤ i ∧ i < start + count := by
  unfold indices
  rw [List.mem_map]
  constructor
  · rintro ⟨k, hk, rfl⟩
    rw [List.mem_range] at hk
    omega
  · rintro ⟨hle, hlt⟩
    exact ⟨(i - start).toNat, List.mem_range.mpr (by omega), by omega⟩

theorem indices_add_two (start : Int) (count : Nat) :
    indices start (count + 2) = indices start count ++ [start + count, start + count + 1] := by
  unfold indices
  rw [List.range_succ, List.range_succ, List.append_assoc, List.map_append]
  simp
  omega

theorem fillCoordinates_walk (hchain : PointerChain.Chain stack.previous frame chain)
    (hfuel : chain.length ≤ fuel) (start : Int) :
    ∃ writes, stack.fillCoordinates space fuel frame
        (start + (pairWords (stack.coordinatePairs space chain)).length) = some writes ∧
      (writes.map Prod.fst).Perm
        (indices start (pairWords (stack.coordinatePairs space chain)).length) ∧
      ∀ buffer, (indices start (pairWords (stack.coordinatePairs space chain)).length).map
        (store writes buffer) = pairWords (stack.coordinatePairs space chain) := by
  induction hchain generalizing fuel with
  | nil =>
    refine ⟨[], ?_, List.Perm.refl _, fun _ => rfl⟩
    cases fuel <;> rfl
  | cons tail ih =>
    rename_i f rest
    cases fuel with
    | zero => simp at hfuel
    | succ fuel =>
      obtain ⟨writes, hfill, hperm, hstore⟩ := ih (Nat.le_of_succ_le_succ hfuel)
      rw [FrameStack.fillCoordinates, coordinatePairs_cons]
      by_cases hselected : stack.selects space f = true
      · rw [if_pos hselected, if_pos hselected, pairWords_append]
        generalize pairWords (stack.coordinatePairs space rest) = words at hfill hperm hstore ⊢
        have hlength : (words ++ pairWords [stack.pair f]).length = words.length + 2 := by
          rw [List.length_append]
          rfl
        have hposition : start + ((words.length + 2 : Nat) : Int) - 2 = start + words.length := by
          omega
        rw [hlength, hposition]
        dsimp only
        rw [hfill, indices_add_two]
        refine ⟨_, rfl, ?_, fun buffer => ?_⟩
        · rw [List.map_cons, List.map_cons]
          exact (List.Perm.cons _ (List.Perm.cons _ hperm)).trans
            (@List.perm_append_comm _ [_, _] _)
        · rw [List.map_append]
          have houtside : ∀ i, start + words.length ≤ i → i ∉ writes.map Prod.fst := by
            intro i hi hmem
            have hlt := (mem_indices.mp (hperm.mem_iff.mp hmem)).2
            omega
          congr 1
          · exact hstore _
          · have hfirst : ∀ rest : Int → Nat, store writes rest (start + words.length) =
                rest (start + words.length) := store_of_not_mem (houtside _ (Int.le_refl _))
            have hsecond : ∀ rest : Int → Nat, store writes rest (start + words.length + 1) =
                rest (start + words.length + 1) := store_of_not_mem (houtside _ (by omega))
            change [store writes _ _, store writes _ _] = [(stack.pair f).1, (stack.pair f).2]
            have hne : start + (words.length : Int) ≠ start + words.length + 1 := by omega
            rw [hfirst, hsecond]
            dsimp only
            rw [Function.update_of_ne hne, Function.update_self, Function.update_self]
      · rw [if_neg hselected, if_neg hselected, List.append_nil]
        exact ⟨writes, hfill, hperm, hstore⟩

theorem coordinatesOf_pairs (stack : FrameStack) (space : SpacePtr) (chain : List Nat) :
    coordinatesOf stack.machine space chain =
      pairWords (stack.coordinatePairs (some space) chain) := by
  rw [coordinatesOf_eq]
  induction chain with
  | nil => rfl
  | cons f rest ih =>
    rw [frameWords_cons, ih, coordinatePairs_cons, pairWords_append]
    unfold FrameStack.selects Machine.visibleIn
    split <;> rfl

theorem mixVisibleFrameCoordinates_pairs (p : Platform) (stack : FrameStack)
    (space : Option SpacePtr) (chain : List Nat) (hash : Nat) :
    mixVisibleFrameCoordinates p stack.machine space chain hash =
      (stack.coordinatePairs space chain).foldl (mixPair p) hash := by
  induction chain with
  | nil => rfl
  | cons f rest ih =>
    rw [mixVisibleFrameCoordinates, ih, coordinatePairs_cons, List.foldl_append]
    unfold FrameStack.selects
    by_cases hselected : frameIsVisible (stack.machine.frames f) = true ∧
        (stack.machine.frames f).space = space
    · rw [if_pos hselected, if_pos (by rw [hselected.1, hselected.2]; simp)]
      rfl
    · rw [if_neg hselected, if_neg (by simpa using hselected)]
      rfl

theorem frameCoordinateHashInSpace_pairs (p : Platform) (stack : FrameStack) (node : Nat)
    (chain : List Nat) :
    frameCoordinateHashInSpace p stack.machine node chain =
      (stack.coordinatePairs (some (stack.machine.spacePtr node)) chain).foldl (mixPair p)
        (stack.rootCoordinateHash p (some node)) := by
  induction chain with
  | nil => rfl
  | cons f rest ih =>
    rw [frameCoordinateHashInSpace, ih, coordinatePairs_cons, List.foldl_append]
    unfold FrameStack.selects Machine.visibleIn
    split <;> rfl

end walkers

/-- All walkers select the same frames in the same order. -/
theorem stackWalkers_agree (p : Platform) {stack : FrameStack} {frame : Option Nat}
    {chain : List Nat} (hchain : PointerChain.Chain stack.previous frame chain) {fuel : Nat}
    (hfuel : chain.length ≤ fuel) (space : Option Nat) :
    ∃ count pairs, pairs = stack.coordinatePairs (space.map stack.machine.spacePtr) chain ∧
      count = 2 * chain.countP (stack.selects (space.map stack.machine.spacePtr)) ∧
      stack.coordinateCount (space.map stack.machine.spacePtr) fuel frame 0 = some count ∧
      (∃ writes, stack.fillCoordinates (space.map stack.machine.spacePtr) fuel frame count =
          some writes ∧ (writes.map Prod.fst).Perm ((List.range count).map Int.ofNat) ∧
        ∀ buffer, (List.range count).map (fun i : Nat => store writes buffer i) =
          pairWords pairs) ∧
      stack.frameCoordinateHashInSpace p space fuel frame =
        some (pairs.foldl (mixPair p) (stack.rootCoordinateHash p space)) ∧
      ∀ hash, stack.mixVisibleFrameCoordinates p space hash fuel frame =
        some (pairs.foldl (mixPair p) hash) := by
  have hcount : (pairWords (stack.coordinatePairs (space.map stack.machine.spacePtr)
      chain)).length = 2 * chain.countP (stack.selects (space.map stack.machine.spacePtr)) := by
    rw [pairWords_length, coordinatePairs_length]
  refine ⟨_, _, rfl, rfl, ?_, ?_, mixFrames_walk hchain hfuel _, mixFrames_walk hchain hfuel⟩
  · rw [coordinateCount_walk hchain hfuel, Nat.zero_add]
  · obtain ⟨writes, hfill, hperm, hstore⟩ := @fillCoordinates_walk stack
      (space.map stack.machine.spacePtr) frame chain fuel hchain hfuel 0
    rw [hcount] at hfill hperm hstore
    unfold indices at hperm hstore
    simp only [Int.zero_add, List.map_map] at hfill hperm hstore
    exact ⟨writes, hfill, hperm, hstore⟩

/-- Two visible frames of a space, a frame of another space between them, and an incomplete one
behind them. -/
def mixedStack : FrameStack where
  machine :=
    let m := freshMachine ⟨true, true⟩ 0
    let frame (f : Nat) (offset ordinal : Nat) (space : Nat) : InterpreterFrame :=
      { m.frames f with
        lasti := offset
        firstTraceable := 2
        currentCallOrdinal := ordinal
        space := some (m.spacePtr space) }
    { m with frames := fun f => frame f (2 * f) (f + 10) (if f = 2 then 1 else 0) }
  previous f := if f = 0 then none else some (f - 1)

theorem stackWalkers_agree_mixed :
    mixedStack.coordinateCount (some ⟨0, 0⟩) 4 (some 3) 0 = some 4 ∧
    mixedStack.frameCoordinateHashInSpace ⟨true, true⟩ (some 0) 4 (some 3) =
      some ([(2, 11), (6, 13)].foldl (mixPair ⟨true, true⟩)
        (mixedStack.rootCoordinateHash ⟨true, true⟩ (some 0))) := by
  have hchain : PointerChain.Chain mixedStack.previous (some 3) [3, 2, 1, 0] :=
    .cons (.cons (.cons (.cons .nil)))
  obtain ⟨count, pairs, hpairs, hcount, hwalk, -, hhash, -⟩ :=
    stackWalkers_agree ⟨true, true⟩ hchain (Nat.le_refl 4) (some 0)
  have hcount4 : count = 4 := hcount.trans (by decide)
  have hpairs2 : pairs = [(2, 11), (6, 13)] := hpairs.trans (by decide)
  exact ⟨hcount4 ▸ hwalk, hpairs2 ▸ hhash⟩

end Retrace
