import Retrace.StackWalkers

/-! The words that a coordinate hash feeds to its mixer, and what they say of the position. -/

set_option autoImplicit false

namespace Retrace

/-- `_PyRetrace_MixFrameCoordinateHash`, for any mixer. -/
def feedFrame {α : Type} (mix : α → Nat → α) (hash : α) (instructionCounter callOrdinal : Nat) :
    α :=
  let hash := mix hash (instructionCounter &&& coordinateHashMask)
  if callOrdinal ≠ 0 then mix hash (callOrdinalHashTag ||| callOrdinal) else hash

/-- `_PyRetrace_RootCoordinateHash` and then the frames, for any mixer. -/
def feedPosition {α : Type} (mix : α → Nat → α) (hash : α) (rootCallOrdinal : Nat)
    (pairs : List (Nat × Nat)) : α :=
  pairs.foldl (fun hash pair => feedFrame mix hash pair.1 pair.2)
    (if rootCallOrdinal ≠ 0 then feedFrame mix hash 0 rootCallOrdinal else hash)

/-- The words in their order: the mixer only writes them down. -/
def positionWords (rootCallOrdinal : Nat) (pairs : List (Nat × Nat)) : List Nat :=
  feedPosition (fun words word => words ++ [word]) [] rootCallOrdinal pairs

def coordinateMix (p : Platform) (hash word : Nat) : Nat :=
  normalizeCoordinateHash (mix64 p hash word)

def PositionOk (rootCallOrdinal : Nat) (pairs : List (Nat × Nat)) : Prop :=
  rootCallOrdinal < 2 ^ 63 ∧ ∀ pair ∈ pairs, pair.1 < 2 ^ 63 ∧ pair.2 < 2 ^ 63

instance (rootCallOrdinal : Nat) (pairs : List (Nat × Nat)) :
    Decidable (PositionOk rootCallOrdinal pairs) := inferInstanceAs (Decidable (_ ∧ _))

def framesFeed (pairs : List (Nat × Nat)) : List Nat :=
  pairs.flatMap (fun pair => feedFrame (fun words word => words ++ [word]) [] pair.1 pair.2)

/-- The position as the hash sees it: a root ordinal is a pair like any other. -/
def positionPairs (rootCallOrdinal : Nat) (pairs : List (Nat × Nat)) : List (Nat × Nat) :=
  if rootCallOrdinal ≠ 0 then (0, rootCallOrdinal) :: pairs else pairs

section feed
variable {α : Type} (mix : α → Nat → α)

theorem feedFrame_foldl (hash : α) (words : List Nat) (instructionCounter callOrdinal : Nat) :
    feedFrame mix (words.foldl mix hash) instructionCounter callOrdinal =
      (feedFrame (fun words word => words ++ [word]) words instructionCounter callOrdinal).foldl mix
        hash := by
  unfold feedFrame
  dsimp only
  split <;> simp only [List.foldl_append, List.foldl_cons, List.foldl_nil]

theorem feedPosition_foldl (hash : α) (rootCallOrdinal : Nat) (pairs : List (Nat × Nat)) :
    feedPosition mix hash rootCallOrdinal pairs =
      (positionWords rootCallOrdinal pairs).foldl mix hash := by
  have hframes : ∀ words : List Nat,
      pairs.foldl (fun hash pair => feedFrame mix hash pair.1 pair.2) (words.foldl mix hash) =
        (pairs.foldl (fun words pair => feedFrame (fun words word => words ++ [word]) words pair.1
          pair.2) words).foldl mix hash := by
    induction pairs with
    | nil => exact fun _ => rfl
    | cons pair pairs ih =>
      intro words
      rw [List.foldl_cons, List.foldl_cons, feedFrame_foldl, ih]
  unfold positionWords feedPosition
  rw [← hframes]
  split
  · rw [← feedFrame_foldl]
    rfl
  · rfl

end feed

section words
variable {p : Platform} {stack : FrameStack}

theorem mixFrameCoordinateHash_feed :
    mixFrameCoordinateHash p = feedFrame (coordinateMix p) := rfl

/-- The hash of a thread in a space is the fold of the mixer over the words of its position. -/
theorem frameCoordinateHashInSpace_words {frame : Option Nat} {chain : List Nat}
    (hchain : PointerChain.Chain stack.previous frame chain) {fuel : Nat}
    (hfuel : chain.length ≤ fuel) (node : Nat) :
    stack.frameCoordinateHashInSpace p (some node) fuel frame =
      some ((positionWords (stack.machine.tstate.space node).rootCallOrdinal
        (stack.coordinatePairs (some (stack.machine.spacePtr node)) chain)).foldl (coordinateMix p)
          (normalizeCoordinateHash (stack.machine.tstate.space node).rootCoordinateHash)) := by
  rw [← feedPosition_foldl]
  exact mixFrames_walk hchain hfuel _

theorem feedFrame_words {instructionCounter callOrdinal : Nat} (hc : instructionCounter < 2 ^ 63)
    (ho : callOrdinal < 2 ^ 63) (words : List Nat) :
    feedFrame (fun words word => words ++ [word]) words instructionCounter callOrdinal =
      words ++ instructionCounter ::
        if callOrdinal ≠ 0 then [2 ^ 63 + callOrdinal] else [] := by
  have hmask : instructionCounter &&& coordinateHashMask = instructionCounter :=
    (Nat.and_two_pow_sub_one_eq_mod instructionCounter 63).trans (Nat.mod_eq_of_lt hc)
  have htag : callOrdinalHashTag ||| callOrdinal = 2 ^ 63 + callOrdinal := by
    have hor := Nat.two_pow_add_eq_or_of_lt ho 1
    rw [Nat.mul_one] at hor
    exact hor.symm
  unfold feedFrame
  rw [hmask, htag]
  dsimp only
  split
  · rw [List.append_assoc]
    rfl
  · rfl

theorem framesFeed_cons {pair : Nat × Nat} (hpair : pair.1 < 2 ^ 63 ∧ pair.2 < 2 ^ 63)
    (pairs : List (Nat × Nat)) :
    framesFeed (pair :: pairs) =
      pair.1 :: ((if pair.2 ≠ 0 then [2 ^ 63 + pair.2] else []) ++ framesFeed pairs) := by
  change feedFrame (fun words word => words ++ [word]) [] pair.1 pair.2 ++ framesFeed pairs = _
  rw [feedFrame_words hpair.1 hpair.2]
  rfl

theorem framesFeed_ne_tagged {pairs : List (Nat × Nat)}
    (hpairs : ∀ pair ∈ pairs, pair.1 < 2 ^ 63 ∧ pair.2 < 2 ^ 63) (callOrdinal : Nat)
    (rest : List Nat) : framesFeed pairs ≠ (2 ^ 63 + callOrdinal) :: rest := by
  cases pairs with
  | nil => exact (List.cons_ne_nil _ _).symm
  | cons pair pairs =>
    have hpair := hpairs pair List.mem_cons_self
    rw [framesFeed_cons hpair]
    intro heq
    rw [List.cons.injEq] at heq
    omega

theorem framesFeed_injective {pairs pairs' : List (Nat × Nat)}
    (hpairs : ∀ pair ∈ pairs, pair.1 < 2 ^ 63 ∧ pair.2 < 2 ^ 63)
    (hpairs' : ∀ pair ∈ pairs', pair.1 < 2 ^ 63 ∧ pair.2 < 2 ^ 63)
    (h : framesFeed pairs = framesFeed pairs') : pairs = pairs' := by
  induction pairs generalizing pairs' with
  | nil =>
    cases pairs' with
    | nil => rfl
    | cons pair' rest' =>
      rw [framesFeed_cons (hpairs' pair' List.mem_cons_self)] at h
      cases h
  | cons pair rest ih =>
    have hpair := hpairs pair List.mem_cons_self
    have hrest := fun other hmem => hpairs other (List.mem_cons_of_mem pair hmem)
    cases pairs' with
    | nil =>
      rw [framesFeed_cons hpair] at h
      cases h
    | cons pair' rest' =>
      have hpair' := hpairs' pair' List.mem_cons_self
      have hrest' := fun other hmem => hpairs' other (List.mem_cons_of_mem pair' hmem)
      rw [framesFeed_cons hpair, framesFeed_cons hpair', List.cons.injEq] at h
      obtain ⟨hcounter, htail⟩ := h
      -- the next word is an ordinal of this frame exactly if it is tagged
      have hordinal : pair.2 = pair'.2 ∧ framesFeed rest = framesFeed rest' := by
        by_cases hzero : pair.2 = 0
        · by_cases hzero' : pair'.2 = 0
          · rw [if_neg (not_not.mpr hzero), if_neg (not_not.mpr hzero')] at htail
            exact ⟨hzero.trans hzero'.symm, htail⟩
          · rw [if_neg (not_not.mpr hzero), if_pos hzero'] at htail
            exact absurd htail (framesFeed_ne_tagged hrest _ _)
        · by_cases hzero' : pair'.2 = 0
          · rw [if_pos hzero, if_neg (not_not.mpr hzero')] at htail
            exact absurd htail.symm (framesFeed_ne_tagged hrest' _ _)
          · rw [if_pos hzero, if_pos hzero', List.singleton_append, List.singleton_append,
              List.cons.injEq] at htail
            exact ⟨by omega, htail.2⟩
      rw [Prod.ext hcounter hordinal.1, ih hrest hrest' hordinal.2]

theorem positionWords_eq (rootCallOrdinal : Nat) (pairs : List (Nat × Nat)) :
    positionWords rootCallOrdinal pairs = framesFeed (positionPairs rootCallOrdinal pairs) := by
  have happend : ∀ (pairs : List (Nat × Nat)) (words : List Nat),
      pairs.foldl (fun words pair => feedFrame (fun words word => words ++ [word]) words pair.1
        pair.2) words = words ++ framesFeed pairs := by
    intro pairs
    induction pairs with
    | nil => exact fun words => (List.append_nil words).symm
    | cons pair pairs ih =>
      intro words
      have hfeed : feedFrame (fun words word => words ++ [word]) words pair.1 pair.2 =
          words ++ feedFrame (fun words word => words ++ [word]) [] pair.1 pair.2 := by
        unfold feedFrame
        dsimp only
        split <;> simp
      rw [List.foldl_cons, ih, hfeed, List.append_assoc]
      rfl
  unfold positionWords feedPosition positionPairs
  rw [happend]
  split <;> rfl

end words

/-- Equal words come from equal positions, or from a root ordinal and from a root frame at
coordinate zero with this ordinal. -/
theorem positionWords_eq_iff {rootCallOrdinal rootCallOrdinal' : Nat}
    {pairs pairs' : List (Nat × Nat)} (h : PositionOk rootCallOrdinal pairs)
    (h' : PositionOk rootCallOrdinal' pairs') :
    positionWords rootCallOrdinal pairs = positionWords rootCallOrdinal' pairs' ↔
      rootCallOrdinal = rootCallOrdinal' ∧ pairs = pairs' ∨
      rootCallOrdinal ≠ 0 ∧ rootCallOrdinal' = 0 ∧ pairs' = (0, rootCallOrdinal) :: pairs ∨
      rootCallOrdinal' ≠ 0 ∧ rootCallOrdinal = 0 ∧ pairs = (0, rootCallOrdinal') :: pairs' := by
  have hrange : ∀ {ordinal : Nat} {pairs : List (Nat × Nat)}, PositionOk ordinal pairs →
      ∀ pair ∈ positionPairs ordinal pairs, pair.1 < 2 ^ 63 ∧ pair.2 < 2 ^ 63 := by
    intro ordinal pairs h pair hmem
    unfold positionPairs at hmem
    split at hmem
    · obtain rfl | hmem := List.mem_cons.mp hmem
      · exact ⟨Nat.two_pow_pos 63, h.1⟩
      · exact h.2 pair hmem
    · exact h.2 pair hmem
  have hpairs : positionWords rootCallOrdinal pairs = positionWords rootCallOrdinal' pairs' ↔
      positionPairs rootCallOrdinal pairs = positionPairs rootCallOrdinal' pairs' := by
    rw [positionWords_eq, positionWords_eq]
    exact ⟨framesFeed_injective (hrange h) (hrange h'), congrArg framesFeed⟩
  rw [hpairs]
  unfold positionPairs
  by_cases hzero : rootCallOrdinal = 0
  · by_cases hzero' : rootCallOrdinal' = 0
    · simp [hzero, hzero']
    · simp [hzero, hzero', Ne.symm hzero']
  · by_cases hzero' : rootCallOrdinal' = 0
    · simp [hzero, hzero', eq_comm]
    · simp [hzero, hzero']

theorem positionWords_eq_iff_nested :
    (positionWords 3 [(2, 0), (5, 1)] = positionWords 0 [(0, 3), (2, 0), (5, 1)]) ∧
      positionWords 3 [(2, 0), (5, 1)] ≠ positionWords 3 [(2, 5), (1, 0)] := by
  have hnested := positionWords_eq_iff
    (by decide : PositionOk 3 [(2, 0), (5, 1)]) (by decide : PositionOk 0 [(0, 3), (2, 0), (5, 1)])
  have hother := positionWords_eq_iff
    (by decide : PositionOk 3 [(2, 0), (5, 1)]) (by decide : PositionOk 3 [(2, 5), (1, 0)])
  exact ⟨hnested.mpr (by decide), fun heq => absurd (hother.mp heq) (by decide)⟩

/-- The second call from the root, and the second call of a root frame at its first instruction. -/
theorem positionWords_ambiguous :
    ¬ ∀ rootCallOrdinal rootCallOrdinal' pairs pairs', PositionOk rootCallOrdinal pairs →
      PositionOk rootCallOrdinal' pairs' →
      positionWords rootCallOrdinal pairs = positionWords rootCallOrdinal' pairs' →
      rootCallOrdinal = rootCallOrdinal' ∧ pairs = pairs' := by
  intro hclaim
  exact absurd (hclaim 1 0 [] [(0, 1)] (by decide) (by decide) (by decide)).1 (by decide)

end Retrace
