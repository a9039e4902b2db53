import Retrace.StackWalkers
import Retrace.Registrations

/-! The comparison of a target with the coordinates of a stack, word by word through the buffer,
and the order that it comes to. -/

set_option autoImplicit false

namespace Retrace

/-- The items of a tuple of words, as Python ints. -/
def tupleOfU64s (values : List Nat) : List (Option Int) :=
  values.map (fun value : Nat => some (value : Int))

/-- The tuples that `retrace_tuple_from_sequence` returns. -/
def AcceptedTuple (values : List Nat) : Prop :=
  ∃ arg message room, tupleFromSequence arg message room = .ok values

/-- The loop on the common length: how many positions are left, and the position. -/
def compareLoop (target : List (Option Int)) (current : Int → Nat) :
    Nat → Nat → Except RegistrationError Int
  | 0, _ => .ok 0
  | left + 1, position => do
    let targetValue ← u64FromObject (target.getD position none)
    if targetValue < current position then .ok (-1)
    else if targetValue > current position then .ok 1
    else compareLoop target current left (position + 1)

def compareSizes (targetSize currentSize : Nat) (comparison : Int) : Int :=
  if comparison = 0 then
    if targetSize < currentSize then -1 else if targetSize > currentSize then 1 else 0
  else comparison

/-- `retrace_compare_target_to_frame` on frames in memory; `buffer` is what the new block holds.
The outer `none` says that a loop over the frames does not end. -/
def FrameStack.compareTarget (stack : FrameStack) (space : Option SpacePtr) (fuel : Nat)
    (frame : Option Nat) (buffer : Int → Nat) (allocates : Bool) (target : List (Option Int)) :
    Option (Except RegistrationError Int) := do
  let currentSize ← stack.coordinateCount space fuel frame 0
  if allocates = false ∧ currentSize ≠ 0 then some (.error (.raised .memoryError))
  else do
    let writes ←
      if currentSize ≠ 0 then stack.fillCoordinates space fuel frame currentSize else some []
    let comparison := compareLoop target (store writes buffer) (min target.length currentSize) 0
    some (comparison.map (compareSizes target.length currentSize))

/-- A space and a stack with a frame of it, from which the chain of frames ends. -/
structure StackPosition where
  stack : FrameStack
  space : SpacePtr
  frame : Option Nat
  chain : List Nat
  chained : PointerChain.Chain stack.previous frame chain

namespace StackPosition

def words (position : StackPosition) : List Nat :=
  coordinatesOf position.stack.machine position.space position.chain

def compare (position : StackPosition) (fuel : Nat) (buffer : Int → Nat) (allocates : Bool)
    (target : List Nat) : Option (Except RegistrationError Int) :=
  position.stack.compareTarget (some position.space) fuel position.frame buffer allocates
    (tupleOfU64s target)

/-- With the buffer allocated the comparison returns, always with this sign. -/
def Compares (position : StackPosition) (target : List Nat) (comparison : Int) : Prop :=
  ∀ fuel buffer, position.chain.length ≤ fuel →
    position.compare fuel buffer true target = some (.ok comparison)

end StackPosition

section words
variable {values target words : List Nat}

theorem itemsFromSequence_words {room : Nat → Bool} {index : Nat} {items : List (Option Int)}
    (h : itemsFromSequence room index items = .ok values) : ∀ value ∈ values, value < 2 ^ 64 := by
  induction items generalizing index values with
  | nil =>
    unfold itemsFromSequence at h
    cases h
    simp
  | cons item items ih =>
    unfold itemsFromSequence at h
    cases item with
    | none => cases h
    | some n =>
      rw [u64FromObject] at h
      split at h
      next hfits =>
        dsimp only [Except.bind, bind] at h
        split_ifs at h
        · cases hrest : itemsFromSequence room (index + 1) items with
          | error error =>
            rw [hrest] at h
            cases h
          | ok rest =>
            rw [hrest] at h
            cases h
            intro value hmem
            rcases List.mem_cons.mp hmem with rfl | hmem
            · omega
            · exact ih hrest value hmem
      next => cases h

theorem AcceptedTuple.fits (h : AcceptedTuple values) : ∀ value ∈ values, value < 2 ^ 64 := by
  obtain ⟨arg, message, room, h⟩ := h
  unfold tupleFromSequence at h
  split at h
  · cases h
  · split at h
    · exact itemsFromSequence_words h
    · cases h

theorem u64FromObject_word {value : Nat} (h : value < 2 ^ 64) :
    u64FromObject (some (value : Int)) = .ok value := by
  unfold u64FromObject
  dsimp only
  rw [if_pos (by omega)]
  rfl

theorem tupleOfU64s_getD {position : Nat} (h : position < values.length) :
    (tupleOfU64s values).getD position none = some ((values[position] : Nat) : Int) := by
  simp [tupleOfU64s, List.getD_eq_getElem?_getD, h]

theorem compareWords_nil_left (words : List Nat) :
    compareWords [] words = if words.length = 0 then 0 else -1 := by
  cases words <;> rfl

theorem compareWords_nil_right (target : List Nat) :
    compareWords target [] = if target.length = 0 then 0 else 1 := by
  cases target <;> rfl

theorem compareLoop_spec {current : Int → Nat} (htarget : ∀ value ∈ target, value < 2 ^ 64)
    (hcurrent : ∀ i (hi : i < words.length), current (i : Int) = words[i]) (left : Nat)
    {position : Nat} (hleft : position + left = min target.length words.length) :
    (compareLoop (tupleOfU64s target) current left position).map
        (compareSizes target.length words.length) =
      .ok (compareWords (target.drop position) (words.drop position)) := by
  induction left generalizing position with
  | zero =>
    unfold compareLoop compareSizes
    rcases Nat.le_total target.length words.length with hle | hle
    · have hend : target.drop position = [] := List.drop_eq_nil_of_le (by omega)
      rw [hend, compareWords_nil_left, List.length_drop]
      simp only [Except.map]
      congr 1
      split_ifs <;> omega
    · have hend : words.drop position = [] := List.drop_eq_nil_of_le (by omega)
      rw [hend, compareWords_nil_right, List.length_drop]
      simp only [Except.map]
      congr 1
      split_ifs <;> omega
  | succ left ih =>
    have htlt : position < target.length := by omega
    have hwlt : position < words.length := by omega
    unfold compareLoop
    rw [tupleOfU64s_getD htlt, u64FromObject_word (htarget _ (List.getElem_mem htlt)),
      hcurrent position hwlt, List.drop_eq_getElem_cons htlt, List.drop_eq_getElem_cons hwlt]
    have hnext : position + 1 + left = min target.length words.length := by omega
    have hrest := ih hnext
    unfold compareWords
    dsimp only [Except.bind, bind]
    split_ifs
    · rfl
    · rfl
    · exact hrest

theorem itemsFromSequence_tupleOfU64s (h : ∀ value ∈ values, value < 2 ^ 64) (index : Nat) :
    itemsFromSequence (fun _ => true) index (tupleOfU64s values) = .ok values := by
  induction values generalizing index with
  | nil => rfl
  | cons value values ih =>
    have hrest := ih (fun v hv => h v (List.mem_cons_of_mem _ hv)) (index + 1)
    unfold tupleOfU64s at hrest ⊢
    rw [List.map_cons, itemsFromSequence, u64FromObject_word (h value List.mem_cons_self)]
    dsimp only [Except.bind, bind]
    rw [hrest]
    rfl

theorem acceptedTuple_iff : AcceptedTuple values ↔ ∀ value ∈ values, value < 2 ^ 64 := by
  refine ⟨AcceptedTuple.fits, fun h => ?_⟩
  refine ⟨⟨false, none, none, some (tupleOfU64s values)⟩, "",
    ⟨true, true, fun _ => true, true, true⟩, ?_⟩
  exact itemsFromSequence_tupleOfU64s h 0

theorem compareWords_sign (target words : List Nat) :
    compareWords target words = -1 ∨ compareWords target words = 0 ∨
      compareWords target words = 1 := by
  fun_induction compareWords target words with
  | case1 => exact Or.inr (Or.inl rfl)
  | case2 => exact Or.inl rfl
  | case3 => exact Or.inr (Or.inr rfl)
  | case4 => exact Or.inl rfl
  | case5 => exact Or.inr (Or.inr rfl)
  | case6 _ _ _ _ _ _ ih => exact ih

theorem compareWords_cases (target words : List Nat) :
    compareWords target words = -1 ∧ target < words ∨
    compareWords target words = 0 ∧ target = words ∨
    compareWords target words = 1 ∧ words < target := by
  obtain ⟨hlt, heq, hgt⟩ := compareWords_spec target words
  obtain hsign | hsign | hsign := compareWords_sign target words
  · exact Or.inl ⟨hsign, hlt.mp (by omega)⟩
  · exact Or.inr (Or.inl ⟨hsign, heq.mp hsign⟩)
  · exact Or.inr (Or.inr ⟨hsign, hgt.mp (by omega)⟩)

theorem compareWords_swap (target words : List Nat) :
    compareWords words target = -compareWords target words := by
  obtain ⟨hlt, -, hgt⟩ := compareWords_spec target words
  obtain ⟨hlt', -, hgt'⟩ := compareWords_spec words target
  have hbefore : compareWords words target < 0 ↔ compareWords target words > 0 :=
    hlt'.trans hgt.symm
  have hafter : compareWords words target > 0 ↔ compareWords target words < 0 :=
    hgt'.trans hlt.symm
  have hsign := compareWords_sign target words
  have hsign' := compareWords_sign words target
  omega

/-- Not after and not after is not after, and as far as it can be the same only if both are. -/
theorem compareWords_trans {target middle words : List Nat}
    (hfirst : compareWords target middle ≤ 0) (hsecond : compareWords middle words ≤ 0) :
    compareWords target words ≤ 0 ∧ (compareWords target words = 0 →
      compareWords target middle = 0 ∧ compareWords middle words = 0) := by
  obtain ⟨hlt, heq, -⟩ := compareWords_spec target words
  obtain ⟨hone, hless⟩ | ⟨hone, rfl⟩ | ⟨hone, -⟩ := compareWords_cases target middle
  · have hbefore : target < words := by
      obtain ⟨-, hless'⟩ | ⟨-, rfl⟩ | ⟨htwo, -⟩ := compareWords_cases middle words
      · exact List.lt_trans hless hless'
      · exact hless
      · omega
    have hresult := hlt.mpr hbefore
    exact ⟨by omega, by omega⟩
  · exact ⟨hsecond, fun hsame => ⟨hone, hsame⟩⟩
  · omega

end words

namespace StackPosition
variable {position : StackPosition} {target : List Nat} {fuel : Nat}

theorem words_eq (position : StackPosition) : position.words =
    pairWords (position.stack.coordinatePairs (some position.space) position.chain) :=
  coordinatesOf_pairs position.stack position.space position.chain

theorem count_eq (position : StackPosition) (hfuel : position.chain.length ≤ fuel) :
    position.stack.coordinateCount (some position.space) fuel position.frame 0 =
      some position.words.length := by
  rw [coordinateCount_walk position.chained hfuel, position.words_eq, pairWords_length,
    coordinatePairs_length, Nat.zero_add]

theorem fill_eq (position : StackPosition) (hfuel : position.chain.length ≤ fuel) :
    ∃ writes, position.stack.fillCoordinates (some position.space) fuel position.frame
        position.words.length = some writes ∧
      ∀ buffer, ∀ i (hi : i < position.words.length),
        store writes buffer (i : Int) = position.words[i] := by
  obtain ⟨writes, hfill, -, hstore⟩ := @fillCoordinates_walk position.stack
    (some position.space) position.frame position.chain fuel position.chained hfuel 0
  rw [← position.words_eq, Int.zero_add] at hfill
  refine ⟨writes, hfill, ?_⟩
  intro buffer i hi
  have hwords := hstore buffer
  rw [← position.words_eq] at hwords
  have hitem := List.getElem_of_eq hwords.symm hi
  rw [hitem]
  simp [indices]

theorem compare_eq (position : StackPosition) (hfuel : position.chain.length ≤ fuel)
    (htarget : ∀ value ∈ target, value < 2 ^ 64) (buffer : Int → Nat) (allocates : Bool) :
    position.compare fuel buffer allocates target =
      some (if allocates = false ∧ position.words.length ≠ 0 then .error (.raised .memoryError)
        else .ok (compareWords target position.words)) := by
  have hsize : (tupleOfU64s target).length = target.length := List.length_map _
  unfold compare FrameStack.compareTarget
  rw [position.count_eq hfuel, hsize]
  dsimp only [Option.bind, bind]
  by_cases hroom : allocates = false ∧ position.words.length ≠ 0
  · rw [if_pos hroom, if_pos hroom]
  · rw [if_neg hroom, if_neg hroom]
    have hloop : ∀ current : Int → Nat,
        (∀ i (hi : i < position.words.length), current (i : Int) = position.words[i]) →
        (compareLoop (tupleOfU64s target) current (min target.length position.words.length)
          0).map (compareSizes target.length position.words.length) =
            .ok (compareWords target position.words) := fun current hcurrent =>
      compareLoop_spec htarget hcurrent _ (Nat.zero_add _)
    by_cases hempty : position.words.length ≠ 0
    · obtain ⟨writes, hfill, hstore⟩ := position.fill_eq hfuel
      rw [if_pos hempty, hfill]
      exact congrArg some (hloop _ (hstore buffer))
    · rw [if_neg hempty]
      refine congrArg some (hloop _ ?_)
      intro i hi
      omega

theorem compares_iff (htarget : ∀ value ∈ target, value < 2 ^ 64) (comparison : Int) :
    position.Compares target comparison ↔ comparison = compareWords target position.words := by
  unfold Compares
  constructor
  · intro h
    have hresult := h position.chain.length (fun _ => 0) (Nat.le_refl _)
    rw [position.compare_eq (Nat.le_refl _) htarget, if_neg (by simp), Option.some.injEq,
      Except.ok.injEq] at hresult
    exact hresult.symm
  · rintro rfl fuel buffer hfuel
    rw [position.compare_eq hfuel htarget, if_neg (by simp)]

theorem compare_refines (position : StackPosition) (hfuel : position.chain.length ≤ fuel)
    (htarget : ∀ value ∈ target, value < 2 ^ 64) (buffer : Int → Nat) (allocates : Bool) :
    position.compare fuel buffer allocates target =
      some ((compareTargetToFrame target position.stack.machine position.space position.chain
        allocates).elim (.error (.raised .memoryError)) .ok) := by
  have hcount : coordinateCount position.stack.machine position.space position.chain =
      position.words.length := by
    rw [coordinateCount_eq, ← coordinatesOf_eq]
    rfl
  rw [position.compare_eq hfuel htarget, compareTargetToFrame, hcount]
  by_cases hroom : allocates = false ∧ position.words.length ≠ 0
  · rw [if_pos hroom, if_pos hroom.symm]
    rfl
  · rw [if_neg hroom, if_neg (fun h => hroom h.symm)]
    rfl

end StackPosition

/-- An accepted tuple is compared with the coordinates of a chain as words are ordered, word by
word and a prefix first; nothing but the allocation can fail, the comparison turns around with its
sides, and it is transitive. -/
theorem compareTarget_lexicographic {target : List Nat} (h : AcceptedTuple target)
    (position : StackPosition) :
    (∃ comparison, position.Compares target comparison ∧
      (comparison = -1 ∧ target < position.words ∨ comparison = 0 ∧ target = position.words ∨
        comparison = 1 ∧ position.words < target)) ∧
    (∀ fuel buffer allocates error, position.chain.length ≤ fuel →
      position.compare fuel buffer allocates target = some (.error error) →
      allocates = false ∧ error = .raised .memoryError) ∧
    (∀ other : StackPosition, target = other.words → AcceptedTuple position.words →
      ∃ comparison, position.Compares target comparison ∧
        other.Compares position.words (-comparison)) ∧
    ∀ (middle : StackPosition) (first second third : Int), AcceptedTuple middle.words →
      middle.Compares target first → position.Compares middle.words second →
      position.Compares target third →
      (first ≤ 0 → second ≤ 0 → third ≤ 0 ∧ (third = 0 → first = 0 ∧ second = 0)) ∧
      (0 ≤ first → 0 ≤ second → 0 ≤ third ∧ (third = 0 → first = 0 ∧ second = 0)) := by
  have hfits := h.fits
  refine ⟨?_, ?_, ?_, ?_⟩
  · refine ⟨compareWords target position.words, (StackPosition.compares_iff hfits _).mpr rfl, ?_⟩
    exact compareWords_cases target position.words
  · intro fuel buffer allocates error hfuel hresult
    rw [position.compare_eq hfuel hfits, Option.some.injEq] at hresult
    split at hresult
    next hroom =>
      cases hresult
      exact ⟨hroom.1, rfl⟩
    next => cases hresult
  · rintro other rfl hposition
    refine ⟨compareWords other.words position.words,
      (StackPosition.compares_iff hfits _).mpr rfl, ?_⟩
    rw [StackPosition.compares_iff hposition.fits, compareWords_swap, Int.neg_neg]
  · intro middle first second third hmiddle hfirst hsecond hthird
    rw [StackPosition.compares_iff hfits] at hfirst hthird
    rw [StackPosition.compares_iff hmiddle.fits] at hsecond
    subst hfirst hsecond hthird
    refine ⟨compareWords_trans, ?_⟩
    intro hfirst hsecond
    have hback := @compareWords_trans position.words middle.words target
    rw [compareWords_swap target, compareWords_swap target, compareWords_swap middle.words] at hback
    obtain ⟨hle, hsame⟩ := hback (by omega) (by omega)
    refine ⟨by omega, fun hzero => ?_⟩
    have hboth := hsame (by omega)
    omega

/-- The leaf of the mixed stack, and its root space. -/
def mixedPosition : StackPosition where
  stack := mixedStack
  space := ⟨0, 0⟩
  frame := some 3
  chain := [3, 2, 1, 0]
  chained := .cons (.cons (.cons (.cons .nil)))

theorem compareTarget_lexicographic_mixed : mixedPosition.words = [2, 11, 6, 13] ∧
    mixedPosition.Compares [2, 11, 6, 14] 1 := by
  have hwords : mixedPosition.words = [2, 11, 6, 13] := by decide
  have haccepted : AcceptedTuple [2, 11, 6, 14] := acceptedTuple_iff.mpr (by decide)
  obtain ⟨⟨comparison, hcompares, hcases⟩, -⟩ :=
    compareTarget_lexicographic haccepted mixedPosition
  rw [hwords] at hcases
  have hone : comparison = 1 := by
    obtain ⟨-, hless⟩ | ⟨-, hsame⟩ | ⟨hone, -⟩ := hcases
    · exact absurd hless (by decide)
    · exact absurd hsame (by decide)
    · exact hone
  exact ⟨hwords, hone ▸ hcompares⟩

end Retrace
