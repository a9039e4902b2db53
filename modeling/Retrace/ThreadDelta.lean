import Retrace.Coordinates

/-! `thread_delta`: the two loops over the frame chain, and what they compute. -/

set_option autoImplicit false

namespace Retrace

/-- The two checks of one visible frame, whose words stand at `position`. -/
def deltaShorten (m : Machine) (space : SpacePtr) (f position common : Nat) : Nat :=
  let delta := (m.frames f).delta
  let common :=
    if (delta.lastDeltaSpace ≠ some space ∨
        delta.lastInstructionCounter ≠ frameCoordinate (m.frames f)) ∧ position < common
    then position else common
  if (delta.lastDeltaSpace ≠ some space ∨
      delta.lastCallOrdinal ≠ (m.frames f).currentCallOrdinal) ∧ position + 1 < common
  then position + 1 else common

/-- The first loop of the delta, which shortens the common prefix. -/
def deltaScan (m : Machine) (space : SpacePtr) : List Nat → Nat → Nat → Nat
  | [], _, common => common
  | f :: rest, position, common =>
    if m.visibleIn space f then
      deltaScan m space rest (position - 2) (deltaShorten m space f (position - 2) common)
    else deltaScan m space rest position common

/-- The writes of one visible frame: its words go behind the first cell, from `common` on. -/
def deltaWrite (common position instructionCounter callOrdinal : Nat) (delta : List Nat) :
    List Nat :=
  let delta := if position ≥ common then
    delta.set (1 + position - common) instructionCounter else delta
  if position + 1 ≥ common then delta.set (1 + position + 1 - common) callOrdinal else delta

/-- The second loop, which writes the suffix and the frames' caches. -/
def deltaFill (space : SpacePtr) (common : Nat) :
    List Nat → Nat → List Nat → Machine → List Nat × Machine
  | [], _, delta, m => (delta, m)
  | f :: rest, position, delta, m =>
    if m.visibleIn space f then
      let position := position - 2
      let instructionCounter := frameCoordinate (m.frames f)
      let callOrdinal := (m.frames f).currentCallOrdinal
      deltaFill space common rest position
        (deltaWrite common position instructionCounter callOrdinal delta)
        (m.setFrame f { m.frames f with
          delta := ⟨callOrdinal, instructionCounter, some space⟩ })
    else deltaFill space common rest position delta m

/-- Nothing is common after a change of the root ordinal. -/
def deltaInitial (space : SpaceState) (currentSize : Nat) : Nat :=
  if space.lastDeltaRootCallOrdinal = lastCallOrdinalUnset ∨
      space.lastDeltaRootCallOrdinal ≠ space.rootCallOrdinal then 0
  else currentSize

inductive DeltaResult where
  | noSpace
  | error
  | delta (values : List Nat)
  deriving DecidableEq, Repr

/-- `allocates` is the buffer, `tupleAllocates` the result tuple and its items. -/
def threadDeltaForTstate (m : Machine) (spaceId : Nat) (allocates tupleAllocates : Bool) :
    DeltaResult × Machine :=
  match findThreadSpace m.tstate spaceId with
  | none => (.noSpace, m)
  | some node =>
    let space := m.tstate.space node
    if !space.seen then (.noSpace, m) else
    let chain := threadStateFrame m node
    let currentSize := coordinateCount m (m.spacePtr node) chain
    let common := deltaScan m (m.spacePtr node) chain currentSize
      (deltaInitial space currentSize)
    if !allocates then (.error, m) else
    let delta := (List.replicate (1 + currentSize - common) 0).set 0 common
    let (delta, m) := deltaFill (m.spacePtr node) common chain currentSize delta m
    let m := m.updateSpace node (fun space =>
      { space with lastDeltaRootCallOrdinal := space.rootCallOrdinal })
    if tupleAllocates then (.delta delta, m) else (.error, m)

/-- The pairs that the caches of the visible frames of a space remember, oldest first. -/
def cachedWords (m : Machine) (space : SpacePtr) : List Nat → List Nat
  | [] => []
  | f :: rest => cachedWords m space rest ++
      if m.visibleIn space f then
        [(m.frames f).delta.lastInstructionCounter, (m.frames f).delta.lastCallOrdinal]
      else []

/-- The cache of the frame does not vouch for its instruction word. -/
def Stale (m : Machine) (space : SpacePtr) (f : Nat) : Prop :=
  (m.frames f).delta.lastDeltaSpace ≠ some space ∨
    (m.frames f).delta.lastInstructionCounter ≠ frameCoordinate (m.frames f)

section scan
variable {m : Machine} {space : SpacePtr}

theorem cachedWords_cons (f : Nat) (rest : List Nat) :
    cachedWords m space (f :: rest) = cachedWords m space rest ++
      if m.visibleIn space f then
        [(m.frames f).delta.lastInstructionCounter, (m.frames f).delta.lastCallOrdinal]
      else [] := rfl

theorem cachedWords_length (chain : List Nat) :
    (cachedWords m space chain).length = (frameWords m space chain).length := by
  induction chain with
  | nil => rfl
  | cons f rest ih =>
    rw [cachedWords_cons, frameWords_cons, List.length_append, List.length_append, ih]
    split <;> rfl

theorem deltaShorten_le (f position common : Nat) :
    deltaShorten m space f position common ≤ common := by
  unfold deltaShorten
  dsimp only
  split_ifs <;> omega

theorem deltaShorten_instruction {f position common : Nat}
    (h : position < deltaShorten m space f position common) : ¬ Stale m space f := by
  intro hstale
  unfold Stale at hstale
  unfold deltaShorten at h
  simp only [hstale, true_and] at h
  split_ifs at h <;> omega

theorem deltaShorten_ordinal {f position common : Nat}
    (h : position + 1 < deltaShorten m space f position common) :
    (m.frames f).delta.lastCallOrdinal = (m.frames f).currentCallOrdinal := by
  by_contra hne
  unfold deltaShorten at h
  simp only [ne_eq, hne, not_false_eq_true, or_true, true_and] at h
  split_ifs at h <;> omega

theorem deltaScan_le (chain : List Nat) (position common : Nat) :
    deltaScan m space chain position common ≤ common := by
  induction chain generalizing position common with
  | nil => exact Nat.le_refl _
  | cons f rest ih =>
    unfold deltaScan
    by_cases hv : m.visibleIn space f = true
    · simp only [hv, if_true]
      exact Nat.le_trans (ih _ _) (deltaShorten_le f _ common)
    · simp only [hv, Bool.false_eq_true, if_false]
      exact ih _ _

theorem deltaInitial_le (space : SpaceState) (currentSize : Nat) :
    deltaInitial space currentSize ≤ currentSize := by
  unfold deltaInitial
  split <;> omega

theorem deltaScan_visible {f : Nat} (hv : m.visibleIn space f = true) (rest : List Nat)
    (common : Nat) :
    deltaScan m space (f :: rest) (frameWords m space (f :: rest)).length common =
      deltaScan m space rest (frameWords m space rest).length
        (deltaShorten m space f (frameWords m space rest).length common) := by
  have hlen : (frameWords m space (f :: rest)).length - 2 = (frameWords m space rest).length := by
    simp [frameWords_cons, hv]
  rw [deltaScan, if_pos hv, hlen]

theorem deltaScan_invisible {f : Nat} (hv : m.visibleIn space f ≠ true) (rest : List Nat)
    (position common : Nat) :
    deltaScan m space (f :: rest) position common = deltaScan m space rest position common := by
  rw [deltaScan, if_neg hv]

theorem deltaScan_agrees (chain : List Nat) (common : Nat) :
    (frameWords m space chain).take
        (deltaScan m space chain (frameWords m space chain).length common) =
      (cachedWords m space chain).take
        (deltaScan m space chain (frameWords m space chain).length common) := by
  induction chain generalizing common with
  | nil => rfl
  | cons f rest ih =>
    by_cases hv : m.visibleIn space f = true
    · rw [deltaScan_visible hv]
      have hle : deltaScan m space rest (frameWords m space rest).length
          (deltaShorten m space f (frameWords m space rest).length common) ≤
          deltaShorten m space f (frameWords m space rest).length common := deltaScan_le _ _ _
      have hih := ih (deltaShorten m space f (frameWords m space rest).length common)
      have hclen : (cachedWords m space rest).length = (frameWords m space rest).length :=
        cachedWords_length rest
      rw [frameWords_cons, cachedWords_cons, if_pos hv, if_pos hv]
      generalize deltaScan m space rest (frameWords m space rest).length
        (deltaShorten m space f (frameWords m space rest).length common) = k at hle hih ⊢
      by_cases hk : k ≤ (frameWords m space rest).length
      · rw [List.take_append_of_le_length hk, List.take_append_of_le_length (by omega)]
        exact hih
      · have hlt : (frameWords m space rest).length <
            deltaShorten m space f (frameWords m space rest).length common := by omega
        have hfresh := deltaShorten_instruction hlt
        unfold Stale at hfresh
        push Not at hfresh
        rw [List.take_of_length_le (by omega), List.take_of_length_le (by omega)] at hih
        have htail : ([frameCoordinate (m.frames f), (m.frames f).currentCallOrdinal].take
            (k - (frameWords m space rest).length)) =
            [(m.frames f).delta.lastInstructionCounter, (m.frames f).delta.lastCallOrdinal].take
              (k - (frameWords m space rest).length) := by
          by_cases hk' : k - (frameWords m space rest).length ≤ 1
          · have hone : k - (frameWords m space rest).length = 1 := by omega
            simp [hone, hfresh.2]
          · have hlt' : (frameWords m space rest).length + 1 <
                deltaShorten m space f (frameWords m space rest).length common := by omega
            rw [deltaShorten_ordinal hlt', hfresh.2]
        rw [List.take_append, List.take_append, hclen, htail]
        congr 1
        have hW := List.take_of_length_le (l := frameWords m space rest) (i := k) (by omega)
        have hC := List.take_of_length_le (l := cachedWords m space rest) (i := k) (by omega)
        rw [hW, hC, hih]
    · rw [deltaScan_invisible hv, frameWords_cons, cachedWords_cons, if_neg hv, if_neg hv]
      simp only [List.append_nil]
      exact ih common

theorem deltaScan_stale (upper : List Nat) {f : Nat} (rest : List Nat) (common : Nat)
    (hv : m.visibleIn space f = true) (hstale : Stale m space f) :
    deltaScan m space (upper ++ f :: rest)
        (frameWords m space (upper ++ f :: rest)).length common ≤
      (frameWords m space rest).length := by
  induction upper generalizing common with
  | nil =>
    rw [List.nil_append, deltaScan_visible hv]
    refine Nat.le_trans (deltaScan_le _ _ _) ?_
    by_contra hlt
    exact deltaShorten_instruction (Nat.lt_of_not_le hlt) hstale
  | cons g upper ih =>
    rw [List.cons_append]
    by_cases hg : m.visibleIn space g = true
    · rw [deltaScan_visible hg]
      exact ih _
    · have hsame : frameWords m space (g :: (upper ++ f :: rest)) =
          frameWords m space (upper ++ f :: rest) := by simp [frameWords_cons, hg]
      rw [deltaScan_invisible hg, hsame]
      exact ih common

end scan

/-- The frame's cache after a delta of the space has visited it. -/
def rememberWords (space : SpacePtr) (frame : InterpreterFrame) : InterpreterFrame :=
  { frame with delta := ⟨frame.currentCallOrdinal, frameCoordinate frame, some space⟩ }

def rememberChain (space : SpacePtr) (chain : List Nat) (m : Machine) : Machine :=
  { m with frames := fun f =>
      if f ∈ chain ∧ m.visibleIn space f = true then rememberWords space (m.frames f)
      else m.frames f }

def rememberDelta (m : Machine) (node : Nat) : Machine :=
  (rememberChain (m.spacePtr node) (threadStateFrame m node) m).updateSpace node
    (fun space => { space with lastDeltaRootCallOrdinal := space.rootCallOrdinal })

section fill
variable {space : SpacePtr}

theorem rememberChain_cons (m : Machine) {f : Nat} (rest : List Nat)
    (hv : m.visibleIn space f = true) :
    rememberChain space rest (m.setFrame f (rememberWords space (m.frames f))) =
      rememberChain space (f :: rest) m := by
  have hvis : ∀ g, (m.setFrame f (rememberWords space (m.frames f))).visibleIn space g =
      m.visibleIn space g := by
    intro g
    unfold Machine.visibleIn Machine.setFrame
    by_cases hg : g = f
    · subst hg
      simp [rememberWords, frameIsVisible, isIncomplete]
    · simp [Function.update_of_ne hg]
  unfold rememberChain
  simp only [hvis]
  simp only [Machine.setFrame, List.mem_cons, Machine.mk.injEq, true_and]
  refine ⟨?_, trivial⟩
  funext g
  by_cases hg : g = f
  · subst hg
    simp only [true_or, hv, and_self, if_true, Function.update_self, and_true]
    split <;> rfl
  · simp [hg]

theorem frameWords_setDelta (m : Machine) (f : Nat) (chain : List Nat) :
    frameWords (m.setFrame f (rememberWords space (m.frames f))) space chain =
      frameWords m space chain := by
  apply frameWords_congr
  intro g _
  unfold Machine.visibleIn Machine.setFrame
  by_cases hg : g = f
  · subst hg
    simp [rememberWords, frameIsVisible, isIncomplete, frameCoordinate]
  · simp [Function.update_of_ne hg]

theorem deltaWrite_get (common position instructionCounter callOrdinal : Nat)
    (buffer : List Nat) (h : 1 + (position + 2) ≤ buffer.length + common) (i : Nat) :
    (deltaWrite common position instructionCounter callOrdinal buffer)[i]? =
      if 1 ≤ i ∧ i - 1 + common = position then some instructionCounter
      else if 1 ≤ i ∧ i - 1 + common = position + 1 then some callOrdinal
      else buffer[i]? := by
  have hone : ∀ (b : List Nat) (position value : Nat), 1 + (position + 1) ≤ b.length + common →
      (if position ≥ common then b.set (1 + position - common) value else b)[i]? =
        if 1 ≤ i ∧ i - 1 + common = position then some value else b[i]? := by
    intro b position value hb
    by_cases hge : position ≥ common
    · rw [if_pos hge, List.getElem?_set]
      by_cases hi : 1 + position - common = i
      · rw [if_pos hi, if_pos (by omega), if_pos (by omega)]
      · rw [if_neg hi, if_neg (by omega)]
    · rw [if_neg hge, if_neg (by omega)]
  have hlen : (if position ≥ common then
      buffer.set (1 + position - common) instructionCounter else buffer).length =
      buffer.length := by
    split <;> simp
  unfold deltaWrite
  dsimp only
  have hsecond := hone (if position ≥ common then
    buffer.set (1 + position - common) instructionCounter else buffer) (position + 1) callOrdinal
    (by rw [hlen]; omega)
  rw [← Nat.add_assoc] at hsecond
  rw [hsecond, hone buffer position instructionCounter (by omega)]
  by_cases hpos : 1 ≤ i ∧ i - 1 + common = position
  · rw [if_pos hpos, if_pos hpos, if_neg (by omega)]
  · rw [if_neg hpos, if_neg hpos]

theorem length_deltaWrite (common position instructionCounter callOrdinal : Nat)
    (buffer : List Nat) :
    (deltaWrite common position instructionCounter callOrdinal buffer).length = buffer.length := by
  unfold deltaWrite
  dsimp only
  split_ifs <;> simp

theorem deltaFill_spec (chain : List Nat) (common : Nat) (buffer : List Nat) (m : Machine)
    (hbuf : 1 + (frameWords m space chain).length ≤ buffer.length + common) :
    (deltaFill space common chain (frameWords m space chain).length buffer m).2 =
        rememberChain space chain m ∧
      ∀ i, (deltaFill space common chain (frameWords m space chain).length buffer m).1[i]? =
        if 1 ≤ i ∧ i - 1 + common < (frameWords m space chain).length then
          (frameWords m space chain)[i - 1 + common]?
        else buffer[i]? := by
  induction chain generalizing buffer m with
  | nil =>
    refine ⟨?_, fun i => by simp [deltaFill, frameWords]⟩
    simp [deltaFill, rememberChain]
  | cons f rest ih =>
    by_cases hv : m.visibleIn space f = true
    · have hlen : (frameWords m space (f :: rest)).length =
          (frameWords m space rest).length + 2 := by simp [frameWords_cons, hv]
      have hwords : frameWords (m.setFrame f (rememberWords space (m.frames f))) space rest =
          frameWords m space rest := frameWords_setDelta m f rest
      unfold deltaFill
      simp only [hv, if_true, hlen, Nat.add_sub_cancel]
      rw [hlen] at hbuf
      have hmachine : m.setFrame f { m.frames f with
          delta := ⟨(m.frames f).currentCallOrdinal, frameCoordinate (m.frames f), some space⟩ } =
          m.setFrame f (rememberWords space (m.frames f)) := rfl
      rw [hmachine]
      have hget := deltaWrite_get common (frameWords m space rest).length
        (frameCoordinate (m.frames f)) (m.frames f).currentCallOrdinal buffer hbuf
      have hblen := length_deltaWrite common (frameWords m space rest).length
        (frameCoordinate (m.frames f)) (m.frames f).currentCallOrdinal buffer
      have hih := ih (deltaWrite common (frameWords m space rest).length
        (frameCoordinate (m.frames f)) (m.frames f).currentCallOrdinal buffer)
        (m.setFrame f (rememberWords space (m.frames f))) (by rw [hwords, hblen]; omega)
      rw [hwords] at hih
      obtain ⟨hm, hvalues⟩ := hih
      refine ⟨hm.trans (rememberChain_cons m rest hv), ?_⟩
      intro i
      rw [hvalues, hget, frameWords_cons, if_pos hv]
      have hlast : ∀ j, (frameWords m space rest).length ≤ j →
          (frameWords m space rest ++ [frameCoordinate (m.frames f),
            (m.frames f).currentCallOrdinal])[j]? =
          [frameCoordinate (m.frames f),
            (m.frames f).currentCallOrdinal][j - (frameWords m space rest).length]? := by
        intro j hj
        exact List.getElem?_append_right hj
      by_cases hin : 1 ≤ i ∧ i - 1 + common < (frameWords m space rest).length
      · rw [if_pos hin, if_pos ⟨hin.1, by omega⟩, List.getElem?_append_left hin.2]
      · rw [if_neg hin]
        by_cases hfirst : 1 ≤ i ∧ i - 1 + common = (frameWords m space rest).length
        · rw [if_pos hfirst, if_pos ⟨hfirst.1, by omega⟩, hlast _ (by omega), hfirst.2]
          simp
        · rw [if_neg hfirst]
          by_cases hsecond : 1 ≤ i ∧ i - 1 + common = (frameWords m space rest).length + 1
          · rw [if_pos hsecond, if_pos ⟨hsecond.1, by omega⟩, hlast _ (by omega), hsecond.2]
            simp
          · rw [if_neg hsecond, if_neg (by omega)]
    · have hsame : frameWords m space (f :: rest) = frameWords m space rest := by
        simp [frameWords_cons, hv]
      have hchain : rememberChain space (f :: rest) m = rememberChain space rest m := by
        unfold rememberChain
        congr 1
        funext g
        by_cases hg : g = f
        · subst hg
          simp [hv]
        · simp [hg]
      rw [hsame] at hbuf ⊢
      rw [hchain]
      unfold deltaFill
      simp only [hv, Bool.false_eq_true, if_false]
      exact ih buffer m hbuf

theorem deltaFill_eq (m : Machine) (chain : List Nat) {common : Nat}
    (h : common ≤ (frameWords m space chain).length) :
    deltaFill space common chain (frameWords m space chain).length
      ((List.replicate (1 + (frameWords m space chain).length - common) 0).set 0 common) m =
      (common :: (frameWords m space chain).drop common, rememberChain space chain m) := by
  have hlen : ((List.replicate (1 + (frameWords m space chain).length - common) 0).set 0
      common).length = 1 + (frameWords m space chain).length - common := by simp
  have hbuf : 1 + (frameWords m space chain).length ≤ ((List.replicate
      (1 + (frameWords m space chain).length - common) 0).set 0 common).length + common := by
    rw [hlen]
    omega
  obtain ⟨hm, hvalues⟩ := deltaFill_spec chain common _ m hbuf
  refine Prod.ext ?_ hm
  apply List.ext_getElem?
  intro i
  rw [hvalues i]
  cases i with
  | zero =>
    have hpos : 0 < 1 + (frameWords m space chain).length - common := by omega
    rw [if_neg (by omega), List.getElem?_set, if_pos rfl, List.length_replicate, if_pos hpos]
    rfl
  | succ i =>
    rw [List.getElem?_cons_succ, List.getElem?_drop, Nat.add_sub_cancel, Nat.add_comm i common]
    by_cases hlt : common + i < (frameWords m space chain).length
    · rw [if_pos ⟨by omega, hlt⟩]
    · rw [if_neg (fun hand => hlt hand.2), List.getElem?_eq_none (by rw [hlen]; omega),
        List.getElem?_eq_none (by omega)]

/-- A delta that finds the space says how much of the words the caches vouch for, appends the
rest, and remembers the words. -/
theorem threadDeltaForTstate_seen (m : Machine) {spaceId node : Nat}
    (hfind : findThreadSpace m.tstate spaceId = some node)
    (hseen : (m.tstate.space node).seen = true) {words : List Nat}
    (hwords : frameWords m (m.spacePtr node) (threadStateFrame m node) = words) :
    ∃ initial, initial ≤ words.length ∧
      threadDeltaForTstate m spaceId true true =
        (.delta (deltaScan m (m.spacePtr node) (threadStateFrame m node) words.length initial ::
          words.drop
            (deltaScan m (m.spacePtr node) (threadStateFrame m node) words.length initial)),
        rememberDelta m node) := by
  refine ⟨_, deltaInitial_le (m.tstate.space node) words.length, ?_⟩
  unfold threadDeltaForTstate
  simp only [hfind, hseen, Bool.not_true, Bool.false_eq_true, if_false, coordinateCount_eq,
    if_true, hwords]
  subst hwords
  rw [deltaFill_eq m _ (Nat.le_trans (deltaScan_le _ _ _) (deltaInitial_le _ _))]
  rfl

end fill

end Retrace
