import Retrace.HashWords

/-! The words that the id of a new thread is mixed from, and what they say of its creator. -/

set_option autoImplicit false

namespace Retrace

/-- The bytes of `_PyRetrace_MixBytes` by eight, the last ones by fewer. -/
def bytesChunks : List Nat → List Nat
  | b₀ :: b₁ :: b₂ :: b₃ :: b₄ :: b₅ :: b₆ :: b₇ :: rest =>
    wordOfBytes [b₀, b₁, b₂, b₃, b₄, b₅, b₆, b₇] :: bytesChunks rest
  | [] => []
  | tail => [wordOfBytes tail]

/-- The length stands before the bytes. -/
def bytesWords (data : List Nat) : List Nat := data.length :: bytesChunks data

def rootSeedWords (seed : List Nat) : List Nat := bytesWords rootSeedDomain ++ bytesWords seed

/-- The frames that a thread started from here is named after. -/
def creatorPairs (m : Machine) : List (Nat × Nat) :=
  FrameStack.coordinatePairs ⟨m, fun _ => none⟩ (some (m.spacePtr m.tstate.currentSpace))
    (currentThreadFrame m)

def seedWords (m : Machine) : List Nat :=
  bytesWords threadIdDomain ++ m.tstate.threadId :: framesFeed (creatorPairs m)

section bytes
variable {p : Platform} {data data' rest rest' : List Nat}

theorem bytesChunks_eq (data : List Nat) : bytesChunks data =
    if data = [] then [] else wordOfBytes (data.take 8) :: bytesChunks (data.drop 8) := by
  rcases data with _ | ⟨b₀, _ | ⟨b₁, _ | ⟨b₂, _ | ⟨b₃, _ | ⟨b₄, _ | ⟨b₅, _ | ⟨b₆, _ | ⟨b₇, rest⟩⟩⟩⟩⟩⟩⟩⟩
  all_goals simp [bytesChunks]

theorem mixBytesLoop_words (data : List Nat) (hash : Nat) :
    mixBytesLoop p data hash = (bytesChunks data).foldl (coordinateMix p) hash := by
  induction data using bytesChunks.induct generalizing hash with
  | case1 b₀ b₁ b₂ b₃ b₄ b₅ b₆ b₇ rest ih => exact ih _
  | case2 => rfl
  | case3 tail hlong hempty =>
    rw [mixBytesLoop, bytesChunks]
    · rfl
    all_goals assumption

theorem mixBytes_words (hash : Nat) (data : List Nat) :
    mixBytes p hash data = (bytesWords data).foldl (coordinateMix p) hash :=
  mixBytesLoop_words data _

theorem wordOfBytes_injective (hbytes : ∀ b ∈ data, b < 256) (hbytes' : ∀ b ∈ data', b < 256)
    (hlength : data.length = data'.length) (h : wordOfBytes data = wordOfBytes data') :
    data = data' := by
  induction data generalizing data' with
  | nil => exact (List.length_eq_zero_iff.mp hlength.symm).symm
  | cons b data ih =>
    cases data' with
    | nil => cases hlength
    | cons b' data' =>
      have hb := hbytes b List.mem_cons_self
      have hb' := hbytes' b' List.mem_cons_self
      change b + 256 * wordOfBytes data = b' + 256 * wordOfBytes data' at h
      have hword : wordOfBytes data = wordOfBytes data' := by omega
      rw [ih (fun c hc => hbytes c (List.mem_cons_of_mem b hc))
        (fun c hc => hbytes' c (List.mem_cons_of_mem b' hc)) (Nat.succ.inj hlength) hword]
      rw [show b = b' by omega]

theorem bytesChunks_front (hbytes : ∀ b ∈ data, b < 256) (hbytes' : ∀ b ∈ data', b < 256)
    (hlength : data.length = data'.length)
    (h : bytesChunks data ++ rest = bytesChunks data' ++ rest') : data = data' ∧ rest = rest' := by
  obtain ⟨n, hn⟩ : ∃ n, data.length ≤ n := ⟨_, Nat.le_refl _⟩
  induction n generalizing data data' with
  | zero =>
    have hempty := List.length_eq_zero_iff.mp (Nat.le_zero.mp hn)
    have hempty' := List.length_eq_zero_iff.mp (hlength.symm.trans (Nat.le_zero.mp hn))
    rw [hempty, hempty'] at h
    exact ⟨hempty.trans hempty'.symm, h⟩
  | succ n ih =>
    rw [bytesChunks_eq data, bytesChunks_eq data'] at h
    by_cases hempty : data = []
    · have hempty' : data' = [] := by
        rw [hempty] at hlength
        exact List.length_eq_zero_iff.mp hlength.symm
      rw [if_pos hempty, if_pos hempty'] at h
      exact ⟨hempty.trans hempty'.symm, h⟩
    · have hempty' : data' ≠ [] := by
        rintro rfl
        exact hempty (List.length_eq_zero_iff.mp hlength)
      rw [if_neg hempty, if_neg hempty', List.cons_append, List.cons_append,
        List.cons.injEq] at h
      have htake : data.take 8 = data'.take 8 := by
        refine wordOfBytes_injective (fun b hb => hbytes b (List.mem_of_mem_take hb))
          (fun b hb => hbytes' b (List.mem_of_mem_take hb)) ?_ h.1
        rw [List.length_take, List.length_take, hlength]
      have hdropped : (data.drop 8).length = (data'.drop 8).length := by
        rw [List.length_drop, List.length_drop, hlength]
      have hshort : (data.drop 8).length ≤ n := by
        rw [List.length_drop]
        omega
      obtain ⟨hdrop, hrest⟩ := ih (fun b hb => hbytes b (List.mem_of_mem_drop hb))
        (fun b hb => hbytes' b (List.mem_of_mem_drop hb)) hdropped h.2 hshort
      refine ⟨?_, hrest⟩
      rw [← List.take_append_drop 8 data, ← List.take_append_drop 8 data', htake, hdrop]

theorem bytesWords_front (hbytes : ∀ b ∈ data, b < 256) (hbytes' : ∀ b ∈ data', b < 256)
    (h : bytesWords data ++ rest = bytesWords data' ++ rest') : data = data' ∧ rest = rest' := by
  unfold bytesWords at h
  rw [List.cons_append, List.cons_append, List.cons.injEq] at h
  exact bytesChunks_front hbytes hbytes' h.1 h.2

theorem rootSeedWords_injective {seed seed' : List Nat} (hbytes : ∀ b ∈ seed, b < 256)
    (hbytes' : ∀ b ∈ seed', b < 256) (h : rootSeedWords seed = rootSeedWords seed') :
    seed = seed' := by
  have hseed := (bytesWords_front (by decide) (by decide) h).2
  rw [← List.append_nil (bytesWords seed), ← List.append_nil (bytesWords seed')] at hseed
  exact (bytesWords_front hbytes hbytes' hseed).1

theorem rootThreadIdSeed_words (seed : List Nat) : rootThreadIdSeed p seed =
    composeThreadId spaceIdRoot
      ((rootSeedWords seed).foldl (coordinateMix p) (initialRootCoordinateHash p)) := by
  unfold rootThreadIdSeed rootSeedWords
  rw [mixBytes_words, mixBytes_words, List.foldl_append]

end bytes

section seeds
variable {p : Platform} {m m' : Machine} {l l' : Ledger} {words words' : List Nat}

theorem Standing.currentSpace_eq (h : Standing m l) (allocates : Bool) :
    currentSpace p m.tstate allocates = (some m.tstate.currentSpace, m.tstate) := by
  obtain ⟨base, -, hsegment⟩ := h.segment
  exact Retrace.currentSpace_eq _ _ hsegment.contextOk.id

theorem framesFeed_foldl (pairs : List (Nat × Nat)) (hash : Nat) :
    (framesFeed pairs).foldl (coordinateMix p) hash = pairs.foldl (mixPair p) hash := by
  induction pairs generalizing hash with
  | nil => rfl
  | cons pair pairs ih =>
    have hone : mixPair p hash pair = (feedFrame (fun words word => words ++ [word]) [] pair.1
        pair.2).foldl (coordinateMix p) hash := by
      unfold mixPair
      rw [mixFrameCoordinateHash_feed]
      exact feedFrame_foldl (coordinateMix p) hash [] pair.1 pair.2
    rw [List.foldl_cons, ← ih, hone, ← List.foldl_append]
    rfl

theorem threadIdSeed_words (h : Standing m l) (hnamed : m.tstate.threadId ≠ 0)
    (seed : List Nat) (allocates : Bool) :
    (threadIdSeed p seed (some m) allocates).1 = normalizeThreadId
      ((framesFeed (creatorPairs m)).foldl (coordinateMix p) (mix64 p
        ((bytesWords threadIdDomain).foldl (coordinateMix p) (initialRootCoordinateHash p))
        m.tstate.threadId)) := by
  have hpairs := mixVisibleFrameCoordinates_pairs p ⟨m, fun _ => none⟩
    (some (m.spacePtr m.tstate.currentSpace)) (currentThreadFrame m)
    (mix64 p (mixBytes p (initialRootCoordinateHash p) threadIdDomain) m.tstate.threadId)
  rw [mixBytes_words] at hpairs
  unfold threadIdSeed
  dsimp only
  rw [if_neg hnamed, h.currentSpace_eq]
  dsimp only
  rw [framesFeed_foldl, mixBytes_words]
  exact congrArg normalizeThreadId hpairs

theorem creatorPairs_coordinates (h : Standing m l)
    (hinactive : m.tstate.threadCallbackActive = false)
    (hwords : coordinates m m.currentSpaceId 0 = some words) :
    pairWords (creatorPairs m) = words := by
  obtain ⟨base, -, hsegment⟩ := h.segment
  have hfind : findThreadSpace m.tstate m.currentSpaceId = some m.tstate.currentSpace :=
    hsegment.circle.find_eq hsegment.contextOk.space
  have hchain : threadStateFrame m m.tstate.currentSpace = currentThreadFrame m := by
    unfold threadStateFrame currentThreadFrame
    rw [hinactive]
    rfl
  unfold coordinates at hwords
  rw [hfind] at hwords
  dsimp only at hwords
  split at hwords
  · rw [hchain, List.drop_zero] at hwords
    rw [← Option.some.inj hwords]
    exact (coordinatesOf_pairs ⟨m, fun _ => none⟩ _ _).symm
  · cases hwords

theorem pairWords_injective {pairs pairs' : List (Nat × Nat)}
    (h : pairWords pairs = pairWords pairs') : pairs = pairs' := by
  induction pairs generalizing pairs' with
  | nil =>
    cases pairs' with
    | nil => rfl
    | cons pair' rest' => cases h
  | cons pair rest ih =>
    cases pairs' with
    | nil => cases h
    | cons pair' rest' =>
      change pair.1 :: pair.2 :: pairWords rest = pair'.1 :: pair'.2 :: pairWords rest' at h
      rw [List.cons.injEq, List.cons.injEq] at h
      rw [Prod.ext h.1 h.2.1, ih h.2.2]

theorem pairWords_bound {pairs : List (Nat × Nat)} {bound : Nat}
    (h : ∀ word ∈ pairWords pairs, word < bound) :
    ∀ pair ∈ pairs, pair.1 < bound ∧ pair.2 < bound := by
  intro pair hpair
  have hmem : ∀ word ∈ [pair.1, pair.2], word ∈ pairWords pairs :=
    fun word hword => List.mem_flatMap.mpr ⟨pair, hpair, hword⟩
  exact ⟨h _ (hmem _ (by simp)), h _ (hmem _ (by simp))⟩

end seeds

section creators
variable {p : Platform} {m₀ m₀' m m' : Machine} {events events' : List ThreadEvent}
  {words words' : List Nat}

/-- The id of a new thread is mixed from its creator's id and the creator's coordinates in its
current space: the words are the same exactly if these are. The id of a thread without a creator is
mixed from the bytes of the environment's seed in the same way. -/
theorem threadIdSeed_unambiguous (hidle : Idle m₀) (hrun : threadRun p events m₀ = some m)
    (hidle' : Idle m₀') (hrun' : threadRun p events' m₀' = some m')
    (hnamed : m.tstate.threadId ≠ 0) (hinactive : m.tstate.threadCallbackActive = false)
    (hinactive' : m'.tstate.threadCallbackActive = false)
    (hwords : coordinates m m.currentSpaceId 0 = some words)
    (hwords' : coordinates m' m'.currentSpaceId 0 = some words')
    (hbound : ∀ word ∈ words, word < 2 ^ 63) (hbound' : ∀ word ∈ words', word < 2 ^ 63) :
    (∀ seed allocates, (threadIdSeed p seed (some m) allocates).1 = normalizeThreadId
      ((framesFeed (creatorPairs m)).foldl (coordinateMix p) (mix64 p
        ((bytesWords threadIdDomain).foldl (coordinateMix p) (initialRootCoordinateHash p))
        m.tstate.threadId))) ∧
    (seedWords m = seedWords m' ↔
      m.tstate.threadId = m'.tstate.threadId ∧ words = words') ∧
    ∀ seed seed' : List Nat, (∀ b ∈ seed, b < 256) → (∀ b ∈ seed', b < 256) →
      rootThreadIdSeed p seed = composeThreadId spaceIdRoot
        ((rootSeedWords seed).foldl (coordinateMix p) (initialRootCoordinateHash p)) ∧
      (rootSeedWords seed = rootSeedWords seed' ↔ seed = seed') := by
  have hstanding := hidle.standing.run hrun
  have hstanding' := hidle'.standing.run hrun'
  have hpairs := creatorPairs_coordinates hstanding hinactive hwords
  have hpairs' := creatorPairs_coordinates hstanding' hinactive' hwords'
  rw [← hpairs] at hbound
  rw [← hpairs'] at hbound'
  refine ⟨threadIdSeed_words hstanding hnamed, ⟨fun h => ?_, fun ⟨hid, hsame⟩ => ?_⟩, ?_⟩
  · obtain ⟨hid, hfeed⟩ := List.cons.inj (List.append_cancel_left h)
    have hequal := framesFeed_injective (pairWords_bound hbound) (pairWords_bound hbound') hfeed
    exact ⟨hid, by rw [← hpairs, ← hpairs', hequal]⟩
  · have hequal := pairWords_injective (hpairs.trans (hsame.trans hpairs'.symm))
    unfold seedWords
    rw [hid, hequal]
  · intro seed seed' hbytes hbytes'
    exact ⟨rootThreadIdSeed_words seed, rootSeedWords_injective hbytes hbytes',
      congrArg rootSeedWords⟩

end creators

/-- An idle thread that has been given the id 7. -/
def creator : Machine :=
  (freshMachine ⟨true, true⟩ 64).setTstate
    { (freshMachine ⟨true, true⟩ 64).tstate with threadId := 7 }

theorem threadIdSeed_unambiguous_calls : ∃ m m',
    threadRun ⟨true, true⟩ [.call 0 0 true true, .begin [] 4, .call 1 0 true true, .begin [] 2]
      creator = some m ∧
    threadRun ⟨true, true⟩ [.call 0 0 true true, .begin [] 4, .call 1 0 true true, .leave 0,
      .call 2 0 true true, .begin [] 2] creator = some m' ∧
    (seedWords m = seedWords m' ↔
      m.tstate.threadId = m'.tstate.threadId ∧ [4, 0, 2, 0] = [4, 1, 2, 0]) := by
  obtain ⟨m, hrun⟩ : ∃ m, threadRun ⟨true, true⟩ [.call 0 0 true true, .begin [] 4,
      .call 1 0 true true, .begin [] 2] creator = some m := ⟨_, rfl⟩
  obtain ⟨m', hrun'⟩ : ∃ m', threadRun ⟨true, true⟩ [.call 0 0 true true, .begin [] 4,
      .call 1 0 true true, .leave 0, .call 2 0 true true, .begin [] 2] creator = some m' :=
    ⟨_, rfl⟩
  have hidle : Idle creator := by
    have hfresh := freshMachine_idle ⟨true, true⟩ 64
    exact ⟨hfresh.circle.congr rfl rfl (fun _ _ => ⟨rfl, rfl⟩), hfresh.stack, hfresh.ptr,
      hfresh.current, hfresh.id, hfresh.inactive, hfresh.depth, hfresh.ordinal, hfresh.callback⟩
  refine ⟨m, m', hrun, hrun', (threadIdSeed_unambiguous hidle hrun hidle hrun' ?_ ?_ ?_ ?_ ?_
    (by decide) (by decide)).2.1⟩
  all_goals first | (cases hrun; rfl) | (cases hrun'; rfl) | (cases hrun; decide)

end Retrace
