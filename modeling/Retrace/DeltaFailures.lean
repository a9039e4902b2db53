import Retrace.DeltaDecodes

/-! A delta whose allocations fail, and what the consumer of the space has then lost. -/

set_option autoImplicit false

namespace Retrace

/-- The items from `index` on; `item` says which of their ints can be allocated. -/
def tupleItems (item : Nat → Bool) (index : Nat) : List Nat → Option (List Nat)
  | [] => some []
  | value :: values =>
    if item index then (tupleItems item (index + 1) values).map (fun items => value :: items)
    else none

def tupleFromU64s (tupleAllocates : Bool) (item : Nat → Bool) (values : List Nat) :
    Option (List Nat) :=
  if tupleAllocates then tupleItems item 0 values else none

/-- `threadDeltaForTstate` with the outcome of each of its allocations: the buffer, the tuple, and
every item of the tuple. -/
def threadDeltaAllocating (m : Machine) (spaceId : Nat) (buffer tuple : Bool) (item : Nat → Bool) :
    DeltaResult × Machine :=
  match threadDeltaForTstate m spaceId buffer true with
  | (.delta values, m) =>
    match tupleFromU64s tuple item values with
    | some values => (.delta values, m)
    | none => (.error, m)
  | (result, m) => (result, m)

/-- The delta has nothing to report: the thread has the root ordinal of the last one, and the
caches vouch for all words of the frames it reads. -/
def NothingNew (m : Machine) (node : Nat) : Prop :=
  (m.tstate.space node).lastDeltaRootCallOrdinal = (m.tstate.space node).rootCallOrdinal ∧
    ∀ f ∈ threadStateFrame m node, m.visibleIn (m.spacePtr node) f = true →
      ¬Stale m (m.spacePtr node) f ∧
        (m.frames f).delta.lastCallOrdinal = (m.frames f).currentCallOrdinal

def NothingConsumed (m m' : Machine) (node : Nat) : Prop :=
  (∀ f, (m'.frames f).delta = (m.frames f).delta) ∧
    (m'.tstate.space node).lastDeltaRootCallOrdinal =
      (m.tstate.space node).lastDeltaRootCallOrdinal

def deltaFails (spaceId : Nat) : ThreadEvent → Bool
  | .threadDelta id allocates tupleAllocates => id = spaceId && !(allocates && tupleAllocates)
  | _ => false

/-- If the event is a delta of the space that raises, its buffer fails or it has nothing to
report. -/
def FailsEarly (m : Machine) (spaceId : Nat) : ThreadEvent → Prop
  | .threadDelta id allocates tupleAllocates => id = spaceId → (allocates && tupleAllocates) = false →
    allocates = false ∨ ∀ node, findThreadSpace m.tstate spaceId = some node → NothingNew m node
  | _ => True

section failures
variable {p : Platform} {m m' : Machine} {spaceId node : Nat} {buffer tuple : Bool}
  {item : Nat → Bool}

theorem seen_lt (h : (m.tstate.space node).seen = true) : node < m.tstate.spaces.length := by
  by_contra hge
  unfold ThreadState.space at h
  rw [List.getD_eq_getElem?_getD, List.getElem?_eq_none (Nat.le_of_not_lt hge)] at h
  cases h

theorem threadDeltaForTstate_cases (m : Machine) (spaceId : Nat) (buffer tupleAllocates : Bool) :
    (threadDeltaForTstate m spaceId buffer tupleAllocates = (.noSpace, m) ∧
      ∀ node, findThreadSpace m.tstate spaceId = some node →
        (m.tstate.space node).seen = false) ∨
    ∃ node, findThreadSpace m.tstate spaceId = some node ∧ (m.tstate.space node).seen = true ∧
      (buffer = false ∧ threadDeltaForTstate m spaceId buffer tupleAllocates = (.error, m) ∨
        buffer = true ∧ ∃ values, threadDeltaForTstate m spaceId buffer tupleAllocates =
          (if tupleAllocates then .delta values else .error, rememberDelta m node)) := by
  unfold threadDeltaForTstate
  cases hfind : findThreadSpace m.tstate spaceId with
  | none => exact Or.inl ⟨rfl, by simp⟩
  | some node =>
    cases hseen : (m.tstate.space node).seen with
    | false =>
      refine Or.inl ⟨by simp [hseen], ?_⟩
      intro node' hnode
      cases hnode
      exact hseen
    | true =>
      refine Or.inr ⟨node, rfl, hseen, ?_⟩
      cases buffer with
      | false => exact Or.inl ⟨rfl, by simp [hseen]⟩
      | true =>
        refine Or.inr ⟨rfl, ?_⟩
        have hfill := fun (common : Nat) (hle : common ≤ _) =>
          @deltaFill_eq (m.spacePtr node) m (threadStateFrame m node) common hle
        simp only [hseen, Bool.not_true, Bool.false_eq_true, if_false, coordinateCount_eq]
        rw [hfill _ (Nat.le_trans (deltaScan_le _ _ _) (deltaInitial_le _ _))]
        cases tupleAllocates with
        | true => exact ⟨_, rfl⟩
        | false => exact ⟨[], rfl⟩

theorem threadDeltaAllocating_error
    (h : threadDeltaAllocating m spaceId buffer tuple item = (.error, m')) :
    ∃ node, findThreadSpace m.tstate spaceId = some node ∧ (m.tstate.space node).seen = true ∧
      (buffer = false ∧ m' = m ∨ buffer = true ∧ m' = rememberDelta m node) := by
  unfold threadDeltaAllocating at h
  obtain ⟨hnone, -⟩ | ⟨node, hfind, hseen, ⟨hbuffer, herror⟩ | ⟨hbuffer, values, hdelta⟩⟩ :=
    threadDeltaForTstate_cases m spaceId buffer true
  · rw [hnone] at h
    cases h
  · rw [herror] at h
    exact ⟨node, hfind, hseen, Or.inl ⟨hbuffer, (congrArg Prod.snd h).symm⟩⟩
  · rw [hdelta, if_pos rfl] at h
    refine ⟨node, hfind, hseen, Or.inr ⟨hbuffer, ?_⟩⟩
    dsimp only at h
    split at h
    · cases h
    · exact (congrArg Prod.snd h).symm

theorem rememberDelta_lastDelta (hseen : (m.tstate.space node).seen = true) :
    ((rememberDelta m node).tstate.space node).lastDeltaRootCallOrdinal =
      (m.tstate.space node).rootCallOrdinal := by
  change ((m.tstate.updateSpace node _).space node).lastDeltaRootCallOrdinal = _
  rw [space_updateSpace _ _ _ _ (seen_lt hseen), if_pos rfl]

theorem rememberWords_delta_iff {space : SpacePtr} {f : Nat} :
    (rememberWords space (m.frames f)).delta = (m.frames f).delta ↔
      ¬Stale m space f ∧ (m.frames f).delta.lastCallOrdinal = (m.frames f).currentCallOrdinal := by
  unfold rememberWords Stale
  rw [not_or, not_not, not_not]
  constructor
  · intro h
    dsimp only at h
    rw [← h]
    exact ⟨⟨rfl, rfl⟩, rfl⟩
  · rintro ⟨⟨hspace, hinstruction⟩, hordinal⟩
    rw [← hspace, ← hinstruction, ← hordinal]

theorem rememberDelta_nothingConsumed_iff (hseen : (m.tstate.space node).seen = true) :
    NothingConsumed m (rememberDelta m node) node ↔ NothingNew m node := by
  unfold NothingConsumed NothingNew
  rw [rememberDelta_lastDelta hseen, and_comm, eq_comm]
  refine and_congr_right fun _ => ⟨?_, ?_⟩
  · intro h f hf hv
    have hsame := h f
    rw [rememberDelta_frames, if_pos ⟨hf, hv⟩] at hsame
    exact rememberWords_delta_iff.mp hsame
  · intro h f
    rw [rememberDelta_frames]
    split
    · rename_i hread
      exact rememberWords_delta_iff.mpr (h f hread.1 hread.2)
    · rfl

theorem modify_of_getD {α : Type} {list : List α} {n : Nat} {d : α} {g : α → α}
    (h : g (list.getD n d) = list.getD n d) : list.modify n g = list := by
  apply List.ext_getElem?
  intro i
  rw [List.getElem?_modify]
  cases hget : list[i]? with
  | none => rfl
  | some x =>
    change some _ = some x
    congr 1
    split
    · rename_i hi
      subst hi
      rwa [List.getD_eq_getElem?_getD, hget] at h
    · rfl

theorem rememberDelta_nothingNew (h : NothingNew m node) : rememberDelta m node = m := by
  obtain ⟨hroot, hcaches⟩ := h
  have hframes : (rememberDelta m node).frames = m.frames := by
    funext f
    rw [rememberDelta_frames]
    split
    · rename_i hread
      have hsame := rememberWords_delta_iff.mpr (hcaches f hread.1 hread.2)
      change { m.frames f with delta := (rememberWords (m.spacePtr node) (m.frames f)).delta } = _
      rw [hsame]
    · rfl
  have hspaces : (rememberDelta m node).tstate.spaces = m.tstate.spaces := by
    refine modify_of_getD (d := initializeSpaceState 0 0 0) ?_
    change { m.tstate.space node with
      lastDeltaRootCallOrdinal := (m.tstate.space node).rootCallOrdinal } = m.tstate.space node
    rw [← hroot]
  calc rememberDelta m node
      = { m with
          tstate := { m.tstate with spaces := (rememberDelta m node).tstate.spaces }
          frames := (rememberDelta m node).frames } := rfl
    _ = m := by rw [hframes, hspaces]

theorem FailsEarly.unchanged {event : ThreadEvent} (h : FailsEarly m spaceId event)
    (hfails : deltaFails spaceId event = true) : threadStep p m event = some m := by
  cases event with
  | threadDelta id allocates tupleAllocates =>
    simp only [deltaFails, Bool.and_eq_true, decide_eq_true_eq, Bool.not_eq_true'] at hfails
    obtain ⟨rfl, hfails⟩ := hfails
    refine congrArg some (?_ : (threadDeltaForTstate m id allocates tupleAllocates).2 = m)
    obtain ⟨hnone, -⟩ | ⟨node, hfind, -, ⟨-, herror⟩ | ⟨hbuffer, values, hdelta⟩⟩ :=
      threadDeltaForTstate_cases m id allocates tupleAllocates
    · rw [hnone]
    · rw [herror]
    · rw [hdelta]
      obtain hearly | hnothing := h rfl hfails
      · rw [hbuffer] at hearly
        cases hearly
      · exact rememberDelta_nothingNew (hnothing node hfind)
  | _ => simp [deltaFails] at hfails

theorem threadRun_withoutFailures {events : List ThreadEvent}
    (h : ∀ done event rest mid, events = done ++ event :: rest → threadRun p done m = some mid →
      FailsEarly mid spaceId event) (hrun : threadRun p events m = some m') :
    threadRun p (events.filter (fun event => !deltaFails spaceId event)) m = some m' := by
  induction events generalizing m with
  | nil => exact hrun
  | cons event events ih =>
    rw [threadRun_cons, Option.bind_eq_some_iff] at hrun
    obtain ⟨mid, hstep, hrun⟩ := hrun
    have hrest := fun (m : Machine) (hmid : threadStep p m event = some mid)
        (h : ∀ done event' rest mid, event :: events = done ++ event' :: rest →
          threadRun p done m = some mid → FailsEarly mid spaceId event') =>
      ih (m := mid) (fun done event' rest last heq hdone => by
        refine h (event :: done) event' rest last (by rw [heq]; rfl) ?_
        rw [threadRun_cons, hmid]
        exact hdone) hrun
    cases hfails : deltaFails spaceId event with
    | true =>
      have hearly := h [] event events m rfl rfl
      rw [hearly.unchanged hfails] at hstep
      obtain rfl := Option.some.inj hstep
      rw [List.filter_cons_of_neg (by simp [hfails])]
      exact hrest m (hearly.unchanged hfails) h
    | false =>
      rw [List.filter_cons_of_pos (by simp [hfails]), threadRun_cons, hstep]
      exact hrest m hstep h

/-- A delta that raises leaves the caches as they were exactly if its buffer is what could not be
allocated, or it had nothing to report. If all failures of a run are so, the consumer loses
nothing: the next delta decodes over its stack to the coordinates of the space. -/
theorem threadDelta_error {origin : Machine} {events : List ThreadEvent} (hidle : Idle origin)
    (hsettled : ∀ f, Settled (origin.frames f)) (hrun : threadRun p events origin = some m) :
    (∀ buffer tuple item m', threadDeltaAllocating m spaceId buffer tuple item = (.error, m') →
      ∃ node, findThreadSpace m.tstate spaceId = some node ∧
        (NothingConsumed m m' node ↔ buffer = false ∨ NothingNew m node)) ∧
    ((∀ done event rest mid, events = done ++ event :: rest →
        threadRun p done origin = some mid → FailsEarly mid spaceId event) →
      consumable p spaceId (events.filter (fun event => !deltaFails spaceId event) ++
        [.threadDelta spaceId true true]) origin [] = true →
      ∃ stack, consumerStack p spaceId
          (events.filter (fun event => !deltaFails spaceId event)) origin [] = some stack ∧
        Decodes stack (coordinates m spaceId 0) (threadDeltaForTstate m spaceId true true).1) := by
  refine ⟨?_, ?_⟩
  · intro buffer tuple item m' herror
    obtain ⟨node, hfind, hseen, ⟨hbuffer, rfl⟩ | ⟨hbuffer, rfl⟩⟩ := threadDeltaAllocating_error herror
    · exact ⟨node, hfind, iff_of_true ⟨fun _ => rfl, rfl⟩ (Or.inl hbuffer)⟩
    · refine ⟨node, hfind, ?_⟩
      rw [rememberDelta_nothingConsumed_iff hseen, hbuffer]
      simp
  · intro hearly hassumed
    exact threadDelta_decodes hidle hsettled (threadRun_withoutFailures hearly hrun) hassumed

theorem threadDelta_error_buffer : ∃ m stack,
    threadRun ⟨true, true⟩ [.call 0 0 true true, .begin [] 3, .threadDelta 0 false true]
      (freshMachine ⟨true, true⟩ 0) = some m ∧
    consumerStack ⟨true, true⟩ 0 [.call 0 0 true true, .begin [] 3]
      (freshMachine ⟨true, true⟩ 0) [] = some stack ∧
    Decodes stack (coordinates m 0 0) (threadDeltaForTstate m 0 true true).1 := by
  obtain ⟨m, hrun⟩ : ∃ m, threadRun ⟨true, true⟩ [.call 0 0 true true, .begin [] 3,
      .threadDelta 0 false true] (freshMachine ⟨true, true⟩ 0) = some m := ⟨_, rfl⟩
  have hearly : ∀ done event rest mid, [.call 0 0 true true, .begin [] 3,
      .threadDelta 0 false true] = done ++ event :: rest →
      threadRun ⟨true, true⟩ done (freshMachine ⟨true, true⟩ 0) = some mid →
      FailsEarly mid 0 event := by
    intro done event rest mid heq _
    have hmem : event ∈ [.call 0 0 true true, .begin [] 3, .threadDelta 0 false true] := by
      rw [heq]
      simp
    simp only [List.mem_cons, List.not_mem_nil, or_false] at hmem
    obtain rfl | rfl | rfl := hmem
    · trivial
    · trivial
    · exact fun _ _ => Or.inl rfl
  obtain ⟨stack, hstack, hdecodes⟩ := (threadDelta_error (freshMachine_idle ⟨true, true⟩ 0)
    (fun _ => Or.inl rfl) hrun).2 hearly rfl
  exact ⟨m, stack, hrun, hstack, hdecodes⟩

/-- The tuple of the first delta cannot be allocated. The caches have been written, and the next
delta refers to words that the consumer has never received. -/
theorem threadDelta_error_tuple : ∃ m m',
    threadRun ⟨true, true⟩ [.call 0 0 true true, .begin [] 3] (freshMachine ⟨true, true⟩ 0) =
      some m ∧
    threadDeltaAllocating m 0 true false (fun _ => true) = (.error, m') ∧
    ¬NothingConsumed m m' 0 ∧ consumerStack ⟨true, true⟩ 0 [.call 0 0 true true, .begin [] 3]
      (freshMachine ⟨true, true⟩ 0) [] = some [] ∧
    (threadDeltaForTstate m' 0 true true).1 = .delta [2] ∧ coordinates m' 0 0 = some [3, 0] ∧
    ¬Decodes [] (coordinates m' 0 0) (threadDeltaForTstate m' 0 true true).1 := by
  refine ⟨_, _, rfl, rfl, ?_, rfl, rfl, rfl, ?_⟩
  · rintro ⟨hcaches, -⟩
    exact absurd (hcaches 0) (by decide)
  · rintro ⟨hle, -⟩
    exact absurd hle (by decide)

end failures

end Retrace
