import Retrace.ThreadStart
import Mathlib.Data.List.Rotate

/-! The circle of spaces of a thread through any calls that look up, create and select spaces,
against the list of the ids that were created. -/

set_option autoImplicit false

namespace Retrace

/-! ## A ring of numbers -/

section ring
variable {n i : Nat} {successor : Nat → Nat}

theorem iterate_ring (hring : ∀ j < n, successor j = (j + 1) % n) (hi : i < n) (k : Nat) :
    successor^[k] i = (i + k) % n := by
  induction k with
  | zero => exact (Nat.mod_eq_of_lt hi).symm
  | succ k ih =>
    rw [Function.iterate_succ_apply', ih, hring _ (Nat.mod_lt _ (by omega)), Nat.mod_add_mod,
      Nat.add_assoc]

theorem turn_perm (hring : ∀ j < n, successor j = (j + 1) % n) (hi : i < n) :
    ((List.range n).map (fun k => successor^[k] i)).Perm (List.range n) := by
  have hrotate : (List.range n).map (fun k => successor^[k] i) = (List.range n).rotate i := by
    apply List.ext_getElem
    · simp
    · intro k hk _
      rw [List.getElem_map, List.getElem_range, iterate_ring hring hi, List.getElem_rotate,
        List.getElem_range, List.length_range, Nat.add_comm]
  rw [hrotate]
  exact List.rotate_perm _ i

theorem turn_returns (hring : ∀ j < n, successor j = (j + 1) % n) (hi : i < n) :
    successor^[n] i = i := by
  rw [iterate_ring hring hi, Nat.add_mod_right, Nat.mod_eq_of_lt hi]

end ring

/-! ## The calls -/

def seedIdentity (t : ThreadState) (inherited threadId : Nat) : ThreadState :=
  { t.updateSpace 0 (fun root => { root with rootCoordinateHash := threadId }) with
    threadId := threadId
    inheritedSpaceId := inherited }

/-- The part of `_PyRetrace_SeedThreadState` that writes to the new thread. -/
def seedSpaces (p : Platform) (t : ThreadState) (inherited threadId : Nat) (allocates : Bool) :
    ThreadState :=
  (setCurrentSpaceById p (seedIdentity t inherited threadId) inherited allocates).2

theorem adoptThread_seedSpaces (p : Platform) (proc : Process)
    (child inherited threadId : Nat) (allocates : Bool) :
    adoptThread p proc child inherited threadId allocates =
      proc.setThread child ((proc.threads child).setTstate
        (seedSpaces p (proc.threads child).tstate inherited threadId allocates)) := rfl

inductive SpaceCall where
  | get (spaceId : Nat) (allocates : Bool)
  | setCurrent (spaceId : Nat) (allocates : Bool)
  | current (allocates : Bool)
  | seed (inherited threadId : Nat) (allocates : Bool)
  deriving DecidableEq, Repr

def spaceCall (p : Platform) (t : ThreadState) : SpaceCall → ThreadState
  | .get spaceId allocates => (getThreadSpace p t spaceId allocates).2
  | .setCurrent spaceId allocates => (setCurrentSpaceById p t spaceId allocates).2
  | .current allocates => (currentSpace p t allocates).2
  | .seed inherited threadId allocates => seedSpaces p t inherited threadId allocates

def spaceRun (p : Platform) (calls : List SpaceCall) (t : ThreadState) : ThreadState :=
  calls.foldl (spaceCall p) t

/-! ## The ids -/

/-- The ids of the spaces in the order of their creation, that of the current space, and the one
that the thread is to run in. -/
structure SpaceIds where
  created : List Nat
  current : Nat
  inherited : Nat
  deriving DecidableEq, Repr

namespace SpaceIds

/-- `none`: the space is new and cannot be allocated. -/
def create (ids : SpaceIds) (spaceId : Nat) (allocates : Bool) : Option SpaceIds :=
  if spaceId ∈ ids.created then some ids
  else if allocates then some { ids with created := ids.created ++ [spaceId] }
  else none

def select (ids : SpaceIds) (spaceId : Nat) (allocates : Bool) : SpaceIds :=
  match ids.create spaceId allocates with
  | none => ids
  | some ids => { ids with current := spaceId, inherited := spaceId }

def call (ids : SpaceIds) : SpaceCall → SpaceIds
  | .get spaceId allocates => (ids.create spaceId allocates).getD ids
  | .setCurrent spaceId allocates => ids.select spaceId allocates
  | .current allocates =>
    if ids.current = ids.inherited then ids else ids.select ids.inherited allocates
  | .seed inherited _ allocates => { ids with inherited := inherited }.select inherited allocates

def initial : SpaceIds := ⟨[spaceIdRoot], spaceIdRoot, spaceIdRoot⟩

def run (calls : List SpaceCall) (ids : SpaceIds) : SpaceIds := calls.foldl call ids

end SpaceIds

/-- The circle holds the spaces of these ids. -/
structure CircleOf (t : ThreadState) (ids : SpaceIds) : Prop extends Circle t where
  created : t.spaces.map SpaceState.spaceId = ids.created
  current_lt : t.currentSpace < t.spaces.length
  current : (t.space t.currentSpace).spaceId = ids.current
  inherited : t.inheritedSpaceId = ids.inherited

section circle
variable {p : Platform} {t : ThreadState} {ids : SpaceIds} {spaceId : Nat} {allocates : Bool}

theorem updateSpace_ids (t : ThreadState) (node : Nat) (f : SpaceState → SpaceState)
    (hid : ∀ s, (f s).spaceId = s.spaceId) :
    (t.updateSpace node f).spaces.map SpaceState.spaceId = t.spaces.map SpaceState.spaceId := by
  unfold ThreadState.updateSpace
  apply List.ext_getElem?
  intro i
  rw [List.getElem?_map, List.getElem?_map, List.getElem?_modify]
  cases t.spaces[i]? with
  | none => simp
  | some s =>
    by_cases hi : node = i
    · simp [hi, hid]
    · simp [hi]

theorem CircleOf.mem_iff (h : CircleOf t ids) :
    spaceId ∈ ids.created ↔ ∃ n < t.spaces.length, (t.space n).spaceId = spaceId := by
  rw [← h.created, List.mem_map]
  constructor
  · rintro ⟨s, hs, rfl⟩
    obtain ⟨n, hn, rfl⟩ := List.getElem_of_mem hs
    exact ⟨n, hn, by simp [ThreadState.space, hn]⟩
  · rintro ⟨n, hn, rfl⟩
    exact ⟨t.space n, by simp [ThreadState.space, hn], rfl⟩

theorem CircleOf.find_isSome (h : CircleOf t ids) :
    (findThreadSpace t spaceId).isSome = true ↔ spaceId ∈ ids.created := by
  rw [h.mem_iff]
  constructor
  · intro hfound
    obtain ⟨n, hn⟩ := Option.isSome_iff_exists.mp hfound
    exact ⟨n, h.toCircle.find_some hn⟩
  · rintro ⟨n, hn, rfl⟩
    rw [h.toCircle.find_eq hn]
    rfl

theorem initial_circleOf (p : Platform) (address : Nat) :
    CircleOf (initializeThreadState p address) SpaceIds.initial :=
  ⟨(freshMachine_idle p address).circle, rfl, Nat.zero_lt_one, rfl, rfl⟩

/-- Getting a space creates it in the list as on the circle, or fails and changes nothing. -/
theorem getThreadSpace_circleOf (h : CircleOf t ids) (spaceId : Nat) (allocates : Bool) :
    (∃ node t' ids', getThreadSpace p t spaceId allocates = (some node, t') ∧
      ids.create spaceId allocates = some ids' ∧ CircleOf t' ids' ∧ node < t'.spaces.length ∧
      (t'.space node).spaceId = spaceId) ∨
    (getThreadSpace p t spaceId allocates = (none, t) ∧ ids.create spaceId allocates = none) := by
  unfold SpaceIds.create
  obtain ⟨node, hfind, hget⟩ | ⟨hfind, hget⟩ | ⟨hfind, hget⟩ :=
    getThreadSpace_cases (p := p) h.toCircle spaceId allocates
  · have hmem : spaceId ∈ ids.created := h.find_isSome.mp (by rw [hfind]; rfl)
    rw [if_pos hmem]
    have hnode := h.toCircle.find_some hfind
    exact Or.inl ⟨node, t, ids, hget, rfl, h, hnode⟩
  · have hmem : spaceId ∉ ids.created := by
      rw [← h.find_isSome, hfind]
      exact Bool.false_ne_true
    have hroom : allocates = true := by
      unfold getThreadSpace at hget
      rw [hfind] at hget
      dsimp only at hget
      split at hget
      · assumption
      · cases hget
    obtain ⟨hgrown, hfound⟩ := getThreadSpace_grown h.toCircle hget
    obtain ⟨hnode, hid⟩ := hgrown.circle.find_some hfound
    rw [if_neg hmem, if_pos hroom]
    refine Or.inl ⟨_, _, _, hget, rfl, ⟨hgrown.circle, ?_, ?_, ?_, h.inherited⟩, hnode, hid⟩
    · dsimp only
      rw [List.map_append, updateSpace_ids t t.lastSpace
        (fun last => { last with next := t.spaces.length }) (fun _ => rfl), h.created]
      rfl
    · exact Nat.lt_of_lt_of_le h.current_lt hgrown.length
    · have hsame := hgrown.space t.currentSpace h.current_lt
      exact (congrArg SpaceState.spaceId hsame).trans h.current
  · have hmem : spaceId ∉ ids.created := by
      rw [← h.find_isSome, hfind]
      exact Bool.false_ne_true
    have hroom : allocates ≠ true := by
      intro hroom
      unfold getThreadSpace at hget
      rw [hfind, hroom] at hget
      cases hget
    rw [if_neg hmem, if_neg hroom]
    exact Or.inr ⟨hget, rfl⟩

theorem setCurrentSpaceById_circleOf (h : CircleOf t ids) (spaceId : Nat) (allocates : Bool) :
    CircleOf (setCurrentSpaceById p t spaceId allocates).2 (ids.select spaceId allocates) := by
  unfold setCurrentSpaceById SpaceIds.select
  obtain ⟨node, t', ids', hget, hcreate, h', hnode, hid⟩ | ⟨hget, hcreate⟩ :=
    getThreadSpace_circleOf (p := p) h spaceId allocates
  · rw [hget, hcreate]
    exact ⟨h'.toCircle.congr rfl rfl (fun _ _ => ⟨rfl, rfl⟩), h'.created, hnode, hid, rfl⟩
  · rw [hget, hcreate]
    exact h

theorem seedIdentity_circleOf (h : CircleOf t ids) (inherited threadId : Nat) :
    CircleOf (seedIdentity t inherited threadId) { ids with inherited := inherited } := by
  have hcircle := h.toCircle.updateSpace 0
    (fun root => { root with rootCoordinateHash := threadId }) (fun _ => rfl) (fun _ => rfl)
  have hlength := length_updateSpace t 0
    (fun root => { root with rootCoordinateHash := threadId })
  refine ⟨hcircle.congr rfl rfl (fun _ _ => ⟨rfl, rfl⟩), ?_, ?_, ?_, rfl⟩
  · exact (updateSpace_ids t 0 (fun root => { root with rootCoordinateHash := threadId })
      (fun _ => rfl)).trans h.created
  · exact hlength.symm ▸ h.current_lt
  · have hspace := space_updateSpace t 0 t.currentSpace
      (fun root => { root with rootCoordinateHash := threadId }) h.current_lt
    have hid := congrArg SpaceState.spaceId hspace
    rw [← h.current]
    refine hid.trans ?_
    split <;> rfl

theorem spaceCall_circleOf (h : CircleOf t ids) (call : SpaceCall) :
    CircleOf (spaceCall p t call) (ids.call call) := by
  cases call with
  | get spaceId allocates =>
    obtain ⟨node, t', ids', hget, hcreate, h', -⟩ | ⟨hget, hcreate⟩ :=
      getThreadSpace_circleOf (p := p) h spaceId allocates
    · rw [spaceCall, SpaceIds.call, hget, hcreate]
      exact h'
    · rw [spaceCall, SpaceIds.call, hget, hcreate]
      exact h
  | setCurrent spaceId allocates => exact setCurrentSpaceById_circleOf h spaceId allocates
  | current allocates =>
    rw [spaceCall, SpaceIds.call]
    unfold currentSpace
    rw [h.current, h.inherited]
    by_cases hsame : ids.current = ids.inherited
    · rw [if_neg (not_not.mpr hsame), if_pos hsame]
      exact h
    · rw [if_pos hsame, if_neg hsame]
      have hset := setCurrentSpaceById_circleOf (p := p) h ids.inherited allocates
      dsimp only
      split <;> exact hset
  | seed inherited threadId allocates =>
    exact setCurrentSpaceById_circleOf (seedIdentity_circleOf h inherited threadId) inherited
      allocates

theorem spaceRun_circleOf (h : CircleOf t ids) (calls : List SpaceCall) :
    CircleOf (spaceRun p calls t) (SpaceIds.run calls ids) := by
  unfold spaceRun SpaceIds.run
  induction calls generalizing t ids with
  | nil => exact h
  | cons call calls ih => exact ih (spaceCall_circleOf h call)

end circle

/-! ## The circle as the pointers show it -/

/-- What a walk along the pointers, a search and an ownership test find. `created` has the ids of
the spaces that were created. -/
structure SoundCircle (t : ThreadState) (created : List Nat) : Prop where
  ids : t.spaces.map SpaceState.spaceId = created
  root : (t.space 0).spaceId = spaceIdRoot
  distinct : created.Nodup
  visits : ∀ node < t.spaces.length, ((List.range t.spaces.length).map (fun k =>
    (fun n => (t.space n).next)^[k] node)).Perm (List.range t.spaces.length)
  returns : ∀ node < t.spaces.length, (fun n => (t.space n).next)^[t.spaces.length] node = node
  last_lt : t.lastSpace < t.spaces.length
  current_lt : t.currentSpace < t.spaces.length
  find : ∀ spaceId, ∃ found, findThreadSpaceLoop t spaceId t.spaces.length
      (t.space t.lastSpace).next = some found ∧ findThreadSpace t spaceId = found ∧
    (found.isSome = true ↔ spaceId ∈ created) ∧
    ∀ node, found = some node → node < t.spaces.length ∧ (t.space node).spaceId = spaceId
  owns : ∀ candidate : SpacePtr, ∃ owned, threadOwnsSpaceLoop t candidate t.spaces.length
      (t.space t.lastSpace).next = some owned ∧ threadOwnsSpace t candidate = owned ∧
    (owned = true ↔ candidate.thread = t.address ∧ candidate.node < t.spaces.length)

/-- A creation that fails leaves the state as it is; seeding has set the identity by then. -/
structure FailsSafely (p : Platform) (t : ThreadState) : Prop where
  get : ∀ spaceId allocates t', getThreadSpace p t spaceId allocates = (none, t') → t' = t
  setCurrent : ∀ spaceId allocates t',
    setCurrentSpaceById p t spaceId allocates = (-1, t') → t' = t
  current : ∀ allocates t', currentSpace p t allocates = (none, t') → t' = t
  seed : ∀ inherited threadId, findThreadSpace t inherited = none →
    seedSpaces p t inherited threadId false = seedIdentity t inherited threadId

section sound
variable {p : Platform} {t : ThreadState} {ids : SpaceIds}

theorem Circle.ring (h : Circle t) {node : Nat} (hn : node < t.spaces.length) :
    (t.space node).next = (node + 1) % t.spaces.length := by
  have hlast := h.last
  rw [h.next node hn]
  split
  · have hend : node + 1 = t.spaces.length := by omega
    rw [hend, Nat.mod_self]
  · rw [Nat.mod_eq_of_lt (by omega)]

theorem threadOwnsSpaceLoop_spec (h : Circle t) (candidate : SpacePtr) (fuel node : Nat)
    (hn : node < t.spaces.length) (hf : t.spaces.length ≤ node + fuel) :
    ∃ owned, threadOwnsSpaceLoop t candidate fuel node = some owned ∧ (owned = true ↔
      candidate.thread = t.address ∧ node ≤ candidate.node ∧
        candidate.node < t.spaces.length) := by
  induction fuel generalizing node with
  | zero => omega
  | succ fuel ih =>
    have hlast := h.last
    have hnext := h.next node hn
    unfold threadOwnsSpaceLoop
    by_cases hsame : candidate = ⟨t.address, node⟩
    · rw [if_pos hsame]
      subst hsame
      exact ⟨true, rfl, by simp [hn]⟩
    · have hother : candidate.thread = t.address → candidate.node ≠ node := by
        intro hthread hnode
        exact hsame (by rw [← hthread, ← hnode])
      rw [if_neg hsame]
      by_cases hend : node = t.lastSpace
      · rw [if_pos hend]
        refine ⟨false, rfl, ?_⟩
        simp only [Bool.false_eq_true, false_iff]
        rintro ⟨hthread, hle, hlt⟩
        have hne := hother hthread
        omega
      · rw [if_neg hend] at hnext
        rw [if_neg hend, hnext]
        obtain ⟨owned, hrun, howned⟩ := ih (node + 1) (by omega) (by omega)
        refine ⟨owned, hrun, howned.trans ?_⟩
        constructor
        · rintro ⟨hthread, hle, hlt⟩
          exact ⟨hthread, by omega, hlt⟩
        · rintro ⟨hthread, hle, hlt⟩
          have hne := hother hthread
          exact ⟨hthread, by omega, hlt⟩

theorem CircleOf.nodup (h : CircleOf t ids) : ids.created.Nodup := by
  rw [← h.created, List.nodup_iff_injective_getElem]
  intro a b hab
  have ha : (a : Nat) < t.spaces.length := by simpa using a.isLt
  have hb : (b : Nat) < t.spaces.length := by simpa using b.isLt
  have hids : (t.space a).spaceId = (t.space b).spaceId := by
    simpa [ThreadState.space, ha, hb] using hab
  exact Fin.ext (h.distinct a ha b hb hids)

theorem CircleOf.sound (h : CircleOf t ids) (hroot : (t.space 0).spaceId = spaceIdRoot) :
    SoundCircle t ids.created := by
  have hlast := h.last
  have hpos := h.nonempty
  refine ⟨h.created, hroot, h.nodup, ?_, ?_, by omega, h.current_lt, ?_, ?_⟩
  · intro node hn
    exact turn_perm (fun _ hj => h.toCircle.ring hj) hn
  · intro node hn
    exact turn_returns (fun _ hj => h.toCircle.ring hj) hn
  · intro spaceId
    obtain ⟨found, hrun, hsome, -⟩ :=
      findThreadSpaceLoop_spec h.toCircle spaceId t.spaces.length 0 hpos (by omega)
    rw [h.toCircle.first]
    have hfind : findThreadSpace t spaceId = found := by
      unfold findThreadSpace
      rw [h.toCircle.first, hrun]
      rfl
    refine ⟨found, hrun, hfind, ?_, hsome⟩
    rw [← hfind]
    exact h.find_isSome
  · intro candidate
    obtain ⟨owned, hrun, howned⟩ :=
      threadOwnsSpaceLoop_spec h.toCircle candidate t.spaces.length 0 hpos (by omega)
    rw [h.toCircle.first]
    refine ⟨owned, hrun, ?_, howned.trans (by simp)⟩
    unfold threadOwnsSpace
    rw [h.toCircle.first, hrun]
    rfl

theorem getThreadSpace_none {spaceId : Nat} {allocates : Bool} {t' : ThreadState}
    (h : getThreadSpace p t spaceId allocates = (none, t')) : t' = t := by
  unfold getThreadSpace at h
  split at h
  · cases h
  · split at h
    · cases h
    · cases h
      rfl

theorem setCurrentSpaceById_failed {spaceId : Nat} {allocates : Bool} {t' : ThreadState}
    (h : setCurrentSpaceById p t spaceId allocates = (-1, t')) : t' = t := by
  unfold setCurrentSpaceById at h
  split at h
  next hget =>
    cases h
    exact getThreadSpace_none hget
  next =>
    rw [Prod.mk.injEq] at h
    exact absurd h.1 (by decide)

theorem setCurrentSpaceById_status (t : ThreadState) (spaceId : Nat) (allocates : Bool) :
    (setCurrentSpaceById p t spaceId allocates).1 = -1 ∨
      (setCurrentSpaceById p t spaceId allocates).1 = 0 := by
  unfold setCurrentSpaceById
  split
  · exact Or.inl rfl
  · exact Or.inr rfl

theorem currentSpace_none {allocates : Bool} {t' : ThreadState}
    (h : currentSpace p t allocates = (none, t')) : t' = t := by
  unfold currentSpace at h
  split at h
  · have hstatus := setCurrentSpaceById_status (p := p) t t.inheritedSpaceId allocates
    cases hset : setCurrentSpaceById p t t.inheritedSpaceId allocates with
    | mk status t'' =>
      rw [hset] at h hstatus
      dsimp only at h hstatus
      split at h
      · cases h
        obtain rfl | rfl := hstatus
        · exact setCurrentSpaceById_failed hset
        · omega
      · cases h
  · cases h

theorem CircleOf.failsSafely (h : CircleOf t ids) : FailsSafely p t := by
  refine ⟨fun _ _ _ => getThreadSpace_none, fun _ _ _ => setCurrentSpaceById_failed,
    fun _ _ => currentSpace_none, ?_⟩
  intro inherited threadId hnone
  have hmem : inherited ∉ ids.created := by
    rw [← h.find_isSome, hnone]
    exact Bool.false_ne_true
  have hnone' : findThreadSpace (seedIdentity t inherited threadId) inherited = none := by
    cases hfind : findThreadSpace (seedIdentity t inherited threadId) inherited with
    | none => rfl
    | some node =>
      have hfound := (seedIdentity_circleOf h inherited threadId).find_isSome.mp
        (Option.isSome_iff_exists.mpr ⟨node, hfind⟩)
      exact absurd hfound hmem
  have hget : getThreadSpace p (seedIdentity t inherited threadId) inherited false =
      (none, seedIdentity t inherited threadId) := by
    unfold getThreadSpace
    rw [hnone']
    rfl
  unfold seedSpaces setCurrentSpaceById
  rw [hget]

theorem SpaceIds.create_prefix {ids ids' : SpaceIds} {spaceId : Nat} {allocates : Bool}
    (h : ids.create spaceId allocates = some ids') : ids.created <+: ids'.created := by
  unfold SpaceIds.create at h
  split_ifs at h
  · cases h
    exact List.prefix_refl _
  · cases h
    exact List.prefix_append _ _

theorem SpaceIds.select_prefix (ids : SpaceIds) (spaceId : Nat) (allocates : Bool) :
    ids.created <+: (ids.select spaceId allocates).created := by
  unfold SpaceIds.select
  cases hcreate : ids.create spaceId allocates with
  | none => exact List.prefix_refl _
  | some ids' =>
    have hprefix := SpaceIds.create_prefix hcreate
    exact hprefix

theorem SpaceIds.call_prefix (ids : SpaceIds) (call : SpaceCall) :
    ids.created <+: (ids.call call).created := by
  cases call with
  | get spaceId allocates =>
    rw [SpaceIds.call]
    cases hcreate : ids.create spaceId allocates with
    | none => exact List.prefix_refl _
    | some ids' => exact SpaceIds.create_prefix hcreate
  | setCurrent spaceId allocates => exact ids.select_prefix spaceId allocates
  | current allocates =>
    rw [SpaceIds.call]
    split
    · exact List.prefix_refl _
    · exact ids.select_prefix ids.inherited allocates
  | seed inherited threadId allocates =>
    exact SpaceIds.select_prefix { ids with inherited := inherited } inherited allocates

theorem SpaceIds.run_prefix (calls : List SpaceCall) (ids : SpaceIds) :
    ids.created <+: (SpaceIds.run calls ids).created := by
  unfold SpaceIds.run
  induction calls generalizing ids with
  | nil => exact List.prefix_refl _
  | cons call calls ih => exact (ids.call_prefix call).trans (ih (ids.call call))

theorem CircleOf.kept (h : CircleOf t ids) (calls : List SpaceCall) {n : Nat}
    (hn : n < t.spaces.length) : n < (spaceRun p calls t).spaces.length ∧
      ((spaceRun p calls t).space n).spaceId = (t.space n).spaceId := by
  obtain ⟨rest, hrest⟩ := SpaceIds.run_prefix calls ids
  have hids := (spaceRun_circleOf (p := p) h calls).created
  rw [← hrest, ← h.created] at hids
  have hlength := congrArg List.length hids
  rw [List.length_map, List.length_append, List.length_map] at hlength
  have hn' : n < (spaceRun p calls t).spaces.length := by omega
  refine ⟨hn', ?_⟩
  have hitem := congrArg (fun created => created[n]?) hids
  rw [List.getElem?_append_left (by simpa using hn)] at hitem
  simpa [ThreadState.space, hn, hn'] using hitem

theorem CircleOf.get_again (h : CircleOf t ids) {spaceId node : Nat} {allocates : Bool}
    {t' : ThreadState} (hget : getThreadSpace p t spaceId allocates = (some node, t'))
    (more : List SpaceCall) (allocates' : Bool) :
    getThreadSpace p (spaceRun p more t') spaceId allocates' =
      (some node, spaceRun p more t') := by
  obtain ⟨node', t'', ids', hget', -, h', hnode, hid⟩ | ⟨hget', -⟩ :=
    getThreadSpace_circleOf (p := p) h spaceId allocates
  · rw [hget, Prod.mk.injEq, Option.some.injEq] at hget'
    obtain ⟨rfl, rfl⟩ := hget'
    obtain ⟨hlt, hsame⟩ := h'.kept (p := p) more hnode
    have hfind := (spaceRun_circleOf (p := p) h' more).toCircle.find_eq hlt
    rw [hsame, hid] at hfind
    unfold getThreadSpace
    rw [hfind]
  · rw [hget] at hget'
    cases hget'

end sound

def spacesAfter (p : Platform) (address : Nat) (calls : List SpaceCall) : ThreadState :=
  spaceRun p calls (initializeThreadState p address)

/-- After any calls, whatever allocations fail, the circle goes once through the root and every
space that was created. -/
theorem spacesAfter_sound (p : Platform) (address : Nat) (calls : List SpaceCall) :
    SoundCircle (spacesAfter p address calls) (SpaceIds.run calls SpaceIds.initial).created ∧
    spaceIdRoot ∈ (SpaceIds.run calls SpaceIds.initial).created ∧
    FailsSafely p (spacesAfter p address calls) ∧
    ∀ spaceId allocates node t',
      getThreadSpace p (spacesAfter p address calls) spaceId allocates = (some node, t') →
      ∀ more allocates', getThreadSpace p (spaceRun p more t') spaceId allocates' =
        (some node, spaceRun p more t') := by
  have hstart := initial_circleOf p address
  have hcircle := spaceRun_circleOf (p := p) hstart calls
  obtain ⟨-, hroot⟩ := hstart.kept (p := p) calls hstart.nonempty
  refine ⟨hcircle.sound hroot, ?_, hcircle.failsSafely, ?_⟩
  · exact (SpaceIds.run_prefix calls SpaceIds.initial).subset List.mem_cons_self
  · intro spaceId allocates node t' hget more allocates'
    exact hcircle.get_again hget more allocates'

/-- Two spaces are created, a third allocation fails. -/
example : (SpaceIds.run [.setCurrent 5 true, .get 9 true, .get 7 false, .current false]
    SpaceIds.initial).created = [0, 5, 9] := by decide

end Retrace
