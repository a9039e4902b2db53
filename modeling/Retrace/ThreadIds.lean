import Retrace.ThreadStart

/-! Thread ids over the lives of the threads of an interpreter. -/

set_option autoImplicit false

namespace Retrace

/-- A thread state is initialized and put on the list, seeded once, and at the end cleared and
taken off the list. `handOver` gives a suspended generator to another thread. -/
inductive LifeEvent where
  | initializeThread (i : Nat)
  | seedThread (parent : Option Nat) (child : Nat) (choices : StartChoices)
  | run (i : Nat) (event : ThreadEvent)
  | handOver (i j g : Nat)
  | clear (i : Nat)
  | delete (i : Nat)
  deriving DecidableEq, Repr

/-- With the threads, what their states do not say: the space each inherited when it was seeded,
and whether it has been cleared. -/
structure Lives where
  proc : Process
  inherited : Nat → Option Nat
  cleared : Nat → Bool

namespace Lives

def threadId (lives : Lives) (i : Nat) : Nat := (lives.proc.threads i).tstate.threadId

/-- Seeded and not yet cleared. -/
def running (lives : Lives) (i : Nat) : Bool :=
  i ∈ lives.proc.live && (lives.inherited i).isSome && !lives.cleared i

def setThread (lives : Lives) (i : Nat) (m : Machine) : Lives :=
  { lives with proc := lives.proc.setThread i m }

end Lives

/-- The space that `seedThreadState` lets a child inherit. -/
def inheritedSpaceId (proc : Process) (parent : Option Nat) (child : Nat) : Nat :=
  match if parent = some child then none else parent with
  | none => spaceIdRoot
  | some i => (proc.threads i).currentSpaceId

/-- A creator is on the list and not cleared, seeded or not. A cleared thread does nothing
more. -/
def lifeStep (p : Platform) (seed : List Nat) (lives : Lives) : LifeEvent → Option Lives
  | .initializeThread i =>
    if i ∈ lives.proc.live then none
    else some {
      proc := { lives.proc.setThread i (freshMachine p i) with live := i :: lives.proc.live }
      inherited := Function.update lives.inherited i none
      cleared := Function.update lives.cleared i false }
  | .seedThread parent child choices =>
    if child ∈ lives.proc.live ∧ lives.inherited child = none ∧ lives.cleared child = false ∧
        ∀ i, parent = some i → i ∈ lives.proc.live ∧ lives.cleared i = false then
      (seedThreadState p seed lives.proc parent child choices).map (fun proc =>
        { lives with
          proc := proc
          inherited := Function.update lives.inherited child
            (some (inheritedSpaceId lives.proc parent child)) })
    else none
  | .run i event =>
    if lives.running i then
      (threadStep p (lives.proc.threads i) event).map (lives.setThread i)
    else none
  | .handOver i j g =>
    if lives.running i ∧ lives.running j ∧ .frame g ∉ (lives.proc.threads i).tstate.stack ∧
        .frame g ∉ (lives.proc.threads j).tstate.stack then
      some (lives.setThread j ((lives.proc.threads j).setFrame g
        ((lives.proc.threads i).frames g)))
    else none
  | .clear i =>
    if i ∈ lives.proc.live then
      some { lives.setThread i ((lives.proc.threads i).setTstate
          (clearThreadState (lives.proc.threads i).tstate)) with
        cleared := Function.update lives.cleared i true }
    else none
  | .delete i =>
    if i ∈ lives.proc.live then
      some { lives with proc := { lives.proc with live := lives.proc.live.erase i } }
    else none

def lifeRun (p : Platform) (seed : List Nat) (events : List LifeEvent) (lives : Lives) :
    Option Lives :=
  events.foldlM (lifeStep p seed) lives

def noThreads (p : Platform) : Lives where
  proc := emptyProcess p
  inherited _ := none
  cleared _ := false

/-- A thread id of a thread that was created in a space. -/
structure CarriesSpace (spaceId threadId : Nat) : Prop where
  nonzero : threadId ≠ 0
  notMax : threadId ≠ 2 ^ 64 - 1
  space : threadId >>> 48 = threadIdSpaceBits spaceId
  hash : threadId &&& threadIdHashMask ≠ 0

section compose
variable {p : Platform}

theorem hashBits_bounds (hash : Nat) :
    0 < (if hash &&& threadIdHashMask = 0 then 1 else hash &&& threadIdHashMask) ∧
      (if hash &&& threadIdHashMask = 0 then 1 else hash &&& threadIdHashMask) < 2 ^ 48 := by
  have hmask : threadIdHashMask = 2 ^ 48 - 1 := rfl
  rw [hmask, Nat.and_two_pow_sub_one_eq_mod]
  have hlt := Nat.mod_lt hash (show 0 < 2 ^ 48 by decide)
  split_ifs <;> omega

theorem composeThreadId_carries (spaceId threadHash : Nat) :
    CarriesSpace spaceId (composeThreadId spaceId threadHash) := by
  have hspace : threadIdSpaceBits spaceId < 2 ^ 16 := by
    unfold threadIdSpaceBits threadIdSpaceMask
    exact Nat.lt_of_le_of_lt Nat.and_le_right (by decide)
  obtain ⟨hpos, hlt⟩ := hashBits_bounds (normalizeCoordinateHash threadHash)
  unfold composeThreadId
  simp only
  rw [← Nat.shiftLeft_add_eq_or_of_lt hlt, Nat.shiftLeft_eq]
  generalize hs : threadIdSpaceBits spaceId = space at hspace ⊢
  generalize (if normalizeCoordinateHash threadHash &&& threadIdHashMask = 0 then 1
    else normalizeCoordinateHash threadHash &&& threadIdHashMask) = bits at hpos hlt ⊢
  -- the all-ones word loses its last bit, which leaves both parts of the id as they are
  have hvalue : normalizeThreadId (space * 2 ^ 48 + bits) =
      if space * 2 ^ 48 + bits = 2 ^ 64 - 1 then 2 ^ 64 - 2 else space * 2 ^ 48 + bits := by
    unfold normalizeThreadId normalizeCoordinateHash
    by_cases hmax : space * 2 ^ 48 + bits = 2 ^ 64 - 1
    · rw [if_pos hmax, if_neg (by decide)]
    · rw [if_neg hmax, if_neg (by omega)]
  rw [hvalue]
  have hmask : threadIdHashMask = 2 ^ 48 - 1 := rfl
  refine ⟨?_, ?_, ?_, ?_⟩
  · split_ifs <;> omega
  · split_ifs <;> omega
  · rw [Nat.shiftRight_eq_div_pow, hs]
    split_ifs <;> omega
  · rw [hmask, Nat.and_two_pow_sub_one_eq_mod]
    split_ifs <;> omega

theorem uniqueThreadIdLoop_spec {proc : Process} {skip spaceId fuel candidate retry threadId : Nat}
    (hcandidate : CarriesSpace spaceId candidate)
    (h : uniqueThreadIdLoop p proc skip spaceId fuel candidate retry = some threadId) :
    CarriesSpace spaceId threadId ∧ threadIdIsActive proc skip threadId = false := by
  induction fuel generalizing candidate retry with
  | zero => simp [uniqueThreadIdLoop] at h
  | succ fuel ih =>
    unfold uniqueThreadIdLoop at h
    cases hactive : threadIdIsActive proc skip candidate with
    | true =>
      rw [if_pos hactive] at h
      exact ih (composeThreadId_carries _ _) h
    | false =>
      simp only [hactive, Bool.false_eq_true, if_false, Option.some.injEq] at h
      exact h ▸ ⟨hcandidate, hactive⟩

end compose

/-- What a thread keeps from its seeding to its end. -/
structure SameThread (t t' : ThreadState) : Prop where
  threadId : t'.threadId = t.threadId
  address : t'.address = t.address

section sameThread
variable {p : Platform} {t t' : ThreadState}

theorem SameThread.refl (t : ThreadState) : SameThread t t := ⟨rfl, rfl⟩

theorem SameThread.trans {t'' : ThreadState} (h : SameThread t t') (h' : SameThread t' t'') :
    SameThread t t'' := ⟨h'.threadId.trans h.threadId, h'.address.trans h.address⟩

theorem getThreadSpace_sameThread (t : ThreadState) (spaceId : Nat) (allocates : Bool) :
    SameThread t (getThreadSpace p t spaceId allocates).2 := by
  unfold getThreadSpace
  cases findThreadSpace t spaceId with
  | some node => exact SameThread.refl t
  | none => cases allocates <;> exact ⟨rfl, rfl⟩

theorem setCurrentSpaceById_sameThread (t : ThreadState) (spaceId : Nat) (allocates : Bool) :
    SameThread t (setCurrentSpaceById p t spaceId allocates).2 := by
  have hget := @getThreadSpace_sameThread p t spaceId allocates
  unfold setCurrentSpaceById
  cases hspace : getThreadSpace p t spaceId allocates with
  | mk node t' =>
    rw [hspace] at hget
    cases node <;> exact ⟨hget.threadId, hget.address⟩

theorem currentSpace_sameThread (t : ThreadState) (allocates : Bool) :
    SameThread t (currentSpace p t allocates).2 := by
  have hset := @setCurrentSpaceById_sameThread p t t.inheritedSpaceId allocates
  unfold currentSpace
  by_cases hsame : (t.space t.currentSpace).spaceId ≠ t.inheritedSpaceId
  · simp only [if_pos hsame]
    split <;> exact hset
  · simp only [if_neg hsame]
    exact SameThread.refl t

variable (m : Machine)

theorem activateFrame_sameThread (f : Nat) (allocates : Bool) :
    SameThread m.tstate (activateFrame p m f allocates).tstate := by
  have hcurrent := @currentSpace_sameThread p m.tstate allocates
  unfold activateFrame
  dsimp only
  split_ifs
  · exact SameThread.refl _
  all_goals
    simp only [Machine.setFrame]
    cases hspace : currentSpace p m.tstate allocates with
    | mk node t =>
      rw [hspace] at hcurrent
      cases node <;> exact ⟨hcurrent.threadId, hcurrent.address⟩

theorem deactivateFrame_sameThread (f : Nat) :
    SameThread m.tstate (deactivateFrame m f).tstate := by
  cases hspace : (m.frames f).space with
  | none => simp only [deactivateFrame, hspace]; exact SameThread.refl _
  | some space =>
    cases hprevious : (m.frames f).previousCallOrdinalPtr with
    | none =>
      simp only [deactivateFrame, hspace, hprevious]
      split_ifs <;> exact ⟨rfl, rfl⟩
    | some ptr =>
      simp only [deactivateFrame, hspace, hprevious]
      cases ptr <;> split_ifs <;> exact ⟨rfl, rfl⟩

theorem enterSpace_sameThread {m m' : Machine} {k spaceId : Nat} {allocates : Bool}
    (h : enterSpace p m k spaceId allocates = some m') : SameThread m.tstate m'.tstate := by
  have hget := @getThreadSpace_sameThread p m.tstate spaceId allocates
  unfold enterSpace at h
  cases hspace : getThreadSpace p m.tstate spaceId allocates with
  | mk node t =>
    rw [hspace] at h hget
    cases node with
    | none => exact absurd h (by simp)
    | some node =>
      simp only [Option.some.injEq] at h
      subst h
      split <;> exact ⟨hget.threadId, hget.address⟩

theorem leaveSpace_sameThread (k : Nat) : SameThread m.tstate (leaveSpace m k).tstate := by
  rw [leaveSpace_tstate]
  split <;> exact ⟨rfl, rfl⟩

theorem threadDelta_sameThread (spaceId : Nat) (allocates tupleAllocates : Bool) :
    SameThread m.tstate (threadDeltaForTstate m spaceId allocates tupleAllocates).2.tstate := by
  rcases threadDelta_cases m spaceId allocates tupleAllocates with h | ⟨node, -, h⟩
  · rw [h]
    exact SameThread.refl _
  · rw [h]
    exact ⟨rfl, rfl⟩

theorem deactivateTimes_sameThread (f n : Nat) :
    SameThread m.tstate (deactivateTimes m f n).tstate := by
  induction n generalizing m with
  | zero => exact SameThread.refl _
  | succ n ih => exact (deactivateFrame_sameThread m f).trans (ih _)

theorem callbackBegin_sameThread (f k : Nat) (allocates : Bool) :
    SameThread m.tstate (callbackBegin p m f k allocates).tstate := by
  unfold callbackBegin
  dsimp only
  split
  · exact ⟨rfl, rfl⟩
  · next h =>
    have henter := enterSpace_sameThread h
    exact ⟨henter.threadId, henter.address⟩

theorem enterFrame_sameThread (f : Nat) (evalEntry allocates : Bool) :
    SameThread m.tstate (enterFrame p m f evalEntry allocates).tstate := by
  have hactivate := @activateFrame_sameThread p
    ((if evalEntry then m.setFrame f (resetLastCoordinate (m.frames f)) else m).push (.frame f))
    f allocates
  unfold enterFrame
  cases evalEntry <;> exact ⟨hactivate.threadId, hactivate.address⟩

theorem threadStep_sameThread {m m' : Machine} {event : ThreadEvent}
    (h : threadStep p m event = some m') : SameThread m.tstate m'.tstate := by
  cases event with
  | call f firstTraceable evalEntry allocates =>
    simp only [threadStep] at h
    split at h
    · exact absurd h (by simp)
    · simp only [Option.some.injEq] at h
      subst h
      exact enterFrame_sameThread (m.setFrame f _) f evalEntry allocates
  | resume f evalEntry allocates =>
    simp only [threadStep] at h
    split at h
    · exact absurd h (by simp)
    · simp only [Option.some.injEq] at h
      subst h
      exact enterFrame_sameThread m f evalEntry allocates
  | newGenerator g lasti =>
    simp only [threadStep] at h
    split at h
    · exact absurd h (by simp)
    · simp only [Option.some.injEq] at h
      subst h
      exact ⟨rfl, rfl⟩
  | begin jumps offset =>
    simp only [threadStep] at h
    split at h
    · simp only [Option.some.injEq] at h
      subst h
      unfold resetCallOrdinal
      split <;> exact ⟨rfl, rfl⟩
    · exact absurd h (by simp)
  | leave again =>
    simp only [threadStep] at h
    split at h
    · next f rest _ =>
      simp only [Option.some.injEq] at h
      subst h
      have htimes := deactivateTimes_sameThread m f (again + 1)
      exact ⟨htimes.threadId, htimes.address⟩
    · exact absurd h (by simp)
  | leaveInactive f =>
    simp only [threadStep] at h
    split at h
    · exact absurd h (by simp)
    · simp only [Option.some.injEq] at h
      subst h
      exact deactivateFrame_sameThread m f
  | enterSpace k spaceId allocates =>
    simp only [threadStep] at h
    split at h
    · exact absurd h (by simp)
    · split at h
      · simp only [Option.some.injEq] at h
        subst h
        exact SameThread.refl _
      · next henter =>
        simp only [Option.some.injEq] at h
        subst h
        have hsame := enterSpace_sameThread henter
        exact ⟨hsame.threadId, hsame.address⟩
  | leaveSpace =>
    simp only [threadStep] at h
    split at h
    · next k rest _ =>
      simp only [Option.some.injEq] at h
      subst h
      have hsame := leaveSpace_sameThread m k
      exact ⟨hsame.threadId, hsame.address⟩
    · exact absurd h (by simp)
  | callbackBegin k allocates =>
    simp only [threadStep] at h
    split at h
    · next f rest _ =>
      split at h
      · exact absurd h (by simp)
      · simp only [Option.some.injEq] at h
        subst h
        exact callbackBegin_sameThread m f k allocates
    · exact absurd h (by simp)
  | callbackEnd =>
    simp only [threadStep] at h
    split at h
    · next k rest _ =>
      simp only [Option.some.injEq] at h
      subst h
      have hsame := leaveSpace_sameThread m k
      exact ⟨hsame.threadId, hsame.address⟩
    · exact absurd h (by simp)
  | threadDelta spaceId allocates tupleAllocates =>
    simp only [threadStep, Option.some.injEq] at h
    subst h
    exact threadDelta_sameThread m spaceId allocates tupleAllocates

end sameThread

/-- The hash of the creator's id and frames, and the threads with the creator as the seeding
leaves it. -/
def startSeed (p : Platform) (seed : List Nat) (proc : Process) (parent : Option Nat)
    (child : Nat) (allocates : Bool) : Nat × Process :=
  let parent := if parent = some child then none else parent
  let (hash, creator) := threadIdSeed p seed (parent.map proc.threads) allocates
  (hash, match parent, creator with
    | some i, some m => proc.setThread i m
    | _, _ => proc)

section seed
variable {p : Platform} {seed : List Nat} {proc proc' : Process} {parent : Option Nat}
  {child : Nat} {choices : StartChoices}

theorem seedThreadState_eq :
    seedThreadState p seed proc parent child choices =
      (uniqueThreadId p (startSeed p seed proc parent child choices.parentAllocates).2 child
        (inheritedSpaceId proc parent child)
        (startSeed p seed proc parent child choices.parentAllocates).1 choices.fuel).map
        (fun threadId => adoptThread p
          (startSeed p seed proc parent child choices.parentAllocates).2 child
          (inheritedSpaceId proc parent child) threadId choices.childAllocates) := rfl

theorem setThread_threads (proc : Process) (i j : Nat) (m : Machine) :
    (proc.setThread i m).threads j = if j = i then m else proc.threads j := by
  unfold Process.setThread
  exact Function.update_apply _ _ _ _

theorem startSeed_threads (allocates : Bool) (i : Nat) :
    ((startSeed p seed proc parent child allocates).2.threads i = proc.threads i ∨
      i ≠ child ∧ parent = some i ∧ (proc.threads i).tstate.threadId ≠ 0) ∧
    SameThread (proc.threads i).tstate
      ((startSeed p seed proc parent child allocates).2.threads i).tstate := by
  unfold startSeed
  by_cases hself : parent = some child
  · simp only [if_pos hself]
    exact ⟨by simp, SameThread.refl _⟩
  · simp only [if_neg hself]
    cases parent with
    | none => exact ⟨by simp, SameThread.refl _⟩
    | some j =>
      simp only [Option.map_some, threadIdSeed]
      by_cases hseeded : (proc.threads j).tstate.threadId = 0
      · simp only [if_pos hseeded, setThread_threads]
        by_cases hij : i = j
        · subst hij
          simp only [if_true]
          exact ⟨by simp, SameThread.refl _⟩
        · simp only [if_neg hij]
          exact ⟨by simp, SameThread.refl _⟩
      · simp only [if_neg hseeded, setThread_threads]
        by_cases hij : i = j
        · subst hij
          simp only [if_true]
          exact ⟨Or.inr ⟨fun h => hself (congrArg some h), by simp, hseeded⟩,
            currentSpace_sameThread _ _⟩
        · simp only [if_neg hij]
          exact ⟨by simp, SameThread.refl _⟩

theorem startSeed_live (allocates : Bool) :
    (startSeed p seed proc parent child allocates).2.live = proc.live := by
  unfold startSeed
  dsimp only
  split <;> rfl

theorem adoptThread_threads (proc : Process) (child inherited threadId i : Nat)
    (allocates : Bool) (hi : i ≠ child) :
    (adoptThread p proc child inherited threadId allocates).threads i = proc.threads i := by
  unfold adoptThread
  dsimp only
  rw [setThread_threads, if_neg hi]

theorem adoptThread_threadId (proc : Process) (child inherited threadId : Nat)
    (allocates : Bool) :
    ((adoptThread p proc child inherited threadId allocates).threads child).tstate.threadId =
      threadId := by
  unfold adoptThread
  dsimp only
  rw [setThread_threads, if_pos rfl]
  exact (setCurrentSpaceById_sameThread _ _ _).threadId

theorem seedThreadState_ids (h : seedThreadState p seed proc parent child choices = some proc') :
    proc'.live = proc.live ∧
    CarriesSpace (inheritedSpaceId proc parent child) (proc'.threads child).tstate.threadId ∧
    (∀ i, i ≠ child → (proc'.threads i).tstate.threadId = (proc.threads i).tstate.threadId) ∧
    (∀ i, i ≠ child → (proc.threads i).tstate.threadId = 0 → proc'.threads i = proc.threads i) ∧
    (∀ i ∈ proc.live, i ≠ child →
      (proc'.threads i).tstate.threadId ≠ (proc'.threads child).tstate.threadId) := by
  rw [seedThreadState_eq] at h
  obtain ⟨threadId, hunique, rfl⟩ := Option.map_eq_some_iff.mp h
  obtain ⟨hcarries, hactive⟩ := uniqueThreadIdLoop_spec (composeThreadId_carries _ _) hunique
  have hids : ∀ i, i ≠ child → ((adoptThread p
      (startSeed p seed proc parent child choices.parentAllocates).2 child
      (inheritedSpaceId proc parent child) threadId choices.childAllocates).threads
        i).tstate.threadId = (proc.threads i).tstate.threadId := by
    intro i hi
    rw [adoptThread_threads _ _ _ _ _ _ hi]
    exact (startSeed_threads choices.parentAllocates i).2.threadId
  refine ⟨startSeed_live _, ?_, hids, ?_, ?_⟩
  · rw [adoptThread_threadId]
    exact hcarries
  · intro i hi hzero
    rw [adoptThread_threads _ _ _ _ _ _ hi]
    rcases (startSeed_threads choices.parentAllocates i).1 with hsame | ⟨-, -, hseeded⟩
    · exact hsame
    · exact absurd hzero hseeded
  · intro i hlive hi
    rw [adoptThread_threadId, hids i hi]
    unfold threadIdIsActive at hactive
    simp only [Bool.or_eq_false_iff, startSeed_live, List.any_eq_false] at hactive
    have hother := hactive.2 i hlive
    rw [(startSeed_threads choices.parentAllocates i).2.threadId] at hother
    simpa [hi] using hother

theorem setCurrentSpaceById_single {t : ThreadState} {root : SpaceState} (spaceId : Nat)
    (hspaces : t.spaces = [root]) (hlast : t.lastSpace = 0) (hnext : root.next = 0)
    (hdepth : root.depth = 0) :
    (setCurrentSpaceById p t spaceId true).2 =
      if root.spaceId = spaceId then
        { t with
          currentSpace := 0
          inheritedSpaceId := spaceId
          callOrdinalPtr := some (.root 0) }
      else
        { t with
          spaces := [{ root with next := 1 },
            initializeSpaceState spaceId (spaceRootCoordinateHash p t) 0]
          lastSpace := 1
          currentSpace := 1
          inheritedSpaceId := spaceId
          callOrdinalPtr := some (.root 1) } := by
  have hroot : t.space 0 = root := by simp [ThreadState.space, hspaces]
  have hfind : findThreadSpace t spaceId = if root.spaceId = spaceId then some 0 else none := by
    unfold findThreadSpace
    rw [hspaces, hlast, hroot, hnext, List.length_singleton, findThreadSpaceLoop, hroot, hlast]
    split_ifs <;> rfl
  by_cases hid : root.spaceId = spaceId
  · rw [if_pos hid] at hfind ⊢
    simp only [setCurrentSpaceById, getThreadSpace, hfind, hroot, hdepth, if_true]
  · rw [if_neg hid] at hfind ⊢
    simp only [setCurrentSpaceById, getThreadSpace, hfind, if_true, hlast, hroot, hnext]
    simp [ThreadState.updateSpace, ThreadState.space, hspaces, initializeSpaceState]

/-- A fresh child stands in a fresh state of the space it inherits, whose hash is its id. -/
theorem seedThreadState_start
    (h : seedThreadState p seed proc parent child choices = some proc')
    (hfresh : proc.threads child = freshMachine p child)
    (hallocates : choices.childAllocates = true) :
    (proc'.threads child).tstate.currentSpace < (proc'.threads child).tstate.spaces.length ∧
      (proc'.threads child).tstate.callOrdinalPtr =
        some (.root (proc'.threads child).tstate.currentSpace) ∧
      (proc'.threads child).tstate.space (proc'.threads child).tstate.currentSpace =
        initializeSpaceState (inheritedSpaceId proc parent child)
          (proc'.threads child).tstate.threadId 0 := by
  rw [seedThreadState_eq] at h
  obtain ⟨threadId, hunique, rfl⟩ := Option.map_eq_some_iff.mp h
  obtain ⟨hcarries, -⟩ := uniqueThreadIdLoop_spec (composeThreadId_carries _ _) hunique
  have hchild : (startSeed p seed proc parent child choices.parentAllocates).2.threads child =
      freshMachine p child := by
    rcases (startSeed_threads choices.parentAllocates child).1 with hsame | ⟨hne, -⟩
    · exact hsame.trans hfresh
    · exact absurd rfl hne
  generalize inheritedSpaceId proc parent child = spaceId at hcarries ⊢
  simp only [adoptThread, setThread_threads, if_true, hchild, hallocates]
  have hset := @setCurrentSpaceById_single p
    { (freshMachine p child).tstate.updateSpace 0 (fun root =>
        { root with rootCoordinateHash := threadId }) with
      threadId := threadId
      inheritedSpaceId := spaceId }
    (initializeSpaceState spaceIdRoot threadId 0) spaceId rfl rfl rfl rfl
  have hhash : spaceRootCoordinateHash p
      { (freshMachine p child).tstate.updateSpace 0 (fun root =>
          { root with rootCoordinateHash := threadId }) with
        threadId := threadId
        inheritedSpaceId := spaceId } = threadId := by
    unfold spaceRootCoordinateHash
    simp only [if_neg hcarries.nonzero]
    exact if_neg hcarries.notMax
  rw [hhash] at hset
  simp only [Machine.setTstate, hset]
  by_cases hroot : spaceIdRoot = spaceId
  · have hroot' : (initializeSpaceState spaceIdRoot threadId 0).spaceId = spaceId := hroot
    simp only [if_pos hroot']
    exact ⟨Nat.zero_lt_one, trivial, hroot ▸ rfl⟩
  · have hroot' : ¬(initializeSpaceState spaceIdRoot threadId 0).spaceId = spaceId := hroot
    simp only [if_neg hroot']
    exact ⟨Nat.one_lt_two, trivial, rfl⟩

end seed

section lives
variable {p : Platform} {seed : List Nat} {lives lives' : Lives}

/-- What holds of the threads at every point of their lives. -/
structure LivesOk (p : Platform) (lives : Lives) : Prop where
  nodup : lives.proc.live.Nodup
  unseeded : ∀ i ∈ lives.proc.live, lives.inherited i = none → lives.cleared i = false →
    lives.proc.threads i = freshMachine p i
  carries : ∀ i ∈ lives.proc.live, ∀ s, lives.inherited i = some s →
    CarriesSpace s (lives.threadId i)
  distinct : ∀ i ∈ lives.proc.live, ∀ j ∈ lives.proc.live, (lives.inherited i).isSome →
    (lives.inherited j).isSome → lives.threadId i = lives.threadId j → i = j

theorem LivesOk.keep (h : LivesOk p lives) (hlive : lives'.proc.live = lives.proc.live)
    (hinherited : lives'.inherited = lives.inherited)
    (hids : ∀ i, lives'.threadId i = lives.threadId i)
    (hunseeded : ∀ i ∈ lives.proc.live, lives.inherited i = none → lives'.cleared i = false →
      lives'.proc.threads i = freshMachine p i) : LivesOk p lives' := by
  refine ⟨hlive ▸ h.nodup, ?_, ?_, ?_⟩
  · intro i hi hnone hcleared
    rw [hlive] at hi
    rw [hinherited] at hnone
    exact hunseeded i hi hnone hcleared
  · intro i hi s hs
    rw [hlive] at hi
    rw [hinherited] at hs
    rw [hids]
    exact h.carries i hi s hs
  · intro i hi j hj hsi hsj heq
    rw [hlive] at hi hj
    rw [hinherited] at hsi hsj
    rw [hids, hids] at heq
    exact h.distinct i hi j hj hsi hsj heq

theorem noThreads_ok : LivesOk p (noThreads p) where
  nodup := List.nodup_nil
  unseeded _ hi := absurd hi List.not_mem_nil
  carries _ hi := absurd hi List.not_mem_nil
  distinct _ hi := absurd hi List.not_mem_nil

theorem running_spec {i : Nat} (h : lives.running i = true) :
    i ∈ lives.proc.live ∧ (lives.inherited i).isSome ∧ lives.cleared i = false := by
  unfold Lives.running at h
  simpa [and_assoc] using h

theorem setThread_threadId (lives : Lives) (i j : Nat) (m : Machine)
    (h : m.tstate.threadId = lives.threadId i) : (lives.setThread i m).threadId j =
      lives.threadId j := by
  unfold Lives.threadId Lives.setThread
  rw [setThread_threads]
  split
  · next hji => rw [h, hji]; rfl
  · rfl

theorem LivesOk.setThread (h : LivesOk p lives) {i : Nat} {m : Machine}
    (hseeded : (lives.inherited i).isSome) (hid : m.tstate.threadId = lives.threadId i) :
    LivesOk p (lives.setThread i m) := by
  refine h.keep rfl rfl (fun j => setThread_threadId lives i j m hid) ?_
  intro j hj hnone hcleared
  have hji : j ≠ i := fun heq => by simp [← heq, hnone] at hseeded
  exact (setThread_threads _ _ _ _).trans ((if_neg hji).trans (h.unseeded j hj hnone hcleared))

theorem LivesOk.initializeThread (h : LivesOk p lives) {i : Nat} (hi : i ∉ lives.proc.live)
    (hstep : lifeStep p seed lives (.initializeThread i) = some lives') : LivesOk p lives' := by
  simp only [lifeStep, if_neg hi, Option.some.injEq] at hstep
  subst hstep
  have hold : ∀ j, j ∈ i :: lives.proc.live → j ≠ i → j ∈ lives.proc.live :=
    fun j hj hji => (List.mem_cons.mp hj).resolve_left hji
  have hnone : ∀ j, (Function.update lives.inherited i none j).isSome → j ≠ i := by
    intro j hj hji
    simp [hji] at hj
  have hid : ∀ j, j ≠ i → (lives.proc.setThread i (freshMachine p i)).threads j =
      lives.proc.threads j := fun j hji => (setThread_threads _ _ _ _).trans (if_neg hji)
  refine ⟨List.nodup_cons.mpr ⟨hi, h.nodup⟩, ?_, ?_, ?_⟩
  · intro j hj hnone hcleared
    by_cases hji : j = i
    · subst hji
      exact (setThread_threads _ _ _ _).trans (if_pos rfl)
    · simp only [Function.update_of_ne hji] at hnone hcleared
      exact (hid j hji).trans (h.unseeded j (hold j hj hji) hnone hcleared)
  · intro j hj s hs
    change Function.update lives.inherited i none j = some s at hs
    have hji := hnone j (by rw [hs]; rfl)
    rw [Function.update_of_ne hji] at hs
    change CarriesSpace s
      ((lives.proc.setThread i (freshMachine p i)).threads j).tstate.threadId
    rw [hid j hji]
    exact h.carries j (hold j hj hji) s hs
  · intro j hj k hk hsj hsk heq
    have hji := hnone j hsj
    have hki := hnone k hsk
    simp only [Function.update_of_ne hji, Function.update_of_ne hki] at hsj hsk
    refine h.distinct j (hold j hj hji) k (hold k hk hki) hsj hsk ?_
    change ((lives.proc.setThread i (freshMachine p i)).threads j).tstate.threadId =
      ((lives.proc.setThread i (freshMachine p i)).threads k).tstate.threadId at heq
    rwa [hid j hji, hid k hki] at heq

theorem LivesOk.seedThread (h : LivesOk p lives) {parent : Option Nat} {child : Nat}
    {choices : StartChoices} {proc : Process} (hchild : child ∈ lives.proc.live)
    (hseed : seedThreadState p seed lives.proc parent child choices = some proc) :
    LivesOk p { lives with
      proc := proc
      inherited := Function.update lives.inherited child
        (some (inheritedSpaceId lives.proc parent child)) } := by
  obtain ⟨hlive, hcarries, hids, hunseeded, hother⟩ := seedThreadState_ids hseed
  refine ⟨?_, ?_, ?_, ?_⟩
  · simp only [hlive]
    exact h.nodup
  · intro i hi hnone hcleared
    simp only [hlive] at hi
    have hic : i ≠ child := fun heq => by simp [heq] at hnone
    simp only [Function.update_of_ne hic] at hnone
    have hfresh := h.unseeded i hi hnone hcleared
    exact (hunseeded i hic (by rw [hfresh]; rfl)).trans hfresh
  · intro i hi s hs
    simp only [hlive] at hi
    unfold Lives.threadId
    by_cases hic : i = child
    · subst hic
      simp only [Function.update_self, Option.some.injEq] at hs
      exact hs ▸ hcarries
    · simp only [Function.update_of_ne hic] at hs
      simp only [hids i hic]
      exact h.carries i hi s hs
  · intro i hi j hj hsi hsj heq
    simp only [hlive] at hi hj
    unfold Lives.threadId at heq
    by_cases hic : i = child
    · by_cases hjc : j = child
      · rw [hic, hjc]
      · exact absurd (hic ▸ heq.symm) (hother j hj hjc)
    · by_cases hjc : j = child
      · exact absurd (hjc ▸ heq) (hother i hi hic)
      · simp only [Function.update_of_ne hic, Function.update_of_ne hjc] at hsi hsj
        simp only [hids i hic, hids j hjc] at heq
        exact h.distinct i hi j hj hsi hsj heq

theorem LivesOk.step (h : LivesOk p lives) {event : LifeEvent}
    (hstep : lifeStep p seed lives event = some lives') : LivesOk p lives' := by
  cases event with
  | initializeThread i =>
    refine h.initializeThread (fun hi => ?_) hstep
    simp [lifeStep, hi] at hstep
  | seedThread parent child choices =>
    simp only [lifeStep] at hstep
    split at hstep
    · next hchild =>
      obtain ⟨proc, hseed, rfl⟩ := Option.map_eq_some_iff.mp hstep
      exact h.seedThread hchild.1 hseed
    · exact absurd hstep (by simp)
  | run i event =>
    simp only [lifeStep] at hstep
    split at hstep
    · next hrunning =>
      obtain ⟨m, hm, rfl⟩ := Option.map_eq_some_iff.mp hstep
      exact h.setThread (running_spec hrunning).2.1 (threadStep_sameThread hm).threadId
    · exact absurd hstep (by simp)
  | handOver i j g =>
    simp only [lifeStep] at hstep
    split at hstep
    · next hrunning =>
      simp only [Option.some.injEq] at hstep
      subst hstep
      exact h.setThread (running_spec hrunning.2.1).2.1 rfl
    · exact absurd hstep (by simp)
  | clear i =>
    simp only [lifeStep] at hstep
    split at hstep
    · simp only [Option.some.injEq] at hstep
      subst hstep
      refine h.keep rfl rfl (fun j => setThread_threadId lives i j _ rfl) ?_
      intro j hj hnone hcleared
      have hji : j ≠ i := fun heq => by simp [heq] at hcleared
      simp only [Function.update_of_ne hji] at hcleared
      exact (setThread_threads _ _ _ _).trans ((if_neg hji).trans (h.unseeded j hj hnone hcleared))
    · exact absurd hstep (by simp)
  | delete i =>
    simp only [lifeStep] at hstep
    split at hstep
    · simp only [Option.some.injEq] at hstep
      subst hstep
      have hold : ∀ j ∈ lives.proc.live.erase i, j ∈ lives.proc.live :=
        fun j hj => List.mem_of_mem_erase hj
      exact ⟨h.nodup.erase i, fun j hj => h.unseeded j (hold j hj),
        fun j hj => h.carries j (hold j hj),
        fun j hj k hk => h.distinct j (hold j hj) k (hold k hk)⟩
    · exact absurd hstep (by simp)

theorem lifeRun_cons (event : LifeEvent) (events : List LifeEvent) (lives : Lives) :
    lifeRun p seed (event :: events) lives =
      (lifeStep p seed lives event).bind (lifeRun p seed events) := rfl

theorem LivesOk.run {events : List LifeEvent} (h : LivesOk p lives)
    (hrun : lifeRun p seed events lives = some lives') : LivesOk p lives' := by
  induction events generalizing lives with
  | nil =>
    simp only [lifeRun, List.foldlM_nil, Option.pure_def, Option.some.injEq] at hrun
    exact hrun ▸ h
  | cons event events ih =>
    rw [lifeRun_cons] at hrun
    obtain ⟨between, hstep, hrest⟩ := Option.bind_eq_some_iff.mp hrun
    exact ih (h.step hstep) hrest

theorem lifeStep_keeps {event : LifeEvent} {i : Nat}
    (hstep : lifeStep p seed lives event = some lives') (hi : i ∈ lives.proc.live)
    (hseeded : (lives.inherited i).isSome) (hdelete : event ≠ .delete i) :
    i ∈ lives'.proc.live ∧ lives'.inherited i = lives.inherited i ∧
      lives'.threadId i = lives.threadId i := by
  have hkeep : ∀ j m, m.tstate.threadId = lives.threadId j →
      (lives.setThread j m).threadId i = lives.threadId i :=
    fun j m hm => setThread_threadId lives j i m hm
  cases event with
  | initializeThread j =>
    simp only [lifeStep] at hstep
    split at hstep
    · exact absurd hstep (by simp)
    · next hj =>
      have hij : i ≠ j := fun heq => hj (heq ▸ hi)
      simp only [Option.some.injEq] at hstep
      subst hstep
      refine ⟨List.mem_cons_of_mem _ hi, Function.update_of_ne hij _ _, ?_⟩
      change ((lives.proc.setThread j (freshMachine p j)).threads i).tstate.threadId = _
      rw [setThread_threads, if_neg hij]
      rfl
  | seedThread parent child choices =>
    simp only [lifeStep] at hstep
    split at hstep
    · next hchild =>
      have hic : i ≠ child := fun heq => by simp [heq, hchild.2.1] at hseeded
      obtain ⟨proc, hseed, rfl⟩ := Option.map_eq_some_iff.mp hstep
      obtain ⟨hlive, -, hids, -⟩ := seedThreadState_ids hseed
      exact ⟨hlive ▸ hi, Function.update_of_ne hic _ _, hids i hic⟩
    · exact absurd hstep (by simp)
  | run j event =>
    simp only [lifeStep] at hstep
    split at hstep
    · obtain ⟨m, hm, rfl⟩ := Option.map_eq_some_iff.mp hstep
      exact ⟨hi, rfl, hkeep j m (threadStep_sameThread hm).threadId⟩
    · exact absurd hstep (by simp)
  | handOver j k g =>
    simp only [lifeStep] at hstep
    split at hstep
    · simp only [Option.some.injEq] at hstep
      subst hstep
      exact ⟨hi, rfl, hkeep k _ rfl⟩
    · exact absurd hstep (by simp)
  | clear j =>
    simp only [lifeStep] at hstep
    split at hstep
    · simp only [Option.some.injEq] at hstep
      subst hstep
      exact ⟨hi, rfl, hkeep j _ rfl⟩
    · exact absurd hstep (by simp)
  | delete j =>
    simp only [lifeStep] at hstep
    split at hstep
    · have hij : i ≠ j := fun heq => hdelete (by rw [heq])
      simp only [Option.some.injEq] at hstep
      subst hstep
      exact ⟨(List.mem_erase_of_ne hij).mpr hi, rfl, rfl⟩
    · exact absurd hstep (by simp)

theorem lifeRun_keeps {events : List LifeEvent} {i : Nat}
    (hrun : lifeRun p seed events lives = some lives') (hi : i ∈ lives.proc.live)
    (hseeded : (lives.inherited i).isSome) (hdelete : .delete i ∉ events) :
    i ∈ lives'.proc.live ∧ lives'.inherited i = lives.inherited i ∧
      lives'.threadId i = lives.threadId i := by
  induction events generalizing lives with
  | nil =>
    simp only [lifeRun, List.foldlM_nil, Option.pure_def, Option.some.injEq] at hrun
    exact hrun ▸ ⟨hi, rfl, rfl⟩
  | cons event events ih =>
    rw [lifeRun_cons] at hrun
    obtain ⟨between, hstep, hrest⟩ := Option.bind_eq_some_iff.mp hrun
    rw [List.mem_cons, not_or] at hdelete
    obtain ⟨hlive, hinherited, hid⟩ := lifeStep_keeps hstep hi hseeded (Ne.symm hdelete.1)
    obtain ⟨hlive', hinherited', hid'⟩ :=
      ih hrest hlive (hinherited ▸ hseeded) hdelete.2
    exact ⟨hlive', hinherited'.trans hinherited, hid'.trans hid⟩

/-- The ids of the threads on the list, which say where each thread was created; that they stay;
and where a thread starts. -/
theorem threadIds_unique {events : List LifeEvent}
    (hrun : lifeRun p seed events (noThreads p) = some lives) :
    (∀ i ∈ lives.proc.live, ∀ s, lives.inherited i = some s →
      CarriesSpace s (lives.threadId i)) ∧
    (∀ i ∈ lives.proc.live, ∀ j ∈ lives.proc.live, (lives.inherited i).isSome →
      (lives.inherited j).isSome → lives.threadId i = lives.threadId j → i = j) ∧
    (∀ later lives' i, lifeRun p seed later lives = some lives' → i ∈ lives.proc.live →
      (lives.inherited i).isSome → .delete i ∉ later →
      i ∈ lives'.proc.live ∧ lives'.inherited i = lives.inherited i ∧
        lives'.threadId i = lives.threadId i) ∧
    (∀ parent child choices lives', choices.childAllocates = true →
      lifeStep p seed lives (.seedThread parent child choices) = some lives' →
      lives'.inherited child = some (inheritedSpaceId lives.proc parent child) ∧
      (lives'.proc.threads child).tstate.currentSpace <
        (lives'.proc.threads child).tstate.spaces.length ∧
      (lives'.proc.threads child).tstate.callOrdinalPtr =
        some (.root (lives'.proc.threads child).tstate.currentSpace) ∧
      (lives'.proc.threads child).tstate.space (lives'.proc.threads child).tstate.currentSpace =
        initializeSpaceState (inheritedSpaceId lives.proc parent child)
          (lives'.threadId child) 0) := by
  have hok := noThreads_ok.run hrun
  refine ⟨hok.carries, hok.distinct, fun later lives' i => lifeRun_keeps, ?_⟩
  intro parent child choices lives' hallocates hstep
  simp only [lifeStep] at hstep
  split at hstep
  · next hchild =>
    obtain ⟨proc, hseed, rfl⟩ := Option.map_eq_some_iff.mp hstep
    have hfresh := hok.unseeded child hchild.1 hchild.2.1 hchild.2.2.1
    exact ⟨Function.update_self _ _ _, seedThreadState_start hseed hfresh hallocates⟩
  · exact absurd hstep (by simp)

/-- From the space 65535 the first thread starts a second, which is cleared but stays on the
list, and a third at the same place. -/
def startsFromAllOnes : List LifeEvent := [
  .initializeThread 0, .seedThread none 0 ⟨1, true, true⟩, .run 0 (.enterSpace 0 65535 true),
  .initializeThread 1, .seedThread (some 0) 1 ⟨1, true, true⟩, .clear 1,
  .initializeThread 2]

theorem threadIds_unique_allOnes :
    ∃ lives lives', lifeRun ⟨true, true⟩ defaultRootSeed startsFromAllOnes
        (noThreads ⟨true, true⟩) = some lives ∧
      lifeStep ⟨true, true⟩ defaultRootSeed lives (.seedThread (some 0) 2 ⟨2, true, true⟩) =
        some lives' ∧
      lives.threadId 1 ≠ lives.threadId 0 ∧ CarriesSpace 65535 (lives.threadId 1) ∧
      lives'.threadId 1 = lives.threadId 1 ∧
      (lives'.proc.threads 2).tstate.space (lives'.proc.threads 2).tstate.currentSpace =
        initializeSpaceState 65535 (lives'.threadId 2) 0 := by
  obtain ⟨lives, lives', hrun, hstep⟩ : ∃ lives lives',
      lifeRun ⟨true, true⟩ defaultRootSeed startsFromAllOnes (noThreads ⟨true, true⟩) =
        some lives ∧
      lifeStep ⟨true, true⟩ defaultRootSeed lives (.seedThread (some 0) 2 ⟨2, true, true⟩) =
        some lives' := ⟨_, _, rfl, rfl⟩
  obtain ⟨hcarries, hdistinct, hkeeps, hstarts⟩ := threadIds_unique hrun
  obtain ⟨hlive, hinherited, hspace⟩ : lives.proc.live = [2, 1, 0] ∧
      lives.inherited = Function.update (Function.update (Function.update (Function.update
        (Function.update (fun _ => none) 0 none) 0 (some 0)) 1 none) 1 (some 65535)) 2 none ∧
      inheritedSpaceId lives.proc (some 0) 2 = 65535 := by
    cases hrun
    exact ⟨rfl, rfl, rfl⟩
  have hstep' : lifeRun ⟨true, true⟩ defaultRootSeed [.seedThread (some 0) 2 ⟨2, true, true⟩] lives =
      some lives' := by
    rw [lifeRun_cons, hstep]
    rfl
  refine ⟨lives, lives', hrun, hstep, ?_, ?_, ?_, ?_⟩
  · intro heq
    have h10 := hdistinct 1 (by simp [hlive]) 0 (by simp [hlive]) (by simp [hinherited])
      (by simp [hinherited]) heq
    exact absurd h10 (by decide)
  · exact hcarries 1 (by simp [hlive]) 65535 (by simp [hinherited])
  · exact (hkeeps _ lives' 1 hstep' (by simp [hlive]) (by simp [hinherited]) (by simp)).2.2
  · exact hspace ▸ (hstarts (some 0) 2 _ lives' rfl hstep).2.2.2

end lives

end Retrace
