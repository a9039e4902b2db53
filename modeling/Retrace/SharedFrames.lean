import Retrace.DeltaDecodes
import Retrace.FreshCoordinates
import Retrace.StepRun

/-!
The frames of all threads in one memory: a suspended generator may be resumed by another thread,
and a thread may get the address of one that has ended.
-/

set_option autoImplicit false

namespace Retrace

namespace Machine

/-- The machine with other frames in the place of those that it does not own. -/
def patched (own : Nat → Bool) (other : Nat → InterpreterFrame) (m : Machine) : Machine :=
  { m with frames := fun f => if own f then m.frames f else other f }

end Machine

/-- The frame that an event names, if it does not find it on the stack. -/
def ThreadEvent.names : ThreadEvent → Option Nat
  | .call f _ _ _ => some f
  | .resume f _ _ => some f
  | .newGenerator g _ => some g
  | .leaveInactive f => some f
  | _ => none

/-- What the machine reaches from its stack and from its active frames. -/
structure Reaches (own : Nat → Bool) (m : Machine) : Prop where
  stack : ∀ f, .frame f ∈ m.tstate.stack → own f = true
  previous : ∀ f g, own f = true → (m.frames f).space ≠ none →
    (m.frames f).previousCallOrdinalPtr = some (.frame g) → own g = true

/-- All threads. They are numbered in the order of their starts, and `live` have not ended. -/
structure SharedState where
  started : Nat
  live : List Nat
  tstates : Nat → ThreadState
  scopes : Nat → Nat → SpaceScope
  frames : Nat → InterpreterFrame

namespace SharedState

def initial (p : Platform) : SharedState where
  started := 0
  live := []
  tstates _ := initializeThreadState p 0
  scopes _ := (freshMachine p 0).scopes
  frames := (freshMachine p 0).frames

/-- The memory as one thread finds it. -/
def thread (s : SharedState) (t : Nat) : Machine := ⟨s.tstates t, s.frames, s.scopes t⟩

def put (s : SharedState) (t : Nat) (m : Machine) : SharedState :=
  { s with
    tstates := Function.update s.tstates t m.tstate
    scopes := Function.update s.scopes t m.scopes
    frames := m.frames }

def add (s : SharedState) (tstate : ThreadState) : SharedState :=
  { s with
    started := s.started + 1
    live := s.started :: s.live
    tstates := Function.update s.tstates s.started tstate }

def drop (s : SharedState) (t : Nat) : SharedState :=
  { s with live := s.live.filter (fun u => u ≠ t) }

/-- The frame runs, or waits for a call of its own, on another thread. -/
def elsewhere (s : SharedState) (t f : Nat) : Bool :=
  s.live.any (fun u => u ≠ t && decide (.frame f ∈ (s.tstates u).stack))

end SharedState

/-- A thread starts with the address of one that has ended, or a new one, and with an id that no
live thread has. It ends outside its frames. -/
inductive SharedEvent where
  | start (address inherited threadId : Nat)
  | run (t : Nat) (event : ThreadEvent)
  | finish (t : Nat)
  deriving DecidableEq, Repr

def deltasOf (m : Machine) : ThreadEvent → List (Nat × DeltaResult)
  | .threadDelta spaceId allocates tupleAllocates =>
    [(spaceId, (threadDeltaForTstate m spaceId allocates tupleAllocates).1)]
  | _ => []

/-- A generator that runs cannot be resumed or thrown away, and its frame is not free. -/
def sharedStep (p : Platform) (s : SharedState) :
    SharedEvent → Option (SharedState × List (Nat × Nat × DeltaResult))
  | .start address inherited threadId =>
    if threadId = 0 ∨ ∃ u ∈ s.live, (s.tstates u).address = address ∨
      (s.tstates u).threadId = threadId then none
    else some (s.add (startThread p address inherited threadId).tstate, [])
  | .run t event =>
    if t ∈ s.live ∧ event.names.all (fun f => !s.elsewhere t f) then
      (threadStep p (s.thread t) event).map (fun m =>
        (s.put t m, (deltasOf (s.thread t) event).map (fun delta => (t, delta))))
    else none
  | .finish t =>
    if t ∈ s.live ∧ (s.tstates t).stack = [] then some (s.drop t, []) else none

/-- What a thread would find if the others had none of their frames active. -/
def SharedState.view (s : SharedState) (t : Nat) : Machine :=
  (s.thread t).patched (fun f => !s.elsewhere t f) (fun f => { s.frames f with space := none })

/-- Two machines of one thread between which the other threads have run. -/
structure Disturbed (m m' : Machine) : Prop where
  tstate : m'.tstate = m.tstate
  scopes : m'.scopes = m.scopes
  frame : ∀ f, .frame f ∈ m.tstate.stack → m'.frames f = m.frames f
  off : ∀ f, .frame f ∉ m.tstate.stack → (m'.frames f).space = none

/-- All that a program can read of the thread's positions. -/
structure SamePositions (p : Platform) (m m' : Machine) : Prop where
  coordinates : ∀ spaceId drop, coordinates m' spaceId drop = coordinates m spaceId drop
  hash : ∀ spaceId, coordinateHash p m' spaceId = coordinateHash p m spaceId
  delta : ∀ spaceId allocates tupleAllocates,
    (threadDeltaForTstate m' spaceId allocates tupleAllocates).1 =
      (threadDeltaForTstate m spaceId allocates tupleAllocates).1

/-- The pointer is to a space of the thread, or to a frame or scope of these items. -/
def Held (t : ThreadState) (items : List StackItem) : Option OrdinalPtr → Prop
  | none => False
  | some (.root n) => n < t.spaces.length
  | some (.frame f) => .frame f ∈ items
  | some (.scope k) => k ∈ scopeIds items

namespace SharedState

/-- No frame is on two stacks, and a frame on none is active nowhere. -/
structure Apart (s : SharedState) : Prop where
  apart : ∀ t ∈ s.live, ∀ u ∈ s.live, t ≠ u → ∀ f, .frame f ∈ (s.tstates t).stack →
    .frame f ∉ (s.tstates u).stack
  idle : ∀ f, (∀ t ∈ s.live, .frame f ∉ (s.tstates t).stack) → (s.frames f).space = none

structure Sound (s : SharedState) : Prop extends Apart s where
  known : ∀ t ∈ s.live, t < s.started
  standing : ∀ t ∈ s.live, ∃ l, Standing (s.view t) l

/-- The spaces that a thread's frames are in, and the slots that it counts on, are its own. The
frames that it can name are active in spaces of its own, or nowhere. -/
structure Owned (s : SharedState) (t : Nat) : Prop where
  space : ∀ f, .frame f ∈ (s.tstates t).stack → ∃ n < (s.tstates t).spaces.length,
    (s.frames f).space = some ⟨(s.tstates t).address, n⟩
  depth : ∀ n < (s.tstates t).spaces.length, ((s.tstates t).space n).depth =
    activeFrames (s.thread t) n (s.thread t).chain
  slot : Held (s.tstates t) (s.tstates t).stack (s.tstates t).callOrdinalPtr
  frameSlot : ∀ f, .frame f ∈ (s.tstates t).stack →
    Held (s.tstates t) (s.tstates t).stack (s.frames f).previousCallOrdinalPtr
  scopeSlot : ∀ k ∈ scopeIds (s.tstates t).stack,
    Held (s.tstates t) (s.tstates t).stack (s.scopes t k).previousCallOrdinalPtr
  named : ∀ f space, s.elsewhere t f = false → (s.frames f).space = some space →
    threadOwnsSpace (s.tstates t) space = true

end SharedState

/-- The thread takes this step, or ends in it. -/
def SharedEvent.isOf (u : Nat) : SharedEvent → Bool
  | .start _ _ _ => false
  | .run t _ => t == u
  | .finish t => t == u

section patched
variable {p : Platform} {m : Machine} {own : Nat → Bool} {other : Nat → InterpreterFrame}
  {f : Nat}

theorem patched_frames (hf : own f = true) :
    (m.patched own other).frames f = m.frames f := if_pos hf

theorem patched_setFrame (hf : own f = true) (frame : InterpreterFrame) :
    (m.patched own other).setFrame f frame = (m.setFrame f frame).patched own other := by
  unfold Machine.setFrame Machine.patched
  congr 1
  funext g
  by_cases hg : g = f
  · subst hg
    simp [hf]
  · simp [Function.update_of_ne hg]

theorem patched_incrementOrdinal {ptr : OrdinalPtr} (hptr : ∀ g, ptr = .frame g → own g = true) :
    (m.patched own other).incrementOrdinal ptr = (m.incrementOrdinal ptr).patched own other := by
  cases ptr with
  | frame g =>
    have hframe : (m.patched own other).frames g = m.frames g := patched_frames (hptr g rfl)
    simp only [Machine.incrementOrdinal, hframe]
    exact patched_setFrame (hptr g rfl) _
  | root node => rfl
  | scope k => rfl

@[simp] theorem patched_tstate : (m.patched own other).tstate = m.tstate := rfl

@[simp] theorem patched_scopes : (m.patched own other).scopes = m.scopes := rfl

@[simp] theorem patched_chain : (m.patched own other).chain = m.chain := rfl

@[simp] theorem patched_spacePtr (node : Nat) :
    (m.patched own other).spacePtr node = m.spacePtr node := rfl

@[simp] theorem patched_setTstate (tstate : ThreadState) :
    (m.patched own other).setTstate tstate = (m.setTstate tstate).patched own other := rfl

@[simp] theorem patched_setPtr (ptr : Option OrdinalPtr) :
    (m.patched own other).setPtr ptr = (m.setPtr ptr).patched own other := rfl

@[simp] theorem patched_setStack (stack : List StackItem) :
    (m.patched own other).setStack stack = (m.setStack stack).patched own other := rfl

@[simp] theorem patched_setScope (k : Nat) (scope : SpaceScope) :
    (m.patched own other).setScope k scope = (m.setScope k scope).patched own other := rfl

@[simp] theorem patched_push (item : StackItem) :
    (m.patched own other).push item = (m.push item).patched own other := rfl

@[simp] theorem patched_updateSpace (node : Nat) (change : SpaceState → SpaceState) :
    (m.patched own other).updateSpace node change =
      (m.updateSpace node change).patched own other := rfl

@[simp] theorem patched_ite (c : Prop) [Decidable c] (m m' : Machine) :
    (if c then m.patched own other else m'.patched own other) =
      (if c then m else m').patched own other := by
  split <;> rfl

theorem patched_activateFrame (hf : own f = true) (allocates : Bool) :
    activateFrame p (m.patched own other) f allocates =
      (activateFrame p m f allocates).patched own other := by
  unfold activateFrame
  simp only [patched_tstate, patched_frames hf, patched_setFrame hf, patched_ite]
  generalize (if (m.frames f).space.isSome = true then m.setFrame f (frameStateInit (m.frames f))
    else m) = init
  obtain ⟨node, tstate⟩ := currentSpace p init.tstate allocates
  cases node with
  | none => simp only [patched_setTstate, patched_ite]
  | some node =>
    simp only [patched_setTstate, patched_frames hf, patched_spacePtr, patched_setFrame hf,
      patched_setPtr, patched_updateSpace, patched_ite]

theorem patched_deactivateFrame (hf : own f = true) (h : Reaches own m) :
    deactivateFrame (m.patched own other) f = (deactivateFrame m f).patched own other := by
  unfold deactivateFrame
  rw [patched_frames hf]
  cases hspace : (m.frames f).space with
  | none => rfl
  | some space =>
    have hpopped : ∀ ptr, (if (m.patched own other).tstate.callOrdinalPtr = some (.frame f) then
        (m.patched own other).setPtr ptr else m.patched own other) =
        (if m.tstate.callOrdinalPtr = some (.frame f) then m.setPtr ptr
          else m).patched own other := by
      intro ptr
      exact (apply_ite (Machine.patched own other) (m.tstate.callOrdinalPtr = some (.frame f))
        (m.setPtr ptr) m).symm
    have hrooted : ∀ m : Machine, (if (m.patched own other).tstate.callOrdinalPtr = none then
        (m.patched own other).setPtr (some (.root (m.patched own other).tstate.currentSpace))
          else m.patched own other) =
        (if m.tstate.callOrdinalPtr = none then m.setPtr (some (.root m.tstate.currentSpace))
          else m).patched own other := by
      intro m
      exact (apply_ite (Machine.patched own other) (m.tstate.callOrdinalPtr = none)
        (m.setPtr (some (.root m.tstate.currentSpace))) m).symm
    simp only [hpopped, patched_setFrame hf]
    conv_rhs => rw [apply_ite (Machine.patched own other)]
    congr 1
    generalize (if m.tstate.callOrdinalPtr = some (.frame f) then
      m.setPtr (m.frames f).previousCallOrdinalPtr else m) = popped
    cases hprevious : (m.frames f).previousCallOrdinalPtr with
    | none => simp only [patched_updateSpace, patched_frames hf, patched_setFrame hf, hrooted]
    | some ptr =>
      have hcounted := @patched_incrementOrdinal popped own other ptr
        (fun g hg => h.previous f g hf (by simp [hspace]) (by rw [hprevious, hg]))
      simp only [hcounted, patched_updateSpace, patched_frames hf, patched_setFrame hf, hrooted]

/-- The frames keep their pointers or become inactive. -/
structure LetsGo (m m' : Machine) : Prop where
  stack : m'.tstate.stack = m.tstate.stack
  frame : ∀ g, (m'.frames g).space = none ∨ (m'.frames g).space = (m.frames g).space ∧
    (m'.frames g).previousCallOrdinalPtr = (m.frames g).previousCallOrdinalPtr

theorem LetsGo.trans {m₁ m₂ : Machine} (h : LetsGo m m₁) (h' : LetsGo m₁ m₂) : LetsGo m m₂ := by
  refine ⟨h'.stack.trans h.stack, ?_⟩
  intro g
  obtain hoff | ⟨hspace, hprevious⟩ := h'.frame g
  · exact Or.inl hoff
  · rw [hspace, hprevious]
    exact h.frame g

theorem letsGo_of_frames {m' : Machine} (hstack : m'.tstate.stack = m.tstate.stack)
    (hframes : m'.frames = m.frames) : LetsGo m m' :=
  ⟨hstack, fun g => Or.inr (by rw [hframes]; exact ⟨rfl, rfl⟩)⟩

theorem letsGo_setFrame {frame : InterpreterFrame} (hoff : frame.space = none) :
    LetsGo m (m.setFrame f frame) := by
  refine ⟨rfl, ?_⟩
  intro g
  rw [setFrame_frames]
  split
  · exact Or.inl hoff
  · exact Or.inr ⟨rfl, rfl⟩

theorem letsGo_incrementOrdinal (ptr : OrdinalPtr) : LetsGo m (m.incrementOrdinal ptr) := by
  refine ⟨by cases ptr <;> rfl, fun g => Or.inr ?_⟩
  rw [incrementOrdinal_frames]
  split <;> exact ⟨rfl, rfl⟩

theorem letsGo_updateSpace (node : Nat) (change : SpaceState → SpaceState) :
    LetsGo m (m.updateSpace node change) := letsGo_of_frames rfl rfl

theorem letsGo_deactivateFrame (m : Machine) (f : Nat) : LetsGo m (deactivateFrame m f) := by
  unfold deactivateFrame
  cases hspace : (m.frames f).space with
  | none => exact letsGo_of_frames rfl rfl
  | some space =>
    dsimp only
    split
    · exact letsGo_setFrame rfl
    · have hpopped : LetsGo m (if m.tstate.callOrdinalPtr = some (.frame f) then
          m.setPtr (m.frames f).previousCallOrdinalPtr else m) := by
        split <;> exact letsGo_of_frames rfl rfl
      generalize (if m.tstate.callOrdinalPtr = some (.frame f) then
        m.setPtr (m.frames f).previousCallOrdinalPtr else m) = popped at hpopped
      have hleft : ∀ counted, LetsGo m counted → LetsGo m
          ((counted.updateSpace space.node (fun space => { space with
            depth := if space.depth > 0 then space.depth - 1 else space.depth })).setFrame f
              { (counted.updateSpace space.node (fun space => { space with
                depth := if space.depth > 0 then space.depth - 1 else space.depth })).frames f with
                space := none, previousCallOrdinalPtr := none, currentCallOrdinal := 0 }) :=
        fun counted hcounted => (hcounted.trans (letsGo_updateSpace space.node _)).trans
          (letsGo_setFrame rfl)
      have hrooted : ∀ left, LetsGo m left → LetsGo m (if left.tstate.callOrdinalPtr = none then
          left.setPtr (some (.root left.tstate.currentSpace)) else left) := by
        intro left hleft
        split
        · exact hleft.trans (letsGo_of_frames rfl rfl)
        · exact hleft
      cases (m.frames f).previousCallOrdinalPtr with
      | none => exact hrooted _ (hleft popped hpopped)
      | some ptr => exact hrooted _ (hleft _ (hpopped.trans (letsGo_incrementOrdinal ptr)))

theorem Reaches.letsGo {m' : Machine} (h : Reaches own m) (hgo : LetsGo m m') :
    Reaches own m' := by
  refine ⟨fun g hg => h.stack g (hgo.stack ▸ hg), ?_⟩
  intro g g' hg hactive hprevious
  obtain hoff | ⟨hspace, hsame⟩ := hgo.frame g
  · exact absurd hoff hactive
  · exact h.previous g g' hg (hspace ▸ hactive) (hsame ▸ hprevious)

theorem patched_deactivateTimes (hf : own f = true) (h : Reaches own m) (n : Nat) :
    deactivateTimes (m.patched own other) f n = (deactivateTimes m f n).patched own other := by
  induction n generalizing m with
  | zero => rfl
  | succ n ih =>
    rw [deactivateTimes, deactivateTimes, patched_deactivateFrame hf h]
    exact ih (h.letsGo (letsGo_deactivateFrame m f))

theorem patched_visibleIn (hf : own f = true) (space : SpacePtr) :
    (m.patched own other).visibleIn space f = m.visibleIn space f := by
  unfold Machine.visibleIn
  rw [patched_frames hf]

theorem patched_nearestVisibleFrameInSpace {chain : List Nat} (h : ∀ f ∈ chain, own f = true)
    (space : SpacePtr) : nearestVisibleFrameInSpace (m.patched own other) space chain =
      nearestVisibleFrameInSpace m space chain := by
  unfold nearestVisibleFrameInSpace
  induction chain with
  | nil => rfl
  | cons f rest ih =>
    rw [List.find?_cons, List.find?_cons, patched_visibleIn (h f List.mem_cons_self),
      ih (fun g hg => h g (List.mem_cons_of_mem _ hg))]

theorem owned_walk (h : ∀ f, .frame f ∈ m.tstate.stack → own f = true) {chain : List Nat}
    (hchain : chain = m.chain ∨ chain = m.callbackChain) : ∀ f ∈ chain, own f = true := by
  intro f hf
  apply h
  rw [← mem_frameChain]
  obtain rfl | rfl := hchain
  · exact hf
  · unfold Machine.callbackChain at hf
    split at hf
    · cases hf
    · exact (List.dropWhile_suffix _).subset hf

theorem currentThreadFrame_cases (m : Machine) :
    currentThreadFrame m = m.chain ∨ currentThreadFrame m = m.callbackChain := by
  unfold currentThreadFrame
  split
  · exact Or.inr rfl
  · exact Or.inl rfl

theorem threadStateFrame_cases (m : Machine) (node : Nat) :
    threadStateFrame m node = m.chain ∨ threadStateFrame m node = m.callbackChain := by
  unfold threadStateFrame
  split
  · exact Or.inr rfl
  · exact Or.inl rfl

theorem getThreadSpace_stack (p : Platform) (t : ThreadState) (spaceId : Nat) (allocates : Bool) :
    (getThreadSpace p t spaceId allocates).2.stack = t.stack := by
  unfold getThreadSpace
  split
  · rfl
  · cases allocates <;> rfl

theorem patched_enterSpace (h : Reaches own m) (k spaceId : Nat) (allocates : Bool) :
    enterSpace p (m.patched own other) k spaceId allocates =
      (enterSpace p m k spaceId allocates).map (Machine.patched own other) := by
  have hstack := getThreadSpace_stack p m.tstate spaceId allocates
  unfold enterSpace
  rw [patched_tstate]
  generalize getThreadSpace p m.tstate spaceId allocates = found at hstack
  obtain ⟨node, tstate⟩ := found
  cases node with
  | none => rfl
  | some node =>
    have hreaches : Reaches own (m.setTstate tstate) :=
      ⟨fun f hf => h.stack f (hstack ▸ hf), h.previous⟩
    have hnear := @patched_nearestVisibleFrameInSpace (m.setTstate tstate) _ other _
      (owned_walk hreaches.stack (currentThreadFrame_cases _)) ((m.setTstate tstate).spacePtr node)
    have hwalk : currentThreadFrame ((m.setTstate tstate).patched own other) =
        currentThreadFrame (m.setTstate tstate) := rfl
    simp only [patched_setTstate, patched_spacePtr, hwalk, hnear]
    cases nearestVisibleFrameInSpace (m.setTstate tstate) ((m.setTstate tstate).spacePtr node)
      (currentThreadFrame (m.setTstate tstate)) with
    | none => rfl
    | some parent => rfl

theorem patched_leaveSpace (k : Nat) :
    leaveSpace (m.patched own other) k = (leaveSpace m k).patched own other := by
  unfold leaveSpace
  rw [patched_scopes]
  obtain ⟨_, _, _, _, _, _, useLocalRoot⟩ := m.scopes k
  cases useLocalRoot <;> rfl

theorem patched_resetCallOrdinal (hf : own f = true) :
    resetCallOrdinal (m.patched own other) f = (resetCallOrdinal m f).patched own other := by
  unfold resetCallOrdinal
  simp only [patched_frames hf, patched_setFrame hf, patched_ite]

theorem patched_deltaScan {chain : List Nat} (h : ∀ f ∈ chain, own f = true) (space : SpacePtr)
    (position common : Nat) : deltaScan (m.patched own other) space chain position common =
      deltaScan m space chain position common := by
  induction chain generalizing position common with
  | nil => rfl
  | cons f rest ih =>
    have hf := h f List.mem_cons_self
    have hrest := ih (fun g hg => h g (List.mem_cons_of_mem _ hg))
    unfold deltaScan deltaShorten
    rw [patched_visibleIn hf, patched_frames hf, hrest, hrest]

theorem patched_deltaFill {chain : List Nat} (h : ∀ f ∈ chain, own f = true) (space : SpacePtr)
    (common position : Nat) (delta : List Nat) :
    deltaFill space common chain position delta (m.patched own other) =
      ((deltaFill space common chain position delta m).1,
        (deltaFill space common chain position delta m).2.patched own other) := by
  induction chain generalizing position delta m with
  | nil => rfl
  | cons f rest ih =>
    have hf := h f List.mem_cons_self
    have hrest := fun m : Machine => @ih m (fun g hg => h g (List.mem_cons_of_mem _ hg))
    unfold deltaFill
    simp only [patched_visibleIn hf, patched_frames hf, patched_setFrame hf, hrest]
    split <;> rfl

theorem patched_frameWords {chain : List Nat} (h : ∀ f ∈ chain, own f = true) (space : SpacePtr) :
    frameWords (m.patched own other) space chain = frameWords m space chain := by
  refine frameWords_congr chain (fun f hf => ⟨patched_visibleIn (h f hf) space, fun _ => ?_⟩)
  rw [patched_frames (h f hf)]
  exact ⟨rfl, rfl⟩

theorem patched_threadDelta (h : ∀ f, .frame f ∈ m.tstate.stack → own f = true) (spaceId : Nat)
    (allocates tupleAllocates : Bool) :
    threadDeltaForTstate (m.patched own other) spaceId allocates tupleAllocates =
      ((threadDeltaForTstate m spaceId allocates tupleAllocates).1,
        (threadDeltaForTstate m spaceId allocates tupleAllocates).2.patched own other) := by
  unfold threadDeltaForTstate
  rw [patched_tstate]
  cases findThreadSpace m.tstate spaceId with
  | none => rfl
  | some node =>
    have hwalked := owned_walk h (threadStateFrame_cases m node)
    have hwalk : threadStateFrame (m.patched own other) node = threadStateFrame m node := rfl
    have hcount : coordinateCount (m.patched own other) (m.spacePtr node)
        (threadStateFrame m node) = coordinateCount m (m.spacePtr node) (threadStateFrame m node) := by
      rw [coordinateCount_eq, coordinateCount_eq, patched_frameWords hwalked]
    simp only [patched_spacePtr, hwalk, hcount, patched_deltaScan hwalked,
      patched_deltaFill hwalked]
    cases (m.tstate.space node).seen <;> cases allocates <;> cases tupleAllocates <;> rfl

theorem patched_coordinates (h : ∀ f, .frame f ∈ m.tstate.stack → own f = true)
    (spaceId drop : Nat) :
    coordinates (m.patched own other) spaceId drop = coordinates m spaceId drop := by
  unfold coordinates
  rw [patched_tstate]
  cases findThreadSpace m.tstate spaceId with
  | none => rfl
  | some node =>
    have hwalk : threadStateFrame (m.patched own other) node = threadStateFrame m node := rfl
    simp only [coordinatesOf_eq, patched_spacePtr, hwalk,
      patched_frameWords (owned_walk h (threadStateFrame_cases m node))]

theorem patched_frameCoordinateHashInSpace {chain : List Nat} (h : ∀ f ∈ chain, own f = true)
    (node : Nat) : frameCoordinateHashInSpace p (m.patched own other) node chain =
      frameCoordinateHashInSpace p m node chain := by
  induction chain with
  | nil => rfl
  | cons f rest ih =>
    have hf := h f List.mem_cons_self
    unfold frameCoordinateHashInSpace
    rw [patched_spacePtr, patched_visibleIn hf, patched_frames hf,
      ih (fun g hg => h g (List.mem_cons_of_mem _ hg))]

theorem patched_coordinateHash (h : ∀ f, .frame f ∈ m.tstate.stack → own f = true)
    (spaceId : Nat) :
    coordinateHash p (m.patched own other) spaceId = coordinateHash p m spaceId := by
  unfold coordinateHash
  rw [patched_tstate]
  cases findThreadSpace m.tstate spaceId with
  | none => rfl
  | some node =>
    have hwalk : threadStateFrame (m.patched own other) node = threadStateFrame m node := rfl
    simp only [hwalk,
      patched_frameCoordinateHashInSpace (owned_walk h (threadStateFrame_cases m node))]

theorem patched_enterFrame (hf : own f = true) (evalEntry allocates : Bool) :
    enterFrame p (m.patched own other) f evalEntry allocates =
      (enterFrame p m f evalEntry allocates).patched own other := by
  unfold enterFrame
  simp only [patched_frames hf, patched_setFrame hf, patched_ite, patched_push,
    patched_activateFrame hf]

theorem callbackBegin_eq (f k : Nat) (allocates : Bool) : callbackBegin p m f k allocates =
    (enterSpace p (m.setCallback true (some f)) k spaceIdDisabled allocates).elim
      (m.setCallback false none) (fun entered => entered.push (.callback k)) := by
  unfold callbackBegin
  dsimp only
  split
  · rename_i hfails
    have hfails' : enterSpace p (m.setCallback true (some f)) k spaceIdDisabled allocates = none :=
      hfails
    rw [hfails']
    rfl
  · rename_i entered henters
    have henters' : enterSpace p (m.setCallback true (some f)) k spaceIdDisabled allocates =
        some entered := henters
    rw [henters']
    rfl

theorem patched_callbackBegin (h : Reaches own m) (f k : Nat) (allocates : Bool) :
    callbackBegin p (m.patched own other) f k allocates =
      (callbackBegin p m f k allocates).patched own other := by
  have hpinned : Reaches own (m.setCallback true (some f)) := ⟨h.stack, h.previous⟩
  have henter : enterSpace p ((m.patched own other).setCallback true (some f)) k spaceIdDisabled
      allocates = (enterSpace p (m.setCallback true (some f)) k spaceIdDisabled
        allocates).map (Machine.patched own other) :=
    patched_enterSpace hpinned k spaceIdDisabled allocates
  rw [callbackBegin_eq, callbackBegin_eq, henter]
  cases enterSpace p (m.setCallback true (some f)) k spaceIdDisabled allocates <;> rfl

theorem patched_callbackEnd (k : Nat) (rest : List StackItem) :
    callbackEnd (m.patched own other) k rest = (callbackEnd m k rest).patched own other := by
  unfold callbackEnd
  rw [patched_leaveSpace]
  rfl

theorem patched_threadStep (h : Reaches own m) {event : ThreadEvent}
    (hnames : ∀ f, event.names = some f → own f = true) :
    threadStep p (m.patched own other) event =
      (threadStep p m event).map (Machine.patched own other) := by
  cases event with
  | call f firstTraceable evalEntry allocates =>
    have hf := hnames f rfl
    simp only [threadStep, patched_tstate, patched_chain, patched_setFrame hf,
      patched_enterFrame hf]
    split <;> rfl
  | resume f evalEntry allocates =>
    have hf := hnames f rfl
    simp only [threadStep, patched_tstate, patched_chain, patched_enterFrame hf]
    split <;> rfl
  | newGenerator g lasti =>
    have hg := hnames g rfl
    simp only [threadStep, patched_tstate, patched_setFrame hg]
    split <;> rfl
  | «begin» jumps offset =>
    simp only [threadStep, patched_tstate]
    split
    · rename_i f rest htop
      have hf := h.stack f (by rw [htop]; exact List.mem_cons_self)
      simp only [patched_frames hf, patched_setFrame hf, patched_resetCallOrdinal hf,
        Option.map_some]
    · rfl
  | leave again =>
    simp only [threadStep, patched_tstate]
    split
    · rename_i f rest htop
      have hf := h.stack f (by rw [htop]; exact List.mem_cons_self)
      simp only [patched_deactivateTimes hf h, patched_setStack, Option.map_some]
    · rfl
  | leaveInactive f =>
    simp only [threadStep, patched_tstate, patched_deactivateFrame (hnames f rfl) h]
    split <;> rfl
  | enterSpace k spaceId allocates =>
    simp only [threadStep, patched_tstate, patched_enterSpace h]
    split
    · rfl
    · cases enterSpace p m k spaceId allocates <;> rfl
  | leaveSpace =>
    simp only [threadStep, patched_tstate, patched_leaveSpace, patched_setStack]
    split <;> rfl
  | callbackBegin k allocates =>
    simp only [threadStep, patched_tstate, patched_callbackBegin h]
    split
    · split <;> rfl
    · rfl
  | callbackEnd =>
    simp only [threadStep, patched_tstate, patched_callbackEnd]
    split <;> rfl
  | threadDelta spaceId allocates tupleAllocates =>
    simp only [threadStep, patched_threadDelta h.stack, Option.map_some]

end patched

section disturbed
variable {m m' : Machine} {l : Ledger} {spaceId : Nat}

theorem Disturbed.savedOn (h : Disturbed m m') : SavedOn m.tstate.stack m m' := by
  refine ⟨by rw [h.tstate], ?_, fun k _ => by rw [h.scopes], by rw [h.tstate], ?_⟩
  · intro f hf
    rw [h.frame f hf]
    exact ⟨rfl, rfl⟩
  · intro n _
    rw [h.tstate]

theorem Standing.disturbed (h : Standing m l) (hother : Disturbed m m') : Standing m' l := by
  obtain ⟨⟨base, hroot, hseg⟩, hdepth, hcounted⟩ := h
  have htstate := hother.tstate
  refine ⟨⟨base, hroot, ?_⟩, ?_, ?_⟩
  · obtain ⟨items, hitems, hd⟩ := hseg.items
    refine ⟨htstate ▸ hseg.circle, htstate ▸ hseg.nodup, htstate ▸ hseg.scopes, ?_, items, ?_, ?_⟩
    · intro f
      rw [htstate]
      by_cases hf : .frame f ∈ m.tstate.stack
      · rw [hother.frame f hf]
        exact hseg.active f
      · simp [hother.off f hf, hf]
    · rw [htstate]
      exact hitems
    · have hcontext : m'.context = m.context := by
        unfold Machine.context
        rw [htstate]
      rw [hcontext]
      exact hd.congr (hitems ▸ hother.savedOn)
  · intro n hn
    have hchain : m'.chain = m.chain := by
      unfold Machine.chain
      rw [htstate]
    rw [htstate] at hn
    have hactive : activeFrames m' n m.chain = activeFrames m n m.chain :=
      hother.savedOn.activeFrames n
    rw [hchain, hactive, htstate]
    exact hdepth n hn
  · refine ⟨?_, ?_, ?_, ?_⟩
    · intro f hf
      rw [htstate] at hf
      rw [hother.frame f hf]
      exact hcounted.started f hf
    · intro f hf
      rw [htstate] at hf
      rw [hother.frame f hf]
      exact hcounted.frame f hf
    · intro k hk
      rw [htstate] at hk
      rw [hother.scopes]
      exact hcounted.scope k hk
    · rw [htstate]
      exact hcounted.root

end disturbed

section shared
variable {p : Platform} {s s' : SharedState} {m m' : Machine} {base : Context} {t u : Nat}

theorem Held.mono {tstate : ThreadState} {items items' : List StackItem} {ptr : Option OrdinalPtr}
    (h : Held tstate items ptr) (hsub : ∀ item ∈ items, item ∈ items') :
    Held tstate items' ptr := by
  obtain _ | f | node | k := ptr
  · exact h
  · exact hsub _ h
  · exact h
  · have hk : k ∈ scopeIds items := h
    exact mem_scopeIds.mpr ((mem_scopeIds.mp hk).imp (hsub _) (hsub _))

theorem Disciplined.held {items : List StackItem} {c : Context}
    (hd : Disciplined m [] base items c) (hroot : base.ptr = some (.root base.space)) :
    Held m.tstate items c.ptr := by
  obtain hptr | ⟨f, hptr, hmem⟩ | ⟨k, hptr, hmem⟩ := hd.ptr_live
  · rw [hptr, hroot]
    exact hd.baseOk.space
  · rw [hptr]
    exact hmem
  · rw [hptr]
    exact hmem

theorem Disciplined.saved_held {items : List StackItem} {c : Context}
    (hd : Disciplined m [] base items c) (hroot : base.ptr = some (.root base.space)) :
    (∀ f, .frame f ∈ items → Held m.tstate items (m.frames f).previousCallOrdinalPtr) ∧
      ∀ k ∈ scopeIds items, Held m.tstate items (m.scopes k).previousCallOrdinalPtr := by
  induction items generalizing c with
  | nil => exact ⟨fun f hf => absurd hf List.not_mem_nil, fun k hk => absurd hk List.not_mem_nil⟩
  | cons item rest ih =>
    have hsub : ∀ i ∈ rest, i ∈ item :: rest := fun i hi => List.mem_cons_of_mem _ hi
    cases item with
    | frame g =>
      obtain ⟨-, -, -, hrest⟩ := hd
      obtain ⟨hframes, hscopes⟩ := ih hrest
      refine ⟨?_, fun k hk => (hscopes k hk).mono hsub⟩
      intro f hf
      obtain heq | hf := List.mem_cons.mp hf
      · cases heq
        exact (hrest.held hroot).mono hsub
      · exact (hframes f hf).mono hsub
    | scope j =>
      obtain ⟨-, -, hrest⟩ := hd
      obtain ⟨hframes, hscopes⟩ := ih hrest
      refine ⟨fun f hf => (hframes f ((List.mem_cons.mp hf).resolve_left (by simp))).mono hsub, ?_⟩
      intro k hk
      rw [scopeIds_cons_scope] at hk
      obtain rfl | hk := List.mem_cons.mp hk
      · exact (hrest.held hroot).mono hsub
      · exact (hscopes k hk).mono hsub
    | callback j =>
      obtain ⟨-, -, hrest⟩ := hd
      obtain ⟨hframes, hscopes⟩ := ih hrest
      refine ⟨fun f hf => (hframes f ((List.mem_cons.mp hf).resolve_left (by simp))).mono hsub, ?_⟩
      intro k hk
      rw [scopeIds_cons_callback] at hk
      obtain rfl | hk := List.mem_cons.mp hk
      · exact (hrest.held hroot).mono hsub
      · exact (hscopes k hk).mono hsub

namespace SharedState

theorem elsewhere_iff {f : Nat} : s.elsewhere t f = true ↔
    ∃ u ∈ s.live, u ≠ t ∧ .frame f ∈ (s.tstates u).stack := by
  simp [elsewhere]

theorem view_frames {f : Nat} (hf : s.elsewhere t f = false) :
    (s.view t).frames f = s.frames f :=
  patched_frames (by simp [hf])

theorem view_frames_elsewhere {f : Nat} (hf : s.elsewhere t f = true) :
    (s.view t).frames f = { s.frames f with space := none } :=
  if_neg (by simp [hf])

theorem Apart.not_elsewhere (h : Apart s) (ht : t ∈ s.live) {f : Nat}
    (hf : .frame f ∈ (s.tstates t).stack) : s.elsewhere t f = false := by
  rw [Bool.eq_false_iff]
  intro helse
  obtain ⟨u, hu, hne, hmem⟩ := elsewhere_iff.mp helse
  exact h.apart u hu t ht hne f hmem hf

theorem Apart.disturbed (h : Apart s) (h' : Apart s') (hu : u ∈ s.live) (hu' : u ∈ s'.live)
    (htstate : s'.tstates u = s.tstates u) (hscopes : s'.scopes u = s.scopes u)
    (hframes : ∀ f, .frame f ∈ (s.tstates u).stack → s'.frames f = s.frames f) :
    Disturbed (s.view u) (s'.view u) := by
  refine ⟨htstate, hscopes, ?_, ?_⟩
  · intro f hf
    have hf' : .frame f ∈ (s'.tstates u).stack := htstate ▸ hf
    rw [view_frames (h.not_elsewhere hu hf), view_frames (h'.not_elsewhere hu' hf'), hframes f hf]
  · intro f hf
    cases helse : s'.elsewhere u f with
    | true => rw [view_frames_elsewhere helse]
    | false =>
      rw [view_frames helse]
      refine h'.idle f (fun v hv hmem => ?_)
      by_cases hne : v = u
      · subst hne
        rw [htstate] at hmem
        exact hf hmem
      · have := elsewhere_iff.mpr ⟨v, hv, hne, hmem⟩
        rw [helse] at this
        cases this

theorem Sound.reaches (h : Sound s) (ht : t ∈ s.live) :
    Reaches (fun f => !s.elsewhere t f) (s.thread t) := by
  obtain ⟨l, hstanding⟩ := h.standing t ht
  obtain ⟨base, hroot, hseg⟩ := hstanding.segment
  obtain ⟨items, hitems, hd⟩ := hseg.items
  rw [List.append_nil] at hitems
  refine ⟨?_, ?_⟩
  · intro f hf
    simp [h.not_elsewhere ht hf]
  · intro f g hf hactive hprevious
    have hview : (s.view t).frames f = s.frames f := view_frames (by simpa using hf)
    have hon : .frame f ∈ (s.view t).tstate.stack :=
      (hseg.active f).mp (by rw [hview]; exact hactive)
    rw [hitems] at hon
    have hprevious' : (s.frames f).previousCallOrdinalPtr = some (.frame g) := hprevious
    have hlive := (hd.saved_held hroot).1 f hon
    rw [hview, hprevious', ← hitems] at hlive
    simp [h.not_elsewhere ht hlive]

theorem elsewhere_put (t : Nat) (m : Machine) (f : Nat) :
    (s.put t m).elsewhere t f = s.elsewhere t f := by
  rw [Bool.eq_iff_iff, elsewhere_iff, elsewhere_iff]
  refine exists_congr (fun u => and_congr_right (fun _ => and_congr_right (fun hne => ?_)))
  have hsame : (s.put t m).tstates u = s.tstates u := Function.update_of_ne hne _ _
  rw [hsame]

theorem thread_put (t : Nat) (m : Machine) : (s.put t m).thread t = m := by
  unfold thread put
  simp

theorem Sound.own (h : Sound s) (ht : t ∈ s.live) {event : ThreadEvent}
    (hnames : event.names.all (fun f => !s.elsewhere t f) = true)
    (hstep : threadStep p (s.thread t) event = some m) :
    threadStep p (s.view t) event = some ((s.put t m).view t) ∧
      ∀ f, s.elsewhere t f = true → m.frames f = s.frames f := by
  have hreaches := h.reaches ht
  have hnamed : ∀ f, event.names = some f → (!s.elsewhere t f) = true := by
    intro f hf
    rw [hf] at hnames
    exact hnames
  have hself : (s.thread t).patched (fun f => !s.elsewhere t f) s.frames = s.thread t := by
    unfold Machine.patched thread
    simp
  have hframe : ∀ f, s.elsewhere t f = true → m.frames f = s.frames f := by
    intro f hf
    have hpatched := @patched_threadStep p _ _ s.frames hreaches event hnamed
    rw [hself, hstep, Option.map_some, Option.some.injEq] at hpatched
    rw [hpatched]
    exact if_neg (by simp [hf])
  refine ⟨?_, hframe⟩
  have hframes : (m.patched (fun f => !s.elsewhere t f)
      (fun f => { s.frames f with space := none })).frames = ((s.put t m).view t).frames := by
    funext f
    cases hf : s.elsewhere t f with
    | false =>
      rw [view_frames ((elsewhere_put t m f).trans hf)]
      exact patched_frames (by simp [hf])
    | true =>
      have hsame : (s.put t m).frames f = s.frames f := hframe f hf
      rw [view_frames_elsewhere ((elsewhere_put t m f).trans hf), hsame]
      exact if_neg (by simp [hf])
  unfold view
  rw [patched_threadStep hreaches hnamed, hstep, Option.map_some, thread_put]
  exact congrArg (fun frames => some (⟨m.tstate, frames, m.scopes⟩ : Machine)) hframes

theorem Sound.run (h : Sound s) (ht : t ∈ s.live) {event : ThreadEvent}
    (hnames : event.names.all (fun f => !s.elsewhere t f) = true)
    (hstep : threadStep p (s.thread t) event = some m) : Sound (s.put t m) := by
  obtain ⟨hown, hframe⟩ := h.own ht hnames hstep
  obtain ⟨l, hstanding⟩ := h.standing t ht
  obtain ⟨hnext, heffect⟩ := hstanding.step hown
  obtain ⟨base, -, hseg⟩ := hnext.segment
  have hsame : ∀ u, u ≠ t → (s.put t m).tstates u = s.tstates u :=
    fun u hne => Function.update_of_ne hne _ _
  have hself : (s.put t m).tstates t = m.tstate := Function.update_self ..
  have hon : ∀ f, .frame f ∈ m.tstate.stack → s.elsewhere t f = false := by
    intro f hf
    rw [← hself] at hf
    obtain hold | ⟨_, _, _, rfl⟩ | ⟨_, _, rfl⟩ := heffect.frameOn hf
    · exact h.not_elsewhere ht hold
    · simpa [ThreadEvent.names] using hnames
    · simpa [ThreadEvent.names] using hnames
  have hapart : Apart (s.put t m) := by
    refine ⟨?_, ?_⟩
    · have hone : ∀ u ∈ s.live, u ≠ t → ∀ f, .frame f ∈ m.tstate.stack →
          .frame f ∉ (s.tstates u).stack := by
        intro u hu hne f hf hmem
        have helse := elsewhere_iff.mpr ⟨u, hu, hne, hmem⟩
        rw [hon f hf] at helse
        cases helse
      intro u hu v hv hne f hf hmem
      by_cases hut : u = t
      · subst hut
        rw [hself] at hf
        rw [hsame v (Ne.symm hne)] at hmem
        exact hone v hv (Ne.symm hne) f hf hmem
      · rw [hsame u hut] at hf
        by_cases hvt : v = t
        · subst hvt
          rw [hself] at hmem
          exact hone u hu hut f hmem hf
        · rw [hsame v hvt] at hmem
          exact h.apart u hu v hv hne f hf hmem
    · intro f hoff
      have helse : (s.put t m).elsewhere t f = false := by
        rw [Bool.eq_false_iff]
        intro helse
        obtain ⟨u, hu, -, hmem⟩ := elsewhere_iff.mp helse
        exact hoff u hu hmem
      rw [← view_frames helse]
      by_contra hactive
      exact hoff t ht ((hseg.active f).mp hactive)
  refine ⟨hapart, h.known, ?_⟩
  intro u hu
  by_cases hut : u = t
  · subst hut
    exact ⟨_, hnext⟩
  · obtain ⟨l', hother⟩ := h.standing u hu
    refine ⟨l', hother.disturbed (h.disturbed hapart hu hu (hsame u hut)
      (Function.update_of_ne hut _ _) (fun f hf => ?_))⟩
    exact hframe f (elsewhere_iff.mpr ⟨u, hu, hut, hf⟩)

theorem add_tstates_of_ne (tstate : ThreadState) (hne : u ≠ s.started) :
    (s.add tstate).tstates u = s.tstates u := Function.update_of_ne hne _ _

theorem add_tstates_self (tstate : ThreadState) :
    (s.add tstate).tstates s.started = tstate := Function.update_self ..

theorem Sound.ne_started (h : Sound s) (hu : u ∈ s.live) : u ≠ s.started :=
  Nat.ne_of_lt (h.known u hu)

theorem Sound.on_add (h : Sound s) {tstate : ThreadState} (hempty : tstate.stack = [])
    (hu : u ∈ (s.add tstate).live) {f : Nat} (hf : .frame f ∈ ((s.add tstate).tstates u).stack) :
    u ∈ s.live ∧ .frame f ∈ (s.tstates u).stack := by
  obtain rfl | hu := List.mem_cons.mp hu
  · rw [add_tstates_self, hempty] at hf
    cases hf
  · rw [add_tstates_of_ne tstate (h.ne_started hu)] at hf
    exact ⟨hu, hf⟩

theorem Sound.add_apart (h : Sound s) {tstate : ThreadState} (hempty : tstate.stack = []) :
    Apart (s.add tstate) := by
  refine ⟨?_, ?_⟩
  · intro u hu v hv hne f hf hmem
    obtain ⟨hu, hf⟩ := h.on_add hempty hu hf
    obtain ⟨hv, hmem⟩ := h.on_add hempty hv hmem
    exact h.apart u hu v hv hne f hf hmem
  · intro f hoff
    refine h.idle f (fun u hu hmem => hoff u (List.mem_cons_of_mem _ hu) ?_)
    rw [add_tstates_of_ne tstate (h.ne_started hu)]
    exact hmem

theorem Sound.add_idle (h : Sound s) (address inherited threadId : Nat) :
    Idle ((s.add (startThread p address inherited threadId).tstate).view s.started) := by
  have hidle := startThread_idle p address inherited threadId
  have hview : ((s.add (startThread p address inherited threadId).tstate).view s.started).tstate =
      (startThread p address inherited threadId).tstate := add_tstates_self _
  have hinactive : ∀ f, (((s.add (startThread p address inherited threadId).tstate).view
      s.started).frames f).space = none := by
    intro f
    cases helse : (s.add (startThread p address inherited threadId).tstate).elsewhere
        s.started f with
    | true => rw [view_frames_elsewhere helse]
    | false =>
      rw [view_frames helse]
      refine (h.add_apart hidle.stack).idle f (fun v hv hmem => ?_)
      obtain ⟨hv', -⟩ := h.on_add hidle.stack hv hmem
      have helse' := elsewhere_iff.mpr ⟨v, hv, h.ne_started hv', hmem⟩
      rw [helse] at helse'
      cases helse'
  refine ⟨?_, ?_, ?_, ?_, ?_, hinactive, ?_, ?_, ?_⟩ <;> rw [hview]
  · exact hidle.circle
  · exact hidle.stack
  · exact hidle.ptr
  · exact hidle.current
  · exact hidle.id
  · exact hidle.depth
  · exact hidle.ordinal
  · exact hidle.callback

theorem Sound.start (h : Sound s) (address inherited threadId : Nat) :
    Sound (s.add (startThread p address inherited threadId).tstate) := by
  have hempty := (startThread_idle p address inherited threadId).stack
  refine ⟨h.add_apart hempty, ?_, ?_⟩
  · intro u hu
    obtain rfl | hu := List.mem_cons.mp hu
    · exact Nat.lt_succ_self _
    · exact Nat.lt_succ_of_lt (h.known u hu)
  · intro u hu
    obtain rfl | hu := List.mem_cons.mp hu
    · exact ⟨_, (h.add_idle address inherited threadId).standing⟩
    · obtain ⟨l, hstanding⟩ := h.standing u hu
      exact ⟨l, hstanding.disturbed (h.disturbed (h.add_apart hempty) hu (List.mem_cons_of_mem _ hu)
        (add_tstates_of_ne _ (h.ne_started hu)) rfl (fun _ _ => rfl))⟩

theorem Sound.drop_apart (h : Sound s) (hempty : (s.tstates t).stack = []) :
    Apart (s.drop t) := by
  refine ⟨?_, ?_⟩
  · intro u hu v hv
    exact h.apart u (List.mem_of_mem_filter hu) v (List.mem_of_mem_filter hv)
  · intro f hoff
    refine h.idle f (fun u hu hmem => ?_)
    by_cases hut : u = t
    · subst hut
      rw [hempty] at hmem
      cases hmem
    · exact hoff u (List.mem_filter.mpr ⟨hu, by simpa using hut⟩) hmem

theorem Sound.finish (h : Sound s) (hempty : (s.tstates t).stack = []) :
    Sound (s.drop t) := by
  refine ⟨h.drop_apart hempty, fun u hu => h.known u (List.mem_of_mem_filter hu), ?_⟩
  intro u hu
  obtain ⟨l, hstanding⟩ := h.standing u (List.mem_of_mem_filter hu)
  exact ⟨l, hstanding.disturbed (h.disturbed (h.drop_apart hempty) (List.mem_of_mem_filter hu) hu
    rfl rfl (fun _ _ => rfl))⟩

theorem sound_initial (p : Platform) : Sound (initial p) :=
  ⟨⟨fun _ ht => absurd ht List.not_mem_nil, fun _ _ => rfl⟩,
    fun _ ht => absurd ht List.not_mem_nil, fun _ ht => absurd ht List.not_mem_nil⟩

theorem sharedStep_cases {e : SharedEvent} {out : List (Nat × Nat × DeltaResult)}
    (hstep : sharedStep p s e = some (s', out)) :
    (∃ address inherited threadId, e = .start address inherited threadId ∧
      (∀ u ∈ s.live, (s.tstates u).threadId ≠ threadId) ∧
      s' = s.add (startThread p address inherited threadId).tstate ∧ out = []) ∨
    (∃ t event m, e = .run t event ∧ t ∈ s.live ∧
      event.names.all (fun f => !s.elsewhere t f) = true ∧
      threadStep p (s.thread t) event = some m ∧ s' = s.put t m ∧
      out = (deltasOf (s.thread t) event).map (fun delta => (t, delta))) ∨
    ∃ t, e = .finish t ∧ (s.tstates t).stack = [] ∧ s' = s.drop t ∧ out = [] := by
  cases e with
  | start address inherited threadId =>
    simp only [sharedStep] at hstep
    split at hstep
    · cases hstep
    · rename_i hfree
      cases hstep
      refine Or.inl ⟨_, _, _, rfl, ?_, rfl, rfl⟩
      intro u hu hid
      exact hfree (Or.inr ⟨u, hu, Or.inr hid⟩)
  | run t event =>
    simp only [sharedStep] at hstep
    split at hstep
    · rename_i hguard
      obtain ⟨m, hm, heq⟩ := Option.map_eq_some_iff.mp hstep
      cases heq
      exact Or.inr (Or.inl ⟨t, event, m, rfl, hguard.1, hguard.2, hm, rfl, rfl⟩)
    · cases hstep
  | finish t =>
    simp only [sharedStep] at hstep
    split at hstep
    · rename_i hguard
      cases hstep
      exact Or.inr (Or.inr ⟨t, rfl, hguard.2, rfl, rfl⟩)
    · cases hstep

theorem sharedStep_sound {e : SharedEvent} {out : List (Nat × Nat × DeltaResult)} (h : Sound s)
    (hstep : sharedStep p s e = some (s', out)) : Sound s' := by
  obtain ⟨address, inherited, threadId, -, -, rfl, -⟩ |
    ⟨t, event, m, -, ht, hnames, hm, rfl, -⟩ | ⟨t, -, hempty, rfl, -⟩ := sharedStep_cases hstep
  · exact h.start address inherited threadId
  · exact h.run ht hnames hm
  · exact h.finish hempty

theorem Sound.owned (h : Sound s) (ht : t ∈ s.live) : Owned s t := by
  obtain ⟨l, hstanding⟩ := h.standing t ht
  obtain ⟨base, hroot, hseg⟩ := hstanding.segment
  obtain ⟨items, hitems, hd⟩ := hseg.items
  rw [List.append_nil] at hitems
  have hstack : (s.tstates t).stack = items := hitems
  have hview : ∀ f, .frame f ∈ (s.tstates t).stack → (s.view t).frames f = s.frames f :=
    fun f hf => view_frames (h.not_elsewhere ht hf)
  have hspace : ∀ f, .frame f ∈ (s.tstates t).stack → ∃ n < (s.tstates t).spaces.length,
      (s.frames f).space = some ⟨(s.tstates t).address, n⟩ := by
    intro f hf
    rw [← hview f hf]
    exact hseg.frame_space hf
  refine ⟨hspace, ?_, ?_, ?_, ?_, ?_⟩
  · intro n hn
    have hactive : activeFrames (s.view t) n (s.view t).chain =
        activeFrames (s.thread t) n (s.thread t).chain :=
      @activeFrames_congr (s.thread t) (s.view t) _ n rfl (fun f hf => by
        rw [hview f (mem_frameChain.mp hf)]
        rfl)
    exact (hstanding.depth n hn).trans hactive
  · rw [hstack]
    exact hd.held hroot
  · intro f hf
    rw [← hview f hf, hstack]
    exact (hd.saved_held hroot).1 f (hstack ▸ hf)
  · intro k hk
    rw [hstack]
    exact (hd.saved_held hroot).2 k (hstack ▸ hk)
  · intro f space helse hactive
    have hon : .frame f ∈ (s.tstates t).stack := by
      rw [← view_frames helse] at hactive
      exact (hseg.active f).mp (by rw [hactive]; simp)
    obtain ⟨n, hn, heq⟩ := hspace f hon
    rw [hactive, Option.some.injEq] at heq
    rw [heq]
    exact hseg.circle.owns hn

theorem sharedStep_others {e : SharedEvent} {out : List (Nat × Nat × DeltaResult)} (h : Sound s)
    (hstep : sharedStep p s e = some (s', out)) (hu : u ∈ s.live) (hnot : e.isOf u = false) :
    u ∈ s'.live ∧ s'.tstates u = s.tstates u ∧ s'.scopes u = s.scopes u ∧
      ∀ f, .frame f ∈ (s.tstates u).stack → s'.frames f = s.frames f := by
  obtain ⟨address, inherited, threadId, rfl, -, rfl, -⟩ |
    ⟨t, event, m, rfl, ht, hnames, hm, rfl, -⟩ | ⟨t, rfl, hempty, rfl, -⟩ := sharedStep_cases hstep
  · exact ⟨List.mem_cons_of_mem _ hu, Function.update_of_ne (Nat.ne_of_lt (h.known u hu)) _ _,
      rfl, fun _ _ => rfl⟩
  · have hne : u ≠ t := by
      rintro rfl
      simp [SharedEvent.isOf] at hnot
    refine ⟨hu, Function.update_of_ne hne _ _, Function.update_of_ne hne _ _, ?_⟩
    intro f hf
    exact (h.own ht hnames hm).2 f (elsewhere_iff.mpr ⟨u, hu, hne, hf⟩)
  · have hne : u ≠ t := by
      rintro rfl
      simp [SharedEvent.isOf] at hnot
    exact ⟨List.mem_filter.mpr ⟨hu, by simpa using hne⟩, rfl, rfl, fun _ _ => rfl⟩

theorem sharedStep_disturbed {e : SharedEvent} {out : List (Nat × Nat × DeltaResult)}
    (h : Sound s) (hstep : sharedStep p s e = some (s', out)) (hu : u ∈ s.live)
    (hnot : e.isOf u = false) : Disturbed (s.view u) (s'.view u) := by
  obtain ⟨hu', htstate, hscopes, hframes⟩ := sharedStep_others h hstep hu hnot
  exact h.disturbed (sharedStep_sound h hstep).toApart hu hu' htstate hscopes hframes

end SharedState

theorem samePositions_of_frames (htstate : m'.tstate = m.tstate) (hscopes : m'.scopes = m.scopes)
    (hframes : ∀ f, .frame f ∈ m.tstate.stack → m'.frames f = m.frames f) :
    SamePositions p m m' := by
  have hpatched : m'.patched (fun f => decide (.frame f ∈ m.tstate.stack)) m.frames = m := by
    have hsame : (m'.patched (fun f => decide (.frame f ∈ m.tstate.stack)) m.frames).frames =
        m.frames := by
      funext f
      by_cases hf : .frame f ∈ m.tstate.stack
      · exact (patched_frames (by simpa using hf)).trans (hframes f hf)
      · exact if_neg (by simpa using hf)
    calc m'.patched (fun f => decide (.frame f ∈ m.tstate.stack)) m.frames
        = ⟨m'.tstate, m.frames, m'.scopes⟩ :=
          congrArg (fun frames => (⟨m'.tstate, frames, m'.scopes⟩ : Machine)) hsame
      _ = m := by rw [htstate, hscopes]
  have hown : ∀ f, .frame f ∈ m'.tstate.stack →
      (fun f => decide (.frame f ∈ m.tstate.stack)) f = true := by
    intro f hf
    simpa [htstate] using hf
  refine ⟨?_, ?_, ?_⟩
  · intro spaceId drop
    rw [← patched_coordinates hown, hpatched]
  · intro spaceId
    rw [← patched_coordinateHash hown, hpatched]
  · intro spaceId allocates tupleAllocates
    have hdelta := @patched_threadDelta _ _ m.frames hown spaceId allocates tupleAllocates
    rw [hpatched] at hdelta
    rw [hdelta]

section runs
variable {before events : List SharedEvent} {outs outs' : List (Nat × Nat × DeltaResult)}

theorem sharedRun_sound (h : s.Sound)
    (hrun : StepRun.run (sharedStep p) events s = some (s', outs)) : s'.Sound :=
  StepRun.run_invariant
    (fun _ _ _ _ hsound hstep => SharedState.sharedStep_sound hsound hstep) h hrun

/-- Whatever threads start, run, hand generators to each other and end, each has its own frames,
spaces and slots. No step finds a frame in a space of another thread. -/
theorem sharedFrames_owned
    (hrun : StepRun.run (sharedStep p) events (SharedState.initial p) = some (s, outs)) :
    s.Apart ∧ ∀ t ∈ s.live, s.Owned t := by
  have hsound := sharedRun_sound (SharedState.sound_initial p) hrun
  exact ⟨hsound.toApart, fun t ht => hsound.owned ht⟩

/-- One thread starts a generator and suspends it, and another resumes it. -/
def handsOver : List SharedEvent := [
  .start 64 0 1, .run 0 (.call 0 0 true true), .run 0 (.begin [] 4), .run 0 (.newGenerator 5 1),
  .run 0 (.resume 5 false true), .run 0 (.begin [] 3), .run 0 (.leave 0), .start 128 0 2,
  .run 1 (.call 1 0 true true), .run 1 (.begin [] 2), .run 1 (.resume 5 false true)]

theorem sharedFrames_owned_handsOver : ∃ s outs,
    StepRun.run (sharedStep ⟨true, true⟩) handsOver (SharedState.initial ⟨true, true⟩) =
      some (s, outs) ∧ s.live = [1, 0] ∧ (s.frames 5).space = some ⟨128, 0⟩ ∧
    s.Apart ∧ ∀ t ∈ s.live, s.Owned t := by
  obtain ⟨s, outs, hrun⟩ : ∃ s outs, StepRun.run (sharedStep ⟨true, true⟩) handsOver
      (SharedState.initial ⟨true, true⟩) = some (s, outs) := ⟨_, _, rfl⟩
  refine ⟨s, outs, hrun, ?_, ?_, sharedFrames_owned hrun⟩
  · cases hrun
    rfl
  · cases hrun
    rfl

/-- The steps of the other threads leave a thread where it is. -/
theorem otherThreads_keep
    (hbefore : StepRun.run (sharedStep p) before (SharedState.initial p) = some (s, outs))
    (hrun : StepRun.run (sharedStep p) events s = some (s', outs')) (hu : u ∈ s.live)
    (hothers : ∀ e ∈ events, e.isOf u = false) :
    u ∈ s'.live ∧ s'.tstates u = s.tstates u ∧ SamePositions p (s.thread u) (s'.thread u) := by
  have hsound := sharedRun_sound (SharedState.sound_initial p) hbefore
  have hkept : u ∈ s'.live ∧ s'.tstates u = s.tstates u ∧ s'.scopes u = s.scopes u ∧
      ∀ f, .frame f ∈ (s.tstates u).stack → s'.frames f = s.frames f := by
    clear hbefore
    induction events generalizing s outs' with
    | nil =>
      cases hrun
      exact ⟨hu, rfl, rfl, fun _ _ => rfl⟩
    | cons e events ih =>
      obtain ⟨mid, out, more, hstep, hrest, -⟩ := StepRun.run_cons.mp hrun
      obtain ⟨hmid, htstate, hscopes, hframes⟩ := SharedState.sharedStep_others hsound hstep hu
        (hothers e List.mem_cons_self)
      obtain ⟨hlive, htstate', hscopes', hframes'⟩ := ih hrest hmid
        (fun e' he' => hothers e' (List.mem_cons_of_mem _ he'))
        (SharedState.sharedStep_sound hsound hstep)
      refine ⟨hlive, htstate'.trans htstate, hscopes'.trans hscopes, ?_⟩
      intro f hf
      exact (hframes' f (htstate ▸ hf)).trans (hframes f hf)
  obtain ⟨hlive, htstate, hscopes, hframes⟩ := hkept
  exact ⟨hlive, htstate, samePositions_of_frames htstate hscopes hframes⟩

theorem otherThreads_keep_handsOver : ∃ s outs s' outs',
    StepRun.run (sharedStep ⟨true, true⟩) (handsOver.take 7) (SharedState.initial ⟨true, true⟩) =
      some (s, outs) ∧
    StepRun.run (sharedStep ⟨true, true⟩) (handsOver.drop 7) s = some (s', outs') ∧
    coordinates (s.thread 0) 0 0 = some [4, 1] ∧
    (0 ∈ s'.live ∧ s'.tstates 0 = s.tstates 0 ∧
      SamePositions ⟨true, true⟩ (s.thread 0) (s'.thread 0)) := by
  obtain ⟨s, outs, hbefore⟩ : ∃ s outs, StepRun.run (sharedStep ⟨true, true⟩) (handsOver.take 7)
      (SharedState.initial ⟨true, true⟩) = some (s, outs) := ⟨_, _, rfl⟩
  obtain ⟨s', outs', hrun⟩ : ∃ s' outs', StepRun.run (sharedStep ⟨true, true⟩) (handsOver.drop 7)
      s = some (s', outs') := by
    cases hbefore
    exact ⟨_, _, rfl⟩
  refine ⟨s, outs, s', outs', hbefore, hrun, ?_, otherThreads_keep hbefore hrun ?_ (by decide)⟩
  · cases hbefore
    rfl
  · cases hbefore
    decide

end runs

end shared

end Retrace
