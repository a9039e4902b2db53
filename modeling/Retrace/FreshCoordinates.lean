import Retrace.RootOrdinalRuns
import Retrace.SpaceCircle
import Retrace.SwitchStream
import Retrace.ThreadTwins

/-! The counter that names dynamic spaces, and when the space that it names is a fresh one. -/

set_option autoImplicit false

namespace Retrace

/-- The counter after an id, in 32 bits. It passes over the root and the disabled space. -/
def nextDynamicSpaceId (spaceId : Nat) : Nat :=
  let next := (spaceId + 1) % 2 ^ 32
  if next = spaceIdRoot ∨ next = spaceIdDisabled then spaceIdDisabled + 1 else next

theorem nextDynamicSpaceId_dynamic (spaceId : Nat) :
    spaceIdDisabled < nextDynamicSpaceId spaceId ∧ nextDynamicSpaceId spaceId < 2 ^ 32 := by
  have hword := Nat.mod_lt (spaceId + 1) (Nat.two_pow_pos 32)
  unfold nextDynamicSpaceId spaceIdRoot spaceIdDisabled
  dsimp only
  split_ifs <;> omega

/-- `retrace_next_dynamic_space_id`, which all threads share. -/
structure DynamicSpaceIds where
  next : Nat
  dynamic : spaceIdDisabled < next
  word : next < 2 ^ 32

namespace DynamicSpaceIds

def initial : DynamicSpaceIds := ⟨spaceIdDisabled + 1, by decide, by decide⟩

def allocate (ids : DynamicSpaceIds) : Nat × DynamicSpaceIds :=
  (ids.next, ⟨nextDynamicSpaceId ids.next, (nextDynamicSpaceId_dynamic ids.next).1,
    (nextDynamicSpaceId_dynamic ids.next).2⟩)

end DynamicSpaceIds

structure CoordinateState where
  ids : DynamicSpaceIds
  machine : Machine

/-- The calls of `run_in_space` and of the wrappers are entries of the thread, with the ids that
they name. Other threads only move the counter, as `allocate_space_id` does. -/
inductive CoordinateEvent where
  | thread (event : ThreadEvent)
  | allocateSpaceId
  | withNewCoordinates (k : Nat) (allocates : Bool)
  deriving DecidableEq, Repr

/-- The outputs are the events of the thread. -/
def coordinateStep (p : Platform) (s : CoordinateState) :
    CoordinateEvent → Option (CoordinateState × List ThreadEvent)
  | .thread event =>
    (threadStep p s.machine event).map (fun m => ({ s with machine := m }, [event]))
  | .allocateSpaceId => some ({ s with ids := s.ids.allocate.2 }, [])
  | .withNewCoordinates k allocates =>
    let (spaceId, ids) := s.ids.allocate
    (threadStep p s.machine (.enterSpace k spaceId allocates)).map (fun m =>
      (⟨ids, m⟩, [.enterSpace k spaceId allocates]))

abbrev coordinateSteps (p : Platform) (events : List CoordinateEvent) (s : CoordinateState) :
    Option (CoordinateState × List ThreadEvent) :=
  StepRun.run (coordinateStep p) events s

def startThread (p : Platform) (address inherited threadId : Nat) : Machine :=
  (freshMachine p address).setTstate
    (seedSpaces p (freshMachine p address).tstate inherited threadId true)

def UsedBefore (p : Platform) (start : CoordinateState) (history : List CoordinateEvent)
    (spaceId : Nat) : Prop :=
  ∃ before rest mid outs, history = before ++ rest ∧
    coordinateSteps p before start = some (mid, outs) ∧ mid.machine.currentSpaceId = spaceId

/-- The calls of the run do not return below the stack that it starts on. -/
def StaysAbove (p : Platform) (s : CoordinateState) (events : List CoordinateEvent) : Prop :=
  ∀ before rest mid outs, events = before ++ rest →
    coordinateSteps p before s = some (mid, outs) →
    s.machine.tstate.stack <:+ mid.machine.tstate.stack

/-- A callable starts in the space afresh: nothing is counted or visible there, and whatever it
calls, its first frame stands alone in the coordinates. -/
structure StartsFresh (p : Platform) (spaceId : Nat) (s : CoordinateState) : Prop where
  current : s.machine.currentSpaceId = spaceId
  ordinal : (s.machine.tstate.space s.machine.tstate.currentSpace).rootCallOrdinal = 0
  hidden : ∀ f ∈ s.machine.chain,
    s.machine.visibleIn (s.machine.spacePtr s.machine.tstate.currentSpace) f = false
  alone : ∀ events s' outs f, coordinateSteps p events s = some (s', outs) →
    StaysAbove p s events → s'.machine.tstate.stack = .frame f :: s.machine.tstate.stack →
    frameIsVisible (s'.machine.frames f) = true →
    coordinates s'.machine spaceId 0 = some [frameCoordinate (s'.machine.frames f),
      (s'.machine.frames f).currentCallOrdinal]

def ThreadEvent.asksFor (spaceId : Nat) : ThreadEvent → Bool
  | .enterSpace _ asked allocates => allocates && asked == spaceId
  | _ => false

/-- What `with_new_coordinates` promises of a call after this history. -/
structure RunsFresh (p : Platform) (start : CoordinateState) (history : List CoordinateEvent)
    (s : CoordinateState) : Prop where
  dynamic : s.ids.next ≠ spaceIdRoot ∧ s.ids.next ≠ spaceIdDisabled
  unused : ¬UsedBefore p start history s.ids.next
  starts : ∀ k, k ∉ scopeIds s.machine.tstate.stack → ∃ s' out,
    coordinateStep p s (.withNewCoordinates k true) = some (s', out) ∧
      StartsFresh p s.ids.next s'

section runs
variable {p : Platform} {s s' : CoordinateState} {m m' : Machine} {base : Context}
  {spaceId : Nat}

theorem coordinateStep_cases {e : CoordinateEvent} {out : List ThreadEvent}
    (h : coordinateStep p s e = some (s', out)) :
    (out = [] ∧ s'.machine = s.machine) ∨
      ∃ event, out = [event] ∧ threadStep p s.machine event = some s'.machine := by
  cases e with
  | thread event =>
    obtain ⟨m, hstep, heq⟩ := Option.map_eq_some_iff.mp h
    cases heq
    exact Or.inr ⟨event, rfl, hstep⟩
  | allocateSpaceId =>
    cases h
    exact Or.inl ⟨rfl, rfl⟩
  | withNewCoordinates k allocates =>
    obtain ⟨m, hstep, heq⟩ := Option.map_eq_some_iff.mp h
    cases heq
    exact Or.inr ⟨_, rfl, hstep⟩

theorem coordinateStep_thread {e : CoordinateEvent} {out : List ThreadEvent}
    (h : coordinateStep p s e = some (s', out)) :
    threadRun p out s.machine = some s'.machine := by
  obtain ⟨rfl, hmachine⟩ | ⟨event, rfl, hstep⟩ := coordinateStep_cases h
  · rw [hmachine]
    rfl
  · rw [threadRun_cons, hstep]
    rfl

theorem coordinateSteps_thread {events : List CoordinateEvent} {outs : List ThreadEvent}
    (h : coordinateSteps p events s = some (s', outs)) :
    threadRun p outs s.machine = some s'.machine := by
  induction events generalizing s outs with
  | nil =>
    cases h
    rfl
  | cons e events ih =>
    obtain ⟨mid, out, more, hstep, hrest, rfl⟩ := StepRun.run_cons.mp h
    rw [threadRun_join more (coordinateStep_thread hstep)]
    exact ih hrest

theorem coordinateSteps_prefix {events : List CoordinateEvent} {outs part : List ThreadEvent}
    (h : coordinateSteps p events s = some (s', outs)) (hpart : part <+: outs)
    (hmid : threadRun p part s.machine = some m) :
    ∃ before rest mid, events = before ++ rest ∧
      coordinateSteps p before s = some (mid, part) ∧ mid.machine = m := by
  induction events generalizing s outs part with
  | nil =>
    cases h
    rw [List.prefix_nil.mp hpart] at hmid ⊢
    exact ⟨[], [], _, rfl, rfl, Option.some.inj hmid⟩
  | cons e events ih =>
    obtain ⟨next, out, more, hstep, hrest, rfl⟩ := StepRun.run_cons.mp h
    by_cases hnil : part = []
    · subst hnil
      exact ⟨[], e :: events, s, rfl, rfl, Option.some.inj hmid⟩
    have hfirst : out <+: part := by
      -- a step has at most one event of the thread, and the part has the first one
      obtain ⟨rfl, -⟩ | ⟨event, rfl, -⟩ := coordinateStep_cases hstep
      · exact List.nil_prefix
      · obtain ⟨first, tail, rfl⟩ := List.exists_cons_of_ne_nil hnil
        rw [List.singleton_append, List.cons_prefix_cons] at hpart
        rw [hpart.1]
        exact List.prefix_append [event] tail
    obtain ⟨tail, rfl⟩ := hfirst
    rw [threadRun_join tail (coordinateStep_thread hstep)] at hmid
    obtain ⟨before, rest, mid, rfl, hbefore, hmachine⟩ :=
      ih hrest ((List.prefix_append_right_inj out).mp hpart) hmid
    exact ⟨e :: before, rest, mid, rfl,
      StepRun.run_cons.mpr ⟨next, out, tail, hstep, hbefore, rfl⟩, hmachine⟩

theorem StaysAbove.saved {l : Ledger} {events : List CoordinateEvent} {outs : List ThreadEvent}
    (h : StaysAbove p s events) (hstanding : Standing s.machine l)
    (hrun : coordinateSteps p events s = some (s', outs)) :
    SavedOn s.machine.tstate.stack s.machine s'.machine := by
  refine SavedOn.run hstanding (coordinateSteps_thread hrun) ?_
  intro part m hpart hmid
  obtain ⟨before, rest, mid, hevents, hbefore, rfl⟩ := coordinateSteps_prefix hrun hpart hmid
  exact h before rest mid part hevents hbefore

end runs

/-! ## The thread at its start -/

section start
variable {p : Platform}

theorem getThreadSpace_inherited (t : ThreadState) (inherited spaceId : Nat) (allocates : Bool) :
    getThreadSpace p { t with inheritedSpaceId := inherited } spaceId allocates =
      ((getThreadSpace p t spaceId allocates).1,
        { (getThreadSpace p t spaceId allocates).2 with inheritedSpaceId := inherited }) := by
  have hfind : findThreadSpace { t with inheritedSpaceId := inherited } spaceId =
      findThreadSpace t spaceId :=
    @findThreadSpace_spaces t { t with inheritedSpaceId := inherited } rfl rfl spaceId
  unfold getThreadSpace
  rw [hfind]
  cases findThreadSpace t spaceId with
  | some node => rfl
  | none => cases allocates <;> rfl

theorem setCurrentSpaceById_inherited (t : ThreadState) (inherited spaceId : Nat) :
    setCurrentSpaceById p { t with inheritedSpaceId := inherited } spaceId true =
      setCurrentSpaceById p t spaceId true := by
  obtain ⟨node, t', hget, -⟩ := getThreadSpace_room p t spaceId
  unfold setCurrentSpaceById
  rw [getThreadSpace_inherited, hget]
  rfl

theorem seededRoot_idle (p : Platform) (address threadId : Nat) :
    Idle ((freshMachine p address).setTstate
      (seedIdentity (initializeThreadState p address) spaceIdRoot threadId)) := by
  have hcircle := seedIdentity_circleOf (initial_circleOf p address) spaceIdRoot threadId
  have hzero : ∀ n, n < (seedIdentity (initializeThreadState p address) spaceIdRoot
      threadId).spaces.length → n = 0 := by
    intro n hn
    change n < 1 at hn
    omega
  refine ⟨hcircle.toCircle, rfl, rfl, Nat.zero_lt_one, rfl, fun _ => rfl, ?_, ?_, rfl⟩
  · intro n hn
    rw [hzero n hn]
    rfl
  · intro n hn
    rw [hzero n hn]
    exact Nat.two_pow_pos 64

theorem startThread_idle (p : Platform) (address inherited threadId : Nat) :
    Idle (startThread p address inherited threadId) := by
  have hidle := seededRoot_idle p address threadId
  have hsame := @setCurrentSpaceById_inherited p
    (seedIdentity (initializeThreadState p address) spaceIdRoot threadId) inherited inherited
  obtain ⟨node, t', hget, -⟩ := getThreadSpace_room p
    (seedIdentity (initializeThreadState p address) spaceIdRoot threadId) inherited
  have hset : setCurrentSpaceById p
      (seedIdentity (initializeThreadState p address) spaceIdRoot threadId) inherited true =
      (0, seedSpaces p (initializeThreadState p address) inherited threadId true) := by
    change _ = (0, (setCurrentSpaceById p { seedIdentity (initializeThreadState p address)
      spaceIdRoot threadId with inheritedSpaceId := inherited } inherited true).2)
    rw [hsame]
    unfold setCurrentSpaceById
    rw [hget]
  exact hidle.setCurrentSpaceById hset

theorem startThread_ids (p : Platform) (address inherited threadId : Nat) :
    (startThread p address inherited threadId).currentSpaceId = inherited ∧
      ∀ spaceId,
        (findThreadSpace (startThread p address inherited threadId).tstate spaceId).isSome = true ↔
          spaceId = spaceIdRoot ∨ spaceId = inherited := by
  have hcircle : CircleOf (startThread p address inherited threadId).tstate _ :=
    spaceCall_circleOf (p := p) (initial_circleOf p address) (.seed inherited threadId true)
  have hcurrent : (startThread p address inherited threadId).currentSpaceId = _ := hcircle.current
  by_cases hroot : inherited = spaceIdRoot
  · subst hroot
    refine ⟨hcurrent, fun spaceId => hcircle.find_isSome.trans ?_⟩
    rw [or_self]
    exact List.mem_singleton
  · have hselect : SpaceIds.initial.call (.seed inherited threadId true) =
        ⟨[spaceIdRoot, inherited], inherited, inherited⟩ := by
      rw [SpaceIds.call, SpaceIds.select, SpaceIds.create]
      simp [SpaceIds.initial, hroot]
    rw [hselect] at hcurrent hcircle
    exact ⟨hcurrent, fun spaceId => hcircle.find_isSome.trans List.mem_pair⟩

end start

/-! ## The spaces of a history -/

section history
variable {p : Platform} {start s s' : CoordinateState} {m m' : Machine} {base : Context}
  {history : List CoordinateEvent} {outs : List ThreadEvent} {spaceId : Nat}

theorem EntersSpace.newSpace {k node : Nat} {t : ThreadState} {scope : SpaceScope}
    {ptr : OrdinalPtr} (h : EntersSpace m k spaceId m' node t scope ptr) {n : Nat}
    (hold : m.tstate.spaces.length ≤ n) (hn : n < m'.tstate.spaces.length) :
    (m'.tstate.space n).spaceId = spaceId ∧ m'.currentSpaceId = spaceId := by
  have hresult := h.result
  subst hresult
  obtain ⟨hash, hfresh⟩ := h.grown.fresh n hold hn
  refine ⟨?_, (h.grown.circle.find_some h.found).2⟩
  change (t.space n).spaceId = spaceId
  rw [hfresh]
  rfl

theorem Effect.newSpace {event : ThreadEvent} (h : Effect m event m') {n : Nat}
    (hold : m.tstate.spaces.length ≤ n) (hn : n < m'.tstate.spaces.length) :
    ∃ added, event.enters = some added ∧ (m'.tstate.space n).spaceId = added ∧
      m'.currentSpaceId = added := by
  have hsame : m'.tstate.spaces.length = m.tstate.spaces.length →
      ∃ added, event.enters = some added ∧ (m'.tstate.space n).spaceId = added ∧
        m'.currentSpaceId = added := by
    intro hlength
    omega
  cases h with
  | call off limit => exact hsame (pushFrame_length _ _ _)
  | resume off limit => exact hsame (pushFrame_length _ _ _)
  | newGenerator off => exact hsame rfl
  | begin top => exact hsame rfl
  | leave top current space node_eq previous ne => exact hsame (popFrame_length _ _ _ _ _)
  | leaveInactive => exact hsame rfl
  | enterFails unused => exact hsame rfl
  | enterSpace unused enters => exact ⟨_, rfl, enters.newSpace hold hn⟩
  | leaveSpace top => exact hsame (leaveSpace_length _ _)
  | callbackFails unused idle => exact hsame rfl
  | callbackBegin top unused idle enters => exact ⟨_, rfl, enters.newSpace hold hn⟩
  | callbackEnd top => exact hsame (leaveSpace_length _ _)
  | threadDelta =>
    rename_i taken allocates tupleAllocates
    apply hsame
    obtain heq | ⟨node, -, heq⟩ := threadDelta_cases m taken allocates tupleAllocates
    · rw [heq]
    · rw [heq, rememberDelta_length]

theorem UsedBefore.append (h : UsedBefore p start history spaceId)
    (more : List CoordinateEvent) : UsedBefore p start (history ++ more) spaceId := by
  obtain ⟨before, rest, mid, outs, rfl, hrun, hcurrent⟩ := h
  exact ⟨before, rest ++ more, mid, outs, List.append_assoc _ _ _, hrun, hcurrent⟩

theorem usedBefore_current (hrun : coordinateSteps p history start = some (s, outs)) :
    UsedBefore p start history s.machine.currentSpaceId :=
  ⟨history, [], s, outs, (List.append_nil _).symm, hrun, rfl⟩

theorem space_used (hidle : Idle start.machine)
    (hstart : ∀ spaceId, (findThreadSpace start.machine.tstate spaceId).isSome = true →
      spaceId = spaceIdRoot ∨ spaceId = start.machine.currentSpaceId)
    (hrun : coordinateSteps p history start = some (s, outs)) {n : Nat}
    (hn : n < s.machine.tstate.spaces.length) :
    (s.machine.tstate.space n).spaceId = spaceIdRoot ∨
      UsedBefore p start history (s.machine.tstate.space n).spaceId := by
  refine @StepRun.run_induction _ _ _ _ (fun events s _ => ∀ n < s.machine.tstate.spaces.length,
    (s.machine.tstate.space n).spaceId = spaceIdRoot ∨
      UsedBefore p start events (s.machine.tstate.space n).spaceId)
    _ ?_ ?_ _ _ _ hrun n hn
  · intro n hn
    have hfind := hidle.circle.find_eq hn
    refine (hstart _ (Option.isSome_of_eq_some hfind)).imp_right (fun hcurrent => ?_)
    rw [hcurrent]
    exact usedBefore_current rfl
  · intro events mid outs e next out hevents ih hstep n hn
    have hstanding := hidle.standing.run (coordinateSteps_thread hevents)
    obtain ⟨base, -, hseg⟩ := hstanding.segment
    obtain ⟨-, hsame⟩ | ⟨event, -, hthread⟩ := coordinateStep_cases hstep
    · rw [hsame] at hn ⊢
      exact (ih n hn).imp_right (fun h => h.append [e])
    · have heffect := (hstanding.step hthread).2
      obtain ⟨kept, hsaved, -⟩ := heffect.kept hseg.contextOk hseg.nodup
      by_cases hold : n < mid.machine.tstate.spaces.length
      · rw [hsaved.spaceId n hold]
        exact (ih n hold).imp_right (fun h => h.append [e])
      · right
        obtain ⟨added, -, hid, hcurrent⟩ := heffect.newSpace (Nat.le_of_not_lt hold) hn
        rw [hid, ← hcurrent]
        exact usedBefore_current (StepRun.run_append.mpr
          ⟨mid, outs, out, hevents, StepRun.run_singleton.mpr hstep, rfl⟩)

theorem UsedBefore.found (h : UsedBefore p start history spaceId) (hidle : Idle start.machine)
    (hrun : coordinateSteps p history start = some (s, outs)) :
    ∃ n, findThreadSpace s.machine.tstate spaceId = some n := by
  obtain ⟨before, rest, mid, first, rfl, hbefore, rfl⟩ := h
  obtain ⟨mid', first', more, hbefore', hrest, -⟩ := StepRun.run_append.mp hrun
  cases hbefore.symm.trans hbefore'
  have hstanding := hidle.standing.run (coordinateSteps_thread hbefore)
  obtain ⟨base, -, hseg⟩ := hstanding.segment
  have hfind := hseg.circle.find_eq hseg.contextOk.space
  exact ⟨_, (hstanding.spaceKept (coordinateSteps_thread hrest) hfind).1⟩

end history

/-! ## A call in new coordinates -/

/-- An entry that adds the space it makes current. -/
structure EntersNew (m : Machine) (k spaceId : Nat) (m' : Machine) (node : Nat) : Prop where
  room : m.tstate.spaces.length ≤ node
  current : m'.tstate.currentSpace = node
  space : ∃ rootHash, m'.tstate.space node = initializeSpaceState spaceId rootHash 0
  stack : m'.tstate.stack = .scope k :: m.tstate.stack
  scope : (m'.scopes k).space = node
  frames : m'.frames = m.frames
  address : m'.tstate.address = m.tstate.address

section fresh
variable {p : Platform} {m m' : Machine} {l : Ledger} {base : Context} {k spaceId node : Nat}

theorem EntersSpace.entersNew {t : ThreadState} {scope : SpaceScope} {ptr : OrdinalPtr}
    (h : EntersSpace m k spaceId m' node t scope ptr) (hcircle : Circle m.tstate)
    (hnone : findThreadSpace m.tstate spaceId = none) :
    EntersNew m k spaceId (m'.push (.scope k)) node := by
  obtain ⟨hlt, hid⟩ := h.grown.circle.find_some h.found
  have hroom : m.tstate.spaces.length ≤ node := by
    by_contra hold
    have hold : node < m.tstate.spaces.length := Nat.lt_of_not_le hold
    rw [h.grown.space node hold] at hid
    exact hcircle.find_none hnone node hold hid
  have hsame := h.grown.same
  have hresult := h.result
  subst hresult
  refine ⟨hroom, rfl, h.grown.fresh node hroom hlt, ?_, ?_, rfl, ?_⟩
  · change StackItem.scope k :: t.stack = _
    rw [hsame]
  · change (Function.update m.scopes k scope k).space = node
    rw [Function.update_self]
    exact h.space
  · change t.address = _
    rw [hsame]

theorem Standing.entersNew (h : Standing m l) (hnone : findThreadSpace m.tstate spaceId = none)
    (hstep : threadStep p m (.enterSpace k spaceId true) = some m') :
    ∃ node, EntersNew m k spaceId m' node := by
  obtain ⟨base, -, hseg⟩ := h.segment
  have hpushed := enterSpace_pushes hstep
  cases (h.step hstep).2 with
  | enterFails unused => exact absurd hpushed unused
  | enterSpace unused enters => exact ⟨_, enters.entersNew hseg.circle hnone⟩

theorem EntersNew.hidden (h : EntersNew m k spaceId m' node) (hseg : Segment [] base m) {f : Nat}
    (hf : .frame f ∈ m.tstate.stack) : (m'.frames f).space ≠ some (m'.spacePtr node) := by
  obtain ⟨n, hn, hspace⟩ := hseg.frame_space hf
  have hroom := h.room
  rw [h.frames, hspace]
  simp only [Machine.spacePtr, ne_eq, Option.some.injEq, SpacePtr.mk.injEq, not_and]
  omega

theorem EntersNew.alone {mid : Machine} {base' : Context} {f : Nat}
    (h : EntersNew m k spaceId mid node)
    (hseg : Segment [] base m) (hsaved : SavedOn mid.tstate.stack mid m')
    (hmid : node < mid.tstate.spaces.length) (hseg' : Segment [] base' m') (hseen : SeenFrames m')
    (htop : m'.tstate.stack = .frame f :: mid.tstate.stack)
    (hvisible : frameIsVisible (m'.frames f) = true) :
    coordinates m' spaceId 0 =
      some [frameCoordinate (m'.frames f), (m'.frames f).currentCallOrdinal] := by
  have hmember : k ∈ scopeIds mid.tstate.stack := by
    rw [h.stack]
    exact List.mem_cons_self
  have hscope : (m'.scopes k).space = node := by
    have hsame := hsaved.scope k hmember
    simp only [SpaceScope.mk.injEq] at hsame
    rw [hsame.2.2.2.1, h.scope]
  have hid : (m'.tstate.space node).spaceId = spaceId := by
    obtain ⟨rootHash, hfresh⟩ := h.space
    rw [hsaved.spaceId node hmid, hfresh]
    rfl
  rw [h.stack] at htop
  obtain ⟨hspace, hcurrent⟩ := hseg'.scopedFrame htop
  rw [hscope] at hspace hcurrent
  have hfind : findThreadSpace m'.tstate spaceId = some node := by
    have hfound := hseg'.circle.find_eq (Nat.lt_of_lt_of_le hmid hsaved.length)
    rwa [hid] at hfound
  have hchain : threadStateFrame m' node = f :: frameChain m.tstate.stack := by
    unfold threadStateFrame Machine.currentSpaceId Machine.chain
    rw [hcurrent, if_neg (by simp), htop]
    rfl
  have hbelow : ∀ g ∈ frameChain m.tstate.stack, m'.visibleIn (m'.spacePtr node) g = false := by
    intro g hg
    have hon := mem_frameChain.mp hg
    refine visibleIn_eq_false ?_
    rw [(hsaved.frame g (h.stack ▸ List.mem_cons_of_mem _ hon)).1, hsaved.spacePtr]
    exact h.hidden hseg hon
  have hshown : m'.visibleIn (m'.spacePtr node) f = true := by
    unfold Machine.visibleIn
    rw [hspace, hvisible, beq_self_eq_true]
    rfl
  have hothers : (frameChain m.tstate.stack).filter (m'.visibleIn (m'.spacePtr node)) = [] :=
    List.filter_eq_nil_iff.mpr (fun g hg => by simp [hbelow g hg])
  unfold coordinates
  rw [hfind]
  dsimp only
  rw [if_pos (hseen f node hspace), hchain, List.drop_zero, coordinatesOf_eq, frameWords_listed,
    List.filter_cons_of_pos hshown, hothers]
  rfl

theorem enterSpace_full (p : Platform) (m : Machine) (k : Nat)
    (hnone : findThreadSpace m.tstate spaceId = none) : enterSpace p m k spaceId false = none := by
  unfold enterSpace getThreadSpace
  rw [hnone]
  rfl

theorem Standing.found_step (h : Standing m l) (hdynamic : spaceIdDisabled < spaceId)
    {event : ThreadEvent} (hstep : threadStep p m event = some m') :
    (findThreadSpace m'.tstate spaceId).isSome = true ↔
      (findThreadSpace m.tstate spaceId).isSome = true ∨ event.asksFor spaceId = true := by
  obtain ⟨hnext, heffect⟩ := h.step hstep
  obtain ⟨base, -, hseg⟩ := h.segment
  obtain ⟨base', -, hseg'⟩ := hnext.segment
  have hone : threadRun p [event] m = some m' := by
    rw [threadRun_cons, hstep]
    rfl
  cases hfind : findThreadSpace m.tstate spaceId with
  | some n =>
    rw [(h.spaceKept hone hfind).1]
    simp
  | none =>
    simp only [Option.isSome_none, Bool.false_eq_true, false_or]
    constructor
    · intro hsome
      obtain ⟨n, hn⟩ := Option.isSome_iff_exists.mp hsome
      obtain ⟨hlt, hid⟩ := hseg'.circle.find_some hn
      obtain ⟨kept, hsaved, -⟩ := heffect.kept hseg.contextOk hseg.nodup
      have hnew : m.tstate.spaces.length ≤ n := by
        by_contra hold
        have hold : n < m.tstate.spaces.length := Nat.lt_of_not_le hold
        rw [hsaved.spaceId n hold] at hid
        exact hseg.circle.find_none hfind n hold hid
      obtain ⟨added, henters, hadded, -⟩ := heffect.newSpace hnew hlt
      rw [hid] at hadded
      subst hadded
      cases event with
      | enterSpace k asked allocates =>
        cases Option.some.inj henters
        cases allocates with
        | true => exact beq_self_eq_true _
        | false =>
          -- an entry that fails adds nothing
          simp only [threadStep, enterSpace_full p m k hfind] at hstep
          split at hstep
          · cases hstep
          · cases hstep
            omega
      | callbackBegin k allocates =>
        cases Option.some.inj henters
        exact absurd hdynamic (Nat.lt_irrefl _)
      | _ => cases henters
    · intro hasks
      cases event with
      | enterSpace k asked allocates =>
        rw [ThreadEvent.asksFor, Bool.and_eq_true, beq_iff_eq] at hasks
        obtain ⟨rfl, rfl⟩ := hasks
        obtain ⟨node, hentered⟩ := h.entersNew hfind hstep
        obtain ⟨rootHash, hfresh⟩ := hentered.space
        have hlt : m'.tstate.currentSpace < m'.tstate.spaces.length := hseg'.contextOk.space
        rw [hentered.current] at hlt
        have hfound := hseg'.circle.find_eq hlt
        rw [hfresh] at hfound
        exact Option.isSome_of_eq_some hfound
      | _ => cases hasks

theorem Standing.found_run (h : Standing m l) (hdynamic : spaceIdDisabled < spaceId)
    {events : List ThreadEvent} (hrun : threadRun p events m = some m') :
    (findThreadSpace m'.tstate spaceId).isSome = true ↔
      (findThreadSpace m.tstate spaceId).isSome = true ∨
        ∃ event ∈ events, event.asksFor spaceId = true := by
  induction events generalizing m l with
  | nil =>
    cases hrun
    simp
  | cons event events ih =>
    rw [threadRun_cons, Option.bind_eq_some_iff] at hrun
    obtain ⟨mid, hstep, hrun⟩ := hrun
    rw [ih (h.step hstep).1 hrun, h.found_step hdynamic hstep, List.exists_mem_cons_iff, or_assoc]

theorem withNewCoordinates_room (p : Platform) (s : CoordinateState)
    (hunused : k ∉ scopeIds s.machine.tstate.stack) :
    ∃ s' out, coordinateStep p s (.withNewCoordinates k true) = some (s', out) := by
  obtain ⟨m, henter, -⟩ := enterSpace_room p s.machine k s.ids.next
  unfold coordinateStep
  simp only [DynamicSpaceIds.allocate, threadStep, henter, if_neg hunused]
  exact ⟨_, _, rfl⟩

/-- With room for the space, a call in new coordinates starts afresh if the thread does not have
it. -/
theorem startsFresh_of_none {s s' : CoordinateState} {out : List ThreadEvent}
    (h : Standing s.machine l) (hseen : SeenFrames s.machine)
    (hnone : findThreadSpace s.machine.tstate s.ids.next = none)
    (hstep : coordinateStep p s (.withNewCoordinates k true) = some (s', out)) :
    StartsFresh p s.ids.next s' := by
  obtain ⟨m, hthread, heq⟩ := Option.map_eq_some_iff.mp hstep
  cases heq
  obtain ⟨node, hentered⟩ := h.entersNew hnone hthread
  have hnext := (h.step hthread).1
  obtain ⟨base, -, hseg⟩ := h.segment
  obtain ⟨base', -, hseg'⟩ := hnext.segment
  have hnode : node < m.tstate.spaces.length := hentered.current ▸ hseg'.contextOk.space
  have hseen' : SeenFrames m := hseen.run h (show threadRun p [_] s.machine = some m by
    rw [threadRun_cons, hthread]
    rfl)
  obtain ⟨rootHash, hfresh⟩ := hentered.space
  refine ⟨?_, ?_, ?_, ?_⟩
  · change (m.tstate.space m.tstate.currentSpace).spaceId = _
    rw [hentered.current, hfresh]
    rfl
  · change (m.tstate.space m.tstate.currentSpace).rootCallOrdinal = 0
    rw [hentered.current, hfresh]
    rfl
  · intro f hf
    have hon : .frame f ∈ s.machine.tstate.stack := by
      have hmem := mem_frameChain.mp hf
      rw [show m.tstate.stack = _ from hentered.stack, List.mem_cons] at hmem
      exact hmem.resolve_left StackItem.noConfusion
    refine visibleIn_eq_false ?_
    change (m.frames f).space ≠ some (m.spacePtr m.tstate.currentSpace)
    rw [hentered.current]
    exact hentered.hidden hseg hon
  · intro events last outs f hrun hstays htop hvisible
    have hsaved := hstays.saved hnext hrun
    have hthreads := coordinateSteps_thread hrun
    obtain ⟨base'', -, hlast⟩ := (hnext.run hthreads).segment
    exact hentered.alone hseg hsaved hnode hlast (hseen'.run hnext hthreads) htop hvisible

/-- A call in new coordinates runs in a fresh space, if and only if the thread did not inherit the
space that the counter names and no earlier call of the thread has asked for it. -/
theorem withNewCoordinates_fresh_iff {address inherited threadId : Nat} {ids : DynamicSpaceIds}
    {history : List CoordinateEvent} {s : CoordinateState} {outs : List ThreadEvent}
    (hrun : coordinateSteps p history ⟨ids, startThread p address inherited threadId⟩ =
      some (s, outs)) :
    RunsFresh p ⟨ids, startThread p address inherited threadId⟩ history s ↔
      s.ids.next ≠ inherited ∧ ∀ event ∈ outs, event.asksFor s.ids.next = false := by
  have hidle := startThread_idle p address inherited threadId
  obtain ⟨hcurrent, hids⟩ := startThread_ids p address inherited threadId
  have hthread := coordinateSteps_thread hrun
  have hstanding := hidle.standing.run hthread
  obtain ⟨base, -, hseg⟩ := hstanding.segment
  have hdynamic := s.ids.dynamic
  have hroot : s.ids.next ≠ spaceIdRoot := by
    unfold spaceIdDisabled at hdynamic
    unfold spaceIdRoot
    omega
  have hstart := (hids s.ids.next).trans (or_iff_right hroot)
  have hfound := (hidle.standing.found_run hdynamic hthread).trans (or_congr_left hstart)
  have hnone : findThreadSpace s.machine.tstate s.ids.next = none ↔
      s.ids.next ≠ inherited ∧ ∀ event ∈ outs, event.asksFor s.ids.next = false := by
    rw [← Option.not_isSome_iff_eq_none, hfound]
    simp
  rw [← hnone]
  constructor
  · intro h
    cases hfind : findThreadSpace s.machine.tstate s.ids.next with
    | none => rfl
    | some n =>
      obtain ⟨hlt, hid⟩ := hseg.circle.find_some hfind
      have hused := space_used hidle (fun spaceId hsome =>
        ((hids spaceId).mp hsome).imp_right (fun heq => heq.trans hcurrent.symm)) hrun hlt
      rw [hid] at hused
      exact absurd (hused.resolve_left hroot) h.unused
  · intro hfind
    refine ⟨⟨hroot, Nat.ne_of_gt hdynamic⟩, ?_, ?_⟩
    · intro hused
      obtain ⟨n, hn⟩ := hused.found hidle hrun
      rw [hfind] at hn
      cases hn
    · intro k hunused
      obtain ⟨s', out, hstep⟩ := withNewCoordinates_room p s hunused
      exact ⟨s', out, hstep, startsFresh_of_none hstanding
        (hidle.seenFrames.run hidle.standing hthread) hfind hstep⟩

/-- Another space is named by hand, and another thread takes an id. -/
theorem withNewCoordinates_fresh_iff_taken :
    ∃ s, coordinateSteps ⟨true, true⟩ [.thread (.enterSpace 0 5 true), .thread .leaveSpace,
        .allocateSpaceId] ⟨.initial, startThread ⟨true, true⟩ 0 0 1⟩ =
          some (s, [.enterSpace 0 5 true, .leaveSpace]) ∧
      s.ids.next = 3 ∧
      RunsFresh ⟨true, true⟩ ⟨.initial, startThread ⟨true, true⟩ 0 0 1⟩
        [.thread (.enterSpace 0 5 true), .thread .leaveSpace, .allocateSpaceId] s :=
  ⟨_, rfl, rfl, (withNewCoordinates_fresh_iff rfl).mpr ⟨by decide, by decide⟩⟩

/-- The first space that the counter names is one that the thread has named by hand: the call
starts in it after an earlier one. -/
theorem withNewCoordinates_named :
    ∃ s s' out, coordinateSteps ⟨true, true⟩ [.thread (.enterSpace 0 2 true), .thread .leaveSpace]
        ⟨.initial, startThread ⟨true, true⟩ 0 0 1⟩ = some (s, [.enterSpace 0 2 true, .leaveSpace]) ∧
      coordinateStep ⟨true, true⟩ s (.withNewCoordinates 0 true) = some (s', out) ∧
      s'.machine.currentSpaceId = 2 ∧
      (s'.machine.tstate.space s'.machine.tstate.currentSpace).rootCallOrdinal = 1 ∧
      ¬RunsFresh ⟨true, true⟩ ⟨.initial, startThread ⟨true, true⟩ 0 0 1⟩
        [.thread (.enterSpace 0 2 true), .thread .leaveSpace] s := by
  refine ⟨_, _, _, rfl, rfl, rfl, rfl, ?_⟩
  intro h
  obtain ⟨s', out, hstep, hfresh⟩ := h.starts 0 (by decide)
  cases hstep
  have hordinal := hfresh.ordinal
  revert hordinal
  decide

end fresh

end Retrace
