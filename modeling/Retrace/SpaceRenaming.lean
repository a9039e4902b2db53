import Retrace.OrdinalCounts

/-! What the events of a thread depend on of the numbers of its spaces. -/

set_option autoImplicit false

namespace Retrace

def SpaceState.rename (ρ : Nat → Nat) (space : SpaceState) : SpaceState :=
  { space with spaceId := ρ space.spaceId }

def ThreadState.rename (ρ : Nat → Nat) (t : ThreadState) : ThreadState :=
  { t with
    spaces := t.spaces.map (SpaceState.rename ρ)
    inheritedSpaceId := ρ t.inheritedSpaceId }

def SpaceScope.rename (ρ : Nat → Nat) (scope : SpaceScope) : SpaceScope :=
  { scope with previousSpaceId := ρ scope.previousSpaceId }

def Machine.rename (ρ : Nat → Nat) (m : Machine) : Machine where
  tstate := m.tstate.rename ρ
  frames := m.frames
  scopes k := (m.scopes k).rename ρ

def ThreadEvent.rename (ρ : Nat → Nat) : ThreadEvent → ThreadEvent
  | .enterSpace k spaceId allocates => .enterSpace k (ρ spaceId) allocates
  | .threadDelta spaceId allocates tupleAllocates =>
    .threadDelta (ρ spaceId) allocates tupleAllocates
  | event => event

/-- Different numbers stay different, and the two reserved spaces stay what they are. -/
structure Renames (ρ : Nat → Nat) : Prop where
  injective : Function.Injective ρ
  root : ρ spaceIdRoot = spaceIdRoot
  disabled : ρ spaceIdDisabled = spaceIdDisabled

section spaces
variable {p : Platform} {ρ : Nat → Nat} {t : ThreadState}

theorem space_rename (hρ : Renames ρ) (t : ThreadState) (n : Nat) :
    (t.rename ρ).space n = (t.space n).rename ρ := by
  have hdefault : (initializeSpaceState 0 0 0).rename ρ = initializeSpaceState 0 0 0 := by
    unfold SpaceState.rename initializeSpaceState
    simp only [SpaceState.mk.injEq, and_true]
    exact hρ.root
  unfold ThreadState.space ThreadState.rename
  simp only [List.getD_eq_getElem?_getD, List.getElem?_map]
  cases t.spaces[n]? with
  | none => exact hdefault.symm
  | some space => rfl

theorem updateSpace_rename (t : ThreadState) (n : Nat) (f : SpaceState → SpaceState)
    (hf : ∀ space, (f space).rename ρ = f (space.rename ρ)) :
    (t.updateSpace n f).rename ρ = (t.rename ρ).updateSpace n f := by
  unfold ThreadState.updateSpace ThreadState.rename
  simp only [ThreadState.mk.injEq, and_true, true_and]
  apply List.ext_getElem?
  intro i
  simp only [List.getElem?_map, List.getElem?_modify]
  cases t.spaces[i]? with
  | none => rfl
  | some space =>
    simp only [Option.map_some, Option.map_eq_map]
    split
    · exact congrArg some (hf space)
    · rfl

theorem findThreadSpace_rename (hρ : Renames ρ) (t : ThreadState) (spaceId : Nat) :
    findThreadSpace (t.rename ρ) (ρ spaceId) = findThreadSpace t spaceId := by
  have hloop : ∀ fuel node, findThreadSpaceLoop (t.rename ρ) (ρ spaceId) fuel node =
      findThreadSpaceLoop t spaceId fuel node := by
    intro fuel
    induction fuel with
    | zero => intro node; rfl
    | succ fuel ih =>
      intro node
      unfold findThreadSpaceLoop
      rw [space_rename hρ, ih]
      have hid : ((t.space node).rename ρ).spaceId = ρ spaceId ↔
          (t.space node).spaceId = spaceId := hρ.injective.eq_iff
      simp only [hid]
      rfl
  unfold findThreadSpace
  rw [hloop, space_rename hρ]
  change (findThreadSpaceLoop t spaceId (t.spaces.map _).length _).join = _
  rw [List.length_map]
  rfl

theorem threadOwnsSpace_rename (hρ : Renames ρ) (t : ThreadState) (candidate : SpacePtr) :
    threadOwnsSpace (t.rename ρ) candidate = threadOwnsSpace t candidate := by
  have hloop : ∀ fuel node, threadOwnsSpaceLoop (t.rename ρ) candidate fuel node =
      threadOwnsSpaceLoop t candidate fuel node := by
    intro fuel
    induction fuel with
    | zero => intro node; rfl
    | succ fuel ih =>
      intro node
      unfold threadOwnsSpaceLoop
      rw [space_rename hρ, ih]
      rfl
  unfold threadOwnsSpace
  rw [hloop, space_rename hρ]
  change (threadOwnsSpaceLoop t candidate (t.spaces.map _).length _).getD false = _
  rw [List.length_map]
  rfl

theorem getThreadSpace_rename (hρ : Renames ρ) (t : ThreadState) (spaceId : Nat)
    (allocates : Bool) : getThreadSpace p (t.rename ρ) (ρ spaceId) allocates =
      ((getThreadSpace p t spaceId allocates).1,
        (getThreadSpace p t spaceId allocates).2.rename ρ) := by
  unfold getThreadSpace
  rw [findThreadSpace_rename hρ]
  cases findThreadSpace t spaceId with
  | some node => rfl
  | none =>
    cases allocates with
    | false => rfl
    | true =>
      have hlength : (t.rename ρ).spaces.length = t.spaces.length := List.length_map _
      have hlast : (t.updateSpace t.lastSpace (fun last =>
          { last with next := t.spaces.length })).rename ρ = (t.rename ρ).updateSpace t.lastSpace
            (fun last => { last with next := t.spaces.length }) :=
        updateSpace_rename t t.lastSpace _ (fun _ => rfl)
      simp only [if_true, hlength, space_rename hρ, Prod.mk.injEq, true_and]
      change ThreadState.mk _ _ ((((t.rename ρ).updateSpace t.lastSpace _).spaces) ++ _)
        _ _ _ _ _ _ _ = _
      rw [← hlast]
      unfold ThreadState.rename
      simp only [List.map_append]
      rfl

theorem setCurrentSpaceById_rename (hρ : Renames ρ) (t : ThreadState) (spaceId : Nat)
    (allocates : Bool) : setCurrentSpaceById p (t.rename ρ) (ρ spaceId) allocates =
      ((setCurrentSpaceById p t spaceId allocates).1,
        (setCurrentSpaceById p t spaceId allocates).2.rename ρ) := by
  unfold setCurrentSpaceById
  rw [getThreadSpace_rename hρ]
  obtain ⟨node, t'⟩ := getThreadSpace p t spaceId allocates
  cases node with
  | none => rfl
  | some node =>
    simp only [space_rename hρ]
    rfl

theorem currentSpace_rename (hρ : Renames ρ) (t : ThreadState) (allocates : Bool) :
    currentSpace p (t.rename ρ) allocates =
      ((currentSpace p t allocates).1, (currentSpace p t allocates).2.rename ρ) := by
  have hid : ((t.rename ρ).space (t.rename ρ).currentSpace).spaceId ≠
      (t.rename ρ).inheritedSpaceId ↔
      (t.space t.currentSpace).spaceId ≠ t.inheritedSpaceId := by
    rw [space_rename hρ]
    exact hρ.injective.ne_iff
  unfold currentSpace
  simp only [hid]
  have hset := setCurrentSpaceById_rename (p := p) hρ t t.inheritedSpaceId allocates
  change setCurrentSpaceById p (t.rename ρ) (t.rename ρ).inheritedSpaceId allocates = _ at hset
  rw [hset]
  obtain ⟨status, t'⟩ := setCurrentSpaceById p t t.inheritedSpaceId allocates
  split
  · dsimp only
    split <;> rfl
  · rfl

end spaces

section machine
variable {p : Platform} {ρ : Nat → Nat} {m : Machine}

theorem rename_updateSpace (m : Machine) (n : Nat) (f : SpaceState → SpaceState)
    (hf : ∀ space, (f space).rename ρ = f (space.rename ρ)) :
    (m.rename ρ).updateSpace n f = (m.updateSpace n f).rename ρ := by
  unfold Machine.updateSpace Machine.rename
  rw [updateSpace_rename _ _ _ hf]

theorem rename_setScope (m : Machine) (k : Nat) (scope : SpaceScope) :
    (m.rename ρ).setScope k (scope.rename ρ) = (m.setScope k scope).rename ρ := by
  unfold Machine.setScope Machine.rename
  simp only [Machine.mk.injEq, true_and]
  funext j
  by_cases h : j = k
  · subst h
    simp
  · simp [Function.update_of_ne h]

theorem currentSpaceId_rename (hρ : Renames ρ) (m : Machine) :
    (m.rename ρ).currentSpaceId = ρ m.currentSpaceId :=
  congrArg SpaceState.spaceId (space_rename hρ m.tstate m.tstate.currentSpace)

theorem currentThreadFrame_rename (hρ : Renames ρ) (m : Machine) :
    currentThreadFrame (m.rename ρ) = currentThreadFrame m := by
  have hroot : (m.rename ρ).currentSpaceId ≠ spaceIdRoot ↔ m.currentSpaceId ≠ spaceIdRoot := by
    rw [currentSpaceId_rename hρ]
    nth_rewrite 1 [← hρ.root]
    exact hρ.injective.ne_iff
  unfold currentThreadFrame
  simp only [hroot]
  rfl

theorem threadStateFrame_rename (hρ : Renames ρ) (m : Machine) (node : Nat) :
    threadStateFrame (m.rename ρ) node = threadStateFrame m node := by
  have hother : (m.rename ρ).currentSpaceId ≠ ((m.rename ρ).tstate.space node).spaceId ↔
      m.currentSpaceId ≠ (m.tstate.space node).spaceId := by
    rw [currentSpaceId_rename hρ]
    change ρ _ ≠ ((m.tstate.rename ρ).space node).spaceId ↔ _
    rw [space_rename hρ]
    exact hρ.injective.ne_iff
  unfold threadStateFrame
  simp only [hother]
  rfl

theorem rename_incrementOrdinal (m : Machine) (ptr : OrdinalPtr) :
    (m.rename ρ).incrementOrdinal ptr = (m.incrementOrdinal ptr).rename ρ := by
  cases ptr with
  | frame f => rfl
  | root node => exact rename_updateSpace m node _ (fun _ => rfl)
  | scope k => exact rename_setScope m k { m.scopes k with
      localRootCallOrdinal := ((m.scopes k).localRootCallOrdinal + 1) % 2 ^ 64 }

theorem activateFrame_rename_off (hρ : Renames ρ) (m : Machine) (f : Nat) (allocates : Bool)
    (hoff : (m.frames f).space = none) :
    activateFrame p (m.rename ρ) f allocates = (activateFrame p m f allocates).rename ρ := by
  have hoff' : ((m.rename ρ).frames f).space = none := hoff
  have hcurrent : currentSpace p (m.rename ρ).tstate allocates = _ :=
    currentSpace_rename hρ m.tstate allocates
  unfold activateFrame
  simp only [hoff, hoff', Bool.false_eq_true, if_false, Option.isSome_none, hcurrent]
  obtain ⟨node, tstate⟩ := currentSpace p m.tstate allocates
  cases node with
  | none => rfl
  | some node =>
    dsimp only
    rw [← rename_updateSpace]
    · rfl
    · intro _
      rfl

theorem activateFrame_unowned {space : SpacePtr} (m : Machine) (f : Nat) (allocates : Bool)
    (hspace : (m.frames f).space = some space)
    (howned : threadOwnsSpace m.tstate space = false) : activateFrame p m f allocates =
      activateFrame p (m.setFrame f (frameStateInit (m.frames f))) f allocates := by
  have hoff : ((m.setFrame f (frameStateInit (m.frames f))).frames f).space = none := by
    simp [Machine.setFrame, frameStateInit]
  unfold activateFrame
  simp only [hspace, howned, hoff, Option.isSome_some, Option.isSome_none, Bool.false_eq_true,
    if_true, if_false]

theorem activateFrame_rename (hρ : Renames ρ) (m : Machine) (f : Nat) (allocates : Bool) :
    activateFrame p (m.rename ρ) f allocates = (activateFrame p m f allocates).rename ρ := by
  cases hspace : (m.frames f).space with
  | none => exact activateFrame_rename_off hρ m f allocates hspace
  | some space =>
    have hspace' : ((m.rename ρ).frames f).space = some space := hspace
    have howns : threadOwnsSpace (m.rename ρ).tstate space = threadOwnsSpace m.tstate space :=
      threadOwnsSpace_rename hρ m.tstate space
    cases howned : threadOwnsSpace m.tstate space with
    | true =>
      unfold activateFrame
      simp only [hspace, hspace', howns, howned, if_true]
    | false =>
      rw [activateFrame_unowned m f allocates hspace howned,
        activateFrame_unowned (m.rename ρ) f allocates hspace' (howns.trans howned)]
      exact activateFrame_rename_off hρ (m.setFrame f (frameStateInit (m.frames f))) f allocates
        (by simp [Machine.setFrame, frameStateInit])

@[simp] theorem rename_frames (m : Machine) : (m.rename ρ).frames = m.frames := rfl

@[simp] theorem rename_callOrdinalPtr (m : Machine) :
    (m.rename ρ).tstate.callOrdinalPtr = m.tstate.callOrdinalPtr := rfl

@[simp] theorem rename_currentSpace (m : Machine) :
    (m.rename ρ).tstate.currentSpace = m.tstate.currentSpace := rfl

theorem rename_setFrame (m : Machine) (f : Nat) (frame : InterpreterFrame) :
    (m.rename ρ).setFrame f frame = (m.setFrame f frame).rename ρ := rfl

theorem deactivateFrame_rename (hρ : Renames ρ) (m : Machine) (f : Nat) :
    deactivateFrame (m.rename ρ) f = (deactivateFrame m f).rename ρ := by
  cases hspace : (m.frames f).space with
  | none =>
    unfold deactivateFrame
    simp only [rename_frames, hspace]
  | some space =>
    have howned : threadOwnsSpace (m.rename ρ).tstate space = threadOwnsSpace m.tstate space :=
      threadOwnsSpace_rename hρ m.tstate space
    have hptr : ∀ previous, (if (m.rename ρ).tstate.callOrdinalPtr = some (.frame f) then
        (m.rename ρ).setPtr previous else m.rename ρ) =
        (if m.tstate.callOrdinalPtr = some (.frame f) then m.setPtr previous else m).rename ρ := by
      intro previous
      change (if m.tstate.callOrdinalPtr = some (.frame f) then _ else _) = _
      split <;> rfl
    have hdepth : ∀ m : Machine, (m.rename ρ).updateSpace space.node (fun space =>
        { space with depth := if space.depth > 0 then space.depth - 1 else space.depth }) =
        (m.updateSpace space.node (fun space =>
          { space with depth := if space.depth > 0 then space.depth - 1 else space.depth })).rename
            ρ :=
      fun m => rename_updateSpace m _ _ (fun _ => rfl)
    have hlast : ∀ m : Machine, (if (m.rename ρ).tstate.callOrdinalPtr = none then
        (m.rename ρ).setPtr (some (.root (m.rename ρ).tstate.currentSpace)) else m.rename ρ) =
        (if m.tstate.callOrdinalPtr = none then
          m.setPtr (some (.root m.tstate.currentSpace)) else m).rename ρ := by
      intro m
      change (if m.tstate.callOrdinalPtr = none then _ else _) = _
      split <;> rfl
    unfold deactivateFrame
    simp only [rename_frames, hspace, howned]
    split
    · rfl
    · simp only [hptr]
      cases (m.frames f).previousCallOrdinalPtr with
      | none =>
        simp only [hdepth, rename_frames, rename_setFrame]
        exact hlast _
      | some ptr =>
        simp only [rename_incrementOrdinal, hdepth, rename_frames, rename_setFrame]
        exact hlast _

theorem enterSpace_rename (hρ : Renames ρ) (m : Machine) (k spaceId : Nat) (allocates : Bool) :
    enterSpace p (m.rename ρ) k (ρ spaceId) allocates =
      (enterSpace p m k spaceId allocates).map (Machine.rename ρ) := by
  have hget : getThreadSpace p (m.rename ρ).tstate (ρ spaceId) allocates = _ :=
    getThreadSpace_rename hρ m.tstate spaceId allocates
  unfold enterSpace
  rw [hget]
  obtain ⟨node, t⟩ := getThreadSpace p m.tstate spaceId allocates
  cases node with
  | none => rfl
  | some node =>
    have hnear : nearestVisibleFrameInSpace ((m.rename ρ).setTstate (t.rename ρ))
        (((m.rename ρ).setTstate (t.rename ρ)).spacePtr node)
        (currentThreadFrame ((m.rename ρ).setTstate (t.rename ρ))) =
        nearestVisibleFrameInSpace (m.setTstate t) ((m.setTstate t).spacePtr node)
          (currentThreadFrame (m.setTstate t)) := by
      rw [show currentThreadFrame ((m.rename ρ).setTstate (t.rename ρ)) = _ from
        currentThreadFrame_rename hρ (m.setTstate t)]
      rfl
    have hroot : ((t.rename ρ).space node).rootCallOrdinal = (t.space node).rootCallOrdinal := by
      rw [space_rename hρ]
      rfl
    have hscope : ∀ scope, ((m.rename ρ).setTstate (t.rename ρ)).setScope k (scope.rename ρ) =
        ((m.setTstate t).setScope k scope).rename ρ :=
      fun scope => rename_setScope (m.setTstate t) k scope
    have hcurrent : ∀ (m : Machine) (ptr : Option OrdinalPtr),
        ({ (m.rename ρ).setPtr ptr with tstate := { ((m.rename ρ).setPtr ptr).tstate with
            currentSpace := node, inheritedSpaceId := ρ spaceId } } : Machine) =
        Machine.rename ρ { m.setPtr ptr with tstate := { (m.setPtr ptr).tstate with
            currentSpace := node, inheritedSpaceId := spaceId } } :=
      fun _ _ => rfl
    simp only [hnear, hroot]
    cases nearestVisibleFrameInSpace (m.setTstate t) ((m.setTstate t).spacePtr node)
        (currentThreadFrame (m.setTstate t)) with
    | none =>
      simp only [Option.map_some, ← hcurrent, ← hscope]
      rfl
    | some parent =>
      simp only [Option.map_some, ← hcurrent, ← hscope]
      rfl

theorem leaveSpace_rename (m : Machine) (k : Nat) :
    leaveSpace (m.rename ρ) k = (leaveSpace m k).rename ρ := by
  unfold leaveSpace
  have hlocal : ((m.rename ρ).scopes k).useLocalRoot = (m.scopes k).useLocalRoot := rfl
  dsimp only
  rw [hlocal]
  cases (m.scopes k).useLocalRoot with
  | false => rfl
  | true =>
    simp only [if_true]
    have hreturn : ∀ m' : Machine, ({ m'.rename ρ with tstate := { (m'.rename ρ).tstate with
        currentSpace := (m.scopes k).previousSpace
        inheritedSpaceId := ρ (m.scopes k).previousSpaceId
        callOrdinalPtr := (m.scopes k).previousCallOrdinalPtr } } : Machine) =
        Machine.rename ρ { m' with tstate := { m'.tstate with
          currentSpace := (m.scopes k).previousSpace
          inheritedSpaceId := (m.scopes k).previousSpaceId
          callOrdinalPtr := (m.scopes k).previousCallOrdinalPtr } } :=
      fun _ => rfl
    rw [← hreturn, ← rename_updateSpace, ← rename_setScope]
    · rfl
    · intro _
      rfl

theorem deltaScan_rename (m : Machine) (space : SpacePtr) (chain : List Nat)
    (position common : Nat) : deltaScan (m.rename ρ) space chain position common =
      deltaScan m space chain position common := by
  induction chain generalizing position common with
  | nil => rfl
  | cons f rest ih =>
    have hv : (m.rename ρ).visibleIn space f = m.visibleIn space f := rfl
    have hshorten : ∀ position common, deltaShorten (m.rename ρ) space f position common =
        deltaShorten m space f position common := fun _ _ => rfl
    unfold deltaScan
    simp only [hv, hshorten, ih]

theorem deltaFill_rename (space : SpacePtr) (common : Nat) (chain : List Nat) (position : Nat)
    (delta : List Nat) (m : Machine) : deltaFill space common chain position delta (m.rename ρ) =
      ((deltaFill space common chain position delta m).1,
        (deltaFill space common chain position delta m).2.rename ρ) := by
  induction chain generalizing position delta m with
  | nil => rfl
  | cons f rest ih =>
    have hv : (m.rename ρ).visibleIn space f = m.visibleIn space f := rfl
    unfold deltaFill
    simp only [hv, rename_frames, rename_setFrame, ih]
    split <;> rfl

theorem threadDelta_rename (hρ : Renames ρ) (m : Machine) (spaceId : Nat)
    (allocates tupleAllocates : Bool) :
    threadDeltaForTstate (m.rename ρ) (ρ spaceId) allocates tupleAllocates =
      ((threadDeltaForTstate m spaceId allocates tupleAllocates).1,
        (threadDeltaForTstate m spaceId allocates tupleAllocates).2.rename ρ) := by
  have hfind : findThreadSpace (m.rename ρ).tstate (ρ spaceId) =
      findThreadSpace m.tstate spaceId := findThreadSpace_rename hρ m.tstate spaceId
  unfold threadDeltaForTstate
  rw [hfind]
  cases findThreadSpace m.tstate spaceId with
  | none => rfl
  | some node =>
    have hspace : (m.rename ρ).tstate.space node = (m.tstate.space node).rename ρ :=
      space_rename hρ m.tstate node
    have hseen : ((m.tstate.space node).rename ρ).seen = (m.tstate.space node).seen := rfl
    have hptr : (m.rename ρ).spacePtr node = m.spacePtr node := rfl
    have hcount : ∀ chain, coordinateCount (m.rename ρ) (m.spacePtr node) chain =
        coordinateCount m (m.spacePtr node) chain := fun _ => rfl
    have hinitial : ∀ size, deltaInitial ((m.tstate.space node).rename ρ) size =
        deltaInitial (m.tstate.space node) size := fun _ => rfl
    simp only [hspace, hseen, hptr, threadStateFrame_rename hρ, hcount, deltaScan_rename,
      hinitial]
    cases (m.tstate.space node).seen with
    | false => rfl
    | true =>
      cases allocates with
      | false => rfl
      | true =>
        simp only [Bool.not_true, Bool.false_eq_true, if_false, deltaFill_rename]
        rw [rename_updateSpace]
        · split <;> rfl
        · intro _
          rfl

theorem deactivateTimes_rename (hρ : Renames ρ) (m : Machine) (f n : Nat) :
    deactivateTimes (m.rename ρ) f n = (deactivateTimes m f n).rename ρ := by
  induction n generalizing m with
  | zero => rfl
  | succ n ih => rw [deactivateTimes, deactivateTimes, deactivateFrame_rename hρ, ih]

theorem enterFrame_rename (hρ : Renames ρ) (m : Machine) (f : Nat) (evalEntry allocates : Bool) :
    enterFrame p (m.rename ρ) f evalEntry allocates =
      (enterFrame p m f evalEntry allocates).rename ρ := by
  unfold enterFrame
  cases evalEntry with
  | false => exact activateFrame_rename hρ (m.push (.frame f)) f allocates
  | true =>
    exact activateFrame_rename hρ
      ((m.setFrame f (resetLastCoordinate (m.frames f))).push (.frame f)) f allocates

theorem callbackBegin_rename (hρ : Renames ρ) (m : Machine) (f k : Nat) (allocates : Bool) :
    callbackBegin p (m.rename ρ) f k allocates = (callbackBegin p m f k allocates).rename ρ := by
  have henter := enterSpace_rename (p := p) hρ { m with tstate := { m.tstate with
    threadCallbackFrame := some f, threadCallbackActive := true } } k spaceIdDisabled allocates
  rw [hρ.disabled] at henter
  unfold callbackBegin
  dsimp only
  rw [show enterSpace p { (m.rename ρ) with tstate := { (m.rename ρ).tstate with
    threadCallbackFrame := some f, threadCallbackActive := true } } k spaceIdDisabled allocates = _
    from henter]
  cases enterSpace p { m with tstate := { m.tstate with
    threadCallbackFrame := some f, threadCallbackActive := true } } k spaceIdDisabled allocates with
  | none => rfl
  | some m' => rfl

@[simp] theorem rename_stack (m : Machine) : (m.rename ρ).tstate.stack = m.tstate.stack := rfl

@[simp] theorem rename_chain (m : Machine) : (m.rename ρ).chain = m.chain := rfl

@[simp] theorem rename_threadCallbackActive (m : Machine) :
    (m.rename ρ).tstate.threadCallbackActive = m.tstate.threadCallbackActive := rfl

theorem threadStep_rename (hρ : Renames ρ) (m : Machine) (event : ThreadEvent) :
    threadStep p (m.rename ρ) (event.rename ρ) = (threadStep p m event).map (Machine.rename ρ) := by
  cases event with
  | call f firstTraceable evalEntry allocates =>
    simp only [ThreadEvent.rename, threadStep, rename_stack, rename_chain]
    by_cases h : .frame f ∈ m.tstate.stack ∨ recursionLimit ≤ m.chain.length
    · simp only [h, if_true, Option.map_none]
    · simp only [h, if_false, Option.map_some]
      exact congrArg some (enterFrame_rename hρ (m.setFrame f _) f evalEntry allocates)
  | resume f evalEntry allocates =>
    simp only [ThreadEvent.rename, threadStep, rename_stack, rename_chain]
    by_cases h : .frame f ∈ m.tstate.stack ∨ recursionLimit ≤ m.chain.length
    · simp only [h, if_true, Option.map_none]
    · simp only [h, if_false, Option.map_some]
      exact congrArg some (enterFrame_rename hρ m f evalEntry allocates)
  | newGenerator g lasti =>
    simp only [ThreadEvent.rename, threadStep, rename_stack]
    by_cases h : .frame g ∈ m.tstate.stack
    · simp only [h, if_true, Option.map_none]
    · simp only [h, if_false, Option.map_some, rename_setFrame]
  | begin jumps offset =>
    simp only [ThreadEvent.rename, threadStep, rename_stack]
    cases m.tstate.stack with
    | nil => rfl
    | cons item rest =>
      cases item with
      | frame f =>
        simp only [rename_frames, rename_setFrame, Option.map_some, Option.some.injEq]
        unfold resetCallOrdinal
        simp only [rename_frames, rename_setFrame]
        by_cases h : frameIsVisible ((m.setFrame f (moveFrame (m.frames f) jumps offset)).frames f)
        · simp only [h, if_true]
        · simp only [h, Bool.false_eq_true, if_false]
      | scope k => rfl
      | callback k => rfl
  | leave again =>
    simp only [ThreadEvent.rename, threadStep, rename_stack]
    cases m.tstate.stack with
    | nil => rfl
    | cons item rest =>
      cases item with
      | frame f =>
        simp only [deactivateTimes_rename hρ]
        rfl
      | scope k => rfl
      | callback k => rfl
  | leaveInactive f =>
    simp only [ThreadEvent.rename, threadStep, rename_stack]
    by_cases h : .frame f ∈ m.tstate.stack
    · simp only [h, if_true, Option.map_none]
    · simp only [h, if_false, Option.map_some]
      exact congrArg some (deactivateFrame_rename hρ m f)
  | enterSpace k spaceId allocates =>
    simp only [ThreadEvent.rename, threadStep, rename_stack, enterSpace_rename hρ]
    by_cases h : k ∈ scopeIds m.tstate.stack
    · simp only [h, if_true, Option.map_none]
    · simp only [h, if_false]
      cases enterSpace p m k spaceId allocates <;> rfl
  | leaveSpace =>
    simp only [ThreadEvent.rename, threadStep, rename_stack]
    cases m.tstate.stack with
    | nil => rfl
    | cons item rest =>
      cases item with
      | frame f => rfl
      | scope k =>
        simp only [leaveSpace_rename]
        rfl
      | callback k => rfl
  | callbackBegin k allocates =>
    simp only [ThreadEvent.rename, threadStep, rename_stack, rename_threadCallbackActive]
    by_cases h : k ∈ scopeIds m.tstate.stack ∨ m.tstate.threadCallbackActive = true
    · simp only [h, if_true]
      split <;> rfl
    · simp only [h, if_false, callbackBegin_rename hρ]
      split <;> rfl
  | callbackEnd =>
    simp only [ThreadEvent.rename, threadStep, rename_stack]
    cases m.tstate.stack with
    | nil => rfl
    | cons item rest =>
      cases item with
      | frame f => rfl
      | scope k => rfl
      | callback k =>
        unfold callbackEnd
        simp only [leaveSpace_rename]
        rfl
  | threadDelta spaceId allocates tupleAllocates =>
    exact congrArg (fun result => some result.2)
      (threadDelta_rename hρ m spaceId allocates tupleAllocates)

theorem coordinates_rename (hρ : Renames ρ) (m : Machine) (spaceId drop : Nat) :
    coordinates (m.rename ρ) (ρ spaceId) drop = coordinates m spaceId drop := by
  have hfind : findThreadSpace (m.rename ρ).tstate (ρ spaceId) =
      findThreadSpace m.tstate spaceId := findThreadSpace_rename hρ m.tstate spaceId
  unfold coordinates
  rw [hfind]
  cases findThreadSpace m.tstate spaceId with
  | none => rfl
  | some node =>
    have hspace : (m.rename ρ).tstate.space node = (m.tstate.space node).rename ρ :=
      space_rename hρ m.tstate node
    have hptr : (m.rename ρ).spacePtr node = m.spacePtr node := rfl
    have hwords : ∀ chain, frameWords (m.rename ρ) (m.spacePtr node) chain =
        frameWords m (m.spacePtr node) chain :=
      fun chain => frameWords_congr chain (fun _ _ => ⟨rfl, fun _ => ⟨rfl, rfl⟩⟩)
    simp only [hspace, hptr, threadStateFrame_rename hρ, coordinatesOf_eq, hwords]
    rfl

theorem coordinateHash_rename (hρ : Renames ρ) (m : Machine) (spaceId : Nat) :
    coordinateHash p (m.rename ρ) (ρ spaceId) = coordinateHash p m spaceId := by
  have hfind : findThreadSpace (m.rename ρ).tstate (ρ spaceId) =
      findThreadSpace m.tstate spaceId := findThreadSpace_rename hρ m.tstate spaceId
  unfold coordinateHash
  rw [hfind]
  cases findThreadSpace m.tstate spaceId with
  | none => rfl
  | some node =>
    have hspace : (m.rename ρ).tstate.space node = (m.tstate.space node).rename ρ :=
      space_rename hρ m.tstate node
    have hhash : ∀ chain, frameCoordinateHashInSpace p (m.rename ρ) node chain =
        frameCoordinateHashInSpace p m node chain := by
      intro chain
      induction chain with
      | nil =>
        unfold frameCoordinateHashInSpace rootCoordinateHash
        rw [hspace]
        rfl
      | cons f rest ih =>
        have hv : (m.rename ρ).visibleIn ((m.rename ρ).spacePtr node) f =
            m.visibleIn (m.spacePtr node) f := rfl
        unfold frameCoordinateHashInSpace
        rw [hv, ih]
        rfl
    simp only [hspace, threadStateFrame_rename hρ, hhash]
    rfl

end machine

end Retrace
