import Retrace.SpaceRenaming
import Retrace.ThreadStart
import Mathlib.Logic.Equiv.Basic

/-!
Two fresh spaces. A run in one is a run in the other with the two numbers exchanged, as long as
no thread starts in them: a thread's id begins with the number of the space it is started in.
-/

set_option autoImplicit false

namespace Retrace

def Process.rename (ρ : Nat → Nat) (proc : Process) : Process where
  threads i := (proc.threads i).rename ρ
  live := proc.live

def ProcessEvent.rename (ρ : Nat → Nat) : ProcessEvent → ProcessEvent
  | .run i event => .run i (event.rename ρ)
  | event => event

def ThreadEvent.spaceId? : ThreadEvent → Option Nat
  | .enterSpace _ spaceId _ => some spaceId
  | .threadDelta spaceId _ _ => some spaceId
  | _ => none

def ProcessEvent.spaceId? : ProcessEvent → Option Nat
  | .run _ event => event.spaceId?
  | _ => none

/-- The creator of a thread is in neither space, or ids cannot tell their numbers apart. -/
def startsOutside (s₁ s₂ : Nat) (proc : Process) : ProcessEvent → Bool
  | .start (some i) _ _ =>
    ((proc.threads i).currentSpaceId ≠ s₁ && (proc.threads i).currentSpaceId ≠ s₂) ||
      threadIdSpaceBits s₁ = threadIdSpaceBits s₂
  | _ => true

def runOutside (p : Platform) (seed : List Nat) (s₁ s₂ : Nat) :
    List ProcessEvent → Process → Bool
  | [], _ => true
  | event :: events, proc => startsOutside s₁ s₂ proc event &&
      match processStep p seed proc event with
      | none => true
      | some proc => runOutside p seed s₁ s₂ events proc

def startAgrees (ρ : Nat → Nat) (proc : Process) : ProcessEvent → Prop
  | .start (some i) _ _ =>
    threadIdSpaceBits (ρ (proc.threads i).currentSpaceId) =
      threadIdSpaceBits (proc.threads i).currentSpaceId
  | _ => True

section process
variable {p : Platform} {seed : List Nat} {ρ : Nat → Nat} {proc : Process}

theorem rename_setThread (proc : Process) (i : Nat) (m : Machine) :
    (proc.rename ρ).setThread i (m.rename ρ) = (proc.setThread i m).rename ρ := by
  unfold Process.setThread Process.rename
  simp only [Process.mk.injEq, and_true]
  funext j
  by_cases h : j = i
  · subst h
    simp
  · simp [Function.update_of_ne h]

theorem mixVisibleFrameCoordinates_rename (m : Machine) (space : Option SpacePtr)
    (chain : List Nat) (hash : Nat) :
    mixVisibleFrameCoordinates p (m.rename ρ) space chain hash =
      mixVisibleFrameCoordinates p m space chain hash := by
  induction chain with
  | nil => rfl
  | cons f rest ih =>
    unfold mixVisibleFrameCoordinates
    simp only [rename_frames, ih]

theorem threadIdSeed_rename (hρ : Renames ρ) (parent : Option Machine) (allocates : Bool) :
    threadIdSeed p seed (parent.map (Machine.rename ρ)) allocates =
      ((threadIdSeed p seed parent allocates).1,
        (threadIdSeed p seed parent allocates).2.map (Machine.rename ρ)) := by
  cases parent with
  | none => rfl
  | some m =>
    have hid : (m.rename ρ).tstate.threadId = m.tstate.threadId := rfl
    have hcurrent : currentSpace p (m.rename ρ).tstate allocates = _ :=
      currentSpace_rename hρ m.tstate allocates
    unfold threadIdSeed
    simp only [Option.map_some, hid, hcurrent]
    obtain ⟨space, tstate⟩ := currentSpace p m.tstate allocates
    have hset : (m.rename ρ).setTstate (tstate.rename ρ) = (m.setTstate tstate).rename ρ := rfl
    have hptr : ((m.setTstate tstate).rename ρ).spacePtr = (m.setTstate tstate).spacePtr := rfl
    simp only [hset, hptr, mixVisibleFrameCoordinates_rename, currentThreadFrame_rename hρ]
    split <;> rfl

theorem threadIdIsActive_rename (proc : Process) (skip threadId : Nat) :
    threadIdIsActive (proc.rename ρ) skip threadId = threadIdIsActive proc skip threadId := rfl

theorem composeThreadId_congr {spaceId spaceId' : Nat}
    (h : threadIdSpaceBits spaceId' = threadIdSpaceBits spaceId) (threadHash : Nat) :
    composeThreadId spaceId' threadHash = composeThreadId spaceId threadHash := by
  unfold composeThreadId
  rw [h]

theorem uniqueThreadId_rename {spaceId spaceId' : Nat}
    (h : threadIdSpaceBits spaceId' = threadIdSpaceBits spaceId) (proc : Process)
    (skip threadId fuel : Nat) : uniqueThreadId p (proc.rename ρ) skip spaceId' threadId fuel =
      uniqueThreadId p proc skip spaceId threadId fuel := by
  have hloop : ∀ fuel threadId retry,
      uniqueThreadIdLoop p (proc.rename ρ) skip spaceId' fuel threadId retry =
        uniqueThreadIdLoop p proc skip spaceId fuel threadId retry := by
    intro fuel
    induction fuel with
    | zero => intro _ _; rfl
    | succ fuel ih =>
      intro threadId retry
      unfold uniqueThreadIdLoop
      rw [threadIdIsActive_rename, composeThreadId_congr h, ih]
  unfold uniqueThreadId
  rw [composeThreadId_congr h, hloop]

theorem adoptThread_rename (hρ : Renames ρ) (proc : Process) (child inherited threadId : Nat)
    (allocates : Bool) :
    adoptThread p (proc.rename ρ) child (ρ inherited) threadId allocates =
      (adoptThread p proc child inherited threadId allocates).rename ρ := by
  have hroot := @updateSpace_rename ρ (proc.threads child).tstate 0
    (fun root => { root with rootCoordinateHash := threadId }) (fun _ => rfl)
  have hset := setCurrentSpaceById_rename (p := p) hρ
    { (proc.threads child).tstate.updateSpace 0
        (fun root => { root with rootCoordinateHash := threadId }) with
      threadId := threadId, inheritedSpaceId := inherited } inherited allocates
  have hstate : ThreadState.rename ρ { (proc.threads child).tstate.updateSpace 0
        (fun root => { root with rootCoordinateHash := threadId }) with
      threadId := threadId, inheritedSpaceId := inherited } =
      { ((proc.rename ρ).threads child).tstate.updateSpace 0
        (fun root => { root with rootCoordinateHash := threadId }) with
      threadId := threadId, inheritedSpaceId := ρ inherited } := by
    change _ = { ((proc.threads child).tstate.rename ρ).updateSpace 0 _ with
      threadId := threadId, inheritedSpaceId := ρ inherited }
    rw [← hroot]
    rfl
  rw [hstate] at hset
  unfold adoptThread
  dsimp only
  rw [hset, ← rename_setThread]
  rfl

theorem seedThreadState_rename (hρ : Renames ρ) (proc : Process) (parent : Option Nat)
    (child : Nat) (choices : StartChoices)
    (h : ∀ i, parent = some i → threadIdSpaceBits (ρ (proc.threads i).currentSpaceId) =
      threadIdSpaceBits (proc.threads i).currentSpaceId) :
    seedThreadState p seed (proc.rename ρ) parent child choices =
      (seedThreadState p seed proc parent child choices).map (Process.rename ρ) := by
  have h' : ∀ i, (if parent = some child then none else parent) = some i →
      threadIdSpaceBits (ρ (proc.threads i).currentSpaceId) =
        threadIdSpaceBits (proc.threads i).currentSpaceId := by
    intro i hi
    split at hi
    · cases hi
    · exact h i hi
  unfold seedThreadState
  generalize (if parent = some child then none else parent) = creator at h'
  cases creator with
  | none =>
    have hroot : threadIdSpaceBits spaceIdRoot = threadIdSpaceBits spaceIdRoot := rfl
    have hadopt := adoptThread_rename (p := p) hρ proc child spaceIdRoot
    rw [hρ.root] at hadopt
    simp only [Option.map_none, uniqueThreadId_rename hroot, hadopt, Option.map_map]
    rfl
  | some i =>
    have hseed := @threadIdSeed_rename p seed _ hρ (some (proc.threads i))
      choices.parentAllocates
    have hbits := h' i rfl
    have hcurrent : ((proc.rename ρ).threads i).currentSpaceId =
        ρ (proc.threads i).currentSpaceId := currentSpaceId_rename hρ (proc.threads i)
    simp only [Option.map_some] at hseed ⊢
    rw [show some ((proc.rename ρ).threads i) = some ((proc.threads i).rename ρ) from rfl, hseed,
      hcurrent]
    cases (threadIdSeed p seed (some (proc.threads i)) choices.parentAllocates).2 with
    | none =>
      simp only [Option.map_none, uniqueThreadId_rename hbits, adoptThread_rename hρ,
        Option.map_map]
      rfl
    | some m =>
      simp only [Option.map_some, rename_setThread, uniqueThreadId_rename hbits,
        adoptThread_rename hρ, Option.map_map]
      rfl

theorem freshMachine_rename (hρ : Renames ρ) (i : Nat) :
    (freshMachine p i).rename ρ = freshMachine p i := by
  have hroot : ρ 0 = 0 := hρ.root
  unfold Machine.rename ThreadState.rename freshMachine initializeThreadState SpaceScope.rename
  simp [SpaceState.rename, initializeSpaceState, spaceIdRoot, hroot]

theorem clearThreadState_rename (t : ThreadState) :
    clearThreadState (t.rename ρ) = (clearThreadState t).rename ρ := by
  unfold clearThreadState ThreadState.rename
  cases t.spaces <;> rfl

theorem newThreadstate_rename (hρ : Renames ρ) (proc : Process) (parent : Option Nat)
    (child : Nat) (choices : StartChoices) (hchild : parent ≠ some child)
    (h : ∀ i, parent = some i → threadIdSpaceBits (ρ (proc.threads i).currentSpaceId) =
      threadIdSpaceBits (proc.threads i).currentSpaceId) :
    newThreadstate p seed (proc.rename ρ) parent child choices =
      (newThreadstate p seed proc parent child choices).map (Process.rename ρ) := by
  unfold newThreadstate
  have hnew : ({ (proc.rename ρ).setThread child (freshMachine p child) with
      live := child :: (proc.rename ρ).live } : Process) =
      Process.rename ρ { proc.setThread child (freshMachine p child) with
        live := child :: proc.live } := by
    nth_rewrite 1 [← freshMachine_rename hρ child]
    rw [rename_setThread]
    rfl
  rw [hnew]
  apply seedThreadState_rename hρ
  intro i hi
  have hne : i ≠ child := fun heq => hchild (heq ▸ hi)
  have hsame : Function.update proc.threads child (freshMachine p child) i = proc.threads i :=
    Function.update_of_ne hne _ _
  change threadIdSpaceBits (ρ (Function.update proc.threads child _ i).currentSpaceId) =
    threadIdSpaceBits (Function.update proc.threads child _ i).currentSpaceId
  rw [hsame]
  exact h i hi

/-- The step of a process, as long as a started thread's id does not tell the numbers apart. -/
theorem processStep_rename (hρ : Renames ρ) (proc : Process) (event : ProcessEvent)
    (h : startAgrees ρ proc event) :
    processStep p seed (proc.rename ρ) (event.rename ρ) =
      (processStep p seed proc event).map (Process.rename ρ) := by
  have hlive : (proc.rename ρ).live = proc.live := rfl
  cases event with
  | run i event =>
    simp only [ProcessEvent.rename, processStep, hlive]
    by_cases hi : i ∈ proc.live
    · have hstep : threadStep p ((proc.rename ρ).threads i) (event.rename ρ) = _ :=
        threadStep_rename hρ (proc.threads i) event
      simp only [hi, if_true, hstep, Option.map_map]
      congr 1
      funext m
      exact rename_setThread proc i m
    · simp only [hi, if_false, Option.map_none]
  | start parent child choices =>
    simp only [ProcessEvent.rename, processStep, hlive]
    by_cases hi : child ∉ proc.live ∧ ∀ i, parent = some i → i ∈ proc.live
    · simp only [if_pos hi]
      apply newThreadstate_rename hρ
      · intro heq
        exact hi.1 (hi.2 child heq)
      · intro i heq
        subst heq
        exact h
    · simp only [if_neg hi, Option.map_none]
  | clear i =>
    simp only [ProcessEvent.rename, processStep, hlive]
    by_cases hi : i ∈ proc.live
    · have hclear : clearThreadState ((proc.rename ρ).threads i).tstate = _ :=
        clearThreadState_rename (proc.threads i).tstate
      simp only [hi, if_true, Option.map_some, hclear, ← rename_setThread]
      rfl
    · simp only [hi, if_false, Option.map_none]
  | delete i =>
    simp only [ProcessEvent.rename, processStep, hlive]
    by_cases hi : i ∈ proc.live
    · simp only [hi, if_true, Option.map_some]
      rfl
    · simp only [hi, if_false, Option.map_none]
  | handOver i j g =>
    have hstack : ∀ i, ((proc.rename ρ).threads i).tstate.stack = (proc.threads i).tstate.stack :=
      fun _ => rfl
    simp only [ProcessEvent.rename, processStep, hlive, hstack]
    by_cases hi : i ∈ proc.live ∧ j ∈ proc.live ∧ .frame g ∉ (proc.threads i).tstate.stack ∧
        .frame g ∉ (proc.threads j).tstate.stack
    · simp only [if_pos hi, Option.map_some, ← rename_setThread]
      rfl
    · simp only [if_neg hi, Option.map_none]

theorem processRun_fixed (hρ : Renames ρ) {events : List ProcessEvent} {proc' : Process}
    (hevents : ∀ event ∈ events, event.rename ρ = event) (hproc : proc.rename ρ = proc)
    (hrun : processRun p seed events proc = some proc') : proc'.rename ρ = proc' := by
  induction events generalizing proc with
  | nil =>
    cases hrun
    exact hproc
  | cons event events ih =>
    cases hstep : processStep p seed proc event with
    | none =>
      rw [processRun, hstep] at hrun
      cases hrun
    | some next =>
      rw [processRun, hstep] at hrun
      have hagrees : startAgrees ρ proc event := by
        unfold startAgrees
        split
        · rename_i i _ _
          have hid := currentSpaceId_rename hρ (proc.threads i)
          have hsame : (proc.threads i).rename ρ = proc.threads i :=
            congrFun (congrArg Process.threads hproc) i
          rw [hsame] at hid
          rw [← hid]
        · trivial
      have hrenamed := @processStep_rename p seed _ hρ proc event hagrees
      rw [hproc, hevents event List.mem_cons_self, hstep, Option.map_some,
        Option.some.injEq] at hrenamed
      exact ih (fun e he => hevents e (List.mem_cons_of_mem _ he)) hrenamed.symm hrun

end process

section swap
variable {p : Platform} {seed : List Nat} {s₁ s₂ : Nat} {proc proc' : Process}

theorem swap_renames (h₁ : 2 ≤ s₁) (h₂ : 2 ≤ s₂) : Renames (Equiv.swap s₁ s₂) where
  injective := (Equiv.swap s₁ s₂).injective
  root := Equiv.swap_apply_of_ne_of_ne (by unfold spaceIdRoot; omega) (by unfold spaceIdRoot; omega)
  disabled := Equiv.swap_apply_of_ne_of_ne (by unfold spaceIdDisabled; omega)
    (by unfold spaceIdDisabled; omega)

theorem startsOutside_agrees {event : ProcessEvent}
    (h : startsOutside s₁ s₂ proc event = true) :
    startAgrees (Equiv.swap s₁ s₂) proc event := by
  unfold startAgrees
  split
  · rename_i i _ _
    simp only [startsOutside, ne_eq, decide_not, Bool.or_eq_true, Bool.and_eq_true,
      Bool.not_eq_true', decide_eq_false_iff_not, decide_eq_true_eq] at h
    rcases h with ⟨h₁, h₂⟩ | hbits
    · rw [Equiv.swap_apply_of_ne_of_ne h₁ h₂]
    · by_cases h₁ : (proc.threads i).currentSpaceId = s₁
      · rw [h₁, Equiv.swap_apply_left]
        exact hbits.symm
      · by_cases h₂ : (proc.threads i).currentSpaceId = s₂
        · rw [h₂, Equiv.swap_apply_right]
          exact hbits
        · rw [Equiv.swap_apply_of_ne_of_ne h₁ h₂]
  · trivial

theorem rename_of_unnamed {event : ProcessEvent} (h₁ : event.spaceId? ≠ some s₁)
    (h₂ : event.spaceId? ≠ some s₂) : event.rename (Equiv.swap s₁ s₂) = event := by
  have hsame : ∀ spaceId, some spaceId ≠ some s₁ → some spaceId ≠ some s₂ →
      Equiv.swap s₁ s₂ spaceId = spaceId := fun spaceId h₁ h₂ =>
    Equiv.swap_apply_of_ne_of_ne (fun h => h₁ (congrArg some h)) (fun h => h₂ (congrArg some h))
  cases event with
  | run i event =>
    cases event with
    | enterSpace k spaceId allocates =>
      simp only [ProcessEvent.rename, ThreadEvent.rename, hsame spaceId h₁ h₂]
    | threadDelta spaceId allocates tupleAllocates =>
      simp only [ProcessEvent.rename, ThreadEvent.rename, hsame spaceId h₁ h₂]
    | _ => rfl
  | _ => rfl

theorem processRun_swap (h₁ : 2 ≤ s₁) (h₂ : 2 ≤ s₂) {events : List ProcessEvent}
    (hstarts : runOutside p seed s₁ s₂ events proc = true)
    (hrun : processRun p seed events proc = some proc') :
    processRun p seed (events.map (ProcessEvent.rename (Equiv.swap s₁ s₂)))
      (proc.rename (Equiv.swap s₁ s₂)) = some (proc'.rename (Equiv.swap s₁ s₂)) := by
  induction events generalizing proc with
  | nil =>
    cases hrun
    rfl
  | cons event events ih =>
    cases hstep : processStep p seed proc event with
    | none =>
      rw [processRun, hstep] at hrun
      cases hrun
    | some next =>
      rw [processRun, hstep] at hrun
      rw [runOutside, hstep, Bool.and_eq_true] at hstarts
      rw [List.map_cons, processRun, processStep_rename (swap_renames h₁ h₂) proc event
        (startsOutside_agrees hstarts.1), hstep]
      exact ih hstarts.2 hrun

theorem rename_of_fresh (h₁ : 2 ≤ s₁) (h₂ : 2 ≤ s₂) {before : List ProcessEvent}
    (hbefore : processRun p seed before (emptyProcess p) = some proc)
    (hfresh : ∀ event ∈ before, event.spaceId? ≠ some s₁ ∧ event.spaceId? ≠ some s₂) :
    proc.rename (Equiv.swap s₁ s₂) = proc := by
  have hρ := swap_renames h₁ h₂
  refine processRun_fixed hρ ?_ ?_ hbefore
  · intro event hevent
    exact rename_of_unnamed (hfresh event hevent).1 (hfresh event hevent).2
  · unfold Process.rename emptyProcess
    simp only [freshMachine_rename hρ]

/-- Two spaces whose numbers nothing has used yet: what a program does in one it does in the
other, in every thread, unless it starts a thread in them and the ids tell the numbers apart. -/
theorem freshSpaces_isomorphic {before events : List ProcessEvent} {proc₁ : Process}
    (h₁ : 2 ≤ s₁) (h₂ : 2 ≤ s₂) (hbefore : processRun p seed before (emptyProcess p) = some proc)
    (hfresh : ∀ event ∈ before, event.spaceId? ≠ some s₁ ∧ event.spaceId? ≠ some s₂)
    (hstarts : runOutside p seed s₁ s₂ events proc = true)
    (hrun : processRun p seed events proc = some proc₁) :
    ∃ proc₂, processRun p seed (events.map (ProcessEvent.rename (Equiv.swap s₁ s₂))) proc =
        some proc₂ ∧ proc₂.live = proc₁.live ∧
      ∀ i, coordinates (proc₁.threads i) s₁ 0 = coordinates (proc₂.threads i) s₂ 0 ∧
        coordinateHash p (proc₁.threads i) s₁ = coordinateHash p (proc₂.threads i) s₂ ∧
        (proc₁.threads i).tstate.threadId &&& threadIdHashMask =
          (proc₂.threads i).tstate.threadId &&& threadIdHashMask := by
  have hρ := swap_renames h₁ h₂
  have hswapped := processRun_swap h₁ h₂ hstarts hrun
  rw [rename_of_fresh h₁ h₂ hbefore hfresh] at hswapped
  refine ⟨_, hswapped, rfl, fun i => ⟨?_, ?_, rfl⟩⟩
  · have hcoordinates := coordinates_rename hρ (proc₁.threads i) s₁ 0
    rw [Equiv.swap_apply_left] at hcoordinates
    exact hcoordinates.symm
  · have hhash := coordinateHash_rename (p := p) hρ (proc₁.threads i) s₁
    rw [Equiv.swap_apply_left] at hhash
    exact hhash.symm

end swap

def startRoot : List ProcessEvent := [.start none 0 ⟨1, true, true⟩]

/-- A call in a space, and after it the start of a thread that makes a call in the space too. -/
def startOutside (s : Nat) : List ProcessEvent :=
  [.run 0 (.call 0 0 true true), .run 0 (.begin [] 2), .run 0 (.enterSpace 0 s true),
    .run 0 (.call 1 0 true true), .run 0 (.begin [] 4), .run 0 (.leave 0), .run 0 .leaveSpace,
    .start (some 0) 1 ⟨1, true, true⟩, .run 1 (.enterSpace 0 s true),
    .run 1 (.call 0 0 true true), .run 1 (.begin [] 6)]

/-- The calls in space 2 are those in space 3, with 2 and 3 both unused. -/
theorem freshSpaces_isomorphic_outside :
    ∃ proc proc₁ proc₂, processRun ⟨true, true⟩ defaultRootSeed startRoot
        (emptyProcess ⟨true, true⟩) = some proc ∧
      processRun ⟨true, true⟩ defaultRootSeed (startOutside 2) proc = some proc₁ ∧
      processRun ⟨true, true⟩ defaultRootSeed (startOutside 3) proc = some proc₂ ∧
      coordinates (proc₁.threads 1) 2 0 = some [6, 0] ∧
      coordinates (proc₂.threads 1) 3 0 = some [6, 0] ∧
      coordinateHash ⟨true, true⟩ (proc₁.threads 1) 2 =
        coordinateHash ⟨true, true⟩ (proc₂.threads 1) 3 := by
  obtain ⟨proc, proc₁, hbefore, hrun⟩ : ∃ proc proc₁, processRun ⟨true, true⟩ defaultRootSeed
      startRoot (emptyProcess ⟨true, true⟩) = some proc ∧
    processRun ⟨true, true⟩ defaultRootSeed (startOutside 2) proc = some proc₁ := ⟨_, _, rfl, rfl⟩
  have hstarts : runOutside ⟨true, true⟩ defaultRootSeed 2 3 (startOutside 2) proc = true := by
    cases hbefore
    rfl
  obtain ⟨proc₂, hrun₂, -, hsame⟩ :=
    freshSpaces_isomorphic (by decide) (by decide) hbefore (by decide) hstarts hrun
  have hcoordinates : coordinates (proc₁.threads 1) 2 0 = some [6, 0] := by
    cases hbefore
    cases hrun
    rfl
  exact ⟨proc, proc₁, proc₂, hbefore, hrun, hrun₂, hcoordinates,
    (hsame 1).1.symm.trans hcoordinates, (hsame 1).2.1⟩

/-- A call in a space, which starts a thread from there; that one starts another. -/
def startInside (s : Nat) : List ProcessEvent :=
  [.run 0 (.enterSpace 0 s true), .run 0 (.call 0 0 true true), .run 0 (.begin [] 2),
    .start (some 0) 1 ⟨1, true, true⟩, .run 1 (.call 0 0 true true), .run 1 (.begin [] 4),
    .start (some 1) 2 ⟨1, true, true⟩]

/-- The started thread's id, which begins with the number of its space, is the hash of its root
and part of the seed of the ids of the threads that it starts. -/
theorem freshSpaces_told_apart :
    ∃ proc proc₁ proc₂, processRun ⟨true, true⟩ defaultRootSeed startRoot
        (emptyProcess ⟨true, true⟩) = some proc ∧
      processRun ⟨true, true⟩ defaultRootSeed (startInside 2) proc = some proc₁ ∧
      processRun ⟨true, true⟩ defaultRootSeed (startInside 3) proc = some proc₂ ∧
      coordinates (proc₁.threads 1) 2 0 = coordinates (proc₂.threads 1) 3 0 ∧
      coordinateHash ⟨true, true⟩ (proc₁.threads 1) 2 ≠
        coordinateHash ⟨true, true⟩ (proc₂.threads 1) 3 ∧
      (proc₁.threads 2).tstate.threadId &&& threadIdHashMask ≠
        (proc₂.threads 2).tstate.threadId &&& threadIdHashMask :=
  ⟨_, _, _, rfl, rfl, rfl, by decide +kernel, by decide +kernel, by decide +kernel⟩

end Retrace
