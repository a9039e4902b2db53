import Retrace.SwitchCursors

/-! The per-namespace switch algorithm, run at every boundary, and what the hot path, which looks
at a space only when the interpreter's last thread changes, makes of it. -/

set_option autoImplicit false

namespace Retrace

/-- A thread at a bytecode boundary, and whether its frame is visible in the space. -/
structure Sighting where
  thread : Nat
  visible : Bool
  deriving DecidableEq, Repr

/-- The thread whose delta the algorithm gives to the callback at one instruction. -/
def prescribed (cursor : Option Nat) (sighting : Sighting) : Option Nat :=
  if sighting.visible = true ∧ cursor ≠ some sighting.thread then cursor else none

/-- `S.last_bytecode_thread` behind the instruction. -/
def advanced (cursor : Option Nat) (sighting : Sighting) : Option Nat :=
  if sighting.visible = true then some sighting.thread else cursor

/-- What is seen of a space: the boundaries, and the calls of its callback with the thread that is
left and the one that runs on. -/
inductive Noted where
  | boundary (sighting : Sighting)
  | called (previous current : Nat)
  deriving DecidableEq, Repr

def prescribedCall (cursor : Option Nat) (sighting : Sighting) : List Noted :=
  match prescribed cursor sighting with
  | none => []
  | some previous => [.called previous sighting.thread]

def prescribedLog : Option Nat → List Sighting → List Noted
  | _, [] => []
  | cursor, sighting :: rest =>
    .boundary sighting :: prescribedCall cursor sighting ++
      prescribedLog (advanced cursor sighting) rest

/-- The thread at a boundary outside its callbacks, when the instruction has begun. -/
def sighted (p : Platform) (spaceId : Nat) (interp : Interp) : InterpEvent → Option Sighting
  | .boundary i jumps offset _ =>
    if interp.idle i then
      (threadStep p (interp.threads i) (.begin jumps offset)).map (fun m =>
        ⟨i, topSpaceId m == some spaceId⟩)
    else none
  | _ => none

def sightings (p : Platform) (spaceId : Nat) : List InterpEvent → Interp → List Sighting
  | [], _ => []
  | event :: events, interp =>
    match interpStep p interp event with
    | none => []
    | some (next, _) =>
      (sighted p spaceId interp event).toList ++ sightings p spaceId events next

def switchCalls (spaceId : Nat) (out : List Output) : List Noted :=
  out.filterMap (fun output => match output with
    | .threadSwitch i id _ previous _ _ => if id = spaceId then some (.called previous i) else none
    | _ => none)

def switchLog (p : Platform) (spaceId : Nat) : List InterpEvent → Interp → List Noted
  | [], _ => []
  | event :: events, interp =>
    match interpStep p interp event with
    | none => []
    | some (next, out) =>
      (sighted p spaceId interp event).toList.map Noted.boundary ++ switchCalls spaceId out ++
        switchLog p spaceId events next

def keepsRegistered (spaceId : Nat) : InterpEvent → Bool
  | .setThreadSwitchCallback _ _ id _ => id ≠ spaceId
  | .clearThread _ => false
  | _ => true

/-- No thread comes to a boundary while a callback of another one is in progress. -/
def noneInProgress (interp : Interp) : InterpEvent → Bool
  | .boundary i _ _ _ => interp.live.all (fun j => j = i || interp.idle j)
  | _ => true

/-- The callback of the space is due, or its cursor is to be set. -/
def due (spaceId : Nat) (interp : Interp) (i : Nat) (m : Machine) : Bool :=
  topSpaceId m == some spaceId && cursorAt interp spaceId != some i

def InterpEvent.raises : InterpEvent → Bool
  | .callbackReturns _ raised _ => raised
  | _ => false

/-- Where the space has to be looked at, the thread is not the interpreter's last one already, and
nothing fails before the callback of the space is called. -/
def lookedAt (p : Platform) (spaceId : Nat) (interp : Interp) (event : InterpEvent) : Bool :=
  match boundaryOf p interp event with
  | none => true
  | some (i, m) => m.tstate.threadCallbackActive || !due spaceId interp i m ||
      (interp.lastBytecodeThread.isSome && interp.lastBytecodeThread != some i &&
        event.findsRoom && !event.raises)

section prescribed
variable {p : Platform} {interp interp' mid : Interp} {i spaceId callback : Nat}
  {cursor : Option Nat} {choices : BoundaryChoices} {out : List Output}

theorem due_iff {m : Machine} : due spaceId interp i m = true ↔
    topSpaceId m = some spaceId ∧ cursorAt interp spaceId ≠ some i := by
  simp [due]

theorem prescribedCall_due (hne : cursor ≠ some i) : prescribedCall cursor ⟨i, true⟩ =
    (cursor.map (fun previous => Noted.called previous i)).toList := by
  unfold prescribedCall prescribed
  rw [if_pos ⟨rfl, hne⟩]
  cases cursor <;> rfl

theorem prescribed_undue {visible : Bool} (h : visible = true → cursor = some i) :
    prescribedCall cursor ⟨i, visible⟩ = [] ∧ advanced cursor ⟨i, visible⟩ = cursor := by
  have hnone : prescribed cursor ⟨i, visible⟩ = none := by
    unfold prescribed
    exact if_neg (fun hand => hand.2 (h hand.1))
  unfold prescribedCall advanced
  rw [hnone]
  refine ⟨rfl, ?_⟩
  split
  · rename_i hvisible
    exact (h hvisible).symm
  · rfl

theorem Tracked.switchesIn (h : Tracked interp) (hlive : i ∈ interp.live)
    (htop : topSpaceId (interp.threads i) = some spaceId)
    (hregistered : switchAt interp spaceId = some (callback, cursor)) {u : Nat}
    (hlast : interp.lastBytecodeThread = some u) (hne : u ≠ i) :
    ∃ entry called, SwitchesIn interp i entry called := by
  unfold switchAt at hregistered
  rw [Option.bind_eq_some_iff] at hregistered
  obtain ⟨own, hfind, hcallback⟩ := hregistered
  rw [Option.map_eq_some_iff] at hcallback
  obtain ⟨called, hcalled, -⟩ := hcallback
  obtain ⟨hmem, hid⟩ := findEntry_some hfind
  have harmed : interp.threadSwitchArmed = true := by
    rw [h.sound.tidy.switchArmed, List.any_eq_true]
    exact ⟨own, hmem, by rw [hcalled]; rfl⟩
  have hfound : (switchEntry interp i).isSome = true := by
    unfold switchEntry
    rw [List.find?_isSome]
    exact ⟨own, hmem, by simp [hcalled, htop, hid]⟩
  obtain ⟨entry, hentry⟩ := Option.isSome_iff_exists.mp hfound
  obtain ⟨found, hcalls⟩ := Option.isSome_iff_exists.mp (switchEntry_callback hentry).1
  exact ⟨entry, found, ⟨u, hlast, hne, h.named u (h.last u hlast)⟩, h.named i hlive, harmed, hentry,
    hcalls⟩

theorem Switching.undue (h : Switching p interp i choices interp' out) (htidy : Tidy interp)
    (hundue : topSpaceId (interp.threads i) = some spaceId → cursorAt interp spaceId = some i) :
    switchCalls spaceId out = [] ∧ cursorAt interp' spaceId = cursorAt interp spaceId := by
  have hown : ∀ {entry called}, SwitchesIn interp i entry called → entry.spaceId = spaceId →
      entry.lastBytecodeThread = some i := by
    intro entry called hswitches heq
    have htop := (switchEntry_callback hswitches.found).2.1
    have hswitch := hswitches.switchAt htidy
    rw [heq] at htop hswitch
    exact (cursorAt_of hswitch).symm.trans (hundue htop)
  refine ⟨?_, ?_⟩
  · cases h with
    | called switches cursor other result step active =>
      rename_i entry called v delta m
      have hne : entry.spaceId ≠ spaceId := by
        intro heq
        have hcursor := hown switches heq
        rw [cursor, Option.some.injEq] at hcursor
        exact other hcursor
      simp [switchCalls, deltaRan, callbackRan, hne]
    | _ => rfl
  · obtain hkept | ⟨htop, called, old, hswitch, hmoved⟩ := h.cursorMoves htidy spaceId
    · unfold cursorAt
      rw [hkept]
    · rw [cursorAt_of hmoved, hundue htop]

theorem SwitchesIn.answers {entry : SpaceCallbackState} {callback v : Nat}
    (h : SwitchesIn interp i entry callback) (htracked : Tracked interp)
    (hroom : choices.findsRoom = true) (hcursor : entry.lastBytecodeThread = some v) :
    v ∈ interp.live ∧ ∃ delta, (threadDeltaForTstate (interp.threads v) entry.spaceId
      choices.deltaAllocates choices.tupleAllocates).1 = .delta delta := by
  have hswitch := h.switchAt htracked.sound.tidy
  rw [hcursor] at hswitch
  exact ⟨htracked.sound.cursors _ _ v hswitch,
    BoundaryChoices.answered hroom (htracked.knows entry.spaceId v (cursorAt_of hswitch))⟩

theorem Switching.prescribedDue (h : Switching p interp i choices interp' out)
    (htracked : Tracked interp) (hlive : i ∈ interp.live)
    (hregistered : switchAt interp spaceId = some (callback, cursor))
    (htop : topSpaceId (interp.threads i) = some spaceId) (hother : cursor ≠ some i) {u : Nat}
    (hlast : interp.lastBytecodeThread = some u) (hne : u ≠ i) (hroom : choices.findsRoom = true) :
    switchCalls spaceId out =
      prescribedCall cursor ⟨i, topSpaceId (interp.threads i) == some spaceId⟩ ∧
    cursorAt interp' spaceId =
      advanced cursor ⟨i, topSpaceId (interp.threads i) == some spaceId⟩ := by
  obtain ⟨own, called, hown⟩ := htracked.switchesIn hlive htop hregistered hlast hne
  obtain ⟨henter, -, -, hident⟩ := choices.findsRoom_spec hroom
  -- the entry that is found is the one of the space
  have hentry : ∀ {entry called}, SwitchesIn interp i entry called →
      entry.spaceId = spaceId ∧ entry.lastBytecodeThread = cursor := by
    intro entry called hswitches
    have htop' := (switchEntry_callback hswitches.found).2.1
    rw [htop, Option.some.injEq] at htop'
    have hswitch := hswitches.switchAt htracked.sound.tidy
    rw [← htop', hregistered, Option.some.injEq, Prod.mk.injEq] at hswitch
    exact ⟨htop'.symm, hswitch.2.symm⟩
  have hvisible : (topSpaceId (interp.threads i) == some spaceId) = true := by rw [htop]; simp
  rw [hvisible, prescribedCall_due hother]
  cases h with
  | same last =>
    rw [hlast, Option.some.injEq] at last
    exact absurd last hne
  | quiet last none => exact absurd hown (none own called)
  | first switches cursor =>
    obtain ⟨hid, hnone⟩ := hentry switches
    rw [cursor] at hnone
    refine ⟨by rw [← hnone]; rfl, ?_⟩
    rw [hid]
    exact cursorAt_of (htracked.sound.tidy.cursor_moves i hregistered)
  | own switches cursor =>
    exact absurd ((hentry switches).2.symm.trans cursor) hother
  | error switches cursor other result =>
    obtain ⟨-, delta, hfound⟩ := switches.answers htracked hroom cursor
    rw [result] at hfound
    cases hfound
  | gone switches cursor other result =>
    obtain ⟨-, delta, hfound⟩ := switches.answers htracked hroom cursor
    rw [result] at hfound
    cases hfound
  | identFails switches cursor other result fails =>
    rw [hident] at fails
    cases fails
  | enterFails switches cursor other result step inactive =>
    rw [henter] at step
    rw [callbackBegin_active step] at inactive
    cases inactive
  | called switches cursor other result step active =>
    rename_i entry _ v delta m
    obtain ⟨hid, hheld⟩ := hentry switches
    have htaken : Tidy (takeDelta interp v spaceId choices) :=
      htracked.sound.tidy.setThread v _
    rw [cursor] at hheld
    rw [hid]
    refine ⟨?_, cursorAt_of (htaken.cursor_moves i hregistered)⟩
    rw [← hheld]
    simp [switchCalls, deltaRan, callbackRan]

theorem Switching.prescribed (h : Switching p interp i choices interp' out)
    (htracked : Tracked interp) (hlive : i ∈ interp.live)
    (hregistered : switchAt interp spaceId = some (callback, cursor))
    (hlooked : due spaceId interp i (interp.threads i) = true →
      (∃ u, interp.lastBytecodeThread = some u ∧ u ≠ i) ∧ choices.findsRoom = true) :
    switchCalls spaceId out =
      prescribedCall cursor ⟨i, topSpaceId (interp.threads i) == some spaceId⟩ ∧
    cursorAt interp' spaceId =
      advanced cursor ⟨i, topSpaceId (interp.threads i) == some spaceId⟩ := by
  have hcursor := cursorAt_of hregistered
  by_cases hdue : due spaceId interp i (interp.threads i) = true
  · obtain ⟨⟨u, hlast, hne⟩, hroom⟩ := hlooked hdue
    obtain ⟨htop, hother⟩ := due_iff.mp hdue
    rw [hcursor] at hother
    exact h.prescribedDue htracked hlive hregistered htop hother hlast hne hroom
  · have hundue : topSpaceId (interp.threads i) = some spaceId → cursor = some i := by
      intro htop
      by_contra hother
      exact hdue (due_iff.mpr ⟨htop, by rwa [hcursor]⟩)
    obtain ⟨hcalls, hkept⟩ := h.undue htracked.sound.tidy (by rwa [hcursor])
    obtain ⟨hnone, hsame⟩ := @prescribed_undue i cursor
      (topSpaceId (interp.threads i) == some spaceId)
      (fun hvisible => hundue (by simpa using hvisible))
    rw [hcalls, hkept, hnone, hsame]
    exact ⟨rfl, hcursor⟩

theorem Switching.pending (h : Switching p interp i choices interp' out) {j : Nat}
    (hpended : interp'.pending j = some .afterCallAt) : interp.pending j = some .afterCallAt := by
  cases h with
  | called switches cursor other result step active =>
    by_cases hji : j = i
    · subst hji
      simp [Interp.setPending] at hpended
    · have hsame : Function.update interp.pending i (some Pending.afterSwitch) j =
          some .afterCallAt := hpended
      rwa [Function.update_of_ne hji] at hsame
  | _ => exact hpended

theorem Tracked.checkedCallAt (h : Tracked interp) {allocates : Nat → Bool}
    {delivery : Option Delivery} (hcheck : checkCallAt interp i allocates = (mid, delivery)) :
    Tracked mid := by
  refine h.changed (h.sound.checked hcheck) (checkCallAt_threads hcheck) ?_
  intro spaceId v hv
  unfold cursorAt at hv ⊢
  rw [checkCallAt_switchAt h.sound.tidy hcheck] at hv
  exact Or.inl hv

theorem Checking.prescribed (h : Checking p interp i choices interp' out)
    (htracked : Tracked interp) (hlive : i ∈ interp.live)
    (hregistered : switchAt interp spaceId = some (callback, cursor))
    (hlooked : due spaceId interp i (interp.threads i) = true →
      (∃ u, interp.lastBytecodeThread = some u ∧ u ≠ i) ∧ choices.findsRoom = true) :
    (switchCalls spaceId out =
        prescribedCall cursor ⟨i, topSpaceId (interp.threads i) == some spaceId⟩ ∧
      cursorAt interp' spaceId =
        advanced cursor ⟨i, topSpaceId (interp.threads i) == some spaceId⟩ ∧
      ∀ j, interp'.pending j = some .afterCallAt → interp.pending j = some .afterCallAt) ∨
    (switchCalls spaceId out = [] ∧ cursorAt interp' spaceId = cursor ∧
      interp'.pending = Function.update interp.pending i (some .afterCallAt) ∧
      pinnedShown (interp'.threads i) spaceId =
        (topSpaceId (interp.threads i) == some spaceId)) := by
  have hcursor := cursorAt_of hregistered
  cases h with
  | unchecked quiet switching =>
    obtain ⟨hcalls, hadvanced⟩ := switching.prescribed htracked hlive hregistered hlooked
    exact Or.inl ⟨hcalls, hadvanced, fun j hj => switching.pending hj⟩
  | passed polls check switching =>
    rename_i before
    have hsame := checkCallAt_threads check
    have hswitch := @checkCallAt_switchAt _ _ _ spaceId htracked.sound.tidy _ _ check
    have hdue : due spaceId before i (before.threads i) =
        due spaceId interp i (interp.threads i) := by
      unfold due cursorAt
      rw [hsame.threads, hswitch]
    obtain ⟨hcalls, hadvanced⟩ := switching.prescribed (htracked.checkedCallAt check)
      (hsame.live ▸ hlive) (hswitch.trans hregistered) (by rwa [hdue, hsame.last])
    rw [hsame.threads] at hcalls hadvanced
    exact Or.inl ⟨hcalls, hadvanced, fun j hj => hsame.pending ▸ switching.pending hj⟩
  | enterFails polls check step inactive =>
    rename_i before d m
    have hsame := checkCallAt_threads check
    have hswitch := @checkCallAt_switchAt _ _ _ spaceId htracked.sound.tidy _ _ check
    have hundue : (topSpaceId (interp.threads i) == some spaceId) = true → cursor = some i := by
      intro htop
      by_contra hother
      have hdue := due_iff.mpr ⟨by simpa using htop, by rwa [hcursor]⟩
      rw [(choices.findsRoom_spec (hlooked hdue).2).1] at step
      rw [callbackBegin_active step] at inactive
      cases inactive
    obtain ⟨hnone, hkept⟩ := prescribed_undue hundue
    refine Or.inl ⟨by rw [hnone]; rfl, ?_, fun j hj => hsame.pending ▸ hj⟩
    rw [hkept]
    exact cursorAt_of (hswitch.trans hregistered)
  | called polls check step active =>
    rename_i before d m
    have hsame := checkCallAt_threads check
    have hswitch := @checkCallAt_switchAt _ _ _ spaceId htracked.sound.tidy _ _ check
    obtain ⟨l, hstanding⟩ := htracked.sound.standing i hlive
    obtain ⟨base, -, hseg⟩ := hstanding.segment
    rw [hsame.threads] at step
    obtain ⟨-, heffect⟩ := hstanding.step step
    have hself : ((before.setThread i m).setPending i (some .afterCallAt)).threads i = m :=
      setThread_self before i m
    refine Or.inr ⟨rfl, cursorAt_of (hswitch.trans hregistered), ?_, ?_⟩
    · exact congrArg (fun pending => Function.update pending i (some Pending.afterCallAt))
        hsame.pending
    · rw [hself]
      exact pinnedShown_begun hseg heffect active

/-- What the interpreter still has to do for the space, and where the algorithm's cursor is: when
a `call_at` callback returns, the boundary that called it is gone on with. -/
inductive Stage (spaceId : Nat) (interp : Interp) : List Noted → Option Nat → Prop
  | settled (quiet : ∀ i ∈ interp.live, interp.pending i ≠ some .afterCallAt) :
      Stage spaceId interp [] (cursorAt interp spaceId)
  | owing {i : Nat} (live : i ∈ interp.live) (pended : interp.pending i = some .afterCallAt)
      (only : ∀ j ∈ interp.live, j ≠ i → interp.idle j = true) :
      Stage spaceId interp
        (prescribedCall (cursorAt interp spaceId) ⟨i, pinnedShown (interp.threads i) spaceId⟩)
        (advanced (cursorAt interp spaceId) ⟨i, pinnedShown (interp.threads i) spaceId⟩)

end prescribed

/-- A step of the interpreter against the steps of the algorithm: none, or one at a boundary. -/
def KeepsPace (p : Platform) (spaceId : Nat) (interp : Interp) (event : InterpEvent)
    (interp' : Interp) (out : List Output) (owed : List Noted) (cursor : Option Nat) : Prop :=
  ∃ owed' cursor', Stage spaceId interp' owed' cursor' ∧
    ((sighted p spaceId interp event = none ∧ switchCalls spaceId out ++ owed' = owed ∧
      cursor' = cursor) ∨
    ∃ sighting, sighted p spaceId interp event = some sighting ∧ owed = [] ∧
      switchCalls spaceId out ++ owed' = prescribedCall cursor sighting ∧
      cursor' = advanced cursor sighting)

section keepsPace
variable {p : Platform} {interp interp' : Interp} {i spaceId : Nat} {event : InterpEvent}
  {cursor : Option Nat} {owed : List Noted} {out : List Output}

theorem Stage.congr (h : Stage spaceId interp owed cursor) (hlive : interp'.live = interp.live)
    (hpending : interp'.pending = interp.pending)
    (hcursor : cursorAt interp' spaceId = cursorAt interp spaceId)
    (hpinned : ∀ i ∈ interp.live, interp.pending i = some .afterCallAt →
      pinnedShown (interp'.threads i) spaceId = pinnedShown (interp.threads i) spaceId) :
    Stage spaceId interp' owed cursor := by
  cases h with
  | settled quiet =>
    rw [← hcursor]
    exact .settled (by rwa [hlive, hpending])
  | owing live pended only =>
    rw [← hpinned _ live pended, ← hcursor]
    refine .owing (hlive ▸ live) (hpending ▸ pended) ?_
    intro j hj hji
    unfold Interp.idle
    rw [hpending]
    exact only j (hlive ▸ hj) hji

theorem Stage.ran (h : Stage spaceId interp owed cursor) (hsound : Sound interp)
    (hlive : i ∈ interp.live) {shown : ThreadEvent} {m : Machine}
    (hstep : threadStep p (interp.threads i) shown = some m) (hend : shown ≠ .callbackEnd) :
    Stage spaceId (interp.setThread i m) owed cursor := by
  refine h.congr rfl rfl rfl ?_
  intro j hj hpended
  by_cases hji : j = i
  · subst hji
    obtain ⟨l, hstanding⟩ := hsound.standing j hj
    obtain ⟨base, -, hseg⟩ := hstanding.segment
    obtain ⟨-, heffect⟩ := hstanding.step hstep
    have hactive := hsound.synced j hj
    rw [hpended] at hactive
    rw [setThread_self]
    exact (pinnedShown_kept hseg (hsound.pinned j hj) hactive.symm heffect hend).2
  · rw [setThread_of_ne interp m hji]

theorem Stage.owed_nil (h : Stage spaceId interp owed cursor)
    (hdone : ∀ i ∈ interp.live, interp.pending i ≠ some .afterCallAt) :
    owed = [] ∧ cursor = cursorAt interp spaceId := by
  cases h with
  | settled quiet => exact ⟨rfl, rfl⟩
  | owing live pended only => exact absurd pended (hdone _ live)

theorem lookedAt_spec {m : Machine} (hboundary : boundaryOf p interp event = some (i, m))
    (hinactive : m.tstate.threadCallbackActive = false)
    (hlooked : lookedAt p spaceId interp event = true) (hdue : due spaceId interp i m = true) :
    (∃ u, interp.lastBytecodeThread = some u ∧ u ≠ i) ∧ event.findsRoom = true ∧
      event.raises = false := by
  unfold lookedAt at hlooked
  rw [hboundary] at hlooked
  simp only [hinactive, hdue, Bool.not_true, Bool.false_or, Bool.and_eq_true, bne_iff_ne,
    Bool.not_eq_true'] at hlooked
  obtain ⟨⟨⟨hsome, hother⟩, hroom⟩, hraised⟩ := hlooked
  obtain ⟨u, hu⟩ := Option.isSome_iff_exists.mp hsome
  exact ⟨⟨u, hu, fun heq => hother (heq ▸ hu)⟩, hroom, hraised⟩

theorem KeepsPace.aside (h : Stage spaceId interp' owed cursor)
    (hsighted : sighted p spaceId interp event = none) (hcalls : switchCalls spaceId out = []) :
    KeepsPace p spaceId interp event interp' out owed cursor :=
  ⟨owed, cursor, h, Or.inl ⟨hsighted, by rw [hcalls]; rfl, rfl⟩⟩

theorem CursorMoves.registered {callback : Nat} {held : Option Nat}
    (h : CursorMoves spaceId i interp interp')
    (hregistered : switchAt interp spaceId = some (callback, held)) :
    ∃ held', switchAt interp' spaceId = some (callback, held') := by
  obtain hkept | ⟨-, callback', held', hold, hmoved⟩ := h
  · exact ⟨held, hkept.trans hregistered⟩
  · rw [hregistered, Option.some.injEq, Prod.mk.injEq] at hold
    exact ⟨some i, hold.1 ▸ hmoved⟩

theorem Stage.inside {jumps : List (Int × Int)} {offset : Nat} {choices : BoundaryChoices}
    {m : Machine} (h : Stage spaceId interp owed cursor) (hsound : Sound interp)
    (hlive : i ∈ interp.live)
    (hstep : threadStep p (interp.threads i) (.begin jumps offset) = some m)
    (hactive : m.tstate.threadCallbackActive = true) :
    KeepsPace p spaceId interp (.boundary i jumps offset choices) (interp.setThread i m)
      [.ran i (.begin jumps offset)] owed cursor := by
  obtain ⟨l, hstanding⟩ := hsound.standing i hlive
  obtain ⟨-, heffect⟩ := hstanding.step hstep
  have hsynced := hsound.synced i hlive
  rw [← (heffect.callbackState (by simp) (by simp)).1, hactive] at hsynced
  have hbusy : interp.idle i = false := by
    unfold Interp.idle
    rw [Option.isNone_eq_false_iff]
    exact hsynced
  refine KeepsPace.aside (h.ran hsound hlive hstep (by simp)) ?_ rfl
  unfold sighted
  dsimp only
  rw [hbusy]
  rfl

theorem Stage.boundary {jumps : List (Int × Int)} {offset callback : Nat}
    {choices : BoundaryChoices} {m : Machine} {held : Option Nat} {rest : List Output}
    (h : Stage spaceId interp owed cursor) (htracked : Tracked interp) (hlive : i ∈ interp.live)
    (hregistered : switchAt interp spaceId = some (callback, held))
    (hserial : noneInProgress interp (.boundary i jumps offset choices) = true)
    (hlooked : lookedAt p spaceId interp (.boundary i jumps offset choices) = true)
    (hstep : threadStep p (interp.threads i) (.begin jumps offset) = some m)
    (hinactive : m.tstate.threadCallbackActive = false)
    (hchecking : Checking p (interp.setThread i m) i choices interp' rest) :
    KeepsPace p spaceId interp (.boundary i jumps offset choices) interp'
      (.ran i (.begin jumps offset) :: rest) owed cursor := by
  obtain ⟨hbegun, hidle⟩ := htracked.sound.idleBoundary hlive hstep hinactive
  rw [setThread_idle] at hidle
  have hnone : ∀ j ∈ interp.live, interp.idle j = true := by
    intro j hj
    unfold noneInProgress at hserial
    have hother := List.all_eq_true.mp hserial j hj
    rw [Bool.or_eq_true, decide_eq_true_iff] at hother
    exact hother.elim (fun heq => heq ▸ hidle) id
  have hpending : ∀ j ∈ interp.live, interp.pending j = none :=
    fun j hj => Option.isNone_iff_eq_none.mp (hnone j hj)
  obtain ⟨rfl, rfl⟩ := h.owed_nil (fun j hj => by rw [hpending j hj]; simp)
  have hsighted : sighted p spaceId interp (.boundary i jumps offset choices) =
      some ⟨i, topSpaceId m == some spaceId⟩ := by
    unfold sighted
    dsimp only
    rw [hidle, hstep]
    rfl
  have hboundary : boundaryOf p interp (.boundary i jumps offset choices) = some (i, m) := by
    simp [boundaryOf, hstep]
  have hself := setThread_self interp i m
  have hchecked := hchecking.prescribed (htracked.begun hlive hstep) hlive hregistered (by
    intro hdue
    rw [hself] at hdue
    obtain ⟨hlast, hroom, -⟩ := lookedAt_spec hboundary hinactive hlooked hdue
    exact ⟨hlast, hroom⟩)
  have hcursor := cursorAt_of hregistered
  rw [hself] at hchecked
  obtain ⟨hcalls, hadvanced, hpended⟩ | ⟨hcalls, hsame, hpended, hpinned⟩ := hchecked
  · refine ⟨[], cursorAt interp' spaceId, .settled ?_, Or.inr ⟨_, hsighted, rfl, ?_, ?_⟩⟩
    · intro j hj heq
      have hnone' := hpended j heq
      have hold : interp.pending j = none := hpending j (hchecking.live ▸ hj)
      rw [show (interp.setThread i m).pending j = interp.pending j from rfl, hold] at hnone'
      cases hnone'
    · rw [List.append_nil, hcursor]
      exact hcalls
    · rw [hcursor]
      exact hadvanced
  · have hlive' : interp'.live = interp.live := hchecking.live
    refine ⟨_, _, .owing (hlive' ▸ hlive) ?_ ?_, Or.inr ⟨_, hsighted, rfl, ?_, ?_⟩⟩
    · rw [hpended, Function.update_self]
    · intro j hj hji
      unfold Interp.idle
      rw [hpended, Function.update_of_ne hji]
      exact hnone j (hlive' ▸ hj)
    · rw [hpinned, hsame, hcursor]
      change switchCalls spaceId rest ++ _ = _
      rw [hcalls]
      rfl
    · rw [hpinned, hsame, hcursor]

theorem pending_returned (interp : Interp) (i : Nat) (m : Machine) (j : Nat) :
    ((interp.setThread i m).setPending i none).pending j =
      if j = i then none else interp.pending j := by
  change Function.update interp.pending i none j = _
  rw [Function.update_apply]

section returning
variable {callback : Nat} {choices : BoundaryChoices} {m : Machine} {raised : Bool}
  {held : Option Nat} {rest : List Output}

theorem boundaryOf_returns (hstep : threadStep p (interp.threads i) .callbackEnd = some m) :
    boundaryOf p interp (.callbackReturns i raised choices) = some (i, m) := by
  simp [boundaryOf, hstep]

/-- The callback has raised: nothing was due. -/
theorem KeepsPace.failed (hregistered : switchAt interp spaceId = some (callback, held))
    (hlooked : lookedAt p spaceId interp (.callbackReturns i raised choices) = true)
    (hstep : threadStep p (interp.threads i) .callbackEnd = some m)
    (hinactive : m.tstate.threadCallbackActive = false) (hraised : raised = true)
    (hnone : ∀ v ∈ interp.live, ((interp.setThread i m).setPending i none).pending v = none) :
    KeepsPace p spaceId interp (.callbackReturns i raised choices)
      ((interp.setThread i m).setPending i none) [.ran i .callbackEnd]
      (prescribedCall held ⟨i, topSpaceId m == some spaceId⟩)
      (advanced held ⟨i, topSpaceId m == some spaceId⟩) := by
  have hcursor := cursorAt_of hregistered
  have hundue : (topSpaceId m == some spaceId) = true → held = some i := by
    intro hvisible
    by_contra hother
    have hdue : due spaceId interp i m = true :=
      due_iff.mpr ⟨by simpa using hvisible, by rwa [hcursor]⟩
    obtain ⟨-, -, hquiet⟩ := lookedAt_spec (boundaryOf_returns hstep) hinactive hlooked hdue
    have hloud : (InterpEvent.callbackReturns i raised choices).raises = true := hraised
    rw [hloud] at hquiet
    cases hquiet
  obtain ⟨hnothing, hsame⟩ := prescribed_undue hundue
  rw [hnothing, hsame, ← hcursor]
  refine KeepsPace.aside (.settled ?_) rfl rfl
  intro v hv
  rw [hnone v hv]
  simp

/-- The boundary that called the callback is gone on with. -/
theorem KeepsPace.resumed (htracked : Tracked interp) (hlive : i ∈ interp.live)
    (hregistered : switchAt interp spaceId = some (callback, held))
    (hlooked : lookedAt p spaceId interp (.callbackReturns i raised choices) = true)
    (hstep : threadStep p (interp.threads i) .callbackEnd = some m)
    (hinactive : m.tstate.threadCallbackActive = false)
    (hnone : ∀ v ∈ interp.live, ((interp.setThread i m).setPending i none).pending v = none)
    (hswitching : Switching p ((interp.setThread i m).setPending i none) i choices interp' rest) :
    KeepsPace p spaceId interp (.callbackReturns i raised choices) interp'
      (.ran i .callbackEnd :: rest) (prescribedCall held ⟨i, topSpaceId m == some spaceId⟩)
      (advanced held ⟨i, topSpaceId m == some spaceId⟩) := by
  have hself : ((interp.setThread i m).setPending i none).threads i = m :=
    setThread_self interp i m
  have hdue : due spaceId ((interp.setThread i m).setPending i none) i
      (((interp.setThread i m).setPending i none).threads i) = true →
      (∃ u, interp.lastBytecodeThread = some u ∧ u ≠ i) ∧ choices.findsRoom = true := by
    intro hdue
    rw [hself] at hdue
    obtain ⟨hlast, hroom, -⟩ :=
      lookedAt_spec (boundaryOf_returns hstep) hinactive hlooked hdue
    exact ⟨hlast, hroom⟩
  obtain ⟨hcalls, hadvanced⟩ := hswitching.prescribed (htracked.ended hlive hstep) hlive
    hregistered hdue
  rw [hself] at hcalls hadvanced
  refine ⟨[], cursorAt interp' spaceId, .settled ?_, Or.inl ⟨rfl, ?_, hadvanced⟩⟩
  · intro v hv heq
    have hpended := hswitching.pending heq
    rw [hnone v (hswitching.live ▸ hv)] at hpended
    cases hpended
  · rw [List.append_nil]
    exact hcalls

theorem Stage.returns {pending : Pending}
    (h : Stage spaceId interp owed cursor) (htracked : Tracked interp) (hlive : i ∈ interp.live)
    (hregistered : switchAt interp spaceId = some (callback, held))
    (hlooked : lookedAt p spaceId interp (.callbackReturns i raised choices) = true)
    (hpended : interp.pending i = some pending)
    (hstep : threadStep p (interp.threads i) .callbackEnd = some m)
    (hreturning : Returning p ((interp.setThread i m).setPending i none) i raised choices pending
      interp' rest) :
    KeepsPace p spaceId interp (.callbackReturns i raised choices) interp'
      (.ran i .callbackEnd :: rest) owed cursor := by
  cases h with
  | settled quiet =>
    have hsettled : ∀ j ∈ interp.live,
        ((interp.setThread i m).setPending i none).pending j ≠ some .afterCallAt := by
      intro j hj
      rw [pending_returned]
      split
      · simp
      · exact quiet j hj
    cases hreturning with
    | afterSwitch => exact KeepsPace.aside (.settled hsettled) rfl rfl
    | raised failed => exact absurd hpended (quiet i hlive)
    | afterCallAt returned switching => exact absurd hpended (quiet i hlive)
  | owing live pended only =>
    rename_i j
    obtain rfl : j = i := by
      by_contra hji
      have hidle := only i hlive (Ne.symm hji)
      unfold Interp.idle at hidle
      rw [hpended] at hidle
      cases hidle
    have hnone : ∀ v ∈ interp.live,
        ((interp.setThread j m).setPending j none).pending v = none := by
      intro v hv
      rw [pending_returned]
      split
      · rfl
      · rename_i hvj
        exact Option.isNone_iff_eq_none.mp (only v hv hvj)
    obtain ⟨l, hstanding⟩ := htracked.sound.standing j hlive
    obtain ⟨base, -, hseg⟩ := hstanding.segment
    obtain ⟨-, heffect⟩ := hstanding.step hstep
    have hinactive : m.tstate.threadCallbackActive = false := by
      cases heffect
      rfl
    have htop : (topSpaceId m == some spaceId) = pinnedShown (interp.threads j) spaceId :=
      pinnedShown_ended hseg (htracked.sound.pinned j hlive) heffect
    rw [← htop, cursorAt_of hregistered]
    rw [hpended, Option.some.injEq] at pended
    subst pended
    cases hreturning with
    | raised failed => exact .failed hregistered hlooked hstep hinactive failed hnone
    | afterCallAt returned switching =>
      exact .resumed htracked hlive hregistered hlooked hstep hinactive hnone switching

end returning

theorem Stage.step {callback : Nat} {held : Option Nat} (h : Stage spaceId interp owed cursor)
    (htracked : Tracked interp) (hregistered : switchAt interp spaceId = some (callback, held))
    (hkept : keepsRegistered spaceId event = true) (hserial : noneInProgress interp event = true)
    (hlooked : lookedAt p spaceId interp event = true)
    (hstep : Stepping p interp event interp' out) :
    (∃ held', switchAt interp' spaceId = some (callback, held')) ∧
      KeepsPace p spaceId interp event interp' out owed cursor := by
  -- an event that changes neither the cursor nor what is pending
  have haside : ∀ {final : Interp}, SameThreads interp final →
      switchAt final spaceId = switchAt interp spaceId →
      sighted p spaceId interp event = none →
      (∃ held', switchAt final spaceId = some (callback, held')) ∧
        KeepsPace p spaceId interp event final [] owed cursor := by
    intro final hsame hswitch hsighted
    refine ⟨⟨held, hswitch.trans hregistered⟩,
      KeepsPace.aside (h.congr hsame.live hsame.pending ?_ ?_) hsighted rfl⟩
    · unfold cursorAt
      rw [hswitch]
    · intro j _ _
      rw [hsame.threads]
  cases hstep with
  | run live program step =>
    refine ⟨⟨held, hregistered⟩, KeepsPace.aside (h.ran htracked.sound live step ?_) rfl rfl⟩
    rintro rfl
    cases program
  | inside live step active =>
    exact ⟨⟨held, hregistered⟩, h.inside htracked.sound live step active⟩
  | boundary live step inactive checking =>
    have hmoves := checking.cursorMoves (htracked.begun live step).sound.tidy spaceId
    exact ⟨hmoves.registered hregistered,
      h.boundary htracked live hregistered hserial hlooked step inactive checking⟩
  | returns live pended step returning =>
    refine ⟨?_, h.returns htracked live hregistered hlooked pended step returning⟩
    cases returning with
    | afterSwitch => exact ⟨held, hregistered⟩
    | raised failed => exact ⟨held, hregistered⟩
    | afterCallAt returned switching =>
      have hmoves := switching.cursorMoves (htracked.ended live step).sound.tidy spaceId
      exact hmoves.registered hregistered
  | callAt =>
    rename_i request
    obtain ⟨error, heq⟩ | ⟨heq, -⟩ := callAt_cases interp request
    · rw [heq]
      exact haside (SameThreads.refl _) rfl rfl
    · rw [heq]
      obtain ⟨-, hthreads, hswitch, -⟩ := htracked.sound.tidy.armCallAt request
      exact haside hthreads (hswitch spaceId) rfl
  | clearCallAt =>
    exact haside (clearCallAt_threads interp _)
      ((htracked.sound.tidy.clearCallAt _).2.2 spaceId) rfl
  | setThreadSwitchCallback live =>
    rename_i i other registered allocates
    have hne : spaceId ≠ other := by
      rintro rfl
      simp [keepsRegistered] at hkept
    obtain ⟨-, hthreads, -, -, ⟨-, hsame⟩ | hsame⟩ :=
      htracked.sound.tidy.setThreadSwitchCallback i registered other allocates
    · exact haside hthreads (hsame spaceId) rfl
    · exact haside hthreads ((hsame spaceId).trans (if_neg hne)) rfl
  | clearThread live => cases hkept

theorem Stage.run {callback : Nat} {held : Option Nat} {events : List InterpEvent}
    (h : Stage spaceId interp owed cursor) (htracked : Tracked interp)
    (hregistered : switchAt interp spaceId = some (callback, held))
    (hrun : StepRun.run (interpStep p) events interp = some (interp', out))
    (hkept : ∀ event ∈ events, keepsRegistered spaceId event = true)
    (hserial : StepRun.Always (interpStep p)
      (fun state event _ _ => noneInProgress state event = true) events interp)
    (hlooked : StepRun.Always (interpStep p)
      (fun state event _ _ => lookedAt p spaceId state event = true) events interp)
    (hdone : ∀ i ∈ interp'.live, interp'.pending i ≠ some .afterCallAt) :
    switchLog p spaceId events interp =
        owed ++ prescribedLog cursor (sightings p spaceId events interp) ∧
      cursorAt interp' spaceId = (sightings p spaceId events interp).foldl advanced cursor := by
  induction events generalizing interp owed cursor held out with
  | nil =>
    cases hrun
    obtain ⟨rfl, rfl⟩ := h.owed_nil hdone
    exact ⟨rfl, rfl⟩
  | cons event events ih =>
    obtain ⟨mid, first, more, hstep, hrest, -⟩ := StepRun.run_cons.mp hrun
    rw [StepRun.always_cons hstep] at hserial hlooked
    have hstepping := htracked.sound.stepping hstep
    obtain ⟨⟨held', hregistered'⟩, owed', cursor', hstage, hcases⟩ := h.step htracked hregistered
      (hkept event List.mem_cons_self) hserial.1 hlooked.1 hstepping
    obtain ⟨hlog, hcursor⟩ := ih hstage (hstepping.tracked htracked) hregistered' hrest
      (fun e he => hkept e (List.mem_cons_of_mem _ he)) hserial.2 hlooked.2
    rw [switchLog, sightings, hstep]
    dsimp only
    rw [hlog, hcursor]
    obtain ⟨hnone, rfl, rfl⟩ | ⟨sighting, hsighted, rfl, hcalls, rfl⟩ := hcases
    · rw [hnone]
      exact ⟨by simp, rfl⟩
    · rw [hsighted]
      refine ⟨?_, rfl⟩
      simp only [Option.toList_some, List.map_cons, List.map_nil, List.cons_append,
        List.nil_append, prescribedLog, ← hcalls, List.append_assoc]

end keepsPace

section algorithm
variable {p : Platform} {interp₀ start interp : Interp} {spaceId : Nat}
  {history events : List InterpEvent} {outs₀ outs : List Output}

/-- The callback of a space is called at exactly the boundaries at which the algorithm calls it,
and its cursor is the algorithm's, as long as every boundary that has to look at the space comes
behind bytecode of another thread. -/
theorem switchCallbacks_asPrescribed (hunused : Unused interp₀)
    (hnamed : ∀ i ∈ interp₀.live, (interp₀.threads i).tstate.threadId ≠ 0)
    (hhistory : StepRun.run (interpStep p) history interp₀ = some (start, outs₀))
    (hregistered : (switchAt start spaceId).isSome = true)
    (hidle : ∀ i ∈ start.live, start.idle i = true)
    (hrun : StepRun.run (interpStep p) events start = some (interp, outs))
    (hkept : ∀ event ∈ events, keepsRegistered spaceId event = true)
    (hserial : StepRun.Always (interpStep p)
      (fun state event _ _ => noneInProgress state event = true) events start)
    (hlooked : StepRun.Always (interpStep p)
      (fun state event _ _ => lookedAt p spaceId state event = true) events start)
    (hdone : ∀ i ∈ interp.live, interp.pending i ≠ some .afterCallAt) :
    switchLog p spaceId events start =
        prescribedLog (cursorAt start spaceId) (sightings p spaceId events start) ∧
      cursorAt interp spaceId =
        (sightings p spaceId events start).foldl advanced (cursorAt start spaceId) := by
  have htracked := (hunused.tracked hnamed).run hhistory
  obtain ⟨⟨callback, held⟩, hswitch⟩ := Option.isSome_iff_exists.mp hregistered
  have hstage : Stage spaceId start [] (cursorAt start spaceId) := by
    refine .settled (fun i hi hpended => ?_)
    have hnone := hidle i hi
    unfold Interp.idle at hnone
    rw [hpended] at hnone
    cases hnone
  exact hstage.run htracked hswitch hrun hkept hserial hlooked hdone

/-- A thread registers a callback for the root space, in which it runs. -/
def registersRoot : List InterpEvent := [
  .run 0 (.call 0 0 true true), .boundary 0 [] 4 (roomyChoices 9),
  .setThreadSwitchCallback 0 (some 7) 0 true]

def alternates : List InterpEvent := [
  .run 1 (.call 0 0 true true), .boundary 1 [] 2 (roomyChoices 9),
  .callbackReturns 1 false (roomyChoices 9), .boundary 0 [] 6 (roomyChoices 9),
  .callbackReturns 0 false (roomyChoices 9)]

theorem switchCallbacks_asPrescribed_alternate : ∃ start interp, ∃ outs₀ outs : List Output,
    StepRun.run (interpStep ⟨true, true⟩) registersRoot (freshInterp ⟨true, true⟩ [0, 1]) =
      some (start, outs₀) ∧
    StepRun.run (interpStep ⟨true, true⟩) alternates start = some (interp, outs) ∧
    switchLog ⟨true, true⟩ 0 alternates start = [.boundary ⟨1, true⟩, .called 0 1,
      .boundary ⟨0, true⟩, .called 1 0] := by
  obtain ⟨start, outs₀, hhistory⟩ : ∃ start outs₀, StepRun.run (interpStep ⟨true, true⟩)
      registersRoot (freshInterp ⟨true, true⟩ [0, 1]) = some (start, outs₀) := ⟨_, _, rfl⟩
  obtain ⟨interp, outs, hrun⟩ : ∃ interp outs, StepRun.run (interpStep ⟨true, true⟩)
      alternates start = some (interp, outs) := by
    cases hhistory
    exact ⟨_, _, rfl⟩
  refine ⟨start, interp, outs₀, outs, hhistory, hrun, ?_⟩
  have hprescribed := @switchCallbacks_asPrescribed _ _ _ _ 0 _ _ _ _
    (freshInterp_unused ⟨true, true⟩ (by decide)) (fun _ _ => Nat.succ_ne_zero _) hhistory
    (by cases hhistory; rfl) (by cases hhistory; decide) hrun (by decide)
    (by cases hhistory; decide) (by cases hhistory; decide)
    (by cases hhistory; cases hrun; decide)
  rw [hprescribed.1]
  cases hhistory
  rfl

/-- The second thread runs in a space of its own before it comes to the root space. -/
def entersLater : List InterpEvent := [
  .run 1 (.enterSpace 3 7 true), .run 1 (.call 1 0 true true), .boundary 1 [] 0 (roomyChoices 9),
  .run 1 (.leave 0), .run 1 .leaveSpace, .run 1 (.call 0 0 true true),
  .boundary 1 [] 2 (roomyChoices 9), .boundary 0 [] 6 (roomyChoices 9)]

/-- Its boundary outside the space is the one that changes the last thread: the switch into the
space is not seen, and the next one back is not either. -/
theorem switchCallbacks_hidden : ∃ start interp, ∃ outs₀ outs : List Output,
    StepRun.run (interpStep ⟨true, true⟩) registersRoot (freshInterp ⟨true, true⟩ [0, 1]) =
      some (start, outs₀) ∧
    (switchAt start 0).isSome = true ∧ (∀ i ∈ start.live, start.idle i = true) ∧
    StepRun.run (interpStep ⟨true, true⟩) entersLater start = some (interp, outs) ∧
    (∀ event ∈ entersLater, keepsRegistered 0 event = true ∧ event.findsRoom = true) ∧
    StepRun.Always (interpStep ⟨true, true⟩)
      (fun state event _ _ => noneInProgress state event = true) entersLater start ∧
    (∀ i ∈ interp.live, interp.idle i = true) ∧
    switchLog ⟨true, true⟩ 0 entersLater start =
      [.boundary ⟨1, false⟩, .boundary ⟨1, true⟩, .boundary ⟨0, true⟩] ∧
    prescribedLog (cursorAt start 0) (sightings ⟨true, true⟩ 0 entersLater start) =
      [.boundary ⟨1, false⟩, .boundary ⟨1, true⟩, .called 0 1, .boundary ⟨0, true⟩,
        .called 1 0] := by
  refine ⟨_, _, _, _, rfl, rfl, ?_, rfl, ?_, ?_, ?_, rfl, rfl⟩
  · decide
  · decide
  · decide
  · decide

end algorithm

end Retrace
