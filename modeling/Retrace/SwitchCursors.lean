import Retrace.SpaceFrames
import Retrace.SwitchStream

/-! What the switch callbacks go by in every state of a run: the cursors of the spaces, the last
thread, and the frame that a running callback pins. -/

set_option autoImplicit false

namespace Retrace

/-- The frame that a running callback pins is visible in the space. -/
def pinnedShown (m : Machine) (spaceId : Nat) : Bool :=
  m.tstate.threadCallbackFrame.any (shownOf m spaceId)

section pinnedShown
variable {p : Platform} {m m' : Machine} {base : Context} {spaceId : Nat} {event : ThreadEvent}

theorem topSpaceId_shown {f : Nat} {rest : List StackItem}
    (htop : m.tstate.stack = .frame f :: rest) :
    (topSpaceId m == some spaceId) = shownOf m spaceId f := by
  have hframe : Retrace.topFrame m = some f := by
    unfold Retrace.topFrame
    rw [htop]
  unfold topSpaceId shownOf frameOf
  rw [hframe]
  dsimp only
  cases frameIsVisible (m.frames f) with
  | false => simp
  | true => cases (m.frames f).space <;> simp

theorem pinnedShown_begun {k : Nat} {allocates : Bool} (hseg : Segment [] base m)
    (h : Effect m (.callbackBegin k allocates) m')
    (hactive : m'.tstate.threadCallbackActive = true) :
    pinnedShown m' spaceId = (topSpaceId m == some spaceId) := by
  have hkept : ∀ f, .frame f ∈ m.tstate.stack → .frame f ∈ m'.tstate.stack →
      shownOf m' spaceId f = shownOf m spaceId f :=
    fun f hon hon' => h.shownKept hseg (by simp) hon hon'
  cases h with
  | callbackFails unused idle => cases hactive
  | callbackBegin top unused idle enters =>
    rename_i f node rest entered t scope ptr
    have hframe : (entered.push (.callback k)).tstate.threadCallbackFrame = some f :=
      enters.callbackState.2.2
    have hon : .frame f ∈ m.tstate.stack := top ▸ List.mem_cons_self
    have hon' : .frame f ∈ (entered.push (.callback k)).tstate.stack := by
      have hstack : (entered.push (.callback k)).tstate.stack = .callback k :: m.tstate.stack :=
        congrArg _ enters.callbackState.1
      exact hstack ▸ List.mem_cons_of_mem _ hon
    unfold pinnedShown
    rw [hframe, Option.any_some, hkept f hon hon', topSpaceId_shown top]

theorem pinnedShown_kept (hseg : Segment [] base m) (hpinned : Pinned m.tstate)
    (hactive : m.tstate.threadCallbackActive = true) (h : Effect m event m')
    (hend : event ≠ .callbackEnd) : m'.tstate.threadCallbackActive = true ∧
      pinnedShown m' spaceId = pinnedShown m spaceId := by
  obtain ⟨hactive', hframe⟩ := h.staysActive hactive hend
  unfold Pinned at hpinned
  rw [if_pos hactive] at hpinned
  obtain ⟨upper, k, f, lower, hstack, hpin, -⟩ := hpinned
  have habove : .callback k :: .frame f :: lower <:+ m.tstate.stack :=
    hstack ▸ List.suffix_append upper _
  have hon : .frame f ∈ m.tstate.stack :=
    habove.subset (List.mem_cons_of_mem _ List.mem_cons_self)
  refine ⟨hactive', ?_⟩
  unfold pinnedShown
  rw [hframe, hpin, Option.any_some, Option.any_some]
  exact h.shownOf hseg (h.staysInCallback hend habove) List.mem_cons_self hon

theorem pinnedShown_ended (hseg : Segment [] base m) (hpinned : Pinned m.tstate)
    (h : Effect m .callbackEnd m') :
    (topSpaceId m' == some spaceId) = pinnedShown m spaceId := by
  have hkept : ∀ f, .frame f ∈ m.tstate.stack → .frame f ∈ m'.tstate.stack →
      shownOf m' spaceId f = shownOf m spaceId f :=
    fun f hon hon' => h.shownKept hseg (by simp) hon hon'
  cases h with
  | callbackEnd top =>
    rename_i k rest
    unfold Pinned at hpinned
    rw [top] at hpinned
    split at hpinned
    · obtain ⟨upper, j, f, lower, hstack, hpin, hnone⟩ := hpinned
      have hrest : rest = .frame f :: lower := by
        cases upper with
        | nil =>
          rw [List.nil_append, List.cons.injEq] at hstack
          exact hstack.2
        | cons first upper =>
          rw [List.cons_append, List.cons.injEq] at hstack
          exact absurd (hstack.1 ▸ List.mem_cons_self) (hnone k)
      have hon : .frame f ∈ m.tstate.stack := by
        rw [top, hrest]
        exact List.mem_cons_of_mem _ List.mem_cons_self
      have hstack' : (((leaveSpace m k).setStack rest).setCallback false none).tstate.stack =
          .frame f :: lower := hrest
      have hon' : .frame f ∈
          (((leaveSpace m k).setStack rest).setCallback false none).tstate.stack :=
        hstack' ▸ List.mem_cons_self
      unfold pinnedShown
      rw [hpin, Option.any_some, topSpaceId_shown hstack', hkept f hon hon']
    · exact absurd List.mem_cons_self (hpinned k)

end pinnedShown

/-- What every state of a run of an interpreter has, that the switch callbacks go by. -/
structure Tracked (interp : Interp) : Prop where
  sound : Sound interp
  named : ∀ i ∈ interp.live, (interp.threads i).tstate.threadId ≠ 0
  seen : ∀ i ∈ interp.live, SeenFrames (interp.threads i)
  last : ∀ u, interp.lastBytecodeThread = some u → u ∈ interp.live
  knows : ∀ spaceId v, cursorAt interp spaceId = some v → Knows (interp.threads v) spaceId

/-- The cursor of the space stays, or a boundary in the space moves it to its thread. -/
def CursorMoves (spaceId i : Nat) (interp interp' : Interp) : Prop :=
  switchAt interp' spaceId = switchAt interp spaceId ∨
    topSpaceId (interp.threads i) = some spaceId ∧
    ∃ callback cursor, switchAt interp spaceId = some (callback, cursor) ∧
      switchAt interp' spaceId = some (callback, some i)

section tracked
variable {p : Platform} {interp interp' mid : Interp} {i spaceId : Nat} {choices : BoundaryChoices}
  {out : List Output}

theorem cursorAt_live (h : Sound interp) {v : Nat} (hv : cursorAt interp spaceId = some v) :
    v ∈ interp.live := by
  unfold cursorAt at hv
  rw [Option.bind_eq_some_iff] at hv
  obtain ⟨⟨callback, cursor⟩, hswitch, hcursor⟩ := hv
  have hcursor : cursor = some v := hcursor
  exact h.cursors spaceId callback v (hcursor ▸ hswitch)

theorem Switching.cursorMoves (h : Switching p interp i choices interp' out) (htidy : Tidy interp)
    (spaceId : Nat) : CursorMoves spaceId i interp interp' := by
  have hmoved : ∀ {entry callback} {moved final : Interp}, SwitchesIn interp i entry callback →
      Tidy moved → (∀ other, switchAt moved other = switchAt interp other) →
      (∀ other, switchAt final other = switchAt (moved.setCursor entry.spaceId i) other) →
      CursorMoves spaceId i interp final := by
    intro entry callback moved final hswitches hmoved hsame hfinal
    by_cases heq : entry.spaceId = spaceId
    · have hswitch := hswitches.switchAt htidy
      rw [heq] at hswitch hfinal
      refine Or.inr ⟨heq ▸ (switchEntry_callback hswitches.found).2.1, callback,
        entry.lastBytecodeThread, hswitch, ?_⟩
      exact (hfinal spaceId).trans (hmoved.cursor_moves i ((hsame spaceId).trans hswitch))
    · exact Or.inl (((hfinal spaceId).trans (hmoved.cursor_other i heq)).trans (hsame spaceId))
  cases h with
  | same last => exact Or.inl rfl
  | quiet last none => exact Or.inl rfl
  | first switches cursor => exact hmoved switches htidy (fun _ => rfl) (fun _ => rfl)
  | own switches cursor => exact Or.inl rfl
  | error switches cursor other result => exact Or.inl rfl
  | gone switches cursor other result =>
    exact hmoved switches (htidy.setThread _ _) (fun _ => rfl) (fun _ => rfl)
  | identFails switches cursor other result fails =>
    exact hmoved switches (htidy.setThread _ _) (fun _ => rfl) (fun _ => rfl)
  | enterFails switches cursor other result step inactive =>
    exact hmoved switches (htidy.setThread _ _) (fun _ => rfl) (fun _ => rfl)
  | called switches cursor other result step active =>
    exact hmoved switches (htidy.setThread _ _) (fun _ => rfl) (fun _ => rfl)

theorem Checking.cursorMoves (h : Checking p interp i choices interp' out) (htidy : Tidy interp)
    (spaceId : Nat) : CursorMoves spaceId i interp interp' := by
  cases h with
  | unchecked quiet switching => exact switching.cursorMoves htidy spaceId
  | passed polls check switching =>
    rename_i before
    have hmid : Tidy before := by
      by_cases hnamed : (interp.threads i).tstate.threadId = 0
      · unfold checkCallAt at check
        rw [if_pos hnamed] at check
        cases check
        exact htidy
      · exact (checkCallAt_checked htidy hnamed check).1.tidy
    have hmoves := switching.cursorMoves hmid spaceId
    unfold CursorMoves at hmoves
    rw [checkCallAt_switchAt htidy check, (checkCallAt_threads check).threads] at hmoves
    exact hmoves
  | enterFails polls check step inactive =>
    have hswitch := @checkCallAt_switchAt _ _ _ spaceId htidy _ _ check
    exact Or.inl hswitch
  | called polls check step active =>
    have hswitch := @checkCallAt_switchAt _ _ _ spaceId htidy _ _ check
    exact Or.inl hswitch

theorem Switching.last (h : Switching p interp i choices interp' out) :
    interp'.lastBytecodeThread = interp.lastBytecodeThread ∨
      interp'.lastBytecodeThread = some i := by
  cases h with
  | same last => exact Or.inl rfl
  | called switches cursor other result step active => exact Or.inl rfl
  | _ => exact Or.inr rfl

theorem Checking.last (h : Checking p interp i choices interp' out) :
    interp'.lastBytecodeThread = interp.lastBytecodeThread ∨
      interp'.lastBytecodeThread = some i := by
  cases h with
  | unchecked quiet switching => exact switching.last
  | passed polls check switching => exact (checkCallAt_threads check).last ▸ switching.last
  | enterFails polls check step inactive => exact Or.inl (checkCallAt_threads check).last
  | called polls check step active => exact Or.inl (checkCallAt_threads check).last

theorem Tracked.next (h : Tracked interp) (hsound : Sound interp')
    (hlive : ∀ v ∈ interp'.live, v ∈ interp.live)
    (hran : ∀ v ∈ interp'.live,
      threadRun p (ranBy v out) (interp.threads v) = some (interp'.threads v))
    (hlast : ∀ u, interp'.lastBytecodeThread = some u → u ∈ interp'.live)
    (hcursor : ∀ spaceId v, cursorAt interp' spaceId = some v →
      cursorAt interp spaceId = some v ∨ Knows (interp.threads v) spaceId) : Tracked interp' := by
  refine ⟨hsound, ?_, ?_, hlast, ?_⟩
  · intro v hv
    rw [ran_sameThread (hran v hv)]
    exact h.named v (hlive v hv)
  · intro v hv
    obtain ⟨l, hstanding⟩ := h.sound.standing v (hlive v hv)
    exact (h.seen v (hlive v hv)).run hstanding (hran v hv)
  · intro spaceId v hcursor'
    have hv := cursorAt_live hsound hcursor'
    obtain ⟨l, hstanding⟩ := h.sound.standing v (hlive v hv)
    have hknows : Knows (interp.threads v) spaceId :=
      (hcursor spaceId v hcursor').elim (h.knows spaceId v) id
    exact hknows.run hstanding (hran v hv)

theorem Tracked.checked (h : Tracked interp) (hsound : Sound interp') (hlive : i ∈ interp.live)
    (hsame : interp'.live = interp.live) (hran : Ran p interp interp' out)
    (hlast : interp'.lastBytecodeThread = interp.lastBytecodeThread ∨
      interp'.lastBytecodeThread = some i)
    (hmoves : ∀ spaceId, CursorMoves spaceId i interp interp') : Tracked interp' := by
  refine h.next hsound (fun v hv => hsame ▸ hv) (fun v _ => hran v) ?_ ?_
  · intro u hu
    rw [hsame]
    obtain hkept | hnew := hlast
    · exact h.last u (hkept ▸ hu)
    · rw [hnew, Option.some.injEq] at hu
      exact hu ▸ hlive
  · intro spaceId v hv
    obtain hkept | ⟨htop, callback, cursor, hswitch, hmoved⟩ := hmoves spaceId
    · unfold cursorAt at hv ⊢
      rw [hkept] at hv
      exact Or.inl hv
    · rw [cursorAt_of hmoved, Option.some.injEq] at hv
      obtain ⟨l, hstanding⟩ := h.sound.standing i hlive
      exact Or.inr (hv ▸ knows_of_top hstanding (h.seen i hlive) htop)

theorem Tracked.thread (h : Tracked interp) (hlive : i ∈ interp.live) {event : ThreadEvent}
    {m : Machine} (hstep : threadStep p (interp.threads i) event = some m)
    {pending : Option Pending} (hsynced : pending.isSome = m.tstate.threadCallbackActive) :
    Tracked ((interp.setThread i m).setPending i pending) := by
  have hran : Ran p interp ((interp.setThread i m).setPending i pending) [.ran i event] :=
    Ran.step hstep
  exact h.next (h.sound.thread hlive hstep hsynced) (fun v hv => hv) (fun v _ => hran v) h.last
    (fun _ _ hv => Or.inl hv)

theorem Tracked.ran (h : Tracked interp) (hlive : i ∈ interp.live) {event : ThreadEvent}
    {m : Machine} (hstep : threadStep p (interp.threads i) event = some m)
    (hbegin : ∀ k allocates, event ≠ .callbackBegin k allocates) (hend : event ≠ .callbackEnd) :
    Tracked (interp.setThread i m) := by
  have hran : Ran p interp (interp.setThread i m) [.ran i event] := Ran.step hstep
  exact h.next (h.sound.ran hlive hstep hbegin hend) (fun v hv => hv) (fun v _ => hran v) h.last
    (fun _ _ hv => Or.inl hv)

theorem Tracked.begun (h : Tracked interp) (hlive : i ∈ interp.live) {jumps : List (Int × Int)}
    {offset : Nat} {m : Machine}
    (hstep : threadStep p (interp.threads i) (.begin jumps offset) = some m) :
    Tracked (interp.setThread i m) :=
  h.ran hlive hstep (by simp) (by simp)

theorem Tracked.ended (h : Tracked interp) (hlive : i ∈ interp.live) {m : Machine}
    (hstep : threadStep p (interp.threads i) .callbackEnd = some m) :
    Tracked ((interp.setThread i m).setPending i none) := by
  obtain ⟨l, hstanding⟩ := h.sound.standing i hlive
  obtain ⟨-, heffect⟩ := hstanding.step hstep
  refine h.thread hlive hstep ?_
  cases heffect
  rfl

theorem Tracked.setLast (h : Tracked interp) (hlive : i ∈ interp.live) :
    Tracked (interp.setLast i) :=
  ⟨h.sound.setLast i, h.named, h.seen, fun _ hu => Option.some.inj hu ▸ hlive, h.knows⟩

theorem Tracked.changed (h : Tracked interp) (hsound : Sound interp')
    (hthreads : SameThreads interp interp')
    (hcursor : ∀ spaceId v, cursorAt interp' spaceId = some v →
      cursorAt interp spaceId = some v ∨ Knows (interp.threads v) spaceId) : Tracked interp' := by
  have hran : Ran ⟨true, true⟩ interp interp' [] := Ran.same hthreads.threads (fun _ => rfl)
  refine h.next hsound (fun v hv => hthreads.live ▸ hv) (fun v _ => hran v) ?_ hcursor
  rw [hthreads.last, hthreads.live]
  exact h.last

theorem Tracked.visible (h : Tracked interp) (hlive : i ∈ interp.live) {v : Nat}
    (hvisible : visibleThreadForSpace interp i spaceId = some v) :
    Knows (interp.threads v) spaceId := by
  unfold visibleThreadForSpace at hvisible
  dsimp only at hvisible
  split at hvisible
  · cases hvisible
  · rename_i n hfind
    split at hvisible
    · rename_i hnear
      cases hvisible
      obtain ⟨f, hf⟩ := Option.isSome_iff_exists.mp hnear
      unfold nearestVisibleFrameInSpace at hf
      exact ⟨n, hfind, h.seen i hlive f n (visibleIn_space (List.find?_some hf))⟩
    · cases hvisible

theorem Tracked.clearThread (p : Platform) (h : Tracked interp)
    (hsound : Sound (Retrace.clearThread clearThreadState interp i)) :
    Tracked (Retrace.clearThread clearThreadState interp i) := by
  obtain ⟨-, -, hswitch⟩ := h.sound.tidy.clearThread clearThreadState i
  have hleft : ∀ v ∈ (Retrace.clearThread clearThreadState interp i).live,
      v ∈ interp.live ∧ v ≠ i :=
    fun v hv => (h.sound.distinct.mem_erase_iff.mp hv).symm
  refine @Tracked.next p _ _ [] h hsound (fun v hv => (hleft v hv).1) ?_ ?_ ?_
  · intro v hv
    have hsame : (Retrace.clearThread clearThreadState interp i).threads v = interp.threads v :=
      setThread_of_ne interp _ (hleft v hv).2
    rw [hsame]
    rfl
  · intro u hu
    have hforget : (if interp.lastBytecodeThread = some i then none
        else interp.lastBytecodeThread) = some u := hu
    split at hforget
    · cases hforget
    · rename_i hne
      refine h.sound.distinct.mem_erase_iff.mpr ⟨?_, h.last u hforget⟩
      rintro rfl
      exact hne hforget
  · intro spaceId v hv
    unfold cursorAt at hv ⊢
    rw [hswitch, Option.bind_eq_some_iff] at hv
    obtain ⟨entry, hentry, hcursor⟩ := hv
    rw [Option.map_eq_some_iff] at hentry
    obtain ⟨old, hold, rfl⟩ := hentry
    dsimp only at hcursor
    split at hcursor
    · cases hcursor
    · rw [hold]
      exact Or.inl hcursor

theorem Stepping.tracked {event : InterpEvent} (h : Stepping p interp event interp' out)
    (htracked : Tracked interp) : Tracked interp' := by
  have hsound' := h.sound htracked.sound
  have hkept : ∀ {final : Interp}, (∀ spaceId, switchAt final spaceId = switchAt interp spaceId) →
      ∀ spaceId v, cursorAt final spaceId = some v →
        cursorAt interp spaceId = some v ∨ Knows (interp.threads v) spaceId := by
    intro final hswitch spaceId v hv
    unfold cursorAt at hv ⊢
    rw [hswitch] at hv
    exact Or.inl hv
  cases h with
  | run live program step =>
    refine htracked.ran live step ?_ ?_
    · rintro k allocates rfl
      cases program
    · rintro rfl
      cases program
  | inside live step active => exact htracked.begun live step
  | boundary live step inactive checking =>
    exact (htracked.begun live step).checked hsound' live checking.live checking.ran checking.last
      (checking.cursorMoves (htracked.begun live step).sound.tidy)
  | returns live pended step returning =>
    have hended := htracked.ended live step
    cases returning with
    | afterSwitch => exact hended.setLast live
    | raised failed => exact hended
    | afterCallAt returned switching =>
      exact hended.checked hsound' live switching.live switching.ran switching.last
        (switching.cursorMoves hended.sound.tidy)
  | callAt =>
    rename_i request
    obtain ⟨error, heq⟩ | ⟨heq, -⟩ := callAt_cases interp request
    · rw [heq]
      exact htracked
    · rw [heq] at hsound' ⊢
      obtain ⟨-, hthreads, hswitch, -⟩ := htracked.sound.tidy.armCallAt request
      exact htracked.changed hsound' hthreads (hkept hswitch)
  | clearCallAt =>
    exact htracked.changed hsound' (clearCallAt_threads interp _)
      (hkept (htracked.sound.tidy.clearCallAt _).2.2)
  | setThreadSwitchCallback live =>
    rename_i i registered callback allocates
    obtain ⟨-, hthreads, -, -, hswitch⟩ :=
      htracked.sound.tidy.setThreadSwitchCallback i callback registered allocates
    refine htracked.changed hsound' hthreads ?_
    obtain ⟨-, hsame⟩ | hnew := hswitch
    · exact hkept hsame
    · intro spaceId v hv
      unfold cursorAt at hv ⊢
      rw [hnew] at hv
      split at hv
      · rename_i heq
        rw [Option.bind_eq_some_iff] at hv
        obtain ⟨entry, hentry, hcursor⟩ := hv
        rw [Option.map_eq_some_iff] at hentry
        obtain ⟨called, -, rfl⟩ := hentry
        exact Or.inr (heq ▸ htracked.visible live hcursor)
      · exact Or.inl hv
  | clearThread live => exact htracked.clearThread p hsound'

theorem Tracked.run (h : Tracked interp) {events : List InterpEvent}
    (hrun : StepRun.run (interpStep p) events interp = some (interp', out)) : Tracked interp' :=
  StepRun.run_invariant
    (fun _ _ _ _ htracked hstep => (htracked.sound.stepping hstep).tracked htracked) h hrun

theorem Unused.tracked (h : Unused interp)
    (hnamed : ∀ i ∈ interp.live, (interp.threads i).tstate.threadId ≠ 0) : Tracked interp := by
  refine ⟨h.sound, hnamed, fun i hi => (h.idle i hi).seenFrames, ?_, ?_⟩
  · intro u hu
    rw [h.last] at hu
    cases hu
  · intro spaceId v hv
    unfold cursorAt switchAt findSpaceCallbackState at hv
    rw [h.entries] at hv
    cases hv

end tracked

end Retrace
