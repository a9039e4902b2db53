import Retrace.CoordinateOrder
import Retrace.TargetArmings

/-! Where a target is hit: at the boundary that has its coordinates, and nowhere else. -/

set_option autoImplicit false

namespace Retrace

/-- The only target is one of the thread, and a frame of its space stays active. -/
structure Approaching (t spaceId n r : Nat) (target : CallAt) (interp : Interp) : Prop where
  sound : Sound interp
  own : OwnId interp t
  grounded : Grounded (interp.threads t)
  rooted : Rooted (interp.threads t) n r
  space : findThreadSpace (interp.threads t).tstate spaceId = some n
  slot : slotAt interp spaceId = some target
  sameId : (interp.threads t).tstate.threadId = target.threadId
  only : ∀ other, other ≠ spaceId → slotAt interp other = none

section approach
variable {p : Platform} {interp interp' ready : Interp} {event : InterpEvent} {out : List Output}
  {i t spaceId n r offset : Nat} {choices : BoundaryChoices} {jumps : List (Int × Int)}
  {m last : Machine} {target : CallAt}

theorem Rooted.ahead {between : List ThreadEvent} (h : Rooted m n r) (hgrounded : Grounded m)
    (hrising : runMoves p rises (between ++ [.begin jumps offset]) m = true)
    (hrun : threadRun p (between ++ [.begin jumps offset]) m = some last)
    (hactive : staysActive p r (between ++ [.begin jumps offset]) m = true)
    (hspace : findThreadSpace m.tstate spaceId = some n) (hlast : AtBoundary last spaceId)
    (hat : coordinates last spaceId 0 = some target.coordinates)
    (hidle : m.tstate.threadCallbackActive = false) (hvisible : (topSpaceId m).isSome = true)
    (room : Bool) : Ahead m spaceId target room := by
  obtain ⟨f, rest, htop, hcomplete⟩ : ∃ f rest, m.tstate.stack = .frame f :: rest ∧
      isIncomplete (m.frames f) = false := by
    unfold topSpaceId topFrame at hvisible
    cases hstack : m.tstate.stack with
    | nil =>
      rw [hstack] at hvisible
      cases hvisible
    | cons item rest =>
      cases item with
      | scope k =>
        rw [hstack] at hvisible
        cases hvisible
      | callback k =>
        rw [hstack] at hvisible
        cases hvisible
      | frame f =>
        rw [hstack] at hvisible
        dsimp only at hvisible
        split at hvisible
        · rename_i hshown
          unfold frameIsVisible at hshown
          simp only [Bool.and_eq_true, Bool.not_eq_true'] at hshown
          exact ⟨f, rest, rfl, hshown.2⟩
        · cases hvisible
  obtain ⟨words, hwords, hslots⟩ :=
    hgrounded.coordinates hidle htop hcomplete hspace (hgrounded.ordered.seen r n h.space)
  obtain ⟨words', hwords', hlt⟩ := h.lt_boundary hgrounded hrising hrun hlast hspace hactive
  rw [hat, Option.some.injEq] at hwords'
  subst hwords'
  exact ⟨words, hwords, Or.inl (lt_of_map_cast_lt (hslots ▸ hlt))⟩

theorem Stepping.empty (h : Stepping p interp event interp' out) (hsound : Sound interp)
    (hleaves : LeavesTarget spaceId interp event interp' out) {other : Nat}
    (hnone : slotAt interp other = none) : slotAt interp' other = none := by
  by_cases hcleared : event = .clearCallAt other
  · subst hcleared
    cases h
    rw [(hsound.tidy.clearCallAt other).2.1, if_pos rfl]
  · have hleaves' : LeavesTarget other interp event interp' out := by
      cases event with
      | clearCallAt cleared => exact fun heq => hcleared (congrArg InterpEvent.clearCallAt heq)
      | callAt request => exact hleaves
      | _ => trivial
    obtain hkept | ⟨i, jumps, offset, choices, m, rest, -, -, -, -, -, -, hempty⟩ :=
      h.slot hsound hleaves'
    · exact hkept.trans hnone
    · exact hempty

theorem Approaching.step (h : Approaching t spaceId n r target interp)
    (hstepping : Stepping p interp event interp' out)
    (hleaves : LeavesTarget spaceId interp event interp' out) (hlive : t ∈ interp'.live)
    {later : List ThreadEvent}
    (hrising : runMoves p rises (ranBy t out ++ (later ++ [.begin jumps offset])) (interp.threads t) = true)
    (hactive : staysActive p r (ranBy t out ++ (later ++ [.begin jumps offset]))
      (interp.threads t) = true)
    (hrun : threadRun p (later ++ [.begin jumps offset]) (interp'.threads t) = some last)
    (hlast : AtBoundary last spaceId)
    (hat : coordinates last spaceId 0 = some target.coordinates) :
    Approaching t spaceId n r target interp' ∧ ∀ j d, .callAt j d ∉ out := by
  have hran := hstepping.ranOf h.sound hlive
  obtain ⟨hrisingOut, -⟩ := runMoves_append hrising hran
  obtain ⟨hactiveOut, -⟩ := staysActive_append hactive hran
  have hkept : slotAt interp' spaceId = some target := by
    obtain hkept | ⟨i, jumps', offset', choices, m, rest, rfl, hliveI, hbegin, hidle, rfl, hmoved,
      -⟩ := hstepping.slot h.sound hleaves
    · exact hkept.trans h.slot
    · have hit : i = t :=
        h.own i hliveI ((hmoved.sameId hbegin h.slot).trans h.sameId.symm)
      subst hit
      -- from the start of this instruction the thread still goes to the boundary
      have hone : threadRun p [.begin jumps' offset'] (interp.threads i) = some m := by
        rw [threadRun_cons, hbegin]
        rfl
      rw [ranBy_ran, if_pos rfl] at hran hrising hactive
      rw [threadRun_cons, hbegin] at hran
      change threadRun p (ranBy i rest) m = some (interp'.threads i) at hran
      obtain ⟨hrisingOne, hrisingRest⟩ := @runMoves_append _ _ [.begin jumps' offset']
        (ranBy i rest ++ (later ++ [.begin jumps offset])) hrising _ hone
      obtain ⟨hactiveOne, hactiveRest⟩ := @staysActive_append _ _ [.begin jumps' offset']
        (ranBy i rest ++ (later ++ [.begin jumps offset])) _ hactive _ hone
      obtain ⟨hrooted, -⟩ := h.rooted.run h.grounded hrisingOne hone hactiveOne
      have hspace := h.rooted.finds h.grounded hrisingOne hone hactiveOne h.space
      have hgrounded := h.grounded.run hrisingOne hone
      obtain ⟨hvisible, -, -, target', hslot', -, hbehind⟩ := (moved_iff h.sound.tidy hidle).mp hmoved
      have hsame : target' = target := Option.some.inj (hslot'.symm.trans h.slot)
      subst hsame
      rw [← List.append_assoc] at hrisingRest hactiveRest
      refine absurd (hrooted.ahead hgrounded hrisingRest ?_ hactiveRest hspace hlast hat hidle
        hvisible _) hbehind
      rw [List.append_assoc, threadRun_join _ hran]
      exact hrun
  refine ⟨⟨hstepping.sound h.sound, h.own.step hstepping h.sound hlive,
    h.grounded.run hrisingOut hran, (h.rooted.run h.grounded hrisingOut hran hactiveOut).1,
    h.rooted.finds h.grounded hrisingOut hran hactiveOut h.space, hkept,
    (hstepping.sameId h.sound hlive).trans h.sameId,
    fun other hother => hstepping.empty h.sound hleaves (h.only other hother)⟩, ?_⟩
  obtain hnone | ⟨i, jumps', offset', choices, d, -, -, hslot, hempty, -⟩ :=
    hstepping.calls h.sound
  · exact hnone
  · by_cases hspace : d.spaceId = spaceId
    · rw [hspace, hkept] at hempty
      cases hempty
    · rw [h.only _ hspace] at hslot
      cases hslot

theorem Approaching.run {events : List InterpEvent} (h : Approaching t spaceId n r target interp)
    (hrun : StepRun.run (interpStep p) events interp = some (ready, out))
    (hleaves : StepRun.Always (interpStep p) (LeavesTarget spaceId) events interp)
    (hlive : t ∈ ready.live)
    (hrising : runMoves p rises (ranBy t out ++ [.begin jumps offset]) (interp.threads t) = true)
    (hactive : staysActive p r (ranBy t out ++ [.begin jumps offset]) (interp.threads t) = true)
    (hbegin : threadStep p (ready.threads t) (.begin jumps offset) = some last)
    (hlast : AtBoundary last spaceId)
    (hat : coordinates last spaceId 0 = some target.coordinates) :
    Approaching t spaceId n r target ready ∧ ∀ j d, .callAt j d ∉ out := by
  induction events generalizing interp out with
  | nil =>
    cases hrun
    exact ⟨h, by simp⟩
  | cons event events ih =>
    obtain ⟨mid, first, more, hstep, hrest, rfl⟩ := StepRun.run_cons.mp hrun
    have hstepping := h.sound.stepping hstep
    have hmid := hstepping.sound h.sound
    have hliveMid := hmid.live_run hrest t hlive
    obtain ⟨hone, hleaves⟩ := (StepRun.always_cons hstep).mp hleaves
    rw [ranBy_append, List.append_assoc] at hrising hactive
    have hlater :
        threadRun p (ranBy t more ++ [.begin jumps offset]) (mid.threads t) = some last := by
      rw [threadRun_join _ (hmid.ranOf hrest hlive), threadRun_cons, hbegin]
      rfl
    obtain ⟨hnext, hnone⟩ := h.step hstepping hone hliveMid hrising hactive hlater hlast hat
    have hran := hstepping.ranOf h.sound hliveMid
    obtain ⟨hready, hnone'⟩ := ih hnext hrest hleaves (runMoves_append hrising hran).2
      (staysActive_append hactive hran).2
    refine ⟨hready, fun j d hd => ?_⟩
    exact (List.mem_append.mp hd).elim (hnone j d) (hnone' j d)

theorem Tidy.reachesOnly (h : Tidy interp) (honly : ∀ other, other ≠ spaceId →
    slotAt interp other = none) (allocates : Nat → Bool) :
    reaches interp i allocates spaceId = true := by
  unfold reaches
  by_cases hroot : spaceId = spaceIdRoot
  · simp [hroot]
  · have hpass : slotCheck interp i allocates spaceIdRoot = .pass := by
      unfold slotCheck
      rw [honly spaceIdRoot (Ne.symm hroot)]
      rfl
    have hnone : deliversBefore (interp.threads i) allocates spaceId interp.spaceCallbacks =
        false := by
      unfold deliversBefore
      rw [List.any_eq_false]
      intro entry hmem
      have hother : entry.spaceId ≠ spaceId :=
        of_decide_eq_true (List.all_eq_true.mp List.all_takeWhile entry hmem)
      have hslot := h.slotAt_entry ((List.takeWhile_sublist _).subset hmem)
      have hempty : entry.callAt = none := by
        split at hslot
        · exact hslot
        · exact hslot.symm.trans (honly _ hother)
      rw [hempty]
      simp [checkCallAtSlot_none, SlotCheck.delivers]
    simp [hpass, hnone, SlotCheck.delivers]

end approach

section hits
variable {p : Platform} {origin interp : Interp} {t : Nat}

end hits

end Retrace
