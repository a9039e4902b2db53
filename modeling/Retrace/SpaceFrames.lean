import Retrace.CoordinateOrder

/-! The frames of a space on a thread's stack, and what a step does to them. -/

set_option autoImplicit false

namespace Retrace

/-- Active in the space, complete or not. -/
def frameOf (m : Machine) (spaceId f : Nat) : Bool :=
  (m.frames f).space.any (fun space => (m.tstate.space space.node).spaceId == spaceId)

def shownOf (m : Machine) (spaceId f : Nat) : Bool :=
  frameOf m spaceId f && frameIsVisible (m.frames f)

def ThreadEvent.activates : ThreadEvent → Bool
  | .call _ _ _ _ => true
  | .resume _ _ _ => true
  | _ => false

section frames
variable {m m' : Machine} {base : Context} {spaceId : Nat} {event : ThreadEvent}

theorem frameOf_spacePtr {f n : Nat} (h : (m.frames f).space = some (m.spacePtr n)) :
    frameOf m spaceId f = ((m.tstate.space n).spaceId == spaceId) := by
  unfold frameOf
  rw [h]
  rfl

theorem Effect.keptItem (h : Effect m event m') (hseg : Segment [] base m) {item : StackItem}
    (hon : item ∈ m.tstate.stack) (hon' : item ∈ m'.tstate.stack) : SavedOn [item] m m' := by
  obtain ⟨kept, hsaved, hcases⟩ := h.kept hseg.contextOk hseg.nodup
  refine hsaved.mono (fun other hother => ?_)
  rw [List.mem_singleton.mp hother]
  obtain ⟨hm, -⟩ | ⟨-, -, hm'⟩ | ⟨-, hm, -⟩ := hcases
  · exact hm ▸ hon
  · exact hm' ▸ hon'
  · exact hm ▸ hon

theorem Effect.frameOf (h : Effect m event m') (hseg : Segment [] base m) {f : Nat}
    (hon : .frame f ∈ m.tstate.stack) (hon' : .frame f ∈ m'.tstate.stack) :
    frameOf m' spaceId f = frameOf m spaceId f := by
  have hsaved := h.keptItem hseg hon hon'
  obtain ⟨n, hn, hspace⟩ := hseg.frame_space hon
  have hspace' : (m'.frames f).space = some (m'.spacePtr n) := by
    rw [(hsaved.frame f (List.mem_singleton_self _)).1, hsaved.spacePtr, hspace]
  rw [frameOf_spacePtr hspace, frameOf_spacePtr hspace', hsaved.spaceId n hn]

theorem Effect.shownKept (h : Effect m event m') (hseg : Segment [] base m) {f : Nat}
    (hbegin : ∀ jumps offset lower, event = .begin jumps offset →
      m.tstate.stack ≠ .frame f :: lower)
    (hon : .frame f ∈ m.tstate.stack) (hon' : .frame f ∈ m'.tstate.stack) :
    Retrace.shownOf m' spaceId f = Retrace.shownOf m spaceId f := by
  have hspace := ((h.keptItem hseg hon hon').frame f (List.mem_singleton_self _)).1
  have hvisible : frameIsVisible (m'.frames f) = frameIsVisible (m.frames f) := by
    unfold frameIsVisible isIncomplete
    rw [hspace]
    obtain ⟨hlasti, hfirst, -⟩ | ⟨hoff, -⟩ | ⟨jumps, offset, lower, hevent, htop, -⟩ :=
      h.placement f
    · rw [hlasti, hfirst]
    · exact absurd hon hoff
    · exact absurd htop (hbegin jumps offset lower hevent)
  unfold Retrace.shownOf
  rw [h.frameOf hseg hon hon', hvisible]

theorem Effect.shownOf (h : Effect m event m') (hseg : Segment [] base m) {item : StackItem}
    {rest : List StackItem} (hstack' : item :: rest <:+ m'.tstate.stack) {f : Nat}
    (hf : .frame f ∈ rest) (hon : .frame f ∈ m.tstate.stack) :
    shownOf m' spaceId f = shownOf m spaceId f := by
  refine h.shownKept hseg ?_ hon (hstack'.subset (List.mem_cons_of_mem _ hf))
  -- the frame that begins an instruction is on top, and not below the item
  intro jumps offset lower hevent htop
  subst hevent
  have hsame : m'.tstate.stack = m.tstate.stack := by
    cases h
    rfl
  have hnodup := hseg.nodup
  rw [hsame, htop, List.suffix_cons_iff] at hstack'
  rw [htop, List.nodup_cons] at hnodup
  rcases hstack' with heq | hlower
  · rw [List.cons.injEq] at heq
    exact hnodup.1 (heq.2 ▸ hf)
  · exact hnodup.1 (hlower.subset (List.mem_cons_of_mem _ hf))

theorem Effect.pushesFrame (h : Effect m event m') (hseg : Segment [] base m) {f : Nat}
    (hpushed : m'.tstate.stack = .frame f :: m.tstate.stack) :
    event.activates = true ∧
      Retrace.frameOf m' spaceId f = (m.currentSpaceId == spaceId) := by
  have hpush : ∀ (g : Nat) (frame : InterpreterFrame),
      (m.pushFrame g frame).tstate.stack = .frame f :: m.tstate.stack →
      Retrace.frameOf (m.pushFrame g frame) spaceId f = (m.currentSpaceId == spaceId) := by
    intro g frame hstack
    have hgf : g = f := StackItem.frame.inj (List.cons.inj hstack).1
    subst hgf
    have hspace : ((m.pushFrame g frame).frames g).space =
        some ((m.pushFrame g frame).spacePtr m.tstate.currentSpace) := by
      rw [pushFrame_frames, if_pos rfl]
      rfl
    have hcurrent : m.tstate.currentSpace < m.tstate.spaces.length := hseg.contextOk.space
    rw [frameOf_spacePtr hspace, pushFrame_space m g frame hcurrent, if_pos rfl]
    rfl
  obtain ⟨kept, -, ⟨hm, hm'⟩ | ⟨item, hm, hm'⟩ | ⟨item, hm, hm', hpushes, hscope⟩⟩ :=
    h.kept hseg.contextOk hseg.nodup
  · rw [hm', ← hm] at hpushed
    exact absurd hpushed.symm (List.cons_ne_self _ _)
  · have hlength := congrArg List.length hpushed
    rw [hm', hm] at hlength
    simp only [List.length_cons] at hlength
    omega
  · cases h with
    | call off limit => exact ⟨rfl, hpush _ _ hpushed⟩
    | resume off limit => exact ⟨rfl, hpush _ _ hpushed⟩
    | enterFails unused => exact absurd hpushed.symm (List.cons_ne_self _ _)
    | enterSpace unused enters =>
      cases (List.cons.inj hpushed).1
    | callbackFails unused idle => exact absurd hpushed.symm (List.cons_ne_self _ _)
    | callbackBegin top unused idle enters =>
      cases (List.cons.inj hpushed).1
    | _ => cases hpushes

theorem Effect.staysAbove (h : Effect m event m') (hseg : Segment [] base m) {item : StackItem}
    {rest : List StackItem} (hstack : item :: rest <:+ m.tstate.stack)
    (hon' : item ∈ m'.tstate.stack) : item :: rest <:+ m'.tstate.stack := by
  obtain ⟨kept, -, ⟨hm, hm'⟩ | ⟨top, hm, hm'⟩ | ⟨top, hm, hm', -⟩⟩ :=
    h.kept hseg.contextOk hseg.nodup
  · rw [hm', ← hm]
    exact hstack
  · have hnodup := hseg.nodup
    rw [hm, List.nodup_cons] at hnodup
    rw [hm, List.suffix_cons_iff] at hstack
    rw [hm'] at hon' ⊢
    refine hstack.resolve_left (fun heq => ?_)
    rw [List.cons.injEq] at heq
    exact hnodup.1 (heq.1 ▸ hon')
  · rw [hm', ← hm]
    exact hstack.trans (List.suffix_cons _ _)

theorem visibleIn_shown (hseg : Segment [] base m) {n f : Nat}
    (hn : findThreadSpace m.tstate spaceId = some n) (hf : .frame f ∈ m.tstate.stack) :
    m.visibleIn (m.spacePtr n) f = Retrace.shownOf m spaceId f := by
  obtain ⟨node, hnode, hspace⟩ := hseg.frame_space hf
  obtain ⟨hlt, hid⟩ := hseg.circle.find_some hn
  unfold Machine.visibleIn Retrace.shownOf
  rw [frameOf_spacePtr hspace, hspace, Bool.and_comm]
  congr 1
  rw [Bool.eq_iff_iff, beq_iff_eq, beq_iff_eq, Option.some.injEq, ← hid]
  constructor
  · intro heq
    have hsame : node = n := by simpa [Machine.spacePtr] using heq
    rw [hsame]
  · intro heq
    rw [hseg.circle.distinct node hnode n hlt heq]

end frames

end Retrace
