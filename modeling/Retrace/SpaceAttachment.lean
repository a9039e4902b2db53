import Retrace.SpaceFrames

/-! Where a scope of a space attaches its activations, against the frames that the coordinates of
the space list. -/

set_option autoImplicit false

namespace Retrace

/-- An entry into the space looks at every frame of the space on the stack, and these are
complete. -/
def EntrySees (spaceId : Nat) (m : Machine) (event : ThreadEvent) : Prop :=
  event.enters = some spaceId → ∀ f ∈ m.chain, frameOf m spaceId f = true →
    f ∈ currentThreadFrame m ∧ isIncomplete (m.frames f) = false

instance (spaceId : Nat) (m : Machine) (event : ThreadEvent) :
    Decidable (EntrySees spaceId m event) :=
  inferInstanceAs (Decidable (_ → ∀ f ∈ m.chain, _ → _ ∧ _))

def entriesSee (p : Platform) (spaceId : Nat) : List ThreadEvent → Machine → Bool :=
  everyStep p (fun m event => decide (EntrySees spaceId m event))

/-- The frames whose words the coordinates of the space are, oldest first. -/
def listedFrames (m : Machine) (spaceId : Nat) : List Nat :=
  match findThreadSpace m.tstate spaceId with
  | none => []
  | some n => ((threadStateFrame m n).filter (m.visibleIn (m.spacePtr n))).reverse

/-- The slot of a frame, or else the scope's own, which stands for the root ordinal. -/
def slotOf (k : Nat) : Option Nat → OrdinalPtr
  | none => .scope k
  | some g => .frame g

/-- The activations right in a scope of the space go to the nearest visible frame of the space
below it, and the frames of the space below it are all visible. -/
def ScopeAttached (m : Machine) (spaceId k : Nat) (rest : List StackItem)
    (ptr : Option OrdinalPtr) : Prop :=
  (m.tstate.space (m.scopes k).space).spaceId = spaceId →
    (∀ g, .frame g ∈ rest → frameOf m spaceId g = true → shownOf m spaceId g = true) ∧
    ptr = some (slotOf k ((frameChain rest).find? (shownOf m spaceId)))

/-- Every scope of the space on the stack is attached; the activations on top of the stack go to
`ptr`. -/
def Attached (m : Machine) (spaceId : Nat) : List StackItem → Option OrdinalPtr → Prop
  | [], _ => True
  | .frame f :: rest, _ => Attached m spaceId rest (m.frames f).previousCallOrdinalPtr
  | .scope k :: rest, ptr => ScopeAttached m spaceId k rest ptr ∧
      Attached m spaceId rest (m.scopes k).previousCallOrdinalPtr
  | .callback k :: rest, ptr => ScopeAttached m spaceId k rest ptr ∧
      Attached m spaceId rest (m.scopes k).previousCallOrdinalPtr

section attached
variable {p : Platform} {m m' : Machine} {base : Context} {spaceId : Nat} {event : ThreadEvent}

theorem Attached.kept {items : List StackItem} {ptr : Option OrdinalPtr}
    (h : Attached m spaceId items ptr) (heffect : Effect m event m') (hseg : Segment [] base m)
    (hstack : items <:+ m.tstate.stack) (hstack' : items <:+ m'.tstate.stack) :
    Attached m' spaceId items ptr := by
  induction items generalizing ptr with
  | nil => trivial
  | cons item rest ih =>
    have hon : item ∈ m.tstate.stack := hstack.subset List.mem_cons_self
    have hon' : item ∈ m'.tstate.stack := hstack'.subset List.mem_cons_self
    have hsaved := heffect.keptItem hseg hon hon'
    have hrest : ∀ {saved : Option OrdinalPtr}, Attached m spaceId rest saved →
        Attached m' spaceId rest saved := fun h =>
      ih h ((List.suffix_cons _ _).trans hstack) ((List.suffix_cons _ _).trans hstack')
    have hframe : ∀ g, .frame g ∈ rest → frameOf m' spaceId g = frameOf m spaceId g ∧
        shownOf m' spaceId g = shownOf m spaceId g := by
      intro g hg
      have hg₁ := hstack.subset (List.mem_cons_of_mem _ hg)
      have hg₂ := hstack'.subset (List.mem_cons_of_mem _ hg)
      exact ⟨heffect.frameOf hseg hg₁ hg₂, heffect.shownOf hseg hstack' hg hg₁⟩
    have hscope : ∀ k, (item = .scope k ∨ item = .callback k) →
        ScopeAttached m spaceId k rest ptr → ScopeAttached m' spaceId k rest ptr := by
      intro k hitem hslot hid
      have hk : k ∈ scopeIds [item] := by
        rcases hitem with rfl | rfl <;> exact List.mem_singleton_self k
      have hlt : (m.scopes k).space < m.tstate.spaces.length := by
        refine hseg.scope_lt (mem_scopeIds.mpr ?_)
        rcases hitem with rfl | rfl
        · exact Or.inl hon
        · exact Or.inr hon
      rw [hsaved.scope_spaceId hk hlt] at hid
      obtain ⟨hshown, hptr⟩ := hslot hid
      refine ⟨?_, ?_⟩
      · intro g hg hf
        rw [(hframe g hg).1] at hf
        rw [(hframe g hg).2]
        exact hshown g hg hf
      · rw [hptr, ← List.head?_filter, ← List.head?_filter,
          List.filter_congr (fun g hg => (hframe g (mem_frameChain.mp hg)).2)]
    have hprevious : ∀ k, (item = .scope k ∨ item = .callback k) →
        (m'.scopes k).previousCallOrdinalPtr = (m.scopes k).previousCallOrdinalPtr := by
      intro k hitem
      have hsame := hsaved.scope k (by rcases hitem with rfl | rfl <;> exact List.mem_singleton_self k)
      simp only [SpaceScope.mk.injEq] at hsame
      exact hsame.2.2.1
    cases item with
    | frame f =>
      change Attached m' spaceId rest (m'.frames f).previousCallOrdinalPtr
      rw [(hsaved.frame f (List.mem_singleton_self _)).2]
      exact hrest h
    | scope k =>
      refine ⟨hscope k (Or.inl rfl) h.1, ?_⟩
      rw [hprevious k (Or.inl rfl)]
      exact hrest h.2
    | callback k =>
      refine ⟨hscope k (Or.inr rfl) h.1, ?_⟩
      rw [hprevious k (Or.inr rfl)]
      exact hrest h.2

theorem currentThreadFrame_suffix (m : Machine) : currentThreadFrame m <:+ m.chain := by
  unfold currentThreadFrame Machine.callbackChain chainFrom
  split
  · split
    · exact List.nil_suffix
    · exact List.dropWhile_suffix _
  · exact List.suffix_refl _

theorem find_currentThreadFrame (hnodup : m.tstate.stack.Nodup)
    (hsees : ∀ f ∈ m.chain, frameOf m spaceId f = true → f ∈ currentThreadFrame m) :
    (currentThreadFrame m).find? (shownOf m spaceId) = m.chain.find? (shownOf m spaceId) := by
  obtain ⟨above, habove⟩ := currentThreadFrame_suffix m
  have hunique : (above ++ currentThreadFrame m).Nodup := habove ▸ nodup_frameChain hnodup
  rw [List.nodup_append] at hunique
  have hnone : above.find? (shownOf m spaceId) = none := by
    refine List.find?_eq_none.mpr ?_
    intro f hf hshown
    unfold shownOf at hshown
    rw [Bool.and_eq_true] at hshown
    have hseen := hsees f (habove ▸ List.mem_append_left _ hf) hshown.1
    exact hunique.2.2 f hf f hseen rfl
  rw [← habove, List.find?_append, hnone, Option.none_or]

theorem EntersSpace.visibleIn_shown (hseg : Segment [] base m) {k node : Nat} {t : ThreadState}
    {scope : SpaceScope} {ptr : OrdinalPtr} (h : EntersSpace m k spaceId m' node t scope ptr)
    {f : Nat} (hf : .frame f ∈ m.tstate.stack) :
    m.visibleIn (m.spacePtr node) f = shownOf m spaceId f := by
  cases hfind : findThreadSpace m.tstate spaceId with
  | some n =>
    obtain ⟨hlt, hid⟩ := hseg.circle.find_some hfind
    have hfound := h.grown.circle.find_eq (Nat.lt_of_lt_of_le hlt h.grown.length)
    rw [h.grown.space n hlt, hid, h.found, Option.some.injEq] at hfound
    rw [hfound]
    exact Retrace.visibleIn_shown hseg hfind hf
  | none =>
    obtain ⟨n, hn, hspace⟩ := hseg.frame_space hf
    have hother := hseg.circle.find_none hfind n hn
    have hne : node ≠ n := by
      rintro rfl
      have hid := (h.grown.circle.find_some h.found).2
      rw [h.grown.space node hn] at hid
      exact hother hid
    have hhidden : shownOf m spaceId f = false := by
      unfold shownOf
      rw [frameOf_spacePtr hspace, beq_false_of_ne hother]
      rfl
    rw [hhidden]
    refine visibleIn_eq_false ?_
    rw [hspace]
    simpa [Machine.spacePtr] using hne.symm

theorem EntersSpace.nearest (hseg : Segment [] base m) {k node : Nat} {t : ThreadState}
    {scope : SpaceScope} {ptr : OrdinalPtr} (h : EntersSpace m k spaceId m' node t scope ptr) :
    ptr = slotOf k ((currentThreadFrame m).find? (shownOf m spaceId)) := by
  have hslot := h.slot
  have hnear : nearestVisibleFrameInSpace m (m.spacePtr node) (currentThreadFrame (m.setTstate t)) =
      (currentThreadFrame m).find? (shownOf m spaceId) := by
    rw [currentThreadFrame_grown h.grown hseg.contextOk.space]
    unfold nearestVisibleFrameInSpace
    rw [← List.head?_filter, ← List.head?_filter]
    congr 1
    refine List.filter_congr ?_
    intro f hf
    exact h.visibleIn_shown hseg (mem_frameChain.mp (currentThreadFrame_sub hf))
  rw [hnear] at hslot
  cases hfind : (currentThreadFrame m).find? (shownOf m spaceId) with
  | none =>
    rw [hfind] at hslot
    exact hslot.2.1
  | some g =>
    rw [hfind] at hslot
    exact hslot.2.1

theorem EntersSpace.attached (hseg : Segment [] base m) {k node : Nat} {t : ThreadState}
    {scope : SpaceScope} {ptr : OrdinalPtr} (h : EntersSpace m k spaceId m' node t scope ptr)
    (hsees : ∀ f ∈ m.chain, frameOf m spaceId f = true → f ∈ currentThreadFrame m) :
    ptr = slotOf k (m.chain.find? (shownOf m spaceId)) := by
  rw [← find_currentThreadFrame hseg.nodup hsees]
  exact h.nearest hseg

theorem EntersSpace.scopeAttached (hseg : Segment [] base m) {k entered node : Nat}
    {t : ThreadState} {scope : SpaceScope} {ptr : OrdinalPtr}
    (h : EntersSpace m k entered m' node t scope ptr)
    (hunused : k ∉ scopeIds m.tstate.stack) {item : StackItem}
    (hsees : entered = spaceId → ∀ f ∈ m.chain, frameOf m spaceId f = true →
      f ∈ currentThreadFrame m ∧ isIncomplete (m.frames f) = false) :
    ScopeAttached (m'.push item) spaceId k m.tstate.stack
      (m'.push item).tstate.callOrdinalPtr := by
  intro hid
  have hentered : entered = spaceId := h.scope_spaceId.symm.trans hid
  subst hentered
  have hsaved : SavedOn m.tstate.stack m (m'.push item) := (savedOn_enterSpace h hunused).setStack _
  have hframe : ∀ g, .frame g ∈ m.tstate.stack →
      frameOf (m'.push item) entered g = frameOf m entered g ∧
      shownOf (m'.push item) entered g = shownOf m entered g := by
    intro g hg
    obtain ⟨n, hn, hspace⟩ := hseg.frame_space hg
    have hframes : (m'.push item).frames g = m.frames g := congrFun (h.frames item) g
    have hspace' : ((m'.push item).frames g).space = some ((m'.push item).spacePtr n) := by
      rw [hframes, hspace, hsaved.spacePtr]
    have hsame : frameOf (m'.push item) entered g = frameOf m entered g := by
      rw [frameOf_spacePtr hspace, frameOf_spacePtr hspace', hsaved.spaceId n hn]
    refine ⟨hsame, ?_⟩
    unfold shownOf
    rw [hsame, hframes]
  refine ⟨?_, ?_⟩
  · intro g hg hf
    rw [(hframe g hg).1] at hf
    rw [(hframe g hg).2]
    obtain ⟨-, hcomplete⟩ := hsees rfl g (mem_frameChain.mpr hg) hf
    obtain ⟨n, -, hspace⟩ := hseg.frame_space hg
    unfold shownOf frameIsVisible
    rw [hf, hcomplete, hspace]
    rfl
  · have hptr : (m'.push item).tstate.callOrdinalPtr = some ptr := by
      rw [h.result]
      rfl
    rw [hptr, h.attached hseg (fun f hf hframe => (hsees rfl f hf hframe).1)]
    congr 2
    rw [← List.head?_filter, ← List.head?_filter]
    congr 1
    exact List.filter_congr (fun g hg => (hframe g (mem_frameChain.mp hg)).2.symm)

theorem Attached.step (h : Attached m spaceId m.tstate.stack m.tstate.callOrdinalPtr)
    (heffect : Effect m event m') (hseg : Segment [] base m)
    (hsees : EntrySees spaceId m event) :
    Attached m' spaceId m'.tstate.stack m'.tstate.callOrdinalPtr := by
  have hkept : ∀ {items : List StackItem} {ptr : Option OrdinalPtr},
      Attached m spaceId items ptr → items <:+ m.tstate.stack → items <:+ m'.tstate.stack →
      Attached m' spaceId items ptr := fun h => h.kept heffect hseg
  have hsame : m'.tstate.stack = m.tstate.stack →
      m'.tstate.callOrdinalPtr = m.tstate.callOrdinalPtr →
      Attached m' spaceId m'.tstate.stack m'.tstate.callOrdinalPtr := by
    intro hstack hptr
    rw [hstack, hptr]
    exact hkept h (List.suffix_refl _) (hstack ▸ List.suffix_refl _)
  cases heffect with
  | call off limit =>
    rename_i f firstTraceable evalEntry allocates
    change Attached _ spaceId m.tstate.stack
      ((m.pushFrame f (newFrame (-1) firstTraceable)).frames f).previousCallOrdinalPtr
    rw [pushFrame_frames, if_pos rfl]
    exact hkept h (List.suffix_refl _) (List.suffix_cons _ _)
  | resume off limit =>
    rename_i f evalEntry allocates
    change Attached _ spaceId m.tstate.stack ((m.pushFrame f _).frames f).previousCallOrdinalPtr
    rw [pushFrame_frames, if_pos rfl]
    exact hkept h (List.suffix_refl _) (List.suffix_cons _ _)
  | newGenerator off => exact hsame rfl rfl
  | begin top => exact hsame rfl rfl
  | leave top current space node_eq previous ne =>
    rename_i again f node ptr rest
    have hstack := popFrame_stack m f node ptr rest
    have hptr : (m.popFrame f node ptr rest).tstate.callOrdinalPtr = some ptr := by
      rw [popFrame_tstate]
    rw [top] at h
    rw [hstack, hptr, ← previous]
    exact hkept h (top ▸ List.suffix_cons _ _) (hstack ▸ List.suffix_refl _)
  | leaveInactive => exact h
  | enterFails unused => exact h
  | enterSpace unused enters =>
    rename_i k entered node allocates mid t scope ptr
    have hstack : (mid.push (.scope k)).tstate.stack = .scope k :: m.tstate.stack :=
      congrArg _ enters.callbackState.1
    rw [hstack]
    refine ⟨enters.scopeAttached hseg unused (fun heq => hsees (congrArg some heq)), ?_⟩
    have hprevious : ((mid.push (.scope k)).scopes k).previousCallOrdinalPtr =
        m.tstate.callOrdinalPtr := by
      rw [← enters.saved.2.2, enters.result]
      exact congrArg SpaceScope.previousCallOrdinalPtr (Function.update_self _ _ _)
    rw [hprevious]
    exact hkept h (List.suffix_refl _) (hstack ▸ List.suffix_cons _ _)
  | leaveSpace top =>
    rename_i k rest
    have hptr : ((leaveSpace m k).setStack rest).tstate.callOrdinalPtr =
        (m.scopes k).previousCallOrdinalPtr := congrArg Context.ptr (leaveSpace_context m k)
    rw [top] at h
    rw [hptr]
    exact hkept h.2 (top ▸ List.suffix_cons _ _) (List.suffix_refl _)
  | callbackFails unused idle => exact hsame rfl rfl
  | callbackBegin top unused idle enters =>
    rename_i f k node allocates rest mid t scope ptr
    have hstack : (mid.push (.callback k)).tstate.stack = .callback k :: m.tstate.stack :=
      congrArg _ enters.callbackState.1
    rw [hstack]
    refine ⟨?_, ?_⟩
    · refine @EntersSpace.scopeAttached (m.setCallback true (some f)) mid base spaceId
        (hseg.setCallback true (some f)) k spaceIdDisabled node t scope ptr enters unused _ ?_
      intro heq
      rw [currentThreadFrame_pinned top idle]
      exact hsees (congrArg some heq)
    · have hprevious : ((mid.push (.callback k)).scopes k).previousCallOrdinalPtr =
          m.tstate.callOrdinalPtr := by
        rw [enters.result]
        refine (congrArg SpaceScope.previousCallOrdinalPtr (Function.update_self _ _ _)).trans ?_
        exact enters.saved.2.2
      rw [hprevious]
      exact hkept h (List.suffix_refl _) (hstack ▸ List.suffix_cons _ _)
  | callbackEnd top =>
    rename_i k rest
    have hptr : (((leaveSpace m k).setStack rest).setCallback false none).tstate.callOrdinalPtr =
        (m.scopes k).previousCallOrdinalPtr := congrArg Context.ptr (leaveSpace_context m k)
    rw [top] at h
    rw [hptr]
    exact hkept h.2 (top ▸ List.suffix_cons _ _) (List.suffix_refl _)
  | threadDelta =>
    rename_i taken allocates tupleAllocates
    rcases threadDelta_cases m taken allocates tupleAllocates with heq | ⟨node, -, heq⟩
    · rw [heq]
      exact h
    · rw [heq] at hsame ⊢
      exact hsame rfl rfl

theorem Effect.wordsBelow (h : Effect m event m') (hseg : Segment [] base m) {item : StackItem}
    {rest : List StackItem} (hstack : item :: rest <:+ m.tstate.stack) {g : Nat}
    (hg : .frame g ∈ rest) :
    frameCoordinate (m'.frames g) = frameCoordinate (m.frames g) ∧
      ((m'.frames g).currentCallOrdinal = (m.frames g).currentCallOrdinal ∨
        ∃ x lower, m.tstate.stack = .frame x :: lower ∧ m'.tstate.stack = lower ∧
          (m.frames x).previousCallOrdinalPtr = some (.frame g)) := by
  have hon : .frame g ∈ m.tstate.stack := hstack.subset (List.mem_cons_of_mem _ hg)
  have htop : ∀ {x : Nat} {lower : List StackItem}, m.tstate.stack = .frame x :: lower → g ≠ x := by
    rintro x lower heq rfl
    have hnodup := hseg.nodup
    rw [heq, List.nodup_cons] at hnodup
    rw [heq, List.suffix_cons_iff] at hstack
    rcases hstack with hwhole | hlower
    · exact hnodup.1 ((List.cons.inj hwhole).2 ▸ hg)
    · exact hnodup.1 (hlower.subset (List.mem_cons_of_mem _ hg))
  have hsame : (m'.frames g).lasti = (m.frames g).lasti ∧
      (m'.frames g).coordinateBias = (m.frames g).coordinateBias := by
    obtain ⟨hlasti, -, hbias⟩ | ⟨hoff, -⟩ | ⟨jumps, offset, lower, -, heq, -⟩ := h.placement g
    · exact ⟨hlasti, hbias⟩
    · exact absurd hon hoff
    · exact absurd rfl (htop heq)
  refine ⟨by unfold frameCoordinate; rw [hsame.1, hsame.2], ?_⟩
  have hother : ∀ {x : Nat}, .frame x ∉ m.tstate.stack → g ≠ x := by
    rintro x hoff rfl
    exact hoff hon
  cases h with
  | call off limit =>
    rw [pushFrame_frames, if_neg (hother off)]
    exact Or.inl rfl
  | resume off limit =>
    rw [pushFrame_frames, if_neg (hother off)]
    exact Or.inl rfl
  | newGenerator off =>
    rw [setFrame_frames, if_neg (hother off)]
    exact Or.inl rfl
  | begin top =>
    rw [setFrame_frames, if_neg (htop top)]
    exact Or.inl rfl
  | leave top current space node_eq previous ne =>
    rename_i again x node ptr lower
    rw [popFrame_frames m x node ptr lower ne, if_neg (htop top)]
    by_cases hptr : ptr = .frame g
    · exact Or.inr ⟨x, lower, top, popFrame_stack m x node ptr lower, hptr ▸ previous⟩
    · rw [if_neg hptr]
      exact Or.inl rfl
  | leaveInactive => exact Or.inl rfl
  | enterFails unused => exact Or.inl rfl
  | enterSpace unused enters =>
    rw [enters.frames]
    exact Or.inl rfl
  | leaveSpace top =>
    rename_i k lower
    exact Or.inl (congrArg _ (congrFun (leaveSpace_stack_frames m k lower) g))
  | callbackFails unused idle => exact Or.inl rfl
  | callbackBegin top unused idle enters =>
    rw [enters.frames]
    exact Or.inl rfl
  | callbackEnd top =>
    rename_i k lower
    have hframe := congrFun (leaveSpace_stack_frames m k lower) g
    exact Or.inl (congrArg _ hframe)
  | threadDelta =>
    rename_i taken allocates tupleAllocates
    rcases threadDelta_cases m taken allocates tupleAllocates with heq | ⟨node, -, heq⟩
    · rw [heq]
      exact Or.inl rfl
    · rw [heq]
      exact Or.inl (rememberDelta_saved m node g).2.2

/-- A slot that a scope is attached to is no deeper than the nearest frame of the space. -/
theorem ScopeAttached.notBelow {x f g j : Nat} {tail lower : List StackItem}
    (h : ScopeAttached m spaceId j tail (m.frames x).previousCallOrdinalPtr)
    (hslotted : ScopeSlot m (tail ++ []) j (frameContext m x m.context)) (hnodup : tail.Nodup)
    (hstack : .frame f :: lower <:+ tail) (hf : frameOf m spaceId f = true)
    (hg : .frame g ∈ lower) (hgf : frameOf m spaceId g = true)
    (hslot : (m.frames x).previousCallOrdinalPtr = some (.frame g)) : False := by
  obtain ⟨hspace, hslotOf⟩ := hslotted
  have hparent : (m.frames g).space =
      some (m.spacePtr (frameContext m x m.context).space) := by
    split at hslotOf
    · exact absurd (hslotOf.symm.trans hslot) (by simp)
    · obtain ⟨parent, hptr, -, hparent⟩ := hslotOf
      have heq : parent = g := by
        have hsame := hptr.symm.trans hslot
        simpa using hsame
      exact heq ▸ hparent
  rw [frameOf_spacePtr hparent, hspace, beq_iff_eq] at hgf
  obtain ⟨hshown, hptr⟩ := h hgf
  rw [hslot, Option.some.injEq] at hptr
  have hfound : (frameChain tail).find? (shownOf m spaceId) = some g := by
    cases hfind : (frameChain tail).find? (shownOf m spaceId) with
    | none =>
      rw [hfind] at hptr
      cases hptr
    | some parent =>
      rw [hfind] at hptr
      exact congrArg some (OrdinalPtr.frame.inj hptr).symm
  -- the frame above is shown too, so the search ends there or before
  obtain ⟨upper, hupper⟩ := hstack
  rw [← hupper] at hfound hnodup
  rw [frameChain_append, List.find?_append] at hfound
  have hfshown := hshown f (hupper ▸ List.mem_append_right _ List.mem_cons_self) hf
  have hfirst : (frameChain (.frame f :: lower)).find? (shownOf m spaceId) = some f :=
    List.find?_cons_of_pos hfshown
  rw [hfirst] at hfound
  rw [List.nodup_append, List.nodup_cons] at hnodup
  rcases Option.or_eq_some_iff.mp hfound with habove | ⟨-, hsame⟩
  · have hmem : .frame g ∈ upper := mem_frameChain.mp (List.mem_of_find?_eq_some habove)
    exact hnodup.2.2 _ hmem _ (List.mem_cons_of_mem _ hg) rfl
  · rw [Option.some.injEq] at hsame
    exact hnodup.2.1.1 (hsame ▸ hg)

theorem Attached.notBelow (h : Attached m spaceId m.tstate.stack m.tstate.callOrdinalPtr)
    (hseg : Segment [] base m) {x f g : Nat} {rest lower : List StackItem}
    (htop : m.tstate.stack = .frame x :: rest) (hstack : .frame f :: lower <:+ rest)
    (hf : frameOf m spaceId f = true) (hg : .frame g ∈ lower)
    (hgf : frameOf m spaceId g = true) :
    (m.frames x).previousCallOrdinalPtr ≠ some (.frame g) := by
  intro hslot
  obtain ⟨items, hitems, hd⟩ := hseg.items
  rw [List.append_nil] at hitems
  rw [← hitems, htop] at hd
  have hd := hd.2.2.2
  have hnodup := hseg.nodup
  rw [htop, List.nodup_cons] at hnodup
  rw [htop] at h
  have hnodupRest := hnodup.2
  cases hrest : rest with
  | nil =>
    rw [hrest, List.suffix_nil] at hstack
    cases hstack
  | cons item tail =>
    rw [hrest] at hd h hstack hnodupRest
    rw [List.nodup_cons] at hnodupRest
    rw [List.suffix_cons_iff] at hstack
    cases item with
    | frame y =>
      have hptr : (m.frames x).previousCallOrdinalPtr = some (.frame y) := hd.2.1
      have hyg : y = g := by
        have hsame := hptr.symm.trans hslot
        simpa using hsame
      rcases hstack with heq | hlower
      · exact hnodupRest.1 ((List.cons.inj heq).2 ▸ hyg ▸ hg)
      · exact hnodupRest.1 (hlower.subset (List.mem_cons_of_mem _ (hyg ▸ hg)))
    | scope j =>
      rcases hstack with heq | hlower
      · cases (List.cons.inj heq).1
      · exact h.1.notBelow hd.2.1 hnodupRest.2 hlower hf hg hgf hslot
    | callback j =>
      rcases hstack with heq | hlower
      · cases (List.cons.inj heq).1
      · exact h.1.notBelow hd.2.1 hnodupRest.2 hlower hf hg hgf hslot

structure Attaches (spaceId : Nat) (m : Machine) : Prop where
  standing : ∃ l, Standing m l
  attached : Attached m spaceId m.tstate.stack m.tstate.callOrdinalPtr

theorem Idle.attaches (h : Idle m) : Attaches spaceId m := by
  refine ⟨⟨_, h.standing⟩, ?_⟩
  rw [h.stack]
  trivial

theorem Attaches.step (h : Attaches spaceId m) (hstep : threadStep p m event = some m')
    (hsees : EntrySees spaceId m event) : Attaches spaceId m' := by
  obtain ⟨l, hstanding⟩ := h.standing
  obtain ⟨hnext, heffect⟩ := hstanding.step hstep
  obtain ⟨base, -, hseg⟩ := hstanding.segment
  exact ⟨⟨_, hnext⟩, h.attached.step heffect hseg hsees⟩

theorem entriesSee_cons {events : List ThreadEvent} (hstep : threadStep p m event = some m') :
    entriesSee p spaceId (event :: events) m = true ↔
      EntrySees spaceId m event ∧ entriesSee p spaceId events m' = true := by
  unfold entriesSee
  rw [everyStep_cons hstep, decide_eq_true_eq]

theorem Attaches.run {events : List ThreadEvent} (h : Attaches spaceId m)
    (hsees : entriesSee p spaceId events m = true) (hrun : threadRun p events m = some m') :
    Attaches spaceId m' := by
  induction events generalizing m with
  | nil =>
    cases hrun
    exact h
  | cons event events ih =>
    rw [threadRun_cons, Option.bind_eq_some_iff] at hrun
    obtain ⟨mid, hstep, hrun⟩ := hrun
    rw [entriesSee_cons hstep] at hsees
    exact ih (h.step hstep hsees.1) hsees.2 hrun

theorem Attaches.older {f n : Nat} {lower : List StackItem} (h : Attaches spaceId m)
    (hstep : threadStep p m event = some m') (hstack : .frame f :: lower <:+ m.tstate.stack)
    (hf : frameOf m spaceId f = true) (hid : (m.tstate.space n).spaceId = spaceId)
    (hstays : .frame f ∈ m'.tstate.stack) :
    frameWords m' (m'.spacePtr n) (frameChain lower) =
      frameWords m (m.spacePtr n) (frameChain lower) := by
  obtain ⟨l, hstanding⟩ := h.standing
  obtain ⟨-, heffect⟩ := hstanding.step hstep
  obtain ⟨base, -, hseg⟩ := hstanding.segment
  have hstack' := heffect.staysAbove hseg hstack hstays
  have hptr : m'.spacePtr n = m.spacePtr n :=
    (heffect.keptItem hseg (hstack.subset List.mem_cons_self) hstays).spacePtr n
  rw [hptr]
  refine frameWords_congr (frameChain lower) ?_
  intro g hg
  have hmem := mem_frameChain.mp hg
  have hon := hstack.subset (List.mem_cons_of_mem _ hmem)
  have hon' := hstack'.subset (List.mem_cons_of_mem _ hmem)
  have hspace := ((heffect.keptItem hseg hon hon').frame g (List.mem_singleton_self _)).1
  obtain ⟨hcoordinate, hordinal⟩ := heffect.wordsBelow hseg hstack hmem
  refine ⟨?_, ?_⟩
  · have hshown := @Effect.shownOf m m' base spaceId event heffect hseg _ _ hstack' g hmem hon
    have hframe := @Effect.frameOf m m' base spaceId event heffect hseg g hon hon'
    unfold shownOf at hshown
    unfold Machine.visibleIn
    rw [hspace]
    by_cases hgf : (m.frames g).space = some (m.spacePtr n)
    · have hgo : frameOf m spaceId g = true := by
        rw [frameOf_spacePtr hgf, hid, beq_self_eq_true]
      rw [hframe, hgo, Bool.true_and, Bool.true_and] at hshown
      rw [hshown]
    · rw [beq_false_of_ne hgf, Bool.and_false, Bool.and_false]
  · intro hvisible
    refine ⟨hcoordinate, hordinal.resolve_right ?_⟩
    rintro ⟨x, rest, htop, hpopped, hslot⟩
    rw [hpopped] at hstack'
    refine h.attached.notBelow hseg htop hstack' hf hmem ?_ hslot
    rw [frameOf_spacePtr (visibleIn_space hvisible), hid, beq_self_eq_true]

theorem Attaches.olderRun {events : List ThreadEvent} {f n : Nat} {lower : List StackItem}
    (h : Attaches spaceId m) (hsees : entriesSee p spaceId events m = true)
    (hrun : threadRun p events m = some m') (hstack : .frame f :: lower <:+ m.tstate.stack)
    (hf : frameOf m spaceId f = true) (hn : n < m.tstate.spaces.length)
    (hid : (m.tstate.space n).spaceId = spaceId) (hstays : staysActive p f events m = true) :
    frameWords m' (m'.spacePtr n) (frameChain lower) =
      frameWords m (m.spacePtr n) (frameChain lower) := by
  induction events generalizing m with
  | nil =>
    cases hrun
    rfl
  | cons event events ih =>
    rw [threadRun_cons, Option.bind_eq_some_iff] at hrun
    obtain ⟨mid, hstep, hrun⟩ := hrun
    rw [entriesSee_cons hstep] at hsees
    have hrest := staysActive_step hstays hstep
    have hon' := staysActive_mem hrest
    have hone := h.older hstep hstack hf hid hon'
    obtain ⟨l, hstanding⟩ := h.standing
    obtain ⟨-, heffect⟩ := hstanding.step hstep
    obtain ⟨base, -, hseg⟩ := hstanding.segment
    have hon := hstack.subset List.mem_cons_self
    have hsaved := heffect.keptItem hseg hon hon'
    rw [← hone]
    exact ih (h.step hstep hsees.1) hsees.2 hrun (heffect.staysAbove hseg hstack hon')
      ((heffect.frameOf hseg hon hon').trans hf) (Nat.lt_of_lt_of_le hn hsaved.length)
      ((hsaved.spaceId n hn).trans hid) hrest

theorem Segment.scopedFrame (hseg : Segment [] base m) {f k : Nat} {rest : List StackItem}
    (htop : m.tstate.stack = .frame f :: .scope k :: rest) :
    (m.frames f).space = some (m.spacePtr (m.scopes k).space) ∧
      m.tstate.currentSpace = (m.scopes k).space := by
  obtain ⟨items, hitems, hd⟩ := hseg.items
  rw [List.append_nil] at hitems
  rw [← hitems, htop] at hd
  obtain ⟨-, -, hspace, hscope⟩ := hd
  have hcurrent : m.tstate.currentSpace = (m.scopes k).space := hscope.2.1.1
  refine ⟨?_, hcurrent⟩
  rw [hspace]
  exact congrArg (fun n => some (m.spacePtr n)) hcurrent

/-- A frame that runs right in a scope of the space saved the slot of the frame that the
coordinates list before it. -/
theorem Attaches.slotListed (h : Attaches spaceId m) {f k : Nat} {rest : List StackItem}
    {older : List Nat} (htop : m.tstate.stack = .frame f :: .scope k :: rest)
    (hid : (m.tstate.space (m.scopes k).space).spaceId = spaceId)
    (hlisted : listedFrames m spaceId = older ++ [f]) :
    (m.frames f).previousCallOrdinalPtr = some (slotOf k older.getLast?) := by
  obtain ⟨l, hstanding⟩ := h.standing
  obtain ⟨base, -, hseg⟩ := hstanding.segment
  have hattached := h.attached
  rw [htop] at hattached
  obtain ⟨-, hptr⟩ := hattached.1 hid
  obtain ⟨-, hcurrent⟩ := hseg.scopedFrame htop
  rw [hptr]
  congr 2
  unfold listedFrames at hlisted
  cases hfind : findThreadSpace m.tstate spaceId with
  | none =>
    rw [hfind] at hlisted
    exact absurd hlisted.symm (by simp)
  | some n =>
    have hnode := (hseg.circle.find_some hfind).2
    have hchain : threadStateFrame m n = f :: frameChain rest := by
      unfold threadStateFrame Machine.currentSpaceId
      rw [hcurrent, hid, hnode, if_neg (by simp)]
      unfold Machine.chain
      rw [htop]
      rfl
    rw [hfind] at hlisted
    simp only [hchain] at hlisted
    have hnodup := nodup_frameChain hseg.nodup
    rw [htop] at hnodup
    have hnotin : f ∉ frameChain rest := (List.nodup_cons.mp hnodup).1
    have hlisted := congrArg List.reverse hlisted
    rw [List.reverse_reverse, List.reverse_append] at hlisted
    have holder : (frameChain rest).filter (m.visibleIn (m.spacePtr n)) = older.reverse := by
      by_cases hv : m.visibleIn (m.spacePtr n) f = true
      · rw [List.filter_cons_of_pos hv] at hlisted
        exact (List.cons.inj hlisted).2
      · rw [List.filter_cons_of_neg hv] at hlisted
        have hmem : f ∈ (frameChain rest).filter (m.visibleIn (m.spacePtr n)) := by
          rw [hlisted]
          exact List.mem_cons_self
        exact absurd (List.mem_filter.mp hmem).1 hnotin
    rw [← List.head?_filter, ← List.head?_reverse, ← holder]
    congr 1
    refine List.filter_congr ?_
    intro g hg
    have hon : .frame g ∈ m.tstate.stack := by
      rw [htop]
      exact List.mem_cons_of_mem _ (List.mem_cons_of_mem _ (mem_frameChain.mp hg))
    exact (visibleIn_shown hseg hfind hon).symm

theorem frameWords_listed (space : SpacePtr) (chain : List Nat) :
    frameWords m space chain = (chain.filter (m.visibleIn space)).reverse.flatMap (fun f =>
      [frameCoordinate (m.frames f), (m.frames f).currentCallOrdinal]) := by
  induction chain with
  | nil => rfl
  | cons f rest ih =>
    rw [frameWords_cons, ih]
    by_cases hv : m.visibleIn space f = true
    · rw [if_pos hv, List.filter_cons_of_pos hv, List.reverse_cons, List.flatMap_append]
      rfl
    · rw [if_neg hv, List.filter_cons_of_neg hv, List.append_nil]

theorem coordinates_listed {words : List Nat} (h : coordinates m spaceId 0 = some words) :
    words = (listedFrames m spaceId).flatMap (fun f =>
      [frameCoordinate (m.frames f), (m.frames f).currentCallOrdinal]) := by
  unfold coordinates at h
  unfold listedFrames
  cases hfind : findThreadSpace m.tstate spaceId with
  | none =>
    rw [hfind] at h
    cases h
  | some n =>
    rw [hfind] at h
    simp only [List.drop_zero] at h
    split at h
    · rw [Option.some.injEq, coordinatesOf_eq, frameWords_listed] at h
      exact h.symm
    · cases h

/-- In a run whose entries into the space see every frame of it, a frame that runs right in a scope
of the space saved the slot of the frame listed before it, and the words of the older frames do
not change while it is active. -/
theorem attachment_asListed {m₀ a b : Machine} {before between : List ThreadEvent} {f k : Nat}
    {rest : List StackItem} (hidle : Idle m₀) (hbefore : threadRun p before m₀ = some a)
    (hbetween : threadRun p between a = some b)
    (hsees : entriesSee p spaceId (before ++ between) m₀ = true)
    (htop : a.tstate.stack = .frame f :: .scope k :: rest)
    (hid : (a.tstate.space (a.scopes k).space).spaceId = spaceId) :
    (∀ older, listedFrames a spaceId = older ++ [f] →
      (a.frames f).previousCallOrdinalPtr = some (slotOf k older.getLast?)) ∧
    (staysActive p f between a = true →
      frameWords b (b.spacePtr (a.scopes k).space) (frameChain rest) =
        frameWords a (a.spacePtr (a.scopes k).space) (frameChain rest)) := by
  unfold entriesSee at hsees
  rw [everyStep_append hbefore] at hsees
  have ha : Attaches spaceId a := hidle.attaches.run hsees.1 hbefore
  refine ⟨fun older hlisted => ha.slotListed htop hid hlisted, ?_⟩
  intro hstays
  obtain ⟨l, hstanding⟩ := ha.standing
  obtain ⟨base, -, hseg⟩ := hstanding.segment
  obtain ⟨hspace, -⟩ := hseg.scopedFrame htop
  have hf : frameOf a spaceId f = true := by
    rw [frameOf_spacePtr hspace, hid, beq_self_eq_true]
  have hk : (a.scopes k).space < a.tstate.spaces.length := by
    refine hseg.scope_lt ?_
    rw [htop]
    exact List.mem_cons_self
  have hstack : .frame f :: .scope k :: rest <:+ a.tstate.stack := htop ▸ List.suffix_refl _
  have holder := ha.olderRun hsees.2 hbetween hstack hf hk hid hstays
  exact holder

/-- A frame runs in a scope that a frame of the same space entered; it calls and returns. -/
theorem attachment_asListed_call :
    ∃ a b, threadRun ⟨true, true⟩ [.call 0 0 true true, .begin [] 0, .enterSpace 0 0 true,
        .call 1 0 true true, .begin [] 0] (freshMachine ⟨true, true⟩ 0) = some a ∧
      threadRun ⟨true, true⟩ [.call 2 0 true true, .begin [] 0, .leave 0] a = some b ∧
      (a.frames 1).previousCallOrdinalPtr = some (.frame 0) ∧
      frameWords b (b.spacePtr 0) [0] = frameWords a (a.spacePtr 0) [0] := by
  obtain ⟨a, ha⟩ : ∃ a, threadRun ⟨true, true⟩ [.call 0 0 true true, .begin [] 0,
      .enterSpace 0 0 true, .call 1 0 true true, .begin [] 0] (freshMachine ⟨true, true⟩ 0) =
        some a := ⟨_, rfl⟩
  obtain ⟨b, hb⟩ : ∃ b, threadRun ⟨true, true⟩ [.call 2 0 true true, .begin [] 0, .leave 0] a =
      some b := by
    cases ha
    exact ⟨_, rfl⟩
  have hread : a.tstate.stack = [.frame 1, .scope 0, .frame 0] ∧
      (a.tstate.space (a.scopes 0).space).spaceId = 0 ∧ (a.scopes 0).space = 0 ∧
      listedFrames a 0 = [0] ++ [1] ∧
      staysActive ⟨true, true⟩ 1 [.call 2 0 true true, .begin [] 0, .leave 0] a = true := by
    cases ha
    exact ⟨rfl, rfl, rfl, rfl, rfl⟩
  obtain ⟨hstack, hid, hnode, hlisted, hstays⟩ := hread
  obtain ⟨hslot, hwords⟩ :=
    attachment_asListed (freshMachine_idle ⟨true, true⟩ 0) ha hb (by decide) hstack hid
  rw [hnode] at hwords
  exact ⟨a, b, ha, hb, hslot [0] hlisted, hwords hstays⟩

/-- In a callback, root-space work excludes a call, which includes root-space work again. -/
def includeInExclude : List ThreadEvent := [
  .call 0 0 true true, .begin [] 0, .callbackBegin 0 true, .call 1 0 true true, .begin [] 0,
  .enterSpace 1 0 true, .call 2 0 true true, .begin [] 0,
  .enterSpace 2 1 true, .call 3 0 true true, .begin [] 0,
  .enterSpace 3 0 true, .call 4 0 true true, .begin [] 0]

/-- The innermost frame is listed after frame 2, but counts on the slot of frame 0, whose words it
changes while frame 2 is active. -/
theorem attachment_notAsListed :
    ∃ a b rest, threadRun ⟨true, true⟩ includeInExclude (freshMachine ⟨true, true⟩ 0) = some a ∧
      a.tstate.stack = .frame 4 :: .scope 3 :: rest ∧
      (a.tstate.space (a.scopes 3).space).spaceId = 0 ∧
      listedFrames a 0 = [0, 2] ++ [4] ∧
      (a.frames 4).previousCallOrdinalPtr = some (.frame 0) ∧
      (a.frames 4).previousCallOrdinalPtr ≠ some (slotOf 3 [0, 2].getLast?) ∧
      threadRun ⟨true, true⟩ [.leave 0] a = some b ∧
      staysActive ⟨true, true⟩ 2 [.leave 0] a = true ∧
      frameWords a (a.spacePtr 0) [0] = [0, 0] ∧ frameWords b (b.spacePtr 0) [0] = [0, 1] :=
  ⟨_, _, _, rfl, rfl, rfl, rfl, rfl, by decide, rfl, rfl, rfl, rfl⟩

end attached

end Retrace
