import Retrace.OrdinalCounts

/-! Where a running callback pins the frames that coordinates are read from. -/

set_option autoImplicit false

namespace Retrace

/-- At most one callback runs, and it pins the frame below it. -/
def Pinned (t : ThreadState) : Prop :=
  if t.threadCallbackActive then
    ∃ upper k f rest, t.stack = upper ++ .callback k :: .frame f :: rest ∧
      t.threadCallbackFrame = some f ∧ ∀ j, .callback j ∉ upper ++ rest
  else ∀ j, .callback j ∉ t.stack

section pinned
variable {p : Platform} {m m' : Machine} {t t' : ThreadState}

theorem Pinned.push (h : Pinned t) (item : StackItem) (hitem : ∀ j, item ≠ .callback j)
    (hstack : t'.stack = item :: t.stack)
    (hactive : t'.threadCallbackActive = t.threadCallbackActive)
    (hframe : t'.threadCallbackFrame = t.threadCallbackFrame) : Pinned t' := by
  unfold Pinned at h ⊢
  rw [hstack, hactive, hframe]
  split
  · rename_i hrunning
    rw [if_pos hrunning] at h
    obtain ⟨upper, k, f, rest, heq, hpin, hnone⟩ := h
    refine ⟨item :: upper, k, f, rest, by rw [heq, List.cons_append], hpin, ?_⟩
    intro j hj
    rw [List.cons_append, List.mem_cons] at hj
    exact hj.elim (fun heq => hitem j heq.symm) (hnone j)
  · rename_i hidle
    rw [if_neg hidle] at h
    intro j hj
    rw [List.mem_cons] at hj
    exact hj.elim (fun heq => hitem j heq.symm) (h j)

theorem Pinned.pop (h : Pinned t) {item : StackItem} {rest : List StackItem}
    (hitem : ∀ j, item ≠ .callback j) (htop : t.stack = item :: rest) (hstack : t'.stack = rest)
    (hactive : t'.threadCallbackActive = t.threadCallbackActive)
    (hframe : t'.threadCallbackFrame = t.threadCallbackFrame) : Pinned t' := by
  unfold Pinned at h ⊢
  rw [hstack, hactive, hframe]
  rw [htop] at h
  split
  · rename_i hrunning
    rw [if_pos hrunning] at h
    obtain ⟨upper, k, f, lower, heq, hpin, hnone⟩ := h
    cases upper with
    | nil =>
      rw [List.nil_append, List.cons.injEq] at heq
      exact absurd heq.1 (hitem k)
    | cons first upper =>
      rw [List.cons_append, List.cons.injEq] at heq
      refine ⟨upper, k, f, lower, heq.2, hpin, ?_⟩
      intro j hj
      exact hnone j (List.mem_cons_of_mem _ hj)
  · rename_i hidle
    rw [if_neg hidle] at h
    intro j hj
    exact h j (List.mem_cons_of_mem _ hj)

theorem Pinned.step (h : Pinned m.tstate) {event : ThreadEvent} (heffect : Effect m event m') :
    Pinned m'.tstate := by
  cases heffect with
  | call off limit => exact h.push _ (fun _ => by simp) rfl rfl rfl
  | resume off limit => exact h.push _ (fun _ => by simp) rfl rfl rfl
  | newGenerator off => exact h
  | begin top => exact h
  | leave top current space node_eq previous ne =>
    refine h.pop (fun _ => by simp) top (popFrame_stack _ _ _ _ _) ?_ ?_
    · rw [popFrame_tstate]
      split <;> rfl
    · rw [popFrame_tstate]
      split <;> rfl
  | leaveInactive => exact h
  | enterFails unused => exact h
  | enterSpace unused enters =>
    obtain ⟨hstack, hactive, hframe⟩ := enters.callbackState
    exact h.push (.scope _) (fun _ => by simp) (congrArg _ hstack) hactive hframe
  | leaveSpace top =>
    refine h.pop (fun _ => by simp) top rfl ?_ ?_
    · change (leaveSpace m _).tstate.threadCallbackActive = _
      rw [leaveSpace_tstate]
      simp only
      split <;> rfl
    · change (leaveSpace m _).tstate.threadCallbackFrame = _
      rw [leaveSpace_tstate]
      simp only
      split <;> rfl
  | callbackFails unused idle =>
    unfold Pinned at h ⊢
    rw [if_neg (by simp [idle])] at h
    exact h
  | callbackBegin top unused idle enters =>
    rename_i f k node allocates rest entered t scope ptr
    obtain ⟨hstack, hactive, hframe⟩ := enters.callbackState
    have hstack' : entered.tstate.stack = .frame f :: rest := hstack.trans top
    unfold Pinned at h ⊢
    rw [if_neg (by simp [idle]), top] at h
    have hon : (entered.push (.callback k)).tstate.threadCallbackActive = true := hactive
    rw [if_pos hon]
    refine ⟨[], k, f, rest, ?_, hframe, ?_⟩
    · change StackItem.callback k :: entered.tstate.stack = _
      rw [hstack']
      rfl
    · intro j hj
      exact h j (List.mem_cons_of_mem _ hj)
  | callbackEnd top =>
    rename_i k rest
    unfold Pinned at h ⊢
    have hoff :
        ((((leaveSpace m k).setStack rest).setCallback false none).tstate).threadCallbackActive
      = false := rfl
    rw [if_neg (by rw [hoff]; simp)]
    change ∀ j, .callback j ∉ rest
    split at h
    · obtain ⟨upper, j, f, lower, heq, -, hnone⟩ := h
      rw [top] at heq
      cases upper with
      | nil =>
        rw [List.nil_append, List.cons.injEq] at heq
        intro i hi
        rw [heq.2, List.mem_cons] at hi
        exact hi.elim (by simp) (hnone i)
      | cons first upper =>
        rw [List.cons_append, List.cons.injEq] at heq
        exact absurd (heq.1 ▸ List.mem_cons_self) (hnone k)
    · exact absurd (top ▸ List.mem_cons_self) (h k)
  | threadDelta =>
    rename_i spaceId allocates tupleAllocates
    obtain heq | ⟨node, -, heq⟩ := threadDelta_cases m spaceId allocates tupleAllocates
    · rw [heq]
      exact h
    · rw [heq]
      exact h

theorem Idle.pinned (h : Idle m) : Pinned m.tstate := by
  unfold Pinned
  rw [if_neg (by simp [h.callback]), h.stack]
  exact fun _ => List.not_mem_nil

theorem Pinned.run {l : Ledger} {events : List ThreadEvent} (h : Pinned m.tstate)
    (hstanding : Standing m l) (hrun : threadRun p events m = some m') : Pinned m'.tstate := by
  induction events generalizing m l with
  | nil =>
    cases hrun
    exact h
  | cons event events ih =>
    rw [threadRun_cons, Option.bind_eq_some_iff] at hrun
    obtain ⟨mid, hstep, hrun⟩ := hrun
    obtain ⟨hnext, heffect⟩ := hstanding.step hstep
    exact ih (h.step heffect) hnext hrun

theorem frameChain_append (upper lower : List StackItem) :
    frameChain (upper ++ lower) = frameChain upper ++ frameChain lower := by
  unfold frameChain
  rw [List.filterMap_append]

theorem callbackChain_eq (hnodup : m.tstate.stack.Nodup) {upper rest : List StackItem} {k f : Nat}
    (hstack : m.tstate.stack = upper ++ .callback k :: .frame f :: rest)
    (hpin : m.tstate.threadCallbackFrame = some f) :
    m.callbackChain = frameChain (.frame f :: rest) := by
  unfold Machine.callbackChain Machine.chain
  rw [hpin, hstack]
  rw [hstack, List.nodup_append] at hnodup
  have hupper : .frame f ∉ upper := by
    intro hmem
    exact hnodup.2.2 _ hmem _ (by simp) rfl
  have hchain : frameChain (upper ++ .callback k :: .frame f :: rest) =
      frameChain upper ++ frameChain (.frame f :: rest) := frameChain_append _ _
  unfold chainFrom
  dsimp only
  rw [hchain, List.dropWhile_append_of_pos]
  · change List.dropWhile _ (f :: frameChain rest) = f :: frameChain rest
    rw [List.dropWhile_cons_of_neg (by simp)]
  · intro g hg
    simp only [ne_eq, decide_not, Bool.not_eq_eq_eq_not, Bool.not_true, decide_eq_false_iff_not]
    intro hgf
    exact hupper (mem_frameChain.mp (hgf ▸ hg))

theorem Pinned.callbackChain (h : Pinned m.tstate) (hnodup : m.tstate.stack.Nodup)
    (hactive : m.tstate.threadCallbackActive = true) :
    ∃ upper k f rest, m.tstate.stack = upper ++ .callback k :: .frame f :: rest ∧
      m.tstate.threadCallbackFrame = some f ∧
      m.callbackChain = frameChain (.frame f :: rest) := by
  unfold Pinned at h
  rw [if_pos hactive] at h
  obtain ⟨upper, k, f, rest, heq, hpin, -⟩ := h
  exact ⟨upper, k, f, rest, heq, hpin, callbackChain_eq hnodup heq hpin⟩

theorem Pinned.threadStateFrame (h : Pinned m.tstate) (hnodup : m.tstate.stack.Nodup)
    (node : Nat) : ∃ upper rest, m.tstate.stack = upper ++ rest ∧
      Retrace.threadStateFrame m node = frameChain rest ∧
      (m.tstate.threadCallbackActive = false → upper = []) ∧
      (upper ≠ [] → ∃ lead k f tail, upper = lead ++ [.callback k] ∧ rest = .frame f :: tail) := by
  unfold Retrace.threadStateFrame
  by_cases hcallback : m.tstate.threadCallbackActive = true ∧
      m.currentSpaceId ≠ (m.tstate.space node).spaceId
  · rw [if_pos hcallback]
    obtain ⟨upper, k, f, rest, heq, -, hchain⟩ := h.callbackChain hnodup hcallback.1
    refine ⟨upper ++ [.callback k], .frame f :: rest, by simp [heq], hchain, ?_,
      fun _ => ⟨upper, k, f, rest, rfl, rfl⟩⟩
    intro hidle
    rw [hidle] at hcallback
    exact absurd hcallback.1 (by simp)
  · rw [if_neg hcallback]
    exact ⟨[], m.tstate.stack, rfl, rfl, fun _ => rfl, fun hne => absurd rfl hne⟩

theorem Pinned.mem_currentThreadFrame (h : Pinned m.tstate) (hnodup : m.tstate.stack.Nodup)
    {upper lower : List StackItem} {r : Nat} (hstack : m.tstate.stack = upper ++ .frame r :: lower)
    (hnone : ∀ j, .callback j ∉ lower) : r ∈ currentThreadFrame m := by
  unfold currentThreadFrame
  split
  · rename_i hcallback
    obtain ⟨above, k, f, rest, heq, -, hchain⟩ := h.callbackChain hnodup hcallback.1
    rw [hchain]
    apply mem_frameChain.mpr
    rw [hstack] at heq
    have hsuffix : .frame r :: lower <:+ .callback k :: .frame f :: rest ∨
        .callback k :: .frame f :: rest <:+ .frame r :: lower :=
      List.suffix_or_suffix_of_suffix (heq ▸ List.suffix_append upper _)
        (List.suffix_append above _)
    obtain hin | hout := hsuffix
    · rw [List.suffix_cons_iff] at hin
      obtain heq' | hin := hin
      · cases heq'
      · exact hin.subset List.mem_cons_self
    · have hmem : StackItem.callback k ∈ StackItem.frame r :: lower :=
        hout.subset List.mem_cons_self
      rw [List.mem_cons] at hmem
      exact absurd (hmem.resolve_left (by simp)) (hnone k)
  · unfold Machine.chain
    rw [hstack]
    exact mem_frameChain.mpr (by simp)

variable {event : ThreadEvent} {below : List StackItem} {k : Nat}

theorem Effect.callbackState (h : Effect m event m')
    (hbegin : ∀ k allocates, event ≠ .callbackBegin k allocates) (hend : event ≠ .callbackEnd) :
    m'.tstate.threadCallbackActive = m.tstate.threadCallbackActive ∧
      m'.tstate.threadCallbackFrame = m.tstate.threadCallbackFrame := by
  cases h with
  | call off limit => exact ⟨rfl, rfl⟩
  | resume off limit => exact ⟨rfl, rfl⟩
  | newGenerator off => exact ⟨rfl, rfl⟩
  | begin top => exact ⟨rfl, rfl⟩
  | leave top current space node_eq previous ne =>
    rw [popFrame_tstate]
    constructor
    · split <;> rfl
    · split <;> rfl
  | leaveInactive => exact ⟨rfl, rfl⟩
  | enterFails unused => exact ⟨rfl, rfl⟩
  | enterSpace unused enters => exact enters.callbackState.2
  | leaveSpace top =>
    rename_i k rest
    change (Retrace.leaveSpace m k).tstate.threadCallbackActive = _ ∧
      (Retrace.leaveSpace m k).tstate.threadCallbackFrame = _
    rw [leaveSpace_tstate]
    constructor
    · dsimp only
      split <;> rfl
    · dsimp only
      split <;> rfl
  | callbackFails unused idle => exact absurd rfl (hbegin _ _)
  | callbackBegin top unused idle enters => exact absurd rfl (hbegin _ _)
  | callbackEnd top => exact absurd rfl hend
  | threadDelta =>
    rename_i spaceId allocates tupleAllocates
    obtain heq | ⟨node, -, heq⟩ := threadDelta_cases m spaceId allocates tupleAllocates
    · rw [heq]
      exact ⟨rfl, rfl⟩
    · rw [heq]
      exact ⟨rfl, rfl⟩

theorem Effect.beginsIdle {allocates : Bool} (h : Effect m (.callbackBegin k allocates) m') :
    m.tstate.threadCallbackActive = false := by
  cases h with
  | callbackFails unused idle => exact idle
  | callbackBegin top unused idle enters => exact idle

theorem Effect.staysActive (h : Effect m event m') (hactive : m.tstate.threadCallbackActive = true)
    (hend : event ≠ .callbackEnd) : m'.tstate.threadCallbackActive = true ∧
      m'.tstate.threadCallbackFrame = m.tstate.threadCallbackFrame := by
  have hbegin : ∀ k allocates, event ≠ .callbackBegin k allocates := by
    rintro k allocates rfl
    exact absurd hactive (by simp [h.beginsIdle])
  obtain ⟨hsame, hframe⟩ := h.callbackState hbegin hend
  exact ⟨hsame.trans hactive, hframe⟩

theorem Effect.staysInCallback {event : ThreadEvent} (h : Effect m event m')
    (hend : event ≠ .callbackEnd) (habove : .callback k :: below <:+ m.tstate.stack) :
    .callback k :: below <:+ m'.tstate.stack := by
  have hpopped : ∀ {item : StackItem} {rest : List StackItem}, m.tstate.stack = item :: rest →
      item ≠ .callback k → .callback k :: below <:+ rest := by
    intro item rest htop hne
    rw [htop, List.suffix_cons_iff] at habove
    refine habove.resolve_left (fun heq => hne ?_)
    rw [List.cons.injEq] at heq
    exact heq.1.symm
  cases h with
  | call off limit => exact habove.trans (List.suffix_cons _ _)
  | resume off limit => exact habove.trans (List.suffix_cons _ _)
  | newGenerator off => exact habove
  | begin top => exact habove
  | leave top current space node_eq previous ne =>
    rw [popFrame_stack]
    exact hpopped top (by simp)
  | leaveInactive => exact habove
  | enterFails unused => exact habove
  | enterSpace unused enters =>
    have hstack := enters.callbackState.1
    exact habove.trans (hstack ▸ List.suffix_cons _ _)
  | leaveSpace top => exact hpopped top (by simp)
  | callbackFails unused idle => exact habove
  | callbackBegin top unused idle enters =>
    have hstack := enters.callbackState.1
    exact habove.trans (hstack ▸ List.suffix_cons _ _)
  | callbackEnd top => exact absurd rfl hend
  | threadDelta =>
    rename_i spaceId allocates tupleAllocates
    obtain heq | ⟨node, -, heq⟩ := threadDelta_cases m spaceId allocates tupleAllocates
    · rw [heq]
      exact habove
    · rw [heq]
      exact habove

theorem Effect.callbackChain (heffect : Effect m event m') (hpinned : Pinned m.tstate)
    (hnodup : m.tstate.stack.Nodup) (hnodup' : m'.tstate.stack.Nodup)
    (hactive : m.tstate.threadCallbackActive = true)
    (hbegin : ∀ k allocates, event ≠ .callbackBegin k allocates) (hend : event ≠ .callbackEnd) :
    m'.callbackChain = m.callbackChain := by
  obtain ⟨upper, k, f, rest, hstack, hpin, hchain⟩ := hpinned.callbackChain hnodup hactive
  have habove : .callback k :: .frame f :: rest <:+ m.tstate.stack :=
    hstack ▸ List.suffix_append upper _
  obtain ⟨upper', hstack'⟩ := heffect.staysInCallback hend habove
  rw [hchain]
  exact callbackChain_eq hnodup' hstack'.symm
    ((heffect.callbackState hbegin hend).2.trans hpin)

theorem Effect.frameOn (h : Effect m event m') {f : Nat} (hon : .frame f ∈ m'.tstate.stack) :
    .frame f ∈ m.tstate.stack ∨ (∃ first evalEntry allocates,
      event = .call f first evalEntry allocates) ∨
      ∃ evalEntry allocates, event = .resume f evalEntry allocates := by
  have hpush : ∀ (g : Nat) (frame : InterpreterFrame),
      .frame f ∈ (m.pushFrame g frame).tstate.stack → f = g ∨ .frame f ∈ m.tstate.stack := by
    intro g frame hmem
    obtain heq | hmem := List.mem_cons.mp hmem
    · exact Or.inl (StackItem.frame.inj heq)
    · exact Or.inr hmem
  cases h with
  | call off limit =>
    obtain rfl | hmem := hpush _ _ hon
    · exact Or.inr (Or.inl ⟨_, _, _, rfl⟩)
    · exact Or.inl hmem
  | resume off limit =>
    obtain rfl | hmem := hpush _ _ hon
    · exact Or.inr (Or.inr ⟨_, _, rfl⟩)
    · exact Or.inl hmem
  | newGenerator off => exact Or.inl hon
  | begin top => exact Or.inl hon
  | leave top current space node_eq previous ne =>
    rw [popFrame_stack] at hon
    exact Or.inl (top ▸ List.mem_cons_of_mem _ hon)
  | leaveInactive => exact Or.inl hon
  | enterFails unused => exact Or.inl hon
  | enterSpace unused enters =>
    rw [← enters.callbackState.1]
    exact Or.inl ((List.mem_cons.mp hon).resolve_left (by simp))
  | leaveSpace top => exact Or.inl (top ▸ List.mem_cons_of_mem _ hon)
  | callbackFails unused idle => exact Or.inl hon
  | callbackBegin top unused idle enters =>
    have hstack := enters.callbackState.1
    exact Or.inl (hstack ▸ (List.mem_cons.mp hon).resolve_left (by simp))
  | callbackEnd top => exact Or.inl (top ▸ List.mem_cons_of_mem _ hon)
  | threadDelta =>
    rename_i id allocates tupleAllocates
    obtain heq | ⟨node, -, heq⟩ := threadDelta_cases m id allocates tupleAllocates
    · exact Or.inl (heq ▸ hon)
    · rw [heq] at hon
      exact Or.inl hon

end pinned

end Retrace
