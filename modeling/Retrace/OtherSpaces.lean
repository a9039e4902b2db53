import Retrace.Callbacks
import Retrace.SpaceView

/-! A fragment that runs in one space leaves every other space as it was. -/

set_option autoImplicit false

namespace Retrace

def ThreadEvent.takesDelta (spaceId : Nat) : ThreadEvent → Prop
  | .threadDelta id _ _ => id = spaceId
  | _ => False

theorem Effect.popped {m m' : Machine} {event : ThreadEvent} (h : Effect m event m')
    (hcontext : ContextOk m m.context) (hnodup : m.tstate.stack.Nodup) {item : StackItem}
    {below : List StackItem}
    (habove : item :: below <:+ m.tstate.stack) (hgone : ¬item :: below <:+ m'.tstate.stack) :
    m'.tstate.stack = below := by
  obtain ⟨kept, -, ⟨hm, hm'⟩ | ⟨top, hm, hm'⟩ | ⟨top, hm, hm', -, -⟩⟩ := h.kept hcontext hnodup
  · rw [hm] at habove
    exact absurd (hm' ▸ habove) hgone
  · rw [hm, List.suffix_cons_iff] at habove
    obtain heq | habove := habove
    · rw [List.cons.injEq] at heq
      rw [hm', ← heq.2]
    · exact absurd (hm' ▸ habove) hgone
  · rw [hm] at habove
    exact absurd (hm' ▸ habove.trans (List.suffix_cons _ _)) hgone

/-- From `m` to `m'` the record of the space and its frames are the same, up to what a delta of
the space itself remembers. -/
structure Beside (spaceId : Nat) (quiet : Prop) (m m' : Machine) : Prop where
  address : m'.tstate.address = m.tstate.address
  found : findThreadSpace m'.tstate spaceId = findThreadSpace m.tstate spaceId
  space : ∀ s, findThreadSpace m.tstate spaceId = some s →
    { m'.tstate.space s with next := 0, lastDeltaRootCallOrdinal := 0 } =
      { m.tstate.space s with next := 0, lastDeltaRootCallOrdinal := 0 } ∧
    (quiet → (m'.tstate.space s).lastDeltaRootCallOrdinal =
      (m.tstate.space s).lastDeltaRootCallOrdinal)
  frame : ∀ s, findThreadSpace m.tstate spaceId = some s → ∀ f,
    (m'.frames f).space = some (m.spacePtr s) ∨ (m.frames f).space = some (m.spacePtr s) →
    SameFrame quiet (m.frames f) (m'.frames f)

/-- Not a pointer to the thread's space with this id. -/
def Foreign (m : Machine) (spaceId : Nat) (space : Option SpacePtr) : Prop :=
  ∀ s, findThreadSpace m.tstate spaceId = some s → space ≠ some (m.spacePtr s)

/-- The items above `below` start with a scope or a callback, and none of those is of the
space. -/
structure Inside (spaceId : Nat) (below : List StackItem) (base : Context) (m : Machine)
    (items : List StackItem) : Prop where
  stack : m.tstate.stack = items ++ below
  disciplined : Disciplined m below base items m.context
  bottom : ∃ upper item k, items = upper ++ [item] ∧ (item = .scope k ∨ item = .callback k)
  foreign : ∀ j ∈ scopeIds items, (m.tstate.space (m.scopes j).space).spaceId ≠ spaceId

section beside
variable {p : Platform} {m m' m'' : Machine} {spaceId : Nat} {quiet : Prop}
  {below items : List StackItem} {base c : Context}

theorem Beside.refl (spaceId : Nat) (quiet : Prop) (m : Machine) : Beside spaceId quiet m m :=
  ⟨rfl, rfl, fun _ _ => ⟨rfl, fun _ => rfl⟩, fun _ _ f _ => SameFrame.refl quiet (m.frames f)⟩

theorem Beside.trans (h : Beside spaceId quiet m m') (h' : Beside spaceId quiet m' m'') :
    Beside spaceId quiet m m'' := by
  refine ⟨h'.address.trans h.address, h'.found.trans h.found, ?_, ?_⟩
  · intro s hs
    obtain ⟨hspace, hdelta⟩ := h.space s hs
    obtain ⟨hspace', hdelta'⟩ := h'.space s (h.found.trans hs)
    exact ⟨hspace'.trans hspace, fun hq => (hdelta' hq).trans (hdelta hq)⟩
  · intro s hs f hf
    have hptr : m'.spacePtr s = m.spacePtr s := by
      unfold Machine.spacePtr
      rw [h.address]
    have hstep := h'.frame s (h.found.trans hs) f
    rw [hptr] at hstep
    obtain hlast | hfirst := hf
    · have hmid := hstep (Or.inl hlast)
      have hspace : (m'.frames f).space = some (m.spacePtr s) := hmid.fields.1 ▸ hlast
      exact (h.frame s hs f (Or.inl hspace)).trans hmid
    · have hmid := h.frame s hs f (Or.inr hfirst)
      have hspace : (m'.frames f).space = some (m.spacePtr s) := hmid.fields.1.trans hfirst
      exact hmid.trans (hstep (Or.inr hspace))

theorem foreign_spacePtr (hcircle : Circle m.tstate) {n : Nat}
    (hid : (m.tstate.space n).spaceId ≠ spaceId) : Foreign m spaceId (some (m.spacePtr n)) := by
  intro s hs heq
  have hns : n = s := by
    simpa [Machine.spacePtr] using heq
  exact hid (hns ▸ (hcircle.find_some hs).2)

theorem foreign_none : Foreign m spaceId none := fun _ _ => Option.some_ne_none _ ∘ Eq.symm

theorem Disciplined.foreign {upper : List StackItem} {bottom : StackItem} {k : Nat}
    (hbottom : bottom = .scope k ∨ bottom = .callback k)
    (hd : Disciplined m below base (upper ++ [bottom]) c)
    (hforeign : ∀ j ∈ scopeIds (upper ++ [bottom]),
      (m.tstate.space (m.scopes j).space).spaceId ≠ spaceId) :
    (m.tstate.space c.space).spaceId ≠ spaceId := by
  induction upper generalizing c with
  | nil =>
    obtain rfl | rfl := hbottom
    · rw [hd.2.1.1]
      exact hforeign k (by simp [scopeIds])
    · rw [hd.2.1.1]
      exact hforeign k (by simp [scopeIds])
  | cons item rest ih =>
    cases item with
    | frame f =>
      have hbelow := ih hd.2.2.2 hforeign
      exact hbelow
    | scope j =>
      rw [hd.2.1.1]
      exact hforeign j (by simp [scopeIds])
    | callback j =>
      rw [hd.2.1.1]
      exact hforeign j (by simp [scopeIds])

theorem Inside.current (h : Inside spaceId below base m items) :
    (m.tstate.space m.tstate.currentSpace).spaceId ≠ spaceId := by
  obtain ⟨upper, bottom, k, rfl, hbottom⟩ := h.bottom
  exact h.disciplined.foreign hbottom h.foreign

theorem Inside.topFrame (h : Inside spaceId below base m items) (hcircle : Circle m.tstate)
    {f : Nat} {rest : List StackItem} (htop : m.tstate.stack = .frame f :: rest) :
    Foreign m spaceId (m.frames f).space ∧
      (∀ n, (m.frames f).previousCallOrdinalPtr ≠ some (.root n)) ∧
      ∀ g, (m.frames f).previousCallOrdinalPtr = some (.frame g) →
        Foreign m spaceId (m.frames g).space := by
  have hcurrent := h.current
  obtain ⟨upper, bottom, k, hitems, hbottom⟩ := h.bottom
  have hstack := h.stack
  have hd := h.disciplined
  rw [hitems] at hstack hd
  cases upper with
  | nil =>
    rw [htop] at hstack
    obtain rfl | rfl := hbottom
    · cases hstack
    · cases hstack
  | cons item upper =>
    rw [htop, List.cons_append, List.cons_append, List.cons.injEq] at hstack
    obtain ⟨rfl, -⟩ := hstack
    obtain ⟨-, -, hspace, hrest⟩ := hd
    refine ⟨hspace ▸ foreign_spacePtr hcircle hcurrent, ?_, ?_⟩
    · intro n hn
      obtain ⟨g, hg, -⟩ | ⟨j, -, hj, -⟩ := hrest.slot (by simp)
      · exact absurd (hg.symm.trans hn) (by simp)
      · exact absurd (hj.symm.trans hn) (by simp)
    · intro g hg
      obtain ⟨parent, hparent, -, hslot⟩ | ⟨j, -, hj, -⟩ := hrest.slot (by simp)
      · have heq : parent = g := by simpa using hparent.symm.trans hg
        rw [← heq, hslot]
        exact foreign_spacePtr hcircle hcurrent
      · exact absurd (hj.symm.trans hg) (by simp)

theorem Inside.scopeOnTop (h : Inside spaceId below base m items) {k : Nat} {item : StackItem}
    {rest : List StackItem} (htop : m.tstate.stack = item :: rest)
    (hitem : item = .scope k ∨ item = .callback k) :
    (m.tstate.space (m.scopes k).space).spaceId ≠ spaceId := by
  obtain ⟨upper, bottom, -, hitems, -⟩ := h.bottom
  have hstack := h.stack
  rw [htop, hitems] at hstack
  have hmem : item ∈ upper ++ [bottom] := by
    cases upper with
    | nil =>
      rw [List.nil_append, List.cons_append, List.cons.injEq] at hstack
      simp [hstack.1]
    | cons first upper =>
      rw [List.cons_append, List.cons_append, List.cons.injEq] at hstack
      simp [hstack.1]
  apply h.foreign
  rw [mem_scopeIds, hitems]
  obtain rfl | rfl := hitem
  · exact Or.inl hmem
  · exact Or.inr hmem

theorem Beside.of_kept (hcircle : Circle m.tstate) (hcircle' : Circle m'.tstate)
    (hsaved : SavedOn [] m m')
    (hnew : ∀ n, m.tstate.spaces.length ≤ n → n < m'.tstate.spaces.length →
      (m'.tstate.space n).spaceId ≠ spaceId)
    (hspace : ∀ s, s < m.tstate.spaces.length → (m.tstate.space s).spaceId = spaceId →
      { m'.tstate.space s with next := 0 } = { m.tstate.space s with next := 0 })
    (hframe : ∀ f, m'.frames f = m.frames f ∨
      Foreign m spaceId (m.frames f).space ∧ Foreign m spaceId (m'.frames f).space) :
    Beside spaceId quiet m m' := by
  refine ⟨hsaved.address, hcircle.find_congr hcircle' hsaved.length hsaved.spaceId hnew, ?_, ?_⟩
  · intro s hs
    obtain ⟨hlt, hid⟩ := hcircle.find_some hs
    have hsame := hspace s hlt hid
    simp only [SpaceState.mk.injEq] at hsame
    obtain ⟨h1, h2, h3, h4, h5, h6, -⟩ := hsame
    rw [SpaceState.mk.injEq]
    exact ⟨⟨h1, h2, h3, h4, rfl, h6, rfl⟩, fun _ => h5⟩
  · intro s hs f hf
    obtain heq | ⟨hbefore, hafter⟩ := hframe f
    · rw [heq]
      exact SameFrame.refl quiet _
    · exact (hf.elim (hafter s hs) (hbefore s hs)).elim

theorem Beside.setFrame (hcircle : Circle m.tstate) {f : Nat} (frame : InterpreterFrame)
    (hbefore : Foreign m spaceId (m.frames f).space) (hafter : Foreign m spaceId frame.space) :
    Beside spaceId quiet m (m.setFrame f frame) := by
  refine Beside.of_kept hcircle (hcircle.congr rfl rfl (fun _ _ => ⟨rfl, rfl⟩))
    (savedOn_setFrame [] m f (by simp) (by simp)) ?_ (fun _ _ _ => rfl) ?_
  · intro n hle hlt
    change n < m.tstate.spaces.length at hlt
    omega
  · intro g
    rw [setFrame_frames]
    by_cases hgf : g = f
    · rw [if_pos hgf, hgf]
      exact Or.inr ⟨hbefore, hafter⟩
    · exact Or.inl (if_neg hgf)

theorem Beside.pushFrame (h : Inside spaceId below base m items) (hcircle : Circle m.tstate)
    {f : Nat} (frame : InterpreterFrame) (hoff : (m.frames f).space = none) :
    Beside spaceId quiet m (m.pushFrame f frame) := by
  have hcurrent := h.current
  refine Beside.of_kept hcircle (pushFrame_circle m hcircle f frame)
    (savedOn_pushFrame frame List.not_mem_nil) ?_ ?_ ?_
  · intro n hle hlt
    rw [pushFrame_length] at hlt
    omega
  · intro s hlt hid
    have hne : s ≠ m.tstate.currentSpace := fun heq => hcurrent (heq ▸ hid)
    rw [pushFrame_space m f frame hlt, if_neg hne]
  · intro g
    rw [pushFrame_frames]
    by_cases hgf : g = f
    · rw [if_pos hgf, hgf, hoff]
      exact Or.inr ⟨foreign_none, foreign_spacePtr hcircle hcurrent⟩
    · exact Or.inl (if_neg hgf)

theorem Beside.popFrame (h : Inside spaceId below base m items) (hcircle : Circle m.tstate)
    {f node : Nat} {ptr : OrdinalPtr} {rest : List StackItem}
    (htop : m.tstate.stack = .frame f :: rest) (hnode : node = m.tstate.currentSpace)
    (hprevious : (m.frames f).previousCallOrdinalPtr = some ptr) (hne : ptr ≠ .frame f) :
    Beside spaceId quiet m (m.popFrame f node ptr rest) := by
  have hcurrent := h.current
  obtain ⟨hframe, hroot, hslot⟩ := h.topFrame hcircle htop
  refine Beside.of_kept hcircle (popFrame_circle m hcircle f node ptr rest)
    (savedOn_popFrame rest hne List.not_mem_nil) ?_ ?_ ?_
  · intro n hle hlt
    rw [popFrame_length] at hlt
    omega
  · intro s hlt hid
    have hsn : s ≠ node := fun heq => hcurrent (hnode ▸ heq ▸ hid)
    have hsr : ptr ≠ .root s := fun heq => hroot s (heq ▸ hprevious)
    rw [popFrame_space m f node ptr rest hlt, if_neg (fun hand => hsn hand.1), if_neg hsr]
  · intro g
    rw [popFrame_frames m f node ptr rest hne]
    by_cases hgf : g = f
    · rw [if_pos hgf, hgf]
      exact Or.inr ⟨hframe, foreign_none⟩
    · rw [if_neg hgf]
      by_cases hg : ptr = .frame g
      · rw [if_pos hg]
        have hforeign := hslot g (hg ▸ hprevious)
        exact Or.inr ⟨hforeign, hforeign⟩
      · exact Or.inl (if_neg hg)

theorem Beside.enterSpace (hcircle : Circle m.tstate) {k entered node : Nat} {t : ThreadState}
    {scope : SpaceScope} {ptr : OrdinalPtr} (h : EntersSpace m k entered m' node t scope ptr)
    (hne : entered ≠ spaceId) : Beside spaceId quiet m m' := by
  have hsaved : SavedOn [] m m' := savedOn_enterSpace h List.not_mem_nil
  have hresult := h.result
  refine Beside.of_kept hcircle ?_ hsaved ?_ ?_ ?_
  · rw [hresult]
    exact h.grown.circle.congr rfl rfl (fun _ _ => ⟨rfl, rfl⟩)
  · intro n hle hlt
    rw [hresult] at hlt ⊢
    obtain ⟨hash, hfresh⟩ := h.grown.fresh n hle hlt
    change (t.space n).spaceId ≠ spaceId
    rw [hfresh]
    exact hne
  · intro s hlt _
    rw [hresult]
    change { t.space s with next := 0 } = _
    rw [h.grown.space s hlt]
  · intro f
    rw [hresult]
    exact Or.inl rfl

theorem Beside.leaveSpace (hcircle : Circle m.tstate) {k : Nat}
    (hk : (m.tstate.space (m.scopes k).space).spaceId ≠ spaceId) :
    Beside spaceId quiet m (leaveSpace m k) := by
  refine Beside.of_kept hcircle (leaveSpace_circle m hcircle k) (savedOn_leaveSpace [] m k) ?_ ?_ ?_
  · intro n hle hlt
    rw [leaveSpace_length] at hlt
    omega
  · intro s hlt hid
    have hne : s ≠ (m.scopes k).space := fun heq => hk (heq ▸ hid)
    rw [leaveSpace_space m k hlt, if_neg (fun hand => hne hand.2)]
  · intro f
    rw [leaveSpace_frames]
    exact Or.inl rfl

theorem Beside.threadDelta (hcircle : Circle m.tstate) {taken : Nat} {allocates
    tupleAllocates : Bool} (hquiet : quiet → taken ≠ spaceId) :
    Beside spaceId quiet m (threadDeltaForTstate m taken allocates tupleAllocates).2 := by
  obtain heq | ⟨node, hnode, heq⟩ := threadDelta_cases m taken allocates tupleAllocates
  · rw [heq]
    exact Beside.refl spaceId quiet m
  · rw [heq]
    have hother : quiet → ∀ s, findThreadSpace m.tstate spaceId = some s → s ≠ node := by
      intro hq s hs hsn
      have hid := (hcircle.find_some hs).2
      rw [hsn, (hcircle.find_some hnode).2] at hid
      exact hquiet hq hid
    have hsaved := savedOn_rememberDelta [] m node
    refine ⟨rfl, ?_, ?_, ?_⟩
    · refine hcircle.find_congr (rememberDelta_circle m hcircle node) hsaved.length hsaved.spaceId ?_
      intro n hle hlt
      rw [rememberDelta_length] at hlt
      omega
    · intro s hs
      rw [rememberDelta_space m node (hcircle.find_some hs).1]
      refine ⟨?_, ?_⟩
      · split <;> rfl
      · intro hq
        rw [if_neg (hother hq s hs)]
    · intro s hs f hf
      rw [(rememberDelta_saved m node f).1, or_self] at hf
      rw [rememberDelta_frames]
      split
      · rename_i hvisible
        refine ⟨rfl, ?_⟩
        intro hq
        have hspace := visibleIn_space hvisible.2
        rw [hf] at hspace
        have hsn : s = node := by simpa [Machine.spacePtr] using hspace
        exact absurd hsn (hother hq s hs)
      · exact SameFrame.refl quiet _

theorem Beside.sameSpaces (hcircle : Circle m.tstate) (haddress : m'.tstate.address =
    m.tstate.address) (hspaces : m'.tstate.spaces = m.tstate.spaces)
    (hlast : m'.tstate.lastSpace = m.tstate.lastSpace) (hframes : m'.frames = m.frames) :
    Beside spaceId quiet m m' := by
  have hspace : ∀ n, m'.tstate.space n = m.tstate.space n := by
    intro n
    unfold ThreadState.space
    rw [hspaces]
  refine Beside.of_kept hcircle ?_ ?_ ?_ ?_ ?_
  · refine hcircle.congr (by rw [hspaces]) hlast ?_
    intro n _
    rw [hspace]
    exact ⟨rfl, rfl⟩
  · refine ⟨haddress, fun f hf => absurd hf List.not_mem_nil,
      fun k hk => absurd hk List.not_mem_nil, Nat.le_of_eq (by rw [hspaces]), ?_⟩
    intro n _
    rw [hspace]
  · intro n hle hlt
    rw [hspaces] at hlt
    omega
  · intro s _ _
    rw [hspace]
  · intro f
    rw [hframes]
    exact Or.inl rfl

theorem EntersSpace.circle {k entered node : Nat} {t : ThreadState} {scope : SpaceScope}
    {ptr : OrdinalPtr} (h : EntersSpace m k entered m' node t scope ptr) : Circle m'.tstate := by
  rw [h.result]
  exact h.grown.circle.congr rfl rfl (fun _ _ => ⟨rfl, rfl⟩)

theorem Inside.beside (h : Inside spaceId below base m items) (hseg : Segment below base m)
    {event : ThreadEvent} (heffect : Effect m event m') (havoid : event.enters ≠ some spaceId)
    (hquiet : quiet → ¬event.takesDelta spaceId) : Beside spaceId quiet m m' := by
  have hcircle := hseg.circle
  cases heffect with
  | call off limit => exact Beside.pushFrame h hcircle _ (hseg.off off)
  | resume off limit => exact Beside.pushFrame h hcircle _ (hseg.off off)
  | newGenerator off =>
    refine Beside.setFrame hcircle _ ?_ foreign_none
    rw [hseg.off off]
    exact foreign_none
  | begin top =>
    obtain ⟨hframe, -, -⟩ := h.topFrame hcircle top
    refine Beside.setFrame hcircle _ hframe ?_
    rw [(begunFrame_saved _ _ _).1]
    exact hframe
  | leave top current space node_eq previous ne =>
    exact Beside.popFrame h hcircle top node_eq previous ne
  | leaveInactive => exact Beside.refl spaceId quiet m
  | enterFails unused => exact Beside.refl spaceId quiet m
  | enterSpace unused enters =>
    exact (Beside.enterSpace hcircle enters (fun heq => havoid (congrArg some heq))).trans
      (Beside.sameSpaces enters.circle rfl rfl rfl rfl)
  | leaveSpace top =>
    rename_i k rest
    have hk := h.scopeOnTop top (Or.inl rfl)
    exact (Beside.leaveSpace hcircle hk).trans
      (Beside.sameSpaces (leaveSpace_circle m hcircle k) rfl rfl rfl rfl)
  | callbackFails unused idle => exact Beside.sameSpaces hcircle rfl rfl rfl rfl
  | callbackBegin top unused idle enters =>
    rename_i f k node allocates rest entered t scope ptr
    have hpinned : Beside spaceId quiet m (m.setCallback true (some f)) :=
      Beside.sameSpaces hcircle rfl rfl rfl rfl
    have hentered : Beside spaceId quiet (m.setCallback true (some f)) entered :=
      Beside.enterSpace (hcircle.congr rfl rfl (fun _ _ => ⟨rfl, rfl⟩)) enters
        (fun heq => havoid (congrArg some heq))
    exact (hpinned.trans hentered).trans (Beside.sameSpaces enters.circle rfl rfl rfl rfl)
  | callbackEnd top =>
    rename_i k rest
    have hk := h.scopeOnTop top (Or.inr rfl)
    exact (Beside.leaveSpace hcircle hk).trans
      (Beside.sameSpaces (leaveSpace_circle m hcircle k) rfl rfl rfl rfl)
  | threadDelta => exact Beside.threadDelta hcircle hquiet

theorem Inside.step (h : Inside spaceId below base m items) (hseg : Segment below base m)
    {event : ThreadEvent} (heffect : Effect m event m') (havoid : event.enters ≠ some spaceId)
    {bottom : StackItem} {k : Nat} (hbottom : bottom = .scope k ∨ bottom = .callback k)
    (hstays : bottom :: below <:+ m'.tstate.stack) :
    ∃ items', Inside spaceId below base m' items' := by
  have hbelow : below <:+ m'.tstate.stack := (List.suffix_cons _ _).trans hstays
  obtain ⟨items', hstack', hd'⟩ := (hseg.step heffect hbelow).items
  have hstart : ∃ upper item k, items' = upper ++ [item] ∧
      (item = .scope k ∨ item = .callback k) := by
    obtain ⟨upper, hupper⟩ := hstays
    refine ⟨upper, bottom, k, ?_, hbottom⟩
    rw [hstack'] at hupper
    exact (List.append_cancel_right (by rw [← hupper]; simp)).symm
  refine ⟨items', hstack', hd', hstart, ?_⟩
  have hold : ∀ j ∈ scopeIds items, ∀ kept, SavedOn kept m m' → j ∈ scopeIds kept →
      (m'.tstate.space (m'.scopes j).space).spaceId ≠ spaceId := by
    intro j hj kept hsaved hkept
    rw [hsaved.scope_spaceId hkept (h.disciplined.scope_space hj)]
    exact h.foreign j hj
  have hkeptIds : ∀ upper, ∀ j ∈ scopeIds upper, j ∈ scopeIds (upper ++ below) := by
    intro upper j hj
    rw [mem_scopeIds] at hj ⊢
    exact hj.imp (List.mem_append_left _) (List.mem_append_left _)
  have hstack := h.stack
  obtain ⟨kept, hsaved, ⟨hm, hm'⟩ | ⟨item, hm, hm'⟩ | ⟨item, hm, hm', -, hnew⟩⟩ :=
    heffect.kept hseg.contextOk hseg.nodup
  · have heq : items' = items := by
      rw [hstack'] at hm'
      rw [hstack, ← hm'] at hm
      exact (List.append_cancel_right hm).symm
    subst heq
    intro j hj
    refine hold j hj kept hsaved ?_
    rw [← hm', hstack']
    exact hkeptIds _ j hj
  · have heq : items = item :: items' := by
      rw [hstack'] at hm'
      rw [hstack, ← hm', ← List.cons_append] at hm
      exact List.append_cancel_right hm
    intro j hj
    refine hold j ?_ kept hsaved ?_
    · rw [heq, scopeIds_cons]
      exact List.mem_append_right _ hj
    · rw [← hm', hstack']
      exact hkeptIds _ j hj
  · have heq : items' = item :: items := by
      rw [hstack', ← hm, hstack, ← List.cons_append] at hm'
      exact List.append_cancel_right hm'
    intro j hj
    rw [heq, scopeIds_cons, List.mem_append] at hj
    obtain hj | hj := hj
    · obtain ⟨entered, henters, hid, -⟩ := hnew j hj
      rw [hid]
      exact fun hsame => havoid (hsame ▸ henters)
    · refine hold j hj kept hsaved ?_
      rw [← hm, hstack]
      exact hkeptIds _ j hj

structure Away (spaceId : Nat) (below : List StackItem) (m : Machine) (items : List StackItem) :
    Prop where
  stack : m.tstate.stack = items ++ below
  frame : ∀ f, .frame f ∈ items → Foreign m spaceId (m.frames f).space

theorem Disciplined.frame_foreign (hcircle : Circle m.tstate) {upper : List StackItem}
    {bottom : StackItem} {k : Nat} (hbottom : bottom = .scope k ∨ bottom = .callback k)
    (hd : Disciplined m below base (upper ++ [bottom]) c)
    (hforeign : ∀ j ∈ scopeIds (upper ++ [bottom]),
      (m.tstate.space (m.scopes j).space).spaceId ≠ spaceId)
    {f : Nat} (hf : .frame f ∈ upper ++ [bottom]) : Foreign m spaceId (m.frames f).space := by
  induction upper generalizing c with
  | nil =>
    obtain rfl | rfl := hbottom
    · simp at hf
    · simp at hf
  | cons item rest ih =>
    rw [List.cons_append, List.mem_cons] at hf
    cases item with
    | frame g =>
      obtain heq | hf := hf
      · cases heq
        have hid := hd.foreign hbottom hforeign
        rw [hd.2.2.1]
        exact foreign_spacePtr hcircle hid
      · exact ih hd.2.2.2 hforeign hf
    | scope j =>
      exact ih hd.2.2 (fun i hi => hforeign i (List.mem_cons_of_mem _ hi))
        (hf.resolve_left (by simp))
    | callback j =>
      exact ih hd.2.2 (fun i hi => hforeign i (List.mem_cons_of_mem _ hi))
        (hf.resolve_left (by simp))

theorem Inside.away (h : Inside spaceId below base m items) (hcircle : Circle m.tstate) :
    Away spaceId below m items := by
  refine ⟨h.stack, ?_⟩
  obtain ⟨upper, bottom, k, rfl, hbottom⟩ := h.bottom
  intro f hf
  exact h.disciplined.frame_foreign hcircle hbottom h.foreign hf

/-- The chain that coordinates are read from keeps all of `below`, when no callback ran there. -/
theorem Pinned.chain_above (h : Pinned m.tstate) (hnodup : m.tstate.stack.Nodup)
    (hstack : m.tstate.stack = items ++ below) (hnone : ∀ k, .callback k ∉ below) (node : Nat) :
    ∃ lower, (∀ item ∈ lower, item ∈ items) ∧
      Retrace.threadStateFrame m node = frameChain (lower ++ below) := by
  obtain ⟨upper, rest, hsplit, hchain, -, hcallback⟩ := h.threadStateFrame hnodup node
  rw [hstack] at hsplit
  have hsuffix : below <:+ rest := by
    obtain hle | hle := List.suffix_or_suffix_of_suffix (List.suffix_append items below)
      (hsplit ▸ List.suffix_append upper rest)
    · exact hle
    · obtain ⟨lead, hlead⟩ := hle
      rw [← hlead, ← List.append_assoc] at hsplit
      have hupper := List.append_cancel_right hsplit
      cases hempty : lead with
      | nil =>
        rw [hempty, List.nil_append] at hlead
        exact hlead ▸ List.suffix_refl _
      | cons first tail =>
        have hne : upper ≠ [] := by
          rw [← hupper, hempty]
          simp
        obtain ⟨before, k, -, -, hlast, -⟩ := hcallback hne
        have hmem : .callback k ∈ lead := by
          have hlasts : (items ++ lead).getLast? = some (.callback k) := by
            rw [hupper, hlast]
            simp
          rw [List.getLast?_append_of_ne_nil _ (by rw [hempty]; simp)] at hlasts
          exact List.mem_of_getLast? hlasts
        exact absurd (hlead ▸ List.mem_append_left _ hmem) (hnone k)
  obtain ⟨lower, hlower⟩ := hsuffix
  refine ⟨lower, ?_, by rw [hchain, hlower]⟩
  intro item hitem
  rw [← hlower, ← List.append_assoc] at hsplit
  rw [List.append_cancel_right hsplit]
  exact List.mem_append_right _ hitem

theorem Away.sameView (haway : Away spaceId m.tstate.stack m' items)
    (hbeside : Beside spaceId quiet m m') (hpinned : Pinned m.tstate)
    (hcallback : m.tstate.threadCallbackActive = false) (hpinned' : Pinned m'.tstate)
    (hnodup' : m'.tstate.stack.Nodup) {s : Nat} (hs : findThreadSpace m.tstate spaceId = some s) :
    SameView quiet s m m' (threadStateFrame m s) (threadStateFrame m' s) := by
  have hptr : m'.spacePtr s = m.spacePtr s := by
    unfold Machine.spacePtr
    rw [hbeside.address]
  have hnone : ∀ k, .callback k ∉ m.tstate.stack := by
    unfold Pinned at hpinned
    rwa [if_neg (by simp [hcallback])] at hpinned
  have hstart : threadStateFrame m s = frameChain m.tstate.stack := by
    unfold threadStateFrame
    rw [if_neg (by simp [hcallback])]
    rfl
  obtain ⟨lower, hlower, hchain⟩ := hpinned'.chain_above hnodup' haway.stack hnone s
  have hvisible : ∀ f, m'.visibleIn (m.spacePtr s) f = m.visibleIn (m.spacePtr s) f := by
    intro f
    by_cases hf : (m'.frames f).space = some (m.spacePtr s) ∨
        (m.frames f).space = some (m.spacePtr s)
    · obtain ⟨hspace, hvis, -, -⟩ := (hbeside.frame s hs f hf).fields
      unfold Machine.visibleIn
      rw [hspace, hvis]
    · rw [not_or] at hf
      rw [visibleIn_eq_false hf.1, visibleIn_eq_false hf.2]
  refine ⟨hbeside.address, (hbeside.space s hs).1, (hbeside.space s hs).2, ?_, ?_⟩
  · rw [hchain, hstart, frameChain_append, List.filter_append]
    have habove : (frameChain lower).filter (m'.visibleIn (m.spacePtr s)) = [] := by
      rw [List.filter_eq_nil_iff]
      intro f hf hvis
      have hforeign := haway.frame f (hlower _ (mem_frameChain.mp hf)) s (hbeside.found.trans hs)
      rw [hptr] at hforeign
      exact hforeign (visibleIn_space hvis)
    rw [habove, List.nil_append]
    exact List.filter_congr (fun f _ => hvisible f)
  · intro f hf
    exact hbeside.frame s hs f (Or.inr (visibleIn_space (List.mem_filter.mp hf).2))

end beside

/-- Each event of the body starts in the scope that stands on `below`. -/
def inFragment (p : Platform) (k : Nat) (below : List StackItem) :
    List ThreadEvent → Machine → Bool
  | [], _ => true
  | event :: body, m =>
    (.scope k :: below).isSuffixOf m.tstate.stack &&
      match threadStep p m event with
      | none => true
      | some m' => inFragment p k below body m'

section fragment
variable {p : Platform} {start m : Machine} {spaceId : Nat} {quiet : Prop}

theorem Inside.run {mid : Machine} {items : List StackItem} {l : Ledger} {k : Nat}
    {body : List ThreadEvent} (hstanding : Standing mid l) (hpinned : Pinned mid.tstate)
    (hseg : Segment start.tstate.stack start.context mid)
    (hinside : Inside spaceId start.tstate.stack start.context mid items)
    (hbeside : Beside spaceId quiet start mid) (hrun : threadRun p body mid = some m)
    (hfragment : inFragment p k start.tstate.stack body mid = true)
    (havoid : ∀ event ∈ body, event.enters ≠ some spaceId)
    (hquiet : quiet → ∀ event ∈ body, ¬event.takesDelta spaceId) :
    ∃ items', Away spaceId start.tstate.stack m items' ∧ Beside spaceId quiet start m ∧
      Pinned m.tstate ∧ m.tstate.stack.Nodup := by
  induction body generalizing mid items l with
  | nil =>
    cases hrun
    exact ⟨items, hinside.away hseg.circle, hbeside, hpinned, hseg.nodup⟩
  | cons event body ih =>
    rw [threadRun_cons, Option.bind_eq_some_iff] at hrun
    obtain ⟨next, hstep, hrun⟩ := hrun
    obtain ⟨hstanding', heffect⟩ := hstanding.step hstep
    have hpinned' := hpinned.step heffect
    have hone := hinside.beside hseg heffect (havoid event List.mem_cons_self)
      (fun hq => hquiet hq event List.mem_cons_self)
    have hbeside' := hbeside.trans hone
    obtain ⟨base, -, hsegNext⟩ := hstanding'.segment
    unfold inFragment at hfragment
    rw [hstep, Bool.and_eq_true, List.isSuffixOf_iff_suffix] at hfragment
    obtain ⟨habove, hfragment⟩ := hfragment
    cases body with
    | nil =>
      cases hrun
      by_cases hin : .scope k :: start.tstate.stack <:+ m.tstate.stack
      · obtain ⟨items', hinside'⟩ := hinside.step hseg heffect
          (havoid event List.mem_cons_self) (Or.inl rfl) hin
        exact ⟨items', hinside'.away hsegNext.circle, hbeside', hpinned', hsegNext.nodup⟩
      · have hend := heffect.popped hseg.contextOk hseg.nodup habove hin
        exact ⟨[], ⟨hend, fun _ hf => absurd hf List.not_mem_nil⟩, hbeside', hpinned',
          hsegNext.nodup⟩
    | cons second body =>
      have hin : .scope k :: start.tstate.stack <:+ next.tstate.stack := by
        have hnext := hfragment
        unfold inFragment at hnext
        rw [Bool.and_eq_true, List.isSuffixOf_iff_suffix] at hnext
        exact hnext.1
      obtain ⟨items', hinside'⟩ := hinside.step hseg heffect (havoid event List.mem_cons_self)
        (Or.inl rfl) hin
      have hseg' := hseg.step heffect ((List.suffix_cons _ _).trans hin)
      exact ih hstanding' hpinned' hseg' hinside' hbeside' hrun hfragment
        (fun e he => havoid e (List.mem_cons_of_mem _ he))
        (fun hq e he => hquiet hq e (List.mem_cons_of_mem _ he))

theorem Segment.fresh {below : List StackItem} {base : Context} (h : Segment below base m) :
    Segment m.tstate.stack m.context m :=
  ⟨h.circle, h.nodup, h.scopes, h.active, [], rfl, h.contextOk, rfl⟩

theorem Inside.single {below : List StackItem} {base : Context} (hseg : Segment below base m)
    {item : StackItem} {k : Nat} (hitem : item = .scope k ∨ item = .callback k)
    (hstack : m.tstate.stack = [item] ++ below)
    (hid : (m.tstate.space (m.scopes k).space).spaceId ≠ spaceId) :
    Inside spaceId below base m [item] := by
  obtain ⟨items, hitems, hd⟩ := hseg.items
  rw [hstack] at hitems
  rw [← List.append_cancel_right hitems] at hd
  refine ⟨hstack, hd, ⟨[], _, k, rfl, hitem⟩, ?_⟩
  intro j hj
  rw [mem_scopeIds, List.mem_singleton, List.mem_singleton] at hj
  have hjk : j = k := by
    obtain rfl | rfl := hitem
    · simpa using hj
    · simpa using hj
  rw [hjk]
  exact hid

theorem Inside.enter (quiet : Prop) {below : List StackItem} {base : Context}
    (hseg : Segment below base start)
    {k entered : Nat} {allocates : Bool} (hne : entered ≠ spaceId)
    (heffect : Effect start (.enterSpace k entered allocates) m) :
    m = start ∨ Inside spaceId start.tstate.stack start.context m [.scope k] ∧
      Segment start.tstate.stack start.context m ∧ Beside spaceId quiet start m := by
  have hstep := hseg.fresh.step heffect
  cases heffect with
  | enterFails unused => exact Or.inl rfl
  | enterSpace unused enters =>
    rename_i node mid t scope ptr
    right
    have hstack : (mid.push (.scope k)).tstate.stack = [.scope k] ++ start.tstate.stack :=
      congrArg _ enters.callbackState.1
    have hseg' := hstep (hstack ▸ List.suffix_append _ _)
    refine ⟨Inside.single hseg' (Or.inl rfl) hstack ?_, hseg', ?_⟩
    · change (mid.tstate.space (mid.scopes k).space).spaceId ≠ spaceId
      rw [enters.scope_spaceId]
      exact hne
    · exact (Beside.enterSpace hseg.circle enters hne).trans
        (Beside.sameSpaces enters.circle rfl rfl rfl rfl)

def rootOrdinal (m : Machine) (spaceId : Nat) : Option Nat :=
  (findThreadSpace m.tstate spaceId).map (fun s => (m.tstate.space s).rootCallOrdinal)

/-- What reads a space reads the same, and with `quiet` a delta does too. -/
structure Untouched (p : Platform) (spaceId : Nat) (quiet : Prop) (m m' : Machine) : Prop where
  coordinates : ∀ drop, Retrace.coordinates m' spaceId drop = Retrace.coordinates m spaceId drop
  hash : coordinateHash p m' spaceId = coordinateHash p m spaceId
  rootOrdinal : Retrace.rootOrdinal m' spaceId = Retrace.rootOrdinal m spaceId
  frame : ∀ s, findThreadSpace m.tstate spaceId = some s → ∀ f,
    (m.frames f).space = some (m.spacePtr s) → SameFrame quiet (m.frames f) (m'.frames f)
  lastDelta : quiet → ∀ s, findThreadSpace m.tstate spaceId = some s →
    (m'.tstate.space s).lastDeltaRootCallOrdinal = (m.tstate.space s).lastDeltaRootCallOrdinal
  delta : quiet → ∀ room tuple, (threadDeltaForTstate m' spaceId room tuple).1 =
    (threadDeltaForTstate m spaceId room tuple).1

theorem Away.untouched {items : List StackItem} (p : Platform)
    (haway : Away spaceId start.tstate.stack m items) (hbeside : Beside spaceId quiet start m)
    (hpinned : Pinned start.tstate) (hcallback : start.tstate.threadCallbackActive = false)
    (hpinned' : Pinned m.tstate) (hnodup' : m.tstate.stack.Nodup) :
    Untouched p spaceId quiet start m := by
  have hfound := hbeside.found
  have hview : ∀ s, findThreadSpace start.tstate spaceId = some s →
      SameView quiet s start m (threadStateFrame start s) (threadStateFrame m s) :=
    fun s hs => haway.sameView hbeside hpinned hcallback hpinned' hnodup' hs
  have hseen : ∀ s, findThreadSpace start.tstate spaceId = some s →
      (m.tstate.space s).seen = (start.tstate.space s).seen ∧
      (m.tstate.space s).rootCallOrdinal = (start.tstate.space s).rootCallOrdinal := by
    intro s hs
    have hspace := (hview s hs).space
    simp only [SpaceState.mk.injEq] at hspace
    exact ⟨hspace.2.1, hspace.2.2.2.1⟩
  refine ⟨?_, ?_, ?_, fun s hs f hf => hbeside.frame s hs f (Or.inr hf),
    fun hquiet s hs => (hview s hs).lastDelta hquiet, ?_⟩
  · intro drop
    unfold Retrace.coordinates
    rw [hfound]
    cases hs : findThreadSpace start.tstate spaceId with
    | none => rfl
    | some s =>
      dsimp only
      rw [(hseen s hs).1, coordinatesOf_eq, coordinatesOf_eq, (hview s hs).frameWords]
  · unfold coordinateHash
    rw [hfound]
    cases hs : findThreadSpace start.tstate spaceId with
    | none => rfl
    | some s =>
      dsimp only
      rw [(hseen s hs).1, (hview s hs).hash p]
  · unfold Retrace.rootOrdinal
    rw [hfound]
    cases hs : findThreadSpace start.tstate spaceId with
    | none => rfl
    | some s =>
      rw [Option.map_some, Option.map_some, (hseen s hs).2]
  · intro hquiet room tuple
    rw [threadDelta_answer, threadDelta_answer, hfound]
    cases hs : findThreadSpace start.tstate spaceId with
    | none => rfl
    | some s =>
      dsimp only
      rw [(hseen s hs).1, (hview s hs).frameWords]
      unfold deltaInitial
      rw [(hview s hs).lastDelta hquiet, (hseen s hs).2, (hview s hs).deltaScan hquiet]

/-- A fragment in another space leaves the coordinates, the hash and the root ordinal of the space
as they were, at every point. Unless it takes deltas of the space itself, the caches are as they
were too, and the next delta of the space is the one the fragment's start would have given. -/
theorem otherSpaces_unchanged {origin mid : Machine} {history body : List ThreadEvent}
    {other k : Nat} {allocates : Bool} (hidle : Idle origin)
    (hhistory : threadRun p history origin = some start)
    (hcallback : start.tstate.threadCallbackActive = false) (hne : spaceId ≠ other)
    (hentry : threadStep p start (.enterSpace k other allocates) = some mid)
    (hrun : threadRun p body mid = some m)
    (hfragment : inFragment p k start.tstate.stack body mid = true)
    (havoid : ∀ event ∈ body, event.enters ≠ some spaceId) :
    (∀ drop, coordinates m spaceId drop = coordinates start spaceId drop) ∧
    coordinateHash p m spaceId = coordinateHash p start spaceId ∧
    rootOrdinal m spaceId = rootOrdinal start spaceId ∧
    ((∀ event ∈ body, ¬event.takesDelta spaceId) →
      (∀ s, findThreadSpace start.tstate spaceId = some s →
        (m.tstate.space s).lastDeltaRootCallOrdinal =
          (start.tstate.space s).lastDeltaRootCallOrdinal ∧
        ∀ f, (start.frames f).space = some (start.spacePtr s) →
          (m.frames f).delta = (start.frames f).delta) ∧
      ∀ room tuple, (threadDeltaForTstate m spaceId room tuple).1 =
        (threadDeltaForTstate start spaceId room tuple).1) := by
  have hstanding := hidle.standing.run hhistory
  have hpinned := hidle.pinned.run hidle.standing hhistory
  obtain ⟨base, -, hseg⟩ := hstanding.segment
  obtain ⟨hstanding', heffect⟩ := hstanding.step hentry
  have hview : ∀ quiet : Prop, (quiet → ∀ event ∈ body, ¬event.takesDelta spaceId) →
      ∃ items, Away spaceId start.tstate.stack m items ∧ Beside spaceId quiet start m ∧
        Pinned m.tstate ∧ m.tstate.stack.Nodup := by
    intro quiet hquiet
    obtain heq | ⟨hinside, hseg', hbeside⟩ := Inside.enter quiet hseg (Ne.symm hne) heffect
    · subst heq
      cases body with
      | nil =>
        cases hrun
        exact ⟨[], ⟨rfl, fun _ hf => absurd hf List.not_mem_nil⟩, Beside.refl _ _ _, hpinned,
          hseg.nodup⟩
      | cons event body =>
        unfold inFragment at hfragment
        rw [Bool.and_eq_true, List.isSuffixOf_iff_suffix] at hfragment
        have hlen := hfragment.1.length_le
        rw [List.length_cons] at hlen
        omega
    · exact Inside.run hstanding' (hpinned.step heffect) hseg' hinside hbeside hrun hfragment
        havoid hquiet
  have huntouched : ∀ quiet : Prop, (quiet → ∀ event ∈ body, ¬event.takesDelta spaceId) →
      Untouched p spaceId quiet start m := by
    intro quiet hquiet
    obtain ⟨items, haway, hbeside, hpinned', hnodup'⟩ := hview quiet hquiet
    exact haway.untouched p hbeside hpinned hcallback hpinned' hnodup'
  have hloud := huntouched False False.elim
  refine ⟨hloud.coordinates, hloud.hash, hloud.rootOrdinal, ?_⟩
  intro hnone
  have hquiet := huntouched True (fun _ => hnone)
  exact ⟨fun s hs => ⟨hquiet.lastDelta trivial s hs,
    fun f hf => (hquiet.frame s hs f hf).2 trivial⟩, hquiet.delta trivial⟩

theorem otherSpaces_unchanged_visit :
    ∃ start m, threadRun ⟨true, true⟩ [.call 0 0 true true, .begin [] 0, .begin [] 4]
        (freshMachine ⟨true, true⟩ 0) = some start ∧
      threadRun ⟨true, true⟩ [.enterSpace 0 7 true, .call 1 0 true true, .begin [] 0,
        .threadDelta 7 true true, .leave 1, .leaveSpace] start = some m ∧
      coordinates start 0 0 = some [4, 0] ∧ coordinates m 0 0 = some [4, 0] := by
  obtain ⟨start, hstart⟩ : ∃ start, threadRun ⟨true, true⟩
      [.call 0 0 true true, .begin [] 0, .begin [] 4] (freshMachine ⟨true, true⟩ 0) =
        some start := ⟨_, rfl⟩
  obtain ⟨mid, hentry⟩ : ∃ mid, threadStep ⟨true, true⟩ start (.enterSpace 0 7 true) =
      some mid := by
    cases hstart
    exact ⟨_, rfl⟩
  obtain ⟨m, hrun⟩ : ∃ m, threadRun ⟨true, true⟩ [.call 1 0 true true, .begin [] 0,
      .threadDelta 7 true true, .leave 1, .leaveSpace] mid = some m := by
    cases hstart
    cases hentry
    exact ⟨_, rfl⟩
  have hcoordinates : coordinates start 0 0 = some [4, 0] := by
    cases hstart
    rfl
  have hsame : ∀ drop, coordinates m 0 drop = coordinates start 0 drop :=
    (otherSpaces_unchanged (freshMachine_idle ⟨true, true⟩ 0) hstart (by cases hstart; rfl)
      (by decide) hentry hrun (by cases hstart; cases hentry; rfl) (by decide)).1
  refine ⟨start, m, hstart, ?_, hcoordinates, (hsame 0).trans hcoordinates⟩
  rw [threadRun_cons, hentry]
  exact hrun

end fragment

end Retrace
