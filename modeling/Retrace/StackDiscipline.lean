import Retrace.ThreadEffects

/-!
What the frames and scopes on a thread's stack have saved: each one restores what the item below
it runs under.
-/

set_option autoImplicit false

namespace Retrace

structure ContextOk (m : Machine) (c : Context) : Prop where
  ptr : c.ptr ≠ none
  space : c.space < m.tstate.spaces.length
  id : (m.tstate.space c.space).spaceId = c.id

def frameContext (m : Machine) (f : Nat) (c : Context) : Context where
  ptr := (m.frames f).previousCallOrdinalPtr
  space := c.space
  id := c.id

def scopeContext (scope : SpaceScope) : Context where
  ptr := scope.previousCallOrdinalPtr
  space := scope.previousSpace
  id := scope.previousSpaceId

/-- A scope counts on its own slot, or on that of a frame of its space further down. -/
def ScopeSlot (m : Machine) (below : List StackItem) (k : Nat) (c : Context) : Prop :=
  c.space = (m.scopes k).space ∧
    if (m.scopes k).useLocalRoot then c.ptr = some (.scope k)
    else ∃ parent, c.ptr = some (.frame parent) ∧ .frame parent ∈ below ∧
      (m.frames parent).space = some (m.spacePtr c.space)

/-- The context a stack of items runs under, down to the base context below them. -/
def Disciplined (m : Machine) (below : List StackItem) (base : Context) :
    List StackItem → Context → Prop
  | [], c => ContextOk m c ∧ c = base
  | .frame f :: rest, c => ContextOk m c ∧ c.ptr = some (.frame f) ∧
      (m.frames f).space = some (m.spacePtr c.space) ∧
      Disciplined m below base rest (frameContext m f c)
  | .scope k :: rest, c => ContextOk m c ∧ ScopeSlot m (rest ++ below) k c ∧
      Disciplined m below base rest (scopeContext (m.scopes k))
  | .callback k :: rest, c => ContextOk m c ∧ ScopeSlot m (rest ++ below) k c ∧
      Disciplined m below base rest (scopeContext (m.scopes k))

/-- Everything the discipline of these items reads is unchanged; spaces may have been added. -/
structure SavedOn (items : List StackItem) (m m' : Machine) : Prop where
  address : m'.tstate.address = m.tstate.address
  frame : ∀ f, .frame f ∈ items → (m'.frames f).space = (m.frames f).space ∧
    (m'.frames f).previousCallOrdinalPtr = (m.frames f).previousCallOrdinalPtr
  scope : ∀ k ∈ scopeIds items, { m'.scopes k with localRootCallOrdinal := 0 } =
    { m.scopes k with localRootCallOrdinal := 0 }
  length : m.tstate.spaces.length ≤ m'.tstate.spaces.length
  spaceId : ∀ n < m.tstate.spaces.length,
    (m'.tstate.space n).spaceId = (m.tstate.space n).spaceId

section saved
variable {m m' : Machine} {items below : List StackItem} {base c : Context}

theorem SavedOn.trans {m'' : Machine} (h : SavedOn items m m') (h' : SavedOn items m' m'') :
    SavedOn items m m'' := by
  refine ⟨h'.address.trans h.address, ?_, ?_, Nat.le_trans h.length h'.length, ?_⟩
  · intro f hf
    exact ⟨(h'.frame f hf).1.trans (h.frame f hf).1, (h'.frame f hf).2.trans (h.frame f hf).2⟩
  · intro k hk
    exact (h'.scope k hk).trans (h.scope k hk)
  · intro n hn
    exact (h'.spaceId n (Nat.lt_of_lt_of_le hn h.length)).trans (h.spaceId n hn)

theorem SavedOn.setStack (h : SavedOn items m m') (stack : List StackItem) :
    SavedOn items m (m'.setStack stack) :=
  ⟨h.address, h.frame, h.scope, h.length, h.spaceId⟩

theorem SavedOn.refl (items : List StackItem) (m : Machine) : SavedOn items m m :=
  ⟨rfl, fun _ _ => ⟨rfl, rfl⟩, fun _ _ => rfl, Nat.le_refl _, fun _ _ => rfl⟩

theorem SavedOn.setCallback (h : SavedOn items m m') (active : Bool) (frame : Option Nat) :
    SavedOn items m (m'.setCallback active frame) :=
  ⟨h.address, h.frame, h.scope, h.length, h.spaceId⟩

theorem mem_scopeIds {k : Nat} {stack : List StackItem} :
    k ∈ scopeIds stack ↔ .scope k ∈ stack ∨ .callback k ∈ stack := by
  unfold scopeIds
  rw [List.mem_filterMap]
  constructor
  · rintro ⟨item, hmem, heq⟩
    cases item <;> simp_all
  · rintro (hmem | hmem)
    · exact ⟨_, hmem, rfl⟩
    · exact ⟨_, hmem, rfl⟩

theorem mem_frameChain {f : Nat} {stack : List StackItem} :
    f ∈ frameChain stack ↔ .frame f ∈ stack := by
  unfold frameChain
  rw [List.mem_filterMap]
  constructor
  · rintro ⟨item, hmem, heq⟩
    cases item <;> simp_all
  · intro hmem
    exact ⟨_, hmem, rfl⟩

theorem SavedOn.mono {items' : List StackItem} (h : SavedOn items m m')
    (hsub : ∀ item ∈ items', item ∈ items) : SavedOn items' m m' := by
  refine ⟨h.address, fun f hf => h.frame f (hsub _ hf), ?_, h.length, h.spaceId⟩
  intro k hk
  apply h.scope
  rw [mem_scopeIds] at hk ⊢
  exact hk.imp (hsub _) (hsub _)

theorem SavedOn.none (h : SavedOn items m m') : SavedOn [] m m' :=
  h.mono (fun _ hmem => absurd hmem List.not_mem_nil)

theorem ContextOk.congr (hc : ContextOk m c) (h : SavedOn items m m') : ContextOk m' c :=
  ⟨hc.ptr, Nat.lt_of_lt_of_le hc.space h.length, (h.spaceId c.space hc.space).trans hc.id⟩

theorem SavedOn.spacePtr (h : SavedOn items m m') (n : Nat) : m'.spacePtr n = m.spacePtr n := by
  unfold Machine.spacePtr
  rw [h.address]

theorem ScopeSlot.congr {k : Nat} (hs : ScopeSlot m below k c) (h : SavedOn items m m')
    (hk : k ∈ scopeIds items) (hbelow : ∀ item ∈ below, item ∈ items) :
    ScopeSlot m' below k c := by
  have hscope := h.scope k hk
  simp only [SpaceScope.mk.injEq] at hscope
  obtain ⟨-, -, -, hspace, -, -, hlocal⟩ := hscope
  unfold ScopeSlot at hs ⊢
  rw [hspace, hlocal]
  refine ⟨hs.1, ?_⟩
  obtain ⟨-, hs⟩ := hs
  split
  · rename_i hl
    rwa [if_pos hl] at hs
  · rename_i hl
    rw [if_neg hl] at hs
    obtain ⟨parent, hptr, hmem, hps⟩ := hs
    exact ⟨parent, hptr, hmem, by rw [(h.frame parent (hbelow _ hmem)).1, h.spacePtr, hps]⟩

theorem scopeContext_congr {k : Nat} (h : SavedOn items m m') (hk : k ∈ scopeIds items) :
    scopeContext (m'.scopes k) = scopeContext (m.scopes k) := by
  have hscope := h.scope k hk
  simp only [SpaceScope.mk.injEq] at hscope
  obtain ⟨h1, h2, h3, -, -, -, -⟩ := hscope
  unfold scopeContext
  rw [h1, h2, h3]

theorem Disciplined.congr (hd : Disciplined m below base items c)
    (h : SavedOn (items ++ below) m m') : Disciplined m' below base items c := by
  induction items generalizing c with
  | nil => exact ⟨hd.1.congr h, hd.2⟩
  | cons item rest ih =>
    have hrest : SavedOn (rest ++ below) m m' := h.mono (fun i hi => by
      rw [List.cons_append]
      exact List.mem_cons_of_mem _ hi)
    cases item with
    | frame f =>
      obtain ⟨hok, hptr, hspace, hd⟩ := hd
      have hf := h.frame f (by simp)
      refine ⟨hok.congr h, hptr, by rw [hf.1, h.spacePtr, hspace], ?_⟩
      have hctx : frameContext m' f c = frameContext m f c := by
        unfold frameContext
        rw [hf.2]
      rw [hctx]
      exact ih hd hrest
    | scope k =>
      obtain ⟨hok, hslot, hd⟩ := hd
      have hk : k ∈ scopeIds (.scope k :: rest ++ below) := mem_scopeIds.mpr (by simp)
      refine ⟨hok.congr h, hslot.congr h hk (fun i hi => List.mem_cons_of_mem _ hi), ?_⟩
      rw [scopeContext_congr h hk]
      exact ih hd hrest
    | callback k =>
      obtain ⟨hok, hslot, hd⟩ := hd
      have hk : k ∈ scopeIds (.callback k :: rest ++ below) := mem_scopeIds.mpr (by simp)
      refine ⟨hok.congr h, hslot.congr h hk (fun i hi => List.mem_cons_of_mem _ hi), ?_⟩
      rw [scopeContext_congr h hk]
      exact ih hd hrest

theorem Disciplined.contextOk (hd : Disciplined m below base items c) : ContextOk m c := by
  cases items with
  | nil => exact hd.1
  | cons item rest => cases item <;> exact hd.1

/-- Above a base, the slot is that of a frame of the context's space, or the top scope's own. -/
theorem Disciplined.slot (hd : Disciplined m below base items c) (hne : items ≠ []) :
    (∃ g, c.ptr = some (.frame g) ∧ .frame g ∈ items ++ below ∧
      (m.frames g).space = some (m.spacePtr c.space)) ∨
    ∃ k rest, c.ptr = some (.scope k) ∧ (items = .scope k :: rest ∨ items = .callback k :: rest) ∧
      c.space = (m.scopes k).space ∧ (m.scopes k).useLocalRoot = true := by
  have hscope : ∀ (item : StackItem) (rest : List StackItem) (k : Nat),
      ScopeSlot m (rest ++ below) k c → (item = .scope k ∨ item = .callback k) →
      (∃ g, c.ptr = some (.frame g) ∧ .frame g ∈ item :: rest ++ below ∧
        (m.frames g).space = some (m.spacePtr c.space)) ∨
      ∃ k' rest', c.ptr = some (.scope k') ∧
        (item :: rest = .scope k' :: rest' ∨ item :: rest = .callback k' :: rest') ∧
        c.space = (m.scopes k').space ∧ (m.scopes k').useLocalRoot = true := by
    intro item rest k hslot hitem
    obtain ⟨hspace, hslot⟩ := hslot
    split at hslot
    · rename_i hlocal
      refine Or.inr ⟨k, rest, hslot, ?_, hspace, hlocal⟩
      obtain rfl | rfl := hitem
      · exact Or.inl rfl
      · exact Or.inr rfl
    · obtain ⟨parent, hptr, hmem, hparent⟩ := hslot
      exact Or.inl ⟨parent, hptr, List.mem_cons_of_mem _ hmem, hparent⟩
  cases items with
  | nil => exact absurd rfl hne
  | cons item rest =>
    cases item with
    | frame f =>
      obtain ⟨-, hptr, hspace, -⟩ := hd
      exact Or.inl ⟨f, hptr, List.mem_cons_self, hspace⟩
    | scope k => exact hscope _ rest k hd.2.1 (Or.inl rfl)
    | callback k => exact hscope _ rest k hd.2.1 (Or.inr rfl)

end saved

/-- A stack whose items above `below` are disciplined over the context `base`. -/
structure Segment (below : List StackItem) (base : Context) (m : Machine) : Prop where
  circle : Circle m.tstate
  nodup : m.tstate.stack.Nodup
  scopes : (scopeIds m.tstate.stack).Nodup
  active : ∀ f, (m.frames f).space ≠ none ↔ .frame f ∈ m.tstate.stack
  items : ∃ items, m.tstate.stack = items ++ below ∧ Disciplined m below base items m.context

def ThreadEvent.enters : ThreadEvent → Option Nat
  | .enterSpace _ spaceId _ => some spaceId
  | .callbackBegin _ _ => some spaceIdDisabled
  | _ => none

/-- The events that can put an item on the stack. -/
def ThreadEvent.pushes : ThreadEvent → Bool
  | .call _ _ _ _ => true
  | .resume _ _ _ => true
  | .enterSpace _ _ _ => true
  | .callbackBegin _ _ => true
  | _ => false

/-- An event of a disciplined thread, with what it does spelled out. -/
inductive Effect (m : Machine) : ThreadEvent → Machine → Prop
  | call {f firstTraceable : Nat} {evalEntry allocates : Bool} (off : .frame f ∉ m.tstate.stack)
      (limit : m.chain.length < recursionLimit) :
      Effect m (.call f firstTraceable evalEntry allocates)
        (m.pushFrame f (newFrame (-1) firstTraceable))
  | resume {f : Nat} {evalEntry allocates : Bool} (off : .frame f ∉ m.tstate.stack)
      (limit : m.chain.length < recursionLimit) :
      Effect m (.resume f evalEntry allocates)
        (m.pushFrame f (if evalEntry then resetLastCoordinate (m.frames f) else m.frames f))
  | newGenerator {g lasti : Nat} (off : .frame g ∉ m.tstate.stack) :
      Effect m (.newGenerator g lasti) (m.setFrame g (newFrame lasti 0))
  | begin {jumps : List (Int × Int)} {offset f : Nat} {rest : List StackItem}
      (top : m.tstate.stack = .frame f :: rest) :
      Effect m (.begin jumps offset)
        (m.setFrame f (Machine.begunFrame (moveFrame (m.frames f) jumps offset)))
  | leave {again f node : Nat} {ptr : OrdinalPtr} {rest : List StackItem}
      (top : m.tstate.stack = .frame f :: rest)
      (current : m.tstate.callOrdinalPtr = some (.frame f))
      (space : (m.frames f).space = some (m.spacePtr node))
      (node_eq : node = m.tstate.currentSpace)
      (previous : (m.frames f).previousCallOrdinalPtr = some ptr) (ne : ptr ≠ .frame f) :
      Effect m (.leave again) (m.popFrame f node ptr rest)
  | leaveInactive {f : Nat} : Effect m (.leaveInactive f) m
  | enterFails {k spaceId : Nat} {allocates : Bool} (unused : k ∉ scopeIds m.tstate.stack) :
      Effect m (.enterSpace k spaceId allocates) m
  | enterSpace {k spaceId node : Nat} {allocates : Bool} {m' : Machine} {t : ThreadState}
      {scope : SpaceScope} {ptr : OrdinalPtr} (unused : k ∉ scopeIds m.tstate.stack)
      (enters : EntersSpace m k spaceId m' node t scope ptr) :
      Effect m (.enterSpace k spaceId allocates) (m'.push (.scope k))
  | leaveSpace {k : Nat} {rest : List StackItem} (top : m.tstate.stack = .scope k :: rest) :
      Effect m .leaveSpace ((leaveSpace m k).setStack rest)
  | callbackFails {k : Nat} {allocates : Bool} (unused : k ∉ scopeIds m.tstate.stack)
      (idle : m.tstate.threadCallbackActive = false) :
      Effect m (.callbackBegin k allocates)
        (m.setCallback false none)
  | callbackBegin {f k node : Nat} {allocates : Bool} {rest : List StackItem} {m' : Machine}
      {t : ThreadState} {scope : SpaceScope} {ptr : OrdinalPtr}
      (top : m.tstate.stack = .frame f :: rest) (unused : k ∉ scopeIds m.tstate.stack)
      (idle : m.tstate.threadCallbackActive = false)
      (enters : EntersSpace (m.setCallback true (some f)) k spaceIdDisabled m' node t scope ptr) :
      Effect m (.callbackBegin k allocates) (m'.push (.callback k))
  | callbackEnd {k : Nat} {rest : List StackItem} (top : m.tstate.stack = .callback k :: rest) :
      Effect m .callbackEnd (((leaveSpace m k).setStack rest).setCallback false none)
  | threadDelta {spaceId : Nat} {allocates tupleAllocates : Bool} :
      Effect m (.threadDelta spaceId allocates tupleAllocates)
        (threadDeltaForTstate m spaceId allocates tupleAllocates).2

section steps
variable {p : Platform} {m m' : Machine} {below : List StackItem} {base : Context}

theorem Disciplined.ptr_live {items : List StackItem} {c : Context}
    (hd : Disciplined m [] base items c) :
    c.ptr = base.ptr ∨ (∃ f, c.ptr = some (.frame f) ∧ .frame f ∈ items) ∨
      ∃ k, c.ptr = some (.scope k) ∧ k ∈ scopeIds items := by
  cases items with
  | nil =>
    left
    rw [hd.2]
  | cons item rest =>
    right
    cases item with
    | frame f => exact Or.inl ⟨f, hd.2.1, List.mem_cons_self⟩
    | scope k =>
      obtain ⟨-, ⟨-, hslot⟩, -⟩ := hd
      split at hslot
      · exact Or.inr ⟨k, hslot, mem_scopeIds.mpr (by simp)⟩
      · obtain ⟨parent, hptr, hmem, -⟩ := hslot
        rw [List.append_nil] at hmem
        exact Or.inl ⟨parent, hptr, List.mem_cons_of_mem _ hmem⟩
    | callback k =>
      obtain ⟨-, ⟨-, hslot⟩, -⟩ := hd
      split at hslot
      · exact Or.inr ⟨k, hslot, mem_scopeIds.mpr (by simp)⟩
      · obtain ⟨parent, hptr, hmem, -⟩ := hslot
        rw [List.append_nil] at hmem
        exact Or.inl ⟨parent, hptr, List.mem_cons_of_mem _ hmem⟩

theorem scopeIds_cons_frame (f : Nat) (rest : List StackItem) :
    scopeIds (.frame f :: rest) = scopeIds rest := rfl

theorem scopeIds_cons_scope (k : Nat) (rest : List StackItem) :
    scopeIds (.scope k :: rest) = k :: scopeIds rest := rfl

theorem scopeIds_cons_callback (k : Nat) (rest : List StackItem) :
    scopeIds (.callback k :: rest) = k :: scopeIds rest := rfl

theorem Disciplined.scope_space {items : List StackItem} {c : Context}
    (hd : Disciplined m below base items c) {k : Nat}
    (hk : k ∈ scopeIds items) : (m.scopes k).space < m.tstate.spaces.length := by
  induction items generalizing c with
  | nil => cases hk
  | cons item rest ih =>
    cases item with
    | frame f => exact ih hd.2.2.2 hk
    | scope j =>
      rw [scopeIds_cons_scope, List.mem_cons] at hk
      obtain rfl | hk := hk
      · exact hd.2.1.1 ▸ hd.1.space
      · exact ih hd.2.2 hk
    | callback j =>
      rw [scopeIds_cons_callback, List.mem_cons] at hk
      obtain rfl | hk := hk
      · exact hd.2.1.1 ▸ hd.1.space
      · exact ih hd.2.2 hk

theorem SavedOn.scope_spaceId {items : List StackItem} (h : SavedOn items m m') {k : Nat}
    (hk : k ∈ scopeIds items)
    (hlt : (m.scopes k).space < m.tstate.spaces.length) :
    (m'.tstate.space (m'.scopes k).space).spaceId = (m.tstate.space (m.scopes k).space).spaceId := by
  have hscope := h.scope k hk
  simp only [SpaceScope.mk.injEq] at hscope
  rw [hscope.2.2.2.1]
  exact h.spaceId _ hlt

theorem Segment.contextOk (h : Segment below base m) : ContextOk m m.context := by
  obtain ⟨items, -, hd⟩ := h.items
  exact hd.contextOk

theorem Segment.scope_lt (h : Segment [] base m) {k : Nat} (hk : k ∈ scopeIds m.tstate.stack) :
    (m.scopes k).space < m.tstate.spaces.length := by
  obtain ⟨items, hitems, hd⟩ := h.items
  rw [List.append_nil] at hitems
  exact hd.scope_space (hitems ▸ hk)

theorem Segment.off (h : Segment below base m) {f : Nat} (hf : .frame f ∉ m.tstate.stack) :
    (m.frames f).space = none := by
  by_contra hne
  exact hf ((h.active f).mp hne)

theorem enterFrame_new (f firstTraceable : Nat) (evalEntry allocates : Bool)
    (hid : (m.tstate.space m.tstate.currentSpace).spaceId = m.tstate.inheritedSpaceId) :
    enterFrame p (m.setFrame f (newFrame (-1) firstTraceable)) f evalEntry allocates =
      m.pushFrame f (newFrame (-1) firstTraceable) := by
  have hreset : resetLastCoordinate (newFrame (-1) firstTraceable) =
      newFrame (-1) firstTraceable := rfl
  rw [enterFrame_eq (p := p) (m := m.setFrame f (newFrame (-1) firstTraceable)) f evalEntry
    allocates (by simp [Machine.setFrame, newFrame]) hid]
  simp [Machine.setFrame, Machine.pushFrame, Machine.activatedFrame, Machine.spacePtr, hreset]

theorem Segment.leave (h : Segment [] base m) (hbase : ∃ n, base.ptr = some (.root n))
    {f : Nat} {rest : List StackItem} (htop : m.tstate.stack = .frame f :: rest) (again : Nat) :
    Effect m (.leave again) ((deactivateTimes m f (again + 1)).setStack rest) := by
  obtain ⟨items, hitems, hd⟩ := h.items
  rw [List.append_nil] at hitems
  rw [← hitems, htop] at hd
  obtain ⟨-, hcurrent, hspace, hrest⟩ := hd
  obtain ⟨ptr, hprevious⟩ := Option.ne_none_iff_exists'.mp hrest.contextOk.ptr
  have hne : ptr ≠ .frame f := by
    intro heq
    rw [heq] at hprevious
    have hnodup := h.nodup
    rw [htop, List.nodup_cons] at hnodup
    obtain hbaseptr | ⟨g, hg, hmem⟩ | ⟨k, hk, -⟩ := hrest.ptr_live
    · obtain ⟨n, hn⟩ := hbase
      rw [hprevious, hn] at hbaseptr
      cases hbaseptr
    · rw [hprevious] at hg
      cases hg
      exact hnodup.1 hmem
    · rw [hprevious] at hk
      cases hk
  rw [deactivateTimes_eq h.circle hspace h.contextOk.space hcurrent hprevious hne]
  exact .leave htop hcurrent hspace rfl hprevious hne

theorem Segment.callbackBegin (h : Segment [] base m) {f k : Nat} {rest : List StackItem}
    (htop : m.tstate.stack = .frame f :: rest) (hunused : k ∉ scopeIds m.tstate.stack)
    (hidle : m.tstate.threadCallbackActive = false) (allocates : Bool) :
    Effect m (.callbackBegin k allocates) (Retrace.callbackBegin p m f k allocates) := by
  unfold Retrace.callbackBegin
  dsimp only
  split
  · exact .callbackFails hunused hidle
  · rename_i entered henter
    have hcircle : Circle (m.setCallback true (some f)).tstate :=
      h.circle.congr rfl rfl (fun _ _ => ⟨rfl, rfl⟩)
    obtain ⟨node, t, scope, ptr, henters⟩ := enterSpace_entersSpace hcircle henter
    exact .callbackBegin htop hunused hidle henters

theorem Segment.effect (h : Segment [] base m) (hbase : ∃ n, base.ptr = some (.root n))
    {event : ThreadEvent} (hstep : threadStep p m event = some m') : Effect m event m' := by
  have hcontext := h.contextOk
  cases event with
  | call f firstTraceable evalEntry allocates =>
    simp only [threadStep] at hstep
    split at hstep
    · cases hstep
    · rename_i hallowed
      rw [not_or, Nat.not_le] at hallowed
      rw [enterFrame_new f firstTraceable evalEntry allocates hcontext.id] at hstep
      cases hstep
      exact .call hallowed.1 hallowed.2
  | resume f evalEntry allocates =>
    simp only [threadStep] at hstep
    split at hstep
    · cases hstep
    · rename_i hallowed
      rw [not_or, Nat.not_le] at hallowed
      rw [enterFrame_eq f evalEntry allocates (h.off hallowed.1) hcontext.id] at hstep
      cases hstep
      exact .resume hallowed.1 hallowed.2
  | newGenerator g lasti =>
    simp only [threadStep] at hstep
    split at hstep
    · cases hstep
    · rename_i hoff
      cases hstep
      exact .newGenerator hoff
  | begin jumps offset =>
    simp only [threadStep] at hstep
    split at hstep
    · rename_i f rest htop
      rw [resetCallOrdinal_setFrame] at hstep
      cases hstep
      exact .begin htop
    · cases hstep
  | leave again =>
    simp only [threadStep] at hstep
    split at hstep
    · rename_i f rest htop
      cases hstep
      exact h.leave hbase htop again
    · cases hstep
  | leaveInactive f =>
    simp only [threadStep] at hstep
    split at hstep
    · cases hstep
    · rename_i hoff
      rw [deactivateFrame_inactive (h.off hoff)] at hstep
      cases hstep
      exact .leaveInactive
  | enterSpace k spaceId allocates =>
    simp only [threadStep] at hstep
    split at hstep
    · cases hstep
    · rename_i hunused
      split at hstep
      · cases hstep
        exact .enterFails hunused
      · rename_i entered henter
        cases hstep
        obtain ⟨node, t, scope, ptr, henters⟩ := enterSpace_entersSpace h.circle henter
        exact .enterSpace hunused henters
  | leaveSpace =>
    simp only [threadStep] at hstep
    split at hstep
    · rename_i k rest htop
      cases hstep
      exact .leaveSpace htop
    · cases hstep
  | callbackBegin k allocates =>
    simp only [threadStep] at hstep
    split at hstep
    · rename_i f rest htop
      split at hstep
      · cases hstep
      · rename_i hallowed
        rw [not_or] at hallowed
        cases hstep
        exact h.callbackBegin htop hallowed.1 (by simpa using hallowed.2) allocates
    · cases hstep
  | callbackEnd =>
    simp only [threadStep] at hstep
    split at hstep
    · rename_i k rest htop
      cases hstep
      exact .callbackEnd htop
    · cases hstep
  | threadDelta spaceId allocates tupleAllocates =>
    cases hstep
    exact .threadDelta

theorem savedOn_pushFrame {items : List StackItem} {f : Nat} (frame : InterpreterFrame)
    (hf : .frame f ∉ items) : SavedOn items m (m.pushFrame f frame) := by
  refine ⟨rfl, ?_, fun _ _ => rfl, by simp [Machine.pushFrame], ?_⟩
  · intro g hg
    have hne : g ≠ f := by
      intro heq
      exact hf (heq ▸ hg)
    rw [pushFrame_frames, if_neg hne]
    exact ⟨rfl, rfl⟩
  · intro n hn
    rw [pushFrame_space m f frame hn]
    split <;> rfl

theorem savedOn_popFrame {items : List StackItem} {f node : Nat} {ptr : OrdinalPtr}
    (rest : List StackItem) (hne : ptr ≠ .frame f) (hf : .frame f ∉ items) :
    SavedOn items m (m.popFrame f node ptr rest) := by
  refine ⟨popFrame_address m f node ptr rest, ?_, ?_,
    Nat.le_of_eq (popFrame_length m f node ptr rest).symm, ?_⟩
  · intro g hg
    have hgf : g ≠ f := by
      intro heq
      exact hf (heq ▸ hg)
    rw [popFrame_frames m f node ptr rest hne, if_neg hgf]
    split <;> exact ⟨rfl, rfl⟩
  · intro k _
    rw [popFrame_scopes]
    split <;> rfl
  · intro n hn
    rw [popFrame_space m f node ptr rest hn]

theorem savedOn_enterSpace {items : List StackItem} {k spaceId node : Nat} {t : ThreadState}
    {scope : SpaceScope} {ptr : OrdinalPtr} (h : EntersSpace m k spaceId m' node t scope ptr)
    (hk : k ∉ scopeIds items) : SavedOn items m m' := by
  have hsame := h.grown.same
  have hresult := h.result
  subst hresult
  refine ⟨by rw [hsame], fun _ _ => ⟨rfl, rfl⟩, ?_, h.grown.length, ?_⟩
  · intro j hj
    have hne : j ≠ k := by
      intro heq
      exact hk (heq ▸ hj)
    simp [Function.update_of_ne hne]
  · intro n hn
    change (t.space n).spaceId = _
    rw [h.grown.space n hn]

theorem savedOn_leaveSpace (items : List StackItem) (m : Machine) (k : Nat) :
    SavedOn items m (leaveSpace m k) := by
  refine ⟨leaveSpace_address m k, ?_, fun j _ => leaveSpace_scopes m k j,
    Nat.le_of_eq (leaveSpace_length m k).symm, ?_⟩
  · intro f _
    rw [leaveSpace_frames]
    exact ⟨rfl, rfl⟩
  · intro n hn
    rw [leaveSpace_space m k hn]

theorem savedOn_setFrame (items : List StackItem) (m : Machine) (f : Nat) {frame : InterpreterFrame}
    (hspace : .frame f ∈ items → frame.space = (m.frames f).space)
    (hprev : .frame f ∈ items → frame.previousCallOrdinalPtr = (m.frames f).previousCallOrdinalPtr) :
    SavedOn items m (m.setFrame f frame) := by
  refine ⟨rfl, ?_, fun _ _ => rfl, Nat.le_refl _, fun _ _ => rfl⟩
  intro g hg
  rw [setFrame_frames]
  split
  · rename_i heq
    subst heq
    exact ⟨hspace hg, hprev hg⟩
  · exact ⟨rfl, rfl⟩

theorem begunFrame_saved (frame : InterpreterFrame) (jumps : List (Int × Int)) (offset : Nat) :
    (Machine.begunFrame (moveFrame frame jumps offset)).space = frame.space ∧
      (Machine.begunFrame (moveFrame frame jumps offset)).previousCallOrdinalPtr =
        frame.previousCallOrdinalPtr := by
  obtain ⟨bias, hbias⟩ := moveFrame_eq frame jumps offset
  rw [hbias]
  unfold Machine.begunFrame
  split <;> exact ⟨rfl, rfl⟩

theorem rememberDelta_saved (m : Machine) (node f : Nat) :
    ((rememberDelta m node).frames f).space = (m.frames f).space ∧
      ((rememberDelta m node).frames f).previousCallOrdinalPtr =
        (m.frames f).previousCallOrdinalPtr ∧
      ((rememberDelta m node).frames f).currentCallOrdinal = (m.frames f).currentCallOrdinal := by
  rw [rememberDelta_frames]
  split <;> exact ⟨rfl, rfl, rfl⟩

theorem savedOn_rememberDelta (items : List StackItem) (m : Machine) (node : Nat) :
    SavedOn items m (rememberDelta m node) := by
  refine ⟨rfl, ?_, fun _ _ => rfl, Nat.le_of_eq (rememberDelta_length m node).symm, ?_⟩
  · intro f _
    obtain ⟨hspace, hprev, -⟩ := rememberDelta_saved m node f
    exact ⟨hspace, hprev⟩
  · intro n hn
    rw [rememberDelta_space m node hn]
    split <;> rfl

theorem Segment.quiet (h : Segment below base m) (hcircle : Circle m'.tstate)
    (hstack : m'.tstate.stack = m.tstate.stack) (hcontext : m'.context = m.context)
    (hactive : ∀ f, (m'.frames f).space ≠ none ↔ (m.frames f).space ≠ none)
    (hsaved : SavedOn m.tstate.stack m m') : Segment below base m' := by
  obtain ⟨items, hitems, hd⟩ := h.items
  refine ⟨hcircle, hstack ▸ h.nodup, hstack ▸ h.scopes, ?_, items, hstack ▸ hitems, ?_⟩
  · intro f
    rw [hactive f, hstack]
    exact h.active f
  · rw [hcontext]
    exact hd.congr (hitems ▸ hsaved)

theorem Segment.setCallback (h : Segment below base m) (active : Bool) (frame : Option Nat) :
    Segment below base (m.setCallback active frame) :=
  h.quiet (h.circle.congr rfl rfl (fun _ _ => ⟨rfl, rfl⟩)) rfl rfl (fun _ => Iff.rfl)
    ((SavedOn.refl _ m).setCallback active frame)

theorem Segment.pushFrame (h : Segment below base m) {f : Nat} (frame : InterpreterFrame)
    (hoff : .frame f ∉ m.tstate.stack) : Segment below base (m.pushFrame f frame) := by
  obtain ⟨items, hitems, hd⟩ := h.items
  have hcontext := h.contextOk
  have hsaved : SavedOn m.tstate.stack m (m.pushFrame f frame) := savedOn_pushFrame frame hoff
  have hframe : (m.pushFrame f frame).frames f = m.activatedFrame frame := by
    rw [pushFrame_frames, if_pos rfl]
  refine ⟨pushFrame_circle m h.circle f frame, ?_, h.scopes, ?_, .frame f :: items, ?_, ?_⟩
  · exact List.nodup_cons.mpr ⟨hoff, h.nodup⟩
  · intro g
    change _ ↔ .frame g ∈ StackItem.frame f :: m.tstate.stack
    rw [pushFrame_frames, List.mem_cons]
    by_cases hg : g = f
    · simp [hg, Machine.activatedFrame]
    · simp [hg, h.active g]
  · change StackItem.frame f :: m.tstate.stack = _
    rw [hitems, List.cons_append]
  · refine ⟨?_, rfl, ?_, ?_⟩
    · refine ⟨by simp [Machine.context, Machine.pushFrame], ?_, ?_⟩
      · rw [pushFrame_length]
        exact hcontext.space
      · exact (hsaved.spaceId _ hcontext.space).trans hcontext.id
    · rw [hframe]
      rfl
    · have hbelow : frameContext (m.pushFrame f frame) f (m.pushFrame f frame).context =
          m.context := by
        unfold frameContext
        rw [hframe]
        rfl
      rw [hbelow]
      exact hd.congr (hitems ▸ hsaved)

theorem Segment.popFrame (h : Segment below base m) {f node : Nat} {ptr : OrdinalPtr}
    {rest : List StackItem} (htop : m.tstate.stack = .frame f :: rest)
    (hprevious : (m.frames f).previousCallOrdinalPtr = some ptr) (hne : ptr ≠ .frame f)
    (hbelow : below <:+ rest) : Segment below base (m.popFrame f node ptr rest) := by
  obtain ⟨items, hitems, hd⟩ := h.items
  have hnodup := h.nodup
  have hscopes := h.scopes
  rw [htop, List.nodup_cons] at hnodup
  rw [htop, scopeIds_cons_frame] at hscopes
  cases items with
  | nil =>
    rw [htop, List.nil_append] at hitems
    have hlen := hbelow.length_le
    rw [← hitems, List.length_cons] at hlen
    omega
  | cons item upper =>
    rw [htop, List.cons_append, List.cons.injEq] at hitems
    obtain ⟨rfl, hrest⟩ := hitems
    obtain ⟨-, -, -, hd⟩ := hd
    have hsaved : SavedOn rest m (m.popFrame f node ptr rest) := savedOn_popFrame rest hne hnodup.1
    refine ⟨popFrame_circle m h.circle f node ptr rest, ?_, ?_, ?_, upper, ?_, ?_⟩
    · rw [popFrame_stack]
      exact hnodup.2
    · rw [popFrame_stack]
      exact hscopes
    · intro g
      have hg := h.active g
      rw [htop, List.mem_cons] at hg
      rw [popFrame_stack, popFrame_frames m f node ptr rest hne]
      by_cases hgf : g = f
      · simp [hgf, Machine.deactivatedFrame, hnodup.1]
      · rw [if_neg hgf]
        simp only [StackItem.frame.injEq, hgf, false_or] at hg
        rw [← hg]
        split <;> rfl
    · rw [popFrame_stack]
      exact hrest
    · have hcontext : (m.popFrame f node ptr rest).context = frameContext m f m.context := by
        rw [popFrame_context]
        unfold frameContext
        rw [hprevious]
        rfl
      rw [hcontext]
      exact hd.congr (hrest ▸ hsaved)

theorem chainFrom_sub {f g : Nat} {chain : List Nat} (h : g ∈ chainFrom f chain) : g ∈ chain :=
  (List.dropWhile_suffix _).subset h

theorem currentThreadFrame_sub {g : Nat} (h : g ∈ currentThreadFrame m) : g ∈ m.chain := by
  unfold currentThreadFrame Machine.callbackChain at h
  split at h
  · split at h
    · cases h
    · exact chainFrom_sub h
  · exact h

theorem EntersSpace.scopeSlot {k spaceId node : Nat} {t : ThreadState} {scope : SpaceScope}
    {ptr : OrdinalPtr} (h : EntersSpace m k spaceId m' node t scope ptr) :
    ScopeSlot m' m.tstate.stack k m'.context := by
  have hslot := h.slot
  have hresult := h.result
  have hsame := h.grown.same
  subst hresult
  unfold ScopeSlot Machine.context
  simp only [Function.update_self, h.space, true_and]
  cases hnear : nearestVisibleFrameInSpace m (m.spacePtr node)
      (currentThreadFrame (m.setTstate t)) with
  | none =>
    rw [hnear] at hslot
    rw [if_pos hslot.1, hslot.2.1]
  | some parent =>
    rw [hnear] at hslot
    rw [if_neg (by simp [hslot.1]), hslot.2.1]
    refine ⟨parent, rfl, ?_, ?_⟩
    · have hmem := currentThreadFrame_sub (List.mem_of_find?_eq_some hnear)
      have hstack : (m.setTstate t).tstate.stack = m.tstate.stack := by
        change t.stack = _
        rw [hsame]
      unfold Machine.chain at hmem
      rw [hstack] at hmem
      exact mem_frameChain.mp hmem
    · have hspace := visibleIn_space (List.find?_some hnear)
      have haddress : t.address = m.tstate.address := by rw [hsame]
      rw [hspace]
      unfold Machine.spacePtr
      rw [haddress]

theorem Segment.enterSpace (h : Segment below base m) {k spaceId node : Nat} {t : ThreadState}
    {scope : SpaceScope} {ptr : OrdinalPtr} (henters : EntersSpace m k spaceId m' node t scope ptr)
    (hk : k ∉ scopeIds m.tstate.stack) {item : StackItem}
    (hitem : item = .scope k ∨ item = .callback k) : Segment below base (m'.push item) := by
  obtain ⟨items, hitems, hd⟩ := h.items
  have hsaved := savedOn_enterSpace henters hk
  have hslot := henters.scopeSlot
  have hfound := henters.grown.circle.find_some henters.found
  have hsame := henters.grown.same
  have hsavedFields := henters.saved
  have hresult := henters.result
  have hstack : (m'.push item).tstate.stack = item :: m.tstate.stack := by
    rw [hresult, hsame]
    rfl
  have hids : scopeIds (item :: m.tstate.stack) = k :: scopeIds m.tstate.stack := by
    obtain rfl | rfl := hitem <;> rfl
  have hsavedPush : SavedOn m.tstate.stack m (m'.push item) := hsaved.setStack _
  have hrest : Disciplined (m'.push item) below base items
      (scopeContext ((m'.push item).scopes k)) := by
    have hctx : scopeContext ((m'.push item).scopes k) = m.context := by
      rw [hresult]
      change scopeContext (Function.update m.scopes k scope k) = _
      rw [Function.update_self]
      unfold scopeContext Machine.context
      rw [hsavedFields.1, hsavedFields.2.1, hsavedFields.2.2]
    rw [hctx]
    exact hd.congr (hitems ▸ hsavedPush)
  have hok : ContextOk (m'.push item) (m'.push item).context := by
    rw [hresult]
    exact ⟨by simp [Machine.context, Machine.push, Machine.setStack], hfound.1, hfound.2⟩
  have hslotPush : ScopeSlot (m'.push item) (items ++ below) k (m'.push item).context := by
    rw [← hitems]
    exact hslot
  refine ⟨?_, ?_, ?_, ?_, item :: items, ?_, ?_⟩
  · rw [hresult]
    exact henters.grown.circle.congr rfl rfl (fun _ _ => ⟨rfl, rfl⟩)
  · rw [hstack, List.nodup_cons]
    refine ⟨?_, h.nodup⟩
    intro hmem
    apply hk
    rw [mem_scopeIds]
    obtain rfl | rfl := hitem
    · exact Or.inl hmem
    · exact Or.inr hmem
  · rw [hstack, hids]
    exact List.nodup_cons.mpr ⟨hk, h.scopes⟩
  · intro f
    have hframes : (m'.push item).frames f = m.frames f := by
      rw [hresult]
      rfl
    rw [hstack, hframes, h.active f]
    obtain rfl | rfl := hitem <;> simp
  · rw [hstack, hitems, List.cons_append]
  · obtain rfl | rfl := hitem
    · exact ⟨hok, hslotPush, hrest⟩
    · exact ⟨hok, hslotPush, hrest⟩

theorem leaveSpace_context (m : Machine) (k : Nat) :
    (leaveSpace m k).context = scopeContext (m.scopes k) := by
  unfold Machine.context
  rw [leaveSpace_tstate]
  rfl

theorem Segment.leaveSpace (h : Segment below base m) {k : Nat} {item : StackItem}
    {rest : List StackItem} (htop : m.tstate.stack = item :: rest)
    (hitem : item = .scope k ∨ item = .callback k) (hbelow : below <:+ rest) :
    Segment below base ((leaveSpace m k).setStack rest) := by
  obtain ⟨items, hitems, hd⟩ := h.items
  have hnodup := h.nodup
  have hscopes := h.scopes
  have hsaved : SavedOn rest m ((Retrace.leaveSpace m k).setStack rest) :=
    (savedOn_leaveSpace rest m k).setStack rest
  rw [htop, List.nodup_cons] at hnodup
  cases items with
  | nil =>
    rw [htop, List.nil_append] at hitems
    have hlen := hbelow.length_le
    rw [← hitems, List.length_cons] at hlen
    omega
  | cons upperItem upper =>
    rw [htop, List.cons_append, List.cons.injEq] at hitems
    obtain ⟨rfl, hrest⟩ := hitems
    have hd' : Disciplined m below base upper (scopeContext (m.scopes k)) := by
      obtain rfl | rfl := hitem
      · exact hd.2.2
      · exact hd.2.2
    refine ⟨?_, hnodup.2, ?_, ?_, upper, hrest, ?_⟩
    · exact (leaveSpace_circle m h.circle k).congr rfl rfl (fun _ _ => ⟨rfl, rfl⟩)
    · change (scopeIds rest).Nodup
      rw [htop] at hscopes
      obtain rfl | rfl := hitem
      · exact (List.nodup_cons.mp hscopes).2
      · exact (List.nodup_cons.mp hscopes).2
    · intro f
      change ((Retrace.leaveSpace m k).frames f).space ≠ none ↔ .frame f ∈ rest
      rw [leaveSpace_frames, h.active f, htop]
      obtain rfl | rfl := hitem <;> simp
    · have hcontext : ((Retrace.leaveSpace m k).setStack rest).context =
          scopeContext (m.scopes k) := leaveSpace_context m k
      rw [hcontext]
      exact hd'.congr (hrest ▸ hsaved)

theorem Segment.step (h : Segment below base m) {event : ThreadEvent} (heffect : Effect m event m')
    (hbelow : below <:+ m'.tstate.stack) : Segment below base m' := by
  cases heffect with
  | call off limit => exact h.pushFrame _ off
  | resume off limit => exact h.pushFrame _ off
  | newGenerator off =>
    refine h.quiet (h.circle.congr rfl rfl (fun _ _ => ⟨rfl, rfl⟩)) rfl rfl ?_
      (savedOn_setFrame _ m _ (fun hmem => absurd hmem off) (fun hmem => absurd hmem off))
    intro f
    rw [setFrame_frames]
    split
    · rename_i heq
      rw [heq, h.off off]
      rfl
    · rfl
  | begin top =>
    obtain ⟨hspace, hprev⟩ := begunFrame_saved (m.frames _) _ _
    refine h.quiet (h.circle.congr rfl rfl (fun _ _ => ⟨rfl, rfl⟩)) rfl rfl ?_
      (savedOn_setFrame _ m _ (fun _ => hspace) (fun _ => hprev))
    intro f
    rw [setFrame_frames]
    split
    · rename_i heq
      rw [heq, hspace]
    · rfl
  | leave top current space node_eq previous ne =>
    rw [popFrame_stack] at hbelow
    exact h.popFrame top previous ne hbelow
  | leaveInactive => exact h
  | enterFails unused => exact h
  | enterSpace unused enters => exact h.enterSpace enters unused (Or.inl rfl)
  | leaveSpace top => exact h.leaveSpace top (Or.inl rfl) hbelow
  | callbackFails unused idle => exact h.setCallback false none
  | callbackBegin top unused idle enters =>
    exact (h.setCallback true _).enterSpace enters unused (Or.inr rfl)
  | callbackEnd top => exact (h.leaveSpace top (Or.inr rfl) hbelow).setCallback false none
  | threadDelta =>
    rename_i spaceId allocates tupleAllocates
    obtain heq | ⟨node, -, heq⟩ := threadDelta_cases m spaceId allocates tupleAllocates
    · rw [heq]
      exact h
    · rw [heq]
      refine h.quiet (rememberDelta_circle m h.circle node) rfl rfl ?_
        (savedOn_rememberDelta m.tstate.stack m node)
      intro f
      rw [(rememberDelta_saved m node f).1]

theorem EntersSpace.callbackState {k spaceId node : Nat} {t : ThreadState} {scope : SpaceScope}
    {ptr : OrdinalPtr} (h : EntersSpace m k spaceId m' node t scope ptr) :
    m'.tstate.stack = m.tstate.stack ∧
      m'.tstate.threadCallbackActive = m.tstate.threadCallbackActive ∧
      m'.tstate.threadCallbackFrame = m.tstate.threadCallbackFrame := by
  have hsame := h.grown.same
  rw [h.result, hsame]
  exact ⟨rfl, rfl, rfl⟩

theorem EntersSpace.frames {k spaceId node : Nat} {t : ThreadState} {scope : SpaceScope}
    {ptr : OrdinalPtr} (h : EntersSpace m k spaceId m' node t scope ptr) (item : StackItem) :
    (m'.push item).frames = m.frames := by
  rw [h.result]
  rfl

theorem EntersSpace.scope_spaceId {k spaceId node : Nat} {t : ThreadState} {scope : SpaceScope}
    {ptr : OrdinalPtr} (h : EntersSpace m k spaceId m' node t scope ptr) :
    (m'.tstate.space (m'.scopes k).space).spaceId = spaceId := by
  have hfound := (h.grown.circle.find_some h.found).2
  have hnode := h.space
  rw [h.result]
  simp only [Function.update_self]
  rw [hnode]
  exact hfound

theorem EntersSpace.localRoot {k spaceId node : Nat} {t : ThreadState} {scope : SpaceScope}
    {ptr : OrdinalPtr} (h : EntersSpace m k spaceId m' node t scope ptr)
    (hlocal : (m'.scopes k).useLocalRoot = true) : ∀ g ∈ currentThreadFrame (m.setTstate t),
      m.visibleIn (m.spacePtr (m'.scopes k).space) g = false := by
  have hslot := h.slot
  have hspace := h.space
  rw [h.result] at hlocal ⊢
  simp only [Function.update_self] at hlocal ⊢
  rw [hspace]
  split at hslot
  · rename_i hnear
    intro g hg
    exact Bool.eq_false_iff.mpr (List.find?_eq_none.mp hnear g hg)
  · rw [hslot.1] at hlocal
    cases hlocal

theorem currentThreadFrame_grown {spaceId : Nat} {t : ThreadState} (h : Grown spaceId m.tstate t)
    (hcurrent : m.tstate.currentSpace < m.tstate.spaces.length) :
    currentThreadFrame (m.setTstate t) = currentThreadFrame m := by
  have hsame := h.same
  have hid : (m.setTstate t).currentSpaceId = m.currentSpaceId := by
    change (t.space t.currentSpace).spaceId = (m.tstate.space m.tstate.currentSpace).spaceId
    have hcur : t.currentSpace = m.tstate.currentSpace := by rw [hsame]
    rw [hcur, h.space _ hcurrent]
  have hchain : (m.setTstate t).chain = m.chain := by
    change frameChain t.stack = _
    rw [hsame]
    rfl
  have hactive : (m.setTstate t).tstate.threadCallbackActive = m.tstate.threadCallbackActive := by
    change t.threadCallbackActive = _
    rw [hsame]
  have hframe : (m.setTstate t).tstate.threadCallbackFrame = m.tstate.threadCallbackFrame := by
    change t.threadCallbackFrame = _
    rw [hsame]
  unfold currentThreadFrame Machine.callbackChain
  rw [hid, hchain, hactive, hframe]

theorem currentThreadFrame_pinned {f : Nat} {rest : List StackItem}
    (htop : m.tstate.stack = .frame f :: rest) (hidle : m.tstate.threadCallbackActive = false) :
    currentThreadFrame (m.setCallback true (some f)) = currentThreadFrame m := by
  have hchain : m.chain = f :: frameChain rest := by
    unfold Machine.chain
    rw [htop]
    rfl
  have hall : currentThreadFrame m = m.chain := by
    unfold currentThreadFrame
    rw [if_neg (by simp [hidle])]
  have hpinned : (m.setCallback true (some f)).callbackChain = m.chain := by
    change chainFrom f m.chain = m.chain
    rw [hchain]
    unfold chainFrom
    rw [List.dropWhile_cons_of_neg (by simp)]
  rw [hall]
  unfold currentThreadFrame
  rw [hpinned]
  split <;> rfl

theorem scopeIds_cons (item : StackItem) (items : List StackItem) :
    scopeIds (item :: items) = scopeIds [item] ++ scopeIds items := by
  cases item <;> rfl

/-- What one step leaves on the stack is unchanged, and it removes or adds at most one item. -/
theorem Effect.kept {event : ThreadEvent} (h : Effect m event m') (hcontext : ContextOk m m.context)
    (hnodup : m.tstate.stack.Nodup) :
    ∃ kept, SavedOn kept m m' ∧
      ((m.tstate.stack = kept ∧ m'.tstate.stack = kept) ∨
        (∃ item, m.tstate.stack = item :: kept ∧ m'.tstate.stack = kept) ∨
        ∃ item, m.tstate.stack = kept ∧ m'.tstate.stack = item :: kept ∧ event.pushes = true ∧
          ∀ k, k ∈ scopeIds [item] → ∃ spaceId, event.enters = some spaceId ∧
            (m'.tstate.space (m'.scopes k).space).spaceId = spaceId ∧
            ((m'.scopes k).useLocalRoot = true → ∀ g ∈ currentThreadFrame m,
              m.visibleIn (m.spacePtr (m'.scopes k).space) g = false)) := by
  cases h with
  | call off limit =>
    exact ⟨_, savedOn_pushFrame _ off, Or.inr (Or.inr ⟨_, rfl, rfl, rfl, by simp [scopeIds]⟩)⟩
  | resume off limit =>
    exact ⟨_, savedOn_pushFrame _ off, Or.inr (Or.inr ⟨_, rfl, rfl, rfl, by simp [scopeIds]⟩)⟩
  | newGenerator off =>
    exact ⟨_, savedOn_setFrame _ m _ (fun hmem => absurd hmem off) (fun hmem => absurd hmem off),
      Or.inl ⟨rfl, rfl⟩⟩
  | begin top =>
    obtain ⟨hspace, hprev⟩ := begunFrame_saved (m.frames _) _ _
    exact ⟨_, savedOn_setFrame _ m _ (fun _ => hspace) (fun _ => hprev), Or.inl ⟨rfl, rfl⟩⟩
  | leave top current space node_eq previous ne =>
    rw [top, List.nodup_cons] at hnodup
    exact ⟨_, savedOn_popFrame _ ne hnodup.1, Or.inr (Or.inl ⟨_, top, popFrame_stack _ _ _ _ _⟩)⟩
  | leaveInactive => exact ⟨_, SavedOn.refl _ m, Or.inl ⟨rfl, rfl⟩⟩
  | enterFails unused => exact ⟨_, SavedOn.refl _ m, Or.inl ⟨rfl, rfl⟩⟩
  | enterSpace unused enters =>
    rename_i k spaceId node allocates entered t scope ptr
    refine ⟨_, (savedOn_enterSpace enters unused).setStack _,
      Or.inr (Or.inr ⟨.scope k, rfl, congrArg _ enters.callbackState.1, rfl, ?_⟩)⟩
    intro j hj
    have hjk : j = k := List.mem_singleton.mp hj
    subst hjk
    refine ⟨_, rfl, enters.scope_spaceId, ?_⟩
    intro hlocal
    rw [← currentThreadFrame_grown enters.grown hcontext.space]
    exact enters.localRoot hlocal
  | leaveSpace top =>
    exact ⟨_, (savedOn_leaveSpace _ m _).setStack _, Or.inr (Or.inl ⟨_, top, rfl⟩)⟩
  | callbackFails unused idle =>
    exact ⟨_, (SavedOn.refl _ m).setCallback false none, Or.inl ⟨rfl, rfl⟩⟩
  | callbackBegin top unused idle enters =>
    rename_i f k node allocates rest entered t scope ptr
    have hsaved : SavedOn m.tstate.stack m entered :=
      ((SavedOn.refl _ m).setCallback true (some f)).trans (savedOn_enterSpace enters unused)
    refine ⟨_, hsaved.setStack _,
      Or.inr (Or.inr ⟨.callback k, rfl, congrArg _ enters.callbackState.1, rfl, ?_⟩)⟩
    intro j hj
    have hjk : j = k := List.mem_singleton.mp hj
    subst hjk
    refine ⟨_, rfl, enters.scope_spaceId, ?_⟩
    intro hlocal
    rw [← currentThreadFrame_pinned top idle, ← currentThreadFrame_grown enters.grown hcontext.space]
    exact enters.localRoot hlocal
  | callbackEnd top =>
    exact ⟨_, ((savedOn_leaveSpace _ m _).setStack _).setCallback false none,
      Or.inr (Or.inl ⟨_, top, rfl⟩)⟩
  | threadDelta =>
    rename_i spaceId allocates tupleAllocates
    obtain heq | ⟨node, -, heq⟩ := threadDelta_cases m spaceId allocates tupleAllocates
    · rw [heq]
      exact ⟨_, SavedOn.refl _ m, Or.inl ⟨rfl, rfl⟩⟩
    · rw [heq]
      exact ⟨_, savedOn_rememberDelta _ m node, Or.inl ⟨rfl, rfl⟩⟩

end steps

end Retrace
