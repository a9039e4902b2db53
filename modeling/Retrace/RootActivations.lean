import Retrace.RootOrdinalRuns
import Retrace.SpaceFrames
import Retrace.PointerHashes

/-! When the activations of a space that have no visible frame of it below them are told apart by
the root ordinal. -/

set_option autoImplicit false

namespace Retrace

open PrivateCopies

/-- No frame of the space is on the stack, not even an incomplete one. -/
def NoFrame (m : Machine) (spaceId : Nat) : Prop := ∀ f ∈ m.chain, frameOf m spaceId f = false

def NoneShown (m : Machine) (spaceId : Nat) : Prop := ∀ f ∈ m.chain, shownOf m spaceId f = false

/-- The slot of the space's next root activation stands where the root ordinal does, and no open
copy stands further. -/
def Level (m : Machine) (spaceId : Nat) : Prop :=
  (rootBook m spaceId).slot = rootValue m spaceId ∧
    (rootBook m spaceId).high = rootValue m spaceId

/-- A scope that ends keeps up; an activation with no visible frame of the space below it has none
of it below at all, and starts where the root ordinal stands; and an entry into the space that sees
no frame of it has none of it below. -/
def KeepsApart (spaceId : Nat) (m : Machine) (event : ThreadEvent) : Prop :=
  CopyKeepsUp spaceId m event ∧
    (event.activates = true → m.currentSpaceId = spaceId → NoneShown m spaceId →
      NoFrame m spaceId ∧ Level m spaceId) ∧
    (event.enters = some spaceId → Unseen m spaceId → NoFrame m spaceId)

instance (m : Machine) (spaceId : Nat) : Decidable (Unseen m spaceId) :=
  inferInstanceAs (Decidable (∀ n ∈ findThreadSpace m.tstate spaceId,
    ∀ g ∈ currentThreadFrame m, m.visibleIn (m.spacePtr n) g = false))

instance (m : Machine) (spaceId : Nat) : Decidable (NoFrame m spaceId) :=
  inferInstanceAs (Decidable (∀ f ∈ m.chain, frameOf m spaceId f = false))

instance (m : Machine) (spaceId : Nat) : Decidable (NoneShown m spaceId) :=
  inferInstanceAs (Decidable (∀ f ∈ m.chain, shownOf m spaceId f = false))

instance (m : Machine) (spaceId : Nat) : Decidable (Level m spaceId) :=
  inferInstanceAs (Decidable (_ ∧ _))

instance (spaceId : Nat) (m : Machine) (event : ThreadEvent) :
    Decidable (KeepsApart spaceId m event) :=
  inferInstanceAs (Decidable (_ ∧ (_ → _ → _ → _ ∧ _) ∧ (_ → _ → _)))

def keepsApart (p : Platform) (spaceId : Nat) : List ThreadEvent → Machine → Bool :=
  everyStep p (fun m event => decide (KeepsApart spaceId m event))

/-- What may have no frame of the space below it: a frame of the space with no visible one below
it, and a scope that counts on a copy of the space's root ordinal. -/
def Clears (m : Machine) (spaceId : Nat) : StackItem → List StackItem → Prop
  | .frame f, rest => frameOf m spaceId f = true ∧
      ∀ g, .frame g ∈ rest → shownOf m spaceId g = false
  | .scope k, _ => countsRoot m spaceId k = true
  | .callback k, _ => countsRoot m spaceId k = true

/-- The running activation of the space with no visible frame of it below. -/
def rootActivation (m : Machine) (spaceId : Nat) : Option Nat :=
  (findThreadSpace m.tstate spaceId).bind (rootFrame m)

def hashUnderRoot (p : Platform) (m : Machine) (spaceId rootHash rootOrdinal : Nat) : Option Nat :=
  (coordinates m spaceId 0).map (mixWords p (mixRoot p rootHash rootOrdinal))

/-- While a frame of the space is on the stack, the root ordinal stands still. -/
structure Apart (spaceId room : Nat) (m : Machine) : Prop where
  booked : Booked spaceId room m
  clear : ∀ item rest, item :: rest <:+ m.tstate.stack → Clears m spaceId item rest →
    ∀ g, .frame g ∈ rest → frameOf m spaceId g = false
  level : ∀ f, .frame f ∈ m.tstate.stack → frameOf m spaceId f = true → Level m spaceId

section apart
variable {p : Platform} {m m' : Machine} {base : Context} {spaceId : Nat} {event : ThreadEvent}

theorem countsRoot_top {k : Nat} (htop : k ∈ topScope m) :
    ∃ item rest, m.tstate.stack = item :: rest ∧ (item = .scope k ∨ item = .callback k) := by
  unfold topScope at htop
  split at htop
  · rename_i j rest hstack
    exact ⟨_, rest, hstack, Or.inl (by rw [Option.mem_some.mp htop])⟩
  · rename_i j rest hstack
    exact ⟨_, rest, hstack, Or.inr (by rw [Option.mem_some.mp htop])⟩
  · cases htop

theorem Apart.clearScope {room : Nat} (h : Apart spaceId room m) {k : Nat} {item : StackItem}
    {rest : List StackItem} (hstack : item :: rest <:+ m.tstate.stack)
    (hitem : item = .scope k ∨ item = .callback k) (hcounts : countsRoot m spaceId k = true)
    {f : Nat} (hf : .frame f ∈ rest) : Retrace.frameOf m spaceId f = false := by
  refine h.clear item rest hstack ?_ f hf
  rcases hitem with rfl | rfl
  · exact hcounts
  · exact hcounts

theorem Apart.still {room : Nat} (h : Apart spaceId room m) (hseg : Segment [] base m)
    (hroot : base.ptr = some (.root base.space)) (hkeeps : KeepsApart spaceId m event) {act : Act}
    (hact : RootAct spaceId m m' event act) {f : Nat} (hon : .frame f ∈ m.tstate.stack)
    (hon' : .frame f ∈ m'.tstate.stack) (hf : Retrace.frameOf m spaceId f = true) :
    rootBook m' spaceId = rootBook m spaceId := by
  have hframe : ∀ rest : List StackItem, .frame f ∈ rest → ¬∀ g, .frame g ∈ rest →
      Retrace.frameOf m spaceId g = false := by
    intro rest hmem hnone
    rw [hnone f hmem] at hf
    cases hf
  cases act with
  | idle => exact hact.book
  | opens =>
    obtain ⟨henters, -, hunseen⟩ := hact.opens.mp rfl
    have hnone := hkeeps.2.2 henters hunseen f (mem_frameChain.mpr hon)
    rw [hnone] at hf
    cases hf
  | closes =>
    obtain ⟨-, k, htop, hcounts⟩ := hact.closes.mp rfl
    obtain ⟨item, rest, hstack, hitem⟩ := countsRoot_top htop
    have hmem : .frame f ∈ rest := by
      rw [hstack, List.mem_cons] at hon
      refine hon.resolve_left (fun heq => ?_)
      rcases hitem with rfl | rfl <;> cases heq
    exact absurd (fun g hg => h.clearScope (hstack ▸ List.suffix_refl _) hitem hcounts hg)
      (hframe rest hmem)
  | counts =>
    obtain ⟨g, rest, ptr, htop, hpopped, hprevious, hcounts⟩ := hact.counts.mp rfl
    rw [hpopped] at hon'
    have hbelow := hseg.slot_below hroot htop hprevious
    cases ptr with
    | frame _ => cases hcounts
    | root n =>
      rw [hbelow.1] at hon'
      cases hon'
    | scope k =>
      obtain ⟨⟨lower, hrest⟩, -⟩ := hbelow
      have hsuffix : rest <:+ m.tstate.stack := htop ▸ List.suffix_cons _ _
      have hmem : .frame f ∈ lower := by
        rcases hrest with hrest | hrest
        · rw [hrest, List.mem_cons] at hon'
          exact hon'.resolve_left (by simp)
        · rw [hrest, List.mem_cons] at hon'
          exact hon'.resolve_left (by simp)
      refine absurd (fun g hg => ?_) (hframe lower hmem)
      rcases hrest with hrest | hrest
      · exact h.clearScope (hrest ▸ hsuffix) (Or.inl rfl) hcounts hg
      · exact h.clearScope (hrest ▸ hsuffix) (Or.inr rfl) hcounts hg

theorem Level.congr (h : Level m spaceId) (hbook : rootBook m' spaceId = rootBook m spaceId) :
    Level m' spaceId := by
  have hvalue : rootValue m' spaceId = rootValue m spaceId := congrArg Book.shared hbook
  unfold Level
  rw [hbook, hvalue]
  exact h

theorem Effect.clears (h : Effect m event m') (hseg : Segment [] base m) {item : StackItem}
    {rest : List StackItem} (hstack : item :: rest <:+ m.tstate.stack)
    (hstack' : item :: rest <:+ m'.tstate.stack) (hclears : Clears m' spaceId item rest) :
    Clears m spaceId item rest := by
  have hon : item ∈ m.tstate.stack := hstack.subset List.mem_cons_self
  have hon' : item ∈ m'.tstate.stack := hstack'.subset List.mem_cons_self
  have hscope : ∀ k, (item = .scope k ∨ item = .callback k) →
      countsRoot m' spaceId k = true → countsRoot m spaceId k = true := by
    intro k hitem hcounts
    have hids : k ∈ scopeIds [item] := by
      rcases hitem with rfl | rfl <;> exact List.mem_singleton_self k
    have hk : k ∈ scopeIds m.tstate.stack := by
      rw [mem_scopeIds]
      rcases hitem with rfl | rfl
      · exact Or.inl hon
      · exact Or.inr hon
    rw [← (h.keptItem hseg hon hon').countsRoot hids (hseg.scope_lt hk)]
    exact hcounts
  cases item with
  | frame f =>
    refine ⟨(h.frameOf hseg hon hon').symm.trans hclears.1, ?_⟩
    intro g hg
    rw [← h.shownOf hseg hstack' hg (hstack.subset (List.mem_cons_of_mem _ hg))]
    exact hclears.2 g hg
  | scope k => exact hscope k (Or.inl rfl) hclears
  | callback k => exact hscope k (Or.inr rfl) hclears

theorem KeepsApart.clear (hkeeps : KeepsApart spaceId m event) (h : Effect m event m')
    (hseg : Segment [] base m) {act : Act} (hact : RootAct spaceId m m' event act)
    {item : StackItem} (hpushed : m'.tstate.stack = item :: m.tstate.stack)
    (hclears : Clears m' spaceId item m.tstate.stack) : NoFrame m spaceId := by
  have hscope : ∀ k, (item = .scope k ∨ item = .callback k) →
      countsRoot m' spaceId k = true → NoFrame m spaceId := by
    intro k hitem hcounts
    have hopened : act = .opens := by
      refine hact.opened.mpr ⟨k, ?_, hcounts⟩
      rcases hitem with rfl | rfl
      · exact Or.inl hpushed
      · exact Or.inr hpushed
    obtain ⟨henters, -, hunseen⟩ := hact.opens.mp hopened
    exact hkeeps.2.2 henters hunseen
  cases item with
  | frame f =>
    obtain ⟨hactivates, hframe⟩ := h.pushesFrame hseg hpushed
    have hcurrent := hframe.symm.trans hclears.1
    have hwhole : .frame f :: m.tstate.stack <:+ m'.tstate.stack := by
      rw [hpushed]
    refine (hkeeps.2.1 hactivates (beq_iff_eq.mp hcurrent) ?_).1
    intro g hg
    have hmem := mem_frameChain.mp hg
    rw [← h.shownOf hseg hwhole hmem hmem]
    exact hclears.2 g hmem
  | scope k => exact hscope k (Or.inl rfl) hclears
  | callback k => exact hscope k (Or.inr rfl) hclears

theorem Apart.step {room : Nat} (h : Apart spaceId (room + 1) m)
    (hstep : threadStep p m event = some m') (hkeeps : KeepsApart spaceId m event) :
    Apart spaceId room m' := by
  obtain ⟨hbooked, act, hact⟩ := h.booked.step hstep
  obtain ⟨l, hstanding⟩ := h.booked.standing
  obtain ⟨-, heffect⟩ := hstanding.step hstep
  obtain ⟨base, hroot, hseg⟩ := hstanding.segment
  have hkept : ∀ f, .frame f ∈ m'.tstate.stack → Retrace.frameOf m' spaceId f = true →
      .frame f ∈ m.tstate.stack → Level m' spaceId := by
    intro f hon' hf hon
    rw [heffect.frameOf hseg hon hon'] at hf
    exact (h.level f hon hf).congr (h.still hseg hroot hkeeps hact hon hon' hf)
  obtain ⟨kept, -, hcases⟩ := heffect.kept hseg.contextOk hseg.nodup
  have hsplit : m'.tstate.stack <:+ m.tstate.stack ∨
      ∃ item, m'.tstate.stack = item :: m.tstate.stack := by
    obtain ⟨hm, hm'⟩ | ⟨item, hm, hm'⟩ | ⟨item, hm, hm', -⟩ := hcases
    · exact Or.inl (by rw [hm, hm'])
    · exact Or.inl (by rw [hm, hm']; exact List.suffix_cons _ _)
    · exact Or.inr ⟨item, by rw [hm, hm']⟩
  refine ⟨hbooked, ?_, ?_⟩
  · intro item rest hstack' hclears g hg
    have hold : item :: rest <:+ m.tstate.stack → Retrace.frameOf m' spaceId g = false := by
      intro hstack
      rw [heffect.frameOf hseg (hstack.subset (List.mem_cons_of_mem _ hg))
        (hstack'.subset (List.mem_cons_of_mem _ hg))]
      exact h.clear item rest hstack (heffect.clears hseg hstack hstack' hclears) g hg
    rcases hsplit with hsuffix | ⟨top, hpushed⟩
    · exact hold (hstack'.trans hsuffix)
    · rw [hpushed, List.suffix_cons_iff] at hstack'
      rcases hstack' with heq | hstack
      · rw [List.cons.injEq] at heq
        obtain ⟨rfl, rfl⟩ := heq
        have hnone := hkeeps.clear heffect hseg hact hpushed hclears
        rw [heffect.frameOf hseg hg (hpushed ▸ List.mem_cons_of_mem _ hg)]
        exact hnone g (mem_frameChain.mpr hg)
      · exact hold hstack
  · intro f hon' hf
    by_cases hon : .frame f ∈ m.tstate.stack
    · exact hkept f hon' hf hon
    · have hpushed : m'.tstate.stack = .frame f :: m.tstate.stack := by
        rcases hsplit with hsuffix | ⟨item, hpushed⟩
        · exact absurd (hsuffix.subset hon') hon
        · rw [hpushed, List.mem_cons] at hon'
          rw [hpushed, ← hon'.resolve_right hon]
      by_cases hother : ∃ g, .frame g ∈ m.tstate.stack ∧ Retrace.frameOf m spaceId g = true
      · obtain ⟨g, hg, hgf⟩ := hother
        have hg' : .frame g ∈ m'.tstate.stack := hpushed ▸ List.mem_cons_of_mem _ hg
        exact hkept g hg' ((heffect.frameOf hseg hg hg').trans hgf) hg
      · obtain ⟨hactivates, hframe⟩ := heffect.pushesFrame hseg hpushed
        have hnone : NoneShown m spaceId := by
          intro g hg
          unfold Retrace.shownOf
          rw [Bool.and_eq_false_iff]
          left
          rw [Bool.eq_false_iff]
          exact fun hgf => hother ⟨g, mem_frameChain.mp hg, hgf⟩
        have hlevel := (hkeeps.2.1 hactivates (beq_iff_eq.mp (hframe.symm.trans hf)) hnone).2
        have hidle : act = .idle := by
          cases act with
          | idle => rfl
          | opens =>
            obtain ⟨k, hscope, -⟩ := hact.opened.mp rfl
            rw [hpushed] at hscope
            rcases hscope with hscope | hscope <;> cases hscope
          | closes =>
            obtain ⟨hends, -⟩ := hact.closes.mp rfl
            cases event with
            | call => cases hends
            | resume => cases hends
            | _ => cases hactivates
          | counts =>
            obtain ⟨g, rest, ptr, htop, hpopped, -⟩ := hact.counts.mp rfl
            have hlength := congrArg List.length hpushed
            rw [hpopped, htop] at hlength
            simp only [List.length_cons] at hlength
            omega
        subst hidle
        exact hlevel.congr hact.book

/-- The slot of a frame of the space with none of it below is the root ordinal or a copy of it. -/
theorem Segment.slot_counts (hseg : Segment [] base m) (hroot : base.ptr = some (.root base.space))
    {f : Nat} {rest : List StackItem} {ptr : OrdinalPtr}
    (htop : m.tstate.stack = .frame f :: rest)
    (hprevious : (m.frames f).previousCallOrdinalPtr = some ptr)
    (hf : Retrace.frameOf m spaceId f = true)
    (hrest : ∀ g, .frame g ∈ rest → Retrace.frameOf m spaceId g = false) :
    countsFor m spaceId ptr = true := by
  obtain ⟨items, hitems, hd⟩ := hseg.items
  rw [List.append_nil] at hitems
  rw [← hitems, htop] at hd
  obtain ⟨-, -, hspace, hlower⟩ := hd
  rw [frameOf_spacePtr hspace] at hf
  cases hcases : rest with
  | nil =>
    rw [hcases] at hlower
    have hptr := congrArg Context.ptr hlower.2
    have hnode : (frameContext m f m.context).space = base.space :=
      congrArg Context.space hlower.2
    change (m.frames f).previousCallOrdinalPtr = _ at hptr
    rw [hprevious, hroot, Option.some.injEq] at hptr
    rw [hptr, ← hnode]
    exact hf
  | cons item lower =>
    obtain ⟨g, hg, hmem, hslot⟩ | ⟨k, tail, hk, -, hnode, hlocal⟩ :=
      hlower.slot (by rw [hcases]; simp)
    · rw [List.append_nil] at hmem
      have hnone := hrest g hmem
      rw [frameOf_spacePtr hslot] at hnone
      exact absurd (hf.symm.trans hnone) (by simp)
    · change (m.frames f).previousCallOrdinalPtr = _ at hk
      rw [hprevious, Option.some.injEq] at hk
      rw [hk]
      change (m.scopes k).useLocalRoot &&
        (m.tstate.space (m.scopes k).space).spaceId == spaceId
      rw [hlocal, ← hnode]
      exact hf

theorem keepsApart_cons {events : List ThreadEvent} (hstep : threadStep p m event = some m') :
    keepsApart p spaceId (event :: events) m = true ↔
      KeepsApart spaceId m event ∧ keepsApart p spaceId events m' = true := by
  unfold keepsApart
  rw [everyStep_cons hstep, decide_eq_true_eq]

theorem Apart.run {events : List ThreadEvent} {room : Nat}
    (h : Apart spaceId (events.length + room) m)
    (hkeeps : keepsApart p spaceId events m = true) (hrun : threadRun p events m = some m') :
    Apart spaceId room m' := by
  induction events generalizing m with
  | nil =>
    cases hrun
    rwa [List.length_nil, Nat.zero_add] at h
  | cons event events ih =>
    rw [threadRun_cons, Option.bind_eq_some_iff] at hrun
    obtain ⟨mid, hstep, hrun⟩ := hrun
    rw [keepsApart_cons hstep] at hkeeps
    rw [List.length_cons, Nat.add_right_comm] at h
    exact ih (h.step hstep hkeeps.1) hkeeps.2 hrun

theorem Apart.high_le {events : List ThreadEvent} (h : Apart spaceId events.length m)
    (hkeeps : keepsApart p spaceId events m = true) (hrun : threadRun p events m = some m') :
    (rootBook m spaceId).high ≤ (rootBook m' spaceId).high := by
  induction events generalizing m with
  | nil =>
    cases hrun
    exact Nat.le_refl _
  | cons event events ih =>
    rw [threadRun_cons, Option.bind_eq_some_iff] at hrun
    obtain ⟨mid, hstep, hrun⟩ := hrun
    rw [keepsApart_cons hstep] at hkeeps
    obtain ⟨-, act, hact⟩ := h.booked.step hstep
    have hone := high_le_after h.booked.sound (hact.safe_iff.mpr hkeeps.1.1)
    rw [← hact.book] at hone
    exact Nat.le_trans hone (ih (h.step hstep hkeeps.1) hkeeps.2 hrun)

/-- The frame of the space on the stack with none of it below. -/
structure Lowest (m : Machine) (spaceId f : Nat) (rest : List StackItem) : Prop where
  stack : .frame f :: rest <:+ m.tstate.stack
  frame : Retrace.frameOf m spaceId f = true
  rest : ∀ g, .frame g ∈ rest → Retrace.frameOf m spaceId g = false

theorem Lowest.step {f : Nat} {rest : List StackItem} (h : Lowest m spaceId f rest)
    (heffect : Effect m event m') (hseg : Segment [] base m)
    (hon' : .frame f ∈ m'.tstate.stack) : Lowest m' spaceId f rest := by
  have hstack := heffect.staysAbove hseg h.stack hon'
  refine ⟨hstack, ?_, ?_⟩
  · rw [heffect.frameOf hseg (h.stack.subset List.mem_cons_self) hon']
    exact h.frame
  · intro g hg
    rw [heffect.frameOf hseg (h.stack.subset (List.mem_cons_of_mem _ hg))
      (hstack.subset (List.mem_cons_of_mem _ hg))]
    exact h.rest g hg

/-- When the lowest frame of the space leaves, its slot is counted beyond the root ordinal it ran
under. -/
theorem Apart.leaves {room : Nat} (h : Apart spaceId (room + 1) m)
    (hstep : threadStep p m event = some m') {f : Nat} {rest : List StackItem}
    (hlowest : Lowest m spaceId f rest) (hoff' : .frame f ∉ m'.tstate.stack) :
    rootValue m spaceId < (rootBook m' spaceId).high := by
  obtain ⟨-, act, hact⟩ := h.booked.step hstep
  obtain ⟨l, hstanding⟩ := h.booked.standing
  obtain ⟨-, heffect⟩ := hstanding.step hstep
  obtain ⟨base, hroot, hseg⟩ := hstanding.segment
  have hon := hlowest.stack.subset List.mem_cons_self
  obtain ⟨kept, -, ⟨hm, hm'⟩ | ⟨top, hm, hm'⟩ | ⟨top, hm, hm', -⟩⟩ :=
    heffect.kept hseg.contextOk hseg.nodup
  · rw [hm', ← hm] at hoff'
    exact absurd hon hoff'
  · rw [hm'] at hoff'
    have htop : m.tstate.stack = .frame f :: kept := by
      rw [hm, List.mem_cons] at hon
      rw [hm, ← hon.resolve_right hoff']
    have hkept : kept = rest := by
      have hsuffix := hlowest.stack
      rw [htop, List.suffix_cons_iff] at hsuffix
      rcases hsuffix with heq | hsuffix
      · exact (List.cons.inj heq).2.symm
      · exact absurd (hsuffix.subset List.mem_cons_self) hoff'
    have hprevious : ∃ ptr, (m.frames f).previousCallOrdinalPtr = some ptr := by
      obtain ⟨items, hitems, hd⟩ := hseg.items
      rw [List.append_nil] at hitems
      rw [← hitems, htop] at hd
      exact Option.ne_none_iff_exists'.mp hd.2.2.2.contextOk.ptr
    obtain ⟨ptr, hprevious⟩ := hprevious
    have hcounts := hseg.slot_counts hroot htop hprevious hlowest.frame (hkept ▸ hlowest.rest)
    have hact_eq : act = .counts :=
      hact.counts.mpr ⟨f, kept, ptr, htop, hm', hprevious, hcounts⟩
    subst hact_eq
    have hslot := slot_lt_after_counts (rootBook m spaceId)
    rw [(h.level f (htop ▸ List.mem_cons_self) hlowest.frame).1, ← hact.book] at hslot
    exact hslot
  · rw [hm'] at hoff'
    exact absurd (List.mem_cons_of_mem _ (hm ▸ hon)) hoff'

/-- The lowest frame of the space stays, or what has been counted passes its root ordinal. -/
theorem Apart.passes {events : List ThreadEvent} {f : Nat} {rest : List StackItem}
    (h : Apart spaceId events.length m) (hkeeps : keepsApart p spaceId events m = true)
    (hrun : threadRun p events m = some m') (hlowest : Lowest m spaceId f rest) :
    (staysActive p f events m = true ∧ Lowest m' spaceId f rest) ∨
      rootValue m spaceId < (rootBook m' spaceId).high := by
  have hon := hlowest.stack.subset List.mem_cons_self
  induction events generalizing m with
  | nil =>
    cases hrun
    exact Or.inl ⟨decide_eq_true hon, hlowest⟩
  | cons event events ih =>
    rw [threadRun_cons, Option.bind_eq_some_iff] at hrun
    obtain ⟨mid, hstep, hrun⟩ := hrun
    rw [keepsApart_cons hstep] at hkeeps
    have hnext := h.step hstep hkeeps.1
    by_cases hon' : .frame f ∈ mid.tstate.stack
    · obtain ⟨-, act, hact⟩ := h.booked.step hstep
      obtain ⟨l, hstanding⟩ := h.booked.standing
      obtain ⟨-, heffect⟩ := hstanding.step hstep
      obtain ⟨base, hroot, hseg⟩ := hstanding.segment
      have hbook := h.still hseg hroot hkeeps.1 hact hon hon' hlowest.frame
      have hvalue : rootValue mid spaceId = rootValue m spaceId := congrArg Book.shared hbook
      rw [← hvalue]
      refine (ih hnext hkeeps.2 hrun (hlowest.step heffect hseg hon') hon').imp_left ?_
      rintro ⟨hstays, hlast⟩
      refine ⟨?_, hlast⟩
      rw [staysActive, hstep, Bool.and_eq_true]
      exact ⟨decide_eq_true hon, hstays⟩
    · exact Or.inr (Nat.lt_of_lt_of_le (h.leaves hstep hlowest hon')
        (hnext.high_le hkeeps.2 hrun))

theorem Apart.lowest {room : Nat} (h : Apart spaceId room m) {f : Nat}
    (hroot : rootActivation m spaceId = some f) : ∃ rest, Lowest m spaceId f rest := by
  obtain ⟨l, hstanding⟩ := h.booked.standing
  obtain ⟨base, -, hseg⟩ := hstanding.segment
  unfold rootActivation at hroot
  rw [Option.bind_eq_some_iff] at hroot
  obtain ⟨n, hn, hroot⟩ := hroot
  unfold rootFrame at hroot
  rw [List.getLast?_eq_some_iff] at hroot
  obtain ⟨newer, hroot⟩ := hroot
  obtain ⟨above, below, hchain, -, hlast⟩ := List.filter_eq_append_iff.mp hroot
  obtain ⟨between, older, rfl, -, hvisible, hnone⟩ := List.filter_eq_cons_iff.mp hlast
  unfold Machine.chain frameChain at hchain
  obtain ⟨upper, tail, hstack, -, htail⟩ := List.filterMap_eq_append_iff.mp hchain
  obtain ⟨middle, lower, hlower, -, hframe⟩ := List.filterMap_eq_append_iff.mp htail
  obtain ⟨skipped, item, rest, rfl, -, hitem, holder⟩ := List.filterMap_eq_cons_iff.mp hframe
  have hframe : item = .frame f := by
    cases item with
    | frame g => exact congrArg StackItem.frame (Option.some.inj hitem)
    | scope k => cases hitem
    | callback k => cases hitem
  subst hframe
  have hsuffix : .frame f :: rest <:+ m.tstate.stack := by
    rw [hstack, hlower, ← List.append_assoc, ← List.append_assoc]
    exact List.suffix_append _ _
  have hshown : ∀ g, .frame g ∈ rest → Retrace.shownOf m spaceId g = false := by
    intro g hg
    rw [← visibleIn_shown hseg hn (hsuffix.subset (List.mem_cons_of_mem _ hg))]
    have hmem : g ∈ older := holder ▸ mem_frameChain.mpr hg
    exact Bool.eq_false_iff.mpr (List.filter_eq_nil_iff.mp hnone g hmem)
  have hf : Retrace.frameOf m spaceId f = true := by
    rw [visibleIn_shown hseg hn (hsuffix.subset List.mem_cons_self)] at hvisible
    unfold Retrace.shownOf at hvisible
    rw [Bool.and_eq_true] at hvisible
    exact hvisible.1
  exact ⟨rest, hsuffix, hf, h.clear _ _ hsuffix ⟨hf, hshown⟩⟩

theorem Lowest.unique {f g : Nat} {rest rest' : List StackItem} (h : Lowest m spaceId f rest)
    (h' : Lowest m spaceId g rest') : f = g := by
  have hbelow : ∀ {f g : Nat} {rest rest' : List StackItem}, Lowest m spaceId f rest →
      Lowest m spaceId g rest' → .frame f :: rest <:+ .frame g :: rest' → f = g := by
    intro f g rest rest' h h' hsuffix
    rw [List.suffix_cons_iff] at hsuffix
    rcases hsuffix with heq | hsuffix
    · exact StackItem.frame.inj (List.cons.inj heq).1
    · have hnone := h'.rest f (hsuffix.subset List.mem_cons_self)
      rw [h.frame] at hnone
      cases hnone
  rcases List.suffix_or_suffix_of_suffix h.stack h'.stack with hsuffix | hsuffix
  · exact hbelow h h' hsuffix
  · exact (hbelow h' h hsuffix).symm

theorem Idle.apart {room : Nat} (h : Idle m) (hfit : rootValue m spaceId + room < 2 ^ 64) :
    Apart spaceId room m := by
  refine ⟨h.booked hfit, ?_, ?_⟩
  · intro item rest hstack
    rw [h.stack, List.suffix_nil] at hstack
    cases hstack
  · intro f hf
    rw [h.stack] at hf
    cases hf

theorem coordinateHash_underRoot {n : Nat} (hn : findThreadSpace m.tstate spaceId = some n) :
    coordinateHash p m spaceId = hashUnderRoot p m spaceId
      (m.tstate.space n).rootCoordinateHash (rootValue m spaceId) := by
  unfold coordinateHash hashUnderRoot coordinates rootValue rootOrdinal
  simp only [hn, Option.map_some, Option.getD_some, List.drop_zero]
  cases (m.tstate.space n).seen with
  | false => rfl
  | true =>
    simp only [if_true, Option.map_some]
    rw [frameCoordinateHash_eq, coordinatesOf_eq]

/-- Two different root activations of a space run under different root ordinals, and its hash mixes
those, if in the whole run scopes keep up and root activations start where the root ordinal
stands. -/
theorem rootActivations_apart {m₀ a b : Machine} {before between : List ThreadEvent} {f g : Nat}
    (hidle : Idle m₀) (hbefore : threadRun p before m₀ = some a)
    (hbetween : threadRun p between a = some b)
    (hfit : rootValue m₀ spaceId + (before ++ between).length < 2 ^ 64)
    (hkeeps : keepsApart p spaceId (before ++ between) m₀ = true)
    (hf : rootActivation a spaceId = some f) (hg : rootActivation b spaceId = some g)
    (hother : ¬(f = g ∧ staysActive p f between a = true)) :
    rootValue a spaceId < rootValue b spaceId ∧
      ∃ rootHash,
        coordinateHash p a spaceId = hashUnderRoot p a spaceId rootHash (rootValue a spaceId) ∧
        coordinateHash p b spaceId = hashUnderRoot p b spaceId rootHash (rootValue b spaceId) := by
  rw [List.length_append] at hfit
  unfold keepsApart at hkeeps
  rw [everyStep_append hbefore] at hkeeps
  have ha : Apart spaceId between.length a := (hidle.apart hfit).run hkeeps.1 hbefore
  have hb : Apart spaceId 0 b := Apart.run ha hkeeps.2 hbetween
  obtain ⟨rest, hlowest⟩ := ha.lowest hf
  obtain ⟨rest', hlowest'⟩ := hb.lowest hg
  refine ⟨?_, ?_⟩
  · have hlevel := hb.level g (hlowest'.stack.subset List.mem_cons_self) hlowest'.frame
    rw [← hlevel.2]
    obtain ⟨hstays, hlast⟩ | hpassed := ha.passes hkeeps.2 hbetween hlowest
    · exact absurd ⟨hlast.unique hlowest', hstays⟩ hother
    · exact hpassed
  · obtain ⟨l, hstanding⟩ := ha.booked.standing
    unfold rootActivation at hf
    rw [Option.bind_eq_some_iff] at hf
    obtain ⟨n, hn, -⟩ := hf
    obtain ⟨hn', hhash, -⟩ := hstanding.spaceKept hbetween hn
    exact ⟨_, coordinateHash_underRoot hn, hhash ▸ coordinateHash_underRoot hn'⟩

def scopedCall (k f : Nat) : List ThreadEvent :=
  [.enterSpace k 7 true, .call f 0 true true, .begin [] 0]

/-- Two scopes of the space, with a call in each. -/
theorem rootActivations_apart_twoScopes :
    ∃ a b, threadRun ⟨true, true⟩ ([.call 9 0 true true, .begin [] 0] ++ scopedCall 0 0)
        (freshMachine ⟨true, true⟩ 0) = some a ∧
      threadRun ⟨true, true⟩ ([.leave 0, .leaveSpace] ++ scopedCall 0 1) a = some b ∧
      coordinates a 7 0 = some [0, 0] ∧ coordinates b 7 0 = some [0, 0] ∧
      rootValue a 7 < rootValue b 7 := by
  obtain ⟨a, ha⟩ : ∃ a, threadRun ⟨true, true⟩
      ([.call 9 0 true true, .begin [] 0] ++ scopedCall 0 0) (freshMachine ⟨true, true⟩ 0) =
        some a := ⟨_, rfl⟩
  obtain ⟨b, hb⟩ : ∃ b, threadRun ⟨true, true⟩ ([.leave 0, .leaveSpace] ++ scopedCall 0 1) a =
      some b := by
    cases ha
    exact ⟨_, rfl⟩
  have hroots : rootActivation a 7 = some 0 ∧ rootActivation b 7 = some 1 := by
    cases ha
    cases hb
    exact ⟨rfl, rfl⟩
  have hwords : coordinates a 7 0 = some [0, 0] ∧ coordinates b 7 0 = some [0, 0] := by
    cases ha
    cases hb
    exact ⟨rfl, rfl⟩
  exact ⟨a, b, ha, hb, hwords.1, hwords.2,
    (rootActivations_apart (freshMachine_idle ⟨true, true⟩ 0) ha hb (by decide) rfl hroots.1
      hroots.2 (by simp)).1⟩

/-- Two calls in one scope of the space run under the same root ordinal. -/
theorem rootActivations_alike :
    ∃ a b, threadRun ⟨true, true⟩ ([.call 9 0 true true, .begin [] 0] ++ scopedCall 0 0)
        (freshMachine ⟨true, true⟩ 0) = some a ∧
      threadRun ⟨true, true⟩ [.leave 0, .call 1 0 true true, .begin [] 0] a = some b ∧
      rootActivation a 7 = some 0 ∧ rootActivation b 7 = some 1 ∧
      coordinates a 7 0 = some [0, 0] ∧ coordinates b 7 0 = some [0, 0] ∧
      rootValue a 7 = rootValue b 7 ∧
      coordinateHash ⟨true, true⟩ a 7 = coordinateHash ⟨true, true⟩ b 7 := by
  obtain ⟨a, ha⟩ : ∃ a, threadRun ⟨true, true⟩
      ([.call 9 0 true true, .begin [] 0] ++ scopedCall 0 0) (freshMachine ⟨true, true⟩ 0) =
        some a := ⟨_, rfl⟩
  obtain ⟨b, hb⟩ : ∃ b, threadRun ⟨true, true⟩ [.leave 0, .call 1 0 true true, .begin [] 0] a =
      some b := by
    cases ha
    exact ⟨_, rfl⟩
  have hboth : ((threadRun ⟨true, true⟩ ([.call 9 0 true true, .begin [] 0] ++ scopedCall 0 0)
      (freshMachine ⟨true, true⟩ 0)).bind (fun a =>
        (threadRun ⟨true, true⟩ [.leave 0, .call 1 0 true true, .begin [] 0] a).map (fun b =>
          decide ((findThreadSpace a.tstate 7 = some 1 ∧ findThreadSpace b.tstate 7 = some 1 ∧
              (a.tstate.space 1).rootCoordinateHash = (b.tstate.space 1).rootCoordinateHash) ∧
            rootActivation a 7 = some 0 ∧ rootActivation b 7 = some 1 ∧
            coordinates a 7 0 = some [0, 0] ∧ coordinates b 7 0 = some [0, 0] ∧
            rootValue a 7 = rootValue b 7)))) = some true := by decide +kernel
  rw [ha, Option.bind_some, hb, Option.map_some, Option.some.injEq, decide_eq_true_eq] at hboth
  obtain ⟨hfound, hread⟩ := hboth
  obtain ⟨hf, hg, hwords, hwords', hvalue⟩ := hread
  refine ⟨a, b, ha, hb, hf, hg, hwords, hwords', hvalue, ?_⟩
  rw [coordinateHash_underRoot hfound.1, coordinateHash_underRoot hfound.2.1]
  unfold hashUnderRoot
  rw [hwords, hwords', hvalue, hfound.2.2]

end apart

end Retrace
