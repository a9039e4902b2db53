import Retrace.RootOrdinals

/-! When the root ordinal of a space goes back in a run of its thread. -/

set_option autoImplicit false

namespace Retrace

open PrivateCopies

instance (spaceId : Nat) (m : Machine) (event : ThreadEvent) :
    Decidable (CopyKeepsUp spaceId m event) :=
  inferInstanceAs (Decidable (_ → _))

/-- At each end of a scope in the run, its copy of the root ordinal is not behind. -/
def copiesKeepUp (p : Platform) (spaceId : Nat) : List ThreadEvent → Machine → Bool :=
  everyStep p (fun m event => decide (CopyKeepsUp spaceId m event))

/-- A scope of the space from its entry to its end, entered with no visible frame of the space on
the stack. -/
structure ParentlessScope (p : Platform) (spaceId : Nat) (outer : Machine) (enter : ThreadEvent)
    (body : List ThreadEvent) (leave : ThreadEvent) (left : Machine) : Prop where
  enters : enter.enters = some spaceId
  parentless : ∀ n, findThreadSpace outer.tstate spaceId = some n →
    ∀ f ∈ outer.chain, outer.visibleIn (outer.spacePtr n) f = false
  ends : leave.endsScope = true
  run : ∃ entered inner item, threadStep p outer enter = some entered ∧
    entered.tstate.stack = item :: outer.tstate.stack ∧ Balanced p entered body inner ∧
    threadStep p inner leave = some left

/-- The root ordinal never goes back, and a completed scope with no visible frame of the space
below it moves it on. -/
structure NeverBack (p : Platform) (spaceId : Nat) (events : List ThreadEvent) (m₀ : Machine) :
    Prop where
  rises : ∀ first second a b, first ++ second <+: events → threadRun p first m₀ = some a →
    threadRun p second a = some b → rootValue a spaceId ≤ rootValue b spaceId
  scopes : ∀ before enter body leave outer left, before ++ enter :: body ++ [leave] <+: events →
    threadRun p before m₀ = some outer →
    ParentlessScope p spaceId outer enter body leave left →
    rootValue outer spaceId < rootValue left spaceId ∧
    ∀ part m, part <+: enter :: body → threadRun p part outer = some m →
      rootValue m spaceId ≤ rootValue left spaceId

section rootRuns
variable {p : Platform} {m m' : Machine} {l : Ledger} {spaceId : Nat}
  {events : List ThreadEvent}

theorem SavedOn.run {items : List StackItem} (hstanding : Standing m l)
    (hrun : threadRun p events m = some m')
    (hstays : ∀ part mid, part <+: events → threadRun p part m = some mid →
      items <:+ mid.tstate.stack) : SavedOn items m m' := by
  induction events generalizing m l with
  | nil =>
    cases hrun
    exact SavedOn.refl items _
  | cons event events ih =>
    rw [threadRun_cons, Option.bind_eq_some_iff] at hrun
    obtain ⟨mid, hstep, hrun⟩ := hrun
    obtain ⟨hnext, heffect⟩ := hstanding.step hstep
    obtain ⟨base, -, hseg⟩ := hstanding.segment
    have hone : threadRun p [event] m = some mid := by
      rw [threadRun_cons, hstep]
      rfl
    have hbefore := hstays [] m List.nil_prefix rfl
    have hafter := hstays [event] mid (by simp) hone
    have hkept : SavedOn items m mid := by
      obtain ⟨kept, hsaved, hcases⟩ := heffect.kept hseg.contextOk hseg.nodup
      have hsub : items <:+ kept := by
        obtain ⟨hm, -⟩ | ⟨-, -, hm'⟩ | ⟨-, hm, -⟩ := hcases
        · exact hm ▸ hbefore
        · exact hm' ▸ hafter
        · exact hm ▸ hbefore
      exact hsaved.mono (fun item hitem => hsub.subset hitem)
    refine hkept.trans (ih hnext hrun ?_)
    intro part last hpart hlast
    refine hstays (event :: part) last (List.cons_prefix_cons.mpr ⟨rfl, hpart⟩) ?_
    rw [threadRun_cons, hstep]
    exact hlast

/-- What the book of the root ordinal is at each point of a run. -/
structure Booked (spaceId room : Nat) (m : Machine) : Prop where
  standing : ∃ l, Standing m l
  sound : (rootBook m spaceId).Sound
  fits : (rootBook m spaceId).high + room < 2 ^ 64

theorem Booked.step {room : Nat} (h : Booked spaceId (room + 1) m) {event : ThreadEvent}
    (hstep : threadStep p m event = some m') :
    Booked spaceId room m' ∧ ∃ act, RootAct spaceId m m' event act := by
  obtain ⟨l, hstanding⟩ := h.standing
  obtain ⟨hnext, heffect⟩ := hstanding.step hstep
  obtain ⟨base, hroot, hseg⟩ := hstanding.segment
  have hfits := h.fits
  have hfit : (rootBook m spaceId).high + 1 < 2 ^ 64 := by omega
  obtain ⟨act, hact⟩ := heffect.rootAct hseg hroot hfit
  have hhigh := high_after_le h.sound act
  rw [← hact.book] at hhigh
  exact ⟨⟨⟨_, hnext⟩, hact.book ▸ h.sound.after act, by omega⟩, act, hact⟩

theorem Booked.run {room : Nat} (h : Booked spaceId (events.length + room) m)
    (hrun : threadRun p events m = some m') : Booked spaceId room m' := by
  induction events generalizing m with
  | nil =>
    cases hrun
    rwa [List.length_nil, Nat.zero_add] at h
  | cons event events ih =>
    rw [threadRun_cons, Option.bind_eq_some_iff] at hrun
    obtain ⟨mid, hstep, hrun⟩ := hrun
    rw [List.length_cons, Nat.add_right_comm] at h
    exact ih (h.step hstep).1 hrun

theorem Idle.booked {room : Nat} (h : Idle m) (hfit : rootValue m spaceId + room < 2 ^ 64) :
    Booked spaceId room m := by
  have hbook : rootBook m spaceId = ⟨rootValue m spaceId, []⟩ := by
    unfold rootBook
    rw [h.stack]
    rfl
  refine ⟨⟨_, h.standing⟩, ?_, ?_⟩
  · rw [hbook]
    exact fun copy hcopy => absurd hcopy List.not_mem_nil
  · rw [hbook]
    exact hfit

theorem RootAct.safe_iff {event : ThreadEvent} {act : Act} (h : RootAct spaceId m m' event act) :
    (rootBook m spaceId).Safe act ↔ CopyKeepsUp spaceId m event := by
  by_cases hcloses : act = .closes
  · obtain ⟨hends, k, htop, hcounts⟩ := h.closes.mp hcloses
    subst hcloses
    unfold Book.Safe CopyKeepsUp
    rw [rootBook_head htop hcounts]
    constructor
    · intro hsafe _ j hj _
      have hjk : j = k := Option.mem_unique hj htop
      exact hjk ▸ hsafe _ rfl
    · intro hkeeps copy hcopy
      rw [← Option.mem_some.mp hcopy]
      exact hkeeps hends k htop hcounts
  · refine iff_of_true ?_ ?_
    · cases act with
      | closes => exact absurd rfl hcloses
      | _ => trivial
    · intro hends k htop hcounts
      exact absurd (h.closes.mpr ⟨hends, k, htop, hcounts⟩) hcloses

/-- A step takes the root ordinal back exactly when it ends a scope whose copy is behind. -/
theorem Booked.rises_iff {room : Nat} (h : Booked spaceId (room + 1) m) {event : ThreadEvent}
    (hstep : threadStep p m event = some m') :
    rootValue m spaceId ≤ rootValue m' spaceId ↔ CopyKeepsUp spaceId m event := by
  obtain ⟨-, act, hact⟩ := h.step hstep
  rw [← hact.safe_iff, ← shared_le_after_iff h.sound, ← hact.book]
  rfl

theorem copiesKeepUp_cons {event : ThreadEvent} (hstep : threadStep p m event = some m') :
    copiesKeepUp p spaceId (event :: events) m = true ↔
      CopyKeepsUp spaceId m event ∧ copiesKeepUp p spaceId events m' = true := by
  unfold copiesKeepUp
  rw [everyStep_cons hstep, decide_eq_true_eq]

theorem Booked.rises (h : Booked spaceId events.length m)
    (hkeeps : copiesKeepUp p spaceId events m = true) (hrun : threadRun p events m = some m') :
    rootValue m spaceId ≤ rootValue m' spaceId := by
  induction events generalizing m with
  | nil =>
    cases hrun
    exact Nat.le_refl _
  | cons event events ih =>
    rw [threadRun_cons, Option.bind_eq_some_iff] at hrun
    obtain ⟨mid, hstep, hrun⟩ := hrun
    rw [copiesKeepUp_cons hstep] at hkeeps
    exact Nat.le_trans ((h.rises_iff hstep).mpr hkeeps.1) (ih (h.step hstep).1 hkeeps.2 hrun)

theorem Booked.keepsUp (h : Booked spaceId events.length m)
    (hrun : threadRun p events m = some m')
    (hrises : ∀ before event a b, before ++ [event] <+: events →
      threadRun p before m = some a → threadStep p a event = some b →
      rootValue a spaceId ≤ rootValue b spaceId) : copiesKeepUp p spaceId events m = true := by
  induction events generalizing m with
  | nil => rfl
  | cons event events ih =>
    rw [threadRun_cons, Option.bind_eq_some_iff] at hrun
    obtain ⟨mid, hstep, hrun⟩ := hrun
    rw [copiesKeepUp_cons hstep]
    refine ⟨(h.rises_iff hstep).mp (hrises [] event m mid (by simp) rfl hstep), ?_⟩
    refine ih (h.step hstep).1 hrun ?_
    intro before next a b hstarts hbefore hnext
    refine hrises (event :: before) next a b (List.cons_prefix_cons.mpr ⟨rfl, hstarts⟩) ?_ hnext
    rw [threadRun_cons, hstep]
    exact hbefore

theorem Booked.of_le {room less : Nat} (h : Booked spaceId room m) (hle : less ≤ room) :
    Booked spaceId less m :=
  ⟨h.standing, h.sound, Nat.lt_of_le_of_lt (Nat.add_le_add_left hle _) h.fits⟩

theorem Booked.reach {first second : List ThreadEvent} (h : Booked spaceId events.length m)
    (hstarts : first ++ second <+: events) (hrun : threadRun p first m = some m') :
    Booked spaceId second.length m' := by
  have hle := hstarts.length_le
  rw [List.length_append] at hle
  exact (h.of_le hle).run hrun

theorem rootBook_opened {k : Nat} {m m' : Machine} (htop : k ∈ topScope m')
    (hcounts : countsRoot m' spaceId k = true)
    (hbook : rootBook m' spaceId = (rootBook m spaceId).after .opens) :
    (m'.scopes k).initialRootCallOrdinal = rootValue m spaceId := by
  have hhead := rootBook_head htop hcounts
  rw [hbook] at hhead
  exact (congrArg Prod.fst (Option.some.inj hhead)).symm

/-- A scope that counts on its own slot leaves the root ordinal beyond where it was entered. -/
theorem ParentlessScope.moves {enter leave : ThreadEvent} {body : List ThreadEvent}
    {outer left : Machine} (h : ParentlessScope p spaceId outer enter body leave left)
    (hbooked : Booked spaceId (body.length + 2) outer) :
    rootValue outer spaceId < rootValue left spaceId := by
  obtain ⟨entered, inner, item, hentry, hstack, hbalanced, hexit⟩ := h.run
  obtain ⟨hbooked', act, hact⟩ := hbooked.step hentry
  have hopens : act = .opens := by
    refine hact.opens.mpr ⟨h.enters, ?_, ?_⟩
    · rw [hstack]
      exact List.cons_ne_self _ _
    · intro n hn g hg
      exact h.parentless n hn g (currentThreadFrame_sub hg)
  subst hopens
  obtain ⟨k, hpushed, hcounts⟩ := hact.opened.mp rfl
  have htop : k ∈ topScope entered := by
    unfold topScope
    rcases hpushed with hpushed | hpushed <;> rw [hpushed] <;> rfl
  have hinitial := rootBook_opened htop hcounts hact.book
  obtain ⟨l, hstanding⟩ := hbooked'.standing
  obtain ⟨base, -, hseg⟩ := hstanding.segment
  have hsaved := SavedOn.run hstanding hbalanced.run hbalanced.stays
  obtain ⟨rest, hids⟩ := scopeIds_topScope htop
  have hk : k ∈ scopeIds entered.tstate.stack := hids ▸ List.mem_cons_self
  have hscope := hsaved.scope k hk
  simp only [SpaceScope.mk.injEq] at hscope
  have htop' : k ∈ topScope inner := by
    unfold topScope
    rw [hbalanced.ends]
    exact htop
  have hcounts' : countsRoot inner spaceId k = true :=
    (hsaved.countsRoot hk (hseg.scope_lt hk)).trans hcounts
  have hbookedInner : Booked spaceId (0 + 1) inner := hbooked'.run hbalanced.run
  obtain ⟨-, act, hact'⟩ := hbookedInner.step hexit
  have hcloses : act = .closes := hact'.closes.mpr ⟨h.ends, k, htop', hcounts'⟩
  subst hcloses
  have hleft := lt_shared_after_closes hbookedInner.sound (rootBook_head htop' hcounts')
  rw [← hact'.book] at hleft
  simp only [hscope.2.2.2.2.1, hinitial] at hleft
  exact hleft

/-- The root ordinal of a space never goes back exactly if no scope that ends has a copy that is
behind the ordinal. -/
theorem rootOrdinal_neverBack {m₀ : Machine} (hidle : Idle m₀)
    (hrun : threadRun p events m₀ = some m)
    (hfit : rootValue m₀ spaceId + events.length < 2 ^ 64) :
    copiesKeepUp p spaceId events m₀ = true ↔ NeverBack p spaceId events m₀ := by
  have hbooked := hidle.booked hfit
  constructor
  · intro hkeeps
    have hrises : ∀ first second a b, first ++ second <+: events →
        threadRun p first m₀ = some a → threadRun p second a = some b →
        rootValue a spaceId ≤ rootValue b spaceId := by
      intro first second a b hstarts hfirst hsecond
      obtain ⟨rest, hrest⟩ := hstarts
      unfold copiesKeepUp at hkeeps
      rw [← hrest, List.append_assoc, everyStep_append hfirst, everyStep_append hsecond] at hkeeps
      exact (hbooked.reach ⟨rest, hrest⟩ hfirst).rises hkeeps.2.1 hsecond
    refine ⟨hrises, ?_⟩
    intro before enter body leave outer left hstarts hbefore hscope
    rw [List.append_assoc, List.cons_append] at hstarts
    refine ⟨hscope.moves ?_, ?_⟩
    · have hreach := hbooked.reach hstarts hbefore
      rwa [List.length_cons, List.length_append] at hreach
    · intro part mid hpart hmid
      obtain ⟨rest, hrest⟩ := hpart
      have hwhole : threadRun p (enter :: body ++ [leave]) outer = some left := by
        obtain ⟨entered, inner, item, hentry, -, hbalanced, hexit⟩ := hscope.run
        rw [List.cons_append, threadRun_cons, hentry]
        refine (threadRun_join [leave] hbalanced.run).trans ?_
        rw [threadRun_cons, hexit]
        rfl
      rw [← hrest, List.append_assoc] at hwhole
      obtain ⟨mid', hmid', hlast⟩ := threadRun_append hwhole
      rw [hmid, Option.some.injEq] at hmid'
      subst hmid'
      refine hrises (before ++ part) (rest ++ [leave]) mid left ?_
        ((threadRun_join part hbefore).trans hmid) hlast
      rw [List.append_assoc, ← List.append_assoc part, hrest]
      exact hstarts
  · intro hnever
    refine hbooked.keepsUp hrun ?_
    intro before event a b hstarts hbefore hstep
    refine hnever.rises before [event] a b hstarts hbefore ?_
    rw [threadRun_cons, hstep]
    rfl

/-- A scope of the space right inside another one, with one activation in the inner one. -/
def nestedScopes : List ThreadEvent := [
  .call 9 0 true true, .begin [] 0, .enterSpace 0 7 true, .enterSpace 1 7 true,
  .call 0 0 true true, .begin [] 0, .leave 0, .leaveSpace, .leaveSpace, .leave 0]

theorem rootOrdinal_neverBack_nested :
    NeverBack ⟨true, true⟩ 7 nestedScopes (freshMachine ⟨true, true⟩ 0) := by
  obtain ⟨m, hrun⟩ : ∃ m, threadRun ⟨true, true⟩ nestedScopes (freshMachine ⟨true, true⟩ 0) =
    some m := ⟨_, rfl⟩
  exact (rootOrdinal_neverBack (freshMachine_idle ⟨true, true⟩ 0) hrun (by decide)).mp rfl

/-- The same up to the end of the inner scope, with a second activation in it. -/
def busyInnerScope : List ThreadEvent := [
  .call 9 0 true true, .begin [] 0, .enterSpace 0 7 true, .enterSpace 1 7 true,
  .call 0 0 true true, .begin [] 0, .leave 0, .call 1 0 true true, .begin [] 0, .leave 0,
  .leaveSpace]

/-- The outer scope writes 1 over the 2 that the inner one left. -/
theorem rootOrdinal_goesBack :
    (∃ a b, threadRun ⟨true, true⟩ busyInnerScope (freshMachine ⟨true, true⟩ 0) = some a ∧
      threadRun ⟨true, true⟩ [.leaveSpace] a = some b ∧ rootValue a 7 = 2 ∧ rootValue b 7 = 1) ∧
    ¬NeverBack ⟨true, true⟩ 7 (busyInnerScope ++ [.leaveSpace])
      (freshMachine ⟨true, true⟩ 0) := by
  refine ⟨⟨_, _, rfl, rfl, rfl, rfl⟩, ?_⟩
  intro hnever
  have hrises := hnever.rises busyInnerScope [.leaveSpace] _ _ (List.prefix_refl _) rfl rfl
  exact absurd hrises (by decide)

end rootRuns

end Retrace
