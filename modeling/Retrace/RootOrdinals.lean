import Retrace.PrivateCopies
import Retrace.OtherSpaces

/-! The root ordinal of a space over a run: it is a counter with a private copy for each open scope
that was entered without a frame of the space. -/

set_option autoImplicit false

namespace Retrace

open PrivateCopies

/-- The scope counts on its own slot, in place of the root ordinal of this space. -/
def countsRoot (m : Machine) (spaceId k : Nat) : Bool :=
  (m.scopes k).useLocalRoot && (m.tstate.space (m.scopes k).space).spaceId == spaceId

def copiesOf (m : Machine) (spaceId : Nat) (ids : List Nat) : List (Nat × Nat) :=
  (ids.filter (countsRoot m spaceId)).map (fun k =>
    ((m.scopes k).initialRootCallOrdinal, (m.scopes k).localRootCallOrdinal))

/-- A space that the thread does not have yet will start at zero. -/
def rootValue (m : Machine) (spaceId : Nat) : Nat := (rootOrdinal m spaceId).getD 0

def rootBook (m : Machine) (spaceId : Nat) : Book :=
  ⟨rootValue m spaceId, copiesOf m spaceId (scopeIds m.tstate.stack)⟩

def ThreadEvent.endsScope : ThreadEvent → Bool
  | .leaveSpace => true
  | .callbackEnd => true
  | _ => false

def topScope (m : Machine) : Option Nat :=
  match m.tstate.stack with
  | .scope k :: _ => some k
  | .callback k :: _ => some k
  | _ => none

/-- If the event ends a scope that counts on a copy of the space's root ordinal, the copy is not
behind the ordinal; a copy on which nothing was counted stands for one more. -/
def CopyKeepsUp (spaceId : Nat) (m : Machine) (event : ThreadEvent) : Prop :=
  event.endsScope = true → ∀ k ∈ topScope m, countsRoot m spaceId k = true →
    rootValue m spaceId ≤
      max ((m.scopes k).initialRootCallOrdinal + 1) (m.scopes k).localRootCallOrdinal

/-- Where the slot of a frame lies, seen from the frame: a root ordinal below everything, a scope
right below, a frame anywhere below. -/
def SlotBelow (m : Machine) (rest : List StackItem) : OrdinalPtr → Prop
  | .root n => rest = [] ∧ n < m.tstate.spaces.length
  | .scope k => (∃ lower, rest = .scope k :: lower ∨ rest = .callback k :: lower) ∧
      (m.scopes k).useLocalRoot = true
  | .frame g => .frame g ∈ rest

section book
variable {p : Platform} {m m' : Machine} {base : Context} {spaceId : Nat}
  {items : List StackItem}

theorem rootValue_eq (hcircle : Circle m.tstate) (hcircle' : Circle m'.tstate)
    (hsaved : SavedOn [] m m') (hnew : ∀ n, m.tstate.spaces.length ≤ n →
      n < m'.tstate.spaces.length → (m'.tstate.space n).rootCallOrdinal = 0) :
    rootValue m' spaceId = ((findThreadSpace m.tstate spaceId).map (fun n =>
      (m'.tstate.space n).rootCallOrdinal)).getD 0 := by
  unfold rootValue rootOrdinal
  cases hfind : findThreadSpace m.tstate spaceId with
  | some n =>
    obtain ⟨hn, hid⟩ := hcircle.find_some hfind
    have hfound := hcircle'.find_eq (Nat.lt_of_lt_of_le hn hsaved.length)
    rw [hsaved.spaceId n hn, hid] at hfound
    simp only [hfound, Option.map_some]
  | none =>
    cases hfind' : findThreadSpace m'.tstate spaceId with
    | none => rfl
    | some n =>
      obtain ⟨hn, hid⟩ := hcircle'.find_some hfind'
      have hle : m.tstate.spaces.length ≤ n := by
        by_contra hlt
        have hlt := Nat.lt_of_not_le hlt
        exact hcircle.find_none hfind n hlt ((hsaved.spaceId n hlt).symm.trans hid)
      exact hnew n hle hn

theorem rootValue_same (hcircle : Circle m.tstate) (hcircle' : Circle m'.tstate)
    (hsaved : SavedOn [] m m')
    (hold : ∀ n < m.tstate.spaces.length, (m.tstate.space n).spaceId = spaceId →
      (m'.tstate.space n).rootCallOrdinal = (m.tstate.space n).rootCallOrdinal)
    (hnew : ∀ n, m.tstate.spaces.length ≤ n →
      n < m'.tstate.spaces.length → (m'.tstate.space n).rootCallOrdinal = 0) :
    rootValue m' spaceId = rootValue m spaceId := by
  rw [rootValue_eq hcircle hcircle' hsaved hnew]
  unfold rootValue rootOrdinal
  cases hfind : findThreadSpace m.tstate spaceId with
  | none => rfl
  | some n =>
    obtain ⟨hn, hid⟩ := hcircle.find_some hfind
    exact hold n hn hid

theorem rootValue_node (hcircle : Circle m.tstate) {n : Nat} (hn : n < m.tstate.spaces.length)
    (hid : (m.tstate.space n).spaceId = spaceId) :
    rootValue m spaceId = (m.tstate.space n).rootCallOrdinal := by
  unfold rootValue rootOrdinal
  have hfound := hcircle.find_eq hn
  rw [hid] at hfound
  simp only [hfound, Option.map_some, Option.getD_some]

theorem copiesOf_cons (k : Nat) (ids : List Nat) :
    copiesOf m spaceId (k :: ids) = if countsRoot m spaceId k then
      ((m.scopes k).initialRootCallOrdinal, (m.scopes k).localRootCallOrdinal) ::
        copiesOf m spaceId ids
      else copiesOf m spaceId ids := by
  unfold copiesOf
  rw [List.filter_cons]
  split <;> rfl

theorem SavedOn.countsRoot (h : SavedOn items m m') {k : Nat} (hk : k ∈ scopeIds items)
    (hlt : (m.scopes k).space < m.tstate.spaces.length) :
    countsRoot m' spaceId k = countsRoot m spaceId k := by
  have hscope := h.scope k hk
  simp only [SpaceScope.mk.injEq] at hscope
  unfold Retrace.countsRoot
  rw [h.scope_spaceId hk hlt, hscope.2.2.2.2.2.2]

theorem SavedOn.copiesOf (h : SavedOn items m m')
    (hlt : ∀ k ∈ scopeIds items, (m.scopes k).space < m.tstate.spaces.length)
    (hlocal : ∀ k ∈ scopeIds items, Retrace.countsRoot m spaceId k = true →
      (m'.scopes k).localRootCallOrdinal = (m.scopes k).localRootCallOrdinal) :
    copiesOf m' spaceId (scopeIds items) = copiesOf m spaceId (scopeIds items) := by
  have hall : ∀ ids : List Nat, (∀ k ∈ ids, k ∈ scopeIds items) →
      Retrace.copiesOf m' spaceId ids = Retrace.copiesOf m spaceId ids := by
    intro ids
    induction ids with
    | nil => exact fun _ => rfl
    | cons k rest ih =>
      intro hids
      have hk := hids k List.mem_cons_self
      have hscope := h.scope k hk
      simp only [SpaceScope.mk.injEq] at hscope
      rw [copiesOf_cons, copiesOf_cons, h.countsRoot hk (hlt k hk), hscope.2.2.2.2.1,
        ih (fun j hj => hids j (List.mem_cons_of_mem _ hj))]
      by_cases hcounts : Retrace.countsRoot m spaceId k = true
      · rw [if_pos hcounts, if_pos hcounts, hlocal k hk hcounts]
      · rw [if_neg hcounts, if_neg hcounts]
  exact hall _ (fun _ hk => hk)

theorem rootBook_quiet (hseg : Segment [] base m) (hcircle' : Circle m'.tstate)
    (hsaved : SavedOn m.tstate.stack m m')
    (hids : scopeIds m'.tstate.stack = scopeIds m.tstate.stack)
    (hlocal : ∀ k ∈ scopeIds m.tstate.stack,
      (m'.scopes k).localRootCallOrdinal = (m.scopes k).localRootCallOrdinal)
    (hold : ∀ n < m.tstate.spaces.length,
      (m'.tstate.space n).rootCallOrdinal = (m.tstate.space n).rootCallOrdinal)
    (hnew : ∀ n, m.tstate.spaces.length ≤ n →
      n < m'.tstate.spaces.length → (m'.tstate.space n).rootCallOrdinal = 0) :
    rootBook m' spaceId = rootBook m spaceId := by
  unfold rootBook
  rw [hids, hsaved.copiesOf (fun k hk => hseg.scope_lt hk) (fun k hk _ => hlocal k hk),
    rootValue_same hseg.circle hcircle' hsaved.none (fun n hn _ => hold n hn) hnew]

theorem findThreadSpace_setCallback (m : Machine) (active : Bool) (frame : Option Nat)
    (spaceId : Nat) : findThreadSpace (m.setCallback active frame).tstate spaceId =
      findThreadSpace m.tstate spaceId := by
  have hloop : ∀ fuel node, findThreadSpaceLoop (m.setCallback active frame).tstate spaceId fuel
      node = findThreadSpaceLoop m.tstate spaceId fuel node := by
    intro fuel
    induction fuel with
    | zero => exact fun _ => rfl
    | succ fuel ih =>
      intro node
      unfold findThreadSpaceLoop
      rw [ih]
      rfl
  unfold findThreadSpace
  rw [hloop]
  rfl

theorem setCallback_book (m : Machine) (active : Bool) (frame : Option Nat) (spaceId : Nat) :
    rootBook (m.setCallback active frame) spaceId = rootBook m spaceId := by
  unfold rootBook rootValue rootOrdinal
  rw [findThreadSpace_setCallback]
  rfl

theorem pushFrame_book (hseg : Segment [] base m) {f : Nat} (frame : InterpreterFrame)
    (hoff : .frame f ∉ m.tstate.stack) :
    rootBook (m.pushFrame f frame) spaceId = rootBook m spaceId := by
  refine rootBook_quiet hseg (pushFrame_circle m hseg.circle f frame)
    (savedOn_pushFrame frame hoff) rfl (fun _ _ => rfl) ?_ ?_
  · intro n hn
    rw [pushFrame_space m f frame hn]
    split <;> rfl
  · intro n hle hlt
    rw [pushFrame_length] at hlt
    omega

theorem Segment.slot_below (h : Segment [] base m) (hroot : base.ptr = some (.root base.space))
    {f : Nat} {rest : List StackItem} (htop : m.tstate.stack = .frame f :: rest) {ptr : OrdinalPtr}
    (hprevious : (m.frames f).previousCallOrdinalPtr = some ptr) : SlotBelow m rest ptr := by
  obtain ⟨items, hitems, hd⟩ := h.items
  rw [List.append_nil] at hitems
  rw [← hitems, htop] at hd
  have hlower := hd.2.2.2
  cases rest with
  | nil =>
    have hbase : (m.frames f).previousCallOrdinalPtr = base.ptr := congrArg Context.ptr hlower.2
    rw [hprevious, hroot, Option.some.injEq] at hbase
    subst hbase
    exact ⟨rfl, hlower.baseOk.space⟩
  | cons item lower =>
    have hscope : ∀ k, (item = .scope k ∨ item = .callback k) →
        ScopeSlot m (lower ++ []) k (frameContext m f m.context) →
        SlotBelow m (item :: lower) ptr := by
      intro k hitem hslot
      obtain ⟨-, hslot⟩ := hslot
      change if (m.scopes k).useLocalRoot then (m.frames f).previousCallOrdinalPtr = _
        else ∃ parent, (m.frames f).previousCallOrdinalPtr = _ ∧ _ at hslot
      rw [hprevious] at hslot
      by_cases hlocal : (m.scopes k).useLocalRoot = true
      · rw [if_pos hlocal, Option.some.injEq] at hslot
        subst hslot
        refine ⟨⟨lower, ?_⟩, hlocal⟩
        rcases hitem with rfl | rfl
        · exact Or.inl rfl
        · exact Or.inr rfl
      · rw [if_neg hlocal] at hslot
        obtain ⟨parent, hptr, hmem, -⟩ := hslot
        rw [Option.some.injEq] at hptr
        subst hptr
        rw [List.append_nil] at hmem
        exact List.mem_cons_of_mem _ hmem
    cases item with
    | frame g =>
      have hptr : (m.frames f).previousCallOrdinalPtr = some (.frame g) := hlower.2.1
      rw [hprevious, Option.some.injEq] at hptr
      subst hptr
      exact List.mem_cons_self
    | scope k => exact hscope k (Or.inl rfl) hlower.2.1
    | callback k => exact hscope k (Or.inr rfl) hlower.2.1

/-- A frame that leaves counts for the space if its slot is the space's root ordinal or a copy
of it. -/
def countsFor (m : Machine) (spaceId : Nat) : OrdinalPtr → Bool
  | .root n => (m.tstate.space n).spaceId == spaceId
  | .scope k => countsRoot m spaceId k
  | .frame _ => false

section popFrame
variable {f node : Nat} {ptr : OrdinalPtr} {rest : List StackItem}

theorem popFrame_rootValue_of_ne (hcircle : Circle m.tstate) (hne : ptr ≠ .frame f)
    (hother : ∀ n, ptr = .root n → (m.tstate.space n).spaceId ≠ spaceId) :
    rootValue (m.popFrame f node ptr rest) spaceId = rootValue m spaceId := by
  refine rootValue_same hcircle (popFrame_circle m hcircle f node ptr rest)
    (savedOn_popFrame rest hne List.not_mem_nil) ?_ ?_
  · intro n hn hid
    rw [popFrame_space m f node ptr rest hn]
    exact if_neg (fun heq => hother n heq hid)
  · intro n hle hlt
    rw [popFrame_length] at hlt
    omega

theorem popFrame_rootValue_root (hcircle : Circle m.tstate) {n : Nat}
    (hn : n < m.tstate.spaces.length) (hid : (m.tstate.space n).spaceId = spaceId)
    (hfit : rootValue m spaceId + 1 < 2 ^ 64) :
    rootValue (m.popFrame f node (.root n) rest) spaceId = rootValue m spaceId + 1 := by
  have hspace := popFrame_space m f node (.root n) rest hn
  have hlength := popFrame_length m f node (.root n) rest
  have hid' : ((m.popFrame f node (.root n) rest).tstate.space n).spaceId = spaceId := by
    rw [hspace]
    exact hid
  rw [rootValue_node hcircle hn hid] at hfit ⊢
  rw [rootValue_node (popFrame_circle m hcircle f node (.root n) rest) (hlength ▸ hn) hid', hspace]
  simp only [if_true]
  exact Nat.mod_eq_of_lt hfit

theorem popFrame_copiesOf {items : List StackItem} (hne : ptr ≠ .frame f)
    (hoff : .frame f ∉ items)
    (hlt : ∀ k ∈ scopeIds items, (m.scopes k).space < m.tstate.spaces.length)
    (hother : ∀ k ∈ scopeIds items, ptr = .scope k → ¬countsRoot m spaceId k = true) :
    copiesOf (m.popFrame f node ptr rest) spaceId (scopeIds items) =
      copiesOf m spaceId (scopeIds items) := by
  refine (savedOn_popFrame rest hne hoff).copiesOf hlt ?_
  intro k hk hcounts
  rw [popFrame_scopes, if_neg (fun heq => hother k hk heq hcounts)]

theorem popFrame_copiesOf_scope {k : Nat} {items lower : List StackItem}
    (hoff : .frame f ∉ items) (hitems : scopeIds items = k :: scopeIds lower)
    (hlower : ∀ item ∈ lower, item ∈ items) (hunique : k ∉ scopeIds lower)
    (hlt : ∀ j ∈ scopeIds items, (m.scopes j).space < m.tstate.spaces.length)
    (hcounts : countsRoot m spaceId k = true)
    (hfit : (m.scopes k).localRootCallOrdinal + 1 < 2 ^ 64) :
    copiesOf (m.popFrame f node (.scope k) rest) spaceId (scopeIds items) =
      ((m.scopes k).initialRootCallOrdinal, (m.scopes k).localRootCallOrdinal + 1) ::
        copiesOf m spaceId (scopeIds lower) := by
  have hk : k ∈ scopeIds items := hitems ▸ List.mem_cons_self
  have hne : OrdinalPtr.scope k ≠ .frame f := by simp
  have hsaved : SavedOn items m (m.popFrame f node (.scope k) rest) :=
    savedOn_popFrame rest hne hoff
  have hcounts' := (hsaved.countsRoot hk (hlt k hk)).trans hcounts
  have hcopies := @popFrame_copiesOf m spaceId f node (.scope k) rest lower hne
    (fun hf => hoff (hlower _ hf)) (fun j hj => hlt j (hitems ▸ List.mem_cons_of_mem _ hj))
    (fun j hj heq => absurd (OrdinalPtr.scope.inj heq ▸ hj) hunique)
  rw [hitems, copiesOf_cons, if_pos hcounts', hcopies, popFrame_scopes, if_pos rfl]
  rw [Nat.mod_eq_of_lt hfit]

theorem popFrame_book (hseg : Segment [] base m) (hroot : base.ptr = some (.root base.space))
    (htop : m.tstate.stack = .frame f :: rest)
    (hprevious : (m.frames f).previousCallOrdinalPtr = some ptr) (hne : ptr ≠ .frame f)
    (hfit : (rootBook m spaceId).high + 1 < 2 ^ 64) :
    rootBook (m.popFrame f node ptr rest) spaceId = (rootBook m spaceId).after
      (if countsFor m spaceId ptr then .counts else .idle) := by
  have hbelow := hseg.slot_below hroot htop hprevious
  have hnodup := hseg.nodup
  rw [htop, List.nodup_cons] at hnodup
  have hids : scopeIds m.tstate.stack = scopeIds rest := by rw [htop]; rfl
  have hlt : ∀ k ∈ scopeIds rest, (m.scopes k).space < m.tstate.spaces.length :=
    fun k hk => hseg.scope_lt (hids ▸ hk)
  have hbook : rootBook m spaceId = ⟨rootValue m spaceId, copiesOf m spaceId (scopeIds rest)⟩ := by
    unfold rootBook
    rw [hids]
  have hbook' : rootBook (m.popFrame f node ptr rest) spaceId =
      ⟨rootValue (m.popFrame f node ptr rest) spaceId,
        copiesOf (m.popFrame f node ptr rest) spaceId (scopeIds rest)⟩ := by
    unfold rootBook
    rw [popFrame_stack]
  rw [hbook] at hfit
  rw [hbook, hbook']
  cases ptr with
  | frame g =>
    rw [popFrame_rootValue_of_ne hseg.circle hne (by simp),
      popFrame_copiesOf hne hnodup.1 hlt (by simp)]
    rfl
  | root n =>
    obtain ⟨rfl, hn⟩ := hbelow
    by_cases hid : (m.tstate.space n).spaceId = spaceId
    · have hle := shared_le_high ⟨rootValue m spaceId, copiesOf m spaceId (scopeIds [])⟩
      have hvalue := @popFrame_rootValue_root m spaceId f node [] hseg.circle n hn hid
        (by simp only at hle; omega)
      simp only [countsFor, hid, beq_self_eq_true, if_true, hvalue]
      rfl
    · have hcounts : countsFor m spaceId (.root n) = false := beq_false_of_ne hid
      rw [popFrame_rootValue_of_ne hseg.circle hne
        (fun j heq => by rw [← OrdinalPtr.root.inj heq]; exact hid), hcounts]
      rfl
  | scope k =>
    obtain ⟨⟨lower, hrest⟩, hlocal⟩ := hbelow
    have hcons : scopeIds rest = k :: scopeIds lower := by
      rcases hrest with rfl | rfl <;> rfl
    have hlower : ∀ item ∈ lower, item ∈ rest := by
      rcases hrest with rfl | rfl <;> exact fun item h => List.mem_cons_of_mem _ h
    have hunique := hseg.scopes
    rw [hids, hcons, List.nodup_cons] at hunique
    rw [popFrame_rootValue_of_ne hseg.circle hne (by simp)]
    by_cases hcounts : countsRoot m spaceId k = true
    · rw [hcons, copiesOf_cons, if_pos hcounts] at hfit
      have hle := copy_le_high (b := ⟨rootValue m spaceId,
        ((m.scopes k).initialRootCallOrdinal, (m.scopes k).localRootCallOrdinal) ::
          copiesOf m spaceId (scopeIds lower)⟩) List.mem_cons_self
      rw [popFrame_copiesOf_scope hnodup.1 hcons hlower hunique.1 hlt hcounts
        (by simp only at hle; omega), hcons, copiesOf_cons, if_pos hcounts]
      simp only [countsFor, hcounts, if_true, Book.after]
    · rw [popFrame_copiesOf hne hnodup.1 hlt
        (fun j _ heq => by rw [← OrdinalPtr.scope.inj heq]; exact hcounts)]
      simp only [countsFor, hcounts, Bool.false_eq_true, if_false]
      rfl

end popFrame

theorem enterSpace_book (hseg : Segment [] base m) {k entered node : Nat} {t : ThreadState}
    {scope : SpaceScope} {ptr : OrdinalPtr} (h : EntersSpace m k entered m' node t scope ptr)
    (hunused : k ∉ scopeIds m.tstate.stack) {item : StackItem}
    (hitem : item = .scope k ∨ item = .callback k) :
    rootBook (m'.push item) spaceId = (rootBook m spaceId).after
      (if countsRoot m' spaceId k then .opens else .idle) := by
  have hsaved : SavedOn m.tstate.stack m (m'.push item) := (savedOn_enterSpace h hunused).setStack _
  have hnone := hsaved.none
  have hcircle : Circle (m'.push item).tstate :=
    h.circle.congr rfl rfl (fun _ _ => ⟨rfl, rfl⟩)
  have hspaces : ∀ n, (m'.push item).tstate.space n = t.space n := by
    intro n
    rw [h.result]
    rfl
  have hlength : (m'.push item).tstate.spaces.length = t.spaces.length := by
    rw [h.result]
    rfl
  have hscopes : ∀ j, (m'.push item).scopes j = if j = k then scope else m.scopes j := by
    intro j
    rw [h.result]
    exact Function.update_apply _ _ _ _
  have hids : scopeIds (m'.push item).tstate.stack = k :: scopeIds m.tstate.stack := by
    have hstack : (m'.push item).tstate.stack = item :: m.tstate.stack :=
      congrArg _ h.callbackState.1
    rw [hstack]
    rcases hitem with rfl | rfl <;> rfl
  have hvalue : rootValue (m'.push item) spaceId = rootValue m spaceId := by
    refine rootValue_same hseg.circle hcircle hnone ?_ ?_
    · intro n hn _
      rw [hspaces, h.grown.space n hn]
    · intro n hle hlt
      obtain ⟨hash, hfresh⟩ := h.grown.fresh n hle (hlength ▸ hlt)
      rw [hspaces, hfresh]
      rfl
  have hcopies := @SavedOn.copiesOf _ _ spaceId _ hsaved (fun j hj => hseg.scope_lt hj)
    (fun j hj _ => by
      have hjk : j ≠ k := fun heq => hunused (heq ▸ hj)
      rw [hscopes, if_neg hjk])
  have hcounts : countsRoot (m'.push item) spaceId k = countsRoot m' spaceId k := rfl
  have hk : (m'.push item).scopes k = scope := by rw [hscopes, if_pos rfl]
  unfold rootBook
  rw [hids, copiesOf_cons, hcounts, hcopies, hvalue, hk]
  by_cases hopens : countsRoot m' spaceId k = true
  · have hparts := hopens
    unfold countsRoot at hparts
    rw [Bool.and_eq_true, beq_iff_eq] at hparts
    have hscope : m'.scopes k = scope := hk
    rw [hscope, h.space] at hparts
    obtain ⟨hnode, -⟩ := h.grown.circle.find_some h.found
    have hroot : rootValue (m'.push item) spaceId = (t.space node).rootCallOrdinal := by
      have hid : ((m'.push item).tstate.space node).spaceId = spaceId := hparts.2
      rw [rootValue_node hcircle (hlength ▸ hnode) hid, hspaces]
    have hslot := h.slot
    split at hslot
    · rw [if_pos hopens, if_pos hopens, ← h.counted, hslot.2.2, ← hroot, hvalue]
      rfl
    · rw [hslot.1] at hparts
      exact absurd hparts.1 (by simp)
  · rw [if_neg hopens, if_neg hopens]
    rfl

theorem leaveSpace_book (hseg : Segment [] base m) {k : Nat} {item : StackItem}
    {rest : List StackItem} (htop : m.tstate.stack = item :: rest)
    (hitem : item = .scope k ∨ item = .callback k)
    (hfit : (rootBook m spaceId).high + 1 < 2 ^ 64) :
    rootBook ((leaveSpace m k).setStack rest) spaceId = (rootBook m spaceId).after
      (if countsRoot m spaceId k then .closes else .idle) := by
  have hcircle : Circle ((leaveSpace m k).setStack rest).tstate :=
    (leaveSpace_circle m hseg.circle k).congr rfl rfl (fun _ _ => ⟨rfl, rfl⟩)
  have hsaved : SavedOn m.tstate.stack m ((leaveSpace m k).setStack rest) :=
    (savedOn_leaveSpace _ m k).setStack rest
  have hnone := hsaved.none
  have hids : scopeIds m.tstate.stack = k :: scopeIds rest := by
    rw [htop]
    rcases hitem with rfl | rfl <;> rfl
  have hunique := hseg.scopes
  rw [hids, List.nodup_cons] at hunique
  have hk : (m.scopes k).space < m.tstate.spaces.length :=
    hseg.scope_lt (hids ▸ List.mem_cons_self)
  have hlength := leaveSpace_length m k
  have hspace : ∀ n < m.tstate.spaces.length,
      (((leaveSpace m k).setStack rest).tstate.space n).rootCallOrdinal =
        if (m.scopes k).useLocalRoot = true ∧ n = (m.scopes k).space then
          (m.scopes k).leftOrdinal else (m.tstate.space n).rootCallOrdinal := by
    intro n hn
    exact congrArg SpaceState.rootCallOrdinal (leaveSpace_space m k hn)
  have hnew : ∀ n, m.tstate.spaces.length ≤ n →
      n < ((leaveSpace m k).setStack rest).tstate.spaces.length →
      (((leaveSpace m k).setStack rest).tstate.space n).rootCallOrdinal = 0 := by
    intro n hle hlt
    have hlt' : n < (leaveSpace m k).tstate.spaces.length := hlt
    omega
  have hlower : ∀ item' ∈ rest, item' ∈ m.tstate.stack := by
    rw [htop]
    exact fun item' h => List.mem_cons_of_mem _ h
  have hcopies := @SavedOn.copiesOf _ _ spaceId _ (hsaved.mono hlower)
    (fun j hj => hseg.scope_lt (hids ▸ List.mem_cons_of_mem _ hj)) (fun j hj _ => by
      have hjk : j ≠ k := fun heq => hunique.1 (heq ▸ hj)
      exact congrArg SpaceScope.localRootCallOrdinal (leaveSpace_scopes_of_ne m hjk))
  have hbook : rootBook m spaceId =
      ⟨rootValue m spaceId, copiesOf m spaceId (k :: scopeIds rest)⟩ := by
    unfold rootBook
    rw [hids]
  have hbook' : rootBook ((leaveSpace m k).setStack rest) spaceId =
      ⟨rootValue ((leaveSpace m k).setStack rest) spaceId, copiesOf m spaceId (scopeIds rest)⟩ := by
    rw [← hcopies]
    rfl
  rw [hbook] at hfit
  rw [hbook, hbook']
  by_cases hcounts : countsRoot m spaceId k = true
  · have hparts := hcounts
    unfold countsRoot at hparts
    rw [Bool.and_eq_true, beq_iff_eq] at hparts
    have hid : (((leaveSpace m k).setStack rest).tstate.space (m.scopes k).space).spaceId =
        spaceId := (hnone.spaceId _ hk).trans hparts.2
    have hvalue : rootValue ((leaveSpace m k).setStack rest) spaceId =
        (m.scopes k).leftOrdinal := by
      rw [rootValue_node hcircle (hlength ▸ hk) hid, hspace _ hk, if_pos ⟨hparts.1, rfl⟩]
    rw [copiesOf_cons, if_pos hcounts] at hfit
    have hle := copy_le_high (b := ⟨rootValue m spaceId,
      ((m.scopes k).initialRootCallOrdinal, (m.scopes k).localRootCallOrdinal) ::
        copiesOf m spaceId (scopeIds rest)⟩) List.mem_cons_self
    have hleft : (m.scopes k).leftOrdinal = writtenBack
        ((m.scopes k).initialRootCallOrdinal, (m.scopes k).localRootCallOrdinal) := by
      unfold SpaceScope.leftOrdinal writtenBack
      simp only
      rw [Nat.mod_eq_of_lt (by simp only at hle; omega)]
    rw [copiesOf_cons, if_pos hcounts, if_pos hcounts, hvalue, hleft]
    rfl
  · have hvalue : rootValue ((leaveSpace m k).setStack rest) spaceId = rootValue m spaceId := by
      refine rootValue_same hseg.circle hcircle hnone ?_ hnew
      intro n hn hid
      refine (hspace n hn).trans (if_neg ?_)
      rintro ⟨hlocal, rfl⟩
      refine hcounts ?_
      unfold countsRoot
      rw [hlocal, hid, beq_self_eq_true]
      rfl
    rw [copiesOf_cons, if_neg hcounts, if_neg hcounts, hvalue]
    rfl

theorem scopeIds_topScope {k : Nat} (htop : k ∈ topScope m) :
    ∃ rest, scopeIds m.tstate.stack = k :: scopeIds rest := by
  unfold topScope at htop
  split at htop
  · rename_i j rest hstack
    rw [hstack, ← Option.mem_some.mp htop]
    exact ⟨rest, rfl⟩
  · rename_i j rest hstack
    rw [hstack, ← Option.mem_some.mp htop]
    exact ⟨rest, rfl⟩
  · cases htop

theorem rootBook_head {k : Nat} (htop : k ∈ topScope m) (hcounts : countsRoot m spaceId k = true) :
    (rootBook m spaceId).copies.head? =
      some ((m.scopes k).initialRootCallOrdinal, (m.scopes k).localRootCallOrdinal) := by
  obtain ⟨rest, hids⟩ := scopeIds_topScope htop
  unfold rootBook
  rw [hids, copiesOf_cons, if_pos hcounts]
  rfl

/-- The space has no visible frame among those that an entry into it looks at. -/
def Unseen (m : Machine) (spaceId : Nat) : Prop :=
  ∀ n, findThreadSpace m.tstate spaceId = some n →
    ∀ g ∈ currentThreadFrame m, m.visibleIn (m.spacePtr n) g = false

/-- The act that an event is for the space's root ordinal. -/
structure RootAct (spaceId : Nat) (m m' : Machine) (event : ThreadEvent) (act : Act) : Prop where
  book : rootBook m' spaceId = (rootBook m spaceId).after act
  closes : act = .closes ↔ event.endsScope = true ∧ ∃ k ∈ topScope m, countsRoot m spaceId k = true
  opens : act = .opens ↔ event.enters = some spaceId ∧ m'.tstate.stack ≠ m.tstate.stack ∧
    Unseen m spaceId
  opened : act = .opens ↔ ∃ k, (m'.tstate.stack = .scope k :: m.tstate.stack ∨
    m'.tstate.stack = .callback k :: m.tstate.stack) ∧ countsRoot m' spaceId k = true
  counts : act = .counts ↔ ∃ f rest ptr, m.tstate.stack = .frame f :: rest ∧
    m'.tstate.stack = rest ∧ (m.frames f).previousCallOrdinalPtr = some ptr ∧
    countsFor m spaceId ptr = true

theorem RootAct.idle {event : ThreadEvent} (hbook : rootBook m' spaceId = rootBook m spaceId)
    (hends : event.endsScope = false)
    (hstill : event.enters = none ∨ m'.tstate.stack = m.tstate.stack)
    (hstack : m'.tstate.stack = m.tstate.stack ∨
      ∃ f, m'.tstate.stack = .frame f :: m.tstate.stack) :
    RootAct spaceId m m' event .idle := by
  refine ⟨hbook, by simp [hends], iff_of_false (by simp) ?_, iff_of_false (by simp) ?_,
    iff_of_false (by simp) ?_⟩
  · rintro ⟨henters, hmoved, -⟩
    rcases hstill with hnone | hsame
    · rw [hnone] at henters
      cases henters
    · exact hmoved hsame
  · rintro ⟨k, hpushed, -⟩
    rcases hstack with hsame | ⟨f, hframe⟩
    · rw [hsame] at hpushed
      rcases hpushed with hpushed | hpushed
      · exact List.cons_ne_self _ _ hpushed.symm
      · exact List.cons_ne_self _ _ hpushed.symm
    · rw [hframe] at hpushed
      rcases hpushed with hpushed | hpushed
      · cases hpushed
      · cases hpushed
  · rintro ⟨f, rest, ptr, htop, hpopped, -, -⟩
    rcases hstack with hsame | ⟨g, hframe⟩
    · rw [hsame, htop] at hpopped
      exact List.cons_ne_self _ _ hpopped
    · rw [hframe, htop] at hpopped
      have hlength := congrArg List.length hpopped
      simp only [List.length_cons] at hlength
      omega

theorem EntersSpace.countsRoot_iff (hseg : Segment [] base m) {k node : Nat} {t : ThreadState}
    {scope : SpaceScope} {ptr : OrdinalPtr} (h : EntersSpace m k spaceId m' node t scope ptr) :
    countsRoot m' spaceId k = true ↔ Unseen m spaceId := by
  have hcounts : countsRoot m' spaceId k = (m'.scopes k).useLocalRoot := by
    unfold countsRoot
    rw [h.scope_spaceId, beq_self_eq_true, Bool.and_true]
  have hscope : m'.scopes k = scope := by
    rw [h.result]
    exact Function.update_self _ _ _
  have hchain := currentThreadFrame_grown h.grown hseg.contextOk.space
  have hslot := h.slot
  rw [hcounts, hscope]
  rw [hchain] at hslot
  constructor
  · intro hlocal n hn g hg
    have hnode : n = node := by
      obtain ⟨hlt, hid⟩ := hseg.circle.find_some hn
      have hfound := h.grown.circle.find_eq (Nat.lt_of_lt_of_le hlt h.grown.length)
      rw [h.grown.space n hlt, hid, h.found, Option.some.injEq] at hfound
      exact hfound.symm
    split at hslot
    · rename_i hnear
      rw [hnode]
      exact Bool.eq_false_iff.mpr (List.find?_eq_none.mp hnear g hg)
    · rw [hslot.1] at hlocal
      cases hlocal
  · intro hunseen
    have hnear : nearestVisibleFrameInSpace m (m.spacePtr node) (currentThreadFrame m) = none := by
      refine List.find?_eq_none.mpr ?_
      intro g hg
      rw [Bool.not_eq_true]
      cases hfind : findThreadSpace m.tstate spaceId with
      | some n =>
        obtain ⟨hlt, hid⟩ := hseg.circle.find_some hfind
        have hfound := h.grown.circle.find_eq (Nat.lt_of_lt_of_le hlt h.grown.length)
        rw [h.grown.space n hlt, hid, h.found, Option.some.injEq] at hfound
        rw [hfound]
        exact hunseen n hfind g hg
      | none =>
        obtain ⟨n, hn, hspace⟩ := hseg.frame_space (mem_frameChain.mp (currentThreadFrame_sub hg))
        refine visibleIn_eq_false ?_
        rw [hspace]
        simp only [Machine.spacePtr, ne_eq, Option.some.injEq, SpacePtr.mk.injEq, true_and]
        rintro rfl
        refine hseg.circle.find_none hfind n hn ?_
        have hid := (h.grown.circle.find_some h.found).2
        rw [h.grown.space n hn] at hid
        exact hid
    rw [hnear] at hslot
    exact hslot.1

theorem RootAct.enterSpace (hseg : Segment [] base m) {k entered node : Nat} {t : ThreadState}
    {scope : SpaceScope} {ptr : OrdinalPtr} (h : EntersSpace m k entered m' node t scope ptr)
    (hunused : k ∉ scopeIds m.tstate.stack) {item : StackItem}
    (hitem : item = .scope k ∨ item = .callback k) {event : ThreadEvent}
    (hevent : event.enters = some entered) (hends : event.endsScope = false) :
    ∃ act, RootAct spaceId m (m'.push item) event act := by
  have hstack : (m'.push item).tstate.stack = item :: m.tstate.stack :=
    congrArg _ h.callbackState.1
  have hopens : countsRoot m' spaceId k = true ↔ event.enters = some spaceId ∧
      (m'.push item).tstate.stack ≠ m.tstate.stack ∧ Unseen m spaceId := by
    rw [hevent, hstack, Option.some.injEq]
    by_cases hentered : entered = spaceId
    · subst hentered
      rw [h.countsRoot_iff hseg]
      simp
    · refine iff_of_false ?_ (fun hand => hentered hand.1)
      unfold countsRoot
      rw [h.scope_spaceId]
      simp [hentered]
  have hact : (if countsRoot m' spaceId k then Act.opens else .idle) = .opens ↔
      countsRoot m' spaceId k = true := by
    split <;> simp_all
  refine ⟨_, enterSpace_book hseg h hunused hitem, ?_, hact.trans hopens, ?_, ?_⟩
  · rw [hends]
    refine iff_of_false ?_ (by simp)
    split <;> simp
  · rw [hact, hstack]
    constructor
    · intro hcounts
      refine ⟨k, ?_, hcounts⟩
      rcases hitem with rfl | rfl
      · exact Or.inl rfl
      · exact Or.inr rfl
    · rintro ⟨j, hpushed, hcounts⟩
      have hjk : j = k := by
        rcases hitem with rfl | rfl <;> rcases hpushed with hpushed | hpushed <;> simp_all
      exact hjk ▸ hcounts
  · refine iff_of_false ?_ ?_
    · split <;> simp
    · rintro ⟨f, rest, ptr, htop, hpopped, -, -⟩
      rw [hstack, htop] at hpopped
      have hlength := congrArg List.length hpopped
      simp only [List.length_cons] at hlength
      omega

theorem RootAct.leaveSpace (hseg : Segment [] base m) {k : Nat} {item : StackItem}
    {rest : List StackItem} (htop : m.tstate.stack = item :: rest)
    (hitem : item = .scope k ∨ item = .callback k)
    (hfit : (rootBook m spaceId).high + 1 < 2 ^ 64) {event : ThreadEvent}
    (hends : event.endsScope = true) (henters : event.enters = none) :
    ∃ act, RootAct spaceId m ((leaveSpace m k).setStack rest) event act := by
  have htopScope : topScope m = some k := by
    unfold topScope
    rcases hitem with rfl | rfl <;> rw [htop]
  refine ⟨_, leaveSpace_book hseg htop hitem hfit, ?_, ?_, ?_, ?_⟩
  · rw [hends, htopScope]
    split <;> simp_all
  · rw [henters]
    refine iff_of_false ?_ (by simp)
    split <;> simp
  · refine iff_of_false ?_ ?_
    · split <;> simp
    · rintro ⟨j, hpushed, -⟩
      have hlength : rest.length = (item :: rest).length + 1 := by
        rcases hpushed with hpushed | hpushed
        · exact congrArg List.length (htop ▸ hpushed)
        · exact congrArg List.length (htop ▸ hpushed)
      simp only [List.length_cons] at hlength
      omega
  · refine iff_of_false ?_ ?_
    · split <;> simp
    · rintro ⟨f, lower, ptr, hframe, -⟩
      rw [htop, List.cons.injEq] at hframe
      rcases hitem with rfl | rfl
      · cases hframe.1
      · cases hframe.1

theorem RootAct.leave (hseg : Segment [] base m) (hroot : base.ptr = some (.root base.space))
    {f node : Nat} {ptr : OrdinalPtr} {rest : List StackItem}
    (top : m.tstate.stack = .frame f :: rest)
    (previous : (m.frames f).previousCallOrdinalPtr = some ptr) (ne : ptr ≠ .frame f)
    (hfit : (rootBook m spaceId).high + 1 < 2 ^ 64) (again : Nat) :
    ∃ act, RootAct spaceId m (m.popFrame f node ptr rest) (.leave again) act := by
  have hstack := popFrame_stack m f node ptr rest
  have hact : (if countsFor m spaceId ptr then Act.counts else .idle) = .counts ↔
      countsFor m spaceId ptr = true := by
    split <;> simp_all
  refine ⟨_, popFrame_book hseg hroot top previous ne hfit, ?_, ?_, ?_, ?_⟩
  · refine iff_of_false ?_ (fun hand => Bool.false_ne_true hand.1)
    split <;> simp
  · refine iff_of_false ?_ (fun hand => Option.some_ne_none _ hand.1.symm)
    split <;> simp
  · refine iff_of_false ?_ ?_
    · split <;> simp
    · rintro ⟨k, hpushed, -⟩
      rw [hstack, top] at hpushed
      have hlength : rest.length = rest.length + 1 + 1 := by
        rcases hpushed with hpushed | hpushed
        · exact congrArg List.length hpushed
        · exact congrArg List.length hpushed
      omega
  · rw [hact, hstack]
    constructor
    · exact fun hcounts => ⟨f, rest, ptr, top, rfl, previous, hcounts⟩
    · rintro ⟨f', rest', ptr', htop, -, hprevious, hcounts⟩
      rw [top, List.cons.injEq, StackItem.frame.injEq] at htop
      rw [← htop.1, previous, Option.some.injEq] at hprevious
      exact hprevious ▸ hcounts

theorem Effect.rootAct (hseg : Segment [] base m) (hroot : base.ptr = some (.root base.space))
    {event : ThreadEvent} (h : Effect m event m')
    (hfit : (rootBook m spaceId).high + 1 < 2 ^ 64) : ∃ act, RootAct spaceId m m' event act := by
  have hquiet : ∀ {m' : Machine}, event.endsScope = false → Circle m'.tstate →
      SavedOn m.tstate.stack m m' →
      m'.tstate.stack = m.tstate.stack → m'.scopes = m.scopes →
      (∀ n < m.tstate.spaces.length,
        (m'.tstate.space n).rootCallOrdinal = (m.tstate.space n).rootCallOrdinal) →
      m'.tstate.spaces.length = m.tstate.spaces.length →
      ∃ act, RootAct spaceId m m' event act := by
    intro m' hends hcircle hsaved hstack hscopes hordinals hlength
    refine ⟨.idle, .idle (rootBook_quiet hseg hcircle hsaved (by rw [hstack])
      (fun k _ => by rw [hscopes]) hordinals ?_) hends (Or.inr hstack) (Or.inl hstack)⟩
    intro n hle hlt
    omega
  cases h with
  | call off limit =>
    exact ⟨.idle, .idle (pushFrame_book hseg _ off) rfl (Or.inl rfl) (Or.inr ⟨_, rfl⟩)⟩
  | resume off limit =>
    exact ⟨.idle, .idle (pushFrame_book hseg _ off) rfl (Or.inl rfl) (Or.inr ⟨_, rfl⟩)⟩
  | newGenerator off =>
    exact hquiet rfl hseg.circle (savedOn_setFrame _ m _ (fun hmem => absurd hmem off)
      (fun hmem => absurd hmem off)) rfl rfl (fun _ _ => rfl) rfl
  | begin top =>
    obtain ⟨hspace, hprev⟩ := begunFrame_saved (m.frames _) _ _
    exact hquiet rfl hseg.circle (savedOn_setFrame _ m _ (fun _ => hspace) (fun _ => hprev)) rfl rfl
      (fun _ _ => rfl) rfl
  | leave top current space node_eq previous ne =>
    exact RootAct.leave hseg hroot top previous ne hfit _
  | leaveInactive => exact ⟨.idle, .idle rfl rfl (Or.inl rfl) (Or.inl rfl)⟩
  | enterFails unused => exact ⟨.idle, .idle rfl rfl (Or.inr rfl) (Or.inl rfl)⟩
  | enterSpace unused enters => exact RootAct.enterSpace hseg enters unused (Or.inl rfl) rfl rfl
  | leaveSpace top => exact RootAct.leaveSpace hseg top (Or.inl rfl) hfit rfl rfl
  | callbackFails unused idle =>
    exact ⟨.idle, .idle (setCallback_book m false none spaceId) rfl (Or.inr rfl) (Or.inl rfl)⟩
  | callbackBegin top unused idle enters =>
    rename_i f k node allocates rest entered t scope ptr
    obtain ⟨act, hact⟩ := @RootAct.enterSpace (m.setCallback true (some f)) entered base spaceId
      (hseg.setCallback true (some f)) k spaceIdDisabled node t scope ptr enters unused
      (.callback k) (Or.inr rfl) (.callbackBegin k allocates) rfl rfl
    have hbook := setCallback_book m true (some f) spaceId
    have hunseen : Unseen (m.setCallback true (some f)) spaceId ↔ Unseen m spaceId := by
      unfold Unseen
      rw [currentThreadFrame_pinned top idle, findThreadSpace_setCallback]
      rfl
    exact ⟨act, hbook ▸ hact.book, hact.closes,
      hact.opens.trans (and_congr_right fun _ => and_congr_right fun _ => hunseen),
      hact.opened, hact.counts⟩
  | callbackEnd top =>
    obtain ⟨act, hact⟩ := @RootAct.leaveSpace m base spaceId hseg _ _ _ top (Or.inr rfl) hfit
      .callbackEnd rfl rfl
    exact ⟨act, (setCallback_book _ false none spaceId).trans hact.book, hact.closes, hact.opens,
      hact.opened, hact.counts⟩
  | threadDelta =>
    rename_i taken allocates tupleAllocates
    rcases threadDelta_cases m taken allocates tupleAllocates with heq | ⟨node, -, heq⟩
    · rw [heq]
      exact ⟨.idle, .idle rfl rfl (Or.inl rfl) (Or.inl rfl)⟩
    · rw [heq]
      refine hquiet rfl (rememberDelta_circle m hseg.circle node)
        (savedOn_rememberDelta _ m node) rfl rfl ?_ (rememberDelta_length m node)
      intro n hn
      rw [rememberDelta_space m node hn]
      split <;> rfl

end book

end Retrace
