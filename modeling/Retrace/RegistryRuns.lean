import Retrace.CallbackNodes
import Retrace.StepRun
import Mathlib.Data.List.Perm.Subperm

/-! All runs of the operations on a callback registry: its list and its flags stay coherent. -/

set_option autoImplicit false

namespace Retrace

/-- An armed slot has coordinates and a callback for a hit; any other slot is cleared. -/
def CallAtFields.Complete (slot : CallAtFields) : Prop :=
  (slot.armed = true ∧ slot.coordinates.isSome = true ∧ slot.callback.isSome = true) ∨
    slot = .cleared

namespace CallbackNode

/-- The slot is complete and the cursor, if there is one, at a live thread. -/
structure Valid (live : List Nat) (node : CallbackNode) : Prop where
  slot : node.callAt.Complete
  cursor : ∀ t, node.lastBytecodeThread = some t → t ∈ live

def Needed (node : CallbackNode) : Prop :=
  node.threadSwitchCallback.isSome = true ∨ node.callAt.armed = true

end CallbackNode

namespace Registry

structure Linked (reg : Registry) (nodes : List Nat) : Prop where
  chain : PointerChain.Chain reg.next reg.spaceCallbacks nodes
  allocated : ∀ a ∈ nodes, a ∈ reg.allocated
  distinct : (nodes.map (fun a => (reg.memory a).spaceId)).Nodup

/-- All nodes but one have a switch callback or a target. -/
structure Registered (reg : Registry) (nodes : List Nat) (but : Option Nat) : Prop
    extends Linked reg nodes where
  valid : ∀ a ∈ nodes, (reg.memory a).Valid reg.live
  needed : ∀ a ∈ nodes, some a ≠ but → (reg.memory a).Needed
  root : reg.callAt.Complete
  last : ∀ t, reg.lastBytecodeThread = some t → t ∈ reg.live

def anyNode (reg : Registry) (nodes : List Nat) (holds : CallbackNode → Bool) : Bool :=
  nodes.any (fun a => holds (reg.memory a))

/-- One node for each space, none without a use, complete slots, flags that tell what the nodes
have, and cursors at live threads. -/
structure Coherent (reg : Registry) (nodes : List Nat) : Prop
    extends Registered reg nodes none where
  switchArmed : reg.threadSwitchArmed =
    reg.anyNode nodes (fun node => node.threadSwitchCallback.isSome)
  callAtArmed : reg.callAtExtraArmed = reg.anyNode nodes (fun node => node.callAt.armed)

section nodes
variable {reg reg' : Registry} {nodes : List Nat} {but : Option Nat} {a : Nat}
  {holds : CallbackNode → Bool}

theorem Linked.length_le (h : Linked reg nodes) : nodes.length ≤ reg.allocated.length :=
  (List.subperm_of_subset h.chain.nodup h.allocated).length_le

theorem Linked.search (h : Linked reg nodes) (holds : CallbackNode → Bool) :
    reg.search holds = some (nodes.find? (fun a => holds (reg.memory a))) :=
  h.chain.findFrom _ h.length_le

theorem find?_isSome_eq_any {α : Type} (p : α → Bool) (list : List α) :
    (list.find? p).isSome = list.any p := by
  rw [Bool.eq_iff_iff, List.find?_isSome, List.any_eq_true]

@[simp] theorem write_self (reg : Registry) (a : Nat) (node : CallbackNode) :
    (reg.write a node).memory a = node := Function.update_self _ _ _

theorem write_of_ne (reg : Registry) (node : CallbackNode) {b : Nat} (h : b ≠ a) :
    (reg.write a node).memory b = reg.memory b := Function.update_of_ne h _ _

theorem modify_memory (reg : Registry) (a : Nat) (f : CallbackNode → CallbackNode) (b : Nat) :
    (reg.modify a f).memory b = if b = a then f (reg.memory b) else reg.memory b := by
  unfold modify
  by_cases hb : b = a
  · rw [if_pos hb, hb, write_self]
  · rw [if_neg hb, write_of_ne reg _ hb]

theorem Registered.modify (h : Registered reg nodes (some a)) {f : CallbackNode → CallbackNode}
    (hspace : (f (reg.memory a)).spaceId = (reg.memory a).spaceId)
    (hnext : (f (reg.memory a)).next = (reg.memory a).next)
    (hvalid : (f (reg.memory a)).Valid reg.live) :
    Registered (reg.modify a f) nodes (some a) := by
  refine ⟨⟨?_, h.allocated, ?_⟩, ?_, ?_, h.root, h.last⟩
  · refine h.chain.congr (fun b _ => ?_)
    unfold next
    rw [modify_memory]
    split
    · rename_i hb
      rw [hb, hnext]
    · rfl
  · have hsame : nodes.map (fun b => ((reg.modify a f).memory b).spaceId) =
        nodes.map (fun b => (reg.memory b).spaceId) := by
      refine List.map_congr_left (fun b _ => ?_)
      rw [modify_memory]
      split
      · rename_i hb
        rw [hb, hspace]
      · rfl
    rw [hsame]
    exact h.distinct
  · intro b hb
    rw [modify_memory]
    split
    · rename_i hba
      rw [hba]
      exact hvalid
    · exact h.valid b hb
  · intro b hb hne
    rw [modify_memory, if_neg (fun heq => hne (congrArg some heq))]
    exact h.needed b hb hne

theorem Registered.except (h : Registered reg nodes none) (a : Nat) :
    Registered reg nodes (some a) :=
  ⟨h.toLinked, h.valid, fun b hb _ => h.needed b hb (by simp), h.root, h.last⟩

theorem Registered.filled (h : Registered reg nodes (some a)) (hneeded : (reg.memory a).Needed) :
    Registered reg nodes none := by
  refine ⟨h.toLinked, h.valid, ?_, h.root, h.last⟩
  intro b hb _
  by_cases hba : b = a
  · rw [hba]
    exact hneeded
  · exact h.needed b hb (fun heq => hba (Option.some.inj heq))

theorem anyNode_modify (holds : CallbackNode → Bool) {f : CallbackNode → CallbackNode}
    (h : ∀ node, holds (f node) = holds node) :
    (reg.modify a f).anyNode nodes holds = reg.anyNode nodes holds := by
  unfold anyNode
  congr 1
  funext b
  rw [modify_memory]
  split
  · exact h _
  · rfl

theorem setLink_memory (reg : Registry) (link value : Option Nat) (b : Nat) :
    ∃ next, (reg.setLink link value).memory b = { reg.memory b with next := next } := by
  cases link with
  | none => exact ⟨_, rfl⟩
  | some c =>
    unfold setLink
    rw [modify_memory]
    split
    · exact ⟨value, rfl⟩
    · exact ⟨_, rfl⟩

theorem setLink_chain (reg : Registry) (link value : Option Nat) :
    (reg.setLink link value).next = PointerChain.setNext reg.next link value ∧
      (reg.setLink link value).spaceCallbacks =
        PointerChain.setHead link value reg.spaceCallbacks := by
  cases link with
  | none => exact ⟨rfl, rfl⟩
  | some c =>
    refine ⟨?_, rfl⟩
    funext b
    change ((reg.modify c (fun node => { node with next := value })).memory b).next =
      Function.update reg.next c value b
    rw [modify_memory]
    by_cases hb : b = c
    · rw [if_pos hb, hb, Function.update_self]
    · rw [if_neg hb, Function.update_of_ne hb]
      rfl

structure SameFields (reg reg' : Registry) : Prop where
  live : reg'.live = reg.live
  last : reg'.lastBytecodeThread = reg.lastBytecodeThread
  switchArmed : reg'.threadSwitchArmed = reg.threadSwitchArmed
  callAtArmed : reg'.callAtExtraArmed = reg.callAtExtraArmed
  callAt : reg'.callAt = reg.callAt

theorem setLink_fields (reg : Registry) (link value : Option Nat) :
    SameFields reg (reg.setLink link value) ∧
      (reg.setLink link value).allocated = reg.allocated := by
  cases link <;> exact ⟨⟨rfl, rfl, rfl, rfl, rfl⟩, rfl⟩

theorem empty_fields {node : CallbackNode} (h : spaceCallbackStateEmpty node = true) :
    node.threadSwitchCallback = none ∧ node.callAt.armed = false := by
  unfold spaceCallbackStateEmpty at h
  simp only [Bool.and_eq_true, Option.isNone_iff_eq_none, Bool.not_eq_true'] at h
  exact ⟨h.1.1.1.1, h.1.1.1.2⟩

theorem needed_of_kept {node : CallbackNode} {live : List Nat} (h : node.Valid live)
    (hkept : spaceCallbackStateEmpty node = false) : node.Needed := by
  unfold CallbackNode.Needed
  obtain ⟨harmed, -⟩ | hcleared := h.slot
  · exact Or.inr harmed
  · refine Or.inl ?_
    unfold spaceCallbackStateEmpty at hkept
    rw [hcleared] at hkept
    cases hcallback : node.threadSwitchCallback with
    | none =>
      rw [hcallback] at hkept
      cases hkept
    | some callback => rfl

def unlinked (reg : Registry) (before : List Nat) (a : Nat) : Registry :=
  reg.setLink (if before = [] then none else before.getLast?) (reg.next a)

theorem Registered.unlink (h : Registered reg nodes (some a)) {before after : List Nat}
    (hnodes : nodes = before ++ a :: after) :
    Registered ((reg.unlinked before a).free a) (before ++ after) none ∧
      SameFields reg ((reg.unlinked before a).free a) := by
  obtain ⟨hsame, hallocated⟩ := setLink_fields reg
    (if before = [] then none else before.getLast?) (reg.next a)
  obtain ⟨hnext, hhead⟩ := setLink_chain reg
    (if before = [] then none else before.getLast?) (reg.next a)
  have hmemory := setLink_memory reg
    (if before = [] then none else before.getLast?) (reg.next a)
  have hunlinked := h.chain.unlink hnodes
  have hnodup := h.chain.nodup
  have hmem : ∀ b ∈ before ++ after, b ∈ nodes ∧ b ≠ a := by
    intro b hb
    rw [hnodes] at hnodup ⊢
    rw [List.nodup_middle, List.nodup_cons] at hnodup
    refine ⟨?_, fun heq => hnodup.1 (heq ▸ hb)⟩
    rw [List.mem_append] at hb
    rw [List.mem_append, List.mem_cons]
    exact hb.imp_right Or.inr
  unfold unlinked
  generalize (reg.setLink (if before = [] then none else before.getLast?) (reg.next a)) = mid
    at hsame hallocated hnext hhead hmemory
  refine ⟨⟨⟨?_, ?_, ?_⟩, ?_, ?_, ?_, ?_⟩,
    ⟨hsame.live, hsame.last, hsame.switchArmed, hsame.callAtArmed, hsame.callAt⟩⟩
  · change PointerChain.Chain mid.next mid.spaceCallbacks _
    rw [hnext, hhead]
    exact hunlinked
  · intro b hb
    obtain ⟨hin, hne⟩ := hmem b hb
    change b ∈ mid.allocated.erase a
    rw [hallocated]
    exact (List.mem_erase_of_ne hne).mpr (h.allocated b hin)
  · have hids : (before ++ after).map (fun b => (mid.memory b).spaceId) =
        (before ++ after).map (fun b => (reg.memory b).spaceId) := by
      refine List.map_congr_left (fun b _ => ?_)
      obtain ⟨next, heq⟩ := hmemory b
      rw [heq]
    change ((before ++ after).map (fun b => (mid.memory b).spaceId)).Nodup
    rw [hids]
    refine h.distinct.sublist (List.Sublist.map _ ?_)
    rw [hnodes]
    exact (List.sublist_cons_self a after).append_left before
  · intro b hb
    obtain ⟨next, heq⟩ := hmemory b
    have hvalid := h.valid b (hmem b hb).1
    change (mid.memory b).Valid mid.live
    rw [heq, hsame.live]
    exact ⟨hvalid.slot, hvalid.cursor⟩
  · intro b hb _
    obtain ⟨next, heq⟩ := hmemory b
    obtain ⟨hin, hne⟩ := hmem b hb
    change (mid.memory b).Needed
    rw [heq]
    exact h.needed b hin (fun heq => hne (Option.some.inj heq))
  · change mid.callAt.Complete
    rw [hsame.callAt]
    exact h.root
  · change ∀ t, mid.lastBytecodeThread = some t → t ∈ mid.live
    rw [hsame.last, hsame.live]
    exact h.last

theorem unlinked_anyNode {before after : List Nat} {holds : CallbackNode → Bool}
    (hnot : holds (reg.memory a) = false)
    (hpointer : ∀ node next, holds { node with next := next } = holds node) :
    ((reg.unlinked before a).free a).anyNode (before ++ after) holds =
      reg.anyNode (before ++ a :: after) holds := by
  have heq : ∀ b, holds (((reg.unlinked before a).free a).memory b) = holds (reg.memory b) := by
    intro b
    obtain ⟨next, heq⟩ := setLink_memory reg
      (if before = [] then none else before.getLast?) (reg.next a) b
    change holds ((reg.unlinked before a).memory b) = _
    unfold unlinked
    rw [heq, hpointer]
  unfold anyNode
  simp only [heq]
  rw [List.any_append, List.any_append, List.any_cons, hnot, Bool.false_or]

theorem Registered.prune (h : Registered reg nodes (some a)) (ha : a ∈ nodes) :
    ∃ reg' nodes', reg.pruneSpaceCallbackState a = some reg' ∧ Registered reg' nodes' none ∧
      SameFields reg reg' ∧
      (∀ holds : CallbackNode → Bool, (∀ node, spaceCallbackStateEmpty node = true →
          holds node = false) → (∀ node next, holds { node with next := next } = holds node) →
        reg'.anyNode nodes' holds = reg.anyNode nodes holds) ∧
      ∀ before after, nodes = before ++ a :: after → after <:+ nodes' := by
  unfold pruneSpaceCallbackState
  cases hempty : spaceCallbackStateEmpty (reg.memory a) with
  | false =>
    refine ⟨reg, nodes, rfl, h.filled (needed_of_kept (h.valid a ha) hempty),
      ⟨rfl, rfl, rfl, rfl, rfl⟩, fun _ _ _ => rfl, ?_⟩
    rintro before after rfl
    exact ⟨before ++ [a], by simp⟩
  | true =>
    rw [if_pos rfl]
    obtain ⟨hnone, -⟩ | ⟨before, after, hnodes, hlink⟩ :=
      h.chain.linkFrom a none h.length_le
    · exact absurd ha hnone
    · rw [hlink, Option.bind_eq_bind, Option.bind_some]
      obtain ⟨hregistered, hsame⟩ := h.unlink hnodes
      refine ⟨_, before ++ after, rfl, hregistered, hsame, ?_, ?_⟩
      · intro holds hfalse hpointer
        rw [hnodes]
        exact unlinked_anyNode (hfalse _ hempty) hpointer
      · intro before' after' hnodes'
        have hsame := (h.chain.from hnodes').unique (h.chain.from hnodes)
        rw [List.cons.injEq] at hsame
        rw [hsame.2]
        exact ⟨before, rfl⟩

theorem Linked.updateThreadSwitchArmed (h : Linked reg nodes) :
    reg.updateThreadSwitchArmed = some { reg with
      threadSwitchArmed := reg.anyNode nodes (fun node => node.threadSwitchCallback.isSome) } := by
  unfold Registry.updateThreadSwitchArmed
  rw [h.search, Option.bind_eq_bind, Option.bind_some, find?_isSome_eq_any]
  rfl

theorem Linked.updateCallAtExtraArmed (h : Linked reg nodes) :
    reg.updateCallAtExtraArmed = some { reg with
      callAtExtraArmed := reg.anyNode nodes (fun node => node.callAt.armed) } := by
  unfold Registry.updateCallAtExtraArmed
  rw [h.search, Option.bind_eq_bind, Option.bind_some, find?_isSome_eq_any]
  rfl

theorem Linked.find (h : Linked reg nodes) (spaceId : Nat) :
    reg.findSpaceCallbackState spaceId =
      some (nodes.find? (fun a => (reg.memory a).spaceId = spaceId)) :=
  h.search _

theorem Registered.flags (h : Registered reg nodes but) (switchArmed callAtArmed : Bool) :
    Registered { reg with threadSwitchArmed := switchArmed, callAtExtraArmed := callAtArmed }
      nodes but :=
  ⟨⟨h.chain, h.allocated, h.distinct⟩, h.valid, h.needed, h.root, h.last⟩

theorem unused_free (reg : Registry) (a : Nat) : reg.unused a ∉ reg.allocated := by
  have hle : ∀ list : List Nat, ∀ b ∈ list, b ≤ list.foldr max 0 := by
    intro list
    induction list with
    | nil => simp
    | cons c rest ih =>
      intro b hb
      rw [List.foldr_cons]
      obtain rfl | hb := List.mem_cons.mp hb
      · exact Nat.le_max_left _ _
      · exact Nat.le_trans (ih b hb) (Nat.le_max_right _ _)
  unfold unused
  split
  · intro hmem
    have hbound := hle _ _ hmem
    omega
  · assumption

/-- The node of the space is found, or put in front of the list if there is memory for it. -/
theorem Registered.ensure (h : Registered reg nodes none) (spaceId : Nat) (room : Option Nat) :
    (room = none ∧ reg.ensureSpaceCallbackState spaceId room = some (reg, none)) ∨
    ∃ reg' nodes' a, reg.ensureSpaceCallbackState spaceId room = some (reg', some a) ∧
      a ∈ nodes' ∧ Registered reg' nodes' (some a) ∧ SameFields reg reg' ∧
      ∀ holds : CallbackNode → Bool, (∀ node, spaceCallbackStateEmpty node = true →
          holds node = false) → reg'.anyNode nodes' holds = reg.anyNode nodes holds := by
  unfold ensureSpaceCallbackState
  rw [h.find]
  cases hfind : nodes.find? (fun a => (reg.memory a).spaceId = spaceId) with
  | some a =>
    exact Or.inr ⟨reg, nodes, a, rfl, List.mem_of_find?_eq_some hfind, h.except a,
      ⟨rfl, rfl, rfl, rfl, rfl⟩, fun _ _ => rfl⟩
  | none =>
    cases room with
    | none => exact Or.inl ⟨rfl, rfl⟩
    | some requested =>
      have hfree := unused_free reg requested
      dsimp only
      rw [Option.bind_eq_bind, Option.bind_some]
      dsimp only
      generalize reg.unused requested = a at hfree ⊢
      have hout : a ∉ nodes := fun hmem => hfree (h.allocated a hmem)
      have hne : ∀ b ∈ nodes, b ≠ a := fun b hb heq => hout (heq ▸ hb)
      refine Or.inr ⟨_, a :: nodes, a, rfl, List.mem_cons_self,
        ⟨⟨?_, ?_, ?_⟩, ?_, ?_, h.root, h.last⟩, ⟨rfl, rfl, rfl, rfl, rfl⟩, ?_⟩
      · have hpush := h.chain.push hout
        have hnext : (fun b => ((reg.write a ⟨spaceId, none, none, .cleared,
            reg.spaceCallbacks⟩).memory b).next) =
            Function.update reg.next a reg.spaceCallbacks := by
          funext b
          by_cases hb : b = a
          · rw [hb, write_self, Function.update_self]
          · rw [write_of_ne reg _ hb, Function.update_of_ne hb]
            rfl
        rw [← hnext] at hpush
        exact hpush
      · intro b hb
        obtain rfl | hb := List.mem_cons.mp hb
        · exact List.mem_cons_self
        · exact List.mem_cons_of_mem _ (h.allocated b hb)
      · change ((a :: nodes).map (fun b => ((reg.write a _).memory b).spaceId)).Nodup
        rw [List.map_cons, write_self, List.nodup_cons]
        have hsame : nodes.map (fun b => ((reg.write a ⟨spaceId, none, none, .cleared,
            reg.spaceCallbacks⟩).memory b).spaceId) =
            nodes.map (fun b => (reg.memory b).spaceId) :=
          List.map_congr_left (fun b hb => by rw [write_of_ne reg _ (hne b hb)])
        rw [hsame]
        refine ⟨?_, h.distinct⟩
        rw [List.mem_map]
        rintro ⟨b, hb, hid⟩
        rw [List.find?_eq_none] at hfind
        exact hfind b hb (by simpa using hid)
      · intro b hb
        change ((reg.write a _).memory b).Valid reg.live
        obtain rfl | hb := List.mem_cons.mp hb
        · rw [write_self]
          refine ⟨Or.inr rfl, ?_⟩
          intro t ht
          cases ht
        · rw [write_of_ne reg _ (hne b hb)]
          exact h.valid b hb
      · intro b hb hba
        obtain rfl | hb := List.mem_cons.mp hb
        · exact absurd rfl hba
        · change ((reg.write a _).memory b).Needed
          rw [write_of_ne reg _ (hne b hb)]
          exact h.needed b hb (by simp)
      · intro holds hempty
        change (a :: nodes).any (fun b => holds ((reg.write a ⟨spaceId, none, none, .cleared,
          reg.spaceCallbacks⟩).memory b)) = _
        rw [List.any_cons, write_self, hempty _ rfl, Bool.false_or]
        unfold anyNode
        rw [Bool.eq_iff_iff, List.any_eq_true, List.any_eq_true]
        refine exists_congr (fun b => and_congr_right (fun hb => ?_))
        rw [write_of_ne reg _ (hne b hb)]

theorem switch_empty (node : CallbackNode) (h : spaceCallbackStateEmpty node = true) :
    node.threadSwitchCallback.isSome = false := by
  rw [(empty_fields h).1]
  rfl

theorem armed_empty (node : CallbackNode) (h : spaceCallbackStateEmpty node = true) :
    node.callAt.armed = false := (empty_fields h).2

/-- What an operation has made of a coherent registry. -/
structure Operated (reg reg' : Registry) (nodes' : List Nat) : Prop where
  coherent : Coherent reg' nodes'
  live : reg'.live = reg.live

theorem Coherent.clearSpaceCallAt (h : Coherent reg nodes) (ha : a ∈ nodes) :
    ∃ reg' nodes', reg.clearSpaceCallAt (some a) = some reg' ∧ Operated reg reg' nodes' ∧
      ∀ before after, nodes = before ++ a :: after → after <:+ nodes' := by
  have hvalid := h.valid a ha
  have hwritten := (h.toRegistered.except a).modify
    (f := fun node => { node with callAt := .cleared }) rfl rfl ⟨Or.inr rfl, hvalid.cursor⟩
  have hswitch : (reg.modify a (fun node => { node with callAt := .cleared })).anyNode nodes
      (fun node => node.threadSwitchCallback.isSome) = reg.threadSwitchArmed := by
    rw [h.switchArmed]
    exact anyNode_modify (fun node => node.threadSwitchCallback.isSome) (fun _ => rfl)
  unfold Registry.clearSpaceCallAt
  dsimp only
  rw [hwritten.updateCallAtExtraArmed, Option.bind_eq_bind, Option.bind_some]
  generalize hmid : reg.modify a (fun node => { node with callAt := .cleared }) = mid
    at hwritten hswitch
  have hlive : mid.live = reg.live := by rw [← hmid]; rfl
  have hflag : mid.threadSwitchArmed = reg.threadSwitchArmed := by rw [← hmid]; rfl
  obtain ⟨reg', nodes', hprune, hregistered, hsame, hany, hsuffix⟩ := (hwritten.flags
    mid.threadSwitchArmed (mid.anyNode nodes (fun node => node.callAt.armed))).prune ha
  refine ⟨reg', nodes', hprune, ⟨⟨hregistered, ?_, ?_⟩, hsame.live.trans hlive⟩, hsuffix⟩
  · rw [hany _ switch_empty (fun _ _ => rfl)]
    exact hsame.switchArmed.trans (hflag.trans hswitch.symm)
  · rw [hany _ armed_empty (fun _ _ => rfl)]
    exact hsame.callAtArmed

theorem Coherent.clearRootCallAt (h : Coherent reg nodes) :
    Coherent reg.clearRootCallAt nodes :=
  ⟨⟨⟨h.chain, h.allocated, h.distinct⟩, h.valid, h.needed, Or.inr rfl, h.last⟩, h.switchArmed,
    h.callAtArmed⟩

theorem Coherent.clearCallAt (h : Coherent reg nodes) (spaceId : Nat) :
    ∃ reg' nodes', reg.clearCallAt spaceId = some reg' ∧ Operated reg reg' nodes' ∧
      ∀ before a after, nodes = before ++ a :: after → (reg.memory a).spaceId = spaceId →
        after <:+ nodes' := by
  have hkeep : ∀ before a after, nodes = before ++ a :: after → after <:+ nodes := by
    rintro before a after rfl
    exact ⟨before ++ [a], by simp⟩
  unfold Registry.clearCallAt
  by_cases hroot : spaceId = spaceIdRoot
  · rw [if_pos hroot]
    exact ⟨_, nodes, rfl, ⟨h.clearRootCallAt, rfl⟩, fun before a after hnodes _ =>
      hkeep before a after hnodes⟩
  · rw [if_neg hroot, h.find, Option.bind_eq_bind, Option.bind_some]
    cases hfind : nodes.find? (fun a => (reg.memory a).spaceId = spaceId) with
    | none => exact ⟨reg, nodes, rfl, ⟨h, rfl⟩, fun before a after hnodes _ =>
        hkeep before a after hnodes⟩
    | some found =>
      have hmem := List.mem_of_find?_eq_some hfind
      obtain ⟨reg', nodes', hclear, hoperated, hsuffix⟩ := h.clearSpaceCallAt hmem
      refine ⟨reg', nodes', hclear, hoperated, ?_⟩
      intro before a after hnodes hid
      -- the space has one node
      have hsame : a = found := by
        have hfound : (reg.memory found).spaceId = spaceId := by
          simpa using List.find?_some hfind
        have hin : a ∈ nodes := by
          rw [hnodes]
          simp
        exact List.inj_on_of_nodup_map h.distinct hin hmem (hid.trans hfound.symm)
      exact hsuffix before after (hsame ▸ hnodes)

theorem Registered.arm (h : Registered reg nodes (some a)) (ha : a ∈ nodes)
    (hswitch : reg.threadSwitchArmed =
      reg.anyNode nodes (fun node => node.threadSwitchCallback.isSome)) {target : CallAtFields}
    (hcomplete : target.Complete) (harmed : target.armed = true) :
    Coherent { reg.modify a (fun node => { node with callAt := target }) with
      callAtExtraArmed := true } nodes := by
  have hwritten := h.modify (f := fun node => { node with callAt := target }) rfl rfl
    ⟨hcomplete, (h.valid a ha).cursor⟩
  have hself : ((reg.modify a (fun node => { node with callAt := target })).memory a).callAt =
      target := by rw [modify_memory, if_pos rfl]
  refine ⟨(hwritten.filled (Or.inr ?_)).flags reg.threadSwitchArmed true, ?_, ?_⟩
  · rw [hself, harmed]
  · have hkept : (reg.modify a (fun node => { node with callAt := target })).anyNode nodes
        (fun node => node.threadSwitchCallback.isSome) =
          reg.anyNode nodes (fun node => node.threadSwitchCallback.isSome) :=
      anyNode_modify _ (fun _ => rfl)
    exact hswitch.trans hkept.symm
  · refine (List.any_eq_true.mpr ⟨a, ha, ?_⟩).symm
    exact (congrArg CallAtFields.armed hself).trans harmed

theorem Coherent.armCallAt (h : Coherent reg nodes) (request : CallAtRequest) (room : Option Nat) :
    ∃ reg' nodes', reg.armCallAt request room = some reg' ∧ Operated reg reg' nodes' := by
  obtain ⟨mid, nodes', hclear, hoperated, -⟩ := h.clearCallAt request.spaceId
  have hcomplete : CallAtFields.Complete ⟨true, request.threadId, some request.coordinates,
      some request.callback, request.overshootCallback⟩ := Or.inl ⟨rfl, rfl, rfl⟩
  have hmid := hoperated.coherent
  unfold Registry.armCallAt
  rw [hclear, Option.bind_eq_bind, Option.bind_some]
  dsimp only
  by_cases hroot : request.spaceId = spaceIdRoot
  · rw [if_pos hroot]
    exact ⟨_, nodes', rfl, ⟨⟨⟨⟨hmid.chain, hmid.allocated, hmid.distinct⟩, hmid.valid, hmid.needed,
      hcomplete, hmid.last⟩, hmid.switchArmed, hmid.callAtArmed⟩, hoperated.live⟩⟩
  · rw [if_neg hroot]
    obtain ⟨-, hensure⟩ | ⟨reg', nodes'', a, hensure, ha, hregistered, hsame, hany⟩ :=
      hmid.toRegistered.ensure request.spaceId room
    · rw [hensure]
      exact ⟨mid, nodes', rfl, hoperated⟩
    · rw [hensure]
      have hswitch := hsame.switchArmed.trans hmid.switchArmed
      rw [← hany _ switch_empty] at hswitch
      exact ⟨_, nodes'', rfl, ⟨hregistered.arm ha hswitch hcomplete rfl,
        hsame.live.trans hoperated.live⟩⟩

theorem visibleThread_eq {i t : Nat} {m : Machine} {spaceId : Nat}
    (h : visibleThread i m spaceId = some t) : t = i := by
  unfold visibleThread at h
  split at h
  · cases h
  · split at h
    · exact (Option.some.inj h).symm
    · cases h

theorem Registered.setSwitch (h : Registered reg nodes (some a)) (ha : a ∈ nodes)
    (hcallAt : reg.callAtExtraArmed = reg.anyNode nodes (fun node => node.callAt.armed))
    (callback cursor : Option Nat) (hcursor : ∀ t, cursor = some t → t ∈ reg.live) :
    ∃ reg' nodes', ((reg.modify a (fun node => { node with
        threadSwitchCallback := callback
        lastBytecodeThread := cursor })).pruneSpaceCallbackState a).bind
          Registry.updateThreadSwitchArmed = some reg' ∧ Operated reg reg' nodes' := by
  have hwritten := h.modify (f := fun node => { node with
    threadSwitchCallback := callback
    lastBytecodeThread := cursor }) rfl rfl ⟨(h.valid a ha).slot, hcursor⟩
  have hkept : reg.callAtExtraArmed = (reg.modify a (fun node => { node with
      threadSwitchCallback := callback
      lastBytecodeThread := cursor })).anyNode nodes (fun node => node.callAt.armed) := by
    refine hcallAt.trans (Eq.symm ?_)
    exact anyNode_modify (fun node => node.callAt.armed) (fun _ => rfl)
  obtain ⟨mid, nodes', hprune, hregistered, hsame, hany, -⟩ := hwritten.prune ha
  rw [hprune, Option.bind_some, hregistered.updateThreadSwitchArmed]
  refine ⟨_, nodes', rfl, ⟨⟨hregistered.flags _ mid.callAtExtraArmed, rfl, ?_⟩, hsame.live⟩⟩
  rw [← hany _ armed_empty (fun _ _ => rfl)] at hkept
  exact hsame.callAtArmed.trans hkept

theorem Coherent.setThreadSwitchCallback (h : Coherent reg nodes) {i : Nat} (hlive : i ∈ reg.live)
    (m : Machine) (callback : Option Nat) (spaceId : Nat) (room : Option Nat) :
    ∃ reg' nodes', reg.setThreadSwitchCallback i m callback spaceId room = some reg' ∧
      Operated reg reg' nodes' := by
  have hcursor : ∀ t, (if callback.isSome then visibleThread i m spaceId else none) = some t →
      t = i := by
    intro t ht
    split at ht
    · exact visibleThread_eq ht
    · cases ht
  unfold Registry.setThreadSwitchCallback
  cases callback with
  | none =>
    dsimp only
    rw [h.find, Option.map_some, Option.bind_eq_bind, Option.bind_some]
    dsimp only
    cases hfind : nodes.find? (fun a => (reg.memory a).spaceId = spaceId) with
    | none => exact ⟨reg, nodes, rfl, ⟨h, rfl⟩⟩
    | some a =>
      exact (h.toRegistered.except a).setSwitch (List.mem_of_find?_eq_some hfind) h.callAtArmed
        none _ (fun t ht => by rw [hcursor t ht]; exact hlive)
  | some callback =>
    dsimp only
    obtain ⟨-, hensure⟩ | ⟨reg', nodes', a, hensure, ha, hregistered, hsame, hany⟩ :=
      h.toRegistered.ensure spaceId room
    · rw [hensure]
      exact ⟨reg, nodes, rfl, ⟨h, rfl⟩⟩
    · rw [hensure]
      have hcallAt := hsame.callAtArmed.trans h.callAtArmed
      rw [← hany _ armed_empty] at hcallAt
      obtain ⟨final, nodes'', hset, hoperated⟩ := hregistered.setSwitch ha hcallAt (some callback) _
        (fun t ht => by rw [hcursor t ht, hsame.live]; exact hlive)
      exact ⟨final, nodes'', hset, ⟨hoperated.coherent, hoperated.live.trans hsame.live⟩⟩

theorem Linked.next_of_suffix (h : Linked reg nodes) {after : List Nat}
    (hrest : a :: after <:+ nodes) : a ∈ nodes ∧ reg.next a = after.head? ∧ after <:+ nodes := by
  obtain ⟨before, hnodes⟩ := hrest
  refine ⟨?_, ?_, before ++ [a], by simpa using hnodes⟩
  · rw [← hnodes]
    simp
  · cases h.chain.from hnodes.symm with
    | cons tail => exact tail.start

theorem Coherent.checkEntries (h : Coherent reg nodes) (i : Nat) (m : Machine)
    (allocates : Nat → Bool) {rest : List Nat} (hrest : rest <:+ nodes) {fuel : Nat}
    (hfuel : rest.length ≤ fuel) :
    ∃ reg' calls nodes', Registry.checkEntries i m allocates fuel rest.head? reg =
      some (reg', calls) ∧ Operated reg reg' nodes' := by
  induction fuel generalizing reg nodes rest with
  | zero =>
    rw [List.eq_nil_of_length_eq_zero (Nat.le_zero.mp hfuel)]
    exact ⟨reg, [], nodes, rfl, h, rfl⟩
  | succ fuel ih =>
    cases rest with
    | nil => exact ⟨reg, [], nodes, rfl, h, rfl⟩
    | cons a after =>
      obtain ⟨ha, hnext, hafter⟩ := h.next_of_suffix hrest
      have hfuel' : after.length ≤ fuel := Nat.le_of_succ_le_succ hfuel
      rw [List.head?_cons, Registry.checkEntries, hnext]
      split
      · exact ih h hafter hfuel'
      · obtain ⟨mid, nodes', hclear, hoperated, hsuffix⟩ :=
          h.clearCallAt (reg.memory a).spaceId
        obtain ⟨before, hnodes⟩ := hrest
        obtain ⟨reg', calls, nodes'', hwalk, hlater⟩ :=
          ih hoperated.coherent (hsuffix before a after hnodes.symm rfl) hfuel'
        rw [hclear, Option.bind_eq_bind, Option.bind_some]
        exact ⟨reg', calls, nodes'', hwalk, hlater.coherent, hlater.live.trans hoperated.live⟩
      · obtain ⟨reg', nodes', hclear, hoperated, -⟩ := h.clearSpaceCallAt ha
        rw [hclear, Option.bind_eq_bind, Option.bind_some]
        exact ⟨reg', _, nodes', rfl, hoperated⟩

theorem Coherent.checkCallAt (h : Coherent reg nodes) (i : Nat) (m : Machine)
    (allocates : Nat → Bool) :
    ∃ reg' calls nodes', reg.checkCallAt i m allocates = some (reg', calls) ∧
      Operated reg reg' nodes' := by
  have hwalk : ∀ reg : Registry, Coherent reg nodes → ∃ reg' calls nodes',
      (if reg.callAtExtraArmed = false then some (reg, [])
        else Registry.checkEntries i m allocates reg.allocated.length reg.spaceCallbacks reg) =
          some (reg', calls) ∧ Operated reg reg' nodes' := by
    intro reg h
    split
    · exact ⟨reg, [], nodes, rfl, h, rfl⟩
    · rw [h.chain.start]
      exact h.checkEntries i m allocates (List.suffix_refl nodes) h.length_le
  unfold Registry.checkCallAt
  split
  · exact ⟨reg, [], nodes, rfl, h, rfl⟩
  · dsimp only
    split
    · exact hwalk reg h
    · obtain ⟨reg', calls, nodes', heq, hoperated⟩ := hwalk _ h.clearRootCallAt
      exact ⟨reg', calls, nodes', heq, hoperated.coherent, hoperated.live⟩
    · exact ⟨_, _, nodes, rfl, h.clearRootCallAt, rfl⟩

theorem Coherent.setCursor (h : Coherent reg nodes) (ha : a ∈ nodes) (cursor : Option Nat)
    (hcursor : ∀ t, cursor = some t → t ∈ reg.live) :
    Coherent (reg.modify a (fun node => { node with lastBytecodeThread := cursor })) nodes := by
  have hwritten := (h.toRegistered.except a).modify
    (f := fun node => { node with lastBytecodeThread := cursor }) rfl rfl
    ⟨(h.valid a ha).slot, hcursor⟩
  refine ⟨hwritten.filled ?_, ?_, ?_⟩
  · rw [modify_memory, if_pos rfl]
    exact h.needed a ha (by simp)
  · refine h.switchArmed.trans (Eq.symm ?_)
    exact anyNode_modify (fun node => node.threadSwitchCallback.isSome) (fun _ => rfl)
  · refine h.callAtArmed.trans (Eq.symm ?_)
    exact anyNode_modify (fun node => node.callAt.armed) (fun _ => rfl)

theorem Coherent.checkThreadSwitch (h : Coherent reg nodes) (threads : Nat → Machine) {i : Nat}
    (hlive : i ∈ reg.live) (allocates tupleAllocates identAllocates : Bool) :
    ∃ reg' calls, reg.checkThreadSwitch threads i allocates tupleAllocates identAllocates =
      some (reg', calls) ∧ Operated reg reg' nodes := by
  have hkept : Operated reg reg nodes := ⟨h, rfl⟩
  unfold Registry.checkThreadSwitch
  split
  · exact ⟨reg, [], rfl, hkept⟩
  · split
    · unfold deliverThreadSwitchCallback
      split
      · exact ⟨reg, [], rfl, hkept⟩
      · rw [h.search, Option.bind_eq_bind, Option.bind_some]
        split
        · exact ⟨reg, [], rfl, hkept⟩
        · rename_i hfind
          have hmoved := h.setCursor (List.mem_of_find?_eq_some hfind) (some i)
            (fun t ht => by
              cases ht
              exact hlive)
          dsimp only
          split
          · exact ⟨_, [], rfl, hmoved, rfl⟩
          · split
            · exact ⟨reg, [], rfl, hkept⟩
            · split
              · exact ⟨reg, [], rfl, hkept⟩
              · exact ⟨_, [], rfl, hmoved, rfl⟩
              · split
                · exact ⟨_, _, rfl, hmoved, rfl⟩
                · exact ⟨_, [], rfl, hmoved, rfl⟩
    · exact ⟨reg, [], rfl, hkept⟩

theorem Coherent.forgetFrom (h : Coherent reg nodes) (i : Nat) {rest : List Nat}
    (hrest : rest <:+ nodes) {fuel : Nat} (hfuel : rest.length ≤ fuel) :
    ∃ reg', Registry.forgetFrom i fuel rest.head? reg = some reg' ∧ Operated reg reg' nodes ∧
      reg'.lastBytecodeThread = reg.lastBytecodeThread ∧
      (∀ b, (reg.memory b).lastBytecodeThread ≠ some i →
        (reg'.memory b).lastBytecodeThread ≠ some i) ∧
      ∀ b ∈ rest, (reg'.memory b).lastBytecodeThread ≠ some i := by
  induction fuel generalizing reg rest with
  | zero =>
    rw [List.eq_nil_of_length_eq_zero (Nat.le_zero.mp hfuel)]
    exact ⟨reg, rfl, ⟨h, rfl⟩, rfl, fun _ hb => hb, by simp⟩
  | succ fuel ih =>
    cases rest with
    | nil => exact ⟨reg, rfl, ⟨h, rfl⟩, rfl, fun _ hb => hb, by simp⟩
    | cons a after =>
      have hfuel' : after.length ≤ fuel := Nat.le_of_succ_le_succ hfuel
      have hafter := (h.next_of_suffix hrest).2.2
      rw [List.head?_cons, Registry.forgetFrom]
      split
      · have hset := h.setCursor (h.next_of_suffix hrest).1 none
          (fun t ht => by cases ht)
        obtain ⟨reg', hloop, hoperated, hlast, hkeeps, hgone⟩ := ih hset hafter hfuel'
        rw [(hset.next_of_suffix hrest).2.1]
        have hself : ((reg.modify a (fun node =>
            { node with lastBytecodeThread := none })).memory a).lastBytecodeThread ≠ some i := by
          rw [modify_memory, if_pos rfl]
          exact fun heq => by cases heq
        refine ⟨reg', hloop, ⟨hoperated.coherent, hoperated.live⟩, hlast, fun b hb => ?_, ?_⟩
        · refine hkeeps b ?_
          rw [modify_memory]
          split
          · exact fun heq => by cases heq
          · exact hb
        · intro b hb
          obtain rfl | hb := List.mem_cons.mp hb
          · exact hkeeps b hself
          · exact hgone b hb
      · rename_i hother
        obtain ⟨reg', hloop, hoperated, hlast, hkeeps, hgone⟩ := ih h hafter hfuel'
        rw [(h.next_of_suffix hrest).2.1]
        refine ⟨reg', hloop, hoperated, hlast, hkeeps, ?_⟩
        intro b hb
        obtain rfl | hb := List.mem_cons.mp hb
        · exact hkeeps b hother
        · exact hgone b hb

theorem Coherent.clearThread (h : Coherent reg nodes) (i : Nat) :
    ∃ reg', reg.clearThread i = some reg' ∧ Coherent reg' nodes := by
  have hlast : ∀ t, (if reg.lastBytecodeThread = some i then none
      else reg.lastBytecodeThread) = some t → t ∈ reg.live ∧ t ≠ i := by
    intro t ht
    split at ht
    · cases ht
    · rename_i hother
      exact ⟨h.last t ht, fun heq => hother (heq ▸ ht)⟩
  have hforgot : Coherent { reg with lastBytecodeThread :=
      if reg.lastBytecodeThread = some i then none else reg.lastBytecodeThread } nodes :=
    ⟨⟨⟨h.chain, h.allocated, h.distinct⟩, h.valid, h.needed, h.root, fun t ht => (hlast t ht).1⟩,
      h.switchArmed, h.callAtArmed⟩
  obtain ⟨reg', hloop, hoperated, hsame, -, hgone⟩ :=
    hforgot.forgetFrom i (List.suffix_refl nodes) hforgot.length_le
  have hdone := hoperated.coherent
  have hlive : reg'.live = reg.live := hoperated.live
  rw [← h.chain.start] at hloop
  unfold Registry.clearThread
  refine ⟨{ reg' with live := reg'.live.filter (fun j => j ≠ i) },
    congrArg (Option.map _) hloop, ?_⟩
  refine ⟨⟨⟨hdone.chain, hdone.allocated, hdone.distinct⟩, ?_, hdone.needed, hdone.root, ?_⟩,
    hdone.switchArmed, hdone.callAtArmed⟩
  · intro a ha
    refine ⟨(hdone.valid a ha).slot, fun t ht => ?_⟩
    rw [List.mem_filter]
    exact ⟨(hdone.valid a ha).cursor t ht, decide_eq_true (fun heq => hgone a ha (heq ▸ ht))⟩
  · intro t ht
    obtain ⟨hin, hne⟩ := hlast t (hsame.symm.trans ht)
    rw [List.mem_filter, hlive]
    exact ⟨hin, decide_eq_true hne⟩

theorem freeFrom_allocated {fuel : Nat} {head : Option Nat}
    (h : PointerChain.Chain reg.next head nodes) (hfuel : nodes.length ≤ fuel) :
    ∃ allocated, Registry.freeFrom fuel head reg = some { reg with allocated := allocated } := by
  induction fuel generalizing reg head nodes with
  | zero =>
    rw [h.start, List.eq_nil_of_length_eq_zero (Nat.le_zero.mp hfuel)]
    exact ⟨reg.allocated, rfl⟩
  | succ fuel ih =>
    cases h with
    | nil => exact ⟨reg.allocated, rfl⟩
    | cons tail => exact @ih (reg.free _) _ _ tail (Nat.le_of_succ_le_succ hfuel)

theorem Coherent.clearSpaceCallbacks (h : Coherent reg nodes) :
    ∃ reg', reg.clearSpaceCallbacks = some reg' ∧ Operated reg reg' [] := by
  obtain ⟨allocated, hfree⟩ := freeFrom_allocated h.chain h.length_le
  unfold Registry.clearSpaceCallbacks
  rw [hfree, Option.bind_eq_bind, Option.bind_some]
  exact ⟨_, rfl, ⟨⟨⟨.nil, by simp, List.nodup_nil⟩, by simp, by simp, h.root, h.last⟩, rfl, rfl⟩,
    rfl⟩

theorem newRegistry_coherent (live : List Nat) : Coherent (newRegistry live) [] :=
  ⟨⟨⟨.nil, by simp, List.nodup_nil⟩, by simp, by simp, Or.inr rfl, fun t ht => by cases ht⟩,
    rfl, rfl⟩

end nodes

end Registry

open Registry

theorem registryOperation_coherent {reg : Registry} {nodes : List Nat} (h : reg.Coherent nodes)
    {event : RegistryEvent} (hallowed : event.Allowed reg) :
    ∃ reg' calls nodes', registryOperation reg event = some (reg', calls) ∧
      reg'.Coherent nodes' := by
  cases event with
  | newThread i =>
    refine ⟨{ reg with live := i :: reg.live }, [], nodes, rfl,
      ⟨⟨⟨h.chain, h.allocated, h.distinct⟩, fun a ha => ⟨(h.valid a ha).slot, fun t ht => ?_⟩,
        h.needed, h.root, fun t ht => ?_⟩, h.switchArmed, h.callAtArmed⟩⟩
    · exact List.mem_cons_of_mem _ ((h.valid a ha).cursor t ht)
    · exact List.mem_cons_of_mem _ (h.last t ht)
  | setThreadSwitchCallback i m callback spaceId room =>
    obtain ⟨reg', nodes', hset, hoperated⟩ :=
      h.setThreadSwitchCallback hallowed m callback spaceId room
    exact ⟨reg', [], nodes', congrArg (Option.map _) hset, hoperated.coherent⟩
  | armCallAt request room =>
    obtain ⟨reg', nodes', harm, hoperated⟩ := h.armCallAt request room
    exact ⟨reg', [], nodes', congrArg (Option.map _) harm, hoperated.coherent⟩
  | clearCallAt spaceId =>
    obtain ⟨reg', nodes', hclear, hoperated, -⟩ := h.clearCallAt spaceId
    exact ⟨reg', [], nodes', congrArg (Option.map _) hclear, hoperated.coherent⟩
  | checkCallAt i m allocates =>
    obtain ⟨reg', calls, nodes', hcheck, hoperated⟩ := h.checkCallAt i m allocates
    exact ⟨reg', calls, nodes', hcheck, hoperated.coherent⟩
  | checkThreadSwitch i threads allocates tupleAllocates identAllocates =>
    obtain ⟨reg', calls, hcheck, hoperated⟩ :=
      h.checkThreadSwitch threads hallowed allocates tupleAllocates identAllocates
    exact ⟨reg', calls, nodes, hcheck, hoperated.coherent⟩
  | beginInstruction i =>
    refine ⟨{ reg with lastBytecodeThread := some i }, [], nodes, rfl, ⟨⟨⟨h.chain, h.allocated,
      h.distinct⟩, h.valid, h.needed, h.root, fun t ht => ?_⟩, h.switchArmed, h.callAtArmed⟩⟩
    cases ht
    exact hallowed
  | clearThread i =>
    obtain ⟨reg', hclear, hcoherent⟩ := h.clearThread i
    exact ⟨reg', [], nodes, congrArg (Option.map _) hclear, hcoherent⟩
  | clearSpaceCallbacks =>
    obtain ⟨reg', hclear, hoperated⟩ := h.clearSpaceCallbacks
    exact ⟨reg', [], [], congrArg (Option.map _) hclear, hoperated.coherent⟩

/-- After any operations the list is a chain of different nodes, one for each space that has a
switch callback or a target, the flags tell which there are, slots are complete, and cursors are at
live threads. From there every operation ends. -/
theorem callbackRegistry_coherent {live : List Nat} {events : List RegistryEvent} {reg : Registry}
    {calls : List RegistryCall}
    (hrun : StepRun.run registryStep events (newRegistry live) = some (reg, calls)) :
    (∃ nodes, nodes.Nodup ∧ reg.Coherent nodes) ∧
      ∀ event, event.Allowed reg → (registryStep reg event).isSome = true := by
  obtain ⟨nodes, hcoherent⟩ : ∃ nodes, reg.Coherent nodes := by
    refine @StepRun.run_invariant _ _ _ registryStep (fun reg => ∃ nodes, reg.Coherent nodes) ?_
      _ _ _ _ ⟨[], newRegistry_coherent live⟩ hrun
    rintro reg event reg' out ⟨nodes, h⟩ hstep
    unfold registryStep at hstep
    split at hstep
    · rename_i hallowed
      obtain ⟨next, calls, nodes', hoperation, hnext⟩ := registryOperation_coherent h hallowed
      rw [hoperation] at hstep
      cases hstep
      exact ⟨nodes', hnext⟩
    · cases hstep
  refine ⟨⟨nodes, hcoherent.chain.nodup, hcoherent⟩, fun event hallowed => ?_⟩
  obtain ⟨next, calls, nodes', hoperation, -⟩ := registryOperation_coherent hcoherent hallowed
  unfold registryStep
  rw [if_pos hallowed, hoperation]
  rfl

/-- A callback and targets for three spaces. The target of space 5 is dropped when there is no
memory for the second request, and its node with it. -/
def registered : List RegistryEvent := [
  .setThreadSwitchCallback 0 (freshMachine ⟨true, true⟩ 0) (some 8) 3 (some 6),
  .armCallAt ⟨1, [2, 0], 9, none, 5, true, true⟩ (some 6),
  .armCallAt ⟨1, [4, 0], 9, some 10, 0, true, true⟩ none,
  .beginInstruction 0,
  .armCallAt ⟨1, [2, 0], 9, none, 5, true, true⟩ none,
  .armCallAt ⟨1, [2, 0], 9, none, 3, true, true⟩ none,
  .clearThread 0]

theorem callbackRegistry_coherent_registered : ∃ reg,
    StepRun.run registryStep registered (newRegistry [0]) = some (reg, []) ∧
      reg.Coherent [6] ∧ reg.threadSwitchArmed = true ∧ reg.callAtExtraArmed = true ∧
      reg.lastBytecodeThread = none := by
  obtain ⟨reg, hrun, hhead, hnext, hflags⟩ : ∃ reg, StepRun.run registryStep registered
      (newRegistry [0]) = some (reg, []) ∧ reg.spaceCallbacks = some 6 ∧ reg.next 6 = none ∧
      reg.threadSwitchArmed = true ∧ reg.callAtExtraArmed = true ∧
      reg.lastBytecodeThread = none := ⟨_, rfl, rfl, rfl, rfl, rfl, rfl⟩
  obtain ⟨nodes, -, hcoherent⟩ := (callbackRegistry_coherent hrun).1
  have hchain : PointerChain.Chain reg.next reg.spaceCallbacks [6] := by
    rw [hhead]
    refine .cons ?_
    rw [hnext]
    exact .nil
  exact ⟨reg, hrun, hcoherent.chain.unique hchain ▸ hcoherent, hflags⟩

end Retrace
