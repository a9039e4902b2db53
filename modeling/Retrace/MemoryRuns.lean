import Retrace.CallbackMemory
import Retrace.InterpRuns
import Retrace.RegistryRuns

/-! The registry in memory refines the list of entries: every run of one is a run of the other, with
the same callbacks. -/

set_option autoImplicit false

namespace Retrace

def CallAtFields.of : Option CallAt → CallAtFields
  | none => .cleared
  | some target => ⟨true, target.threadId, some target.coordinates, some target.callback,
      target.overshootCallback⟩

def CallbackNode.content (node : CallbackNode) : CallbackNode := { node with next := none }

def SpaceCallbackState.content (entry : SpaceCallbackState) : CallbackNode where
  spaceId := entry.spaceId
  lastBytecodeThread := entry.lastBytecodeThread
  threadSwitchCallback := entry.threadSwitchCallback
  callAt := .of entry.callAt
  next := none

def Output.shown : Output → MemoryOutput
  | .ran i event => .ran i event
  | .callAt i delivery => .callAt i delivery.callback
  | .threadSwitch i _ callback previous previousDelta nextThreadId =>
    .threadSwitch i callback previous previousDelta nextThreadId

/-- The nodes of the list hold the entries in their order. -/
structure Lists (reg : Registry) (nodes : List Nat) (entries : List SpaceCallbackState) : Prop where
  linked : reg.Linked nodes
  contents : List.Forall₂ (fun a entry => (reg.memory a).content = entry.content) nodes entries

/-- The registry in memory stands for the callbacks of the interpreter. -/
structure Represents (reg : Registry) (nodes : List Nat) (interp : Interp) : Prop
    extends Lists reg nodes interp.spaceCallbacks where
  callAt : reg.callAt = .of interp.callAt
  last : reg.lastBytecodeThread = interp.lastBytecodeThread
  switchArmed : reg.threadSwitchArmed = interp.threadSwitchArmed
  callAtArmed : reg.callAtExtraArmed = interp.callAtExtraArmed
  live : reg.live = interp.live

/-- The same threads, with the callbacks of one in the memory of the other. -/
structure MemoryInterp.Refines (mem : MemoryInterp) (interp : Interp) : Prop where
  threads : mem.threads = interp.threads
  pending : mem.pending = interp.pending
  registry : ∃ nodes, Represents mem.registry nodes interp

section contents
variable {reg reg' : Registry} {nodes : List Nat} {entries : List SpaceCallbackState} {a : Nat}
  {node : CallbackNode} {entry : SpaceCallbackState} {interp : Interp}

theorem CallAtFields.armed_of (target : Option CallAt) :
    (CallAtFields.of target).armed = target.isSome := by
  cases target <;> rfl

theorem content_fields (h : node.content = entry.content) :
    node.spaceId = entry.spaceId ∧ node.lastBytecodeThread = entry.lastBytecodeThread ∧
      node.threadSwitchCallback = entry.threadSwitchCallback ∧ node.callAt = .of entry.callAt := by
  cases node
  cases h
  exact ⟨rfl, rfl, rfl, rfl⟩

theorem empty_of_content (h : node.content = entry.content) :
    Registry.spaceCallbackStateEmpty node = spaceCallbackStateEmpty entry := by
  obtain ⟨-, -, hcallback, hcallAt⟩ := content_fields h
  unfold Registry.spaceCallbackStateEmpty spaceCallbackStateEmpty
  rw [hcallback, hcallAt]
  cases entry.callAt with
  | none => cases entry.threadSwitchCallback <;> rfl
  | some target => cases entry.threadSwitchCallback <;> rfl

theorem find?_contents {p : CallbackNode → Bool} {q : SpaceCallbackState → Bool}
    (hsame : ∀ node entry, node.content = entry.content → p node = q entry)
    (h : List.Forall₂ (fun a entry => (reg.memory a).content = entry.content) nodes entries) :
    (nodes.find? (fun a => p (reg.memory a)) = none ∧ entries.find? q = none) ∨
      ∃ a entry, nodes.find? (fun a => p (reg.memory a)) = some a ∧
        entries.find? q = some entry ∧ (reg.memory a).content = entry.content := by
  induction h with
  | nil => exact Or.inl ⟨rfl, rfl⟩
  | cons hcontent hrest ih =>
    rename_i a entry rest more
    rw [List.find?_cons, List.find?_cons, hsame _ _ hcontent]
    cases q entry with
    | true => exact Or.inr ⟨a, entry, rfl, rfl, hcontent⟩
    | false => exact ih

theorem Lists.search (h : Lists reg nodes entries) {p : CallbackNode → Bool}
    {q : SpaceCallbackState → Bool}
    (hsame : ∀ node entry, node.content = entry.content → p node = q entry) :
    (reg.search p = some none ∧ entries.find? q = none) ∨
      ∃ a entry, reg.search p = some (some a) ∧ entries.find? q = some entry ∧ a ∈ nodes ∧
        (reg.memory a).content = entry.content := by
  rw [h.linked.search]
  obtain ⟨hnodes, hentries⟩ | ⟨a, entry, hnodes, hentries, hcontent⟩ :=
    find?_contents hsame h.contents
  · exact Or.inl ⟨by rw [hnodes], hentries⟩
  · exact Or.inr ⟨a, entry, by rw [hnodes], hentries, List.mem_of_find?_eq_some hnodes, hcontent⟩

theorem Lists.find (h : Lists reg nodes entries) (spaceId : Nat) :
    (reg.findSpaceCallbackState spaceId = some none ∧ findEntry spaceId entries = none) ∨
      ∃ a entry, reg.findSpaceCallbackState spaceId = some (some a) ∧
        findEntry spaceId entries = some entry ∧ a ∈ nodes ∧
        (reg.memory a).content = entry.content := by
  refine h.search (fun node entry hcontent => ?_)
  rw [(content_fields hcontent).1]

theorem Lists.any (h : Lists reg nodes entries) {p : CallbackNode → Bool}
    {q : SpaceCallbackState → Bool}
    (hsame : ∀ node entry, node.content = entry.content → p node = q entry) :
    (reg.search p).map Option.isSome = some (entries.any q) := by
  rw [← Registry.find?_isSome_eq_any]
  obtain ⟨hsearch, hfind⟩ | ⟨a, entry, hsearch, hfind, -⟩ := h.search hsame
  · rw [hsearch, hfind]
    rfl
  · rw [hsearch, hfind]
    rfl

theorem Lists.entryOf (h : Lists reg nodes entries) (ha : a ∈ nodes) :
    ∃ entry, findEntry (reg.memory a).spaceId entries = some entry ∧
      (reg.memory a).content = entry.content := by
  obtain ⟨hfind, -⟩ | ⟨b, entry, hfind, hentry, hb, hcontent⟩ := h.find (reg.memory a).spaceId
  · rw [h.linked.find, Option.some.injEq, List.find?_eq_none] at hfind
    exact absurd (decide_eq_true rfl) (hfind a ha)
  · rw [h.linked.find, Option.some.injEq] at hfind
    have hid : (reg.memory b).spaceId = (reg.memory a).spaceId := by
      simpa using List.find?_some hfind
    obtain rfl := List.inj_on_of_nodup_map h.linked.distinct hb ha hid
    exact ⟨entry, hentry, hcontent⟩

theorem forall₂_contents_map {memory : Nat → CallbackNode}
    {g : SpaceCallbackState → SpaceCallbackState}
    (h : List.Forall₂ (fun a entry => (reg.memory a).content = entry.content) nodes entries)
    (hsame : ∀ a ∈ nodes, ∀ entry : SpaceCallbackState, (reg.memory a).content = entry.content →
      (memory a).content = (g entry).content) :
    List.Forall₂ (fun a entry => (memory a).content = entry.content) nodes (entries.map g) := by
  induction h with
  | nil => exact .nil
  | cons hcontent hrest ih =>
    refine .cons (hsame _ List.mem_cons_self _ hcontent) ?_
    exact ih (fun a ha => hsame a (List.mem_cons_of_mem _ ha))

theorem forall₂_contents_congr
    (h : List.Forall₂ (fun a entry => (reg.memory a).content = entry.content) nodes entries)
    (hsame : ∀ a ∈ nodes, (reg'.memory a).content = (reg.memory a).content) :
    List.Forall₂ (fun a entry => (reg'.memory a).content = entry.content) nodes entries := by
  have hmap := forall₂_contents_map (g := id) h
    (fun a ha entry hcontent => (hsame a ha).trans hcontent)
  rwa [List.map_id] at hmap

theorem content_spaceId (h : node.content = entry.content) : node.spaceId = entry.spaceId :=
  (content_fields h).1

theorem Linked.modify (h : reg.Linked nodes) {f : CallbackNode → CallbackNode}
    (hspace : ∀ node, (f node).spaceId = node.spaceId) (hnext : ∀ node, (f node).next = node.next) :
    (reg.modify a f).Linked nodes := by
  refine ⟨h.chain.congr (fun b _ => ?_), h.allocated, ?_⟩
  · unfold Registry.next
    rw [Registry.modify_memory]
    split
    · exact hnext _
    · rfl
  · have hsame : nodes.map (fun b => ((reg.modify a f).memory b).spaceId) =
        nodes.map (fun b => (reg.memory b).spaceId) := by
      refine List.map_congr_left (fun b _ => ?_)
      rw [Registry.modify_memory]
      split
      · exact hspace _
      · rfl
    rw [hsame]
    exact h.distinct

theorem Lists.modify (h : Lists reg nodes entries) (ha : a ∈ nodes)
    {f : CallbackNode → CallbackNode} {g : SpaceCallbackState → SpaceCallbackState}
    (hspace : ∀ node, (f node).spaceId = node.spaceId) (hnext : ∀ node, (f node).next = node.next)
    (hcontent : ∀ node entry, node.content = entry.content → (f node).content = (g entry).content) :
    Lists (reg.modify a f) nodes (updateEntry (reg.memory a).spaceId g entries) := by
  obtain ⟨linked, contents⟩ := h
  refine ⟨Linked.modify linked hspace hnext, ?_⟩
  have hdistinct := linked.distinct
  have hnodup := linked.chain.nodup
  clear linked
  induction contents with
  | nil => cases ha
  | cons hfirst hrest ih =>
    rename_i b entry rest more
    rw [List.map_cons, List.nodup_cons] at hdistinct
    rw [List.nodup_cons] at hnodup
    unfold updateEntry
    obtain rfl | hmem := List.mem_cons.mp ha
    · rw [if_pos (content_spaceId hfirst).symm]
      refine .cons ?_ ?_
      · rw [Registry.modify_memory, if_pos rfl]
        exact hcontent _ _ hfirst
      · refine forall₂_contents_congr hrest (fun c hc => ?_)
        rw [Registry.modify_memory, if_neg (fun heq : c = a => hnodup.1 (heq ▸ hc))]
    · have hne : b ≠ a := fun heq => hnodup.1 (heq ▸ hmem)
      rw [if_neg]
      · refine .cons ?_ (ih hmem hdistinct.2 hnodup.2)
        rw [Registry.modify_memory, if_neg hne]
        exact hfirst
      · rw [← content_spaceId hfirst]
        intro heq
        exact hdistinct.1 (heq ▸ List.mem_map_of_mem (f := fun b => (reg.memory b).spaceId) hmem)

theorem Linked.erase {mid : Registry} (h : reg.Linked nodes) {before after : List Nat}
    (hnodes : nodes = before ++ a :: after)
    (hchain : PointerChain.Chain mid.next mid.spaceCallbacks (before ++ after))
    (hallocated : mid.allocated = reg.allocated)
    (hmemory : ∀ b, ∃ next, mid.memory b = { reg.memory b with next := next }) :
    (mid.free a).Linked (before ++ after) := by
  have hnodup := h.chain.nodup
  have hdistinct := h.distinct
  rw [hnodes] at hnodup hdistinct
  rw [List.nodup_middle, List.nodup_cons] at hnodup
  refine ⟨hchain, fun b hb => ?_, ?_⟩
  · have hne : b ≠ a := fun heq => hnodup.1 (heq ▸ hb)
    change b ∈ mid.allocated.erase a
    rw [hallocated]
    refine (List.mem_erase_of_ne hne).mpr (h.allocated b ?_)
    rw [hnodes]
    rw [List.mem_append] at hb
    rw [List.mem_append, List.mem_cons]
    exact hb.imp_right Or.inr
  · have hids : (before ++ after).map (fun b => (mid.memory b).spaceId) =
        (before ++ after).map (fun b => (reg.memory b).spaceId) := by
      refine List.map_congr_left (fun b _ => ?_)
      obtain ⟨next, heq⟩ := hmemory b
      rw [heq]
    change ((before ++ after).map (fun b => (mid.memory b).spaceId)).Nodup
    rw [hids]
    refine hdistinct.sublist (List.Sublist.map _ ?_)
    exact (List.sublist_cons_self a after).append_left before

theorem forall₂_erase
    (h : List.Forall₂ (fun a entry => (reg.memory a).content = entry.content) nodes entries)
    (hdistinct : (nodes.map (fun b => (reg.memory b).spaceId)).Nodup) {before after : List Nat}
    (hnodes : nodes = before ++ a :: after) :
    List.Forall₂ (fun a entry => (reg.memory a).content = entry.content) (before ++ after)
      (eraseEntry (reg.memory a).spaceId entries) := by
  induction h generalizing before with
  | nil => simp at hnodes
  | cons hfirst hrest ih =>
    rename_i b entry rest more
    rw [List.map_cons, List.nodup_cons] at hdistinct
    rw [eraseEntry_cons]
    cases before with
    | nil =>
      rw [List.nil_append, List.cons.injEq] at hnodes
      obtain ⟨rfl, rfl⟩ := hnodes
      rw [if_pos (content_spaceId hfirst).symm]
      exact hrest
    | cons c before =>
      rw [List.cons_append, List.cons.injEq] at hnodes
      obtain ⟨rfl, hrest'⟩ := hnodes
      rw [if_neg]
      · exact .cons hfirst (ih hdistinct.2 hrest')
      · rw [← content_spaceId hfirst]
        intro heq
        refine hdistinct.1 ?_
        rw [heq, hrest']
        exact List.mem_map_of_mem (f := fun b => (reg.memory b).spaceId) (by simp)

theorem Lists.prune (h : Lists reg nodes entries) (ha : a ∈ nodes)
    (hcontent : (reg.memory a).content = entry.content) :
    ∃ reg' nodes', reg.pruneSpaceCallbackState a = some reg' ∧
      Lists reg' nodes' (if spaceCallbackStateEmpty entry then
        eraseEntry entry.spaceId entries else entries) ∧ Registry.SameFields reg reg' ∧
      ∀ before after, nodes = before ++ a :: after → after <:+ nodes' := by
  unfold Registry.pruneSpaceCallbackState
  rw [empty_of_content hcontent]
  cases spaceCallbackStateEmpty entry with
  | false =>
    refine ⟨reg, nodes, rfl, h, ⟨rfl, rfl, rfl, rfl, rfl⟩, ?_⟩
    rintro before after rfl
    exact ⟨before ++ [a], by simp⟩
  | true =>
    rw [if_pos rfl, if_pos rfl]
    obtain ⟨hnone, -⟩ | ⟨before, after, hnodes, hlink⟩ :=
      h.linked.chain.linkFrom a none h.linked.length_le
    · exact absurd ha hnone
    · rw [hlink, Option.bind_eq_bind, Option.bind_some]
      dsimp only
      obtain ⟨hsame, hallocated⟩ := Registry.setLink_fields reg
        (if before = [] then none else before.getLast?) (reg.next a)
      obtain ⟨hnext, hhead⟩ := Registry.setLink_chain reg
        (if before = [] then none else before.getLast?) (reg.next a)
      have hmemory := Registry.setLink_memory reg
        (if before = [] then none else before.getLast?) (reg.next a)
      have hunlinked := h.linked.chain.unlink hnodes
      generalize (reg.setLink (if before = [] then none else before.getLast?) (reg.next a)) = mid
        at hsame hallocated hnext hhead hmemory
      rw [← hnext, ← hhead] at hunlinked
      refine ⟨mid.free a, before ++ after, rfl, ⟨Linked.erase h.linked hnodes hunlinked hallocated
        hmemory, ?_⟩, ⟨hsame.live, hsame.last, hsame.switchArmed, hsame.callAtArmed, hsame.callAt⟩, ?_⟩
      · rw [← content_spaceId hcontent]
        refine forall₂_contents_congr (forall₂_erase h.contents h.linked.distinct hnodes) ?_
        intro b _
        obtain ⟨next, heq⟩ := hmemory b
        change (mid.memory b).content = _
        rw [heq]
        rfl
      · intro before' after' hnodes'
        have hafter := (h.linked.chain.from hnodes').unique (h.linked.chain.from hnodes)
        rw [List.cons.injEq] at hafter
        rw [hafter.2]
        exact ⟨before, rfl⟩

theorem Lists.ensure (h : Lists reg nodes entries) (spaceId : Nat) (room : Option Nat) :
    (room = none ∧ findEntry spaceId entries = none ∧
      reg.ensureSpaceCallbackState spaceId room = some (reg, none)) ∨
    ∃ reg' nodes' a entry entries', reg.ensureSpaceCallbackState spaceId room = some (reg', some a) ∧
      (findEntry spaceId entries = some entry ∧ entries' = entries ∨
        findEntry spaceId entries = none ∧ room.isSome = true ∧
          entry = ⟨spaceId, none, none, none⟩ ∧ entries' = entry :: entries) ∧
      a ∈ nodes' ∧ (reg'.memory a).content = entry.content ∧ Lists reg' nodes' entries' ∧
      Registry.SameFields reg reg' := by
  unfold Registry.ensureSpaceCallbackState
  obtain ⟨hfind, hentry⟩ | ⟨a, entry, hfind, hentry, ha, hcontent⟩ := h.find spaceId
  · rw [hfind]
    cases room with
    | none => exact Or.inl ⟨rfl, hentry, rfl⟩
    | some requested =>
      have hfree := Registry.unused_free reg requested
      dsimp only
      rw [Option.bind_eq_bind, Option.bind_some]
      dsimp only
      generalize reg.unused requested = a at hfree ⊢
      have hout : a ∉ nodes := fun hmem => hfree (h.linked.allocated a hmem)
      have hne : ∀ b ∈ nodes, b ≠ a := fun b hb heq => hout (heq ▸ hb)
      refine Or.inr ⟨_, a :: nodes, a, ⟨spaceId, none, none, none⟩, _, rfl,
        Or.inr ⟨hentry, rfl, rfl, rfl⟩, List.mem_cons_self, ?_, ⟨⟨?_, ?_, ?_⟩, ?_⟩,
        ⟨rfl, rfl, rfl, rfl, rfl⟩⟩
      · change ((reg.write a _).memory a).content = _
        rw [Registry.write_self]
        rfl
      · have hpush := h.linked.chain.push hout
        have hnext : (fun b => ((reg.write a ⟨spaceId, none, none, .cleared,
            reg.spaceCallbacks⟩).memory b).next) =
            Function.update reg.next a reg.spaceCallbacks := by
          funext b
          by_cases hb : b = a
          · rw [hb, Registry.write_self, Function.update_self]
          · rw [Registry.write_of_ne reg _ hb, Function.update_of_ne hb]
            rfl
        rw [← hnext] at hpush
        exact hpush
      · intro b hb
        obtain rfl | hb := List.mem_cons.mp hb
        · exact List.mem_cons_self
        · exact List.mem_cons_of_mem _ (h.linked.allocated b hb)
      · change ((a :: nodes).map (fun b => ((reg.write a _).memory b).spaceId)).Nodup
        rw [List.map_cons, Registry.write_self, List.nodup_cons]
        have hsame : nodes.map (fun b => ((reg.write a ⟨spaceId, none, none, .cleared,
            reg.spaceCallbacks⟩).memory b).spaceId) =
            nodes.map (fun b => (reg.memory b).spaceId) :=
          List.map_congr_left (fun b hb => by rw [Registry.write_of_ne reg _ (hne b hb)])
        rw [hsame]
        refine ⟨?_, h.linked.distinct⟩
        rw [List.mem_map]
        rintro ⟨b, hb, hid⟩
        rw [h.linked.find, Option.some.injEq, List.find?_eq_none] at hfind
        exact hfind b hb (by simpa using hid)
      · refine .cons ?_ (forall₂_contents_congr h.contents (fun b hb => ?_))
        · change ((reg.write a _).memory a).content = _
          rw [Registry.write_self]
          rfl
        · change ((reg.write a _).memory b).content = _
          rw [Registry.write_of_ne reg _ (hne b hb)]
  · rw [hfind]
    exact Or.inr ⟨reg, nodes, a, entry, entries, rfl, Or.inl ⟨hentry, rfl⟩, ha, hcontent, h,
      ⟨rfl, rfl, rfl, rfl, rfl⟩⟩

end contents

section operations
variable {reg reg' : Registry} {nodes : List Nat} {a : Nat} {interp : Interp}

theorem Represents.modify (h : Represents reg nodes interp) (ha : a ∈ nodes)
    {f : CallbackNode → CallbackNode} {g : SpaceCallbackState → SpaceCallbackState}
    (hspace : ∀ node, (f node).spaceId = node.spaceId) (hnext : ∀ node, (f node).next = node.next)
    (hcontent : ∀ node entry, node.content = entry.content → (f node).content = (g entry).content) :
    Represents (reg.modify a f) nodes { interp with
      spaceCallbacks := updateEntry (reg.memory a).spaceId g interp.spaceCallbacks } :=
  ⟨h.toLists.modify ha hspace hnext hcontent, h.callAt, h.last, h.switchArmed, h.callAtArmed, h.live⟩

theorem Represents.updateCallAtExtraArmed (h : Represents reg nodes interp) :
    ∃ reg', reg.updateCallAtExtraArmed = some reg' ∧
      Represents reg' nodes (Retrace.updateCallAtExtraArmed interp) := by
  have hany := h.any (p := fun node => node.callAt.armed) (q := fun entry => entry.callAt.isSome)
    (fun node entry hcontent => by
      rw [(content_fields hcontent).2.2.2]
      exact CallAtFields.armed_of _)
  obtain ⟨found, hfound, hsome⟩ := Option.map_eq_some_iff.mp hany
  unfold Registry.updateCallAtExtraArmed
  rw [hfound, Option.bind_eq_bind, Option.bind_some]
  exact ⟨_, rfl, ⟨⟨⟨h.linked.chain, h.linked.allocated, h.linked.distinct⟩, h.contents⟩, h.callAt,
    h.last, h.switchArmed, hsome, h.live⟩⟩

theorem Represents.updateThreadSwitchArmed (h : Represents reg nodes interp) :
    ∃ reg', reg.updateThreadSwitchArmed = some reg' ∧
      Represents reg' nodes (Retrace.updateThreadSwitchArmed interp) := by
  have hany := h.any (p := fun node => node.threadSwitchCallback.isSome)
    (q := fun entry => entry.threadSwitchCallback.isSome)
    (fun node entry hcontent => by rw [(content_fields hcontent).2.2.1])
  obtain ⟨found, hfound, hsome⟩ := Option.map_eq_some_iff.mp hany
  unfold Registry.updateThreadSwitchArmed
  rw [hfound, Option.bind_eq_bind, Option.bind_some]
  exact ⟨_, rfl, ⟨⟨⟨h.linked.chain, h.linked.allocated, h.linked.distinct⟩, h.contents⟩, h.callAt,
    h.last, hsome, h.callAtArmed, h.live⟩⟩

theorem Represents.prune (h : Represents reg nodes interp) (ha : a ∈ nodes) :
    ∃ reg' nodes', reg.pruneSpaceCallbackState a = some reg' ∧
      Represents reg' nodes' (pruneSpaceCallbackState interp (reg.memory a).spaceId) ∧
      ∀ before after, nodes = before ++ a :: after → after <:+ nodes' := by
  obtain ⟨entry, hentry, hcontent⟩ := h.entryOf ha
  obtain ⟨reg', nodes', hprune, hlists, hsame, hsuffix⟩ := h.toLists.prune ha hcontent
  refine ⟨reg', nodes', hprune, ?_, hsuffix⟩
  have hid := content_spaceId hcontent
  unfold pruneSpaceCallbackState findSpaceCallbackState
  rw [hentry]
  dsimp only
  rw [← hid] at hlists
  have hcallAt := hsame.callAt.trans h.callAt
  have hlast := hsame.last.trans h.last
  have hswitch := hsame.switchArmed.trans h.switchArmed
  have harmed := hsame.callAtArmed.trans h.callAtArmed
  have hlive := hsame.live.trans h.live
  split
  · rename_i hempty
    rw [if_pos hempty] at hlists
    exact ⟨hlists, hcallAt, hlast, hswitch, harmed, hlive⟩
  · rename_i hused
    rw [if_neg hused] at hlists
    exact ⟨hlists, hcallAt, hlast, hswitch, harmed, hlive⟩

theorem Represents.ensure (h : Represents reg nodes interp) (spaceId address : Nat)
    (allocates : Bool) :
    (reg.ensureSpaceCallbackState spaceId (if allocates then some address else none) =
        some (reg, none) ∧ ensureSpaceCallbackState interp spaceId allocates = none) ∨
    ∃ reg' nodes' a interp', reg.ensureSpaceCallbackState spaceId
        (if allocates then some address else none) = some (reg', some a) ∧
      ensureSpaceCallbackState interp spaceId allocates = some interp' ∧
      a ∈ nodes' ∧ (reg'.memory a).spaceId = spaceId ∧ interp'.threads = interp.threads ∧
      Represents reg' nodes' interp' := by
  unfold ensureSpaceCallbackState findSpaceCallbackState
  obtain ⟨hroom, hentry, hensure⟩ | ⟨reg', nodes', a, entry, entries', hensure, hcase, ha, hcontent,
      hlists, hsame⟩ := h.toLists.ensure spaceId (if allocates then some address else none)
  · have hnone : allocates = false := by
      cases allocates with
      | false => rfl
      | true => cases hroom
    rw [hensure, hentry, hnone]
    exact Or.inl ⟨rfl, rfl⟩
  · have hkeeps : Represents reg' nodes' { interp with spaceCallbacks := entries' } :=
      ⟨hlists, hsame.callAt.trans h.callAt, hsame.last.trans h.last,
        hsame.switchArmed.trans h.switchArmed, hsame.callAtArmed.trans h.callAtArmed,
        hsame.live.trans h.live⟩
    obtain ⟨hentry, rfl⟩ | ⟨hentry, hroom, rfl, rfl⟩ := hcase
    · rw [hentry]
      exact Or.inr ⟨reg', nodes', a, _, hensure, rfl, ha,
        (content_spaceId hcontent).trans (findEntry_some hentry).2, rfl, hkeeps⟩
    · have hsome : allocates = true := by
        cases allocates with
        | false => cases hroom
        | true => rfl
      rw [hentry]
      exact Or.inr ⟨reg', nodes', a, _, hensure, if_pos hsome, ha, content_spaceId hcontent, rfl,
        hkeeps⟩

theorem Represents.clearRootCallAt (h : Represents reg nodes interp) :
    Represents reg.clearRootCallAt nodes (Retrace.clearRootCallAt interp) :=
  ⟨⟨⟨h.linked.chain, h.linked.allocated, h.linked.distinct⟩, h.contents⟩, rfl, h.last, h.switchArmed,
    h.callAtArmed, h.live⟩

theorem Represents.clearSpaceCallAt (h : Represents reg nodes interp) (ha : a ∈ nodes) :
    ∃ reg' nodes', reg.clearSpaceCallAt (some a) = some reg' ∧
      Represents reg' nodes' (Retrace.clearSpaceCallAt interp (reg.memory a).spaceId) ∧
      ∀ before after, nodes = before ++ a :: after → after <:+ nodes' := by
  have hwritten := h.modify ha (f := fun node => { node with callAt := .cleared })
    (g := fun entry => { entry with callAt := none }) (fun _ => rfl) (fun _ => rfl)
    (fun node entry hcontent => by
      obtain ⟨hid, hlast, hcallback, -⟩ := content_fields hcontent
      simp only [CallbackNode.content, SpaceCallbackState.content, hid, hlast, hcallback]
      rfl)
  obtain ⟨mid, hupdate, hmid⟩ := hwritten.updateCallAtExtraArmed
  have hspace : (mid.memory a).spaceId = (reg.memory a).spaceId := by
    unfold Registry.updateCallAtExtraArmed at hupdate
    rw [hwritten.linked.search, Option.bind_eq_bind, Option.bind_some, Option.some.injEq] at hupdate
    rw [← hupdate, Registry.modify_memory, if_pos rfl]
  obtain ⟨reg', nodes', hprune, hrepresents, hsuffix⟩ := hmid.prune ha
  refine ⟨reg', nodes', ?_, ?_, hsuffix⟩
  · unfold Registry.clearSpaceCallAt
    dsimp only
    rw [hupdate, Option.bind_eq_bind, Option.bind_some, hprune]
  · obtain ⟨entry, hentry, -⟩ := h.entryOf ha
    unfold Retrace.clearSpaceCallAt findSpaceCallbackState
    rw [hentry]
    rw [hspace] at hrepresents
    exact hrepresents

theorem Represents.clearCallAt (h : Represents reg nodes interp) (spaceId : Nat) :
    ∃ reg' nodes', reg.clearCallAt spaceId = some reg' ∧
      Represents reg' nodes' (Retrace.clearCallAt interp spaceId) := by
  unfold Registry.clearCallAt Retrace.clearCallAt
  by_cases hroot : spaceId = spaceIdRoot
  · rw [if_pos hroot, if_pos hroot]
    exact ⟨_, nodes, rfl, h.clearRootCallAt⟩
  · rw [if_neg hroot, if_neg hroot]
    obtain ⟨hfind, hentry⟩ | ⟨a, entry, hfind, hentry, ha, hcontent⟩ := h.find spaceId
    · rw [hfind, Option.bind_eq_bind, Option.bind_some]
      refine ⟨reg, nodes, rfl, ?_⟩
      unfold Retrace.clearSpaceCallAt findSpaceCallbackState
      rw [hentry]
      exact h
    · rw [hfind, Option.bind_eq_bind, Option.bind_some]
      have hid := (content_spaceId hcontent).trans (findEntry_some hentry).2
      rw [← hid]
      obtain ⟨reg', nodes', hclear, hrepresents, -⟩ := h.clearSpaceCallAt ha
      exact ⟨reg', nodes', hclear, hrepresents⟩

theorem Represents.armCallAt (h : Represents reg nodes interp) (request : CallAtRequest)
    (address : Nat) :
    ∃ reg' nodes', reg.armCallAt request (if request.entryAllocates then some address else none) =
        some reg' ∧ Represents reg' nodes' (Retrace.armCallAt interp request).2 := by
  obtain ⟨mid, nodes', hclear, hmid⟩ := h.clearCallAt request.spaceId
  unfold Registry.armCallAt Retrace.armCallAt
  rw [hclear, Option.bind_eq_bind, Option.bind_some]
  dsimp only
  by_cases hroot : request.spaceId = spaceIdRoot
  · rw [if_pos hroot, if_pos hroot]
    exact ⟨_, nodes', rfl, ⟨⟨⟨hmid.linked.chain, hmid.linked.allocated, hmid.linked.distinct⟩,
      hmid.contents⟩, rfl, hmid.last, hmid.switchArmed, hmid.callAtArmed, hmid.live⟩⟩
  · rw [if_neg hroot, if_neg hroot]
    obtain ⟨hensure, hnone⟩ | ⟨next, nodes'', a, interp', hensure, hsome, ha, hid, -, hnext⟩ :=
      hmid.ensure request.spaceId address request.entryAllocates
    · rw [hensure, hnone]
      exact ⟨mid, nodes', rfl, hmid⟩
    · rw [hensure, hsome, Option.bind_eq_bind, Option.bind_some]
      let target : CallAt := ⟨request.threadId, request.coordinates, request.callback,
        request.overshootCallback, (Retrace.clearCallAt interp request.spaceId).armings⟩
      have hwritten := hnext.modify ha (f := fun node => { node with callAt := .of (some target) })
        (g := fun entry => { entry with callAt := some target }) (fun _ => rfl) (fun _ => rfl)
        (fun node entry hcontent => by
          obtain ⟨hid, hlast, hcallback, -⟩ := content_fields hcontent
          simp only [CallbackNode.content, SpaceCallbackState.content, hid, hlast, hcallback])
      rw [hid] at hwritten
      exact ⟨_, nodes'', rfl, ⟨⟨⟨hwritten.linked.chain, hwritten.linked.allocated,
        hwritten.linked.distinct⟩, hwritten.contents⟩, hwritten.callAt, hwritten.last,
        hwritten.switchArmed, rfl, hwritten.live⟩⟩

theorem Represents.writeSwitch (h : Represents reg nodes interp) (ha : a ∈ nodes)
    (callback cursor : Option Nat) :
    ∃ reg' nodes', ((reg.modify a (fun node => { node with
        threadSwitchCallback := callback
        lastBytecodeThread := cursor })).pruneSpaceCallbackState a).bind
          Registry.updateThreadSwitchArmed = some reg' ∧
      Represents reg' nodes' (Retrace.updateThreadSwitchArmed (pruneSpaceCallbackState
        { interp with spaceCallbacks := updateEntry (reg.memory a).spaceId (fun entry => { entry with
            threadSwitchCallback := callback
            lastBytecodeThread := cursor }) interp.spaceCallbacks } (reg.memory a).spaceId)) := by
  have hwritten := h.modify ha (f := fun node => { node with
      threadSwitchCallback := callback
      lastBytecodeThread := cursor })
    (g := fun entry => { entry with
      threadSwitchCallback := callback
      lastBytecodeThread := cursor }) (fun _ => rfl) (fun _ => rfl)
    (fun node entry hcontent => by
      obtain ⟨hid, -, -, hcallAt⟩ := content_fields hcontent
      simp only [CallbackNode.content, SpaceCallbackState.content, hid, hcallAt])
  obtain ⟨mid, nodes', hprune, hmid, -⟩ := hwritten.prune ha
  obtain ⟨reg', hupdate, hreg'⟩ := hmid.updateThreadSwitchArmed
  rw [Registry.modify_memory, if_pos rfl] at hreg'
  exact ⟨reg', nodes', by rw [hprune, Option.bind_some, hupdate], hreg'⟩

theorem Represents.setThreadSwitchCallback (h : Represents reg nodes interp) (i : Nat)
    (callback : Option Nat) (spaceId address : Nat) (allocates : Bool) :
    ∃ reg' nodes', reg.setThreadSwitchCallback i (interp.threads i) callback spaceId
        (if allocates then some address else none) = some reg' ∧
      Represents reg' nodes'
        (Retrace.setThreadSwitchCallback interp i callback spaceId allocates).2 := by
  unfold Registry.setThreadSwitchCallback Retrace.setThreadSwitchCallback
  cases callback with
  | none =>
    obtain ⟨hfind, hentry⟩ | ⟨a, entry, hfind, hentry, ha, hcontent⟩ := h.find spaceId
    · dsimp only
      rw [hfind]
      unfold findSpaceCallbackState
      rw [hentry]
      exact ⟨reg, nodes, rfl, h⟩
    · dsimp only
      rw [hfind]
      unfold findSpaceCallbackState
      rw [hentry]
      have hid := (content_spaceId hcontent).trans (findEntry_some hentry).2
      rw [← hid]
      exact h.writeSwitch ha none none
  | some callback =>
    dsimp only
    obtain ⟨hensure, hnone⟩ | ⟨mid, nodes', a, interp', hensure, hsome, ha, hid, hthreads, hmid⟩ :=
      h.ensure spaceId address allocates
    · rw [hensure, hnone]
      exact ⟨reg, nodes, rfl, h⟩
    · rw [hensure, hsome]
      have hset := hmid.writeSwitch ha (some callback) (visibleThreadForSpace interp' i spaceId)
      have hvisible : Registry.visibleThread i (interp.threads i) spaceId =
          visibleThreadForSpace interp' i spaceId :=
        congrArg (fun threads => Registry.visibleThread i (threads i) spaceId) hthreads.symm
      rw [hid] at hset
      dsimp only
      rw [Option.bind_eq_bind, Option.bind_some]
      simp only [Option.isSome_some, if_true, hvisible]
      exact hset

def CallbackNode.forget (i : Nat) (node : CallbackNode) : CallbackNode :=
  if node.lastBytecodeThread = some i then { node with lastBytecodeThread := none } else node

theorem forget_next (i : Nat) (node : CallbackNode) : (node.forget i).next = node.next := by
  unfold CallbackNode.forget
  split <;> rfl

theorem forgetFrom_memory {i fuel : Nat} {rest : List Nat}
    (h : PointerChain.Chain reg.next rest.head? rest) (hfuel : rest.length ≤ fuel) :
    ∃ memory, Registry.forgetFrom i fuel rest.head? reg = some { reg with memory := memory } ∧
      ∀ b, memory b = if b ∈ rest then (reg.memory b).forget i else reg.memory b := by
  induction fuel generalizing reg rest with
  | zero =>
    rw [List.eq_nil_of_length_eq_zero (Nat.le_zero.mp hfuel)]
    exact ⟨reg.memory, rfl, fun b => by simp⟩
  | succ fuel ih =>
    cases rest with
    | nil => exact ⟨reg.memory, rfl, fun b => by simp⟩
    | cons a after =>
      have hnodup := h.nodup
      rw [List.nodup_cons] at hnodup
      have hwrite : (if (reg.memory a).lastBytecodeThread = some i then
          reg.modify a (fun node => { node with lastBytecodeThread := none }) else reg) =
          { reg with memory := Function.update reg.memory a ((reg.memory a).forget i) } := by
        unfold CallbackNode.forget
        split
        · rfl
        · rw [Function.update_eq_self]
      have hchain : PointerChain.Chain (Registry.next { reg with
          memory := Function.update reg.memory a ((reg.memory a).forget i) }) (some a)
            (a :: after) := by
        refine h.congr (fun b _ => ?_)
        unfold Registry.next
        by_cases hb : b = a
        · rw [hb]
          exact (congrArg CallbackNode.next (Function.update_self _ _ _)).trans (forget_next _ _)
        · exact congrArg CallbackNode.next (Function.update_of_ne hb _ _)
      have hnext : (Registry.next { reg with
          memory := Function.update reg.memory a ((reg.memory a).forget i) } a) = after.head? := by
        cases hchain with
        | cons tail => exact tail.start
      have htail : PointerChain.Chain (Registry.next { reg with
          memory := Function.update reg.memory a ((reg.memory a).forget i) }) after.head? after := by
        cases hchain with
        | cons tail => exact hnext ▸ tail
      obtain ⟨memory, hloop, hmemory⟩ := ih htail (Nat.le_of_succ_le_succ hfuel)
      refine ⟨memory, ?_, fun b => ?_⟩
      · rw [List.head?_cons, Registry.forgetFrom, hwrite]
        rw [hnext]
        exact hloop
      · rw [hmemory]
        by_cases hb : b = a
        · rw [hb, if_neg hnodup.1, if_pos List.mem_cons_self]
          exact Function.update_self _ _ _
        · have hsame : Function.update reg.memory a ((reg.memory a).forget i) b = reg.memory b :=
            Function.update_of_ne hb _ _
          simp only [List.mem_cons, hb, false_or, hsame]

theorem Represents.clearThread (h : Represents reg nodes interp) (hdistinct : interp.live.Nodup)
    (i : Nat) :
    ∃ reg', reg.clearThread i = some reg' ∧
      Represents reg' nodes (Retrace.clearThread clearThreadState interp i) := by
  have hstart := h.linked.chain.start
  have hchain := h.linked.chain
  rw [hstart] at hchain
  let last := if reg.lastBytecodeThread = some i then none else reg.lastBytecodeThread
  obtain ⟨memory, hloop, hmemory⟩ := @forgetFrom_memory { reg with lastBytecodeThread := last } i
    reg.allocated.length nodes hchain h.linked.length_le
  refine ⟨{ reg with
    lastBytecodeThread := last
    memory := memory
    live := reg.live.filter (fun j => j ≠ i) }, ?_, ?_⟩
  · rw [← hstart] at hloop
    exact congrArg (Option.map _) hloop
  · have hnode : ∀ b ∈ nodes, memory b = (reg.memory b).forget i := by
      intro b hb
      rw [hmemory, if_pos hb]
    refine ⟨⟨⟨h.linked.chain.congr (fun b hb => ?_), h.linked.allocated, ?_⟩, ?_⟩, h.callAt, ?_,
      h.switchArmed, h.callAtArmed, ?_⟩
    · exact (congrArg CallbackNode.next (hnode b hb)).trans (forget_next _ _)
    · have hids : nodes.map (fun b => (memory b).spaceId) =
          nodes.map (fun b => (reg.memory b).spaceId) := by
        refine List.map_congr_left (fun b hb => ?_)
        rw [hnode b hb]
        unfold CallbackNode.forget
        split <;> rfl
      exact hids ▸ h.linked.distinct
    · refine forall₂_contents_map h.contents (fun b hb entry hcontent => ?_)
      obtain ⟨hid, hcursor, hcallback, hcallAt⟩ := content_fields hcontent
      change (memory b).content = _
      rw [hnode b hb]
      unfold CallbackNode.forget
      simp only [SpaceCallbackState.content, CallbackNode.content, ← hcursor]
      split <;> simp_all
    · change last = _
      unfold Retrace.clearThread
      rw [← h.last]
    · change reg.live.filter _ = interp.live.erase i
      rw [h.live, hdistinct.erase_eq_filter]
      refine List.filter_congr (fun j _ => ?_)
      rw [Bool.eq_iff_iff]
      simp

def SlotCheck.verdict : SlotCheck → Registry.Verdict
  | .pass => .pass
  | .clear => .clear
  | .deliver delivery => .deliver delivery.callback

theorem checkSlot_of (m : Machine) (spaceId : Nat) (slot : Option CallAt) (allocates : Bool) :
    Registry.checkSlot m spaceId (.of slot) allocates =
      (checkCallAtSlot m spaceId slot allocates).verdict := by
  unfold Registry.checkSlot checkCallAtSlot
  cases slot with
  | none => rfl
  | some target =>
    dsimp only
    by_cases hthread : target.threadId = m.tstate.threadId
    · rw [if_neg (by simp [CallAtFields.of, hthread]), if_neg (by simp [hthread])]
      simp only [CallAtFields.of]
      cases findThreadSpace m.tstate spaceId with
      | none => rfl
      | some node =>
        dsimp only
        by_cases hseen : (m.tstate.space node).seen = false
        · rw [if_pos hseen, if_pos hseen]
          rfl
        · rw [if_neg hseen, if_neg hseen]
          cases compareTargetToFrame target.coordinates m (m.spacePtr node) m.chain allocates with
          | none => rfl
          | some comparison =>
            dsimp only
            by_cases hafter : comparison > 0
            · rw [if_pos hafter, if_pos hafter]
              rfl
            · rw [if_neg hafter, if_neg hafter]
              by_cases hzero : comparison = 0
              · rw [if_pos hzero]
                rfl
              · rw [if_neg hzero]
                cases target.overshootCallback <;> rfl
    · rw [if_pos (by simp [CallAtFields.of, hthread]), if_pos hthread]
      rfl

theorem updateEntry_split {spaceId : Nat} {entry : SpaceCallbackState}
    {before rest : List SpaceCallbackState} (f : SpaceCallbackState → SpaceCallbackState)
    (hbefore : spaceId ∉ before.map (fun entry => entry.spaceId)) (hid : entry.spaceId = spaceId) :
    updateEntry spaceId f (before ++ entry :: rest) = before ++ f entry :: rest := by
  induction before with
  | nil => exact if_pos hid
  | cons first before ih =>
    rw [List.map_cons, List.mem_cons, not_or] at hbefore
    rw [List.cons_append, updateEntry, if_neg (Ne.symm hbefore.1), ih hbefore.2]
    rfl

theorem eraseEntry_split {spaceId : Nat} {entry : SpaceCallbackState}
    {before rest : List SpaceCallbackState}
    (hbefore : spaceId ∉ before.map (fun entry => entry.spaceId)) (hid : entry.spaceId = spaceId) :
    eraseEntry spaceId (before ++ entry :: rest) = before ++ rest := by
  induction before with
  | nil => exact (eraseEntry_cons _ _).trans (if_pos hid)
  | cons first before ih =>
    rw [List.map_cons, List.mem_cons, not_or] at hbefore
    rw [List.cons_append, eraseEntry_cons, if_neg (Ne.symm hbefore.1), ih hbefore.2]
    rfl

theorem clearCallAt_suffix {entry : SpaceCallbackState} {rest : List SpaceCallbackState}
    (hdistinct : (interp.spaceCallbacks.map (fun entry => entry.spaceId)).Nodup)
    (hrest : entry :: rest <:+ interp.spaceCallbacks) :
    rest <:+ (Retrace.clearCallAt interp entry.spaceId).spaceCallbacks := by
  obtain ⟨before, hbefore⟩ := hrest
  have hnot : entry.spaceId ∉ before.map (fun entry => entry.spaceId) := by
    rw [← hbefore, List.map_append, List.map_cons, List.nodup_middle, List.nodup_cons] at hdistinct
    exact fun hmem => hdistinct.1 (List.mem_append_left _ hmem)
  have hwhole : rest <:+ interp.spaceCallbacks := ⟨before ++ [entry], by simp [← hbefore]⟩
  unfold Retrace.clearCallAt
  split
  · exact hwhole
  · unfold Retrace.clearSpaceCallAt
    split
    · exact hwhole
    · dsimp only
      rw [← hbefore, updateEntry_split _ hnot rfl]
      obtain heq | ⟨heq, -⟩ := pruneSpaceCallbackState_eq (Retrace.updateCallAtExtraArmed
        { interp with spaceCallbacks := before ++ { entry with callAt := none } :: rest })
        entry.spaceId
      · rw [heq]
        exact ⟨before ++ [{ entry with callAt := none }], by simp [Retrace.updateCallAtExtraArmed]⟩
      · rw [heq]
        refine ⟨before, ?_⟩
        exact (@eraseEntry_split _ { entry with callAt := none } _ rest hnot rfl).symm

theorem Lists.spaceIds {entries : List SpaceCallbackState} (h : Lists reg nodes entries) :
    (entries.map (fun entry => entry.spaceId)).Nodup := by
  have hsame : nodes.map (fun a => (reg.memory a).spaceId) =
      entries.map (fun entry => entry.spaceId) := by
    obtain ⟨linked, contents⟩ := h
    clear linked
    induction contents with
    | nil => rfl
    | cons hcontent hrest ih => rw [List.map_cons, List.map_cons, content_spaceId hcontent, ih]
  exact hsame ▸ h.linked.distinct

theorem Represents.clearNode (h : Represents reg nodes interp) (ha : a ∈ nodes)
    (hother : (reg.memory a).spaceId ≠ spaceIdRoot) :
    ∃ reg' nodes', reg.clearCallAt (reg.memory a).spaceId = some reg' ∧
      reg.clearSpaceCallAt (some a) = some reg' ∧
      Represents reg' nodes' (Retrace.clearCallAt interp (reg.memory a).spaceId) ∧
      ∀ before after, nodes = before ++ a :: after → after <:+ nodes' := by
  obtain ⟨reg', nodes', hclear, hrepresents, hsuffix⟩ := h.clearSpaceCallAt ha
  refine ⟨reg', nodes', ?_, hclear, ?_, hsuffix⟩
  · unfold Registry.clearCallAt
    rw [if_neg hother]
    obtain ⟨hfind, -⟩ | ⟨b, entry, hfind, -, hb, -⟩ := h.find (reg.memory a).spaceId
    · rw [h.linked.find, Option.some.injEq, List.find?_eq_none] at hfind
      exact absurd (decide_eq_true rfl) (hfind a ha)
    · rw [hfind, Option.bind_eq_bind, Option.bind_some]
      rw [h.linked.find, Option.some.injEq] at hfind
      have hid : (reg.memory b).spaceId = (reg.memory a).spaceId := by
        simpa using List.find?_some hfind
      rw [List.inj_on_of_nodup_map h.linked.distinct hb ha hid]
      exact hclear
  · unfold Retrace.clearCallAt
    rw [if_neg hother]
    exact hrepresents

theorem forall₂_suffix {rest : List Nat} {restEntries : List SpaceCallbackState}
    (h : Represents reg nodes interp) (hrest : rest <:+ nodes)
    (hentries : restEntries <:+ interp.spaceCallbacks) (hlength : rest.length = restEntries.length) :
    List.Forall₂ (fun a entry => (reg.memory a).content = entry.content) rest restEntries := by
  obtain ⟨before, rfl⟩ := hrest
  obtain ⟨first, hfirst⟩ := hentries
  have hall := h.contents
  rw [← hfirst] at hall
  have hlengths := hall.length_eq
  rw [List.length_append, List.length_append, hlength] at hlengths
  have hdrop := List.forall₂_drop before.length hall
  rwa [List.drop_left, Nat.add_right_cancel hlengths, List.drop_left] at hdrop

theorem armed_of_check {m : Machine} {spaceId : Nat} {slot : Option CallAt} {allocates : Bool}
    {check : SlotCheck} (h : checkCallAtSlot m spaceId slot allocates = check)
    (hcheck : check ≠ .pass) : slot.isSome = true := by
  cases slot with
  | none => exact absurd h.symm hcheck
  | some target => rfl

def callsOfDelivery (i : Nat) (delivery : Option Delivery) : List RegistryCall :=
  (delivery.map (fun delivery => RegistryCall.callAt i delivery.callback)).toList

theorem Represents.checkEntries (i : Nat) (m : Machine) (allocates : Nat → Bool)
    {restEntries : List SpaceCallbackState} (h : Represents reg nodes interp)
    (hm : interp.threads i = m)
    (hroot : ∀ entry ∈ restEntries, entry.spaceId = spaceIdRoot → entry.callAt = none)
    {rest : List Nat} (hrest : rest <:+ nodes) (hentries : restEntries <:+ interp.spaceCallbacks)
    (hlength : rest.length = restEntries.length) {fuel : Nat} (hfuel : rest.length ≤ fuel) :
    ∃ reg' nodes', Registry.checkEntries i m allocates fuel rest.head? reg =
        some (reg', callsOfDelivery i (checkCallAtEntries i allocates restEntries interp).2) ∧
      Represents reg' nodes' (checkCallAtEntries i allocates restEntries interp).1 := by
  induction restEntries generalizing reg nodes interp rest fuel with
  | nil =>
    obtain rfl := List.eq_nil_of_length_eq_zero hlength
    exact ⟨reg, nodes, by cases fuel <;> rfl, h⟩
  | cons entry restEntries ih =>
    cases rest with
    | nil => cases hlength
    | cons a after =>
      cases fuel with
      | zero => cases hfuel
      | succ fuel =>
        have hcontents := forall₂_suffix h hrest hentries hlength
        rw [List.forall₂_cons] at hcontents
        obtain ⟨hid, -, -, hcallAt⟩ := content_fields hcontents.1
        obtain ⟨ha, hnext, hafter⟩ := h.linked.next_of_suffix hrest
        have hmore : restEntries <:+ interp.spaceCallbacks := (List.suffix_cons _ _).trans hentries
        have hlength' : after.length = restEntries.length := Nat.succ.inj hlength
        have hfuel' := Nat.le_of_succ_le_succ hfuel
        have hroot' : ∀ entry ∈ restEntries, entry.spaceId = spaceIdRoot → entry.callAt = none :=
          fun e he => hroot e (List.mem_cons_of_mem _ he)
        have hother : entry.callAt.isSome = true → entry.spaceId ≠ spaceIdRoot := by
          intro hsome heq
          rw [hroot entry List.mem_cons_self heq] at hsome
          cases hsome
        rw [List.head?_cons, Registry.checkEntries, checkCallAtEntries, hnext, hcallAt, hid,
          checkSlot_of, hm]
        cases hcheck : checkCallAtSlot m entry.spaceId entry.callAt (allocates entry.spaceId) with
        | pass => exact ih h hm hroot' hafter hmore hlength' hfuel'
        | clear =>
          obtain ⟨reg', nodes', hclear, -, hrepresents, hsuffix⟩ :=
            h.clearNode ha (hid ▸ hother (armed_of_check hcheck (by simp)))
          obtain ⟨before, hbefore⟩ := hrest
          rw [hid] at hclear hrepresents
          dsimp only [SlotCheck.verdict]
          rw [hclear, Option.bind_eq_bind, Option.bind_some]
          exact ih hrepresents (by rw [(clearCallAt_threads interp _).threads, hm]) hroot'
            (hsuffix before after hbefore.symm) (clearCallAt_suffix h.spaceIds hentries) hlength'
            hfuel'
        | deliver delivery =>
          obtain ⟨reg', nodes', -, hclear, hrepresents, -⟩ :=
            h.clearNode ha (hid ▸ hother (armed_of_check hcheck (by simp)))
          rw [hid] at hrepresents
          dsimp only [SlotCheck.verdict]
          rw [hclear, Option.bind_eq_bind, Option.bind_some]
          exact ⟨reg', nodes', rfl, hrepresents⟩

theorem Represents.checkCallAt (h : Represents reg nodes interp) (htidy : Tidy interp) (i : Nat)
    (allocates : Nat → Bool) (hinactive : (interp.threads i).tstate.threadCallbackActive = false)
    (harmed : interp.callAt.isSome ∨ interp.callAtExtraArmed = true) :
    ∃ reg' nodes', reg.checkCallAt i (interp.threads i) allocates =
        some (reg', callsOfDelivery i (Retrace.checkCallAt interp i allocates).2) ∧
      Represents reg' nodes' (Retrace.checkCallAt interp i allocates).1 := by
  have hwalk : ∀ reg interp', Represents reg nodes interp' → interp'.threads = interp.threads →
      interp'.spaceCallbacks = interp.spaceCallbacks →
      ∃ reg' nodes', (if reg.callAtExtraArmed = false then some (reg, [])
        else Registry.checkEntries i (interp.threads i) allocates reg.allocated.length
          reg.spaceCallbacks reg) = some (reg', callsOfDelivery i
            (if interp'.callAtExtraArmed then
              checkCallAtEntries i allocates interp'.spaceCallbacks interp' else (interp', none)).2) ∧
        Represents reg' nodes' (if interp'.callAtExtraArmed then
          checkCallAtEntries i allocates interp'.spaceCallbacks interp' else (interp', none)).1 := by
    intro reg interp' h hthreads hentries
    cases hextra : interp'.callAtExtraArmed with
    | false =>
      rw [if_pos (h.callAtArmed.trans hextra)]
      exact ⟨reg, nodes, rfl, h⟩
    | true =>
      rw [if_neg (by rw [h.callAtArmed, hextra]; decide), h.linked.chain.start]
      exact h.checkEntries i (interp.threads i) allocates (by rw [hthreads])
        (fun entry hentry => htidy.root entry (hentries ▸ hentry)) (List.suffix_refl _)
        (List.suffix_refl _) h.contents.length_eq h.linked.length_le
  unfold Registry.checkCallAt Retrace.checkCallAt
  by_cases hzero : (interp.threads i).tstate.threadId = 0
  · rw [if_pos (Or.inl hzero), if_pos hzero]
    exact ⟨reg, nodes, rfl, h⟩
  · rw [if_neg hzero, if_neg]
    · dsimp only
      rw [h.callAt, checkSlot_of]
      cases hcheck : checkCallAtSlot (interp.threads i) spaceIdRoot interp.callAt
          (allocates spaceIdRoot) with
      | pass => exact hwalk reg interp h rfl rfl
      | clear => exact hwalk _ _ h.clearRootCallAt rfl rfl
      | deliver delivery => exact ⟨_, nodes, rfl, h.clearRootCallAt⟩
    · rw [h.callAt, CallAtFields.armed_of, h.callAtArmed, hinactive]
      rintro (heq | heq | ⟨heq, heq'⟩)
      · exact hzero heq
      · cases heq
      · obtain harmed | harmed := harmed
        · rw [heq] at harmed
          cases harmed
        · rw [heq'] at harmed
          cases harmed

end operations

section steps
variable {p : Platform} {mem mem' : MemoryInterp} {interp interp' : Interp} {i : Nat}
  {choices : BoundaryChoices} {out : List Output}

/-- A partial step of both, with what it shows. -/
def StepsAlike (step : Option (MemoryInterp × List MemoryOutput))
    (step' : Option (Interp × List Output)) : Prop :=
  (step = none ∧ step' = none) ∨ ∃ mem interp out, step = some (mem, out.map Output.shown) ∧
    step' = some (interp, out) ∧ mem.Refines interp

theorem StepsAlike.done (h : mem.Refines interp) (out : List Output) :
    StepsAlike (some (mem, out.map Output.shown)) (some (interp, out)) :=
  Or.inr ⟨mem, interp, out, rfl, rfl, h⟩

theorem StepsAlike.after {step : Option (MemoryInterp × List MemoryOutput)}
    {step' : Option (Interp × List Output)} (h : StepsAlike step step') (first : Output) :
    StepsAlike (step.map (fun result => (result.1, first.shown :: result.2)))
      (step'.map (fun result => (result.1, first :: result.2))) := by
  obtain ⟨rfl, rfl⟩ | ⟨mem, interp, out, rfl, rfl, hrefines⟩ := h
  · exact Or.inl ⟨rfl, rfl⟩
  · exact .done hrefines (first :: out)

theorem MemoryInterp.Refines.setThread (h : mem.Refines interp) (i : Nat) (m : Machine) :
    (mem.setThread i m).Refines (interp.setThread i m) := by
  obtain ⟨hthreads, hpending, nodes, hregistry⟩ := h
  refine ⟨?_, hpending, nodes, ⟨hregistry.toLists, hregistry.callAt, hregistry.last,
    hregistry.switchArmed, hregistry.callAtArmed, hregistry.live⟩⟩
  change Function.update mem.threads i m = Function.update interp.threads i m
  rw [hthreads]

theorem MemoryInterp.Refines.setPending (h : mem.Refines interp) (i : Nat)
    (pending : Option Pending) : (mem.setPending i pending).Refines (interp.setPending i pending) := by
  obtain ⟨hthreads, hpending, nodes, hregistry⟩ := h
  refine ⟨hthreads, ?_, nodes, ⟨hregistry.toLists, hregistry.callAt, hregistry.last,
    hregistry.switchArmed, hregistry.callAtArmed, hregistry.live⟩⟩
  change Function.update mem.pending i pending = Function.update interp.pending i pending
  rw [hpending]

theorem MemoryInterp.Refines.setLast (h : mem.Refines interp) (i : Nat) :
    (mem.setLast i).Refines (interp.setLast i) := by
  obtain ⟨hthreads, hpending, nodes, hregistry⟩ := h
  exact ⟨hthreads, hpending, nodes, ⟨⟨⟨hregistry.linked.chain, hregistry.linked.allocated,
    hregistry.linked.distinct⟩, hregistry.contents⟩, hregistry.callAt, rfl, hregistry.switchArmed,
    hregistry.callAtArmed, hregistry.live⟩⟩

theorem MemoryInterp.Refines.startCallback (h : mem.Refines interp) (i : Nat)
    (choices : BoundaryChoices) (pending : Pending) (called : Output) :
    StepsAlike (mem.startCallback p i choices pending called.shown)
      (Retrace.startCallback p interp i choices pending called) := by
  unfold MemoryInterp.startCallback Retrace.startCallback
  rw [h.threads]
  cases threadStep p (interp.threads i) (.callbackBegin choices.scope choices.enterAllocates) with
  | none => exact Or.inl ⟨rfl, rfl⟩
  | some m =>
    rw [Option.map_some, Option.map_some]
    dsimp only
    split
    · exact .done ((h.setThread i m).setPending i (some pending)) [.ran i _, called]
    · exact .done (h.setThread i m) [.ran i _]

theorem MemoryInterp.Refines.setCursor (h : mem.Refines interp) {nodes : List Nat} {a : Nat}
    (hregistry : Represents mem.registry nodes interp) (ha : a ∈ nodes) (i : Nat) :
    MemoryInterp.Refines { mem with
      registry := mem.registry.modify a (fun node => { node with lastBytecodeThread := some i }) }
      (interp.setCursor (mem.registry.memory a).spaceId i) := by
  refine ⟨h.threads, h.pending, nodes, hregistry.modify ha
    (f := fun node => { node with lastBytecodeThread := some i })
    (g := fun entry => { entry with lastBytecodeThread := some i }) (fun _ => rfl) (fun _ => rfl) ?_⟩
  intro node entry hcontent
  obtain ⟨hid, -, hcallback, hcallAt⟩ := content_fields hcontent
  simp only [CallbackNode.content, SpaceCallbackState.content, hid, hcallback, hcallAt]

theorem MemoryInterp.Refines.deliver (h : mem.Refines interp)
    (hinactive : (interp.threads i).tstate.threadCallbackActive = false) (previous : Nat)
    (choices : BoundaryChoices) :
    StepsAlike (mem.deliverThreadSwitchCallback p previous i choices)
      (Retrace.deliverThreadSwitchCallback p interp previous i choices) := by
  obtain ⟨nodes, hregistry⟩ := h.registry
  obtain ⟨threads, registry, pending⟩ := mem
  obtain rfl : threads = interp.threads := h.threads
  unfold MemoryInterp.deliverThreadSwitchCallback Retrace.deliverThreadSwitchCallback switchEntry
  dsimp only at hregistry ⊢
  by_cases hzero : (interp.threads previous).tstate.threadId = 0 ∨
      (interp.threads i).tstate.threadId = 0
  · rw [if_pos (by tauto), if_pos hzero]
    exact .done h []
  · rw [if_neg (by rw [hinactive]; tauto), if_neg hzero]
    obtain ⟨hsearch, hfind⟩ | ⟨a, entry, hsearch, hfind, ha, hcontent⟩ := hregistry.search
      (p := fun node => node.threadSwitchCallback.isSome &&
        topSpaceId (interp.threads i) == some node.spaceId)
      (q := fun entry => entry.threadSwitchCallback.isSome &&
        topSpaceId (interp.threads i) == some entry.spaceId)
      (fun node entry hcontent => by
        obtain ⟨hid, -, hcallback, -⟩ := content_fields hcontent
        rw [hid, hcallback])
    · rw [hsearch, hfind]
      exact .done h []
    · obtain ⟨hid, hcursor, hcallback, -⟩ := content_fields hcontent
      have hmoved := h.setCursor hregistry ha i
      dsimp only at hmoved
      rw [hid] at hmoved
      rw [hsearch, hfind, Option.bind_eq_bind, Option.bind_some]
      dsimp only
      rw [hid, hcursor, hcallback]
      cases entry.threadSwitchCallback with
      | none => exact .done h []
      | some callback =>
        cases entry.lastBytecodeThread with
        | none => exact .done hmoved []
        | some cursor =>
          dsimp only
          by_cases hown : cursor = i
          · rw [if_pos hown, if_pos hown]
            exact .done h []
          · rw [if_neg hown, if_neg hown]
            cases hdelta : threadDeltaForTstate (interp.threads cursor) entry.spaceId
              choices.deltaAllocates choices.tupleAllocates with
            | mk result m =>
              cases result with
              | error => exact .done (h.setThread cursor m) [.ran cursor _]
              | noSpace => exact .done (hmoved.setThread cursor m) [.ran cursor _]
              | delta previousDelta =>
                dsimp only
                split
                · exact ((hmoved.setThread cursor m).startCallback i choices .afterSwitch
                    (.threadSwitch i entry.spaceId callback cursor previousDelta _)).after
                    (.ran cursor _)
                · exact .done (hmoved.setThread cursor m) [.ran cursor _]

theorem MemoryInterp.Refines.checkThreadSwitch (h : mem.Refines interp)
    (hinactive : (interp.threads i).tstate.threadCallbackActive = false)
    (choices : BoundaryChoices) :
    StepsAlike (mem.checkThreadSwitch p i choices) (Retrace.checkThreadSwitch p interp i choices) := by
  have hlast : ∀ {step : Option (MemoryInterp × List MemoryOutput)}
      {step' : Option (Interp × List Output)}, StepsAlike step step' → StepsAlike
      (step.map (fun result => (if (result.1.pending i).isNone then result.1.setLast i
        else result.1, result.2)))
      (step'.map (fun result => (if result.1.idle i then result.1.setLast i
        else result.1, result.2))) := by
    rintro step step' (⟨rfl, rfl⟩ | ⟨mem, interp, out, rfl, rfl, hrefines⟩)
    · exact Or.inl ⟨rfl, rfl⟩
    · refine Or.inr ⟨_, _, out, rfl, rfl, ?_⟩
      unfold Interp.idle
      rw [hrefines.pending]
      split
      · exact hrefines.setLast i
      · exact hrefines
  obtain ⟨nodes, hregistry⟩ := h.registry
  unfold MemoryInterp.checkThreadSwitch Retrace.checkThreadSwitch
  rw [hregistry.last, hregistry.switchArmed]
  split
  · exact .done h []
  · refine hlast ?_
    cases interp.lastBytecodeThread with
    | none => exact .done h []
    | some previous =>
      dsimp only
      split
      · exact h.deliver hinactive previous choices
      · exact .done h []

theorem MemoryInterp.Refines.setRegistry (h : mem.Refines interp) {registry : Registry}
    {nodes : List Nat} (hregistry : Represents registry nodes interp')
    (hsame : SameThreads interp interp') :
    MemoryInterp.Refines { mem with registry := registry } interp' :=
  ⟨h.threads.trans hsame.threads.symm, h.pending.trans hsame.pending.symm, nodes, hregistry⟩

theorem MemoryInterp.Refines.checkBoundary (h : mem.Refines interp) (htidy : Tidy interp)
    (hinactive : (interp.threads i).tstate.threadCallbackActive = false)
    (choices : BoundaryChoices) :
    StepsAlike (mem.checkBoundary p i choices) (Retrace.checkBoundary p interp i choices) := by
  obtain ⟨nodes, hregistry⟩ := h.registry
  obtain ⟨threads, registry, pending⟩ := mem
  obtain rfl : threads = interp.threads := h.threads
  unfold MemoryInterp.checkBoundary Retrace.checkBoundary
  dsimp only at hregistry ⊢
  rw [hregistry.callAt, hregistry.callAtArmed, CallAtFields.armed_of]
  by_cases harmed : (interp.callAt.isSome = true ∨ interp.callAtExtraArmed = true) ∧
      (topSpaceId (interp.threads i)).isSome = true
  · rw [if_pos harmed, if_pos harmed]
    obtain ⟨registry, nodes', hcheck, hchecked⟩ :=
      hregistry.checkCallAt htidy i choices.compareAllocates hinactive harmed.1
    rw [hcheck, Option.bind_eq_bind, Option.bind_some]
    cases hdelivery : Retrace.checkCallAt interp i choices.compareAllocates with
    | mk interp' delivery =>
      have hsame := checkCallAt_threads hdelivery
      rw [hdelivery] at hchecked
      have hrefines := h.setRegistry hchecked hsame
      cases delivery with
      | none => exact hrefines.checkThreadSwitch (by rw [hsame.threads]; exact hinactive) choices
      | some delivery => exact hrefines.startCallback i choices .afterCallAt (.callAt i delivery)
  · rw [if_neg harmed, if_neg harmed]
    exact h.checkThreadSwitch hinactive choices

theorem MemoryInterp.Refines.beginInstruction (h : mem.Refines interp) (hsound : Sound interp)
    (hlive : i ∈ interp.live) (jumps : List (Int × Int)) (offset : Nat)
    (choices : BoundaryChoices) :
    StepsAlike (mem.beginInstruction p i jumps offset choices)
      (Retrace.beginInstruction p interp i jumps offset choices) := by
  unfold MemoryInterp.beginInstruction Retrace.beginInstruction
  rw [h.threads]
  cases hstep : threadStep p (interp.threads i) (.begin jumps offset) with
  | none => exact Or.inl ⟨rfl, rfl⟩
  | some m =>
    dsimp only
    refine StepsAlike.after ?_ (.ran i (.begin jumps offset))
    have hset := h.setThread i m
    split
    · exact .done hset []
    · rename_i hactive
      rw [Bool.not_eq_true] at hactive
      exact hset.checkBoundary (hsound.idleBoundary hlive hstep hactive).1.tidy
        (by rwa [setThread_self]) choices

theorem MemoryInterp.Refines.endCallback (h : mem.Refines interp) (hsound : Sound interp)
    (hlive : i ∈ interp.live) (raised : Bool) (choices : BoundaryChoices) :
    StepsAlike (mem.endCallback p i raised choices) (Retrace.endCallback p interp i raised choices) := by
  unfold MemoryInterp.endCallback Retrace.endCallback
  rw [h.threads, h.pending]
  cases hpending : interp.pending i with
  | none => exact Or.inl ⟨rfl, rfl⟩
  | some pending =>
    cases hstep : threadStep p (interp.threads i) .callbackEnd with
    | none => exact Or.inl ⟨rfl, rfl⟩
    | some m =>
      dsimp only
      refine StepsAlike.after ?_ (.ran i .callbackEnd)
      have hset := (h.setThread i m).setPending i none
      cases pending with
      | afterSwitch => exact .done (hset.setLast i) []
      | afterCallAt =>
        dsimp only
        split
        · exact .done hset []
        · obtain ⟨hreturned, hidle⟩ := hsound.returned hlive hstep
          refine hset.checkThreadSwitch ?_ choices
          have hsynced := hreturned.synced i hlive
          unfold Interp.idle at hidle
          rw [← hsynced]
          simpa using hidle

theorem MemoryInterp.Refines.callAt (h : mem.Refines interp) (htidy : Tidy interp)
    (request : CallAtRequest) (address : Nat) :
    ∃ mem', mem.callAt request (if request.entryAllocates then some address else none) = some mem' ∧
      mem'.Refines (Retrace.callAt interp request).2 := by
  obtain ⟨nodes, hregistry⟩ := h.registry
  have hfind : mem.findThreadState request.threadId =
      Retrace.findThreadState interp request.threadId := by
    unfold MemoryInterp.findThreadState Retrace.findThreadState
    rw [h.threads, hregistry.live]
  have hkept : ∃ mem', some mem = some mem' ∧ mem'.Refines interp := ⟨mem, rfl, h⟩
  unfold MemoryInterp.callAt Retrace.callAt
  rw [hfind, h.threads]
  split
  · exact hkept
  · split
    · exact hkept
    · cases Retrace.findThreadState interp request.threadId with
      | none => exact hkept
      | some i =>
        dsimp only
        cases findThreadSpace (interp.threads i).tstate request.spaceId with
        | none => exact hkept
        | some node =>
          dsimp only
          split
          · exact hkept
          · cases compareTargetToFrame request.coordinates (interp.threads i)
              ((interp.threads i).spacePtr node) (threadStateFrame (interp.threads i) node)
              request.compareAllocates with
            | none => exact hkept
            | some comparison =>
              dsimp only
              split
              · exact hkept
              · obtain ⟨registry, nodes', harm, hrepresents⟩ := hregistry.armCallAt request address
                have hrefines := h.setRegistry hrepresents (htidy.armCallAt request).2.1
                rw [h.threads] at hrefines
                rw [harm]
                exact ⟨_, rfl, hrefines⟩

theorem MemoryInterp.Refines.step (h : mem.Refines interp) (hsound : Sound interp)
    (event : InterpEvent) (address : Nat) :
    StepsAlike (memoryStep p mem (event, address)) (interpStep p interp event) := by
  obtain ⟨nodes, hregistry⟩ := h.registry
  cases event with
  | run i event =>
    simp only [memoryStep, interpStep]
    rw [hregistry.live, h.threads]
    split
    · cases threadStep p (interp.threads i) event with
      | none => exact Or.inl ⟨rfl, rfl⟩
      | some m => exact .done (h.setThread i m) [.ran i event]
    · exact Or.inl ⟨rfl, rfl⟩
  | boundary i jumps offset choices =>
    simp only [memoryStep, interpStep]
    rw [hregistry.live]
    split
    · exact h.beginInstruction hsound ‹_› jumps offset choices
    · exact Or.inl ⟨rfl, rfl⟩
  | callbackReturns i raised choices =>
    simp only [memoryStep, interpStep]
    rw [hregistry.live]
    split
    · exact h.endCallback hsound ‹_› raised choices
    · exact Or.inl ⟨rfl, rfl⟩
  | callAt request =>
    obtain ⟨mem', hcall, hrefines⟩ := h.callAt hsound.tidy request address
    simp only [memoryStep, interpStep]
    rw [hcall]
    exact .done hrefines []
  | clearCallAt spaceId =>
    obtain ⟨registry, nodes', hclear, hrepresents⟩ := hregistry.clearCallAt spaceId
    simp only [memoryStep, interpStep]
    rw [hclear]
    exact .done (h.setRegistry hrepresents (clearCallAt_threads interp spaceId)) []
  | setThreadSwitchCallback i callback spaceId allocates =>
    obtain ⟨registry, nodes', hset, hrepresents⟩ :=
      hregistry.setThreadSwitchCallback i callback spaceId address allocates
    simp only [memoryStep, interpStep]
    rw [hregistry.live, h.threads]
    split
    · have hrefines := h.setRegistry hrepresents
        (setThreadSwitchCallback_threads hsound.tidy i callback spaceId allocates)
      rw [h.threads] at hrefines
      rw [hset]
      exact .done hrefines []
    · exact Or.inl ⟨rfl, rfl⟩
  | clearThread i =>
    obtain ⟨registry, hclear, hrepresents⟩ := hregistry.clearThread hsound.distinct i
    simp only [memoryStep, interpStep]
    rw [hregistry.live, h.threads]
    split
    · rw [hclear]
      have hrefines : MemoryInterp.Refines { mem.setThread i ((mem.threads i).setTstate
          (clearThreadState (mem.threads i).tstate)) with registry := registry }
          (Retrace.clearThread clearThreadState interp i) := by
        refine ⟨?_, h.pending, nodes, hrepresents⟩
        change Function.update mem.threads i _ = Function.update interp.threads i _
        rw [h.threads]
      rw [h.threads] at hrefines
      exact .done hrefines []
    · exact Or.inl ⟨rfl, rfl⟩

theorem MemoryInterp.Refines.run (h : mem.Refines interp) (hsound : Sound interp)
    (events : List (InterpEvent × Nat)) :
    StepsAlike (StepRun.run (memoryStep p) events mem)
      (StepRun.run (interpStep p) (events.map Prod.fst) interp) := by
  induction events generalizing mem interp with
  | nil => exact .done h []
  | cons event events ih =>
    rw [List.map_cons, StepRun.run, StepRun.run]
    obtain ⟨hnone, hnone'⟩ | ⟨mid, mid', out, hstep, hstep', hmid⟩ :=
      h.step (p := p) hsound event.1 event.2
    · rw [hnone, hnone']
      exact Or.inl ⟨rfl, rfl⟩
    · rw [hstep, hstep', Option.bind_eq_bind, Option.bind_some, Option.bind_eq_bind, Option.bind_some]
      dsimp only
      obtain ⟨hnone, hnone'⟩ | ⟨last, last', more, hrun, hrun', hlast⟩ :=
        ih hmid ((hsound.stepping hstep').sound hsound)
      · rw [hnone, hnone']
        exact Or.inl ⟨rfl, rfl⟩
      · rw [hrun, hrun', Option.bind_some, Option.bind_some]
        dsimp only
        rw [← List.map_append]
        exact .done hlast (out ++ more)

end steps

theorem freshMemory_refines (p : Platform) (live : List Nat) :
    (freshMemory (freshInterp p live).threads live).Refines (freshInterp p live) :=
  ⟨rfl, rfl, [], ⟨⟨.nil, by simp [freshMemory, newRegistry], List.nodup_nil⟩, .nil⟩, rfl, rfl, rfl,
    rfl, rfl⟩

/-- Every sequence of events, wherever its nodes find memory, is a run with the registry in memory
exactly if it is one with the list of entries. Both show the same, and at the end the nodes hold the
entries. -/
theorem callbackMemory_refines (p : Platform) {live : List Nat} (hlive : live.Nodup)
    (events : List (InterpEvent × Nat)) :
    (StepRun.run (memoryStep p) events (freshMemory (freshInterp p live).threads live) = none ∧
      StepRun.run (interpStep p) (events.map Prod.fst) (freshInterp p live) = none) ∨
    ∃ mem interp out, StepRun.run (memoryStep p) events
        (freshMemory (freshInterp p live).threads live) = some (mem, out.map Output.shown) ∧
      StepRun.run (interpStep p) (events.map Prod.fst) (freshInterp p live) = some (interp, out) ∧
      mem.Refines interp :=
  (freshMemory_refines p live).run (freshInterp_unused p hlive).sound events

/-- Nodes of two spaces, a target of the older one that its callback replaces by none. -/
def twoSpaces : List (InterpEvent × Nat) := [
  (.run 0 (.enterSpace 0 5 true), 0), (.run 0 (.call 0 0 true true), 0),
  (.boundary 0 [] 4 (roomyChoices 9), 0), (.callAt ⟨1, [6, 0], 1, none, 5, true, true⟩, 16),
  (.setThreadSwitchCallback 1 (some 7) 3 true, 32), (.boundary 0 [] 6 (roomyChoices 9), 0),
  (.callbackReturns 0 false (roomyChoices 9), 0), (.setThreadSwitchCallback 1 (some 8) 5 true, 16)]

theorem callbackMemory_refines_twoSpaces : ∃ mem interp out,
    StepRun.run (memoryStep ⟨true, true⟩) twoSpaces
      (freshMemory (freshInterp ⟨true, true⟩ [0, 1]).threads [0, 1]) =
        some (mem, out.map Output.shown) ∧
    StepRun.run (interpStep ⟨true, true⟩) (twoSpaces.map Prod.fst)
      (freshInterp ⟨true, true⟩ [0, 1]) = some (interp, out) ∧ mem.Refines interp := by
  obtain ⟨-, hnone⟩ | hboth :=
      @callbackMemory_refines ⟨true, true⟩ [0, 1] (by decide) twoSpaces
  · have hsome : (StepRun.run (interpStep ⟨true, true⟩) (twoSpaces.map Prod.fst)
        (freshInterp ⟨true, true⟩ [0, 1])).isSome = true := by decide +kernel
    rw [hnone] at hsome
    cases hsome
  · exact hboth

end Retrace
