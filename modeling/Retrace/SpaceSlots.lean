import Retrace.BytecodeBoundary

/-! The callbacks of an interpreter read by space, and what arming and clearing do to them. -/

set_option autoImplicit false

namespace Retrace

def slotAt (interp : Interp) (spaceId : Nat) : Option CallAt :=
  if spaceId = spaceIdRoot then interp.callAt
  else (findSpaceCallbackState interp spaceId).bind (fun entry => entry.callAt)

def switchAt (interp : Interp) (spaceId : Nat) : Option (Nat × Option Nat) :=
  (findSpaceCallbackState interp spaceId).bind (fun entry =>
    entry.threadSwitchCallback.map (fun callback => (callback, entry.lastBytecodeThread)))

/-- One entry for a space, none of them with a target of the root space, and flags that tell
whether an entry has a target or a switch callback. -/
structure Tidy (interp : Interp) : Prop where
  distinct : (interp.spaceCallbacks.map (fun entry => entry.spaceId)).Nodup
  root : ∀ entry ∈ interp.spaceCallbacks, entry.spaceId = spaceIdRoot → entry.callAt = none
  callAtArmed : interp.callAtExtraArmed =
    interp.spaceCallbacks.any (fun entry => entry.callAt.isSome)
  switchArmed : interp.threadSwitchArmed =
    interp.spaceCallbacks.any (fun entry => entry.threadSwitchCallback.isSome)

def CallAtRequest.target (request : CallAtRequest) (arming : Nat) : CallAt where
  threadId := request.threadId
  coordinates := request.coordinates
  callback := request.callback
  overshootCallback := request.overshootCallback
  arming := arming

section entries
variable {entries : List SpaceCallbackState} {entry : SpaceCallbackState} {spaceId other : Nat}
  {f : SpaceCallbackState → SpaceCallbackState}

theorem findEntry_cons (entry : SpaceCallbackState) (entries : List SpaceCallbackState)
    (spaceId : Nat) : findEntry spaceId (entry :: entries) =
      if entry.spaceId = spaceId then some entry else findEntry spaceId entries := by
  unfold findEntry
  rw [List.find?_cons]
  by_cases h : entry.spaceId = spaceId <;> simp [h]

theorem findEntry_some (h : findEntry spaceId entries = some entry) :
    entry ∈ entries ∧ entry.spaceId = spaceId :=
  ⟨List.mem_of_find?_eq_some h, by simpa using List.find?_some h⟩

theorem findEntry_none (h : findEntry spaceId entries = none) :
    spaceId ∉ entries.map (fun entry => entry.spaceId) := by
  unfold findEntry at h
  rw [List.find?_eq_none] at h
  rw [List.mem_map]
  rintro ⟨entry, hentry, hid⟩
  exact h entry hentry (by simpa using hid)

theorem findEntry_mem (hdistinct : (entries.map (fun entry => entry.spaceId)).Nodup)
    (h : entry ∈ entries) : findEntry entry.spaceId entries = some entry := by
  induction entries with
  | nil => cases h
  | cons first rest ih =>
    rw [List.map_cons, List.nodup_cons] at hdistinct
    rw [findEntry_cons]
    obtain rfl | hrest := List.mem_cons.mp h
    · rw [if_pos rfl]
    · rw [if_neg, ih hdistinct.2 hrest]
      intro heq
      exact hdistinct.1 (heq ▸ List.mem_map_of_mem (f := fun entry => entry.spaceId) hrest)

theorem findEntry_write (hf : ∀ entry, (f entry).spaceId = entry.spaceId) :
    findEntry other (updateEntry spaceId f entries) =
      if other = spaceId then (findEntry spaceId entries).map f else findEntry other entries := by
  induction entries with
  | nil => simp [updateEntry, findEntry]
  | cons first rest ih =>
    unfold updateEntry
    by_cases hfirst : first.spaceId = spaceId
    · rw [if_pos hfirst, findEntry_cons, findEntry_cons, findEntry_cons, hf, if_pos hfirst]
      by_cases hother : other = spaceId
      · rw [if_pos (hfirst.trans hother.symm), if_pos hother]
        rfl
      · rw [if_neg (fun heq => hother (heq.symm.trans hfirst)), if_neg hother,
          if_neg (fun heq => hother (heq.symm.trans hfirst))]
    · rw [if_neg hfirst, findEntry_cons, findEntry_cons, findEntry_cons, ih, if_neg hfirst]
      by_cases hother : other = spaceId
      · rw [if_pos hother, if_neg (fun heq => hfirst (heq.trans hother)), if_pos hother]
      · rw [if_neg hother, if_neg hother]

theorem spaceIds_updateEntry (hf : ∀ entry, (f entry).spaceId = entry.spaceId) :
    (updateEntry spaceId f entries).map (fun entry => entry.spaceId) =
      entries.map (fun entry => entry.spaceId) := by
  induction entries with
  | nil => rfl
  | cons first rest ih =>
    unfold updateEntry
    split
    · rw [List.map_cons, List.map_cons, hf]
    · rw [List.map_cons, List.map_cons, ih]

theorem any_updateEntry {holds : SpaceCallbackState → Bool}
    (hf : ∀ entry, holds (f entry) = holds entry) :
    (updateEntry spaceId f entries).any holds = entries.any holds := by
  induction entries with
  | nil => rfl
  | cons first rest ih =>
    unfold updateEntry
    split
    · rw [List.any_cons, List.any_cons, hf]
    · rw [List.any_cons, List.any_cons, ih]

theorem mem_updateEntry (h : entry ∈ updateEntry spaceId f entries) :
    entry ∈ entries ∨ ∃ old ∈ entries, old.spaceId = spaceId ∧ entry = f old := by
  induction entries with
  | nil => cases h
  | cons first rest ih =>
    unfold updateEntry at h
    split at h
    · rename_i hfirst
      obtain rfl | hrest := List.mem_cons.mp h
      · exact Or.inr ⟨first, List.mem_cons_self, hfirst, rfl⟩
      · exact Or.inl (List.mem_cons_of_mem _ hrest)
    · obtain rfl | hrest := List.mem_cons.mp h
      · exact Or.inl List.mem_cons_self
      · obtain hold | ⟨old, hold, hid, heq⟩ := ih hrest
        · exact Or.inl (List.mem_cons_of_mem _ hold)
        · exact Or.inr ⟨old, List.mem_cons_of_mem _ hold, hid, heq⟩

def eraseEntry (spaceId : Nat) (entries : List SpaceCallbackState) : List SpaceCallbackState :=
  entries.eraseP (fun entry => entry.spaceId = spaceId)

theorem eraseEntry_cons (first : SpaceCallbackState) (rest : List SpaceCallbackState) :
    eraseEntry spaceId (first :: rest) =
      if first.spaceId = spaceId then rest else first :: eraseEntry spaceId rest := by
  unfold eraseEntry
  rw [List.eraseP_cons]
  by_cases h : first.spaceId = spaceId <;> simp [h]

theorem findEntry_eraseEntry (hdistinct : (entries.map (fun entry => entry.spaceId)).Nodup) :
    findEntry other (eraseEntry spaceId entries) =
      if other = spaceId then none else findEntry other entries := by
  induction entries with
  | nil => simp [eraseEntry, findEntry]
  | cons first rest ih =>
    rw [List.map_cons, List.nodup_cons] at hdistinct
    rw [eraseEntry_cons, findEntry_cons]
    by_cases hfirst : first.spaceId = spaceId
    · rw [if_pos hfirst]
      by_cases hother : other = spaceId
      · rw [if_pos hother]
        cases hfind : findEntry other rest with
        | none => rfl
        | some entry =>
          obtain ⟨hmem, hid⟩ := findEntry_some hfind
          have hin := List.mem_map_of_mem (f := fun entry => entry.spaceId) hmem
          rw [hid, hother, ← hfirst] at hin
          exact absurd hin hdistinct.1
      · rw [if_neg hother, if_neg (fun heq => hother (heq.symm.trans hfirst))]
    · rw [if_neg hfirst, findEntry_cons, ih hdistinct.2]
      by_cases hother : other = spaceId
      · rw [if_pos hother, if_pos hother, if_neg (fun heq => hfirst (heq.trans hother))]
      · rw [if_neg hother, if_neg hother]

theorem any_eraseEntry {holds : SpaceCallbackState → Bool}
    (h : ∀ entry, findEntry spaceId entries = some entry → holds entry = false) :
    (eraseEntry spaceId entries).any holds = entries.any holds := by
  induction entries with
  | nil => rfl
  | cons first rest ih =>
    rw [eraseEntry_cons]
    by_cases hfirst : first.spaceId = spaceId
    · have hfalse := h first (by rw [findEntry_cons, if_pos hfirst])
      rw [if_pos hfirst, List.any_cons, hfalse, Bool.false_or]
    · rw [if_neg hfirst, List.any_cons, List.any_cons, ih]
      intro entry hentry
      exact h entry (by rw [findEntry_cons, if_neg hfirst, hentry])

theorem spaceIds_eraseEntry (hdistinct : (entries.map (fun entry => entry.spaceId)).Nodup) :
    ((eraseEntry spaceId entries).map (fun entry => entry.spaceId)).Nodup :=
  hdistinct.sublist (List.eraseP_sublist.map _)

end entries

section slots
variable {interp : Interp} {spaceId other : Nat}

theorem pruneSpaceCallbackState_eq (interp : Interp) (spaceId : Nat) :
    pruneSpaceCallbackState interp spaceId = interp ∨
    (pruneSpaceCallbackState interp spaceId =
        { interp with spaceCallbacks := eraseEntry spaceId interp.spaceCallbacks } ∧
      ∃ entry, findSpaceCallbackState interp spaceId = some entry ∧
        entry.threadSwitchCallback = none ∧ entry.callAt = none) := by
  unfold pruneSpaceCallbackState
  cases hfind : findSpaceCallbackState interp spaceId with
  | none => exact Or.inl rfl
  | some entry =>
    cases hempty : spaceCallbackStateEmpty entry with
    | false => exact Or.inl (if_neg (by simp [hempty]))
    | true =>
      unfold spaceCallbackStateEmpty at hempty
      simp only [Bool.and_eq_true, Option.isNone_iff_eq_none] at hempty
      refine Or.inr ⟨if_pos (by simp [spaceCallbackStateEmpty, hempty]), entry, rfl, hempty⟩

theorem Tidy.prune (h : Tidy interp) (spaceId : Nat) :
    Tidy (pruneSpaceCallbackState interp spaceId) ∧
    (∀ other, slotAt (pruneSpaceCallbackState interp spaceId) other = slotAt interp other) ∧
    ∀ other, switchAt (pruneSpaceCallbackState interp spaceId) other = switchAt interp other := by
  obtain heq | ⟨heq, entry, hfind, hcallback, hcallAt⟩ := pruneSpaceCallbackState_eq interp spaceId
  · rw [heq]
    exact ⟨h, fun _ => rfl, fun _ => rfl⟩
  · have herase : ∀ other, findSpaceCallbackState
        { interp with spaceCallbacks := eraseEntry spaceId interp.spaceCallbacks } other =
        if other = spaceId then none else findSpaceCallbackState interp other :=
      fun other => findEntry_eraseEntry h.distinct
    have hany : ∀ holds : SpaceCallbackState → Bool, holds entry = false →
        (eraseEntry spaceId interp.spaceCallbacks).any holds = interp.spaceCallbacks.any holds := by
      intro holds hfalse
      refine any_eraseEntry (fun found hfound => ?_)
      unfold findSpaceCallbackState at hfind
      rw [hfind] at hfound
      exact Option.some.inj hfound ▸ hfalse
    rw [heq]
    refine ⟨⟨spaceIds_eraseEntry h.distinct, ?_, ?_, ?_⟩, ?_, ?_⟩
    · intro found hfound
      exact h.root found (List.mem_of_mem_eraseP hfound)
    · rw [hany _ (by rw [hcallAt]; rfl)]
      exact h.callAtArmed
    · rw [hany _ (by rw [hcallback]; rfl)]
      exact h.switchArmed
    · intro other
      unfold slotAt
      rw [herase]
      by_cases hother : other = spaceId
      · rw [if_pos hother, hother, hfind, Option.bind_some, hcallAt, Option.bind_none]
      · rw [if_neg hother]
    · intro other
      unfold switchAt
      rw [herase]
      by_cases hother : other = spaceId
      · rw [if_pos hother, hother, hfind, Option.bind_some, hcallback, Option.map_none,
          Option.bind_none]
      · rw [if_neg hother]

theorem Tidy.setCallAt (h : Tidy interp) (hroot : spaceId ≠ spaceIdRoot)
    (hentry : (findSpaceCallbackState interp spaceId).isSome = true) (target : Option CallAt)
    {armed : Bool} (harmed : armed = (updateEntry spaceId
      (fun entry => { entry with callAt := target }) interp.spaceCallbacks).any
        (fun entry => entry.callAt.isSome)) (armings : Nat) :
    let written := { interp with
      spaceCallbacks := updateEntry spaceId (fun entry => { entry with callAt := target })
        interp.spaceCallbacks
      callAtExtraArmed := armed
      armings := armings }
    Tidy written ∧
    (∀ other, slotAt written other = if other = spaceId then target else slotAt interp other) ∧
    ∀ other, switchAt written other = switchAt interp other := by
  intro written
  have hfind : ∀ other, findSpaceCallbackState written other = if other = spaceId then
      (findSpaceCallbackState interp spaceId).map (fun entry => { entry with callAt := target })
      else findSpaceCallbackState interp other :=
    fun other => findEntry_write (fun _ => rfl)
  obtain ⟨old, hold⟩ := Option.isSome_iff_exists.mp hentry
  refine ⟨⟨?_, ?_, harmed, ?_⟩, ?_, ?_⟩
  · have hids := @spaceIds_updateEntry interp.spaceCallbacks spaceId
      (fun entry => { entry with callAt := target }) (fun _ => rfl)
    exact hids ▸ h.distinct
  · intro entry hmem hid
    obtain hmem | ⟨first, -, hfirst, rfl⟩ := mem_updateEntry hmem
    · exact h.root entry hmem hid
    · exact absurd (hfirst.symm.trans hid) hroot
  · have hsame := @any_updateEntry interp.spaceCallbacks spaceId
      (fun entry => { entry with callAt := target })
      (fun entry => entry.threadSwitchCallback.isSome) (fun _ => rfl)
    exact h.switchArmed.trans hsame.symm
  · intro other
    unfold slotAt
    rw [hfind]
    by_cases hother : other = spaceId
    · rw [if_pos hother, if_pos hother, if_neg (fun heq => hroot (hother.symm.trans heq)), hold]
      rfl
    · rw [if_neg hother, if_neg hother]
  · intro other
    unfold switchAt
    rw [hfind]
    by_cases hother : other = spaceId
    · rw [if_pos hother, hother, hold]
      rfl
    · rw [if_neg hother]

theorem Tidy.clearCallAt (h : Tidy interp) (spaceId : Nat) :
    Tidy (clearCallAt interp spaceId) ∧
    (∀ other, slotAt (clearCallAt interp spaceId) other =
      if other = spaceId then none else slotAt interp other) ∧
    ∀ other, switchAt (clearCallAt interp spaceId) other = switchAt interp other := by
  unfold Retrace.clearCallAt
  by_cases hroot : spaceId = spaceIdRoot
  · rw [if_pos hroot]
    refine ⟨⟨h.distinct, h.root, h.callAtArmed, h.switchArmed⟩, ?_, fun _ => rfl⟩
    intro other
    unfold slotAt
    rw [hroot]
    split <;> rfl
  · rw [if_neg hroot]
    unfold clearSpaceCallAt
    cases hfind : findSpaceCallbackState interp spaceId with
    | none =>
      refine ⟨h, ?_, fun _ => rfl⟩
      intro other
      by_cases hother : other = spaceId
      · unfold slotAt
        rw [if_pos hother, hother, if_neg hroot, hfind]
        rfl
      · rw [if_neg hother]
    | some entry =>
      obtain ⟨htidy, hslot, hswitch⟩ :=
        h.setCallAt hroot (by rw [hfind]; rfl) none rfl interp.armings
      obtain ⟨hpruned, hslot', hswitch'⟩ := htidy.prune spaceId
      exact ⟨hpruned, fun other => (hslot' other).trans (hslot other),
        fun other => (hswitch' other).trans (hswitch other)⟩

/-- What a change of the callbacks leaves alone. -/
structure SameThreads (interp interp' : Interp) : Prop where
  threads : interp'.threads = interp.threads
  live : interp'.live = interp.live
  last : interp'.lastBytecodeThread = interp.lastBytecodeThread
  pending : interp'.pending = interp.pending

theorem SameThreads.refl (interp : Interp) : SameThreads interp interp := ⟨rfl, rfl, rfl, rfl⟩

theorem SameThreads.trans {mid interp' : Interp} (h : SameThreads interp mid)
    (h' : SameThreads mid interp') : SameThreads interp interp' :=
  ⟨h'.threads.trans h.threads, h'.live.trans h.live, h'.last.trans h.last,
    h'.pending.trans h.pending⟩

theorem pruneSpaceCallbackState_threads (interp : Interp) (spaceId : Nat) :
    SameThreads interp (pruneSpaceCallbackState interp spaceId) := by
  obtain heq | ⟨heq, -⟩ := pruneSpaceCallbackState_eq interp spaceId
  · rw [heq]
    exact SameThreads.refl interp
  · rw [heq]
    exact ⟨rfl, rfl, rfl, rfl⟩

theorem pruneSpaceCallbackState_armings (interp : Interp) (spaceId : Nat) :
    (pruneSpaceCallbackState interp spaceId).armings = interp.armings := by
  obtain heq | ⟨heq, -⟩ := pruneSpaceCallbackState_eq interp spaceId
  · rw [heq]
  · rw [heq]

theorem clearCallAt_threads (interp : Interp) (spaceId : Nat) :
    SameThreads interp (Retrace.clearCallAt interp spaceId) := by
  unfold Retrace.clearCallAt
  split
  · exact ⟨rfl, rfl, rfl, rfl⟩
  · unfold clearSpaceCallAt
    cases findSpaceCallbackState interp spaceId with
    | none => exact SameThreads.refl interp
    | some entry =>
      have hpruned := pruneSpaceCallbackState_threads (updateCallAtExtraArmed { interp with
        spaceCallbacks := updateEntry spaceId (fun entry => { entry with callAt := none })
          interp.spaceCallbacks }) spaceId
      exact ⟨hpruned.threads, hpruned.live, hpruned.last, hpruned.pending⟩

theorem Tidy.setSwitch (h : Tidy interp) (spaceId : Nat)
    (write : SpaceCallbackState → SpaceCallbackState)
    (hid : ∀ entry, (write entry).spaceId = entry.spaceId)
    (hcallAt : ∀ entry, (write entry).callAt = entry.callAt) {armed : Bool}
    (harmed : armed = (updateEntry spaceId write interp.spaceCallbacks).any
      (fun entry => entry.threadSwitchCallback.isSome)) :
    let written := { interp with
      spaceCallbacks := updateEntry spaceId write interp.spaceCallbacks
      threadSwitchArmed := armed }
    Tidy written ∧ (∀ other, slotAt written other = slotAt interp other) ∧
    ∀ other, switchAt written other = if other = spaceId then
      (findSpaceCallbackState interp spaceId).bind (fun entry =>
        (write entry).threadSwitchCallback.map (fun callback =>
          (callback, (write entry).lastBytecodeThread)))
      else switchAt interp other := by
  intro written
  have hfind : ∀ other, findSpaceCallbackState written other = if other = spaceId then
      (findSpaceCallbackState interp spaceId).map write
      else findSpaceCallbackState interp other :=
    fun other => findEntry_write hid
  refine ⟨⟨?_, ?_, ?_, harmed⟩, ?_, ?_⟩
  · have hids := @spaceIds_updateEntry interp.spaceCallbacks spaceId write hid
    exact hids ▸ h.distinct
  · intro entry hmem hroot
    obtain hmem | ⟨first, hfirst, -, rfl⟩ := mem_updateEntry hmem
    · exact h.root entry hmem hroot
    · rw [hcallAt]
      exact h.root first hfirst ((hid first).symm.trans hroot)
  · have hsame := @any_updateEntry interp.spaceCallbacks spaceId write
      (fun entry => entry.callAt.isSome) (fun entry => congrArg Option.isSome (hcallAt entry))
    exact h.callAtArmed.trans hsame.symm
  · intro other
    unfold slotAt
    rw [hfind]
    by_cases hother : other = spaceId
    · rw [if_pos hother, hother]
      cases findSpaceCallbackState interp spaceId with
      | none => rfl
      | some entry =>
        rw [Option.map_some, Option.bind_some, Option.bind_some, hcallAt]
    · rw [if_neg hother]
  · intro other
    unfold switchAt
    rw [hfind]
    by_cases hother : other = spaceId
    · rw [if_pos hother, if_pos hother]
      cases findSpaceCallbackState interp spaceId <;> rfl
    · rw [if_neg hother, if_neg hother]

theorem ensureSpaceCallbackState_none {allocates : Bool}
    (hensure : ensureSpaceCallbackState interp spaceId allocates = none) : allocates = false := by
  cases allocates with
  | false => rfl
  | true =>
    unfold ensureSpaceCallbackState at hensure
    cases hfind : findSpaceCallbackState interp spaceId with
    | none =>
      rw [hfind] at hensure
      cases hensure
    | some entry =>
      rw [hfind] at hensure
      cases hensure

theorem Tidy.ensure (h : Tidy interp) {allocates : Bool} {interp' : Interp}
    (hensure : ensureSpaceCallbackState interp spaceId allocates = some interp') :
    Tidy interp' ∧ SameThreads interp interp' ∧ interp'.armings = interp.armings ∧
    (findSpaceCallbackState interp' spaceId).isSome = true ∧
    (∀ other, slotAt interp' other = slotAt interp other) ∧
    ∀ other, switchAt interp' other = switchAt interp other := by
  unfold ensureSpaceCallbackState at hensure
  cases hfind : findSpaceCallbackState interp spaceId with
  | some entry =>
    rw [hfind] at hensure
    cases hensure
    exact ⟨h, SameThreads.refl _, rfl, by rw [hfind]; rfl, fun _ => rfl, fun _ => rfl⟩
  | none =>
    rw [hfind] at hensure
    cases allocates with
    | false => cases hensure
    | true =>
      cases hensure
      have hadded : ∀ other, findSpaceCallbackState { interp with
          spaceCallbacks := ⟨spaceId, none, none, none⟩ :: interp.spaceCallbacks } other =
          if spaceId = other then some ⟨spaceId, none, none, none⟩
          else findSpaceCallbackState interp other :=
        fun other => findEntry_cons _ _ _
      refine ⟨⟨?_, ?_, ?_, ?_⟩, ⟨rfl, rfl, rfl, rfl⟩, rfl, ?_, ?_, ?_⟩
      · rw [List.map_cons, List.nodup_cons]
        exact ⟨findEntry_none hfind, h.distinct⟩
      · intro entry hmem hroot
        obtain rfl | hmem := List.mem_cons.mp hmem
        · rfl
        · exact h.root entry hmem hroot
      · exact h.callAtArmed
      · exact h.switchArmed
      · rw [hadded, if_pos rfl]
        rfl
      · intro other
        unfold slotAt
        rw [hadded]
        by_cases hother : spaceId = other
        · rw [if_pos hother, ← hother, hfind]
          rfl
        · rw [if_neg hother]
      · intro other
        unfold switchAt
        rw [hadded]
        by_cases hother : spaceId = other
        · rw [if_pos hother, ← hother, hfind]
          rfl
        · rw [if_neg hother]

theorem clearCallAt_armings (interp : Interp) (spaceId : Nat) :
    (Retrace.clearCallAt interp spaceId).armings = interp.armings := by
  unfold Retrace.clearCallAt
  split
  · rfl
  · unfold clearSpaceCallAt
    cases findSpaceCallbackState interp spaceId with
    | none => rfl
    | some entry =>
      dsimp only
      rw [pruneSpaceCallbackState_armings]
      rfl

theorem armCallAt_root (interp : Interp) {request : CallAtRequest}
    (hroot : request.spaceId = spaceIdRoot) :
    armCallAt interp request = (none, { clearCallAt interp request.spaceId with
      callAt := some (request.target interp.armings)
      armings := interp.armings + 1 }) := by
  unfold armCallAt
  dsimp only
  rw [if_pos hroot, clearCallAt_armings interp request.spaceId]
  rfl

theorem armCallAt_extra {interp mid : Interp} {request : CallAtRequest}
    (hroot : request.spaceId ≠ spaceIdRoot) (harmings : mid.armings = interp.armings)
    (hensure : ensureSpaceCallbackState (clearCallAt interp request.spaceId) request.spaceId
      request.entryAllocates = some mid) :
    armCallAt interp request = (none, { mid with
      spaceCallbacks := updateEntry request.spaceId (fun entry => { entry with
        callAt := some (request.target interp.armings) }) mid.spaceCallbacks
      callAtExtraArmed := true
      armings := interp.armings + 1 }) := by
  unfold armCallAt
  dsimp only
  rw [if_neg hroot, hensure, clearCallAt_armings interp request.spaceId]
  dsimp only
  rw [harmings]
  rfl

theorem any_armed {entries : List SpaceCallbackState} {spaceId : Nat} (target : CallAt)
    (hfound : (findEntry spaceId entries).isSome = true) :
    true = (updateEntry spaceId (fun entry => { entry with callAt := some target }) entries).any
      (fun entry => entry.callAt.isSome) := by
  obtain ⟨entry, hentry⟩ := Option.isSome_iff_exists.mp hfound
  have hupdated := @findEntry_write entries spaceId spaceId
    (fun entry => { entry with callAt := some target }) (fun _ => rfl)
  rw [if_pos rfl, hentry, Option.map_some] at hupdated
  exact (List.any_eq_true.mpr ⟨_, (findEntry_some hupdated).1, rfl⟩).symm

/-- Arming fills the slot of the space, or leaves it empty if there is no room for its entry. -/
theorem Tidy.armCallAt (h : Tidy interp) (request : CallAtRequest) :
    Tidy (armCallAt interp request).2 ∧ SameThreads interp (armCallAt interp request).2 ∧
    (∀ other, switchAt (armCallAt interp request).2 other = switchAt interp other) ∧
    (((armCallAt interp request).1 = none ∧
        (armCallAt interp request).2.armings = interp.armings + 1 ∧
        ∀ other, slotAt (armCallAt interp request).2 other =
          if other = request.spaceId then some (request.target interp.armings)
          else slotAt interp other) ∨
      ((armCallAt interp request).1 ≠ none ∧
        (armCallAt interp request).2.armings = interp.armings ∧
        ∀ other, slotAt (armCallAt interp request).2 other =
          if other = request.spaceId then none else slotAt interp other)) := by
  obtain ⟨htidy, hslot, hswitch⟩ := h.clearCallAt request.spaceId
  have hthreads := clearCallAt_threads interp request.spaceId
  have harmings := clearCallAt_armings interp request.spaceId
  by_cases hroot : request.spaceId = spaceIdRoot
  · rw [armCallAt_root interp hroot]
    refine ⟨⟨htidy.distinct, htidy.root, htidy.callAtArmed, htidy.switchArmed⟩,
      ⟨hthreads.threads, hthreads.live, hthreads.last, hthreads.pending⟩, hswitch,
      Or.inl ⟨rfl, rfl, ?_⟩⟩
    intro other
    have hold := hslot other
    rw [hroot] at hold ⊢
    by_cases hother : other = spaceIdRoot
    · rw [if_pos hother]
      exact if_pos hother
    · rw [if_neg hother] at hold ⊢
      rw [← hold]
      unfold slotAt
      rw [if_neg hother, if_neg hother]
      rfl
  · cases hensure : ensureSpaceCallbackState (Retrace.clearCallAt interp request.spaceId)
        request.spaceId request.entryAllocates with
    | none =>
      have hresult : Retrace.armCallAt interp request =
          (some .memoryError, Retrace.clearCallAt interp request.spaceId) := by
        unfold Retrace.armCallAt
        dsimp only
        rw [if_neg hroot, hensure]
      rw [hresult]
      exact ⟨htidy, hthreads, hswitch, Or.inr ⟨by simp, harmings, hslot⟩⟩
    | some mid =>
      obtain ⟨htidy', hthreads', harmings', hfound, hslot', hswitch'⟩ := htidy.ensure hensure
      obtain ⟨hfinal, hslotFinal, hswitchFinal⟩ :=
        htidy'.setCallAt hroot hfound _ (any_armed _ hfound) (interp.armings + 1)
      rw [armCallAt_extra hroot (harmings'.trans harmings) hensure]
      refine ⟨hfinal, ?_, ?_, Or.inl ⟨rfl, rfl, ?_⟩⟩
      · exact (hthreads.trans hthreads').trans ⟨rfl, rfl, rfl, rfl⟩
      · intro other
        exact (hswitchFinal other).trans ((hswitch' other).trans (hswitch other))
      · intro other
        rw [hslotFinal]
        by_cases hother : other = request.spaceId
        · rw [if_pos hother, if_pos hother]
        · rw [if_neg hother, if_neg hother, hslot', hslot, if_neg hother]

theorem callAt_cases (interp : Interp) (request : CallAtRequest) :
    (∃ error, callAt interp request = (some error, interp)) ∨
    callAt interp request = armCallAt interp request ∧ ∃ i node comparison,
      findThreadState interp request.threadId = some i ∧
      findThreadSpace (interp.threads i).tstate request.spaceId = some node ∧
      ((interp.threads i).tstate.space node).seen = true ∧
      compareTargetToFrame request.coordinates (interp.threads i)
        ((interp.threads i).spacePtr node) (threadStateFrame (interp.threads i) node)
        request.compareAllocates = some comparison ∧
      (comparison < 0 → request.overshootCallback ≠ none) := by
  unfold callAt
  split
  · exact Or.inl ⟨_, rfl⟩
  split
  · exact Or.inl ⟨_, rfl⟩
  cases hthread : findThreadState interp request.threadId with
  | none => exact Or.inl ⟨_, rfl⟩
  | some i =>
    dsimp only
    cases hfind : findThreadSpace (interp.threads i).tstate request.spaceId with
    | none => exact Or.inl ⟨_, rfl⟩
    | some node =>
      dsimp only
      split
      · exact Or.inl ⟨_, rfl⟩
      rename_i hseen
      cases hcompare : compareTargetToFrame request.coordinates (interp.threads i)
          ((interp.threads i).spacePtr node) (threadStateFrame (interp.threads i) node)
          request.compareAllocates with
      | none => exact Or.inl ⟨_, rfl⟩
      | some comparison =>
        dsimp only
        split
        · exact Or.inl ⟨_, rfl⟩
        · rename_i hpast
          refine Or.inr ⟨rfl, i, node, comparison, rfl, hfind, by simpa using hseen, hcompare, ?_⟩
          exact fun hlt hnone => hpast ⟨hlt, hnone⟩

theorem Tidy.setCursor (h : Tidy interp) (spaceId i : Nat) :
    Tidy (interp.setCursor spaceId i) ∧
    (∀ other, slotAt (interp.setCursor spaceId i) other = slotAt interp other) ∧
    ∀ other, switchAt (interp.setCursor spaceId i) other = if other = spaceId then
      (switchAt interp spaceId).map (fun entry => (entry.1, some i)) else switchAt interp other := by
  have hsame := @any_updateEntry interp.spaceCallbacks spaceId
    (fun entry => { entry with lastBytecodeThread := some i })
    (fun entry => entry.threadSwitchCallback.isSome) (fun _ => rfl)
  obtain ⟨htidy, hslot, hswitch⟩ := h.setSwitch spaceId
    (fun entry => { entry with lastBytecodeThread := some i }) (fun _ => rfl) (fun _ => rfl)
    (h.switchArmed.trans hsame.symm)
  refine ⟨htidy, hslot, ?_⟩
  intro other
  refine (hswitch other).trans ?_
  split
  · unfold switchAt
    cases findSpaceCallbackState interp spaceId with
    | none => rfl
    | some entry =>
      rw [Option.bind_some, Option.bind_some, Option.map_map]
      rfl
  · rfl

theorem Tidy.setThread (h : Tidy interp) (i : Nat) (m : Machine) : Tidy (interp.setThread i m) :=
  ⟨h.distinct, h.root, h.callAtArmed, h.switchArmed⟩

theorem Tidy.cursor_moves (h : Tidy interp) {spaceId callback : Nat} {cursor : Option Nat} (i : Nat)
    (hswitch : switchAt interp spaceId = some (callback, cursor)) :
    switchAt (interp.setCursor spaceId i) spaceId = some (callback, some i) := by
  rw [(h.setCursor spaceId i).2.2 spaceId, if_pos rfl, hswitch]
  rfl

theorem Tidy.cursor_other (h : Tidy interp) {spaceId other : Nat} (i : Nat)
    (hne : other ≠ spaceId) :
    switchAt (interp.setCursor other i) spaceId = switchAt interp spaceId := by
  rw [(h.setCursor other i).2.2 spaceId, if_neg (Ne.symm hne)]

theorem updateThreadSwitchArmed_prune (interp : Interp) (spaceId : Nat) :
    updateThreadSwitchArmed (pruneSpaceCallbackState interp spaceId) =
      pruneSpaceCallbackState (updateThreadSwitchArmed interp) spaceId := by
  have hsame : findSpaceCallbackState (updateThreadSwitchArmed interp) spaceId =
      findSpaceCallbackState interp spaceId := rfl
  unfold pruneSpaceCallbackState
  rw [hsame]
  cases hfind : findSpaceCallbackState interp spaceId with
  | none => rfl
  | some entry =>
    dsimp only
    cases hempty : spaceCallbackStateEmpty entry with
    | false => rfl
    | true =>
      have hcallback : entry.threadSwitchCallback.isSome = false := by
        unfold spaceCallbackStateEmpty at hempty
        rw [Bool.and_eq_true] at hempty
        simpa using hempty.1
      have hany : (eraseEntry spaceId interp.spaceCallbacks).any
          (fun entry => entry.threadSwitchCallback.isSome) =
          interp.spaceCallbacks.any (fun entry => entry.threadSwitchCallback.isSome) := by
        refine any_eraseEntry (fun found hfound => ?_)
        unfold findSpaceCallbackState at hfind
        rw [hfind] at hfound
        exact Option.some.inj hfound ▸ hcallback
      rw [if_pos rfl, if_pos rfl]
      unfold updateThreadSwitchArmed
      exact congrArg (fun armed => { interp with
        spaceCallbacks := eraseEntry spaceId interp.spaceCallbacks
        threadSwitchArmed := armed }) hany

def writeSwitch (interp : Interp) (spaceId : Nat) (callback cursor : Option Nat) : Interp :=
  updateThreadSwitchArmed { interp with
    spaceCallbacks := updateEntry spaceId (fun entry => { entry with
      threadSwitchCallback := callback, lastBytecodeThread := cursor }) interp.spaceCallbacks }

theorem writeSwitch_threads (interp : Interp) (spaceId : Nat) (callback cursor : Option Nat) :
    SameThreads interp (writeSwitch interp spaceId callback cursor) := ⟨rfl, rfl, rfl, rfl⟩

/-- Without room for an entry nothing changes, else the entry is there when it is written. -/
theorem Tidy.setThreadSwitchCallback_cases (h : Tidy interp) (i : Nat) (callback : Option Nat)
    (spaceId : Nat) (allocates : Bool) :
    ((callback = none ∨ allocates = false) ∧
      (Retrace.setThreadSwitchCallback interp i callback spaceId allocates).2 = interp) ∨
    ∃ mid, (Tidy mid ∧ SameThreads interp mid ∧ mid.armings = interp.armings ∧
      (findSpaceCallbackState mid spaceId).isSome = true ∧
      (∀ other, slotAt mid other = slotAt interp other) ∧
      ∀ other, switchAt mid other = switchAt interp other) ∧
      (Retrace.setThreadSwitchCallback interp i callback spaceId allocates).2 =
        pruneSpaceCallbackState (writeSwitch mid spaceId callback
          (if callback.isSome then visibleThreadForSpace interp i spaceId else none)) spaceId := by
  obtain ⟨result, hresult⟩ : ∃ result, result =
    Retrace.setThreadSwitchCallback interp i callback spaceId allocates := ⟨_, rfl⟩
  rw [← hresult]
  unfold Retrace.setThreadSwitchCallback at hresult
  cases callback with
  | none =>
    cases hfind : findSpaceCallbackState interp spaceId with
    | none =>
      rw [hfind] at hresult
      exact Or.inl ⟨Or.inl rfl, congrArg Prod.snd hresult⟩
    | some entry =>
      rw [hfind] at hresult
      refine Or.inr ⟨interp, ⟨h, SameThreads.refl _, rfl, by rw [hfind]; rfl, fun _ => rfl,
        fun _ => rfl⟩, ?_⟩
      exact (congrArg Prod.snd hresult).trans (updateThreadSwitchArmed_prune _ _)
  | some callback =>
    cases hensure : ensureSpaceCallbackState interp spaceId allocates with
    | none =>
      rw [hensure] at hresult
      exact Or.inl ⟨Or.inr (ensureSpaceCallbackState_none hensure), congrArg Prod.snd hresult⟩
    | some mid =>
      have hready := h.ensure hensure
      have hvisible : visibleThreadForSpace mid i spaceId =
          visibleThreadForSpace interp i spaceId := by
        unfold visibleThreadForSpace
        rw [hready.2.1.threads]
      rw [hensure] at hresult
      dsimp only at hresult
      rw [hvisible] at hresult
      exact Or.inr ⟨mid, hready,
        (congrArg Prod.snd hresult).trans (updateThreadSwitchArmed_prune _ _)⟩

theorem Tidy.setThreadSwitchCallback (h : Tidy interp) (i : Nat) (callback : Option Nat)
    (spaceId : Nat) (allocates : Bool) :
    let result := setThreadSwitchCallback interp i callback spaceId allocates
    Tidy result.2 ∧ SameThreads interp result.2 ∧ result.2.armings = interp.armings ∧
    (∀ other, slotAt result.2 other = slotAt interp other) ∧
    (((callback = none ∨ allocates = false) ∧
        ∀ other, switchAt result.2 other = switchAt interp other) ∨
      ∀ other, switchAt result.2 other = if other = spaceId then
        callback.map (fun callback => (callback, visibleThreadForSpace interp i spaceId))
        else switchAt interp other) := by
  intro result
  obtain ⟨hwhy, hsame⟩ |
      ⟨mid, ⟨htidy, hthreads, harmings, hentry, hslot, hswitch⟩, hresult⟩ :=
    h.setThreadSwitchCallback_cases i callback spaceId allocates
  · rw [show result.2 = interp from hsame]
    exact ⟨h, SameThreads.refl _, rfl, fun _ => rfl, Or.inl ⟨hwhy, fun _ => rfl⟩⟩
  · obtain ⟨htidy', hslot', hswitch'⟩ := htidy.setSwitch spaceId (fun entry => { entry with
      threadSwitchCallback := callback
      lastBytecodeThread :=
        if callback.isSome then visibleThreadForSpace interp i spaceId else none })
      (fun _ => rfl) (fun _ => rfl) rfl
    obtain ⟨hpruned, hslotPruned, hswitchPruned⟩ := htidy'.prune spaceId
    obtain ⟨entry, hentry⟩ := Option.isSome_iff_exists.mp hentry
    rw [show result.2 = _ from hresult]
    refine ⟨hpruned, ?_, ?_, ?_, Or.inr ?_⟩
    · exact (hthreads.trans (writeSwitch_threads mid spaceId callback _)).trans
        (pruneSpaceCallbackState_threads _ spaceId)
    · rw [pruneSpaceCallbackState_armings]
      exact harmings
    · intro other
      exact (hslotPruned other).trans ((hslot' other).trans (hslot other))
    · intro other
      refine (hswitchPruned other).trans ((hswitch' other).trans ?_)
      by_cases hother : other = spaceId
      · rw [if_pos hother, if_pos hother, hentry, Option.bind_some]
        cases callback <;> rfl
      · rw [if_neg hother, if_neg hother, hswitch]

theorem setThreadSwitchCallback_threads (htidy : Tidy interp) (i : Nat) (callback : Option Nat)
    (spaceId : Nat) (allocates : Bool) :
    SameThreads interp (setThreadSwitchCallback interp i callback spaceId allocates).2 := by
  obtain ⟨-, heq⟩ | ⟨mid, ⟨-, hsame, -⟩, heq⟩ :=
    htidy.setThreadSwitchCallback_cases i callback spaceId allocates
  · rw [heq]
    exact SameThreads.refl interp
  · rw [heq]
    exact (hsame.trans (writeSwitch_threads mid spaceId callback _)).trans
      (pruneSpaceCallbackState_threads _ _)

theorem callAt_threads (htidy : Tidy interp) (request : CallAtRequest) :
    SameThreads interp (callAt interp request).2 := by
  obtain ⟨error, heq⟩ | ⟨heq, -⟩ := callAt_cases interp request
  · rw [heq]
    exact SameThreads.refl interp
  · rw [heq]
    exact (htidy.armCallAt request).2.1

theorem Tidy.clearThread (h : Tidy interp) (clear : ThreadState → ThreadState) (i : Nat) :
    Tidy (clearThread clear interp i) ∧
    (∀ other, slotAt (clearThread clear interp i) other = slotAt interp other) ∧
    ∀ other, switchAt (clearThread clear interp i) other = (switchAt interp other).map
      (fun entry => (entry.1, if entry.2 = some i then none else entry.2)) := by
  have hfind : ∀ other, findSpaceCallbackState (Retrace.clearThread clear interp i) other =
      (findSpaceCallbackState interp other).map (fun entry => { entry with
        lastBytecodeThread :=
          if entry.lastBytecodeThread = some i then none else entry.lastBytecodeThread }) :=
    fun other => List.find?_map
  refine ⟨⟨?_, ?_, ?_, ?_⟩, ?_, ?_⟩
  · change ((interp.spaceCallbacks.map _).map _).Nodup
    rw [List.map_map]
    exact h.distinct
  · intro entry hmem hroot
    obtain ⟨old, hold, rfl⟩ := List.mem_map.mp hmem
    exact h.root old hold hroot
  · change interp.callAtExtraArmed = (interp.spaceCallbacks.map _).any _
    rw [List.any_map]
    exact h.callAtArmed
  · change interp.threadSwitchArmed = (interp.spaceCallbacks.map _).any _
    rw [List.any_map]
    exact h.switchArmed
  · intro other
    unfold slotAt
    rw [hfind]
    cases findSpaceCallbackState interp other <;> rfl
  · intro other
    unfold switchAt
    rw [hfind]
    cases findSpaceCallbackState interp other with
    | none => rfl
    | some entry =>
      rw [Option.map_some, Option.bind_some, Option.bind_some, Option.map_map]
      rfl

end slots

end Retrace
