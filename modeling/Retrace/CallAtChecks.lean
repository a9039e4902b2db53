import Retrace.SpaceSlots
import Mathlib.Data.List.Lex

/-! One pass over the targets that are armed: what it does to the slot of each space. -/

set_option autoImplicit false

namespace Retrace

def slotCheck (interp : Interp) (i : Nat) (allocates : Nat → Bool) (spaceId : Nat) : SlotCheck :=
  checkCallAtSlot (interp.threads i) spaceId (slotAt interp spaceId) (allocates spaceId)

def SlotCheck.delivers : SlotCheck → Bool
  | .deliver _ => true
  | _ => false

def deliversBefore (m : Machine) (allocates : Nat → Bool) (spaceId : Nat)
    (entries : List SpaceCallbackState) : Bool :=
  (entries.takeWhile (fun entry => entry.spaceId ≠ spaceId)).any (fun entry =>
    (checkCallAtSlot m entry.spaceId entry.callAt (allocates entry.spaceId)).delivers)

/-- The pass comes to the slot of the space: no slot before it delivers. -/
def reaches (interp : Interp) (i : Nat) (allocates : Nat → Bool) (spaceId : Nat) : Bool :=
  spaceId == spaceIdRoot || (!(slotCheck interp i allocates spaceIdRoot).delivers &&
    !deliversBefore (interp.threads i) allocates spaceId interp.spaceCallbacks)

/-- What a pass that ends with this delivery, if any, has done to the slot of one space. A slot
that is kept passed its check, or the pass did not come to it. -/
inductive SlotChecked (interp interp' : Interp) (i : Nat) (allocates : Nat → Bool)
    (delivery : Option Delivery) (reached : Bool) (spaceId : Nat) : Prop
  | kept (slot : slotAt interp' spaceId = slotAt interp spaceId)
      (other : ∀ d, delivery = some d → d.spaceId ≠ spaceId)
      (passes : reached = true → slotCheck interp i allocates spaceId = .pass)
  | cleared (slot : slotAt interp' spaceId = none)
      (other : ∀ d, delivery = some d → d.spaceId ≠ spaceId) (comes : reached = true)
      (check : slotCheck interp i allocates spaceId = .clear)
  | delivered {d : Delivery} (slot : slotAt interp' spaceId = none) (comes : reached = true)
      (check : slotCheck interp i allocates spaceId = .deliver d) (result : delivery = some d)

/-- A pass over the targets changes nothing but the targets. -/
structure Passed (interp interp' : Interp) : Prop where
  tidy : Tidy interp'
  threads : SameThreads interp interp'
  switches : ∀ spaceId, switchAt interp' spaceId = switchAt interp spaceId

section check
variable {interp interp' : Interp} {i spaceId : Nat} {allocates : Nat → Bool}
  {delivery : Option Delivery}

theorem compareWords_spec (target words : List Nat) :
    (compareWords target words < 0 ↔ target < words) ∧
    (compareWords target words = 0 ↔ target = words) ∧
    (compareWords target words > 0 ↔ words < target) := by
  induction target generalizing words with
  | nil =>
    cases words with
    | nil => simp [compareWords]
    | cons word words => simp [compareWords]
  | cons first targets ih =>
    cases words with
    | nil => simp [compareWords]
    | cons word words =>
      unfold compareWords
      rw [List.cons_lt_cons_iff, List.cons_lt_cons_iff, List.cons.injEq]
      obtain ⟨hlt, heq, hgt⟩ := ih words
      split_ifs with hless hmore
      · refine ⟨?_, ?_, ?_⟩ <;> simp <;> omega
      · refine ⟨?_, ?_, ?_⟩ <;> simp <;> omega
      · have hsame : first = word := by omega
        simp [hsame, hlt, heq, hgt]

theorem compareTargetToFrame_eq {m : Machine} {node : Nat} {words : List Nat}
    (hidle : m.tstate.threadCallbackActive = false)
    (hfind : findThreadSpace m.tstate spaceId = some node)
    (hwords : coordinates m spaceId 0 = some words) (target : List Nat) (room : Bool) :
    compareTargetToFrame target m (m.spacePtr node) m.chain room =
      if words ≠ [] ∧ room = false then none else some (compareWords target words) := by
  have hchain : threadStateFrame m node = m.chain := by
    unfold threadStateFrame
    rw [if_neg (by simp [hidle])]
  unfold coordinates at hwords
  rw [hfind] at hwords
  dsimp only at hwords
  split at hwords
  · rw [hchain, List.drop_zero, Option.some.injEq] at hwords
    have hcount : coordinateCount m (m.spacePtr node) m.chain ≠ 0 ↔ words ≠ [] := by
      rw [coordinateCount_eq, ← coordinatesOf_eq, hwords, ne_eq, List.length_eq_zero_iff]
    unfold compareTargetToFrame
    rw [hwords]
    simp only [hcount]
  · cases hwords

theorem checkCallAtSlot_deliver {m : Machine} {slot : Option CallAt} {room : Bool} {d : Delivery}
    (h : checkCallAtSlot m spaceId slot room = .deliver d) :
    d.spaceId = spaceId ∧ slot = some d.target ∧ d.target.threadId = m.tstate.threadId ∧
    (if d.hit then some d.target.callback else d.target.overshootCallback) = some d.callback ∧
    ∃ node comparison, findThreadSpace m.tstate spaceId = some node ∧
      (m.tstate.space node).seen = true ∧
      compareTargetToFrame d.target.coordinates m (m.spacePtr node) m.chain room =
        some comparison ∧ comparison ≤ 0 ∧ (d.hit = true ↔ comparison = 0) := by
  unfold checkCallAtSlot at h
  cases hslot : slot with
  | none =>
    rw [hslot] at h
    cases h
  | some target =>
    rw [hslot] at h
    dsimp only at h
    by_cases hid : target.threadId ≠ m.tstate.threadId
    · rw [if_pos hid] at h
      cases h
    · rw [if_neg hid] at h
      rw [not_not] at hid
      cases hfind : findThreadSpace m.tstate spaceId with
      | none =>
        rw [hfind] at h
        cases h
      | some node =>
        rw [hfind] at h
        dsimp only at h
        by_cases hseen : (m.tstate.space node).seen = false
        · rw [if_pos hseen] at h
          cases h
        · rw [if_neg hseen] at h
          cases hcompare : compareTargetToFrame target.coordinates m (m.spacePtr node) m.chain
              room with
          | none =>
            rw [hcompare] at h
            cases h
          | some comparison =>
            rw [hcompare] at h
            dsimp only at h
            by_cases hpast : comparison > 0
            · rw [if_pos hpast] at h
              cases h
            · rw [if_neg hpast] at h
              by_cases hhit : comparison = 0
              · rw [if_pos hhit] at h
                cases h
                exact ⟨rfl, rfl, hid, by simp [hhit], node, comparison, rfl, by simpa using hseen,
                  hcompare, Int.not_lt.mp hpast, by simp [hhit]⟩
              · rw [if_neg hhit] at h
                cases hover : target.overshootCallback with
                | none =>
                  rw [hover] at h
                  cases h
                | some callback =>
                  rw [hover] at h
                  cases h
                  exact ⟨rfl, rfl, hid, by simp [hhit, hover], node, comparison, rfl,
                    by simpa using hseen, hcompare, Int.not_lt.mp hpast, by simp [hhit]⟩

theorem checkCallAtEntries_keeps {Kept : Interp → Prop} (rest : List SpaceCallbackState)
    (hclear : ∀ mid cleared, Kept mid → Kept (clearCallAt mid cleared)) (h : Kept interp) :
    Kept (checkCallAtEntries i allocates rest interp).1 := by
  induction rest generalizing interp with
  | nil => exact h
  | cons entry rest ih =>
    unfold checkCallAtEntries
    split
    · exact ih h
    · exact ih (hclear interp entry.spaceId h)
    · exact hclear interp entry.spaceId h

theorem checkCallAt_keeps {Kept : Interp → Prop}
    (hclear : ∀ mid cleared, Kept mid → Kept (clearCallAt mid cleared)) (h : Kept interp) :
    Kept (checkCallAt interp i allocates).1 := by
  have heq : clearCallAt interp spaceIdRoot = clearRootCallAt interp := if_pos rfl
  have hroot : Kept (clearRootCallAt interp) := heq ▸ hclear interp spaceIdRoot h
  have hwalk : ∀ mid, Kept mid → Kept (if mid.callAtExtraArmed then
      checkCallAtEntries i allocates mid.spaceCallbacks mid else (mid, none)).1 := by
    intro mid hmid
    split
    · exact checkCallAtEntries_keeps mid.spaceCallbacks hclear hmid
    · exact hmid
  unfold checkCallAt
  split
  · exact h
  · cases checkCallAtSlot (interp.threads i) spaceIdRoot interp.callAt (allocates spaceIdRoot) with
    | pass => exact hwalk interp h
    | clear => exact hwalk _ hroot
    | deliver d => exact hroot

theorem checkCallAt_threads (hrun : checkCallAt interp i allocates = (interp', delivery)) :
    SameThreads interp interp' := by
  have hkept : SameThreads interp (checkCallAt interp i allocates).1 :=
    checkCallAt_keeps (fun mid cleared h => h.trans (clearCallAt_threads mid cleared))
      (SameThreads.refl interp)
  rw [hrun] at hkept
  exact hkept

theorem checkCallAtSlot_none (m : Machine) (spaceId : Nat) (room : Bool) :
    checkCallAtSlot m spaceId none room = .pass := rfl

theorem Tidy.clearPassed (h : Tidy interp) (spaceId : Nat) :
    Passed interp (Retrace.clearCallAt interp spaceId) :=
  ⟨(h.clearCallAt spaceId).1, clearCallAt_threads interp spaceId, (h.clearCallAt spaceId).2.2⟩

theorem Passed.trans {mid : Interp} (h : Passed interp mid) (h' : Passed mid interp') :
    Passed interp interp' :=
  ⟨h'.tidy, h.threads.trans h'.threads, fun other => (h'.switches other).trans (h.switches other)⟩

theorem slotCheck_congr (hthreads : SameThreads interp interp')
    (hslot : slotAt interp' spaceId = slotAt interp spaceId) :
    slotCheck interp' i allocates spaceId = slotCheck interp i allocates spaceId := by
  unfold slotCheck
  rw [hthreads.threads, hslot]

theorem SlotChecked.afterClear {cleared : Nat} {reached : Bool} (h : Tidy interp)
    (hne : spaceId ≠ cleared) (hchecked : SlotChecked (clearCallAt interp cleared) interp' i
      allocates delivery reached spaceId) :
    SlotChecked interp interp' i allocates delivery reached spaceId := by
  have hslot : slotAt (clearCallAt interp cleared) spaceId = slotAt interp spaceId := by
    rw [(h.clearCallAt cleared).2.1, if_neg hne]
  have hcheck : slotCheck (clearCallAt interp cleared) i allocates spaceId =
      slotCheck interp i allocates spaceId :=
    slotCheck_congr (clearCallAt_threads interp cleared) hslot
  cases hchecked with
  | kept slot other passes => exact .kept (slot.trans hslot) other (hcheck ▸ passes)
  | cleared slot other comes check => exact .cleared slot other comes (hcheck ▸ check)
  | delivered slot comes check result => exact .delivered slot comes (hcheck ▸ check) result

theorem deliversBefore_cons {m : Machine} (entry : SpaceCallbackState)
    (rest : List SpaceCallbackState) : deliversBefore m allocates spaceId (entry :: rest) =
      if entry.spaceId = spaceId then false else
        (checkCallAtSlot m entry.spaceId entry.callAt (allocates entry.spaceId)).delivers ||
          deliversBefore m allocates spaceId rest := by
  unfold deliversBefore
  by_cases h : entry.spaceId = spaceId
  · simp [h]
  · simp [h]

/-- What the walk over these entries has done to every slot. -/
def EntriesChecked (interp interp' : Interp) (i : Nat) (allocates : Nat → Bool)
    (delivery : Option Delivery) (rest : List SpaceCallbackState) : Prop :=
  Passed interp interp' ∧ ∀ other,
    if other ≠ spaceIdRoot ∧ other ∈ rest.map (fun entry => entry.spaceId) then
      SlotChecked interp interp' i allocates delivery
        (!deliversBefore (interp.threads i) allocates other rest) other
    else slotAt interp' other = slotAt interp other ∧ ∀ d, delivery = some d → d.spaceId ≠ other

section entries
variable {entry : SpaceCallbackState} {rest : List SpaceCallbackState}

/-- The entry's own check is the check of its slot, or passes. -/
theorem checkCallAtSlot_entry (hentry : if entry.spaceId = spaceIdRoot then entry.callAt = none
    else slotAt interp entry.spaceId = entry.callAt) :
    checkCallAtSlot (interp.threads i) entry.spaceId entry.callAt (allocates entry.spaceId) =
      if entry.spaceId = spaceIdRoot then .pass else slotCheck interp i allocates entry.spaceId := by
  split at hentry
  · rename_i hroot
    rw [if_pos hroot, hentry]
    exact checkCallAtSlot_none _ _ _
  · rename_i hroot
    rw [if_neg hroot, slotCheck, hentry]

theorem EntriesChecked.pass (h : EntriesChecked interp interp' i allocates delivery rest)
    (hnew : entry.spaceId ∉ rest.map (fun entry => entry.spaceId))
    (hresult : checkCallAtSlot (interp.threads i) entry.spaceId entry.callAt
      (allocates entry.spaceId) = .pass)
    (hcheck : entry.spaceId ≠ spaceIdRoot → slotCheck interp i allocates entry.spaceId = .pass) :
    EntriesChecked interp interp' i allocates delivery (entry :: rest) := by
  obtain ⟨hpassed, hall⟩ := h
  refine ⟨hpassed, ?_⟩
  intro other
  have hother := hall other
  by_cases hsame : other = entry.spaceId
  · subst hsame
    rw [if_neg (fun hand => hnew hand.2)] at hother
    by_cases hroot : entry.spaceId = spaceIdRoot
    · rw [if_neg (fun hand => hand.1 hroot)]
      exact hother
    · rw [if_pos ⟨hroot, by simp⟩]
      exact .kept hother.1 hother.2 (fun _ => hcheck hroot)
  · rw [deliversBefore_cons, if_neg (Ne.symm hsame), hresult]
    simp only [List.map_cons, List.mem_cons, hsame, false_or, SlotCheck.delivers, Bool.false_or]
    exact hother

theorem EntriesChecked.clear (htidy : Tidy interp)
    (h : EntriesChecked (clearCallAt interp entry.spaceId) interp' i allocates delivery rest)
    (hnew : entry.spaceId ∉ rest.map (fun entry => entry.spaceId))
    (hroot : entry.spaceId ≠ spaceIdRoot)
    (hresult : checkCallAtSlot (interp.threads i) entry.spaceId entry.callAt
      (allocates entry.spaceId) = .clear)
    (hcheck : slotCheck interp i allocates entry.spaceId = .clear) :
    EntriesChecked interp interp' i allocates delivery (entry :: rest) := by
  obtain ⟨hpassed, hall⟩ := h
  have hslot := (htidy.clearCallAt entry.spaceId).2.1
  refine ⟨(htidy.clearPassed entry.spaceId).trans hpassed, ?_⟩
  intro other
  have hother := hall other
  by_cases hsame : other = entry.spaceId
  · subst hsame
    rw [if_neg (fun hand => hnew hand.2), hslot, if_pos rfl] at hother
    rw [if_pos ⟨hroot, by simp⟩]
    exact .cleared hother.1 hother.2 (by rw [deliversBefore_cons, if_pos rfl]; rfl) hcheck
  · rw [(clearCallAt_threads interp entry.spaceId).threads] at hother
    rw [deliversBefore_cons, if_neg (Ne.symm hsame), hresult]
    simp only [List.map_cons, List.mem_cons, hsame, false_or, SlotCheck.delivers, Bool.false_or]
    split
    · rename_i hand
      rw [if_pos hand] at hother
      exact hother.afterClear htidy hsame
    · rename_i hand
      rw [if_neg hand, hslot, if_neg hsame] at hother
      exact hother

/-- The walk ends at the entry that delivers, and the entries behind it are not looked at. -/
theorem EntriesChecked.deliver (htidy : Tidy interp) {d : Delivery}
    (hroot : entry.spaceId ≠ spaceIdRoot)
    (hresult : checkCallAtSlot (interp.threads i) entry.spaceId entry.callAt
      (allocates entry.spaceId) = .deliver d)
    (hcheck : slotCheck interp i allocates entry.spaceId = .deliver d) :
    EntriesChecked interp (clearCallAt interp entry.spaceId) i allocates (some d)
      (entry :: rest) := by
  have hslot := (htidy.clearCallAt entry.spaceId).2.1
  refine ⟨htidy.clearPassed entry.spaceId, ?_⟩
  intro other
  by_cases hsame : other = entry.spaceId
  · subst hsame
    rw [if_pos ⟨hroot, by simp⟩]
    exact .delivered (by rw [hslot, if_pos rfl]) (by rw [deliversBefore_cons, if_pos rfl]; rfl)
      hcheck rfl
  · have hkept : slotAt (clearCallAt interp entry.spaceId) other = slotAt interp other := by
      rw [hslot, if_neg hsame]
    have hfor : ∀ d', some d = some d' → d'.spaceId ≠ other := by
      intro d' hd'
      cases hd'
      rw [(checkCallAtSlot_deliver hresult).1]
      exact Ne.symm hsame
    split
    · refine .kept hkept hfor ?_
      rw [deliversBefore_cons, if_neg (Ne.symm hsame), hresult]
      exact fun hreached => absurd hreached (by simp [SlotCheck.delivers])
    · exact ⟨hkept, hfor⟩

theorem checkCallAtEntries_checked (h : Tidy interp)
    (hdistinct : (rest.map (fun entry => entry.spaceId)).Nodup)
    (hslots : ∀ entry ∈ rest, if entry.spaceId = spaceIdRoot then entry.callAt = none
      else slotAt interp entry.spaceId = entry.callAt)
    (hrun : checkCallAtEntries i allocates rest interp = (interp', delivery)) :
    EntriesChecked interp interp' i allocates delivery rest := by
  induction rest generalizing interp with
  | nil =>
    cases hrun
    refine ⟨⟨h, SameThreads.refl _, fun _ => rfl⟩, ?_⟩
    intro other
    rw [if_neg (by simp)]
    exact ⟨rfl, fun d hd => by cases hd⟩
  | cons entry rest ih =>
    rw [List.map_cons, List.nodup_cons] at hdistinct
    have hafter := fun e he => hslots e (List.mem_cons_of_mem _ he)
    rw [checkCallAtEntries] at hrun
    have hcheck := @checkCallAtSlot_entry interp i allocates entry (hslots entry List.mem_cons_self)
    cases hresult : checkCallAtSlot (interp.threads i) entry.spaceId entry.callAt
        (allocates entry.spaceId) with
    | pass =>
      rw [hresult] at hrun hcheck
      refine (ih h hdistinct.2 hafter hrun).pass hdistinct.1 hresult (fun hroot => ?_)
      rw [if_neg hroot] at hcheck
      exact hcheck.symm
    | clear =>
      rw [hresult] at hrun hcheck
      have hroot : entry.spaceId ≠ spaceIdRoot := by
        intro hroot
        rw [if_pos hroot] at hcheck
        cases hcheck
      rw [if_neg hroot] at hcheck
      have hkeeps : ∀ e ∈ rest, if e.spaceId = spaceIdRoot then e.callAt = none
          else slotAt (clearCallAt interp entry.spaceId) e.spaceId = e.callAt := by
        intro e he
        have hne : e.spaceId ≠ entry.spaceId :=
          fun heq => hdistinct.1 (heq ▸ List.mem_map_of_mem (f := fun e => e.spaceId) he)
        rw [(h.clearCallAt entry.spaceId).2.1, if_neg hne]
        exact hafter e he
      exact .clear h (ih (h.clearPassed entry.spaceId).tidy hdistinct.2 hkeeps hrun) hdistinct.1
        hroot hresult hcheck.symm
    | deliver d =>
      rw [hresult] at hrun hcheck
      cases hrun
      have hroot : entry.spaceId ≠ spaceIdRoot := by
        intro hroot
        rw [if_pos hroot] at hcheck
        cases hcheck
      rw [if_neg hroot] at hcheck
      exact .deliver h hroot hresult hcheck.symm

end entries

theorem Tidy.slotAt_entry (h : Tidy interp) {entry : SpaceCallbackState}
    (hmem : entry ∈ interp.spaceCallbacks) : if entry.spaceId = spaceIdRoot then
      entry.callAt = none else slotAt interp entry.spaceId = entry.callAt := by
  split
  · rename_i hroot
    exact h.root entry hmem hroot
  · rename_i hroot
    unfold slotAt findSpaceCallbackState
    rw [if_neg hroot, findEntry_mem h.distinct hmem, Option.bind_some]

theorem slotAt_none (hroot : spaceId ≠ spaceIdRoot)
    (h : ∀ entry ∈ interp.spaceCallbacks, entry.spaceId = spaceId → entry.callAt = none) :
    slotAt interp spaceId = none := by
  unfold slotAt
  rw [if_neg hroot]
  cases hfind : findSpaceCallbackState interp spaceId with
  | none => rfl
  | some entry =>
    obtain ⟨hmem, hid⟩ := findEntry_some hfind
    exact h entry hmem hid

theorem Tidy.callAt_none (h : Tidy interp) (harmed : interp.callAtExtraArmed = false)
    (hroot : spaceId ≠ spaceIdRoot) : slotAt interp spaceId = none := by
  have hnone := h.callAtArmed
  rw [harmed, eq_comm, List.any_eq_false] at hnone
  exact slotAt_none hroot (fun entry hmem _ => by simpa using hnone entry hmem)

theorem checkCallAtExtra_checked (h : Tidy interp) (hrun : (if interp.callAtExtraArmed then
      checkCallAtEntries i allocates interp.spaceCallbacks interp else (interp, none)) =
        (interp', delivery)) :
    Passed interp interp' ∧ (slotAt interp' spaceIdRoot = slotAt interp spaceIdRoot ∧
      ∀ d, delivery = some d → d.spaceId ≠ spaceIdRoot) ∧
    ∀ other, other ≠ spaceIdRoot → SlotChecked interp interp' i allocates delivery
      (!deliversBefore (interp.threads i) allocates other interp.spaceCallbacks) other := by
  have hpass : ∀ other, slotAt interp other = none →
      slotCheck interp i allocates other = .pass := by
    intro other hnone
    unfold slotCheck
    rw [hnone]
    rfl
  cases harmed : interp.callAtExtraArmed with
  | false =>
    rw [harmed] at hrun
    cases hrun
    refine ⟨⟨h, SameThreads.refl _, fun _ => rfl⟩, ⟨rfl, fun d hd => by cases hd⟩, ?_⟩
    intro other hother
    exact .kept rfl (fun d hd => by cases hd)
      (fun _ => hpass other (h.callAt_none harmed hother))
  | true =>
    rw [harmed] at hrun
    obtain ⟨hpassed, hall⟩ :=
      checkCallAtEntries_checked h h.distinct (fun entry hmem => h.slotAt_entry hmem) hrun
    refine ⟨hpassed, ?_, ?_⟩
    · have hroot := hall spaceIdRoot
      rw [if_neg (by simp)] at hroot
      exact hroot
    · intro other hother
      have hchecked := hall other
      by_cases hin : other ∈ interp.spaceCallbacks.map (fun entry => entry.spaceId)
      · rw [if_pos ⟨hother, hin⟩] at hchecked
        exact hchecked
      · rw [if_neg (fun hand => hin hand.2)] at hchecked
        refine .kept hchecked.1 hchecked.2 (fun _ => hpass other (slotAt_none hother ?_))
        intro entry hmem hid
        exact absurd (hid ▸ List.mem_map_of_mem (f := fun entry => entry.spaceId) hmem) hin

theorem checkCallAt_checked (h : Tidy interp) (hnamed : (interp.threads i).tstate.threadId ≠ 0)
    (hrun : checkCallAt interp i allocates = (interp', delivery)) :
    Passed interp interp' ∧ ∀ other, SlotChecked interp interp' i allocates delivery
      (reaches interp i allocates other) other := by
  have hrootSlot : ∀ interp : Interp, slotAt interp spaceIdRoot = interp.callAt :=
    fun _ => if_pos rfl
  have hrootCheck : slotCheck interp i allocates spaceIdRoot = checkCallAtSlot
      (interp.threads i) spaceIdRoot interp.callAt (allocates spaceIdRoot) := by
    unfold slotCheck
    rw [hrootSlot]
  have hreachRoot : reaches interp i allocates spaceIdRoot = true := by simp [reaches]
  have hreach : ∀ other, other ≠ spaceIdRoot → reaches interp i allocates other =
      (!(slotCheck interp i allocates spaceIdRoot).delivers &&
        !deliversBefore (interp.threads i) allocates other interp.spaceCallbacks) := by
    intro other hother
    simp [reaches, hother]
  have hclear : clearRootCallAt interp = clearCallAt interp spaceIdRoot := (if_pos rfl).symm
  have hcleared := h.clearPassed spaceIdRoot
  have hempty : slotAt (clearCallAt interp spaceIdRoot) spaceIdRoot = none := by
    rw [(h.clearCallAt spaceIdRoot).2.1, if_pos rfl]
  unfold checkCallAt at hrun
  rw [if_neg hnamed] at hrun
  cases hresult : checkCallAtSlot (interp.threads i) spaceIdRoot interp.callAt
      (allocates spaceIdRoot) with
  | pass =>
    rw [hresult] at hrun hrootCheck
    obtain ⟨hpassed, ⟨hroot, hother⟩, hall⟩ := checkCallAtExtra_checked h hrun
    refine ⟨hpassed, fun other => ?_⟩
    by_cases hsame : other = spaceIdRoot
    · rw [hsame]
      exact .kept hroot hother (fun _ => hrootCheck)
    · rw [hreach other hsame, hrootCheck]
      exact hall other hsame
  | clear =>
    rw [hresult, hclear] at hrun
    rw [hresult] at hrootCheck
    obtain ⟨hpassed, ⟨hroot, hother⟩, hall⟩ := checkCallAtExtra_checked hcleared.tidy hrun
    refine ⟨hcleared.trans hpassed, fun other => ?_⟩
    by_cases hsame : other = spaceIdRoot
    · rw [hsame]
      exact .cleared (hroot.trans hempty) hother hreachRoot hrootCheck
    · rw [hreach other hsame, hrootCheck]
      exact (hall other hsame).afterClear h hsame
  | deliver d =>
    rw [hresult, hclear] at hrun
    rw [hresult] at hrootCheck
    cases hrun
    refine ⟨hcleared, fun other => ?_⟩
    by_cases hsame : other = spaceIdRoot
    · rw [hsame]
      exact .delivered hempty hreachRoot hrootCheck rfl
    · refine .kept (by rw [(h.clearCallAt spaceIdRoot).2.1, if_neg hsame]) ?_ ?_
      · intro d' hd'
        cases hd'
        rw [(checkCallAtSlot_deliver hresult).1]
        exact Ne.symm hsame
      · rw [hreach other hsame, hrootCheck]
        exact fun hreached => absurd hreached (by simp [SlotCheck.delivers])

end check

end Retrace
