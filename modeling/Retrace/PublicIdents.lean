import Mathlib.Algebra.Group.Nat.Defs
import Mathlib.Data.List.Induction
import Mathlib.Data.List.Nodup
import Mathlib.Tactic.Common

/-! Which thread a public id names: the native idents and the truncated Retrace ids. -/

set_option autoImplicit false

namespace Retrace

/-- The identities of a thread state, which is at `address`. -/
structure ThreadIdents where
  address : Nat
  threadId : Nat
  cpythonThreadIdent : Nat
  retraceThreadId : Nat
  deriving DecidableEq, Repr

def ThreadIdents.nativeId (t : ThreadIdents) : Nat :=
  if t.threadId ≠ 0 then t.threadId else t.cpythonThreadIdent

def ThreadIdents.claimsNatively (t : ThreadIdents) (id : Nat) : Bool :=
  t.nativeId ≠ 0 && t.nativeId == id

/-- `longBits` is the width of `unsigned long`. -/
def ThreadIdents.claimsByRetraceId (longBits : Nat) (t : ThreadIdents) (id : Nat) : Bool :=
  t.retraceThreadId ≠ 0 && t.retraceThreadId % 2 ^ longBits == id

structure IdentMatches where
  nativeMatch : Option Nat
  retraceMatch : Option Nat
  nativeCount : Nat
  retraceCount : Nat
  deriving DecidableEq, Repr

/-- One turn of the loop over the threads. -/
def IdentMatches.scan (longBits id : Nat) (found : IdentMatches) (t : ThreadIdents) :
    IdentMatches :=
  let found := if t.claimsNatively id then
    { found with nativeMatch := some t.address, nativeCount := found.nativeCount + 1 } else found
  if t.claimsByRetraceId longBits id then
    { found with retraceMatch := some t.address, retraceCount := found.retraceCount + 1 } else found

/-- `_PyRetrace_ThreadStateFromPublicIdent`; `none` is NULL. -/
def threadStateFromPublicIdent (longBits : Nat) (threads : List ThreadIdents) (id : Nat) :
    Option Nat :=
  let found := threads.foldl (IdentMatches.scan longBits id) ⟨none, none, 0, 0⟩
  if found.nativeCount = 1 ∧
      (found.retraceCount = 0 ∨ found.retraceMatch = found.nativeMatch) then found.nativeMatch
  else if found.nativeCount = 0 ∧ found.retraceCount = 1 then found.retraceMatch
  else none

def threadMatchesAsyncExcId (longBits : Nat) (threads : List ThreadIdents) (target : ThreadIdents)
    (id : Nat) : Bool :=
  some target.address == threadStateFromPublicIdent longBits threads id

section claims
variable (longBits : Nat) (threads : List ThreadIdents) (id : Nat)

def Claims (t : ThreadIdents) : Prop :=
  t ∈ threads ∧ (t.claimsNatively id = true ∨ t.claimsByRetraceId longBits id = true)

def SoleClaimant (t : ThreadIdents) : Prop :=
  Claims longBits threads id t ∧ ∀ other, Claims longBits threads id other → other = t

structure ResolvesSole : Prop where
  thread : ∀ t ∈ threads, threadStateFromPublicIdent longBits threads id = some t.address ↔
    SoleClaimant longBits threads id t
  null : threadStateFromPublicIdent longBits threads id = none ↔
    ∀ t ∈ threads, ¬ SoleClaimant longBits threads id t
  atMostOne : ∀ t ∈ threads, ∀ other ∈ threads, threadMatchesAsyncExcId longBits threads t id →
    threadMatchesAsyncExcId longBits threads other id → other = t
  several : ∀ t ∈ threads, threadMatchesAsyncExcId longBits threads t id →
    ∀ other, Claims longBits threads id other → other = t

/-- One thread claims the id natively, and it is the last of several that claim it by their
Retrace ids. -/
def NativeHidesOthers : Prop :=
  ∃ t, threads.filter (fun t => t.claimsNatively id) = [t] ∧
    (threads.filter (fun t => t.claimsByRetraceId longBits id)).getLast? = some t ∧
    2 ≤ (threads.filter (fun t => t.claimsByRetraceId longBits id)).length

inductive Resolved : Prop
  | sole {t : ThreadIdents} (found : threadStateFromPublicIdent longBits threads id = some t.address)
      (sole : SoleClaimant longBits threads id t)
  | missing (result : threadStateFromPublicIdent longBits threads id = none)
      (none : ∀ t, ¬SoleClaimant longBits threads id t)
  | hides (hidden : NativeHidesOthers longBits threads id)

end claims

section resolve
variable {longBits id : Nat} {threads : List ThreadIdents}

theorem foldl_scan (longBits id : Nat) (threads : List ThreadIdents) :
    threads.foldl (IdentMatches.scan longBits id) ⟨none, none, 0, 0⟩ =
      ⟨(threads.filter (fun t => t.claimsNatively id)).getLast?.map ThreadIdents.address,
        (threads.filter (fun t => t.claimsByRetraceId longBits id)).getLast?.map
          ThreadIdents.address,
        (threads.filter (fun t => t.claimsNatively id)).length,
        (threads.filter (fun t => t.claimsByRetraceId longBits id)).length⟩ := by
  induction threads using List.reverseRecOn with
  | nil => rfl
  | append_singleton threads t ih =>
    rw [List.foldl_append, ih, List.filter_append, List.filter_append]
    unfold IdentMatches.scan
    cases hnative : t.claimsNatively id <;> cases hretrace : t.claimsByRetraceId longBits id <;>
      simp [hnative, hretrace]

theorem not_sole_of_two {t t' : ThreadIdents} (h : Claims longBits threads id t)
    (h' : Claims longBits threads id t') (hne : t ≠ t') (sole : ThreadIdents) :
    ¬ SoleClaimant longBits threads id sole :=
  fun hsole => hne ((hsole.2 t h).trans (hsole.2 t' h').symm)

theorem two_of_length {list : List ThreadIdents} (hnodup : list.Nodup) (hlength : 2 ≤ list.length) :
    ∃ t ∈ list, ∃ t' ∈ list, t ≠ t' := by
  cases list with
  | nil => simp at hlength
  | cons t list =>
    cases list with
    | nil => simp at hlength
    | cons t' list =>
      refine ⟨t, List.mem_cons_self, t', List.mem_cons_of_mem _ List.mem_cons_self, ?_⟩
      rintro rfl
      exact (List.nodup_cons.mp hnodup).1 List.mem_cons_self

theorem claims_native {t : ThreadIdents}
    (h : t ∈ threads.filter (fun t => t.claimsNatively id)) : Claims longBits threads id t :=
  ⟨(List.mem_filter.mp h).1, Or.inl (List.mem_filter.mp h).2⟩

theorem claims_retrace {t : ThreadIdents}
    (h : t ∈ threads.filter (fun t => t.claimsByRetraceId longBits id)) :
    Claims longBits threads id t :=
  ⟨(List.mem_filter.mp h).1, Or.inr (List.mem_filter.mp h).2⟩

theorem claims_cases {t : ThreadIdents} (h : Claims longBits threads id t) :
    t ∈ threads.filter (fun t => t.claimsNatively id) ∨
      t ∈ threads.filter (fun t => t.claimsByRetraceId longBits id) :=
  h.2.imp (fun hnative => List.mem_filter.mpr ⟨h.1, hnative⟩)
    (fun hretrace => List.mem_filter.mpr ⟨h.1, hretrace⟩)

theorem threadStateFromPublicIdent_eq {natives retraces : List ThreadIdents}
    (hnatives : threads.filter (fun t => t.claimsNatively id) = natives)
    (hretraces : threads.filter (fun t => t.claimsByRetraceId longBits id) = retraces) :
    threadStateFromPublicIdent longBits threads id =
      if natives.length = 1 ∧ (retraces.length = 0 ∨
          retraces.getLast?.map ThreadIdents.address =
            natives.getLast?.map ThreadIdents.address) then
        natives.getLast?.map ThreadIdents.address
      else if natives.length = 0 ∧ retraces.length = 1 then
        retraces.getLast?.map ThreadIdents.address
      else none := by
  unfold threadStateFromPublicIdent
  rw [foldl_scan, hnatives, hretraces]

theorem resolved_byRetraceId (hnodup : threads.Nodup)
    (hN : threads.filter (fun t => t.claimsNatively id) = []) : Resolved longBits threads id := by
  have hretrace := @claims_retrace longBits id threads
  have hclaims := @claims_cases longBits id threads
  have hretraces := hnodup.filter (fun t => t.claimsByRetraceId longBits id)
  rw [hN] at hclaims
  cases hR : threads.filter (fun t => t.claimsByRetraceId longBits id) with
  | nil =>
    refine .missing (threadStateFromPublicIdent_eq hN hR) (fun t hsole => ?_)
    rw [hR] at hclaims
    obtain hmem | hmem := hclaims hsole.1 <;> cases hmem
  | cons r rest =>
    rw [hR] at hretrace hretraces hclaims
    cases rest with
    | nil =>
      refine .sole (threadStateFromPublicIdent_eq hN hR)
        ⟨hretrace List.mem_cons_self, fun other hother => ?_⟩
      obtain hmem | hmem := hclaims hother
      · cases hmem
      · exact List.mem_singleton.mp hmem
    | cons r' rest =>
      obtain ⟨t, ht, t', ht', hne⟩ := two_of_length hretraces (by simp)
      exact .missing (threadStateFromPublicIdent_eq hN hR)
        (not_sole_of_two (hretrace ht) (hretrace ht') hne)

/-- The last thread that claims the id by its Retrace id is the one that claims it natively. -/
theorem resolved_byBoth {r : ThreadIdents}
    (hN : threads.filter (fun t => t.claimsNatively id) = [r])
    (hlast : (threads.filter (fun t => t.claimsByRetraceId longBits id)).getLast? = some r) :
    Resolved longBits threads id := by
  have hr := List.mem_of_getLast? hlast
  have hclaims := @claims_cases longBits id threads
  rw [hN] at hclaims
  by_cases hone : (threads.filter (fun t => t.claimsByRetraceId longBits id)).length = 1
  · refine .sole (t := r) ?_ ⟨claims_retrace hr, fun other hother => ?_⟩
    · rw [threadStateFromPublicIdent_eq hN rfl, hlast]
      simp
    · obtain hmem | hmem := hclaims hother
      · exact List.mem_singleton.mp hmem
      · obtain ⟨r', hr'⟩ := List.length_eq_one_iff.mp hone
        rw [hr'] at hmem hr
        exact (List.mem_singleton.mp hmem).trans (List.mem_singleton.mp hr).symm
  · have hsome := List.length_pos_of_mem hr
    exact .hides ⟨r, hN, hlast, by omega⟩

theorem resolved_natively (hnodup : (threads.map ThreadIdents.address).Nodup) {n : ThreadIdents}
    (hN : threads.filter (fun t => t.claimsNatively id) = [n]) : Resolved longBits threads id := by
  have hn : Claims longBits threads id n := claims_native (hN ▸ List.mem_cons_self)
  have hresult := @threadStateFromPublicIdent_eq longBits id threads _ _ hN rfl
  cases hlast : (threads.filter (fun t => t.claimsByRetraceId longBits id)).getLast? with
  | none =>
    have hclaims := @claims_cases longBits id threads
    rw [List.getLast?_eq_none_iff] at hlast
    rw [hN, hlast] at hclaims
    rw [hlast] at hresult
    refine .sole hresult ⟨hn, fun other hother => ?_⟩
    obtain hmem | hmem := hclaims hother
    · exact List.mem_singleton.mp hmem
    · cases hmem
  | some r =>
    by_cases hsame : r = n
    · exact resolved_byBoth hN (hsame ▸ hlast)
    · have hr : Claims longBits threads id r := claims_retrace (List.mem_of_getLast? hlast)
      have hother : r.address ≠ n.address := fun heq =>
        hsame (List.inj_on_of_nodup_map hnodup hr.1 hn.1 heq)
      have hnonempty : (threads.filter (fun t => t.claimsByRetraceId longBits id)).length ≠ 0 := by
        rw [Ne, List.length_eq_zero_iff]
        exact List.ne_nil_of_mem (List.mem_of_getLast? hlast)
      refine .missing ?_ (not_sole_of_two hr hn hsame)
      rw [hresult, hlast]
      simp [hother, hnonempty]

theorem threadStateFromPublicIdent_cases (hnodup : (threads.map ThreadIdents.address).Nodup) :
    Resolved longBits threads id := by
  have hthreads := List.Nodup.of_map _ hnodup
  cases hN : threads.filter (fun t => t.claimsNatively id) with
  | nil => exact resolved_byRetraceId hthreads hN
  | cons n natives =>
    cases natives with
    | nil => exact resolved_natively hnodup hN
    | cons n' natives =>
      have hnative := @claims_native longBits id threads
      have hnatives := hthreads.filter (fun t => t.claimsNatively id)
      rw [hN] at hnative hnatives
      obtain ⟨t, ht, t', ht', hne⟩ := two_of_length hnatives (by simp)
      refine .missing ?_ (not_sole_of_two (hnative ht) (hnative ht') hne)
      rw [threadStateFromPublicIdent_eq hN rfl]
      simp

theorem threadMatchesAsyncExcId_iff {t : ThreadIdents} :
    threadMatchesAsyncExcId longBits threads t id = true ↔
      threadStateFromPublicIdent longBits threads id = some t.address := by
  unfold threadMatchesAsyncExcId
  rw [beq_iff_eq, eq_comm]

end resolve

/-- Public ids resolve to sole claimants, unless the only native claimant is the last of several
threads whose Retrace ids are truncated to the id. With all Retrace ids in range this cannot be. -/
theorem publicIdent_resolvesSole {threads : List ThreadIdents}
    (hnodup : (threads.map ThreadIdents.address).Nodup) (longBits id : Nat) :
    (ResolvesSole longBits threads id ↔ ¬ NativeHidesOthers longBits threads id) ∧
      ((threads.map ThreadIdents.retraceThreadId).Nodup →
        (∀ t ∈ threads, t.retraceThreadId < 2 ^ longBits) →
        ¬ NativeHidesOthers longBits threads id) := by
  have haddress : ∀ {t other : ThreadIdents}, t ∈ threads → other ∈ threads →
      other.address = t.address → other = t :=
    fun ht hother heq => List.inj_on_of_nodup_map hnodup hother ht heq
  have hfalse : NativeHidesOthers longBits threads id → ¬ ResolvesSole longBits threads id := by
    rintro ⟨n, hnative, hlast, htwo⟩ hresolves
    have hn : n ∈ threads.filter (fun t => t.claimsNatively id) := by
      rw [hnative]
      exact List.mem_cons_self
    have hmatches : threadStateFromPublicIdent longBits threads id = some n.address := by
      rw [threadStateFromPublicIdent_eq hnative rfl, hlast]
      simp
    obtain ⟨t, ht, t', ht', hne⟩ :=
      two_of_length ((List.Nodup.of_map _ hnodup).filter _) htwo
    have hsole := hresolves.several n (List.mem_filter.mp hn).1
      (threadMatchesAsyncExcId_iff.mpr hmatches)
    exact hne ((hsole t (claims_retrace ht)).trans (hsole t' (claims_retrace ht')).symm)
  constructor
  · refine ⟨fun hresolves hhides => hfalse hhides hresolves, fun hnot => ?_⟩
    cases @threadStateFromPublicIdent_cases longBits id threads hnodup with
    | sole hresult hsole =>
      rename_i t
      have hmem := hsole.1.1
      have honly : ∀ other ∈ threads, threadStateFromPublicIdent longBits threads id =
          some other.address → other = t := by
        intro other hother heq
        rw [hresult, Option.some.injEq] at heq
        exact haddress hmem hother heq.symm
      refine ⟨fun other hother => ⟨fun heq => ?_, fun hother' => ?_⟩, ?_, ?_, ?_⟩
      · rw [honly other hother heq]
        exact hsole
      · rw [hresult, hother'.2 t hsole.1]
      · rw [hresult]
        exact iff_of_false (Option.some_ne_none _) (fun hall => hall t hmem hsole)
      · intro other hother other' hother' hmatches hmatches'
        rw [honly other hother (threadMatchesAsyncExcId_iff.mp hmatches),
          honly other' hother' (threadMatchesAsyncExcId_iff.mp hmatches')]
      · intro other hother hmatches claimant hclaims
        rw [honly other hother (threadMatchesAsyncExcId_iff.mp hmatches)]
        exact hsole.2 claimant hclaims
    | missing hresult hnone =>
      have hno : ∀ other : ThreadIdents,
          threadStateFromPublicIdent longBits threads id ≠ some other.address := by
        intro other heq
        rw [hresult] at heq
        cases heq
      refine ⟨fun other _ => iff_of_false (hno other) (hnone other),
        iff_of_true hresult (fun other _ => hnone other), ?_, ?_⟩
      · intro other _ other' _ hmatches
        exact absurd (threadMatchesAsyncExcId_iff.mp hmatches) (hno other)
      · intro other _ hmatches
        exact absurd (threadMatchesAsyncExcId_iff.mp hmatches) (hno other)
    | hides hhides => exact absurd hhides hnot
  · rintro hdistinct hrange ⟨n, -, -, htwo⟩
    obtain ⟨t, ht, t', ht', hne⟩ :=
      two_of_length ((List.Nodup.of_map _ hnodup).filter _) htwo
    have hid : ∀ t ∈ threads.filter (fun t => t.claimsByRetraceId longBits id),
        t.retraceThreadId = id := by
      intro t ht
      obtain ⟨hmem, hclaims⟩ := List.mem_filter.mp ht
      unfold ThreadIdents.claimsByRetraceId at hclaims
      rw [Bool.and_eq_true, beq_iff_eq, Nat.mod_eq_of_lt (hrange t hmem)] at hclaims
      exact hclaims.2
    exact hne (List.inj_on_of_nodup_map hdistinct (List.mem_filter.mp ht).1
      (List.mem_filter.mp ht').1 ((hid t ht).trans (hid t' ht').symm))

/-- A native ident, a Retrace id, and a Retrace id that is the native ident of another thread. -/
theorem publicIdent_resolvesSole_overlap :
    ResolvesSole 64 [⟨16, 7, 0, 2 ^ 50 + 1⟩, ⟨32, 0, 9, 7⟩, ⟨48, 0, 0, 2 ^ 50 + 3⟩] 7 ∧
      ResolvesSole 64 [⟨16, 7, 0, 2 ^ 50 + 1⟩, ⟨32, 0, 9, 7⟩, ⟨48, 0, 0, 2 ^ 50 + 3⟩] 9 ∧
      threadStateFromPublicIdent 64
        [⟨16, 7, 0, 2 ^ 50 + 1⟩, ⟨32, 0, 9, 7⟩, ⟨48, 0, 0, 2 ^ 50 + 3⟩] 7 = none ∧
      threadStateFromPublicIdent 64
        [⟨16, 7, 0, 2 ^ 50 + 1⟩, ⟨32, 0, 9, 7⟩, ⟨48, 0, 0, 2 ^ 50 + 3⟩] 9 = some 32 := by
  have hresolves : ∀ id, ResolvesSole 64
      [⟨16, 7, 0, 2 ^ 50 + 1⟩, ⟨32, 0, 9, 7⟩, ⟨48, 0, 0, 2 ^ 50 + 3⟩] id := by
    intro id
    have hboth := @publicIdent_resolvesSole
      [⟨16, 7, 0, 2 ^ 50 + 1⟩, ⟨32, 0, 9, 7⟩, ⟨48, 0, 0, 2 ^ 50 + 3⟩] (by decide) 64 id
    exact hboth.1.mpr (hboth.2 (by decide) (by decide))
  exact ⟨hresolves 7, hresolves 9, by decide, by decide⟩

/-- With a 32-bit `unsigned long`, two Retrace ids are truncated to 5; the second is of the thread
whose native ident is 5. -/
theorem publicIdent_hidesOther :
    ¬ ∀ threads id, (threads.map ThreadIdents.address).Nodup →
      (threads.map ThreadIdents.retraceThreadId).Nodup →
      (∀ t ∈ threads, t.retraceThreadId < 2 ^ 64) → ResolvesSole 32 threads id := by
  intro hclaim
  have hresolves := hclaim [⟨16, 9, 0, 2 ^ 32 + 5⟩, ⟨32, 5, 0, 2 ^ 33 + 5⟩] 5 (by decide)
    (by decide) (by decide)
  have hother := hresolves.several ⟨32, 5, 0, 2 ^ 33 + 5⟩ (by decide) (by decide)
    ⟨16, 9, 0, 2 ^ 32 + 5⟩ ⟨by decide, Or.inr (by decide)⟩
  exact absurd hother (by decide)

end Retrace
