import Mathlib.Data.List.Basic

/-!
A shared counter of which nested scopes take private copies. Counts go to the innermost copy, and
a scope that ends writes its copy back over the shared counter.
-/

set_option autoImplicit false

namespace PrivateCopies

/-- The open copies are innermost first, each with where it started and where it stands. -/
structure Book where
  shared : Nat
  copies : List (Nat × Nat)
  deriving DecidableEq, Repr

inductive Act where
  | idle
  | opens
  | counts
  | closes
  deriving DecidableEq, Repr

/-- A copy is written back where it stands, but as moved if it has not moved. -/
def writtenBack (copy : Nat × Nat) : Nat :=
  if copy.2 = copy.1 then copy.2 + 1 else copy.2

namespace Book

def after (b : Book) : Act → Book
  | .idle => b
  | .opens => ⟨b.shared, (b.shared, b.shared) :: b.copies⟩
  | .counts =>
    match b.copies with
    | [] => ⟨b.shared + 1, []⟩
    | (start, value) :: rest => ⟨b.shared, (start, value + 1) :: rest⟩
  | .closes =>
    match b.copies with
    | [] => b
    | copy :: rest => ⟨writtenBack copy, rest⟩

/-- No copy stands below where it started. -/
def Sound (b : Book) : Prop := ∀ copy ∈ b.copies, copy.1 ≤ copy.2

/-- A copy that is written back is not behind the shared counter, a copy that has not moved
counting as moved by one. -/
def Safe (b : Book) : Act → Prop
  | .closes => ∀ copy ∈ b.copies.head?, b.shared ≤ max (copy.1 + 1) copy.2
  | _ => True

/-- The highest number that the counter or an open copy stands at. -/
def high (b : Book) : Nat := b.copies.foldr (fun copy most => max copy.2 most) b.shared

end Book

section book
variable {b : Book} {act : Act}

theorem writtenBack_eq {copy : Nat × Nat} (h : copy.1 ≤ copy.2) :
    writtenBack copy = max (copy.1 + 1) copy.2 := by
  unfold writtenBack
  split <;> omega

theorem Book.Sound.after (h : b.Sound) (act : Act) : (b.after act).Sound := by
  obtain ⟨shared, copies⟩ := b
  cases act with
  | idle => exact h
  | opens =>
    intro copy hcopy
    rcases List.mem_cons.mp hcopy with rfl | hcopy
    · exact Nat.le_refl _
    · exact h copy hcopy
  | counts =>
    cases copies with
    | nil => exact fun copy hcopy => absurd hcopy List.not_mem_nil
    | cons first rest =>
      intro copy hcopy
      rcases List.mem_cons.mp hcopy with rfl | hcopy
      · exact Nat.le_succ_of_le (h first List.mem_cons_self)
      · exact h copy (List.mem_cons_of_mem _ hcopy)
  | closes =>
    cases copies with
    | nil => exact h
    | cons first rest => exact fun copy hcopy => h copy (List.mem_cons_of_mem _ hcopy)

theorem shared_le_high (b : Book) : b.shared ≤ b.high := by
  unfold Book.high
  induction b.copies with
  | nil => exact Nat.le_refl _
  | cons copy rest ih => exact Nat.le_trans ih (Nat.le_max_right _ _)

theorem copy_le_high {copy : Nat × Nat} (h : copy ∈ b.copies) : copy.2 ≤ b.high := by
  unfold Book.high
  obtain ⟨shared, copies⟩ := b
  simp only at h ⊢
  induction copies with
  | nil => exact absurd h List.not_mem_nil
  | cons first rest ih =>
    rcases List.mem_cons.mp h with rfl | hrest
    · exact Nat.le_max_left _ _
    · exact Nat.le_trans (ih hrest) (Nat.le_max_right _ _)

theorem high_le {bound : Nat} (hshared : b.shared ≤ bound)
    (hcopies : ∀ copy ∈ b.copies, copy.2 ≤ bound) : b.high ≤ bound := by
  unfold Book.high
  obtain ⟨shared, copies⟩ := b
  simp only at hshared hcopies ⊢
  induction copies with
  | nil => exact hshared
  | cons first rest ih =>
    exact Nat.max_le.mpr ⟨hcopies first List.mem_cons_self,
      ih (fun copy hcopy => hcopies copy (List.mem_cons_of_mem _ hcopy))⟩

theorem high_after_le (hsound : b.Sound) (act : Act) : (b.after act).high ≤ b.high + 1 := by
  have hshared := shared_le_high b
  have hcopies : ∀ copy ∈ b.copies, copy.2 ≤ b.high := fun copy => copy_le_high
  obtain ⟨shared, copies⟩ := b
  generalize (Book.mk shared copies).high = high at hshared hcopies
  simp only at hshared hcopies
  cases act with
  | idle => exact high_le (Nat.le_succ_of_le hshared) fun copy h => Nat.le_succ_of_le (hcopies copy h)
  | opens =>
    refine high_le (Nat.le_succ_of_le hshared) ?_
    intro copy hcopy
    rcases List.mem_cons.mp hcopy with rfl | hcopy
    · exact Nat.le_succ_of_le hshared
    · exact Nat.le_succ_of_le (hcopies copy hcopy)
  | counts =>
    cases copies with
    | nil => exact high_le (Nat.succ_le_succ hshared) (fun copy h => absurd h List.not_mem_nil)
    | cons first rest =>
      refine high_le (Nat.le_succ_of_le hshared) ?_
      intro copy hcopy
      rcases List.mem_cons.mp hcopy with rfl | hcopy
      · exact Nat.succ_le_succ (hcopies first List.mem_cons_self)
      · exact Nat.le_succ_of_le (hcopies copy (List.mem_cons_of_mem _ hcopy))
  | closes =>
    cases copies with
    | nil => exact high_le (Nat.le_succ_of_le hshared) (fun copy h => absurd h List.not_mem_nil)
    | cons first rest =>
      have hfirst := hcopies first List.mem_cons_self
      have hstart := hsound first List.mem_cons_self
      refine high_le ?_ fun copy h => Nat.le_succ_of_le (hcopies copy (List.mem_cons_of_mem _ h))
      change writtenBack first ≤ high + 1
      rw [writtenBack_eq hstart]
      omega

theorem shared_le_after_iff (hsound : b.Sound) :
    b.shared ≤ (b.after act).shared ↔ b.Safe act := by
  obtain ⟨shared, copies⟩ := b
  cases act with
  | idle => exact iff_of_true (Nat.le_refl _) trivial
  | opens => exact iff_of_true (Nat.le_refl _) trivial
  | counts =>
    refine iff_of_true ?_ trivial
    cases copies with
    | nil => exact Nat.le_succ _
    | cons first rest => exact Nat.le_refl _
  | closes =>
    cases copies with
    | nil => exact iff_of_true (Nat.le_refl _) (by simp [Book.Safe])
    | cons first rest =>
      change shared ≤ writtenBack first ↔ _
      rw [writtenBack_eq (hsound first List.mem_cons_self)]
      simp [Book.Safe]

theorem lt_shared_after_closes (hsound : b.Sound) {copy : Nat × Nat}
    (h : b.copies.head? = some copy) : copy.1 < (b.after .closes).shared := by
  obtain ⟨shared, copies⟩ := b
  cases copies with
  | nil => cases h
  | cons first rest =>
    rw [List.head?_cons, Option.some.injEq] at h
    subst h
    change first.1 < writtenBack first
    rw [writtenBack_eq (hsound first List.mem_cons_self)]
    omega

theorem high_le_after (hsound : b.Sound) (hsafe : b.Safe act) : b.high ≤ (b.after act).high := by
  have hshared := (shared_le_after_iff hsound).mpr hsafe
  refine high_le (Nat.le_trans hshared (shared_le_high _)) ?_
  obtain ⟨shared, copies⟩ := b
  intro copy hcopy
  cases act with
  | idle => exact copy_le_high hcopy
  | opens => exact copy_le_high (List.mem_cons_of_mem _ hcopy)
  | counts =>
    cases copies with
    | nil => exact absurd hcopy List.not_mem_nil
    | cons first rest =>
      rcases List.mem_cons.mp hcopy with rfl | hcopy
      · exact Nat.le_of_succ_le (copy_le_high
          (b := ⟨shared, (copy.1, copy.2 + 1) :: rest⟩) List.mem_cons_self)
      · exact copy_le_high (b := ⟨shared, (first.1, first.2 + 1) :: rest⟩)
          (List.mem_cons_of_mem _ hcopy)
  | closes =>
    cases copies with
    | nil => exact absurd hcopy List.not_mem_nil
    | cons first rest =>
      rcases List.mem_cons.mp hcopy with rfl | hcopy
      · refine Nat.le_trans ?_ (shared_le_high _)
        change copy.2 ≤ writtenBack copy
        rw [writtenBack_eq (hsound copy List.mem_cons_self)]
        exact Nat.le_max_right _ _
      · exact copy_le_high (b := ⟨writtenBack first, rest⟩) hcopy

/-- What the next count goes to: the innermost copy, or else the shared counter. -/
def Book.slot (b : Book) : Nat := (b.copies.head?.map Prod.snd).getD b.shared

theorem slot_lt_after_counts (b : Book) : b.slot + 1 ≤ (b.after .counts).high := by
  obtain ⟨shared, copies⟩ := b
  cases copies with
  | nil => exact shared_le_high ⟨shared + 1, []⟩
  | cons first rest =>
    exact copy_le_high (b := ⟨shared, (first.1, first.2 + 1) :: rest⟩) List.mem_cons_self

end book

end PrivateCopies
