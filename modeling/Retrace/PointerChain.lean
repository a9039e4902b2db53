import Mathlib.Data.List.Nodup
import Mathlib.Logic.Function.Basic
import Mathlib.Tactic.Common

/-! Singly linked lists in memory: `next` gives the pointer that each node holds, `none` is null. -/

set_option autoImplicit false

namespace PointerChain

/-- The nodes from a pointer on, up to the null pointer. -/
inductive Chain (next : Nat → Option Nat) : Option Nat → List Nat → Prop
  | nil : Chain next none []
  | cons {a : Nat} {rest : List Nat} (tail : Chain next (next a) rest) :
      Chain next (some a) (a :: rest)

/-- A loop from a pointer on that stops at the first node with a property. The outer `none` says
that the fuel ran out. -/
def findFrom (next : Nat → Option Nat) (holds : Nat → Bool) :
    Nat → Option Nat → Option (Option Nat)
  | _, none => some none
  | 0, some _ => none
  | fuel + 1, some a => if holds a then some (some a) else findFrom next holds fuel (next a)

/-- The search for the pointer that holds the address of a node: `some none` is the pointer that the
list starts with, `some (some a)` the one in node `a`, and `none` says that there is none. -/
def linkFrom (next : Nat → Option Nat) (target : Nat) :
    Nat → Option Nat → Option Nat → Option (Option (Option Nat))
  | _, _, none => some none
  | 0, _, some _ => none
  | fuel + 1, link, some a =>
    if a = target then some (some link) else linkFrom next target fuel (some a) (next a)

/-- The pointers after a write to the one at a link. -/
def setHead (link value head : Option Nat) : Option Nat :=
  match link with
  | none => value
  | some _ => head

def setNext (next : Nat → Option Nat) (link value : Option Nat) : Nat → Option Nat :=
  match link with
  | none => next
  | some a => Function.update next a value

section chain
variable {next next' : Nat → Option Nat} {head : Option Nat} {nodes : List Nat} {a : Nat}

theorem Chain.unique {nodes' : List Nat} (h : Chain next head nodes) (h' : Chain next head nodes') :
    nodes = nodes' := by
  induction h generalizing nodes' with
  | nil =>
    cases h'
    rfl
  | cons tail ih =>
    cases h' with
    | cons tail' => rw [ih tail']

theorem Chain.congr (h : Chain next head nodes) (hsame : ∀ a ∈ nodes, next' a = next a) :
    Chain next' head nodes := by
  induction h with
  | nil => exact .nil
  | cons tail ih =>
    refine .cons ?_
    rw [hsame _ List.mem_cons_self]
    exact ih (fun b hb => hsame b (List.mem_cons_of_mem _ hb))

theorem Chain.from (h : Chain next head nodes) {before after : List Nat}
    (hnodes : nodes = before ++ a :: after) : Chain next (some a) (a :: after) := by
  induction h generalizing before with
  | nil => simp at hnodes
  | cons tail ih =>
    rename_i b rest
    cases before with
    | nil =>
      rw [List.nil_append, List.cons.injEq] at hnodes
      obtain ⟨rfl, rfl⟩ := hnodes
      exact .cons tail
    | cons c before =>
      rw [List.cons_append, List.cons.injEq] at hnodes
      exact ih hnodes.2

theorem Chain.start (h : Chain next head nodes) : head = nodes.head? := by
  cases h <;> rfl

theorem Chain.nodup (h : Chain next head nodes) : nodes.Nodup := by
  induction h with
  | nil => exact List.nodup_nil
  | cons tail ih =>
    rename_i b rest
    rw [List.nodup_cons]
    refine ⟨fun hmem => ?_, ih⟩
    obtain ⟨before, after, hrest⟩ := List.append_of_mem hmem
    -- the chain from the second visit on would be as long as the one from the first
    have hagain := tail.from hrest
    have hlength := congrArg List.length (hagain.unique (.cons tail))
    rw [hrest] at hlength
    simp only [List.length_cons, List.length_append] at hlength
    omega

theorem Chain.push (h : Chain next head nodes) (ha : a ∉ nodes) :
    Chain (Function.update next a head) (some a) (a :: nodes) := by
  refine .cons ?_
  rw [Function.update_self]
  refine h.congr (fun b hb => Function.update_of_ne ?_ _ _)
  rintro rfl
  exact ha hb

theorem Chain.findFrom (h : Chain next head nodes) (holds : Nat → Bool) {fuel : Nat}
    (hfuel : nodes.length ≤ fuel) :
    PointerChain.findFrom next holds fuel head = some (nodes.find? holds) := by
  induction h generalizing fuel with
  | nil =>
    cases fuel <;> rfl
  | cons tail ih =>
    rename_i b rest
    cases fuel with
    | zero => simp at hfuel
    | succ fuel =>
      rw [PointerChain.findFrom, List.find?_cons]
      cases hb : holds b with
      | true => rfl
      | false =>
        simp only [Bool.false_eq_true, if_false]
        exact ih (by simpa using hfuel)

theorem Chain.linkFrom (h : Chain next head nodes) (target : Nat) {fuel : Nat} (link : Option Nat)
    (hfuel : nodes.length ≤ fuel) :
    (target ∉ nodes ∧ PointerChain.linkFrom next target fuel link head = some none) ∨
    ∃ before after, nodes = before ++ target :: after ∧
      PointerChain.linkFrom next target fuel link head =
        some (some (if before = [] then link else before.getLast?)) := by
  induction h generalizing fuel link with
  | nil =>
    refine Or.inl ⟨List.not_mem_nil, ?_⟩
    cases fuel <;> rfl
  | cons tail ih =>
    rename_i b rest
    cases fuel with
    | zero => simp at hfuel
    | succ fuel =>
      rw [PointerChain.linkFrom]
      by_cases hb : b = target
      · rw [if_pos hb, hb]
        exact Or.inr ⟨[], rest, rfl, rfl⟩
      · rw [if_neg hb]
        obtain ⟨hnone, hrest⟩ | ⟨before, after, hnodes, hrest⟩ :=
          @ih fuel (some b) (by simpa using hfuel)
        · refine Or.inl ⟨?_, hrest⟩
          rw [List.mem_cons, not_or]
          exact ⟨Ne.symm hb, hnone⟩
        · refine Or.inr ⟨b :: before, after, by rw [hnodes]; rfl, hrest.trans ?_⟩
          rw [if_neg (List.cons_ne_nil b before)]
          cases before with
          | nil => rfl
          | cons c before => rw [if_neg (List.cons_ne_nil c before), List.getLast?_cons_cons]

theorem Chain.unlink (h : Chain next head nodes) {before after : List Nat}
    (hnodes : nodes = before ++ a :: after) :
    Chain (setNext next (if before = [] then none else before.getLast?) (next a))
      (setHead (if before = [] then none else before.getLast?) (next a) head)
      (before ++ after) := by
  have hnodup := h.nodup
  have htail : Chain next (next a) after := by
    cases h.from hnodes with
    | cons tail => exact tail
  induction h generalizing before with
  | nil => simp at hnodes
  | cons tail ih =>
    rename_i b rest
    cases before with
    | nil => exact htail
    | cons c before =>
      rw [List.cons_append, List.cons.injEq] at hnodes
      obtain ⟨rfl, rfl⟩ := hnodes
      rw [if_neg (List.cons_ne_nil b before)]
      rw [List.nodup_cons] at hnodup
      cases before with
      | nil =>
        change Chain (Function.update next b (next a)) (some b) (b :: after)
        refine .cons ?_
        rw [Function.update_self]
        refine htail.congr (fun d hd => Function.update_of_ne ?_ _ _)
        rintro rfl
        exact hnodup.1 (List.mem_cons_of_mem _ hd)
      | cons d before =>
        have hih := ih rfl hnodup.2
        rw [if_neg (List.cons_ne_nil d before)] at hih
        obtain ⟨last, hlast⟩ : ∃ last, (d :: before).getLast? = some last :=
          ⟨_, List.getLast?_eq_some_getLast (List.cons_ne_nil d before)⟩
        rw [hlast] at hih
        rw [List.getLast?_cons_cons, hlast]
        have hne : b ≠ last := by
          rintro rfl
          exact hnodup.1 (List.mem_append_left _ (List.mem_of_getLast? hlast))
        change Chain (Function.update next last (next a)) (some b) (b :: _)
        refine .cons ?_
        rw [Function.update_of_ne hne]
        exact hih

end chain

end PointerChain
