import Mathlib.Algebra.Notation.Defs
import Mathlib.Data.List.Nodup

/-!
# Null-terminated lists threaded through a link function

`Chain next p xs`: starting at `p` and following `next`, one visits exactly the
nodes `xs`, in order, and then reaches the null node `0`. The nodes may live
anywhere; only the links of the members matter (`Chain.congr`).

A chain is determined by its first node (`Chain.unique`), so it cannot run into
a cycle (`Chain.nodup`). `Chain.pop` takes the head off; the constructor
`Chain.cons` puts a node in front.
-/

namespace TorchTest

variable {α : Type*} [Zero α] {next next' : α → α} {p x : α} {xs ys : List α}

/-- Following `next` from `p` visits `xs` and ends at the null node. -/
inductive Chain (next : α → α) : α → List α → Prop
  | nil : Chain next 0 []
  | cons {x : α} {xs : List α} : x ≠ 0 → Chain next (next x) xs → Chain next x (x :: xs)

namespace Chain

@[simp] theorem nil_iff : Chain next p [] ↔ p = 0 := by
  constructor
  · intro chain
    cases chain
    rfl
  · rintro rfl
    exact .nil

@[simp] theorem cons_iff :
    Chain next p (x :: xs) ↔ p = x ∧ x ≠ 0 ∧ Chain next (next x) xs := by
  constructor
  · intro chain
    cases chain with
    | cons nonzero rest => exact ⟨rfl, nonzero, rest⟩
  · rintro ⟨rfl, nonzero, rest⟩
    exact .cons nonzero rest

theorem eq_nil (chain : Chain next 0 xs) : xs = [] := by
  cases chain with
  | nil => rfl
  | cons nonzero _ => exact absurd rfl nonzero

/-- A non-null first node is the head of the list. -/
theorem exists_cons (chain : Chain next p xs) (nonzero : p ≠ 0) :
    ∃ ys, xs = p :: ys ∧ Chain next (next p) ys := by
  cases chain with
  | nil => exact absurd rfl nonzero
  | cons _ rest => exact ⟨_, rfl, rest⟩

/-- The first node determines the whole list. -/
theorem unique (left : Chain next p xs) (right : Chain next p ys) : xs = ys := by
  induction left generalizing ys with
  | nil => exact right.eq_nil.symm
  | cons nonzero _ ih =>
    rcases right.exists_cons nonzero with ⟨rest, rfl, tail⟩
    rw [ih tail]

/-- The list determines the first node. -/
theorem first_unique (left : Chain next p xs) (right : Chain next' q xs) : p = q := by
  cases left with
  | nil => exact (nil_iff.mp right).symm
  | cons nonzero _ => exact (cons_iff.mp right).1.symm

/-- From a node of the list on, the list is a chain. -/
theorem suffix {before after : List α} (chain : Chain next p (before ++ x :: after)) :
    Chain next x (x :: after) := by
  induction before generalizing p with
  | nil =>
    rcases cons_iff.mp chain with ⟨rfl, nonzero, rest⟩
    exact .cons nonzero rest
  | cons y before ih => exact ih (cons_iff.mp chain).2.2

/-- A null-terminated list visits no node twice. -/
theorem nodup (chain : Chain next p xs) : xs.Nodup := by
  induction chain with
  | nil => exact List.nodup_nil
  | @cons x xs nonzero rest ih =>
    refine List.nodup_cons.mpr ⟨fun again => ?_, ih⟩
    -- a second visit of `x` would start a list that contains itself
    rcases List.append_of_mem again with ⟨before, after, rfl⟩
    have lengths := congrArg List.length ((Chain.cons nonzero rest).unique rest.suffix)
    simp only [List.length_cons, List.length_append] at lengths
    omega

/-- Only the links of the members matter. -/
theorem congr (chain : Chain next p xs) (same : ∀ x ∈ xs, next' x = next x) :
    Chain next' p xs := by
  induction chain with
  | nil => exact .nil
  | cons nonzero _ ih =>
    apply Chain.cons nonzero
    rw [same _ List.mem_cons_self]
    exact ih fun y member => same y (List.mem_cons_of_mem _ member)

/-- Take the head off; its link is the new head. -/
theorem pop (chain : Chain next p (x :: xs)) : Chain next (next p) xs := by
  rcases cons_iff.mp chain with ⟨rfl, _, rest⟩
  exact rest

end Chain

end TorchTest
