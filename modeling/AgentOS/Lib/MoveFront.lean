import Mathlib.Data.List.Basic
import Mathlib.Data.List.Perm.Basic

/-!
# Move to front

* `moveFront l x`: `x` becomes the first element.
* `foldl_moveFront_before`: behind a sequence of moves, an element is before each other that has
  not been moved since.
-/

namespace AgentOS

variable {α : Type*} [DecidableEq α] {l xs xs₁ xs₂ : List α} {x y z : α}

/-- `x` becomes the first element. -/
def moveFront (l : List α) (x : α) : List α := x :: l.erase x

theorem moveFront_perm (h : x ∈ l) : (moveFront l x).Perm l := (List.perm_cons_erase h).symm

theorem foldl_moveFront_perm (h : ∀ x ∈ xs, x ∈ l) : (xs.foldl moveFront l).Perm l := by
  induction xs generalizing l with
  | nil => exact List.Perm.refl l
  | cons x xs ih =>
    have hp := moveFront_perm (h x List.mem_cons_self)
    exact (ih fun y hy => hp.mem_iff.2 (h y (List.mem_cons_of_mem _ hy))).trans hp

/-- A move of another element keeps the order of two. -/
theorem moveFront_sublist (h : [x, y].Sublist l) (hy : z ≠ y) : [x, y].Sublist (moveFront l z) := by
  unfold moveFront
  by_cases hx : z = x
  · subst hx
    have hmem : y ∈ l := h.subset (by simp)
    rw [List.cons_sublist_cons, List.singleton_sublist]
    exact (List.mem_erase_of_ne hy.symm).2 hmem
  · have he := h.erase z
    rw [List.erase_cons_tail (by simpa using Ne.symm hx),
      List.erase_cons_tail (by simpa using Ne.symm hy), List.erase_nil] at he
    exact he.trans (List.sublist_cons_self _ _)

theorem foldl_moveFront_sublist (h : [x, y].Sublist l) (hy : y ∉ xs) :
    [x, y].Sublist (xs.foldl moveFront l) := by
  induction xs generalizing l with
  | nil => exact h
  | cons z xs ih =>
    rw [List.mem_cons, not_or] at hy
    exact ih (moveFront_sublist h (Ne.symm hy.1)) hy.2

/-- **Behind a sequence of moves**, an element moved before `xs₂` is before each other element that
`xs₂` does not move. -/
theorem foldl_moveFront_before (hx : ∀ z ∈ xs₁ ++ x :: xs₂, z ∈ l) (hy : y ∈ l) (hyx : y ≠ x)
    (hn : y ∉ xs₂) : [x, y].Sublist ((xs₁ ++ x :: xs₂).foldl moveFront l) := by
  rw [List.foldl_append, List.foldl_cons]
  refine foldl_moveFront_sublist ?_ hn
  have hp : (xs₁.foldl moveFront l).Perm l :=
    foldl_moveFront_perm fun z hz => hx z (List.mem_append_left _ hz)
  unfold moveFront
  rw [List.cons_sublist_cons, List.singleton_sublist]
  exact (List.mem_erase_of_ne hyx).2 (hp.mem_iff.2 hy)

omit [DecidableEq α] in
/-- Two elements are in one order only. -/
theorem not_before_split {l₁ l₂ : List α} (hn : (l₁ ++ x :: l₂).Nodup) (hy : y ∉ l₂) :
    ¬[x, y].Sublist (l₁ ++ x :: l₂) := by
  intro h
  induction l₁ with
  | nil =>
    rw [List.nil_append, List.cons_sublist_cons, List.singleton_sublist] at h
    exact hy h
  | cons z l₁ ih =>
    rw [List.cons_append, List.nodup_cons] at hn
    have hzx : z ≠ x := by
      rintro rfl
      exact hn.1 (by simp)
    rw [List.cons_append] at h
    cases h with
    | cons _ h => exact ih hn.2 h
    | cons_cons _ h => exact hzx rfl

end AgentOS
