import Mathlib.Data.Nat.Notation
import Mathlib.Data.List.Basic

/-!
# Bounded FIFO lists

A list whose oldest elements are dropped until the rest leaves room: `makeRoom fits l`.

* `makeRoom_drop`: it drops exactly the shortest prefix that makes room.
* `total size l`: the sum of the sizes, with its behaviour on `take` and `drop`.
-/

namespace AgentOS.Fifo

variable {α : Type*}

/-- Drop elements from the front until `fits` holds. -/
def makeRoom (fits : List α → Bool) : List α → List α
  | [] => []
  | a :: l => if fits (a :: l) then a :: l else makeRoom fits l

/-- The sum of the sizes. -/
def total (size : α → ℕ) : List α → ℕ
  | [] => 0
  | a :: l => size a + total size l

variable {fits : List α → Bool} {size : α → ℕ} {l l' : List α}

/-- **The shortest prefix that makes room is dropped.** -/
theorem makeRoom_drop (h0 : fits [] = true) :
    ∃ k ≤ l.length, makeRoom fits l = l.drop k ∧ fits (l.drop k) = true ∧
      ∀ j < k, fits (l.drop j) = false := by
  induction l with
  | nil => exact ⟨0, Nat.le_refl _, rfl, h0, fun j hj => by omega⟩
  | cons a l ih =>
    by_cases hf : fits (a :: l) = true
    · refine ⟨0, Nat.zero_le _, ?_, hf, fun j hj => by omega⟩
      simp [makeRoom, hf]
    · obtain ⟨k, hk, hm, hfit, hmin⟩ := ih
      refine ⟨k + 1, by simpa using hk, ?_, by simpa using hfit, fun j hj => ?_⟩
      · simp [makeRoom, hf, hm]
      · cases j with
        | zero => simpa using hf
        | succ j => simpa using hmin j (by omega)

@[simp] theorem total_nil : total size [] = 0 := rfl

@[simp] theorem total_append : total size (l ++ l') = total size l + total size l' := by
  induction l with
  | nil => simp
  | cons a l ih => simp only [List.cons_append, total, ih]; omega

theorem total_take_add_drop (k : ℕ) : total size (l.take k) + total size (l.drop k) = total size l := by
  rw [← total_append, List.take_append_drop]

theorem total_take_succ {k : ℕ} (h : k < l.length) :
    total size (l.take (k + 1)) = total size (l.take k) + size l[k] := by
  rw [List.take_succ_eq_append_getElem h, total_append]
  rfl

theorem length_flatMap {β : Type*} (g : α → List β) :
    (l.flatMap g).length = total (fun a => (g a).length) l := by
  induction l with
  | nil => rfl
  | cons a l ih => rw [List.flatMap_cons, List.length_append, ih]; rfl

end AgentOS.Fifo
