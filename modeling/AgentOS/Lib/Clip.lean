import Mathlib.Data.List.TakeDrop
import Mathlib.Algebra.Order.Group.Nat

/-!
# Text in a bounded buffer

A program builds a text piece by piece in a buffer of `n` cells, and what does not fit is
dropped without a word.

* `Clip n buf x`: the buffer holds what fits of the text `x`.
* `Clip.put`, `Clip.foldl`: the next piece, and the pieces of a loop.
* **`Clip.eq_iff`**: nothing is lost if and only if the whole text fits.
-/

namespace AgentOS

/-- **The buffer holds the first `n` cells of the text.** -/
def Clip {α : Type*} (n : ℕ) (buf x : List α) : Prop := buf = x.take n

namespace Clip

variable {α β : Type*} {n : ℕ} {buf x : List α}

theorem nil : Clip n ([] : List α) [] := List.take_nil.symm

theorem of_le (h : x.length ≤ n) : Clip n x x := (List.take_of_length_le h).symm

/-- **One more piece**, as far as it fits. -/
theorem put (h : Clip n buf x) (s : List α) : Clip n ((buf ++ s).take n) (x ++ s) := by
  unfold Clip at h ⊢
  rw [h, List.take_append, List.take_append, List.take_take, min_self, List.length_take]
  rcases Nat.le_total x.length n with hle | hle
  · rw [min_eq_right hle]
  · rw [min_eq_left hle, Nat.sub_self, Nat.sub_eq_zero_of_le hle]

/-- A piece of one cell, put only where there is room. -/
theorem putOne (h : Clip n buf x) (a : α) :
    Clip n (if n ≤ buf.length then buf else buf ++ [a]) (x ++ [a]) := by
  have hput := h.put [a]
  split
  · rename_i hfull
    rwa [List.take_append_of_le_length hfull, List.take_of_length_le] at hput
    rw [h]
    exact List.length_take_le ..
  · rename_i hroom
    rwa [List.take_of_length_le] at hput
    rw [List.length_append, List.length_singleton]
    omega

/-- **A loop**, each round of which adds its piece. -/
theorem foldl {f : List α → β → List α} {g : β → List α}
    (hf : ∀ buf x b, Clip n buf x → Clip n (f buf b) (x ++ g b)) (h : Clip n buf x)
    (l : List β) : Clip n (l.foldl f buf) (x ++ l.flatMap g) := by
  induction l generalizing buf x with
  | nil => simpa using h
  | cons b l ih =>
    have hstep := ih (hf buf x b h)
    rw [List.append_assoc] at hstep
    exact hstep

/-- A reader that takes `m` cells of the buffer. -/
theorem limit (h : Clip n buf x) (m : ℕ) : Clip (min m n) (buf.take m) x := by
  unfold Clip at h ⊢
  rw [h, List.take_take]

theorem length_le (h : Clip n buf x) : buf.length ≤ n := by
  rw [h]
  exact List.length_take_le ..

/-- **Nothing is lost** if and only if the text fits. -/
theorem eq_iff (h : Clip n buf x) : buf = x ↔ x.length ≤ n := by
  rw [h]
  exact List.take_eq_self_iff x

end Clip

end AgentOS
