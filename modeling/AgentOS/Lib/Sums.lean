import Mathlib.Algebra.BigOperators.Group.Finset.Piecewise
import Mathlib.Algebra.Order.BigOperators.Group.Finset

/-!
# Sums over a family of which one member changes
-/

namespace AgentOS

variable {ι α : Type*} [Fintype ι] [DecidableEq ι]

/-- **One member changes.** -/
theorem sum_comp_update (f : α → ℕ) (g : ι → α) (j : ι) (a : α) :
    ∑ i, f (Function.update g j a i) + f (g j) = ∑ i, f (g i) + f a := by
  have hupd : (fun i => f (Function.update g j a i)) =
      Function.update (fun i => f (g i)) j (f a) := by
    funext i
    by_cases hij : i = j
    · rw [hij, Function.update_self, Function.update_self]
    · rw [Function.update_of_ne hij, Function.update_of_ne hij]
  have hsplit := Finset.add_sum_erase Finset.univ (fun i => f (g i)) (Finset.mem_univ j)
  rw [hupd, Finset.sum_update_of_mem (Finset.mem_univ j), Finset.sdiff_singleton_eq_erase]
  omega

omit [DecidableEq ι] in
theorem le_sum (f : ι → ℕ) (j : ι) : f j ≤ ∑ i, f i :=
  Finset.single_le_sum (fun _ _ => Nat.zero_le _) (Finset.mem_univ j)

end AgentOS
