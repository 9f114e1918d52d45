import Mathlib.Data.List.Basic
import Mathlib.Tactic.Ring

/-!
# Decimal numerals

The number that a string of decimal digits stands for.

* `value_append`: the value of a numeral that goes on.
* `value_take_lt`: a numeral that is cut stands for less, unless it is all zeros.
-/

namespace AgentOS

namespace Numeral

/-- `'0'` to `'9'`. -/
def IsDigit (b : UInt8) : Prop := 48 ≤ b ∧ b ≤ 57

instance (b : UInt8) : Decidable (IsDigit b) := inferInstanceAs (Decidable (_ ∧ _))

/-- The value of the digits of `s` after a number `v`. -/
def valueFrom (v : ℕ) (s : List UInt8) : ℕ := s.foldl (fun v b => v * 10 + (b.toNat - 48)) v

def value (s : List UInt8) : ℕ := valueFrom 0 s

/-- `s` is a numeral for `v`. -/
def Denotes (s : List UInt8) (v : ℕ) : Prop := s ≠ [] ∧ (∀ b ∈ s, IsDigit b) ∧ value s = v

instance (s : List UInt8) (v : ℕ) : Decidable (Denotes s v) := inferInstanceAs (Decidable (_ ∧ _))

variable (s t : List UInt8) (v n : ℕ)

theorem valueFrom_append : valueFrom v (s ++ t) = valueFrom (valueFrom v s) t :=
  List.foldl_append

theorem valueFrom_eq : valueFrom v s = v * 10 ^ s.length + value s := by
  induction s generalizing v with
  | nil => simp [valueFrom, value]
  | cons b s ih =>
    have hv : valueFrom v (b :: s) = valueFrom (v * 10 + (b.toNat - 48)) s := rfl
    have h0 : value (b :: s) = valueFrom (0 * 10 + (b.toNat - 48)) s := rfl
    rw [hv, h0, ih, ih (0 * 10 + (b.toNat - 48)), List.length_cons, pow_succ]
    ring

theorem value_append : value (s ++ t) = value s * 10 ^ t.length + value t := by
  have h : value (s ++ t) = valueFrom (value s) t := valueFrom_append s t 0
  rw [h, valueFrom_eq]

variable {s n}

theorem value_take_le : value (s.take n) ≤ value s := by
  have h := value_append (s.take n) (s.drop n)
  rw [List.take_append_drop] at h
  have hpos : 1 ≤ 10 ^ (s.drop n).length := Nat.one_le_pow _ _ (by decide)
  calc value (s.take n) ≤ value (s.take n) * 10 ^ (s.drop n).length := Nat.le_mul_of_pos_right _ hpos
    _ ≤ value s := by omega

/-- A numeral that is cut stands for less, unless it is all zeros. -/
theorem value_take_lt (hn : n < s.length) (h : value s ≠ 0) : value (s.take n) < value s := by
  have happ := value_append (s.take n) (s.drop n)
  rw [List.take_append_drop] at happ
  obtain ⟨m, hm⟩ : ∃ m, (s.drop n).length = m + 1 :=
    ⟨(s.drop n).length - 1, by rw [List.length_drop]; omega⟩
  have hpow : 10 ≤ 10 ^ (s.drop n).length := by
    rw [hm, pow_succ]
    exact Nat.le_mul_of_pos_left 10 (Nat.pow_pos (by decide))
  have hmul := Nat.mul_le_mul_left (value (s.take n)) hpow
  omega

end Numeral

end AgentOS
