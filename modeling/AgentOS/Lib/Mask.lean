import Mathlib.Data.Nat.Notation

/-!
# Bit masks as sets

A `w`-bit word used as a set of bits: `Within a b` is the test `(a & ~b) == 0`.
-/

namespace AgentOS.Mask

variable {w : ℕ} {a b c : BitVec w}

/-- Every bit of `a` is a bit of `b`. -/
def Within (a b : BitVec w) : Prop := a &&& ~~~b = 0

instance : Decidable (Within a b) := inferInstanceAs (Decidable (_ = _))

theorem within_iff : Within a b ↔ ∀ i < w, a.getLsbD i = true → b.getLsbD i = true := by
  unfold Within
  constructor
  · intro h i hi ha
    have hbit := congrArg (fun x => BitVec.getLsbD x i) h
    simpa [hi, ha] using hbit
  · intro h
    apply BitVec.eq_of_getLsbD_eq
    intro i hi
    by_cases ha : a.getLsbD i = true
    · simp [h i hi ha]
    · simp [Bool.not_eq_true _ ▸ ha]

@[refl] theorem Within.refl (a : BitVec w) : Within a a := within_iff.2 fun _ _ h => h

theorem Within.trans (hab : Within a b) (hbc : Within b c) : Within a c :=
  within_iff.2 fun i hi h => within_iff.1 hbc i hi (within_iff.1 hab i hi h)

theorem zero_within (a : BitVec w) : Within 0 a := within_iff.2 fun i _ h => by simp at h

theorem within_zero : Within a 0 ↔ a = 0 := by
  constructor
  · intro h
    apply BitVec.eq_of_getLsbD_eq
    intro i hi
    have hbit := within_iff.1 h i hi
    cases ha : a.getLsbD i
    · simp
    · simpa using hbit ha
  · rintro rfl; exact zero_within 0

/-- Bits that are cleared do not appear. -/
theorem of_clear (h : a &&& ~~~b &&& c ≠ 0) : a &&& c ≠ 0 := by
  intro h0
  refine h ?_
  rw [BitVec.and_assoc, BitVec.and_comm (~~~b), ← BitVec.and_assoc, h0]
  simp

/-- Bits outside the mask do not change it. -/
theorem or_and (hb : b &&& c = 0) : (a ||| b) &&& c = a &&& c := by
  rw [BitVec.and_or_distrib_right, hb]
  simp

end AgentOS.Mask
