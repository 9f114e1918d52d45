import Mathlib.Algebra.GroupWithZero.Nat
import Mathlib.Algebra.Group.Int.Defs
import Mathlib.Data.Fin.Basic
import Mathlib.Data.Nat.Notation

/-!
# Words in a block of bytes

A block of `4 * n` bytes holds `n` little-endian words of 32 bits.

* `get_set_self`, `get_set_ne`: what a stored word reads back as.
* `get_congr`: a word depends on its own four bytes only.
-/

namespace AgentOS.Words

variable {n : ℕ}

/-- Byte `k` of word `j`. -/
def byte (j : Fin n) (k : Fin 4) : Fin (4 * n) := ⟨4 * j + k, by omega⟩

/-- The word at index `j`. -/
def get (b : Fin (4 * n) → UInt8) (j : Fin n) : ℕ :=
  (b (byte j 0)).toNat + 2 ^ 8 * (b (byte j 1)).toNat + 2 ^ 16 * (b (byte j 2)).toNat +
    2 ^ 24 * (b (byte j 3)).toNat

/-- Store the word `v` at index `j`. -/
def set (b : Fin (4 * n) → UInt8) (j : Fin n) (v : ℕ) : Fin (4 * n) → UInt8 :=
  fun i => if i.val / 4 = j.val then UInt8.ofNat (v / 2 ^ (8 * (i.val % 4))) else b i

variable {b b' : Fin (4 * n) → UInt8} {i j : Fin n} {v : ℕ}

theorem get_congr (h : ∀ k, b (byte j k) = b' (byte j k)) : get b j = get b' j := by
  unfold get
  rw [h 0, h 1, h 2, h 3]

theorem get_lt : get b j < 2 ^ 32 := by
  have h0 := (b (byte j 0)).toNat_lt
  have h1 := (b (byte j 1)).toNat_lt
  have h2 := (b (byte j 2)).toNat_lt
  have h3 := (b (byte j 3)).toNat_lt
  unfold get
  omega

theorem set_byte (k : Fin 4) : set b j v (byte j k) = UInt8.ofNat (v / 2 ^ (8 * k.val)) := by
  have hd : (4 * j.val + k.val) / 4 = j.val := by omega
  have hm : (4 * j.val + k.val) % 4 = k.val := by omega
  simp only [set, byte, hd, hm, if_true]

theorem set_byte_ne (h : i ≠ j) (k : Fin 4) : set b j v (byte i k) = b (byte i k) := by
  have hd : (4 * i.val + k.val) / 4 ≠ j.val := by
    have hij : i.val ≠ j.val := fun he => h (Fin.ext he)
    omega
  simp only [set, byte, hd, if_false]

/-- **A stored word is read back.** -/
theorem get_set_self (h : v < 2 ^ 32) : get (set b j v) j = v := by
  unfold get
  rw [set_byte, set_byte, set_byte, set_byte]
  simp only [UInt8.toNat_ofNat', Fin.val_zero, Fin.val_one, Fin.val_two]
  have h3 : ((3 : Fin 4) : ℕ) = 3 := rfl
  rw [h3]
  omega

/-- **The other words keep their value.** -/
theorem get_set_ne (h : i ≠ j) : get (set b j v) i = get b i :=
  get_congr (set_byte_ne h)

end AgentOS.Words
