import Mathlib.Data.Nat.Notation
import Mathlib.Data.List.Range
import Mathlib.Algebra.Order.Group.Nat

/-!
# Reading and writing ranges of a memory

A memory is a function from addresses. `slice f a n` reads `n` cells from `a` on, and
`write f a l` stores a list there.

* `slice_write_self`, `slice_write_disjoint`: what is read back.
* `chunks c n`: the steps of a loop that handles `n` cells, at most `c` at a time.
* **`move_chunks`**: a copy in chunks, lowest address first, moves the range if the target
  does not start inside the source, or one chunk is enough.
-/

namespace AgentOS.Slice

variable {α : Type*}

/-- Read `n` cells from `a` on. -/
def slice (f : ℕ → α) (a n : ℕ) : List α := (List.range n).map fun i => f (a + i)

/-- Store the list from `a` on. -/
def write (f : ℕ → α) (a : ℕ) (l : List α) : ℕ → α :=
  fun b => if h : a ≤ b ∧ b < a + l.length then l[b - a] else f b

/-- The offsets and sizes of the chunks of a loop over `n` cells. -/
def chunks (c n : ℕ) : List (ℕ × ℕ) :=
  (List.range ((n + c - 1) / c)).map fun k => (k * c, min c (n - k * c))

/-- Copy one chunk from `src` to `dst`. -/
def move (src dst : ℕ) (f : ℕ → α) (x : ℕ × ℕ) : ℕ → α :=
  write f (dst + x.1) (slice f (src + x.1) x.2)

variable {f g : ℕ → α} {a b c n m src dst : ℕ} {l l' : List α}

@[simp] theorem slice_length : (slice f a n).length = n := by simp [slice]

@[simp] theorem slice_zero : slice f a 0 = [] := rfl

theorem slice_congr (h : ∀ i < n, f (a + i) = g (a + i)) : slice f a n = slice g a n := by
  unfold slice
  apply List.map_congr_left
  intro i hi
  exact h i (List.mem_range.1 hi)

theorem slice_add : slice f a (m + n) = slice f a m ++ slice f (a + m) n := by
  unfold slice
  rw [List.range_add, List.map_append, List.map_map]
  congr 1
  apply List.map_congr_left
  intro i _
  simp [Nat.add_assoc]

theorem slice_drop (h : m ≤ n) : (slice f a n).drop m = slice f (a + m) (n - m) := by
  obtain ⟨k, rfl⟩ := Nat.exists_eq_add_of_le h
  rw [slice_add, List.drop_left' slice_length, Nat.add_sub_cancel_left]

theorem slice_take (h : m ≤ n) : (slice f a n).take m = slice f a m := by
  obtain ⟨k, rfl⟩ := Nat.exists_eq_add_of_le h
  rw [slice_add, List.take_left' slice_length]

theorem write_inside (h : n < l.length) : write f a l (a + n) = l[n] := by
  have hn : a ≤ a + n ∧ a + n < a + l.length := by omega
  simp [write, hn]

theorem write_outside (h : b < a ∨ a + l.length ≤ b) : write f a l b = f b := by
  have hn : ¬ (a ≤ b ∧ b < a + l.length) := by omega
  simp only [write, hn, dif_neg, not_false_eq_true]

@[simp] theorem write_nil : write f a [] = f := by
  funext b
  refine write_outside ?_
  simp only [List.length_nil]
  omega

/-- What was written is read back. -/
theorem slice_write_self : slice (write f a l) a l.length = l := by
  apply List.ext_getElem
  · simp
  · intro i hi hl
    simp only [slice, List.getElem_map, List.getElem_range]
    exact write_inside hl

/-- A write elsewhere is not seen. -/
theorem slice_write_disjoint (h : b + n ≤ a ∨ a + l.length ≤ b) :
    slice (write f a l) b n = slice f b n := by
  apply slice_congr
  intro i hi
  apply write_outside
  omega

theorem write_append : write (write f a l) (a + l.length) l' = write f a (l ++ l') := by
  funext b
  by_cases h₁ : b < a
  · rw [write_outside (.inl (by omega)), write_outside (.inl h₁), write_outside (.inl h₁)]
  by_cases h₂ : b < a + l.length
  · obtain ⟨i, rfl⟩ := Nat.exists_eq_add_of_le (not_lt.1 h₁)
    have hi : i < l.length := by omega
    rw [write_outside (.inl h₂), write_inside hi, write_inside (by simp; omega),
      List.getElem_append_left hi]
  by_cases h₃ : b < a + l.length + l'.length
  · obtain ⟨i, rfl⟩ := Nat.exists_eq_add_of_le (not_lt.1 h₂)
    have hi : i < l'.length := by omega
    rw [write_inside hi, Nat.add_assoc, write_inside (by simp; omega),
      List.getElem_append_right (by omega)]
    simp
  · rw [write_outside (.inr (by omega)), write_outside (.inr (by omega)),
      write_outside (.inr (by simp; omega))]

/-- **A copy in chunks moves the range**, if no chunk is overwritten before it is read. -/
theorem move_chunks (hc : 0 < c) (h : dst ≤ src ∨ src + n ≤ dst ∨ n ≤ c) :
    (chunks c n).foldl (move src dst) f = write f dst (slice f src n) := by
  have hrun : ∀ k, k ≤ (n + c - 1) / c →
      ((List.range k).map fun k => (k * c, min c (n - k * c))).foldl (move src dst) f =
        write f dst (slice f src (min (k * c) n)) := by
    intro k
    induction k with
    | zero => intro _; simp
    | succ k ih =>
      intro hk
      have hlt : k * c < n := by
        have hle := (Nat.le_div_iff_mul_le hc).1 hk
        rw [Nat.succ_mul] at hle
        omega
      have hnext : min ((k + 1) * c) n = k * c + min c (n - k * c) := by
        rw [Nat.succ_mul]; omega
      rw [List.range_succ, List.map_append, List.foldl_append, ih (by omega), min_eq_left hlt.le,
        hnext, slice_add, ← write_append, slice_length]
      -- the chunk is read as it was
      have hread : slice (write f dst (slice f src (k * c))) (src + k * c) (min c (n - k * c)) =
          slice f (src + k * c) (min c (n - k * c)) := by
        rcases Nat.eq_zero_or_pos (k * c) with h0 | hpos
        · rw [h0, slice_zero, write_nil]
        · apply slice_write_disjoint
          rw [slice_length]
          have hck : c ≤ k * c := by
            rcases Nat.eq_zero_or_pos k with rfl | hk'
            · simp at hpos
            · exact Nat.le_mul_of_pos_left c hk'
          omega
      simp only [List.map_cons, List.map_nil, List.foldl_cons, List.foldl_nil, move]
      rw [hread]
  rw [chunks, hrun _ le_rfl, min_eq_right]
  have hdm := Nat.div_add_mod (n + c - 1) c
  have hmod := Nat.mod_lt (n + c - 1) hc
  rw [Nat.mul_comm] at hdm
  omega

end AgentOS.Slice
