import Mathlib.Algebra.GroupWithZero.Nat
import Mathlib.Data.Fin.Basic
import Mathlib.Data.Fin.VecNotation
import Mathlib.Logic.Function.Basic
import Mathlib.Data.List.Range
import Mathlib.Algebra.Group.Fin.Basic

/-!
# Ring buffers

`window q head count` is the FIFO contents of a ring of `n` cells: the `count`
cells from `head` on, wrapping around. Writing the cell behind the window appends
(`window_push`); moving the head on drops the first element (`window_pop`).

`trail q tail count` is the same ring known by the place of the next write; where it is full
a write also drops the oldest element (`trail_push`).
-/

namespace AgentOS.Ring

variable {α : Type*} {n : ℕ} [NeZero n]

/-- **The contents** of a ring with `count` queued cells, oldest first. -/
def window (q : Fin n → α) (head : Fin n) (count : ℕ) : List α :=
  (List.range count).map fun i => q (head + Fin.ofNat n i)

@[simp] theorem window_length (q : Fin n → α) (head : Fin n) (count : ℕ) :
    (window q head count).length = count := by simp [window]

@[simp] theorem window_zero (q : Fin n → α) (head : Fin n) : window q head 0 = [] := rfl

theorem window_succ (q : Fin n → α) (head : Fin n) (count : ℕ) :
    window q head (count + 1) = window q head count ++ [q (head + Fin.ofNat n count)] := by
  simp [window, List.range_succ]

theorem ofNat_succ (i : ℕ) : Fin.ofNat n (i + 1) = 1 + Fin.ofNat n i := by
  apply Fin.ext
  simp [Fin.val_add, Fin.ofNat, Nat.add_comm]

/-- The oldest element is the one at `head`. -/
theorem window_cons (q : Fin n → α) (head : Fin n) (count : ℕ) :
    window q head (count + 1) = q head :: window q (head + 1) count := by
  have h0 : head + Fin.ofNat n 0 = head := by
    apply Fin.ext; simp [Fin.ofNat]
  simp only [window, List.range_succ_eq_map, List.map_cons, List.map_map, h0]
  congr 1
  apply List.map_congr_left
  intro i _
  simp only [Function.comp, Nat.succ_eq_add_one, ofNat_succ, add_assoc]

/-- Cells of a window of fewer than `n` elements are distinct from the cell behind it. -/
theorem cell_ne {head : Fin n} {i count : ℕ} (hi : i < count) (hc : count < n) :
    head + Fin.ofNat n i ≠ head + Fin.ofNat n count := by
  intro h
  have h' : Fin.ofNat n i = Fin.ofNat n count := add_left_cancel h
  have h'' := congrArg Fin.val h'
  simp only [Fin.ofNat, Nat.mod_eq_of_lt (hi.trans hc), Nat.mod_eq_of_lt hc] at h''
  omega

/-- A write behind the window does not change it. -/
theorem window_update (q : Fin n → α) (head : Fin n) {count : ℕ} (hc : count < n) (x : α) :
    window (Function.update q (head + Fin.ofNat n count) x) head count = window q head count := by
  apply List.map_congr_left
  intro i hi
  exact Function.update_of_ne (cell_ne (List.mem_range.1 hi) hc) _ _

/-- **Push**: write the cell behind the window, then count it. -/
theorem window_push (q : Fin n → α) (head : Fin n) {count : ℕ} (hc : count < n) (x : α) :
    window (Function.update q (head + Fin.ofNat n count) x) head (count + 1) =
      window q head count ++ [x] := by
  rw [window_succ, window_update q head hc, Function.update_self]

theorem cell_ne_head {head : Fin n} {i count : ℕ} (hi : i < count) (hc : count < n) :
    head + 1 + Fin.ofNat n i ≠ head := by
  intro h
  rw [add_assoc, ← ofNat_succ] at h
  have h' : Fin.ofNat n (i + 1) = 0 := by
    have : head + Fin.ofNat n (i + 1) = head + 0 := by rw [h, add_zero]
    exact add_left_cancel this
  have h'' := congrArg Fin.val h'
  simp only [Fin.ofNat, Nat.mod_eq_of_lt (show i + 1 < n by omega), Fin.val_zero] at h''
  omega

/-- **Pop**: overwriting the head cell and moving the head on drops the first element. -/
theorem window_pop (q : Fin n → α) (head : Fin n) {count : ℕ} (hc : count < n) (x : α) :
    window (Function.update q head x) (head + 1) count = (window q head (count + 1)).tail := by
  rw [window_cons, List.tail_cons]
  apply List.map_congr_left
  intro i hi
  exact Function.update_of_ne (cell_ne_head (List.mem_range.1 hi) hc) _ _

/-! ### Overwriting the oldest -/

/-- **The contents** of a ring whose next write goes to `tail`, oldest first. -/
def trail (q : Fin n → α) (tail : Fin n) (count : ℕ) : List α :=
  window q (tail - Fin.ofNat n count) count

theorem ofNat_self : Fin.ofNat n n = 0 := by
  apply Fin.ext
  simp [Fin.ofNat]

/-- The newest element is the one before `tail`. -/
theorem trail_succ (q : Fin n → α) (tail : Fin n) (count : ℕ) :
    trail q tail (count + 1) = trail q (tail - 1) count ++ [q (tail - 1)] := by
  have hstart : tail - Fin.ofNat n (count + 1) = tail - 1 - Fin.ofNat n count := by
    rw [ofNat_succ, sub_sub]
  unfold trail
  rw [hstart, window_succ, sub_add_cancel]

/-- **A write at `tail`** appends; in a full ring the oldest element is gone. -/
theorem trail_push (q : Fin n → α) (tail : Fin n) {count : ℕ} (hc : count ≤ n) (x : α) :
    trail (Function.update q tail x) (tail + 1) (min n (count + 1)) =
      (trail q tail count ++ [x]).drop (count + 1 - n) := by
  rcases Nat.lt_or_eq_of_le hc with hlt | rfl
  · have hcell : tail = tail - Fin.ofNat n count + Fin.ofNat n count := by rw [sub_add_cancel]
    have hdrop : count + 1 - n = 0 := by omega
    have hstart : tail + 1 - Fin.ofNat n (count + 1) = tail - Fin.ofNat n count := by
      rw [ofNat_succ, add_comm tail 1, add_sub_add_left_eq_sub]
    have hpush := window_push q (tail - Fin.ofNat n count) hlt x
    rw [← hcell] at hpush
    rw [Nat.min_eq_right hlt, hdrop, List.drop_zero]
    unfold trail
    rw [hstart]
    exact hpush
  · -- the ring is full: the cell written is that of the oldest element
    obtain ⟨k, hk⟩ := Nat.exists_eq_succ_of_ne_zero (NeZero.ne count)
    have hlt : k < count := by omega
    have hdrop : count + 1 - count = 1 := by omega
    have hlast : tail + 1 + Fin.ofNat count k = tail := by
      rw [add_assoc, ← ofNat_succ, ← Nat.succ_eq_add_one, ← hk, ofNat_self, add_zero]
    have hpop := window_pop q tail hlt x
    rw [Nat.min_eq_left (Nat.le_succ _), hdrop]
    unfold trail
    rw [ofNat_self, sub_zero, sub_zero]
    have hwindow : window (Function.update q tail x) (tail + 1) (k + 1) =
        (window q tail (k + 1)).tail ++ [x] := by
      rw [window_succ, hpop, hlast, Function.update_self]
    rw [← Nat.succ_eq_add_one, ← hk] at hwindow
    rw [hwindow, ← List.drop_one, List.drop_append_of_le_length]
    rw [window_length]
    omega

end AgentOS.Ring
