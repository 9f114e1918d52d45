import Mathlib.Data.Fintype.Card

/-!
# Counting holders

Each of finitely many parties holds at most one key; a record for a key counts its
holders. `key` maps a party to the key it holds.

* `holders_take`, `holders_drop`: one party takes or drops a key.
* `holders_pos`: a held key has a positive count.
* `holders_eq_one`: the only holder of a key leaves none.
-/

namespace AgentOS.RefCount

variable {ι κ : Type*} [Fintype ι] [DecidableEq κ]

/-- The number of parties that hold `k`. -/
def holders (key : ι → Option κ) (k : κ) : ℕ :=
  (Finset.univ.filter fun i => key i = some k).card

variable {key : ι → Option κ} {i j : ι} {k k' : κ}

theorem holders_eq_zero : holders key k = 0 ↔ ∀ i, key i ≠ some k := by
  simp [holders, Finset.filter_eq_empty_iff]

theorem holders_pos (h : key i = some k) : 0 < holders key k :=
  Nat.pos_of_ne_zero fun h0 => holders_eq_zero.1 h0 i h

variable [DecidableEq ι]

/-- A party without a key takes `k`. -/
theorem holders_take (h : key i = none) :
    holders (Function.update key i (some k)) k' =
      holders key k' + if k = k' then 1 else 0 := by
  unfold holders
  by_cases hk : k = k'
  · subst hk
    have hset : (Finset.univ.filter fun j => Function.update key i (some k) j = some k) =
        insert i (Finset.univ.filter fun j => key j = some k) := by
      ext j
      by_cases hj : j = i <;> simp [Function.update_apply, hj]
    rw [hset, Finset.card_insert_of_notMem (by simp [h])]
    simp
  · have hset : (Finset.univ.filter fun j => Function.update key i (some k) j = some k') =
        Finset.univ.filter fun j => key j = some k' := by
      ext j
      by_cases hj : j = i <;> simp [Function.update_apply, hj, hk, h]
    rw [hset]
    simp [hk]

/-- A party drops its key. -/
theorem holders_drop (h : key i = some k) :
    holders (Function.update key i none) k' + (if k = k' then 1 else 0) = holders key k' := by
  have hback : Function.update (Function.update key i none) i (some k) = key := by
    rw [Function.update_idem, ← h, Function.update_eq_self]
  rw [← holders_take (Function.update_self ..), hback]

/-- The only holder of a key leaves none. -/
theorem holders_eq_one (h : key i = some k) (h1 : holders key k = 1) (hj : key j = some k) :
    j = i := by
  have hd : holders (Function.update key i none) k + _ = _ := holders_drop h
  rw [h1, if_pos rfl] at hd
  by_contra hji
  refine holders_eq_zero.1 (by omega : holders (Function.update key i none) k = 0) j ?_
  rw [Function.update_of_ne hji, hj]

end AgentOS.RefCount
