import Mathlib.Data.List.FinRange
import Mathlib.Logic.Function.Basic

/-!
# Fixed-size tables

Tables scanned from slot 0: the first slot that meets a test (`first`), and clearing
every slot that meets a test (`sweep`). The used entries in the order of their slots (`entries`),
when a table is searched or swept and when its first free slot is filled.
-/

namespace AgentOS.Table

variable {α : Type*} {n : ℕ}

/-- The first slot whose entry meets `p`. -/
def first (f : Fin n → α) (p : α → Bool) : Option (Fin n) :=
  (List.finRange n).find? fun i => p (f i)

/-- Put `z` in every slot whose entry meets `p`. -/
def sweep (f : Fin n → α) (p : α → Bool) (z : α) : Fin n → α :=
  fun i => if p (f i) then z else f i

variable {f : Fin n → α} {p : α → Bool} {i : Fin n} {z : α}

theorem first_some (h : first f p = some i) : p (f i) = true :=
  List.find?_some (p := fun i => p (f i)) h

theorem first_none : first f p = none ↔ ∀ i, p (f i) = false := by
  simp [first, List.find?_eq_none]

/-- A slot that alone meets the test is the one found. -/
theorem first_eq_of_unique (hi : p (f i) = true) (hu : ∀ j, p (f j) = true → j = i) :
    first f p = some i := by
  cases h : first f p with
  | none => rw [first_none.1 h i] at hi; cases hi
  | some j => rw [hu j (first_some h)]

/-- The slot found is the lowest that meets the test. -/
theorem first_eq_of_least (hi : p (f i) = true) (hl : ∀ j < i, p (f j) = false) :
    first f p = some i := by
  unfold first
  rw [List.find?_eq_some_iff_getElem]
  refine ⟨hi, i, by simp, by simp, fun j hj => ?_⟩
  simpa using hl ⟨j, by omega⟩ hj

/-- No slot below the one found meets the test. -/
theorem first_least (h : first f p = some i) {j : Fin n} (hj : j < i) : p (f j) = false := by
  unfold first at h
  rw [List.find?_eq_some_iff_getElem] at h
  obtain ⟨-, k, hk, he, hlt⟩ := h
  simp only [List.getElem_finRange] at he
  have hjk : (j : ℕ) < k := by
    rw [← he] at hj
    exact hj
  simpa using hlt j hjk

/-- Storing an entry that meets the test exactly if the old one does changes nothing. -/
theorem first_update {x : α} (h : p x = p (f i)) : first (Function.update f i x) p = first f p := by
  have hp : (fun j => p (Function.update f i x j)) = fun j => p (f j) := by
    funext j
    by_cases hj : j = i
    · subst hj
      rw [Function.update_self, h]
    · rw [Function.update_of_ne hj]
  unfold first
  rw [hp]

theorem sweep_of_false (h : p (f i) = false) : sweep f p z i = f i := by simp [sweep, h]

theorem sweep_of_true (h : p (f i) = true) : sweep f p z i = z := by simp [sweep, h]

/-- A swept slot is cleared or unchanged. -/
theorem sweep_cases (f : Fin n → α) (p : α → Bool) (z : α) (i : Fin n) :
    (p (f i) = true ∧ sweep f p z i = z) ∨ (p (f i) = false ∧ sweep f p z i = f i) := by
  cases h : p (f i)
  · exact .inr ⟨rfl, sweep_of_false h⟩
  · exact .inl ⟨rfl, sweep_of_true h⟩

/-- A stored slot has the new entry, and the others are as before. -/
theorem update_cases (f : Fin n → α) (i : Fin n) (x : α) (j : Fin n) :
    (j = i ∧ Function.update f i x j = x) ∨ (j ≠ i ∧ Function.update f i x j = f j) := by
  by_cases hj : j = i
  · exact .inl ⟨hj, by rw [hj, Function.update_self]⟩
  · exact .inr ⟨hj, Function.update_of_ne hj ..⟩

/-! ### The entries in order -/

/-- The entries that meet `p`, in the order of their slots. -/
def entries (f : Fin n → α) (p : α → Bool) : List α := ((List.finRange n).map f).filter p

/-- The entries before slot `i`. -/
def before (f : Fin n → α) (i : Fin n) : List α := ((List.finRange n).map f).take i

/-- The entries behind slot `i`. -/
def behind (f : Fin n → α) (i : Fin n) : List α := ((List.finRange n).map f).drop (i + 1)

/-- A search among the entries is one in the list of them. -/
theorem first_map {q : α → Bool} :
    (first f fun x => p x && q x).map f = (entries f p).find? q := by
  unfold first entries
  rw [List.find?_filter, List.find?_map]
  congr 2
  funext i
  simp

theorem entries_sweep {q : α → Bool} (hz : p z = false) :
    entries (sweep f q z) p = (entries f p).filter fun x => !q x := by
  unfold entries
  rw [List.filter_filter, List.filter_map, List.filter_map]
  have hkeep : ∀ i, (p ∘ sweep f q z) i = ((fun x => !q x && p x) ∘ f) i := by
    intro i
    rcases sweep_cases f q z i with ⟨hq, e⟩ | ⟨hq, e⟩
    · simp [e, hz, hq]
    · simp [e, hq]
  rw [List.filter_congr fun i _ => hkeep i]
  refine List.map_congr_left fun i hi => sweep_of_false ?_
  have hp := (List.mem_filter.1 hi).2
  simp only [Function.comp_apply, Bool.and_eq_true, Bool.not_eq_true'] at hp
  exact hp.1

/-- Before the first free slot all are used. -/
theorem filter_before (h : first f (fun x => !p x) = some i) :
    (before f i).filter p = before f i := by
  rw [List.filter_eq_self]
  intro x hx
  obtain ⟨k, hk, rfl⟩ := List.mem_take_iff_getElem.1 hx
  have hki : k < i := (Nat.lt_min.1 hk).1
  have hkn : k < n := by omega
  have hp := first_least h (j := ⟨k, hkn⟩) hki
  simpa using hp

/-- The entries of a table with a free slot. -/
theorem entries_of_first (h : first f (fun x => !p x) = some i) :
    entries f p = before f i ++ (behind f i).filter p := by
  have hlt : (i : ℕ) < ((List.finRange n).map f).length := by simp
  have hi : p (f i) = false := by simpa using first_some h
  have hsplit : (List.finRange n).map f = before f i ++ f i :: behind f i := by
    unfold before behind
    conv_lhs => rw [← List.take_append_drop i ((List.finRange n).map f), List.drop_eq_getElem_cons hlt]
    simp
  unfold entries
  rw [hsplit, List.filter_append, filter_before h, List.filter_cons, hi]
  rfl

/-- **The first free slot is filled**: the entry comes behind those before the slot. -/
theorem entries_update {x : α} (h : first f (fun x => !p x) = some i) (hx : p x = true) :
    entries (Function.update f i x) p = before f i ++ x :: (behind f i).filter p := by
  have hlt : (i : ℕ) < ((List.finRange n).map f).length := by simp
  have hset : (List.finRange n).map (Function.update f i x) = before f i ++ x :: behind f i := by
    have hold : (List.finRange n).map (Function.update f i x) = ((List.finRange n).map f).set i x := by
      refine List.ext_getElem (by simp) fun k hk hk' => ?_
      simp only [List.getElem_map, List.getElem_finRange, List.getElem_set, Function.update_apply,
        Fin.ext_iff]
      simp [eq_comm]
    rw [hold, List.set_eq_take_append_cons_drop, if_pos hlt]
    rfl
  unfold entries
  rw [hset, List.filter_append, filter_before h, List.filter_cons, if_pos hx]

/-- A table without a free slot. -/
theorem length_entries (h : first f (fun x => !p x) = none) : (entries f p).length = n := by
  unfold entries
  rw [List.filter_eq_self.2]
  · simp
  · intro x hx
    obtain ⟨i, -, rfl⟩ := List.mem_map.1 hx
    simpa using first_none.1 h i

theorem length_entries_lt (h : p (f i) = false) : (entries f p).length < n := by
  have hlt := List.length_filter_lt_length_iff_exists (p := p) (l := (List.finRange n).map f)
  rw [List.length_map, List.length_finRange] at hlt
  exact hlt.2 ⟨f i, List.mem_map_of_mem (List.mem_finRange i), by simp [h]⟩

end AgentOS.Table
