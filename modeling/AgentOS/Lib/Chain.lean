import Mathlib.Data.Fintype.Card
import Mathlib.Data.List.Basic
import Mathlib.Logic.Function.Basic

/-!
# Linked lists in an array

Nodes are indices, and `next` gives the successor of each; a head is `none` or the first node.

* `Linked next s l`: the list that starts at `s` runs through the nodes `l`.
* `fold next f fuel s a`: the loop `for(i = s; i != none; i = next[i]) a = f(a, i)`.
* `Linked.fold`: on a linked list the loop ends, and it is the fold over its nodes.
* `Linked.push`, `Linked.frame`: a store in a node that is not on a list leaves it as it is, and
  a new head extends it.
* `Reaches`: the nodes met on the way from a head; `Linked.reaches`: on a linked list, its nodes.
* `Linked.append`, `Linked.remove`: a new last node, and taking a node out behind another.
* `find`, `last`: the loops that stop at a node, and that run to the last one.
-/

namespace AgentOS.Chain

variable {ι α : Type*}

/-- The list that starts at `s` runs through the nodes `l`. -/
inductive Linked (next : ι → Option ι) : Option ι → List ι → Prop
  | nil : Linked next none []
  | cons {i : ι} {l : List ι} : Linked next (next i) l → Linked next (some i) (i :: l)

/-- Node `x` is met on the way from `s`. -/
inductive Reaches (next : ι → Option ι) : Option ι → ι → Prop
  | here (i : ι) : Reaches next (some i) i
  | there {i x : ι} : Reaches next (next i) x → Reaches next (some i) x

/-- The loop over the list that starts at `s`; `none` when the fuel does not suffice. -/
def fold (next : ι → Option ι) (f : α → ι → α) : ℕ → Option ι → α → Option α
  | _, none, a => some a
  | 0, some _, _ => none
  | fuel + 1, some i, a => fold next f fuel (next i) (f a i)

/-- The search `while(i != none && !p(i)) { pre = i; i = next[i]; }`: the node before the one found,
and the node; `none` when the fuel does not suffice. -/
def find (next : ι → Option ι) (p : ι → Bool) :
    ℕ → Option ι → Option ι → Option (Option ι × Option ι)
  | _, pre, none => some (pre, none)
  | 0, _, some _ => none
  | fuel + 1, pre, some i =>
    if p i then some (pre, some i) else find next p fuel (some i) (next i)

/-- The last node of the list that starts at `s`. -/
def last (next : ι → Option ι) (fuel : ℕ) (s : Option ι) : Option (Option ι) :=
  fold next (fun _ i => some i) fuel s none

variable {next next' : ι → Option ι} {s : Option ι} {l l' : List ι} {i x : ι} {f : α → ι → α}

/-- **The loop over a linked list.** -/
theorem Linked.fold (h : Linked next s l) {fuel : ℕ} (hf : l.length ≤ fuel) (a : α) :
    fold next f fuel s a = some (l.foldl f a) := by
  induction h generalizing fuel a with
  | nil => cases fuel <;> rfl
  | cons _ ih =>
    cases fuel with
    | zero => simp at hf
    | succ fuel => exact ih (by simpa using hf) _

/-- What the body keeps, the loop keeps. -/
theorem fold_inv {P : α → Prop} (step : ∀ a i, P a → P (f a i)) {fuel : ℕ} {a b : α} (ha : P a)
    (h : Chain.fold next f fuel s a = some b) : P b := by
  induction fuel generalizing s a with
  | zero =>
    cases s with
    | none =>
      cases h
      exact ha
    | some i => cases h
  | succ fuel ih =>
    cases s with
    | none =>
      cases h
      exact ha
    | some i => exact ih (step a i ha) h

/-- The loop is the fold over the nodes that it meets. -/
theorem fold_eq_foldl (a : α) (l : List ι) (fuel : ℕ) :
    Chain.fold next f fuel s (l.foldl f a) =
      (Chain.fold next (fun l i => l ++ [i]) fuel s l).map fun l => l.foldl f a := by
  induction fuel generalizing s l with
  | zero => cases s <;> rfl
  | succ fuel ih =>
    cases s with
    | none => rfl
    | some i =>
      have hstep := ih (s := next i) (l ++ [i])
      rw [List.foldl_append] at hstep
      exact hstep

/-- The list depends on the links of its own nodes only. -/
theorem Linked.frame (h : Linked next s l) (hn : ∀ i ∈ l, next' i = next i) :
    Linked next' s l := by
  induction h with
  | nil => exact .nil
  | @cons i l _ ih =>
    have hi : next' i = next i := hn i (by simp)
    have ht := ih fun j hj => hn j (by simp [hj])
    rw [← hi] at ht
    exact .cons ht

/-- **Insertion at the head.** -/
theorem Linked.push [DecidableEq ι] (h : Linked next s l) (hi : i ∉ l) :
    Linked (Function.update next i s) (some i) (i :: l) := by
  refine .cons ?_
  rw [Function.update_self]
  refine h.frame fun j hj => ?_
  rw [Function.update_of_ne]
  rintro rfl
  exact hi hj

/-! ### The nodes of a list -/

/-- A head starts one list. -/
theorem Linked.unique (h : Linked next s l) (h' : Linked next s l') : l = l' := by
  induction h generalizing l' with
  | nil => cases h'; rfl
  | cons _ ih =>
    cases h' with
    | cons h' => rw [ih h']

/-- Behind every node of a list a shorter list starts. -/
theorem Linked.tail_of_mem (h : Linked next s l) (hx : x ∈ l) :
    ∃ a b, l = a ++ x :: b ∧ Linked next (next x) b := by
  induction h with
  | nil => cases hx
  | @cons i l ht ih =>
    rcases List.mem_cons.1 hx with rfl | hx
    · exact ⟨[], l, rfl, ht⟩
    · obtain ⟨a, b, rfl, hb⟩ := ih hx
      exact ⟨i :: a, b, rfl, hb⟩

/-- **A list that ends passes no node twice.** -/
theorem Linked.nodup (h : Linked next s l) : l.Nodup := by
  induction h with
  | nil => exact List.nodup_nil
  | @cons i l ht ih =>
    refine List.nodup_cons.2 ⟨fun hi => ?_, ih⟩
    -- a second visit would start the same list again, further down
    obtain ⟨a, b, hl, hb⟩ := ht.tail_of_mem hi
    have hlen := congrArg List.length hl
    rw [ht.unique hb] at hlen
    simp only [List.length_append, List.length_cons] at hlen
    omega

theorem Linked.reaches (h : Linked next s l) : Reaches next s x ↔ x ∈ l := by
  induction h with
  | nil =>
    constructor
    · intro hx
      cases hx
    · intro hx
      cases hx
  | @cons i l _ ih =>
    rw [List.mem_cons]
    constructor
    · intro hx
      cases hx with
      | here => exact .inl rfl
      | there hx => exact .inr (ih.1 hx)
    · rintro (rfl | hx)
      · exact .here _
      · exact .there (ih.2 hx)

theorem Linked.head (h : Linked next s l) : s = l.head? := by
  cases h <;> rfl

/-- A linked list over finitely many nodes is no longer than their number. -/
theorem Linked.length_le [Fintype ι] (h : Linked next s l) : l.length ≤ Fintype.card ι :=
  h.nodup.length_le_card

section

variable [DecidableEq ι] {a b : List ι} {q : ι}

/-- **A new last node.** -/
theorem Linked.append (h : Linked next s l) (hi : i ∉ l) (hq : l.getLast? = some q) :
    Linked (Function.update (Function.update next i none) q (some i)) s (l ++ [i]) := by
  induction h with
  | nil => cases hq
  | @cons j l ht ih =>
    have hij : i ≠ j := fun he => hi (by simp [he])
    refine .cons ?_
    cases l with
    | nil =>
      obtain rfl : j = q := Option.some.inj hq
      rw [Function.update_self]
      refine .cons ?_
      rw [Function.update_of_ne hij, Function.update_self]
      exact .nil
    | cons j' l =>
      rw [List.getLast?_cons_cons] at hq
      have hnd := (Linked.cons ht).nodup
      have hjq : j ≠ q := by
        rintro rfl
        exact (List.nodup_cons.1 hnd).1 (List.mem_of_getLast? hq)
      rw [Function.update_of_ne hjq, Function.update_of_ne hij.symm]
      exact ih (fun h => hi (List.mem_cons_of_mem _ h)) hq

/-- **Taking out** the node `x` behind `q`. -/
theorem Linked.remove (h : Linked next s (a ++ q :: x :: b)) :
    Linked (Function.update next q (next x)) s (a ++ q :: b) := by
  have hnd := h.nodup
  induction a generalizing s with
  | nil =>
    cases h with
    | cons h =>
      rename_i hs
      generalize hn : next q = n at h
      cases h with
      | cons h =>
        refine .cons ?_
        rw [Function.update_self]
        refine h.frame fun j hj => ?_
        rw [Function.update_of_ne]
        rintro rfl
        simp [hj] at hnd
  | cons j a ih =>
    rw [List.cons_append] at h hnd
    have hjq : j ≠ q := by
      rintro rfl
      simp at hnd
    cases h with
    | cons h =>
      rw [List.cons_append]
      refine .cons ?_
      rw [Function.update_of_ne hjq]
      exact ih h (List.nodup_cons.1 hnd).2

end

/-! ### The loops -/

/-- **The search on a linked list**: it passes the whole list, or it stops at the first node that
meets the test. -/
theorem Linked.find (h : Linked next s l) {p : ι → Bool} {fuel : ℕ} (hf : l.length ≤ fuel)
    (pre : Option ι) :
    (Chain.find next p fuel pre s = some (l.getLast?.or pre, none) ∧ ∀ x ∈ l, p x = false) ∨
    ∃ a x b, l = a ++ x :: b ∧ Chain.find next p fuel pre s = some (a.getLast?.or pre, some x) ∧
      p x = true ∧ ∀ y ∈ a, p y = false := by
  induction h generalizing fuel pre with
  | nil => cases fuel <;> exact .inl ⟨rfl, by simp⟩
  | @cons i l _ ih =>
    cases fuel with
    | zero => simp at hf
    | succ fuel =>
      simp only [Chain.find]
      by_cases hi : p i = true
      · exact .inr ⟨[], i, l, rfl, by rw [if_pos hi]; rfl, hi, by simp⟩
      have hi' : p i = false := by simpa using hi
      rw [if_neg hi]
      rcases ih (by simpa using hf) (some i) with ⟨hr, hn⟩ | ⟨a, x, b, rfl, hr, hx, hn⟩
      · refine .inl ⟨?_, by simpa [hi'] using hn⟩
        rw [hr]
        cases l <;> simp [List.getLast?_cons]
      · refine .inr ⟨i :: a, x, b, rfl, ?_, hx, by simpa [hi'] using hn⟩
        rw [hr]
        cases a <;> simp [List.getLast?_cons]

theorem Linked.last (h : Linked next s l) {fuel : ℕ} (hf : l.length ≤ fuel) :
    Chain.last next fuel s = some l.getLast? := by
  have hl : ∀ a : Option ι, l.foldl (fun _ i => some i) a = l.getLast?.or a := by
    intro a
    induction l using List.reverseRecOn with
    | nil => rfl
    | append_singleton l i _ => simp
  unfold Chain.last
  rw [h.fold hf, hl]
  simp

end AgentOS.Chain
