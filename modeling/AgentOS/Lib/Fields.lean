import Mathlib.Data.List.Infix
import Mathlib.Data.List.TakeWhile

/-!
# Lists with a delimiter

A list `s ++ d :: t` whose first field `s` has no delimiter `d`.

* `takeWhile_field`, `dropWhile_field`, `field_inj`: the first field and the rest.
* `prefix_field_iff`, `infix_fields_iff`: where a list without the delimiter occurs.
* `occurs_behind`: what does not occur in the first field occurs behind the delimiter.
* `infix_across_iff`: where a list with one delimiter occurs. It ends one field and begins the
  next, or it lies in the rest.
-/

namespace AgentOS.Fields

variable {α : Type*} {d : α} {a b k n₁ n₂ s t : List α}

section

variable [DecidableEq α]

theorem bne_of_notMem (hs : d ∉ s) : ∀ x ∈ s, (x != d) = true := by
  intro x hx
  have hne : x ≠ d := fun he => hs (he ▸ hx)
  simpa using hne

theorem takeWhile_field (hs : d ∉ s) : (s ++ d :: t).takeWhile (· != d) = s := by
  rw [List.takeWhile_append_of_pos (bne_of_notMem hs), List.takeWhile_cons_of_neg (by simp),
    List.append_nil]

theorem dropWhile_field (hs : d ∉ s) : (s ++ d :: t).dropWhile (· != d) = d :: t := by
  rw [List.dropWhile_append_of_pos (bne_of_notMem hs), List.dropWhile_cons_of_neg (by simp)]

theorem takeWhile_last (hs : d ∉ s) : s.takeWhile (· != d) = s :=
  List.takeWhile_eq_self_iff.2 (bne_of_notMem hs)

theorem dropWhile_last (hs : d ∉ s) : s.dropWhile (· != d) = [] :=
  List.dropWhile_eq_nil_iff.2 (bne_of_notMem hs)

/-- The first field and the rest are determined. -/
theorem field_inj (ha : d ∉ a) (hs : d ∉ s) (h : a ++ d :: b = s ++ d :: t) : a = s ∧ b = t := by
  have hfirst := congrArg (List.takeWhile (· != d)) h
  rw [takeWhile_field ha, takeWhile_field hs] at hfirst
  subst hfirst
  exact ⟨rfl, (List.cons.inj (List.append_cancel_left h)).2⟩

end

/-- A list without the delimiter begins the first field, if it begins the whole. -/
theorem prefix_field_iff (hk : d ∉ k) : k <+: s ++ d :: t ↔ k <+: s := by
  constructor
  · intro h
    rcases List.prefix_or_prefix_of_prefix h (List.prefix_append s (d :: t)) with hks | hsk
    · exact hks
    · obtain ⟨u, rfl⟩ := hsk
      rw [List.prefix_append_right_inj] at h
      cases u with
      | nil => simp
      | cons c u =>
        -- `k` would go on behind the first field with the delimiter
        obtain ⟨rfl, -⟩ := List.cons_prefix_cons.1 h
        simp at hk
  · exact List.prefix_append_of_prefix

/-- A list without the delimiter occurs before the delimiter or behind it. -/
theorem infix_fields_iff (hk : d ∉ k) : k <:+: s ++ d :: t ↔ k <:+: s ∨ k <:+: t := by
  rw [List.infix_append_iff]
  constructor
  · rintro (h | h | ⟨l₁, l₂, rfl, h₁, h₂⟩)
    · exact Or.inl h
    · rcases List.infix_cons_iff.1 h with h | h
      · rcases List.prefix_cons_iff.1 h with rfl | ⟨u, rfl, -⟩
        · exact Or.inl (List.nil_infix)
        · simp at hk
      · exact Or.inr h
    · rcases List.prefix_cons_iff.1 h₂ with rfl | ⟨u, rfl, -⟩
      · rw [List.append_nil]
        exact Or.inl h₁.isInfix
      · simp at hk
  · rintro (h | h)
    · exact Or.inl h
    · exact Or.inr (Or.inl (List.infix_cons h))

/-- An occurrence that is not in the first field. -/
theorem occurs_behind (hk : d ∉ k) (hs : ¬ k <:+: s) (h : a ++ k ++ b = s ++ d :: t) :
    ∃ c, a = s ++ d :: c ∧ c ++ k ++ b = t := by
  rw [List.append_assoc] at h
  rcases List.append_eq_append_iff.1 h with ⟨e, rfl, he⟩ | ⟨e, rfl, he⟩
  · -- it would begin in the first field, and `k` does not go over the delimiter
    exfalso
    have hpre : k <+: e ++ d :: t := ⟨b, he⟩
    rw [prefix_field_iff hk] at hpre
    exact hs (hpre.isInfix.trans (List.suffix_append _ _).isInfix)
  · cases e with
    | nil =>
      have hpre : k <+: [] ++ d :: t := ⟨b, by simpa using he.symm⟩
      rw [prefix_field_iff hk, List.prefix_nil] at hpre
      exact absurd (hpre ▸ List.nil_infix) hs
    | cons x e =>
      obtain ⟨rfl, rfl⟩ := List.cons.inj he
      exact ⟨e, rfl, by simp⟩

/-- A list with one delimiter: it lies across the first delimiter or behind it. -/
theorem infix_across_iff (h₁ : d ∉ n₁) (hs : d ∉ s) :
    n₁ ++ d :: n₂ <:+: s ++ d :: t ↔ (n₁ <:+ s ∧ n₂ <+: t) ∨ n₁ ++ d :: n₂ <:+: t := by
  constructor
  · rintro ⟨a, b, h⟩
    have happ : a ++ (n₁ ++ d :: (n₂ ++ b)) = s ++ d :: t := by
      rw [← h]
      simp
    rcases List.append_eq_append_iff.1 happ with ⟨c, rfl, hc⟩ | ⟨c, rfl, hc⟩
    · -- the occurrence begins in the first field
      have hn : d ∉ c := fun hmem => hs (List.mem_append_right _ hmem)
      have hlen := List.append_eq_append_iff.1 hc
      rcases hlen with ⟨e, rfl, he⟩ | ⟨e, rfl, he⟩
      · cases e with
        | nil =>
          obtain ⟨-, rfl⟩ := List.cons.inj he
          rw [List.append_nil]
          exact Or.inl ⟨List.suffix_append _ _, List.prefix_append _ _⟩
        | cons x e =>
          obtain ⟨rfl, -⟩ := List.cons.inj he
          simp at hn
      · cases e with
        | nil =>
          obtain ⟨-, rfl⟩ := List.cons.inj he
          exact Or.inl ⟨by simp, List.prefix_append _ _⟩
        | cons x e =>
          obtain ⟨rfl, -⟩ := List.cons.inj he
          simp at h₁
    · cases c with
      | nil =>
        cases n₁ with
        | nil =>
          obtain ⟨-, rfl⟩ := List.cons.inj hc
          exact Or.inl ⟨List.nil_suffix, List.prefix_append _ _⟩
        | cons x n₁ =>
          obtain ⟨rfl, -⟩ := List.cons.inj hc
          simp at h₁
      | cons x c =>
        obtain ⟨rfl, rfl⟩ := List.cons.inj hc
        exact Or.inr ⟨c, b, by simp⟩
  · rintro (⟨⟨a, rfl⟩, ⟨b, rfl⟩⟩ | ⟨a, b, rfl⟩)
    · exact ⟨a, b, by simp⟩
    · exact ⟨s ++ d :: a, b, by simp⟩

end AgentOS.Fields
