import Mathlib.Logic.ExistsUnique

/-!
# Resources with exactly one holder

Cells hold resources, or nothing (`nil`), and every resource in use is held by exactly one cell.

* `Owned.unique`: the holder of a resource in use.
* `Owned.take`: an empty cell takes a resource that is not in use.
* `Owned.release`: a set of cells gives up what it holds.
* `Owned.transfer`: a cell hands over what it holds.
-/

namespace AgentOS

/-- The resources that are `used` are those that the cells `own`, each held once. -/
structure Owned {R C : Type*} (used : R → Prop) (nil : R) (own : C → R) : Prop where
  inUse : ∀ c, own c ≠ nil → used (own c)
  inj : ∀ c c', own c ≠ nil → own c = own c' → c = c'
  held : ∀ r, used r → ∃ c, own c = r
  nil_free : ¬used nil

namespace Owned

variable {R C : Type*} {used used' : R → Prop} {nil r : R} {own own' : C → R} {c : C}

theorem ne_nil (h : Owned used nil own) (hr : used r) : r ≠ nil := by
  rintro rfl
  exact h.nil_free hr

/-- **A resource in use has one holder.** -/
theorem unique (h : Owned used nil own) (hr : used r) : ∃! c, own c = r := by
  obtain ⟨c, hc⟩ := h.held r hr
  refine ⟨c, hc, fun c' hc' => ?_⟩
  have hne : own c' ≠ nil := by
    rw [hc']
    exact h.ne_nil hr
  exact h.inj _ _ hne (hc'.trans hc.symm)

/-- **A cell takes a resource.** -/
theorem take (h : Owned used nil own) (hc : own c = nil) (hr : ¬used r) (hnr : r ≠ nil)
    (hself : own' c = r) (hother : ∀ c', c' ≠ c → own' c' = own c')
    (hused : ∀ x, used' x ↔ used x ∨ x = r) : Owned used' nil own' := by
  have hfresh : ∀ c', own c' ≠ r := by
    intro c' he
    have hne : own c' ≠ nil := by
      rw [he]
      exact hnr
    exact hr (he ▸ h.inUse c' hne)
  refine ⟨?_, ?_, ?_, ?_⟩
  · intro c' hne
    rw [hused]
    by_cases hcc : c' = c
    · subst hcc
      exact Or.inr hself
    · rw [hother c' hcc] at hne ⊢
      exact Or.inl (h.inUse c' hne)
  · intro a b hne hab
    by_cases ha : a = c
    · by_cases hb : b = c
      · exact ha.trans hb.symm
      · rw [ha, hself, hother b hb] at hab
        exact absurd hab.symm (hfresh b)
    · rw [hother a ha] at hne hab
      by_cases hb : b = c
      · rw [hb, hself] at hab
        exact absurd hab (hfresh a)
      · rw [hother b hb] at hab
        exact h.inj a b hne hab
  · intro x hx
    rcases (hused x).1 hx with hx | rfl
    · obtain ⟨c', hc'⟩ := h.held x hx
      have hcc : c' ≠ c := by
        rintro rfl
        exact h.ne_nil hx (hc'.symm.trans hc)
      exact ⟨c', (hother c' hcc).trans hc'⟩
    · exact ⟨c, hself⟩
  · rw [hused]
    exact fun ho => ho.elim h.nil_free fun he => hnr he.symm

/-- **Cells give up what they hold.** -/
theorem release (h : Owned used nil own) (S : C → Prop) (hS : ∀ c, S c → own' c = nil)
    (hother : ∀ c, ¬S c → own' c = own c)
    (hused : ∀ x, used' x ↔ used x ∧ ∀ c, S c → own c ≠ x) : Owned used' nil own' := by
  refine ⟨?_, ?_, ?_, ?_⟩
  · intro c hne
    have hc : ¬S c := fun hc => hne (hS c hc)
    rw [hother c hc] at hne ⊢
    refine (hused _).2 ⟨h.inUse c hne, fun c' hc' he => ?_⟩
    have hcc := h.inj c c' hne he.symm
    exact hc (hcc ▸ hc')
  · intro a b hne hab
    have ha : ¬S a := fun ha => hne (hS a ha)
    by_cases hb : S b
    · rw [hS b hb] at hab
      exact absurd hab hne
    · rw [hother a ha] at hne hab
      rw [hother b hb] at hab
      exact h.inj a b hne hab
  · intro x hx
    obtain ⟨hx, hno⟩ := (hused x).1 hx
    obtain ⟨c, hc⟩ := h.held x hx
    refine ⟨c, ?_⟩
    rw [hother c fun hs => hno c hs hc]
    exact hc
  · intro hx
    exact h.nil_free ((hused _).1 hx).1

/-- **A cell hands over what it holds** to an empty one. -/
theorem transfer {d : C} (h : Owned used nil own) (hc : own c = r) (hr : r ≠ nil)
    (hd : own d = nil) (hc' : own' c = nil) (hd' : own' d = r)
    (hother : ∀ x, x ≠ c → x ≠ d → own' x = own x) : Owned used nil own' := by
  have hcd : c ≠ d := by
    rintro rfl
    exact hr (hc.symm.trans hd)
  -- every cell that holds something now holds what some cell held before
  have hback : ∀ x, own' x ≠ nil → ∃ y, own y = own' x ∧ (x = d ∧ y = c ∨ x = y ∧ x ≠ c ∧ x ≠ d) := by
    intro x hx
    by_cases hxd : x = d
    · exact ⟨c, by rw [hxd, hc, hd'], .inl ⟨hxd, rfl⟩⟩
    · have hxc : x ≠ c := by
        rintro rfl
        exact hx hc'
      exact ⟨x, (hother x hxc hxd).symm, .inr ⟨rfl, hxc, hxd⟩⟩
  refine ⟨fun x hx => ?_, fun x y hx hxy => ?_, fun z hz => ?_, h.nil_free⟩
  · obtain ⟨y, hy, -⟩ := hback x hx
    rw [← hy] at hx ⊢
    exact h.inUse y hx
  · have hy : own' y ≠ nil := by
      rw [← hxy]
      exact hx
    obtain ⟨a, ha, hax⟩ := hback x hx
    obtain ⟨b, hb, hby⟩ := hback y hy
    rw [← ha] at hx
    have hab := h.inj a b hx (ha.trans (hxy.trans hb.symm))
    rcases hax with ⟨rfl, rfl⟩ | ⟨rfl, hxc, -⟩
    · rcases hby with ⟨rfl, -⟩ | ⟨rfl, hyc, -⟩
      · rfl
      · exact absurd hab.symm hyc
    · rcases hby with ⟨rfl, rfl⟩ | ⟨rfl, -, -⟩
      · exact absurd hab hxc
      · exact hab
  · obtain ⟨x, hx⟩ := h.held z hz
    by_cases hxc : x = c
    · refine ⟨d, ?_⟩
      rw [hd', ← hc, ← hxc]
      exact hx
    · have hxd : x ≠ d := by
        rintro rfl
        exact h.ne_nil hz (hx.symm.trans hd)
      exact ⟨x, (hother x hxc hxd).trans hx⟩

end Owned

end AgentOS
