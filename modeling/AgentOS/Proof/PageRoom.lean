import AgentOS.Proof.PageGrow

/-!
# How much memory a call needs

A page of user memory takes three free pages at most: itself, and a page table page of each of the
two lower levels. So `uvmalloc` and `uvmcopy` find too little memory only when there are fewer than
three free pages for each page that they are to make (`Takes`, `growLoop_takes`, `copyLoop_takes`).
-/

namespace AgentOS

namespace Kmem

variable {R : Ram} {m m' m₁ : Kmem R} {r r' t f : R.Frame} {i : Fin 512} {a n k lo : ℕ}
  {perm : BitVec 32} {ok : Bool} {b : ℕ → UInt8}

/-- What succeeds takes at most `n` free pages; for what fails there are fewer. -/
def Takes (n : ℕ) (m : Kmem R) (ok : Bool) (m' : Kmem R) : Prop :=
  if ok then m.freelist.length ≤ m'.freelist.length + n else m.freelist.length < n

theorem Takes.none (m : Kmem R) : Takes 0 m true m := Nat.le_refl _

theorem Takes.trans (h : Takes n m true m₁) (h' : Takes k m₁ ok m') : Takes (n + k) m ok m' := by
  unfold Takes at h h' ⊢
  rw [if_pos rfl] at h
  split
  · rename_i hok
    rw [if_pos hok] at h'
    omega
  · rename_i hok
    rw [if_neg hok] at h'
    omega

/-- What has failed has failed. -/
theorem Takes.fails (h : Takes n m false m₁) (hle : n ≤ k) : Takes k m false m' :=
  Nat.lt_of_lt_of_le h hle

theorem kalloc_takes (ha : m.kalloc = some (f, m')) : Takes 1 m true m' := by
  obtain ⟨l, hl, hfl, -⟩ := kalloc_cases ha
  unfold Takes
  rw [if_pos rfl, hl, hfl]
  exact Nat.le_refl _

theorem kalloc_none (ha : m.kalloc = none) : m.freelist = [] := by
  unfold Kmem.kalloc at ha
  cases hl : m.freelist with
  | nil => rfl
  | cons f l =>
    rw [hl] at ha
    cases ha

theorem kalloc_fails (ha : m.kalloc = none) : Takes 1 m false m' := by
  unfold Takes
  rw [if_neg Bool.false_ne_true, kalloc_none ha]
  exact Nat.one_pos

/-! ### Walking -/

theorem walkRound_takes {c : Option R.Frame} (hw : m.walkRound true t i = some (c, m')) :
    Takes 1 m c.isSome m' := by
  unfold walkRound at hw
  obtain ⟨e, -, hw⟩ := Option.bind_eq_some_iff.1 hw
  split at hw
  · obtain ⟨c', -, hw⟩ := Option.bind_eq_some_iff.1 hw
    obtain ⟨rfl, rfl⟩ := Prod.mk.inj (Option.some.inj hw)
    exact Nat.le_succ _
  · rw [if_pos rfl] at hw
    cases ha : m.kalloc with
    | none =>
      rw [ha] at hw
      obtain ⟨rfl, rfl⟩ := Prod.mk.inj (Option.some.inj hw)
      exact kalloc_fails ha
    | some y =>
      obtain ⟨f, m₁⟩ := y
      rw [ha] at hw
      obtain ⟨rfl, rfl⟩ := Prod.mk.inj (Option.some.inj hw)
      have h1 := kalloc_takes ha
      unfold Takes at h1 ⊢
      rw [freelist_setPte]
      exact h1

theorem walk_takes {c : Option (R.Frame × Fin 512)} (hw : m.walk t a true = some (c, m')) :
    Takes 2 m c.isSome m' := by
  unfold walk at hw
  split at hw
  · cases hw
  obtain ⟨⟨c₁, m₁⟩, h1, hw⟩ := Option.bind_eq_some_iff.1 hw
  have ht := walkRound_takes h1
  cases c₁ with
  | none =>
    obtain ⟨rfl, rfl⟩ := Prod.mk.inj (Option.some.inj hw)
    exact ht.fails (by decide)
  | some t₁ =>
    obtain ⟨⟨c₂, m₂⟩, h2, hw⟩ := Option.bind_eq_some_iff.1 hw
    obtain ⟨rfl, rfl⟩ := Prod.mk.inj (Option.some.inj hw)
    rw [Option.isSome_map]
    exact ht.trans (walkRound_takes h2)

theorem walkRound_same {c : Option R.Frame} (hw : m.walkRound false t i = some (c, m')) :
    m' = m := by
  unfold walkRound at hw
  obtain ⟨e, -, hw⟩ := Option.bind_eq_some_iff.1 hw
  split at hw
  · obtain ⟨c', -, hw⟩ := Option.bind_eq_some_iff.1 hw
    exact (Prod.mk.inj (Option.some.inj hw)).2.symm
  · exact (Prod.mk.inj (Option.some.inj hw)).2.symm

/-- Without `alloc` a walk changes nothing. -/
theorem walk_same {c : Option (R.Frame × Fin 512)} (hw : m.walk t a false = some (c, m')) :
    m' = m := by
  unfold walk at hw
  split at hw
  · cases hw
  obtain ⟨⟨c₁, m₁⟩, h1, hw⟩ := Option.bind_eq_some_iff.1 hw
  obtain rfl := walkRound_same h1
  cases c₁ with
  | none => exact (Prod.mk.inj (Option.some.inj hw)).2.symm
  | some t₁ =>
    obtain ⟨⟨c₂, m₂⟩, h2, hm⟩ := Option.bind_eq_some_iff.1 hw
    exact (Prod.mk.inj (Option.some.inj hm)).2.symm.trans (walkRound_same h2)

/-! ### A page of user memory -/

theorem mapRound_takes {pa : BitVec 64} (hm : m.mapRound t a pa perm = some (ok, m')) :
    Takes 2 m ok m' := by
  unfold mapRound at hm
  obtain ⟨⟨c, m₁⟩, hw, hm⟩ := Option.bind_eq_some_iff.1 hm
  have ht := walk_takes hw
  cases c with
  | none =>
    obtain ⟨rfl, rfl⟩ := Prod.mk.inj (Option.some.inj hm)
    exact ht
  | some slot =>
    obtain ⟨e, -, hm⟩ := Option.bind_eq_some_iff.1 hm
    split at hm
    · cases hm
    · obtain ⟨rfl, rfl⟩ := Prod.mk.inj (Option.some.inj hm)
      unfold Takes at ht ⊢
      rw [freelist_setPte]
      exact ht

theorem growRound_takes (hg : m.growRound t a perm b = some (ok, m')) : Takes 3 m ok m' := by
  unfold growRound at hg
  cases ha : m.kalloc with
  | none =>
    rw [ha] at hg
    obtain ⟨rfl, rfl⟩ := Prod.mk.inj (Option.some.inj hg)
    have hnone : Takes 1 m false m := kalloc_fails ha
    exact hnone.fails (by decide)
  | some y =>
    obtain ⟨f, m₁⟩ := y
    rw [ha] at hg
    obtain ⟨⟨ok₂, m₂⟩, hm, hg⟩ := Option.bind_eq_some_iff.1 hg
    have hpage : a % pgsize = 0 := by
      by_contra hne
      unfold mappages at hm
      rw [if_pos (.inl hne)] at hm
      cases hm
    rw [mappages_page hpage] at hm
    have hround : Takes 2 (m₁.setPage f (.bytes b)) ok₂ m₂ := mapRound_takes hm
    have ht : Takes 3 m ok₂ m₂ := (kalloc_takes ha).trans hround
    cases ok₂ with
    | true =>
      obtain ⟨rfl, rfl⟩ := Prod.mk.inj (Option.some.inj hg)
      exact ht
    | false =>
      obtain ⟨m₃, -, hg⟩ := Option.bind_eq_some_iff.1 hg
      obtain ⟨rfl, rfl⟩ := Prod.mk.inj (Option.some.inj hg)
      exact ht.fails (Nat.le_refl 3)

/-! ### The loops -/

/-- **`uvmalloc`.** -/
theorem growLoop_takes : ∀ {n a : ℕ} {m : Kmem R},
    growLoop t perm lo n a m = some (ok, m') → Takes (3 * n) m ok m' := by
  intro n
  induction n with
  | zero =>
    intro a m hg
    obtain ⟨rfl, rfl⟩ := Prod.mk.inj (Option.some.inj hg)
    exact Takes.none m
  | succ n ih =>
    intro a m hg
    obtain ⟨⟨ok₁, m₁⟩, h1, hg⟩ := Option.bind_eq_some_iff.1 hg
    have ht := growRound_takes h1
    have hn : 3 + 3 * n = 3 * (n + 1) := by omega
    rw [← hn]
    cases ok₁ with
    | true => exact ht.trans (ih hg)
    | false =>
      obtain ⟨y, -, hg⟩ := Option.bind_eq_some_iff.1 hg
      obtain ⟨rfl, rfl⟩ := Prod.mk.inj (Option.some.inj hg)
      exact ht.fails (Nat.le_add_right 3 _)

/-- **`uvmcopy`.** -/
theorem copyLoop_takes : ∀ {n a : ℕ} {m : Kmem R},
    copyLoop r r' n a m = some (ok, m') → Takes (3 * n) m ok m' := by
  intro n
  induction n with
  | zero =>
    intro a m hc
    obtain ⟨rfl, rfl⟩ := Prod.mk.inj (Option.some.inj hc)
    exact Takes.none m
  | succ n ih =>
    intro a m hc
    obtain ⟨⟨slot, m₀⟩, hw, hc⟩ := Option.bind_eq_some_iff.1 hc
    dsimp only at hc
    rw [walk_same hw] at hc
    obtain ⟨⟨t, j⟩, -, hc⟩ := Option.bind_eq_some_iff.1 hc
    obtain ⟨e, -, hc⟩ := Option.bind_eq_some_iff.1 hc
    split at hc
    · cases hc
    obtain ⟨f, -, hc⟩ := Option.bind_eq_some_iff.1 hc
    obtain ⟨x, -, hc⟩ := Option.bind_eq_some_iff.1 hc
    obtain ⟨⟨ok₁, m₁⟩, h1, hc⟩ := Option.bind_eq_some_iff.1 hc
    have ht := growRound_takes h1
    have hn : 3 + 3 * n = 3 * (n + 1) := by omega
    rw [← hn]
    cases ok₁ with
    | true => exact ht.trans (ih hc)
    | false =>
      obtain ⟨y, -, hc⟩ := Option.bind_eq_some_iff.1 hc
      obtain ⟨rfl, rfl⟩ := Prod.mk.inj (Option.some.inj hc)
      exact ht.fails (Nat.le_add_right 3 _)

end Kmem

end AgentOS
