import AgentOS.Proof.PageGrow

/-!
# A page table comes, is copied into and goes

* `Shape.uvmcreate_spec`: an empty page table.
* `Shape.uvmcopy_spec`: the pages of one page table, again, behind another; or no memory, and nothing
  behind the other.
* `Shape.uvmfree_spec`: nothing is left of a page table and its pages.
-/

namespace AgentOS

namespace Kmem

variable {R : Ram} {m m' : Kmem R} {roots : ℕ → Option R.Frame}
  {held : Option ℕ → Option R.Frame} {h h' v n sz : ℕ} {r r' t f g : R.Frame} {e : Pte}
  {p : List (Fin 512)}

/-! ### A new page table -/

theorem uvmcreate_cases (hc : m.uvmcreate = some (f, m')) :
    ∃ l, m.freelist = f :: l ∧ m'.freelist = l ∧
      m'.page = (m.setPage f (.table fun _ => 0)).page := by
  obtain ⟨⟨g, m₁⟩, ha, hq⟩ := Option.map_eq_some_iff.1 hc
  obtain ⟨rfl, rfl⟩ := Prod.mk.inj hq
  obtain ⟨l, hl, hfl, hpage⟩ := kalloc_cases ha
  refine ⟨l, hl, hfl, ?_⟩
  unfold setPage
  dsimp only
  rw [hpage, Function.update_idem]

/-- `f`, a free page before, is an empty page table after; the other pages are as they were. -/
structure Zeroes (m m' : Kmem R) (f : R.Frame) : Prop where
  pte_before : ∀ j, m.pte f j = none
  pte : ∀ t j, m'.pte t j = if t = f then some 0 else m.pte t j
  bytes : ∀ g, g ≠ f → m'.bytes g = m.bytes g

theorem Shape.zeroes (hs : m.Shape roots held) (hf : f ∈ m.freelist)
    (hpage : m'.page = (m.setPage f (.table fun _ => 0)).page) : Zeroes m m' f := by
  refine ⟨fun j => bytes_of_pte.1 (hs.free f hf), fun t j => ?_, fun g hg => ?_⟩
  · unfold Kmem.pte
    rw [hpage]
    unfold setPage
    dsimp only
    by_cases ht : t = f
    · rw [if_pos ht, ht, Function.update_self]
    · rw [if_neg ht, Function.update_of_ne ht]
  · rw [bytes_of_page hpage]
    exact bytes_setPage_ne hg

namespace Zeroes

/-- The new page table has nothing below it, and no page table had it below. -/
theorem child_eq (hz : Zeroes m m' f) : m'.child = m.child := by
  funext t j
  by_cases ht : t = f
  · rw [ht, child_eq_none (m := m) (.inl (hz.pte_before j))]
    refine child_eq_none (.inr ⟨0, ?_, pteValid_zero⟩)
    rw [hz.pte]
    exact if_pos rfl
  · unfold child
    rw [hz.pte, if_neg ht]

theorem node_eq (hz : Zeroes m m' f) : m'.node = m.node := by
  unfold node
  rw [hz.child_eq]

theorem root (hz : Zeroes m m' f) (hp : m.node f p = some g) : p = [] ∧ g = f := by
  cases p with
  | nil => exact ⟨rfl, (Option.some.inj hp).symm⟩
  | cons i p =>
    obtain ⟨c, hci, -⟩ := Option.bind_eq_some_iff.1 hp
    rw [child_eq_none (.inl (hz.pte_before i))] at hci
    cases hci

/-- The new page table maps nothing. -/
theorem entry_zero (hz : Zeroes m m' f) (v : ℕ) : m'.entry f v = 0 := by
  refine entry_none ?_
  rw [hz.node_eq]
  cases hn : m.node f (vpath v) with
  | none => rfl
  | some g =>
    obtain ⟨hv, -⟩ := hz.root hn
    cases hv

theorem userFrame_none (hz : Zeroes m m' f) (v : ℕ) : m'.userFrame f v = none := by
  unfold userFrame
  rw [hz.entry_zero]
  exact if_neg fun hc => pteValid_zero hc.2

/-- A page table without the new one in it has the entries it had. -/
theorem entry_eq (hz : Zeroes m m' f) (hn : ∀ g, m.node r (vpath v) = some g → g ≠ f) :
    m'.entry r v = m.entry r v := by
  unfold entry
  rw [hz.node_eq]
  cases hp : m.node r (vpath v) with
  | none => rfl
  | some t => rw [Option.bind_some, Option.bind_some, hz.pte, if_neg (hn t hp)]

end Zeroes

/-- **`uvmcreate`**: a page table with nothing behind it. -/
theorem Shape.uvmcreate_spec (hs : m.Shape roots held) (hr : roots h = none)
    (hc : m.uvmcreate = some (f, m')) :
    m'.Shape (Function.update roots h (some f)) held ∧
      m'.seen (Function.update roots h (some f)) = m.seen roots := by
  obtain ⟨l, hl, hfl, hpage⟩ := uvmcreate_cases hc
  have hf : f ∈ m.freelist := by rw [hl]; exact List.mem_cons_self
  have hz := hs.zeroes hf hpage
  have hold : ∀ h' r', Function.update roots h (some f) h' = some r' → h' ≠ h →
      roots h' = some r' := by
    intro h' r' hr' hh
    rwa [Function.update_of_ne hh] at hr'
  have hnew : ∀ r', Function.update roots h (some f) h = some r' → f = r' := by
    intro r' hr'
    rw [Function.update_self] at hr'
    exact Option.some.inj hr'
  have hnf : ∀ h' r' p g, roots h' = some r' → m.node r' p = some g → g ≠ f := by
    rintro h' r' p g hr' hp rfl
    exact hs.free_place hf (.table h' p) ((place_table hr').trans hp)
  have hentry : ∀ h' r' v, roots h' = some r' → m'.entry r' v = m.entry r' v :=
    fun h' r' v hr' => hz.entry_eq fun g hp => hnf h' r' _ g hr' hp
  have hplaces : ∀ c, c ≠ .table h [] →
      m'.place (Function.update roots h (some f)) held c = m.place roots held c := by
    intro c hct
    cases c with
    | hand k => rfl
    | table h' p =>
      by_cases hh : h' = h
      · subst hh
        unfold place
        dsimp only
        rw [hz.node_eq, Function.update_self, hr, Option.bind_some]
        cases hn : m.node f p with
        | none => rfl
        | some g =>
          obtain ⟨rfl, -⟩ := hz.root hn
          exact absurd rfl hct
      · exact place_table_congr (Function.update_of_ne hh ..) fun r' _ => by rw [hz.node_eq]
    | page h' v =>
      by_cases hh : h' = h
      · unfold place
        dsimp only
        rw [hh, Function.update_self, hr, Option.bind_some, hz.userFrame_none]
        rfl
      · exact place_page_congr (Function.update_of_ne hh ..) fun r' hr' => hentry h' r' v hr'
  have hnd := hs.nodup
  rw [hl] at hnd
  refine ⟨⟨?_, fun g hg => ?_, ?_, fun h' r' p t hr' hp => ?_, fun k g hg => ?_,
    fun h' r' v hr' hv hval => ?_⟩, ?_⟩
  · rw [hfl]
    exact (List.nodup_cons.1 hnd).2
  · rw [hfl] at hg
    have hgf : g ≠ f := by
      rintro rfl
      exact (List.nodup_cons.1 hnd).1 hg
    rw [hz.bytes g hgf]
    refine hs.free g ?_
    rw [hl]
    exact List.mem_cons_of_mem f hg
  · rw [hfl]
    refine hs.owned.take (c := .table h []) (r := some f) ?_ ?_ (Option.some_ne_none f) ?_ hplaces
      (used_cons hl hs.nodup)
    · unfold place
      dsimp only
      rw [hr]
      rfl
    · rintro ⟨g, hg, hn⟩
      rw [← Option.some.inj hg] at hn
      exact hn hf
    · exact place_table (Function.update_self ..)
  · rw [hz.node_eq] at hp
    by_cases hh : h' = h
    · subst hh
      obtain rfl := hnew r' hr'
      obtain ⟨rfl, rfl⟩ := hz.root hp
      refine ⟨Nat.zero_le 2, fun i => ⟨0, ?_, fun _ hc => absurd hc pteValid_zero,
        fun _ => pteLink_zero⟩⟩
      rw [hz.pte]
      exact if_pos rfl
    · replace hr' := hold h' r' hr' hh
      obtain ⟨hd, htab⟩ := hs.tables h' r' p t hr' hp
      refine ⟨hd, fun i => ?_⟩
      rw [hz.child_eq, hz.pte, if_neg (hnf h' r' p t hr' hp)]
      exact htab i
  · rw [hz.bytes g]
    · exact hs.hands k g hg
    · rintro rfl
      exact hs.free_place hf (.hand k) hg
  · by_cases hh : h' = h
    · subst hh
      obtain rfl := hnew r' hr'
      rw [hz.entry_zero] at hval
      exact absurd hval pteValid_zero
    · replace hr' := hold h' r' hr' hh
      rw [hentry h' r' v hr'] at hval ⊢
      obtain ⟨g, hg, hb⟩ := hs.pages h' r' v hr' hv hval
      refine ⟨g, hg, ?_⟩
      rw [hz.bytes g]
      · exact hb
      · rintro rfl
        refine hs.free_place hf (.page h' v) ((place_page hr').trans ?_)
        unfold userFrame
        rw [if_pos ⟨hv, hval⟩, hg]
  · funext h' v
    by_cases hh : h' = h
    · unfold seen
      rw [hh, Function.update_self, hr, Option.bind_some, hz.userFrame_none]
      rfl
    · refine seen_congr (Function.update_of_ne hh ..) (fun r' hr' => hentry h' r' v hr')
        fun r' g hr' hu => hz.bytes g ?_
      rintro rfl
      exact hs.free_place hf (.page h' v) ((place_page hr').trans hu)

/-! ### A page of user memory -/

theorem or_one {x : BitVec 32} (hx : x &&& 1 ≠ 0) : x ||| 1 = x := by
  have hone : ∀ k, (1 : BitVec 32).getLsbD k = decide (k = 0) := fun k => by
    rw [BitVec.ofNat_eq_ofNat, BitVec.getLsbD_one]
    rfl
  have h0 : x.getLsbD 0 = true := by
    by_contra hb
    apply hx
    apply BitVec.eq_of_getLsbD_eq
    intro k hk
    rw [BitVec.getLsbD_and, hone]
    by_cases hk0 : k = 0
    · rw [hk0, Bool.eq_false_iff.2 hb]
      rfl
    · rw [decide_eq_false hk0, Bool.and_false]
      exact (BitVec.getLsbD_zero).symm
  apply BitVec.eq_of_getLsbD_eq
  intro k hk
  rw [BitVec.getLsbD_or, hone]
  by_cases hk0 : k = 0
  · rw [hk0, h0]
    rfl
  · rw [decide_eq_false hk0, Bool.or_false]

theorem pteFlags_small (e : Pte) : (pteFlags e).toNat < 1024 := by
  rw [pteFlags_toNat]
  exact Nat.mod_lt _ (by decide)

/-- **What is behind page `v`.** -/
theorem Shape.seen_page (hs : m.Shape roots held) (hr : roots h = some r) (hv : v < userPages)
    (hsome : (m.seen roots h v).isSome = true) :
    ∃ t f b, m.node r (vpath v) = some t ∧ m.pte t (pn 0 v) = some (m.entry r v) ∧
      pteValid (m.entry r v) ∧ R.frameOf (pte2pa (m.entry r v)) = some f ∧ m.bytes f = some b ∧
      m.seen roots h v = some ⟨pteFlags (m.entry r v), b⟩ ∧ Mappable (pteFlags (m.entry r v)) ∧
      pteFlags (m.entry r v) ||| 1 = pteFlags (m.entry r v) := by
  have hval := (hs.seen_isSome hr hv).1 hsome
  cases ht : m.node r (vpath v) with
  | none =>
    rw [entry_none ht] at hval
    exact absurd hval pteValid_zero
  | some t =>
    obtain ⟨he, hl⟩ := hs.entry_of_node hr ht
    obtain ⟨f, hf, hb⟩ := hs.pages h r v hr hv hval
    obtain ⟨b, hb⟩ := Option.isSome_iff_exists.1 hb
    have huf : m.userFrame r v = some f := by
      unfold userFrame
      rw [if_pos ⟨hv, hval⟩]
      exact hf
    have hor := or_one (pteValid_iff.1 hval)
    refine ⟨t, f, b, rfl, he, hval, hf, hb, ?_, ⟨pteFlags_small _, ?_⟩, hor⟩
    · unfold seen
      rw [hr, Option.bind_some, huf, Option.bind_some, hb]
      rfl
    · rw [hor]
      exact fun hc => hl (pteLink_iff.2 ⟨pteValid_iff.1 hval, hc⟩)

/-! ### Copying -/

/-- **The loop of `uvmcopy`**: the pages from `v` on are copied, or nothing is left in the copy. -/
theorem copyLoop_spec (hr : roots h = some r) (hr' : roots h' = some r') (hne : h ≠ h')
    (hk : held none = none) :
    ∀ (n v : ℕ) (m : Kmem R), m.Shape roots held → v + n ≤ userPages →
      (∀ w, v ≤ w → w < v + n → (m.seen roots h w).isSome = true) →
      (∀ w, v ≤ w → w < v + n → m.seen roots h' w = none) →
      ∃ ok m', copyLoop r r' n (v * pgsize) m = some (ok, m') ∧ m'.Shape roots held ∧
        m'.seen roots =
          if ok then setRange (m.seen roots) h' v (v + n) (m.seen roots h)
          else setRange (m.seen roots) h' 0 v fun _ => none := by
  have hpos : 0 < pgsize := by decide
  intro n
  induction n with
  | zero =>
    intro v m hs hle hsome hnone
    refine ⟨true, m, rfl, hs, ?_⟩
    rw [if_pos rfl]
    exact (setRange_empty (Nat.le_refl v)).symm
  | succ n ih =>
    intro v m hs hle hsome hnone
    have hv : v < userPages := by omega
    have hdiv : v * pgsize / pgsize = v := Nat.mul_div_cancel v hpos
    have hno := hnone v (Nat.le_refl v) (by omega)
    obtain ⟨t, f, b, ht, he, hval, hf, hb, hseen, hp, hor⟩ :=
      hs.seen_page hr hv (hsome v (Nat.le_refl v) (by omega))
    -- page `v` is mapped in the old page table, and not yet in the new one
    have hwalk := hs.walk_find (a := v * pgsize) hr (user_lt_maxva (by rw [hdiv]; exact hv))
    rw [hdiv, ht] at hwalk
    obtain ⟨ok, m₁, hm₁, hs₁, hseen₁⟩ := hs.growRound_spec (a := v * pgsize) hr' hk
      (Nat.mul_mod_left v pgsize) (by rw [hdiv]; exact hv) (by rw [hdiv]; exact hno) hp b
    rw [hdiv, hor, ← hseen] at hseen₁
    unfold copyLoop
    rw [bind_some_fst hwalk]
    dsimp only [Option.map_some]
    rw [bind_some_fst rfl]
    dsimp only
    rw [bind_some_fst he, if_neg (not_not_intro hval), bind_some_fst hf, bind_some_fst hb,
      bind_some_fst hm₁]
    cases ok with
    | false =>
      obtain ⟨m₂, hm₂, hs₂, hseen₂⟩ :=
        hs₁.uvmunmap_spec (v := 0) (n := v) hr' hk (by omega)
      rw [if_neg Bool.false_ne_true] at hseen₁
      rw [Nat.zero_mul] at hm₂
      rw [Nat.zero_add, hseen₁] at hseen₂
      dsimp only
      rw [if_neg Bool.false_ne_true, hdiv, bind_some_fst hm₂]
      exact ⟨false, m₂, rfl, hs₂, hseen₂⟩
    | true =>
      rw [if_pos rfl] at hseen₁
      -- the copied page table is as it was, and the copy has page `v`
      have hsame : ∀ w, m₁.seen roots h w = m.seen roots h w := by
        intro w
        rw [hseen₁]
        unfold setSeen
        exact if_neg fun hc => hne hc.1
      have hsome₁ : ∀ w, v + 1 ≤ w → w < v + 1 + n → (m₁.seen roots h w).isSome = true := by
        intro w hvw hw
        rw [hsame]
        exact hsome w (by omega) (by omega)
      have hnone₁ : ∀ w, v + 1 ≤ w → w < v + 1 + n → m₁.seen roots h' w = none := by
        intro w hvw hw
        rw [hseen₁]
        unfold setSeen
        rw [if_neg (by omega)]
        exact hnone w (by omega) (by omega)
      obtain ⟨ok, m₂, hm₂, hs₂, hseen₂⟩ := ih (v + 1) m₁ hs₁ (by omega) hsome₁ hnone₁
      have hnext : v * pgsize + pgsize = (v + 1) * pgsize := (Nat.succ_mul v pgsize).symm
      dsimp only
      rw [if_pos rfl, hnext]
      refine ⟨ok, m₂, hm₂, hs₂, ?_⟩
      rw [hseen₂]
      cases ok with
      | false =>
        rw [if_neg Bool.false_ne_true, if_neg Bool.false_ne_true, hseen₁]
        exact setRange_setSeen hno _ (Nat.zero_le v)
      | true =>
        have hsucc := setRange_succ (s := m.seen roots) (h := h') (x := m.seen roots h)
          (Nat.lt_add_of_pos_right (n := v) (Nat.succ_pos n))
        rw [if_pos rfl, if_pos rfl, ← hsucc, funext hsame, hseen₁, Nat.add_assoc, Nat.add_comm 1 n]

/-- **`uvmcopy`**: the copy has the same pages, or there was no memory and it has none. -/
theorem Shape.uvmcopy_spec (hs : m.Shape roots held) (hr : roots h = some r)
    (hr' : roots h' = some r') (hne : h ≠ h') (hk : held none = none)
    (hfull : m.Full roots h sz) (hempty : m.Full roots h' 0) :
    ∃ ok m', m.uvmcopy r r' sz = some (ok, m') ∧ m'.Shape roots held ∧
      m'.seen roots =
        if ok then setRange (m.seen roots) h' 0 (sizePages sz) (m.seen roots h)
        else m.seen roots := by
  have hsmall := hs.full_pages hr hfull
  have hu := npages_user R
  have hp : (sz + (pgsize - 1)) / pgsize = sizePages sz := rfl
  have hz : sizePages 0 = 0 := by decide
  have hnone : ∀ w, 0 ≤ w → w < 0 + sizePages sz → m.seen roots h' w = none := by
    intro w _ hw
    rw [← Option.not_isSome_iff_eq_none, hempty w (by omega), hz]
    exact Nat.not_lt_zero w
  obtain ⟨ok, m', hm', hs', hseen⟩ := copyLoop_spec hr hr' hne hk (sizePages sz) 0 m hs (by omega)
    (fun w _ hw => (hfull w (by omega)).2 (by omega)) hnone
  rw [Nat.zero_mul] at hm'
  rw [Nat.zero_add, setRange_empty (Nat.le_refl 0)] at hseen
  refine ⟨ok, m', ?_, hs', hseen⟩
  unfold Kmem.uvmcopy
  rw [hp]
  exact hm'

/-! ### Freeing -/

theorem Shape.userFrame_none (hs : m.Shape roots held) (hr : roots h = some r)
    (hno : v < userPages → m.seen roots h v = none) : m.userFrame r v = none := by
  by_cases hv : v < userPages
  · rw [← Option.not_isSome_iff_eq_none, hs.userFrame_valid hr hv, ← hs.seen_isSome hr hv, hno hv]
    exact Bool.false_ne_true
  · exact userFrame_ge hv

/-- **`uvmfree`.** -/
theorem Shape.uvmfree_spec (hs : m.Shape roots held) (hr : roots h = some r)
    (hk : held none = none) (hfull : m.Full roots h sz) :
    ∃ m', m.uvmfree r sz = some m' ∧ m'.Shape (Function.update roots h none) held ∧
      m'.seen (Function.update roots h none) =
        setRange (m.seen roots) h 0 (sizePages sz) fun _ => none := by
  have hsmall := hs.full_pages hr hfull
  have hu := npages_user R
  have hpos : 0 < pgsize := by decide
  have hunmap : ∃ m₁, (if 0 < sz then m.uvmunmap r 0 (pgroundup sz / pgsize) true else some m) =
      some m₁ ∧ m₁.Shape roots held ∧
      m₁.seen roots = setRange (m.seen roots) h 0 (sizePages sz) fun _ => none := by
    by_cases hsz : 0 < sz
    · obtain ⟨m₁, hm₁, hs₁, hseen₁⟩ :=
        hs.uvmunmap_spec (v := 0) (n := sizePages sz) hr hk (by omega)
      rw [Nat.zero_mul] at hm₁
      rw [Nat.zero_add] at hseen₁
      rw [if_pos hsz, pgroundup_eq, Nat.mul_div_cancel _ hpos]
      exact ⟨m₁, hm₁, hs₁, hseen₁⟩
    · obtain rfl := Nat.eq_zero_of_not_pos hsz
      rw [if_neg hsz]
      exact ⟨m, rfl, hs, (setRange_empty (by decide)).symm⟩
  obtain ⟨m₁, hm₁, hs₁, hseen₁⟩ := hunmap
  -- `uvmunmap` has taken every page away, so `freewalk` skips no leaf
  have hnone : ∀ v, m₁.userFrame r v = none := by
    intro v
    refine hs₁.userFrame_none hr fun hv => ?_
    rw [hseen₁]
    unfold setRange
    by_cases hvs : v < sizePages sz
    · exact if_pos ⟨rfl, Nat.zero_le v, hvs⟩
    · rw [if_neg fun hc => hvs hc.2.2, ← Option.not_isSome_iff_eq_none, hfull v hv]
      exact hvs
  obtain ⟨m₂, hm₂, hs₂, hseen₂⟩ := hs₁.freewalk hr hnone
  refine ⟨m₂, ?_, hs₂, ?_⟩
  · unfold Kmem.uvmfree
    by_cases hsz : 0 < sz
    · rw [if_pos hsz] at hm₁
      simp only [if_pos hsz]
      exact (bind_some_fst hm₁).trans hm₂
    · rw [if_neg hsz] at hm₁
      simp only [if_neg hsz]
      exact (bind_some_fst hm₁).trans hm₂
  · rw [hseen₂, hseen₁]

end Kmem

end AgentOS
