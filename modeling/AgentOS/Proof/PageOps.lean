import AgentOS.Proof.PageShape

/-!
# What the operations on one page do to the shape

* `Shape.kalloc`, `Shape.kfree`: a page goes from the free list into a hand of the kernel, and back.
* `Shape.graft`: a free page becomes a page table page; no page table sees it.
* `Shape.setEntry`: one entry of a last-level page table changes.
-/

namespace AgentOS

namespace Kmem

variable {R : Ram} {m m' m₁ : Kmem R} {roots roots' : ℕ → Option R.Frame}
  {held held' : Option ℕ → Option R.Frame} {h h' v v' : ℕ} {r r' t t' f g : R.Frame} {i j : Fin 512}
  {e e' : Pte} {p q : List (Fin 512)} {b : ℕ → UInt8} {c d : Place} {k : Option ℕ}

theorem place_of_pte (hp : m'.pte = m.pte) : m'.place roots held = m.place roots held := by
  funext c
  cases c with
  | hand k => rfl
  | table h p =>
    unfold place
    dsimp only
    rw [node_of_pte hp]
  | page h v =>
    unfold place userFrame
    dsimp only
    rw [entry_of_pte hp]

theorem isSome_of_pte (hp : m'.pte = m.pte) : (m'.bytes f).isSome = true ↔ (m.bytes f).isSome = true := by
  rw [bytes_of_pte (i := 0), bytes_of_pte (i := 0), hp]

/-- The shape when no page table changes. -/
theorem Shape.of_pte (hs : m.Shape roots held) (hp : m'.pte = m.pte) (hnodup : m'.freelist.Nodup)
    (hfree : ∀ f ∈ m'.freelist, (m.bytes f).isSome = true)
    (howned : Owned (fun x => ∃ f, x = some f ∧ f ∉ m'.freelist) none (m.place roots held'))
    (hands : ∀ k f, held' k = some f → (m.bytes f).isSome = true) : m'.Shape roots held' := by
  refine ⟨hnodup, fun f hf => (isSome_of_pte hp).2 (hfree f hf), ?_, fun h r p t hr ht => ?_,
    fun k f hf => (isSome_of_pte hp).2 (hands k f hf), fun h r v hr hv he => ?_⟩
  · rw [place_of_pte hp]
    exact howned
  · rw [node_of_pte hp] at ht
    obtain ⟨hd, htab⟩ := hs.tables h r p t hr ht
    refine ⟨hd, fun i => ?_⟩
    have hc : m'.child = m.child := by
      unfold child
      rw [hp]
    rw [hp, hc]
    exact htab i
  · rw [entry_of_pte hp] at he ⊢
    obtain ⟨f, hf, hb⟩ := hs.pages h r v hr hv he
    exact ⟨f, hf, (isSome_of_pte hp).2 hb⟩

/-! ### Allocation -/

/-- What an allocation leaves as it was. -/
structure Extends (m m' : Kmem R) (roots : ℕ → Option R.Frame) : Prop where
  entry : ∀ h r v, roots h = some r → m'.entry r v = m.entry r v
  bytes : ∀ f, f ∉ m.freelist → (m.bytes f).isSome = true → m'.bytes f = m.bytes f
  free : ∀ f, f ∉ m.freelist → f ∉ m'.freelist

theorem Extends.refl (m : Kmem R) (roots : ℕ → Option R.Frame) : m.Extends m roots :=
  ⟨fun _ _ _ _ => rfl, fun _ _ _ => rfl, fun _ => id⟩

theorem Extends.trans {n : Kmem R} (h₁ : m.Extends m' roots) (h₂ : m'.Extends n roots) :
    m.Extends n roots := by
  refine ⟨fun h r v hr => ?_, fun f hf hb => ?_, fun f hf => h₂.free f (h₁.free f hf)⟩
  · rw [h₂.entry h r v hr, h₁.entry h r v hr]
  · have hb' := h₁.bytes f hf hb
    rw [← hb'] at hb ⊢
    exact h₂.bytes f (h₁.free f hf) hb

theorem userFrame_congr (he : m'.entry r v = m.entry r v) : m'.userFrame r v = m.userFrame r v := by
  unfold userFrame
  rw [he]

/-- A page table page is in the same place if the trees are the same. -/
theorem place_table_congr (hroot : roots' h = roots h)
    (hn : ∀ r, roots h = some r → m'.node r p = m.node r p) :
    m'.place roots' held (.table h p) = m.place roots held (.table h p) := by
  unfold place
  dsimp only
  rw [hroot]
  cases hr : roots h with
  | none => rfl
  | some r => rw [Option.bind_some, Option.bind_some, hn r hr]

/-- A page of user memory is in the same place if the entries are the same. -/
theorem place_page_congr (hroot : roots' h = roots h)
    (he : ∀ r, roots h = some r → m'.entry r v = m.entry r v) :
    m'.place roots' held (.page h v) = m.place roots held (.page h v) := by
  unfold place
  dsimp only
  rw [hroot]
  cases hr : roots h with
  | none => rfl
  | some r => rw [Option.bind_some, Option.bind_some, userFrame_congr (he r hr)]

/-- **User memory is what the entries and the pages behind them say.** -/
theorem seen_congr (hroot : roots' h = roots h)
    (he : ∀ r, roots h = some r → m'.entry r v = m.entry r v)
    (hb : ∀ r f, roots h = some r → m.userFrame r v = some f → m'.bytes f = m.bytes f) :
    m'.seen roots' h v = m.seen roots h v := by
  unfold seen
  rw [hroot]
  cases hr : roots h with
  | none => rfl
  | some r =>
    rw [Option.bind_some, Option.bind_some, userFrame_congr (he r hr), he r hr]
    cases hf : m.userFrame r v with
    | none => rfl
    | some f => rw [Option.bind_some, Option.bind_some, hb r f hr hf]

theorem Extends.seen (hx : m.Extends m' roots) (hs : m.Shape roots held) :
    m'.seen roots = m.seen roots := by
  funext h v
  refine seen_congr rfl (fun r hr => hx.entry h r v hr) fun r f hr hf => ?_
  exact hx.bytes f (hs.not_free (c := .page h v) ((place_page hr).trans hf))
    (hs.userFrame_bytes hr hf)

theorem kalloc_cases (hk : m.kalloc = some (f, m')) :
    ∃ l, m.freelist = f :: l ∧ m'.freelist = l ∧
      m'.page = Function.update m.page f (.bytes fun _ => 5) := by
  unfold Kmem.kalloc at hk
  cases hl : m.freelist with
  | nil =>
    rw [hl] at hk
    cases hk
  | cons g l =>
    rw [hl] at hk
    obtain ⟨rfl, rfl⟩ := Prod.mk.inj (Option.some.inj hk)
    exact ⟨l, rfl, rfl, rfl⟩

theorem pte_of_page {x : Page} (hp : m'.page = (m.setPage f x).page) :
    m'.pte = (m.setPage f x).pte := by
  unfold pte
  rw [hp]

theorem bytes_of_page {x : Page} (hp : m'.page = (m.setPage f x).page) :
    m'.bytes = (m.setPage f x).bytes := by
  unfold bytes
  rw [hp]

/-- The pages in use when one more is. -/
theorem used_cons {l : List R.Frame} (hl : m.freelist = f :: l) (hnd : m.freelist.Nodup)
    (x : Option R.Frame) :
    (∃ g, x = some g ∧ g ∉ l) ↔ (∃ g, x = some g ∧ g ∉ m.freelist) ∨ x = some f := by
  rw [hl] at hnd ⊢
  have hf := (List.nodup_cons.1 hnd).1
  constructor
  · rintro ⟨g, rfl, hg⟩
    by_cases hgf : g = f
    · exact .inr (congrArg some hgf)
    · exact .inl ⟨g, rfl, fun hm => (List.mem_cons.1 hm).elim hgf hg⟩
  · rintro (⟨g, rfl, hg⟩ | rfl)
    · exact ⟨g, rfl, fun hm => hg (List.mem_cons_of_mem f hm)⟩
    · exact ⟨f, rfl, hf⟩

/-- **A free page** is in no place. -/
theorem Shape.free_place (hs : m.Shape roots held) (hf : f ∈ m.freelist) (c : Place) :
    m.place roots held c ≠ some f := fun hc => hs.not_free hc hf

theorem place_hand_ne (hc : c ≠ .hand k) (x : Option R.Frame) :
    m.place roots (Function.update held k x) c = m.place roots held c := by
  cases c with
  | hand k' =>
    refine Function.update_of_ne ?_ ..
    rintro rfl
    exact hc rfl
  | table h p => rfl
  | page h v => rfl

theorem place_hand_self (x : Option R.Frame) :
    m.place roots (Function.update held k x) (.hand k) = x := Function.update_self ..

/-- **`kalloc`.** -/
theorem Shape.kalloc (hs : m.Shape roots held) (hk : held k = none)
    (ha : m.kalloc = some (f, m')) :
    m'.Shape roots (Function.update held k (some f)) ∧ m.Extends m' roots ∧
      m'.bytes f = some (fun _ => 5) := by
  obtain ⟨l, hl, hfl, hpage⟩ := kalloc_cases ha
  have hf : f ∈ m.freelist := by rw [hl]; exact List.mem_cons_self
  have hb := hs.free f hf
  have hp : m'.pte = m.pte := (pte_of_page hpage).trans (pte_setPage_bytes hb _)
  have hbytes := bytes_of_page hpage
  have hnd := hs.nodup
  rw [hl] at hnd
  refine ⟨hs.of_pte hp ?_ (fun g hg => ?_) ?_ fun k' g hg => ?_,
    ⟨fun _ _ _ _ => by rw [entry_of_pte hp], fun g hg _ => ?_, fun g hg hm => hg ?_⟩, ?_⟩
  · rw [hfl]
    exact (List.nodup_cons.1 hnd).2
  · refine hs.free g ?_
    rw [hl]
    rw [hfl] at hg
    exact List.mem_cons_of_mem f hg
  · rw [hfl]
    refine hs.owned.take (c := .hand k) (r := some f) hk ?_ (Option.some_ne_none f)
      (place_hand_self _) (fun c hc => place_hand_ne hc _) (used_cons hl hs.nodup)
    rintro ⟨g, hg, hn⟩
    rw [← Option.some.inj hg] at hn
    exact hn hf
  · by_cases hkk : k' = k
    · rw [hkk, Function.update_self] at hg
      rw [← Option.some.inj hg]
      exact hb
    · rw [Function.update_of_ne hkk] at hg
      exact hs.hands k' g hg
  · rw [hbytes]
    refine bytes_setPage_ne ?_
    rintro rfl
    exact hg hf
  · rw [hl]
    rw [hfl] at hm
    exact List.mem_cons_of_mem f hm
  · rw [hbytes]
    exact bytes_setPage_self _

theorem kfree_pa (f : R.Frame) : ∃ m', m.kfree (R.pa f) = some m' ∧
    m'.freelist = f :: m.freelist ∧ m'.page = (m.setPage f (.bytes fun _ => 1)).page := by
  unfold Kmem.kfree
  rw [R.frameOf_pa]
  exact ⟨_, rfl, rfl, rfl⟩

/-- **`kfree`.** -/
theorem Shape.kfree (hs : m.Shape roots held) (hk : held k = some f) :
    ∃ m', m.kfree (R.pa f) = some m' ∧ m'.Shape roots (Function.update held k none) ∧
      m'.entry = m.entry ∧ m'.seen roots = m.seen roots := by
  have hb := hs.hands k f hk
  have hf : f ∉ m.freelist := hs.not_free (c := .hand k) hk
  obtain ⟨m', hm', hfl, hpage⟩ := kfree_pa (m := m) f
  have hp : m'.pte = m.pte := (pte_of_page hpage).trans (pte_setPage_bytes hb _)
  have hbytes := bytes_of_page hpage
  refine ⟨m', hm', hs.of_pte hp ?_ (fun g hg => ?_) ?_ (fun k' g hg => ?_), entry_of_pte hp, ?_⟩
  · rw [hfl]
    exact List.nodup_cons.2 ⟨hf, hs.nodup⟩
  · rw [hfl] at hg
    rcases List.mem_cons.1 hg with rfl | hg
    · exact hb
    · exact hs.free g hg
  · rw [hfl]
    refine hs.owned.release (fun c => c = .hand k) ?_ ?_ fun x => ?_
    · rintro c rfl
      exact place_hand_self _
    · exact fun c hc => place_hand_ne hc _
    · constructor
      · rintro ⟨g, rfl, hg⟩
        refine ⟨⟨g, rfl, fun hm => hg (List.mem_cons_of_mem f hm)⟩, ?_⟩
        rintro c rfl hc
        rw [← Option.some.inj (hk.symm.trans hc)] at hg
        exact hg List.mem_cons_self
      · rintro ⟨⟨g, rfl, hg⟩, hne⟩
        refine ⟨g, rfl, fun hm => ?_⟩
        rcases List.mem_cons.1 hm with rfl | hm
        · exact hne _ rfl hk
        · exact hg hm
  · by_cases hkk : k' = k
    · rw [hkk, Function.update_self] at hg
      cases hg
    · rw [Function.update_of_ne hkk] at hg
      exact hs.hands k' g hg
  · funext h v
    refine seen_congr rfl (fun r _ => by rw [entry_of_pte hp]) fun r g hr hg => ?_
    rw [hbytes]
    refine bytes_setPage_ne ?_
    rintro rfl
    have hc := hs.place_inj (c := .hand k) (d := .page h v) hk ((place_page hr).trans hg)
    cases hc

/-! ### One more page table page -/

/-- The entries when page `f` becomes a page table page under index `i` of `t`. -/
theorem pte_graft (hft : f ≠ t) (he : m.pte t i = some e) (x : Pte) :
    ((m.setPage f (.table fun _ => 0)).setPte t i x).pte = fun t' j =>
      if t' = t ∧ j = i then some x else if t' = f then some 0 else m.pte t' j := by
  have hpt : ∀ t' j, (m.setPage f (.table fun _ => 0)).pte t' j =
      if t' = f then some 0 else m.pte t' j := by
    intro t' j
    unfold pte setPage
    dsimp only
    by_cases ht : t' = f
    · rw [if_pos ht, ht, Function.update_self]
    · rw [if_neg ht, Function.update_of_ne ht]
  have he' : (m.setPage f (.table fun _ => 0)).pte t i = some e := by
    rw [hpt, if_neg (Ne.symm hft), he]
  rw [pte_setPte he']
  funext t' j
  rw [hpt]

theorem child_eq_none (hp : m.pte t i = none ∨ ∃ e, m.pte t i = some e ∧ ¬pteValid e) :
    m.child t i = none := by
  refine child_none fun e he hl => ?_
  rcases hp with hp | ⟨e', he', hn⟩
  · rw [hp] at he
    cases he
  · rw [he'] at he
    exact hn (Option.some.inj he ▸ hl.1)

/-- Free page `f` becomes the page table page under index `i` of `t`, to which `p` leads in page
table `h`. -/
structure Grafts (m m' : Kmem R) (roots : ℕ → Option R.Frame) (held : Option ℕ → Option R.Frame)
    (h : ℕ) (p : List (Fin 512)) (i : Fin 512) (r t f : R.Frame) : Prop where
  shape : m.Shape roots held
  root : roots h = some r
  node : m.node r p = some t
  depth : p.length < 2
  invalid : ∃ e, m.pte t i = some e ∧ ¬pteValid e
  taken : m.freelist = f :: m'.freelist
  pte : m'.pte = fun t' j => if t' = t ∧ j = i then some (pa2pte (R.pa f) ||| pteV)
    else if t' = f then some 0 else m.pte t' j
  bytes : ∀ g, g ≠ f → m'.bytes g = m.bytes g

namespace Grafts

theorem mem (hg : m.Grafts m' roots held h p i r t f) : f ∈ m.freelist := by
  rw [hg.taken]
  exact List.mem_cons_self

theorem pte_new (hg : m.Grafts m' roots held h p i r t f) (j : Fin 512) : m.pte f j = none :=
  bytes_of_pte.1 (hg.shape.free f hg.mem)

theorem ne (hg : m.Grafts m' roots held h p i r t f) : f ≠ t := by
  obtain ⟨e, he, -⟩ := hg.invalid
  rintro rfl
  rw [hg.pte_new] at he
  cases he

theorem pte_free (hg : m.Grafts m' roots held h p i r t f) (j : Fin 512) : m'.pte f j = some 0 := by
  rw [hg.pte]
  dsimp only
  rw [if_neg fun hc => hg.ne hc.1, if_pos rfl]

/-- A page table page in use is not the new one. -/
theorem old (hg : m.Grafts m' roots held h p i r t f) (hr : roots h' = some r')
    (hq : m.node r' q = some t') : t' ≠ f := by
  rintro rfl
  exact hg.shape.free_place hg.mem (.table h' q) ((place_table hr).trans hq)

/-! ### The new tree -/

theorem child_self (hg : m.Grafts m' roots held h p i r t f) : m'.child t i = some f := by
  have hpa : (R.pa f).toNat = (R.first + f.val) * 4096 := R.pa_toNat f
  have hk44 : R.first + f.val < 2 ^ 44 := by
    have := R.npages_lt
    have := f.isLt
    omega
  have hlink : pteLink (pa2pte (R.pa f) ||| pteV) := by
    rw [pteLink_make, pteLink_iff, pteMake_flags hpa hk44 (by decide)]
    decide
  have hto : R.frameOf (pte2pa (pa2pte (R.pa f) ||| pteV)) = some f := by
    rw [pteLink_make, pteMake_pa hpa hk44 (by decide), R.frameOf_pa]
  rw [child_of_pte (e := pa2pte (R.pa f) ||| pteV) _ hlink, hto]
  rw [hg.pte]
  exact if_pos ⟨rfl, rfl⟩

theorem child_other (hg : m.Grafts m' roots held h p i r t f) (hn : ¬(t' = t ∧ j = i)) :
    m'.child t' j = m.child t' j := by
  by_cases htf : t' = f
  · rw [htf, child_eq_none (.inl (hg.pte_new j))]
    exact child_eq_none (.inr ⟨0, hg.pte_free j, pteValid_zero⟩)
  · unfold child
    rw [hg.pte]
    dsimp only
    rw [if_neg hn, if_neg htf]

theorem child_gone (hg : m.Grafts m' roots held h p i r t f) : m.child t i = none :=
  child_eq_none (.inr hg.invalid)

/-- The new place was empty. -/
theorem node_gone (hg : m.Grafts m' roots held h p i r t f) : m.node r (p ++ [i]) = none := by
  rw [node_snoc, hg.node, Option.bind_some, hg.child_gone]

theorem node_self (hg : m.Grafts m' roots held h p i r t f) (q : List (Fin 512)) :
    m'.node r q = if q = p ++ [i] then some f else m.node r q := by
  refine Radix.node_graft hg.node (fun q hq => ?_) hg.child_gone hg.child_self
    (fun _ _ => hg.child_other) (fun j => child_eq_none (.inl (hg.pte_new j))) hg.ne q
  exact (hg.shape.table_inj hg.root hg.root hq hg.node).2

theorem node_other (hg : m.Grafts m' roots held h p i r t f) (hr : roots h' = some r')
    (hne : h' ≠ h) (q : List (Fin 512)) : m'.node r' q = m.node r' q := by
  refine Radix.node_congr fun q' t' hq => funext fun j => hg.child_other ?_
  rintro ⟨rfl, -⟩
  exact hne (hg.shape.table_inj hr hg.root hq hg.node).1

/-- The trees keep their pages. -/
theorem keeps (hg : m.Grafts m' roots held h p i r t f) (hr : roots h' = some r')
    (hq : m.node r' q = some t') : m'.node r' q = some t' := by
  by_cases hh : h' = h
  · subst hh
    obtain rfl := Option.some.inj (hg.root.symm.trans hr)
    rw [hg.node_self, if_neg]
    · exact hq
    · rintro rfl
      rw [hg.node_gone] at hq
      cases hq
  · rw [hg.node_other hr hh]
    exact hq

/-- Only this one has a new one. -/
theorem node_cases (hg : m.Grafts m' roots held h p i r t f) (hr : roots h' = some r')
    (hq : m'.node r' q = some t') :
    (h' = h ∧ r' = r ∧ q = p ++ [i] ∧ t' = f) ∨ m.node r' q = some t' := by
  by_cases hh : h' = h
  · subst hh
    obtain rfl := Option.some.inj (hg.root.symm.trans hr)
    rw [hg.node_self] at hq
    split at hq
    · rename_i hqp
      exact .inl ⟨rfl, rfl, hqp, (Option.some.inj hq).symm⟩
    · exact .inr hq
  · rw [hg.node_other hr hh] at hq
    exact .inr hq

/-- No entry for a page of user memory changes. -/
theorem entry (hg : m.Grafts m' roots held h p i r t f) (hr : roots h' = some r') :
    m'.entry r' v = m.entry r' v := by
  cases hn : m'.node r' (vpath v) with
  | none =>
    have hn' : m.node r' (vpath v) = none := by
      cases hn' : m.node r' (vpath v) with
      | none => rfl
      | some t' =>
        rw [hg.keeps hr hn'] at hn
        cases hn
    rw [entry_none hn, entry_none hn']
  | some t' =>
    unfold Kmem.entry
    rw [hn, Option.bind_some]
    rcases hg.node_cases hr hn with ⟨rfl, rfl, hq, rfl⟩ | hn'
    · -- a new last-level page table: there was none, and it is empty
      rw [hg.pte_free, hq, hg.node_gone]
      rfl
    · have htt : t' ≠ t := by
        rintro rfl
        have hq := (hg.shape.table_inj hr hg.root hn' hg.node).2
        have hlen := hg.depth
        rw [← hq] at hlen
        exact absurd hlen (Nat.lt_irrefl 2)
      rw [hg.pte]
      dsimp only
      rw [if_neg fun hc => htt hc.1, if_neg (hg.old hr hn'), hn', Option.bind_some]

theorem ext (hg : m.Grafts m' roots held h p i r t f) : m.Extends m' roots := by
  refine ⟨fun h' r' v hr' => hg.entry hr', fun g hf _ => hg.bytes g ?_, fun g hf hm' => hf ?_⟩
  · rintro rfl
    exact hf hg.mem
  · rw [hg.taken]
    exact List.mem_cons_of_mem f hm'

/-! ### The new shape -/

theorem place_other (hg : m.Grafts m' roots held h p i r t f) (hc : c ≠ .table h (p ++ [i])) :
    m'.place roots held c = m.place roots held c := by
  cases c with
  | hand k => rfl
  | table h' q =>
    refine place_table_congr rfl fun r' hr' => ?_
    by_cases hh : h' = h
    · subst hh
      obtain rfl := Option.some.inj (hg.root.symm.trans hr')
      rw [hg.node_self, if_neg]
      rintro rfl
      exact hc rfl
    · exact hg.node_other hr' hh q
  | page h' v => exact place_page_congr rfl fun r' hr' => hg.entry hr'

theorem owned (hg : m.Grafts m' roots held h p i r t f) :
    Owned (fun x => ∃ g, x = some g ∧ g ∉ m'.freelist) none (m'.place roots held) := by
  have hnew : m'.node r (p ++ [i]) = some f := by
    rw [hg.node_self]
    exact if_pos rfl
  refine hg.shape.owned.take (c := .table h (p ++ [i])) (r := some f)
    ((place_table hg.root).trans hg.node_gone) ?_ (Option.some_ne_none f)
    ((place_table hg.root).trans hnew) (fun c hc => hg.place_other hc)
    (used_cons hg.taken hg.shape.nodup)
  rintro ⟨g, hf, hn⟩
  rw [← Option.some.inj hf] at hn
  exact hn hg.mem

theorem tables (hg : m.Grafts m' roots held h p i r t f) (hr : roots h' = some r')
    (hq : m'.node r' q = some t') : m'.TableAt q.length t' := by
  rcases hg.node_cases hr hq with ⟨rfl, rfl, rfl, rfl⟩ | hq'
  · have hlen := hg.depth
    refine ⟨by rw [List.length_append, List.length_singleton]; omega, fun j => ?_⟩
    exact ⟨0, hg.pte_free j, fun _ hc => absurd hc pteValid_zero, fun _ => pteLink_zero⟩
  · obtain ⟨hd, htab⟩ := hg.shape.tables h' r' q t' hr hq'
    refine ⟨hd, fun j => ?_⟩
    by_cases htj : t' = t ∧ j = i
    · obtain ⟨rfl, rfl⟩ := htj
      have hqp := (hg.shape.table_inj hr hg.root hq' hg.node).2
      refine ⟨pa2pte (R.pa f) ||| pteV, ?_, fun _ _ => ?_, fun hq2 => ?_⟩
      · rw [hg.pte]
        exact if_pos ⟨rfl, rfl⟩
      · rw [hg.child_self]
        rfl
      · have hlen := hg.depth
        rw [hqp] at hq2
        omega
    · rw [hg.child_other htj, hg.pte]
      dsimp only
      rw [if_neg htj, if_neg (hg.old hr hq')]
      exact htab j

theorem pages (hg : m.Grafts m' roots held h p i r t f) (hr : roots h' = some r')
    (hv : v < userPages) (hval : pteValid (m'.entry r' v)) :
    ∃ g, R.frameOf (pte2pa (m'.entry r' v)) = some g ∧ (m'.bytes g).isSome = true := by
  rw [hg.entry hr] at hval ⊢
  obtain ⟨g, hf, hb⟩ := hg.shape.pages h' r' v hr hv hval
  have hgf : g ≠ f := by
    rintro rfl
    refine hg.shape.free_place hg.mem (.page h' v) ((place_page hr).trans ?_)
    unfold userFrame
    rw [if_pos ⟨hv, hval⟩, hf]
  refine ⟨g, hf, ?_⟩
  rw [hg.bytes g hgf]
  exact hb

theorem grown (hg : m.Grafts m' roots held h p i r t f) : m'.Shape roots held := by
  have hnd := hg.shape.nodup
  rw [hg.taken] at hnd
  obtain ⟨hf, hnd⟩ := List.nodup_cons.1 hnd
  refine ⟨hnd, fun g hm => ?_, hg.owned, fun _ _ _ _ => hg.tables, fun k g hk => ?_,
    fun _ _ _ => hg.pages⟩
  · have hgf : g ≠ f := by
      rintro rfl
      exact hf hm
    rw [hg.bytes g hgf]
    refine hg.shape.free g ?_
    rw [hg.taken]
    exact List.mem_cons_of_mem f hm
  · have hgf : g ≠ f := by
      rintro rfl
      exact hg.shape.free_place hg.mem (.hand k) hk
    rw [hg.bytes g hgf]
    exact hg.shape.hands k g hk

end Grafts

/-- **A free page becomes a page table page.** -/
theorem Shape.graft (hs : m.Shape roots held) (hr : roots h = some r) (ht : m.node r p = some t)
    (hlen : p.length < 2) (he : m.pte t i = some e) (hinv : ¬pteValid e)
    (ha : m.kalloc = some (f, m₁))
    (hm : m' = (m₁.setPage f (.table fun _ => 0)).setPte t i (pa2pte (R.pa f) ||| pteV)) :
    m'.Shape roots held ∧ m.Extends m' roots ∧ m'.node r (p ++ [i]) = some f := by
  obtain ⟨l, hl, hfl, hpage⟩ := kalloc_cases ha
  have hfb : (m.bytes f).isSome = true := by
    refine hs.free f ?_
    rw [hl]
    exact List.mem_cons_self
  have hft : f ≠ t := by
    rintro rfl
    rw [bytes_of_pte.1 hfb] at he
    cases he
  have hp₁ : m₁.pte = m.pte := (pte_of_page hpage).trans (pte_setPage_bytes hfb _)
  have hg : m.Grafts m' roots held h p i r t f := by
    refine ⟨hs, hr, ht, hlen, ⟨e, he, hinv⟩, ?_, ?_, fun g hgf => ?_⟩
    · rw [hm, freelist_setPte, hl]
      exact congrArg (f :: ·) hfl.symm
    · rw [← hp₁] at he
      rw [hm, pte_graft hft he, hp₁]
    · rw [hm, bytes_setPte, bytes_setPage_ne hgf, bytes_of_page hpage]
      exact bytes_setPage_ne hgf
  refine ⟨hg.grown, hg.ext, ?_⟩
  rw [hg.node_self]
  exact if_pos rfl

end Kmem

end AgentOS
