import AgentOS.Proof.PageWalk

/-!
# `freewalk`

* `freewalk_spec`: `freewalk` gives back every page of a tree of page tables, once, and touches no
  other page.
* `Shape.freewalk`: of a page table without user memory nothing is left.
-/

namespace AgentOS

namespace Kmem

variable {R : Ram} {m n m' : Kmem R} {roots : ℕ → Option R.Frame}
  {held : Option ℕ → Option R.Frame} {h h' v : ℕ} {r r' t c f g : R.Frame} {i j : Fin 512} {e : Pte}
  {p q : List (Fin 512)} {d : ℕ} {done : List (Fin 512)}

/-- A round of the loop of `freewalk`. -/
def freeEntry (d : ℕ) (t : R.Frame) (m : Kmem R) (i : Fin 512) : Option (Kmem R) := do
  let e ← m.pte t i
  if pteLink e then do
    let c ← R.frameOf (pte2pa e)
    let m ← freewalk d c m
    some (m.setPte t i 0)
  else some m

/-- What is left after the loop. -/
theorem freewalk_of_loop (hn : (List.finRange 512).foldlM (freeEntry d t) m = some n) :
    freewalk (d + 1) t m = n.kfree (R.pa t) := bind_some_fst hn

/-- A tree of page tables of at most `d` levels. -/
structure Walkable (m : Kmem R) (t : R.Frame) (d : ℕ) : Prop where
  tree : Radix.Tree m.child t
  depth : ∀ p f, m.node t p = some f → p.length < d
  used : ∀ f, Radix.Below m.child t f → f ∉ m.freelist
  table : ∀ f i, Radix.Below m.child t f → ∃ e, m.pte f i = some e ∧
    (pteLink e → (R.frameOf (pte2pa e)).isSome = true)

/-- What `freewalk` does. -/
structure Freed (m m' : Kmem R) (t : R.Frame) : Prop where
  free : ∀ f, f ∈ m'.freelist ↔ f ∈ m.freelist ∨ Radix.Below m.child t f
  nodup : m.freelist.Nodup → m'.freelist.Nodup
  page : ∀ f, ¬Radix.Below m.child t f → m'.page f = m.page f
  bytes : ∀ f, Radix.Below m.child t f → (m'.bytes f).isSome = true

/-- Below one of the entries that are done. -/
def BelowDone (m : Kmem R) (t : R.Frame) (done : List (Fin 512)) (f : R.Frame) : Prop :=
  ∃ i ∈ done, ∃ c, m.child t i = some c ∧ Radix.Below m.child c f

/-- In the loop of `freewalk`. -/
structure FreeingTable (m n : Kmem R) (t : R.Frame) (done : List (Fin 512)) : Prop where
  free : ∀ f, f ∈ n.freelist ↔ f ∈ m.freelist ∨ m.BelowDone t done f
  nodup : m.freelist.Nodup → n.freelist.Nodup
  page : ∀ f, f ≠ t → ¬m.BelowDone t done f → n.page f = m.page f
  bytes : ∀ f, m.BelowDone t done f → (n.bytes f).isSome = true
  todo : ∀ i, i ∉ done → n.pte t i = m.pte t i
  table : ∀ i, (n.pte t i).isSome = true

theorem pte_of_page_eq (hp : m'.page f = m.page f) : m'.pte f = m.pte f := by
  unfold pte
  rw [hp]

theorem bytes_of_page_eq (hp : m'.page f = m.page f) : m'.bytes f = m.bytes f := by
  unfold bytes
  rw [hp]

theorem child_of_page_eq (hp : m'.page f = m.page f) : m'.child f = m.child f := by
  unfold child
  rw [pte_of_page_eq hp]

theorem belowDone_cons : m.BelowDone t (i :: done) f ↔
    (∃ c, m.child t i = some c ∧ Radix.Below m.child c f) ∨ m.BelowDone t done f := by
  constructor
  · rintro ⟨j, hj, c, hc⟩
    rcases List.mem_cons.1 hj with rfl | hj
    · exact .inl ⟨c, hc⟩
    · exact .inr ⟨j, hj, c, hc⟩
  · rintro (⟨c, hc⟩ | ⟨j, hj, c, hc⟩)
    · exact ⟨i, List.mem_cons_self, c, hc⟩
    · exact ⟨j, List.mem_cons_of_mem i hj, c, hc⟩

theorem page_setPte_ne (hf : f ≠ t) : (m.setPte t i e).page f = m.page f := by
  unfold setPte
  cases m.page t with
  | bytes b => rfl
  | table es => exact Function.update_of_ne hf ..

/-- **One entry.** -/
theorem freeEntry_spec (hw : m.Walkable t (d + 1)) (hf : m.FreeingTable n t done) (hi : i ∉ done)
    (ih : ∀ (n : Kmem R) (c : R.Frame), n.Walkable c d →
      ∃ n', freewalk d c n = some n' ∧ n.Freed n' c) :
    ∃ n', freeEntry d t n i = some n' ∧ m.FreeingTable n' t (i :: done) := by
  obtain ⟨e, he, hlink⟩ := hw.table t i Radix.below_self
  have hne : n.pte t i = some e := (hf.todo i hi).trans he
  unfold freeEntry
  rw [bind_some_fst hne]
  by_cases hl : pteLink e
  · obtain ⟨c, hc⟩ := Option.isSome_iff_exists.1 (hlink hl)
    have hchild : m.child t i = some c := (child_of_pte he hl).trans hc
    -- the subtree of `c` is as it was
    have hsub : ∀ f, Radix.Below m.child c f → f ≠ t ∧ ¬m.BelowDone t done f := by
      intro f hb
      refine ⟨?_, ?_⟩
      · rintro rfl
        exact hw.tree.not_below hchild hb
      · rintro ⟨j, hj, c', hc', hb'⟩
        have hij : i ≠ j := by
          rintro rfl
          exact hi hj
        exact hw.tree.disjoint hchild hc' hij hb hb'
    have hin : ∀ f, Radix.Below m.child c f → Radix.Below m.child t f := fun f hb =>
      Radix.below_iff.2 (.inr ⟨i, c, hchild, hb⟩)
    have hpage : ∀ f, Radix.Below m.child c f → n.page f = m.page f := fun f hb =>
      hf.page f (hsub f hb).1 (hsub f hb).2
    obtain ⟨htree, hbelow⟩ := (hw.tree.sub hchild).congr fun f hb => child_of_page_eq (hpage f hb)
    have hnode : ∀ p, n.node c p = m.node c p := fun p =>
      Radix.node_congr fun q f hq => child_of_page_eq (hpage f ⟨q, hq⟩)
    have hwc : n.Walkable c d := by
      refine ⟨htree, fun p f hp => ?_, fun f hb => ?_, fun f j hb => ?_⟩
      · rw [hnode] at hp
        have hlt := hw.depth (i :: p) f (Radix.node_cons hchild hp)
        rw [List.length_cons] at hlt
        omega
      · rw [hbelow] at hb
        rw [hf.free]
        exact fun ho => ho.elim (hw.used f (hin f hb)) (hsub f hb).2
      · rw [hbelow] at hb
        rw [pte_of_page_eq (hpage f hb)]
        exact hw.table f j (hin f hb)
    obtain ⟨n₁, hn₁, hfreed⟩ := ih n c hwc
    have htc : ¬Radix.Below n.child c t := by
      rw [hbelow]
      exact hw.tree.not_below hchild
    have htp : n₁.pte t = n.pte t := pte_of_page_eq (hfreed.page t htc)
    have hte : n₁.pte t i = some e := by
      rw [htp]
      exact hne
    rw [if_pos hl, bind_some_fst hc, bind_some_fst hn₁]
    refine ⟨_, rfl, ⟨fun f => ?_, fun hnd => ?_, fun f hft hnb => ?_, fun f hb => ?_, fun j hj => ?_,
      fun j => ?_⟩⟩
    · rw [freelist_setPte, hfreed.free, hf.free, hbelow, belowDone_cons]
      constructor
      · rintro ((hm | hd) | hb)
        · exact .inl hm
        · exact .inr (.inr hd)
        · exact .inr (.inl ⟨c, hchild, hb⟩)
      · rintro (hm | ⟨c', hc', hb⟩ | hd)
        · exact .inl (.inl hm)
        · obtain rfl := Option.some.inj (hchild.symm.trans hc')
          exact .inr hb
        · exact .inl (.inr hd)
    · rw [freelist_setPte]
      exact hfreed.nodup (hf.nodup hnd)
    · rw [belowDone_cons, not_or] at hnb
      rw [page_setPte_ne hft, hfreed.page f, hf.page f hft hnb.2]
      rw [hbelow]
      exact fun hb => hnb.1 ⟨c, hchild, hb⟩
    · rw [bytes_setPte]
      rw [belowDone_cons] at hb
      rcases hb with ⟨c', hc', hb⟩ | hb
      · obtain rfl := Option.some.inj (hchild.symm.trans hc')
        exact hfreed.bytes f ((hbelow f).2 hb)
      · rw [bytes_of_page_eq (hfreed.page f ?_)]
        · exact hf.bytes f hb
        · rw [hbelow]
          exact fun hb' => (hsub f hb').2 hb
    · have hij : j ≠ i := fun hji => hj (hji ▸ List.mem_cons_self)
      rw [pte_setPte hte]
      dsimp only
      rw [if_neg fun hc' => hij hc'.2, htp]
      exact hf.todo j fun hm => hj (List.mem_cons_of_mem i hm)
    · rw [pte_setPte hte]
      dsimp only
      split
      · rfl
      · rw [htp]
        exact hf.table j
  · have hnone : m.child t i = none :=
      child_none fun e' he' hl' => hl (Option.some.inj (he.symm.trans he') ▸ hl')
    have hsame : ∀ f, m.BelowDone t (i :: done) f ↔ m.BelowDone t done f := by
      intro f
      rw [belowDone_cons]
      refine ⟨fun ho => ho.resolve_left ?_, Or.inr⟩
      rintro ⟨c, hc, -⟩
      rw [hnone] at hc
      cases hc
    rw [if_neg hl]
    refine ⟨n, rfl, ⟨fun f => ?_, hf.nodup, fun f hft hnb => ?_, fun f hb => ?_, fun j hj => ?_,
      hf.table⟩⟩
    · rw [hsame]
      exact hf.free f
    · rw [hsame] at hnb
      exact hf.page f hft hnb
    · rw [hsame] at hb
      exact hf.bytes f hb
    · exact hf.todo j fun hm => hj (List.mem_cons_of_mem i hm)

/-- **The loop**, over the entries that are left. -/
theorem freeEntries_spec (hw : m.Walkable t (d + 1))
    (ih : ∀ (n : Kmem R) (c : R.Frame), n.Walkable c d →
      ∃ n', freewalk d c n = some n' ∧ n.Freed n' c) :
    ∀ (l : List (Fin 512)) (n : Kmem R) (done : List (Fin 512)), l.Nodup → (∀ i ∈ l, i ∉ done) →
      m.FreeingTable n t done →
      ∃ n' done', l.foldlM (freeEntry d t) n = some n' ∧ m.FreeingTable n' t done' ∧
        ∀ i, i ∈ done' ↔ i ∈ done ∨ i ∈ l := by
  intro l
  induction l with
  | nil => exact fun n done _ _ hf => ⟨n, done, rfl, hf, fun i => by simp⟩
  | cons i l ihl =>
    intro n done hnd hout hf
    obtain ⟨hil, hndl⟩ := List.nodup_cons.1 hnd
    obtain ⟨n₁, hn₁, hf₁⟩ := freeEntry_spec hw hf (hout i List.mem_cons_self) ih
    have hout₁ : ∀ j ∈ l, j ∉ i :: done := by
      intro j hj hm
      rcases List.mem_cons.1 hm with rfl | hm
      · exact hil hj
      · exact hout j (List.mem_cons_of_mem i hj) hm
    obtain ⟨n', done', hn', hf', hd'⟩ := ihl n₁ (i :: done) hndl hout₁ hf₁
    refine ⟨n', done', ?_, hf', fun j => ?_⟩
    · rw [List.foldlM_cons, bind_some_fst hn₁]
      exact hn'
    · rw [hd', List.mem_cons, List.mem_cons]
      tauto

/-- **`freewalk`** gives back the pages of the tree. -/
theorem freewalk_spec : ∀ (d : ℕ) (m : Kmem R) (t : R.Frame), m.Walkable t d →
    ∃ m', freewalk d t m = some m' ∧ m.Freed m' t := by
  intro d
  induction d with
  | zero =>
    intro m t hw
    exact absurd (hw.depth [] t rfl) (Nat.not_lt_zero 0)
  | succ d ih =>
    intro m t hw
    have hnb : ∀ f, ¬m.BelowDone t [] f := by
      rintro f ⟨i, hi, -⟩
      cases hi
    have hstart : m.FreeingTable m t [] := by
      refine ⟨fun f => ?_, id, fun f _ _ => rfl, fun f hb => absurd hb (hnb f), fun i _ => rfl,
        fun i => ?_⟩
      · exact ⟨.inl, fun ho => ho.resolve_right (hnb f)⟩
      · obtain ⟨e, he, -⟩ := hw.table t i Radix.below_self
        rw [he]
        rfl
    -- what is below the table is the table and what is below its entries, all of them done
    obtain ⟨n, done, hn, hf, hd⟩ := freeEntries_spec hw ih (List.finRange 512) m []
      (List.nodup_finRange 512) (fun i _ hi => by cases hi) hstart
    have hbelow : ∀ f, Radix.Below m.child t f ↔ f = t ∨ m.BelowDone t done f := by
      intro f
      rw [Radix.below_iff]
      refine or_congr Iff.rfl ⟨?_, ?_⟩
      · rintro ⟨i, c, hc, hb⟩
        exact ⟨i, (hd i).2 (.inr (List.mem_finRange i)), c, hc, hb⟩
      · rintro ⟨i, -, c, hc, hb⟩
        exact ⟨i, c, hc, hb⟩
    obtain ⟨m', hm', hfl, hpage⟩ := kfree_pa (m := n) t
    have hpne : ∀ f, f ≠ t → m'.page f = n.page f := by
      intro f hft
      rw [hpage]
      exact Function.update_of_ne hft ..
    refine ⟨m', ?_, ⟨fun f => ?_, fun hnd => ?_, fun f hb => ?_, fun f hb => ?_⟩⟩
    · exact (freewalk_of_loop hn).trans hm'
    · rw [hfl, List.mem_cons, hf.free, hbelow]
      exact or_left_comm
    · rw [hfl]
      refine List.nodup_cons.2 ⟨?_, hf.nodup hnd⟩
      rw [hf.free]
      rintro (hm | ⟨i, -, c, hc, hb⟩)
      · exact hw.used t Radix.below_self hm
      · exact hw.tree.not_below hc hb
    · rw [hbelow, not_or] at hb
      rw [hpne f hb.1]
      exact hf.page f hb.1 hb.2
    · by_cases hft : f = t
      · rw [hft, bytes_of_page hpage]
        exact congrArg Option.isSome (bytes_setPage_self _)
      · rw [bytes_of_page_eq (hpne f hft)]
        exact hf.bytes f (((hbelow f).1 hb).resolve_left hft)

/-! ### A page table is freed -/

theorem Shape.walkable (hs : m.Shape roots held) (hr : roots h = some r) : m.Walkable r 3 := by
  refine ⟨hs.tree hr, fun p f hp => ?_, fun f hb => ?_, fun f i hb => ?_⟩
  · have hd := (hs.tables h r p f hr hp).depth
    omega
  · obtain ⟨p, hp⟩ := hb
    exact hs.not_free (c := .table h p) ((place_table hr).trans hp)
  · obtain ⟨p, hp⟩ := hb
    obtain ⟨hd, htab⟩ := hs.tables h r p f hr hp
    obtain ⟨e, he, hc, hl⟩ := htab i
    refine ⟨e, he, fun hlink => ?_⟩
    rcases Nat.lt_or_eq_of_le hd with hlt | heq
    · rw [← child_of_pte he hlink]
      exact hc hlt hlink.1
    · exact absurd hlink (hl heq)

/-- **`freewalk`** of a page table behind which there is no user memory. -/
theorem Shape.freewalk (hs : m.Shape roots held) (hr : roots h = some r)
    (hempty : ∀ v, m.userFrame r v = none) :
    ∃ m', freewalk 3 r m = some m' ∧ m'.Shape (Function.update roots h none) held ∧
      m'.seen (Function.update roots h none) = m.seen roots := by
  -- `freewalk` changes the pages of this tree only, and every other place holds another page
  obtain ⟨m', hm', hf⟩ := freewalk_spec 3 m r (hs.walkable hr)
  have hother : ∀ h' r', Function.update roots h none h' = some r' → roots h' = some r' ∧ h' ≠ h := by
    intro h' r' hr'
    by_cases hh : h' = h
    · rw [hh, Function.update_self] at hr'
      cases hr'
    · rw [Function.update_of_ne hh] at hr'
      exact ⟨hr', hh⟩
  -- what is in another place is not below the root
  have hkeep : ∀ c f, (∀ p, c ≠ .table h p) → m.place roots held c = some f →
      m'.page f = m.page f := by
    rintro c f hc hp
    refine hf.page f ?_
    rintro ⟨p, hq⟩
    exact hc p (hs.place_inj hp ((place_table hr).trans hq))
  have hnode : ∀ h' r', roots h' = some r' → h' ≠ h → m'.node r' = m.node r' := by
    intro h' r' hr' hh
    funext p
    refine Radix.node_congr fun q f hq => child_of_page_eq (hkeep (.table h' q) f ?_ ?_)
    · rintro p' hc
      injection hc with hh' _
      exact hh hh'
    · exact (place_table hr').trans hq
  have htab : ∀ h' r' p f, roots h' = some r' → h' ≠ h → m.node r' p = some f →
      m'.page f = m.page f := by
    intro h' r' p f hr' hh hp
    refine hkeep (.table h' p) f ?_ ((place_table hr').trans hp)
    rintro p' hc
    injection hc with hh' _
    exact hh hh'
  have hentry : ∀ h' r', roots h' = some r' → h' ≠ h → m'.entry r' = m.entry r' := by
    intro h' r' hr' hh
    funext v
    unfold entry
    rw [hnode h' r' hr' hh]
    cases hn : m.node r' (vpath v) with
    | none => rfl
    | some t =>
      rw [Option.bind_some, Option.bind_some, pte_of_page_eq (htab h' r' _ t hr' hh hn)]
  have hplace : ∀ c, (∀ p, c ≠ .table h p) → (∀ v, c ≠ .page h v) →
      m'.place (Function.update roots h none) held c = m.place roots held c := by
    intro c hct hcp
    cases c with
    | hand k => rfl
    | table h' p =>
      have hh : h' ≠ h := by
        rintro rfl
        exact hct p rfl
      exact place_table_congr (Function.update_of_ne hh ..) fun r' hr' => by
        rw [hnode h' r' hr' hh]
    | page h' v =>
      have hh : h' ≠ h := by
        rintro rfl
        exact hcp v rfl
      exact place_page_congr (Function.update_of_ne hh ..) fun r' hr' => by
        rw [hentry h' r' hr' hh]
  -- the places of the page table are empty now
  have hgone : ∀ c, (∃ p, c = .table h p) ∨ (∃ v, c = .page h v) →
      m'.place (Function.update roots h none) held c = none := by
    rintro c (⟨p, rfl⟩ | ⟨v, rfl⟩)
    · unfold place
      dsimp only
      rw [Function.update_self]
      rfl
    · unfold place
      dsimp only
      rw [Function.update_self]
      rfl
  refine ⟨m', hm', ⟨hf.nodup hs.nodup, fun f hm => ?_, ?_, fun h' r' p t hr' hn => ?_,
    fun k f hk => ?_, fun h' r' v hr' hv hval => ?_⟩, ?_⟩
  · rcases (hf.free f).1 hm with hm | hb
    · rw [bytes_of_page_eq (hf.page f ?_)]
      · exact hs.free f hm
      · rintro ⟨p, hp⟩
        exact hs.free_place hm (.table h p) ((place_table hr).trans hp)
    · exact hf.bytes f hb
  · refine hs.owned.release (fun c => (∃ p, c = .table h p) ∨ ∃ v, c = .page h v) hgone ?_
      fun x => ?_
    · intro c hc
      rw [not_or] at hc
      exact hplace c (fun p hp => hc.1 ⟨p, hp⟩) fun v hv => hc.2 ⟨v, hv⟩
    · constructor
      · rintro ⟨f, rfl, hn⟩
        rw [hf.free, not_or] at hn
        refine ⟨⟨f, rfl, hn.1⟩, ?_⟩
        rintro c (⟨p, rfl⟩ | ⟨v, rfl⟩) hc
        · exact hn.2 ⟨p, (place_table hr).symm.trans hc⟩
        · rw [place_page hr, hempty] at hc
          cases hc
      · rintro ⟨⟨f, rfl, hn⟩, hne⟩
        refine ⟨f, rfl, ?_⟩
        rw [hf.free, not_or]
        refine ⟨hn, ?_⟩
        rintro ⟨p, hp⟩
        exact hne _ (.inl ⟨p, rfl⟩) ((place_table hr).trans hp)
  · obtain ⟨hr'', hh⟩ := hother h' r' hr'
    rw [hnode h' r' hr'' hh] at hn
    obtain ⟨hd, ht⟩ := hs.tables h' r' p t hr'' hn
    have hpage := htab h' r' p t hr'' hh hn
    refine ⟨hd, fun i => ?_⟩
    rw [pte_of_page_eq hpage, child_of_page_eq hpage]
    exact ht i
  · rw [bytes_of_page_eq (hkeep (.hand k) f (fun p hc => by cases hc) hk)]
    exact hs.hands k f hk
  · obtain ⟨hr'', hh⟩ := hother h' r' hr'
    rw [hentry h' r' hr'' hh] at hval ⊢
    obtain ⟨f, hfr, hb⟩ := hs.pages h' r' v hr'' hv hval
    refine ⟨f, hfr, ?_⟩
    rw [bytes_of_page_eq (hkeep (.page h' v) f (fun p hc => by cases hc) ?_)]
    · exact hb
    · rw [place_page hr'']
      unfold userFrame
      rw [if_pos ⟨hv, hval⟩]
      exact hfr
  · funext h' v
    by_cases hh : h' = h
    · unfold seen
      rw [hh, Function.update_self, hr, Option.bind_some, hempty]
      rfl
    · refine seen_congr (Function.update_of_ne hh ..) (fun r' hr' => by rw [hentry h' r' hr' hh])
        fun r' f hr' hu => ?_
      exact bytes_of_page_eq (hkeep (.page h' v) f (fun p hc => by cases hc)
        ((place_page hr').trans hu))

end Kmem

end AgentOS
