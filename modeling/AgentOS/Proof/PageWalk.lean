import AgentOS.Proof.PageOps

/-!
# `walk`, `mappages` and `uvmunmap` on one page

* `walk_find`: without `alloc`, `walk` finds the entry of the page, or no page table for it.
* `walk_alloc`: with it, it finds the entry unless there is no memory; user memory stays.
* `mapRound_spec`, `unmapRound_spec`: one page of user memory comes and goes.
-/

namespace AgentOS

namespace Kmem

variable {R : Ram} {m m' : Kmem R} {roots : ℕ → Option R.Frame}
  {held held' : Option ℕ → Option R.Frame} {h h' v v' a : ℕ} {r r' t t' f g : R.Frame}
  {i j : Fin 512} {e e' : Pte} {p q : List (Fin 512)} {b : ℕ → UInt8} {perm : BitVec 32}

/-! ### One entry -/

theorem Shape.child_setPte (hs : m.Shape roots held) (hr : roots h = some r)
    (ht : m.node r (vpath v) = some t) (hl : ¬pteLink e) :
    (m.setPte t (pn 0 v) e).child = m.child := by
  obtain ⟨he, hnl⟩ := hs.entry_of_node hr ht
  funext t' j
  unfold child
  rw [pte_setPte he]
  dsimp only
  by_cases hc : t' = t ∧ j = pn 0 v
  · obtain ⟨rfl, rfl⟩ := hc
    rw [if_pos ⟨rfl, rfl⟩, he, Option.bind_some, Option.bind_some, if_neg hl, if_neg hnl]
  · rw [if_neg hc]

/-- **The entries after a store to one of them.** -/
theorem Shape.entry_setPte (hs : m.Shape roots held) (hr : roots h = some r)
    (ht : m.node r (vpath v) = some t) (hl : ¬pteLink e) (hv : v < 2 ^ 27) (hr' : roots h' = some r')
    (hv' : v' < 2 ^ 27) :
    (m.setPte t (pn 0 v) e).entry r' v' = if h' = h ∧ v' = v then e else m.entry r' v' := by
  obtain ⟨he, -⟩ := hs.entry_of_node hr ht
  unfold entry node
  rw [hs.child_setPte hr ht hl, pte_setPte he]
  by_cases hc : h' = h ∧ v' = v
  · obtain ⟨rfl, rfl⟩ := hc
    obtain rfl := Option.some.inj (hr.symm.trans hr')
    rw [if_pos ⟨rfl, rfl⟩]
    change ((m.node r (vpath v')).bind _).getD 0 = e
    rw [ht, Option.bind_some]
    dsimp only
    rw [if_pos ⟨rfl, rfl⟩]
    rfl
  · rw [if_neg hc]
    change ((m.node r' (vpath v')).bind _).getD 0 = ((m.node r' (vpath v')).bind _).getD 0
    cases hn : m.node r' (vpath v') with
    | none => rfl
    | some t' =>
      rw [Option.bind_some, Option.bind_some]
      dsimp only
      rw [if_neg]
      rintro ⟨rfl, h0⟩
      obtain ⟨rfl, hp⟩ := hs.table_inj hr' hr hn ht
      exact hc ⟨rfl, vpath_inj hv' hv hp h0⟩

theorem userPages_lt (hv : v < userPages) : v < 2 ^ 27 := by
  rw [userPages_eq] at hv
  omega

/-- The entry that was stored. -/
theorem Shape.entry_self (hs : m.Shape roots held) (hr : roots h = some r)
    (ht : m.node r (vpath v) = some t) (hl : ¬pteLink e) (hv : v < userPages) :
    (m.setPte t (pn 0 v) e).entry r v = e := by
  rw [hs.entry_setPte hr ht hl (userPages_lt hv) hr (userPages_lt hv), if_pos ⟨rfl, rfl⟩]

theorem userFrame_ge (hv : ¬v < userPages) : m.userFrame r v = none := by
  unfold userFrame
  rw [if_neg fun hc => hv hc.1]

theorem Shape.userFrame_setPte (hs : m.Shape roots held) (hr : roots h = some r)
    (ht : m.node r (vpath v) = some t) (hl : ¬pteLink e) (hv : v < userPages)
    (hr' : roots h' = some r') (hc : ¬(h' = h ∧ v' = v)) :
    (m.setPte t (pn 0 v) e).userFrame r' v' = m.userFrame r' v' := by
  by_cases hv' : v' < userPages
  · apply userFrame_congr
    rw [hs.entry_setPte hr ht hl (userPages_lt hv) hr' (userPages_lt hv'), if_neg hc]
  · rw [userFrame_ge hv', userFrame_ge hv']

/-- The places after a store to the entry of page `v`, the page of `v` apart. -/
theorem Shape.place_setPte (hs : m.Shape roots held) (hr : roots h = some r)
    (ht : m.node r (vpath v) = some t) (hl : ¬pteLink e) (hv : v < userPages) {c : Place}
    (hc : c ≠ .page h v) :
    (m.setPte t (pn 0 v) e).place roots held c = m.place roots held c := by
  cases c with
  | hand k => rfl
  | table h' p =>
    unfold place node
    dsimp only
    rw [hs.child_setPte hr ht hl]
  | page h' v' =>
    cases hr' : roots h' with
    | none =>
      unfold place
      dsimp only
      rw [hr']
      rfl
    | some r' =>
      rw [place_page hr', place_page hr']
      refine hs.userFrame_setPte hr ht hl hv hr' ?_
      rintro ⟨rfl, rfl⟩
      exact hc rfl

/-- **A store to one entry** keeps the shape, if the places are right again. -/
theorem Shape.setEntry (hs : m.Shape roots held) (hr : roots h = some r)
    (ht : m.node r (vpath v) = some t) (hl : ¬pteLink e) (hv : v < userPages)
    (howned : Owned (fun x => ∃ f, x = some f ∧ f ∉ m.freelist) none
      ((m.setPte t (pn 0 v) e).place roots held'))
    (hands : ∀ k f, held' k = some f → (m.bytes f).isSome = true)
    (hpage : pteValid e → ∃ f, R.frameOf (pte2pa e) = some f ∧ (m.bytes f).isSome = true) :
    (m.setPte t (pn 0 v) e).Shape roots held' := by
  obtain ⟨he, -⟩ := hs.entry_of_node hr ht
  have hchild := hs.child_setPte hr ht hl
  refine ⟨?_, fun f hf => ?_, ?_, fun h' r' p t' hr' hn => ?_, fun k f hf => ?_,
    fun h' r' v' hr' hv' hval => ?_⟩
  · rw [freelist_setPte]
    exact hs.nodup
  · rw [freelist_setPte] at hf
    rw [bytes_setPte]
    exact hs.free f hf
  · rw [freelist_setPte]
    exact howned
  · unfold node at hn
    rw [hchild] at hn
    obtain ⟨hd, htab⟩ := hs.tables h' r' p t' hr' hn
    refine ⟨hd, fun j => ?_⟩
    rw [hchild, pte_setPte he]
    dsimp only
    by_cases hc : t' = t ∧ j = pn 0 v
    · obtain ⟨rfl, rfl⟩ := hc
      have hp := (hs.table_inj hr' hr hn ht).2
      rw [if_pos ⟨rfl, rfl⟩]
      refine ⟨e, rfl, fun hlt => ?_, fun _ => hl⟩
      rw [hp] at hlt
      exact absurd hlt (Nat.lt_irrefl 2)
    · rw [if_neg hc]
      exact htab j
  · rw [bytes_setPte]
    exact hands k f hf
  · rw [hs.entry_setPte hr ht hl (userPages_lt hv) hr' (userPages_lt hv')] at hval ⊢
    rw [bytes_setPte]
    split at hval
    · rename_i hc
      rw [if_pos hc]
      exact hpage hval
    · rename_i hc
      rw [if_neg hc]
      exact hs.pages h' r' v' hr' hv' hval

/-- User memory with one page replaced. -/
def setSeen (s : ℕ → ℕ → Option UserPage) (h v : ℕ) (x : Option UserPage) :
    ℕ → ℕ → Option UserPage := fun h' v' => if h' = h ∧ v' = v then x else s h' v'

theorem Shape.seen_setPte (hs : m.Shape roots held) (hr : roots h = some r)
    (ht : m.node r (vpath v) = some t) (hl : ¬pteLink e) (hv : v < userPages)
    {x : Option UserPage}
    (hx : ((m.setPte t (pn 0 v) e).userFrame r v).bind (fun f =>
      (m.bytes f).map fun b => (⟨pteFlags e, b⟩ : UserPage)) = x) :
    (m.setPte t (pn 0 v) e).seen roots = setSeen (m.seen roots) h v x := by
  funext h' v'
  unfold setSeen
  by_cases hc : h' = h ∧ v' = v
  · obtain ⟨rfl, rfl⟩ := hc
    rw [if_pos ⟨rfl, rfl⟩, ← hx]
    unfold seen
    rw [hr, Option.bind_some, bytes_setPte, hs.entry_self hr ht hl hv]
  · rw [if_neg hc]
    unfold seen
    cases hr' : roots h' with
    | none => rfl
    | some r' =>
      rw [Option.bind_some, Option.bind_some, hs.userFrame_setPte hr ht hl hv hr' hc, bytes_setPte]
      by_cases hv' : v' < userPages
      · rw [hs.entry_setPte hr ht hl (userPages_lt hv) hr' (userPages_lt hv'), if_neg hc]
      · rw [userFrame_ge hv']
        rfl

/-! ### `walk` -/

theorem vpath_of_px (a : ℕ) : [px 2 a, px 1 a] = vpath (a / pgsize) := by
  rw [px_eq, px_eq]
  rfl

theorem bind_some_fst {α β : Type} {x : Option α} {y : α} {k : α → Option β} (hx : x = some y) :
    (x >>= k) = k y := by
  rw [hx]
  rfl

/-- A round of `walk` at a page table page above the last level. -/
theorem Shape.walkRound_find (hs : m.Shape roots held) (hr : roots h = some r)
    (ht : m.node r p = some t) (hp : p.length < 2) (i : Fin 512) :
    m.walkRound false t i = some (m.child t i, m) := by
  obtain ⟨e, he, hc, -⟩ := (hs.tables h r p t hr ht).table i
  unfold walkRound
  rw [bind_some_fst he]
  by_cases hv : pteValid e
  · rw [if_pos hv]
    obtain ⟨c, hcc⟩ := Option.isSome_iff_exists.1 (hc hp hv)
    have hl : pteLink e := by
      by_contra hl
      rw [child_none fun e' he' hl' => hl (Option.some.inj (he.symm.trans he') ▸ hl')] at hcc
      cases hcc
    have hf : R.frameOf (pte2pa e) = some c := (child_of_pte he hl).symm.trans hcc
    rw [bind_some_fst hf, hcc]
  · rw [if_neg hv, if_neg Bool.false_ne_true, child_eq_none (.inr ⟨e, he, hv⟩)]

/-- **`walk` without `alloc`.** -/
theorem Shape.walk_find (hs : m.Shape roots held) (hr : roots h = some r) (hva : a < maxva) :
    m.walk r a false =
      some ((m.node r (vpath (a / pgsize))).map fun t => (t, pn 0 (a / pgsize)), m) := by
  unfold walk
  rw [if_neg (Nat.not_le_of_lt hva), bind_some_fst (hs.walkRound_find (p := []) hr rfl (by decide) _)]
  dsimp only
  rw [← vpath_of_px]
  have hnode : m.node r [px 2 a, px 1 a] =
      (m.child r (px 2 a)).bind fun c => m.child c (px 1 a) := by
    unfold node Radix.node
    congr 1
    funext c
    exact Option.bind_fun_some _
  rw [hnode]
  cases hc : m.child r (px 2 a) with
  | none => rfl
  | some c =>
    have hn : m.node r [px 2 a] = some c := (Option.bind_fun_some _).trans hc
    dsimp only
    rw [bind_some_fst (hs.walkRound_find (p := [px 2 a]) hr hn (by decide : 1 < 2) _), px_eq 0]
    rfl

/-- A round of `walk` that allocates. -/
theorem Shape.walkRound_alloc (hs : m.Shape roots held) (hr : roots h = some r)
    (ht : m.node r p = some t) (hp : p.length < 2) (i : Fin 512) :
    ∃ c m', m.walkRound true t i = some (c, m') ∧ m'.Shape roots held ∧ m.Extends m' roots ∧
      ∀ c', c = some c' → m'.node r (p ++ [i]) = some c' := by
  obtain ⟨e, he, hc, -⟩ := (hs.tables h r p t hr ht).table i
  by_cases hv : pteValid e
  · have hf := hs.walkRound_find hr ht hp i
    refine ⟨m.child t i, m, ?_, hs, Extends.refl m roots, fun c' hc' => ?_⟩
    · unfold walkRound at hf ⊢
      rw [bind_some_fst he, if_pos hv] at hf ⊢
      exact hf
    · rw [node_snoc, ht, Option.bind_some]
      exact hc'
  · unfold walkRound
    rw [bind_some_fst he, if_neg hv, if_pos rfl]
    cases ha : m.kalloc with
    | none => exact ⟨none, m, rfl, hs, Extends.refl m roots, fun c' hc' => by cases hc'⟩
    | some x =>
      obtain ⟨f, m₁⟩ := x
      obtain ⟨hs', hx, hn⟩ := hs.graft hr ht hp he hv ha rfl
      refine ⟨some f, _, rfl, hs', hx, fun c' hc' => ?_⟩
      rw [← Option.some.inj hc']
      exact hn

/-- **`walk` with `alloc`.** -/
theorem Shape.walk_alloc (hs : m.Shape roots held) (hr : roots h = some r) (hva : a < maxva) :
    ∃ x m', m.walk r a true = some (x, m') ∧ m'.Shape roots held ∧ m.Extends m' roots ∧
      (x = none ∨ ∃ t, x = some (t, pn 0 (a / pgsize)) ∧
        m'.node r (vpath (a / pgsize)) = some t) := by
  obtain ⟨c, m₁, h₁, hs₁, hx₁, hn₁⟩ :=
    hs.walkRound_alloc (p := []) hr rfl (by decide) (px 2 a)
  unfold walk
  rw [if_neg (Nat.not_le_of_lt hva), bind_some_fst h₁]
  dsimp only
  cases c with
  | none => exact ⟨none, m₁, rfl, hs₁, hx₁, .inl rfl⟩
  | some c =>
    obtain ⟨d, m₂, h₂, hs₂, hx₂, hn₂⟩ :=
      hs₁.walkRound_alloc hr (hn₁ c rfl) (by decide : 1 < 2) (px 1 a)
    dsimp only
    rw [bind_some_fst h₂]
    refine ⟨_, m₂, rfl, hs₂, hx₁.trans hx₂, ?_⟩
    cases d with
    | none => exact .inl rfl
    | some d =>
      refine .inr ⟨d, ?_, ?_⟩
      · rw [px_eq 0]
        rfl
      · rw [← vpath_of_px]
        exact hn₂ d rfl

/-! ### One page of user memory -/

theorem user_lt_maxva (hv : a / pgsize < userPages) : a < maxva := by
  have hs : pgsize = 4096 := rfl
  have hm : maxva = 274877906944 := by decide
  rw [userPages_eq, hs] at hv
  omega

/-- A page of user memory that can be read, written or executed. -/
structure Mappable (perm : BitVec 32) : Prop where
  small : perm.toNat < 1024
  rwx : (perm ||| 1) &&& (pteR ||| pteW ||| pteX) ≠ 0

theorem pteMake_frame (f : R.Frame) (hp : perm.toNat < 1024) :
    R.frameOf (pte2pa (pteMake (R.pa f) perm)) = some f ∧
      pteFlags (pteMake (R.pa f) perm) = perm ||| 1 ∧ pteValid (pteMake (R.pa f) perm) := by
  have hk : R.first + f.val < 2 ^ 44 := by
    have := R.npages_lt
    have := f.isLt
    omega
  have hfl := pteMake_flags (R.pa_toNat f) hk hp
  refine ⟨?_, hfl, ?_⟩
  · rw [pteMake_pa (R.pa_toNat f) hk hp, R.frameOf_pa]
  · rw [pteValid_iff, hfl]
    intro h0
    have hb := congrArg (fun x => BitVec.getLsbD x 0) h0
    simp at hb

/-- The page in the hand of the kernel becomes page `v` of user memory. -/
theorem Shape.mapEntry (hs : m.Shape roots held) (hr : roots h = some r)
    (ht : m.node r (vpath v) = some t) (hv : v < userPages) (hinv : ¬pteValid (m.entry r v))
    (hk : held none = some f) (hp : Mappable perm) (hb : m.bytes f = some b) :
    (m.setPte t (pn 0 v) (pteMake (R.pa f) perm)).Shape roots (Function.update held none none) ∧
      (m.setPte t (pn 0 v) (pteMake (R.pa f) perm)).seen roots =
        setSeen (m.seen roots) h v (some ⟨perm ||| 1, b⟩) := by
  obtain ⟨hfr, hfl, hval⟩ := pteMake_frame f hp.small
  have hl : ¬pteLink (pteMake (R.pa f) perm) := by
    apply not_pteLink
    rw [hfl]
    exact hp.rwx
  have hnew : (m.setPte t (pn 0 v) (pteMake (R.pa f) perm)).userFrame r v = some f := by
    unfold userFrame
    rw [hs.entry_self hr ht hl hv, if_pos ⟨hv, hval⟩]
    exact hfr
  refine ⟨hs.setEntry hr ht hl hv ?_ (fun k g hg => ?_) fun _ => ⟨f, hfr, by rw [hb]; rfl⟩,
    hs.seen_setPte hr ht hl hv ?_⟩
  · refine hs.owned.transfer (c := .hand none) (d := .page h v) (r := some f) hk
      (Option.some_ne_none f) ?_ (place_hand_self _) ((place_page hr).trans hnew) fun c hc hd => ?_
    · refine (place_page hr).trans ?_
      unfold userFrame
      exact if_neg fun hc => hinv hc.2
    · rw [place_hand_ne hc, hs.place_setPte hr ht hl hv hd]
  · by_cases hkk : k = none
    · rw [hkk, Function.update_self] at hg
      cases hg
    · rw [Function.update_of_ne hkk] at hg
      exact hs.hands k g hg
  · rw [hnew, Option.bind_some, hb, hfl]
    rfl

/-- Page `v` of user memory goes into the hand of the kernel. -/
theorem Shape.unmapEntry (hs : m.Shape roots held) (hr : roots h = some r)
    (ht : m.node r (vpath v) = some t) (hf : m.userFrame r v = some f) (hk : held none = none) :
    (m.setPte t (pn 0 v) 0).Shape roots (Function.update held none (some f)) ∧
      (m.setPte t (pn 0 v) 0).seen roots = setSeen (m.seen roots) h v none := by
  obtain ⟨hv, -, -⟩ := userFrame_cases hf
  have hgone : (m.setPte t (pn 0 v) 0).userFrame r v = none := by
    unfold userFrame
    rw [hs.entry_self hr ht pteLink_zero hv]
    exact if_neg fun hc => pteValid_zero hc.2
  refine ⟨hs.setEntry hr ht pteLink_zero hv ?_ (fun k g hg => ?_) fun hc => absurd hc pteValid_zero,
    hs.seen_setPte hr ht pteLink_zero hv ?_⟩
  · refine hs.owned.transfer (c := .page h v) (d := .hand none) (r := some f)
      ((place_page hr).trans hf) (Option.some_ne_none f) hk ((place_page hr).trans hgone)
      (place_hand_self _) fun c hc hd => ?_
    rw [place_hand_ne hd, hs.place_setPte hr ht pteLink_zero hv hc]
  · by_cases hkk : k = none
    · rw [hkk, Function.update_self] at hg
      rw [← Option.some.inj hg]
      exact hs.userFrame_bytes hr hf
    · rw [Function.update_of_ne hkk] at hg
      exact hs.hands k g hg
  · rw [hgone]
    rfl

/-- **`mappages` on one page**: it fails for want of memory, or the page is mapped. -/
theorem Shape.mapRound_spec (hs : m.Shape roots held) (hr : roots h = some r)
    (hv : a / pgsize < userPages) (hno : m.seen roots h (a / pgsize) = none)
    (hk : held none = some f) (hp : Mappable perm) (hb : m.bytes f = some b) :
    ∃ ok m', m.mapRound r a (R.pa f) perm = some (ok, m') ∧
      (ok = false ∧ m'.Shape roots held ∧ m'.seen roots = m.seen roots ∨
        ok = true ∧ m'.Shape roots (Function.update held none none) ∧
          m'.seen roots = setSeen (m.seen roots) h (a / pgsize) (some ⟨perm ||| 1, b⟩)) := by
  obtain ⟨x, m₁, hw, hs₁, hx, hcase⟩ := hs.walk_alloc hr (user_lt_maxva hv)
  have hseen := hx.seen hs
  unfold mapRound
  rw [bind_some_fst hw]
  dsimp only
  rcases hcase with rfl | ⟨t, rfl, ht⟩
  · exact ⟨false, m₁, rfl, .inl ⟨rfl, hs₁, hseen⟩⟩
  · obtain ⟨he, -⟩ := hs₁.entry_of_node hr ht
    have hinv : ¬pteValid (m₁.entry r (a / pgsize)) := by
      rw [← hs₁.seen_isSome hr hv, hseen, hno]
      exact Bool.false_ne_true
    have hb₁ : m₁.bytes f = some b := by
      rw [hx.bytes f (hs.not_free (c := .hand none) hk) (by rw [hb]; rfl), hb]
    obtain ⟨hs₂, hseen₂⟩ := hs₁.mapEntry hr ht hv hinv hk hp hb₁
    dsimp only
    rw [bind_some_fst he, if_neg hinv]
    refine ⟨true, _, rfl, .inr ⟨rfl, hs₂, ?_⟩⟩
    rw [hseen₂, hseen]

theorem setPte_kfree (hft : f ≠ t) (ha : m.kfree (R.pa f) = some m') :
    (m.setPte t i e).kfree (R.pa f) = some (m'.setPte t i e) := by
  unfold Kmem.kfree at ha ⊢
  rw [R.frameOf_pa, Option.map_some] at ha ⊢
  obtain rfl := Option.some.inj ha
  unfold setPte
  dsimp only
  rw [Function.update_of_ne hft.symm]
  cases m.page t with
  | bytes b => rfl
  | table es =>
    unfold setPage
    dsimp only
    rw [Function.update_comm hft]

/-- **`uvmunmap` on one page**: it is unmapped and given back. -/
theorem Shape.unmapRound_spec (hs : m.Shape roots held) (hr : roots h = some r)
    (hv : a / pgsize < userPages) (hk : held none = none) :
    ∃ m', m.unmapRound r a true = some m' ∧ m'.Shape roots held ∧
      m'.seen roots = setSeen (m.seen roots) h (a / pgsize) none := by
  have hsame : m.userFrame r (a / pgsize) = none →
      m.seen roots = setSeen (m.seen roots) h (a / pgsize) none := by
    intro hn
    funext h' v'
    unfold setSeen
    split
    · rename_i hc
      rw [hc.1, hc.2]
      unfold seen
      rw [hr, Option.bind_some, hn]
      rfl
    · rfl
  unfold unmapRound
  rw [bind_some_fst (hs.walk_find hr (user_lt_maxva hv))]
  dsimp only
  cases ht : m.node r (vpath (a / pgsize)) with
  | none =>
    refine ⟨m, rfl, hs, hsame ?_⟩
    unfold userFrame
    rw [entry_none ht]
    exact if_neg fun hc => pteValid_zero hc.2
  | some t =>
    obtain ⟨he, hl⟩ := hs.entry_of_node hr ht
    rw [Option.map_some]
    dsimp only
    rw [bind_some_fst he]
    by_cases hval : pteValid (m.entry r (a / pgsize))
    · rw [if_neg (not_not_intro hval), if_neg (pteFlags_ne_one hval hl), if_pos rfl]
      obtain ⟨f, hfr, hb⟩ := hs.pages h r _ hr hv hval
      have huf : m.userFrame r (a / pgsize) = some f := by
        unfold userFrame
        rw [if_pos ⟨hv, hval⟩]
        exact hfr
      -- the code frees the page before it clears the entry; the order does not matter
      have hpa : pte2pa (m.entry r (a / pgsize)) = R.pa f := Ram.frameOf_inj hfr (R.frameOf_pa f)
      have hft : f ≠ t := by
        rintro rfl
        have hc := hs.place_inj (c := .page h (a / pgsize)) (d := .table h _)
          ((place_page hr).trans huf) ((place_table hr).trans ht)
        cases hc
      obtain ⟨hs₁, hseen₁⟩ := hs.unmapEntry hr ht huf hk
      obtain ⟨m₂, hm₂, hs₂, -, hseen₂⟩ := hs₁.kfree (k := none) (Function.update_self ..)
      obtain ⟨m₃, hm₃, -⟩ := kfree_pa (m := m) f
      rw [hpa, bind_some_fst hm₃]
      refine ⟨_, rfl, ?_⟩
      have hcomm := setPte_kfree (i := pn 0 (a / pgsize)) (e := 0) hft hm₃
      rw [hm₂] at hcomm
      rw [← Option.some.inj hcomm]
      refine ⟨?_, hseen₂.trans hseen₁⟩
      have hheld : Function.update (Function.update held none (some f)) none none = held := by
        rw [Function.update_idem, ← hk, Function.update_eq_self]
      rw [hheld] at hs₂
      exact hs₂
    · rw [if_pos hval]
      refine ⟨m, rfl, hs, hsame ?_⟩
      unfold userFrame
      exact if_neg fun hc => hval hc.2

end Kmem

end AgentOS
