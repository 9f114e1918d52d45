import AgentOS.Proof.PageFree

/-!
# Growing, shrinking and copying an address space

* `growRound_spec`: one more page of user memory, or no memory for it and nothing changes.
* `uvmalloc_spec`, `uvmdealloc_spec`, `uvmcopy_spec`: what the loops make of user memory. They do not
  panic: a page table never maps more pages than there are (`Shape.full_le`).
* `uvmcreate_spec`, `uvmfree_spec`: a page table comes and goes.
-/

namespace AgentOS

namespace Kmem

variable {R : Ram} {m m' : Kmem R} {roots : ℕ → Option R.Frame}
  {held : Option ℕ → Option R.Frame} {h h' v lo hi n a oldsz newsz : ℕ} {r r' t f : R.Frame}
  {perm : BitVec 32} {s : ℕ → ℕ → Option UserPage} {x : ℕ → Option UserPage}

/-! ### Ranges of user memory -/

/-- User memory with the pages from `lo` to `hi` of `h` replaced. -/
def setRange (s : ℕ → ℕ → Option UserPage) (h lo hi : ℕ) (x : ℕ → Option UserPage) :
    ℕ → ℕ → Option UserPage := fun h' v => if h' = h ∧ lo ≤ v ∧ v < hi then x v else s h' v

theorem setRange_empty (hle : hi ≤ lo) : setRange s h lo hi x = s := by
  funext h' v
  unfold setRange
  rw [if_neg]
  omega

/-- The first page of a range, and the others. -/
theorem setRange_succ (hlt : lo < hi) :
    setRange (setSeen s h lo (x lo)) h (lo + 1) hi x = setRange s h lo hi x := by
  funext h' v
  unfold setRange setSeen
  by_cases hv : h' = h ∧ v = lo
  · obtain ⟨rfl, rfl⟩ := hv
    rw [if_neg (by omega), if_pos ⟨rfl, rfl⟩, if_pos ⟨rfl, Nat.le_refl v, hlt⟩]
  · rw [if_neg hv]
    refine if_congr ?_ rfl rfl
    omega

/-- A page that is taken away again. -/
theorem setRange_setSeen (hv : s h v = none) (y : Option UserPage) (hle : lo ≤ v) :
    setRange (setSeen s h v y) h lo (v + 1) (fun _ => none) =
      setRange s h lo v fun _ => none := by
  funext h' w
  unfold setRange setSeen
  by_cases hw : h' = h ∧ w = v
  · obtain ⟨rfl, rfl⟩ := hw
    rw [if_pos ⟨rfl, hle, Nat.lt_succ_self w⟩, if_neg (by omega)]
    exact hv.symm
  · rw [if_neg hw]
    refine if_congr ?_ rfl rfl
    omega

/-! ### How many pages there can be -/

theorem seen_userFrame (hr : roots h = some r) (hv : (m.seen roots h v).isSome = true) :
    ∃ f, m.userFrame r v = some f := by
  unfold seen at hv
  rw [hr, Option.bind_some] at hv
  cases hf : m.userFrame r v with
  | none =>
    rw [hf] at hv
    cases hv
  | some f => exact ⟨f, rfl⟩

/-- **No more pages of user memory than pages.** -/
theorem Shape.full_le (hs : m.Shape roots held) (hr : roots h = some r)
    (hfull : ∀ w < n, (m.seen roots h w).isSome = true) : n ≤ R.npages := by
  -- each of the pages has a page of its own behind it
  have hex : ∀ w : Fin n, ∃ f, m.userFrame r w.val = some f := fun w =>
    seen_userFrame hr (hfull w.val w.isLt)
  choose g hg using hex
  have hinj : Function.Injective g := by
    intro a b hab
    have hb := hg b
    rw [← hab] at hb
    have hc := hs.place_inj (c := .page h a.val) (d := .page h b.val)
      ((place_page hr).trans (hg a)) ((place_page hr).trans hb)
    injection hc with _ hv
    exact Fin.ext hv
  have hcard := Fintype.card_le_of_injective g hinj
  rwa [Fintype.card_fin, Fintype.card_fin] at hcard

theorem npages_small (R : Ram) : R.npages < 32768 := by
  have hlt := R.npages_lt
  have hk := R.kernel
  have hb : kernbase / pgsize = 524288 := by decide
  rw [hb] at hk
  omega

theorem npages_user (R : Ram) : R.npages < userPages := by
  have hlt := npages_small R
  rw [userPages_eq]
  omega

/-! ### One page -/

/-- The page in a hand of the kernel is written. -/
theorem Shape.setBytes (hs : m.Shape roots held) {k : Option ℕ} (hk : held k = some f)
    (b : ℕ → UInt8) :
    (m.setPage f (.bytes b)).Shape roots held ∧ (m.setPage f (.bytes b)).seen roots = m.seen roots := by
  have hb := hs.hands k f hk
  have hp := pte_setPage_bytes hb b
  refine ⟨hs.of_pte hp hs.nodup hs.free hs.owned hs.hands, ?_⟩
  funext h v
  refine seen_congr rfl (fun r _ => by rw [entry_of_pte hp]) fun r g hr hg => ?_
  refine bytes_setPage_ne ?_
  rintro rfl
  have hc := hs.place_inj (c := .hand k) (d := .page h v) hk ((place_page hr).trans hg)
  cases hc

theorem mappages_page (hva : a % pgsize = 0) (pa : BitVec 64) :
    m.mappages r a pgsize pa perm = m.mapRound r a pa perm := by
  have h1 : pgsize % pgsize = 0 := by decide
  have h2 : pgsize ≠ 0 := by decide
  have h3 : pgsize / pgsize = 1 := by decide
  unfold mappages
  rw [if_neg (by rintro (hc | hc | hc) <;> [exact hc hva; exact hc h1; exact h2 hc]), h3]
  unfold mapLoop
  cases m.mapRound r a pa perm with
  | none => rfl
  | some y =>
    obtain ⟨ok, m'⟩ := y
    cases ok <;> rfl

/-- **One more page**, or no memory for it. -/
theorem Shape.growRound_spec (hs : m.Shape roots held) (hr : roots h = some r)
    (hk : held none = none) (hva : a % pgsize = 0) (hv : a / pgsize < userPages)
    (hno : m.seen roots h (a / pgsize) = none) (hp : Mappable perm) (b : ℕ → UInt8) :
    ∃ ok m', m.growRound r a perm b = some (ok, m') ∧ m'.Shape roots held ∧
      m'.seen roots =
        if ok then setSeen (m.seen roots) h (a / pgsize) (some ⟨perm ||| 1, b⟩)
        else m.seen roots := by
  unfold growRound
  cases ha : m.kalloc with
  | none => exact ⟨false, m, rfl, hs, rfl⟩
  | some y =>
    obtain ⟨f, m₁⟩ := y
    obtain ⟨hs₁, hx, -⟩ := hs.kalloc hk ha
    have hself : Function.update held none (some f) none = some f := Function.update_self ..
    have hback : Function.update (Function.update held none (some f)) none none = held := by
      rw [Function.update_idem, ← hk, Function.update_eq_self]
    obtain ⟨hs₂, hseen₂⟩ := hs₁.setBytes hself b
    rw [hx.seen hs] at hseen₂
    obtain ⟨ok, m₃, hm₃, hcase⟩ := hs₂.mapRound_spec (a := a) hr hv (by rw [hseen₂]; exact hno) hself hp
      (bytes_setPage_self b)
    dsimp only
    rw [mappages_page hva, bind_some_fst hm₃]
    rcases hcase with ⟨rfl, hs₃, hseen₃⟩ | ⟨rfl, hs₃, hseen₃⟩
    · -- `mappages` had no memory: the page is given back
      obtain ⟨m₄, hm₄, hs₄, -, hseen₄⟩ := hs₃.kfree hself
      rw [hback] at hs₄
      dsimp only
      rw [if_neg Bool.false_ne_true, bind_some_fst hm₄]
      refine ⟨false, m₄, rfl, hs₄, ?_⟩
      rw [hseen₄, hseen₃, hseen₂]
      rfl
    · rw [hback] at hs₃
      refine ⟨true, m₃, rfl, hs₃, ?_⟩
      rw [hseen₃, hseen₂]
      rfl

/-! ### Taking pages away -/

theorem add_pgsize (a : ℕ) : (a + pgsize) / pgsize = a / pgsize + 1 :=
  Nat.add_div_right a (by decide)

/-- **The loop of `uvmunmap`.** -/
theorem unmapLoop_spec (hr : roots h = some r) (hk : held none = none) :
    ∀ (n a : ℕ) (m : Kmem R), m.Shape roots held → a / pgsize + n ≤ userPages →
      ∃ m', unmapLoop r true n a m = some m' ∧ m'.Shape roots held ∧
        m'.seen roots =
          setRange (m.seen roots) h (a / pgsize) (a / pgsize + n) fun _ => none := by
  intro n
  induction n with
  | zero =>
    intro a m hs hle
    exact ⟨m, rfl, hs, (setRange_empty (Nat.le_refl _)).symm⟩
  | succ n ih =>
    intro a m hs hle
    obtain ⟨m₁, hm₁, hs₁, hseen₁⟩ := hs.unmapRound_spec (a := a) hr (by omega) hk
    obtain ⟨m₂, hm₂, hs₂, hseen₂⟩ := ih (a + pgsize) m₁ hs₁ (by rw [add_pgsize]; omega)
    refine ⟨m₂, ?_, hs₂, ?_⟩
    · unfold unmapLoop
      rw [bind_some_fst hm₁]
      exact hm₂
    · have hsucc := setRange_succ (s := m.seen roots) (h := h) (x := fun _ => none)
        (Nat.lt_add_of_pos_right (n := a / pgsize) (Nat.succ_pos n))
      rw [hseen₂, hseen₁, add_pgsize, ← hsucc, Nat.add_assoc, Nat.add_comm 1 n]

/-- **`uvmunmap`.** -/
theorem Shape.uvmunmap_spec (hs : m.Shape roots held) (hr : roots h = some r)
    (hk : held none = none) (hle : v + n ≤ userPages) :
    ∃ m', m.uvmunmap r (v * pgsize) n true = some m' ∧ m'.Shape roots held ∧
      m'.seen roots = setRange (m.seen roots) h v (v + n) fun _ => none := by
  have hpos : 0 < pgsize := by decide
  have hv : v * pgsize / pgsize = v := Nat.mul_div_cancel v hpos
  have hbound : (v + n) * pgsize < 2 ^ 64 := by
    refine Nat.lt_of_le_of_lt (Nat.mul_le_mul_right pgsize hle) ?_
    rw [userPages_eq]
    decide
  have hn : ((v * pgsize + n * pgsize) % 2 ^ 64 - v * pgsize) / pgsize = n := by
    rw [← Nat.add_mul, Nat.mod_eq_of_lt hbound, ← Nat.sub_mul, Nat.add_sub_cancel_left,
      Nat.mul_div_cancel n hpos]
  obtain ⟨m', hm', hs', hseen⟩ := unmapLoop_spec hr hk n (v * pgsize) m hs (by rw [hv]; exact hle)
  rw [hv] at hseen
  refine ⟨m', ?_, hs', hseen⟩
  unfold Kmem.uvmunmap
  rw [if_neg (not_not_intro (Nat.mul_mod_left v pgsize)), hn]
  exact hm'

theorem pgroundup_eq (sz : ℕ) : pgroundup sz = sizePages sz * pgsize := rfl

theorem sizePages_mono (hle : newsz ≤ oldsz) : sizePages newsz ≤ sizePages oldsz := by
  have hs : pgsize = 4096 := rfl
  unfold sizePages
  rw [hs]
  omega

theorem sizePages_mul (n : ℕ) : sizePages (n * pgsize) = n := by
  have hs : pgsize = 4096 := rfl
  unfold sizePages
  rw [hs]
  omega

/-- **`uvmdealloc`.** -/
theorem Shape.uvmdealloc_spec (hs : m.Shape roots held) (hr : roots h = some r)
    (hk : held none = none) (oldsz newsz : ℕ) (hle : sizePages oldsz ≤ userPages) :
    ∃ m', m.uvmdealloc r oldsz newsz = some (min oldsz newsz, m') ∧ m'.Shape roots held ∧
      m'.seen roots =
        setRange (m.seen roots) h (sizePages newsz) (sizePages oldsz) fun _ => none := by
  have hpos : 0 < pgsize := by decide
  unfold Kmem.uvmdealloc
  by_cases hge : oldsz ≤ newsz
  · rw [if_pos hge]
    refine ⟨m, ?_, hs, (setRange_empty (sizePages_mono hge)).symm⟩
    rw [Nat.min_eq_left hge]
  · rw [if_neg hge, Nat.min_eq_right (Nat.le_of_not_le hge), pgroundup_eq, pgroundup_eq]
    by_cases hlt : sizePages newsz < sizePages oldsz
    · rw [if_pos (Nat.mul_lt_mul_of_pos_right hlt hpos), ← Nat.sub_mul, Nat.mul_div_cancel _ hpos]
      have hsum : sizePages newsz + (sizePages oldsz - sizePages newsz) = sizePages oldsz :=
        Nat.add_sub_of_le (Nat.le_of_lt hlt)
      obtain ⟨m', hm', hs', hseen⟩ :=
        hs.uvmunmap_spec hr hk (v := sizePages newsz) (n := sizePages oldsz - sizePages newsz) (by
          rw [hsum]
          exact hle)
      rw [hsum] at hseen
      rw [bind_some_fst hm']
      exact ⟨m', rfl, hs', hseen⟩
    · rw [if_neg fun hc => hlt (Nat.lt_of_mul_lt_mul_right hc)]
      exact ⟨m, rfl, hs, (setRange_empty (Nat.le_of_not_lt hlt)).symm⟩

/-! ### Growing -/

/-- A new page. -/
def zeroPage (perm : BitVec 32) : UserPage := ⟨perm ||| 1, fun _ => 0⟩

/-- **The loop of `uvmalloc`**: the pages from `a` on are new, or those from `lo` on are taken away. -/
theorem growLoop_spec (hr : roots h = some r) (hk : held none = none) (hp : Mappable perm) :
    ∀ (n v : ℕ) (m : Kmem R), m.Shape roots held → lo ≤ v →
      (∀ w < v, (m.seen roots h w).isSome = true) →
      (∀ w < userPages, v ≤ w → m.seen roots h w = none) →
      ∃ ok m', growLoop r perm (lo * pgsize) n (v * pgsize) m = some (ok, m') ∧
        m'.Shape roots held ∧ m'.seen roots =
          if ok then setRange (m.seen roots) h v (v + n) fun _ => some (zeroPage perm)
          else setRange (m.seen roots) h lo v fun _ => none := by
  have hpos : 0 < pgsize := by decide
  intro n
  induction n with
  | zero =>
    intro v m hs hlo hfull hempty
    refine ⟨true, m, rfl, hs, ?_⟩
    rw [if_pos rfl]
    exact (setRange_empty (Nat.le_refl v)).symm
  | succ n ih =>
    intro v m hs hlo hfull hempty
    -- the pages below `v` are all there, so `v` is far below `TRAPFRAME`: `walk` does not panic
    have hv : v < userPages := Nat.lt_of_le_of_lt (hs.full_le hr hfull) (npages_user R)
    have hdiv : v * pgsize / pgsize = v := Nat.mul_div_cancel v hpos
    have hno := hempty v hv (Nat.le_refl v)
    obtain ⟨ok, m₁, hm₁, hs₁, hseen₁⟩ := hs.growRound_spec hr hk (Nat.mul_mod_left v pgsize)
      (by rw [hdiv]; exact hv) (by rw [hdiv]; exact hno) hp fun _ => 0
    rw [hdiv] at hseen₁
    unfold growLoop
    rw [bind_some_fst hm₁]
    cases ok with
    | false =>
      -- no memory for page `v`
      have hpg : sizePages (v * pgsize) ≤ userPages := by
        rw [sizePages_mul]
        exact Nat.le_of_lt hv
      obtain ⟨m₂, hm₂, hs₂, hseen₂⟩ :=
        hs₁.uvmdealloc_spec hr hk (v * pgsize) (lo * pgsize) hpg
      rw [if_neg Bool.false_ne_true] at hseen₁
      rw [sizePages_mul, sizePages_mul, hseen₁] at hseen₂
      dsimp only
      rw [if_neg Bool.false_ne_true, bind_some_fst hm₂]
      exact ⟨false, m₂, rfl, hs₂, hseen₂⟩
    | true =>
      rw [if_pos rfl] at hseen₁
      have hfull₁ : ∀ w < v + 1, (m₁.seen roots h w).isSome = true := by
        intro w hw
        rw [hseen₁]
        unfold setSeen
        by_cases hwv : w = v
        · rw [if_pos ⟨rfl, hwv⟩]
          rfl
        · rw [if_neg fun hc => hwv hc.2]
          exact hfull w (by omega)
      have hempty₁ : ∀ w < userPages, v + 1 ≤ w → m₁.seen roots h w = none := by
        intro w hw hvw
        rw [hseen₁]
        unfold setSeen
        rw [if_neg (by omega)]
        exact hempty w hw (by omega)
      obtain ⟨ok, m₂, hm₂, hs₂, hseen₂⟩ :=
        ih (v + 1) m₁ hs₁ (Nat.le_succ_of_le hlo) hfull₁ hempty₁
      have hnext : v * pgsize + pgsize = (v + 1) * pgsize := (Nat.succ_mul v pgsize).symm
      dsimp only
      rw [if_pos rfl, hnext]
      refine ⟨ok, m₂, hm₂, hs₂, ?_⟩
      rw [hseen₂, hseen₁]
      cases ok with
      | false =>
        rw [if_neg Bool.false_ne_true, if_neg Bool.false_ne_true]
        exact setRange_setSeen hno _ hlo
      | true =>
        have hsucc := setRange_succ (s := m.seen roots) (h := h)
          (x := fun _ => some (zeroPage perm))
          (Nat.lt_add_of_pos_right (n := v) (Nat.succ_pos n))
        rw [if_pos rfl, if_pos rfl, ← hsucc, Nat.add_assoc, Nat.add_comm 1 n]
        rfl

/-- A page table that maps the pages of a size, and no others. -/
def Full (m : Kmem R) (roots : ℕ → Option R.Frame) (h sz : ℕ) : Prop :=
  ∀ w < userPages, (m.seen roots h w).isSome = true ↔ w < sizePages sz

theorem Shape.full_pages (hs : m.Shape roots held) (hr : roots h = some r)
    (hfull : m.Full roots h oldsz) : sizePages oldsz ≤ R.npages := by
  by_contra hgt
  have hu := npages_user R
  have hle := hs.full_le (n := R.npages + 1) hr fun w hw => (hfull w (by omega)).2 (by omega)
  omega

/-- What `uvmalloc` maps. -/
def growPerm (xperm : BitVec 32) : BitVec 32 := pteR ||| pteU ||| xperm

/-- The loop of `uvmalloc` makes the pages from the old size to the new one. -/
theorem growRounds_eq (hle : oldsz ≤ newsz) :
    sizePages oldsz + (newsz - sizePages oldsz * pgsize + (pgsize - 1)) / pgsize =
      sizePages newsz := by
  have hs : pgsize = 4096 := rfl
  unfold sizePages
  rw [hs]
  omega

/-- **`uvmalloc`**: the process has grown, or there was no memory and it is as before. -/
theorem Shape.uvmalloc_spec (hs : m.Shape roots held) (hr : roots h = some r)
    (hk : held none = none) (hfull : m.Full roots h oldsz) {xperm : BitVec 32}
    (hp : Mappable (growPerm xperm)) (hle : oldsz ≤ newsz) :
    ∃ (ok : Bool) (m' : Kmem R), m.uvmalloc r oldsz newsz xperm = some (if ok then newsz else 0, m') ∧
      m'.Shape roots held ∧ m'.seen roots =
        if ok then setRange (m.seen roots) h (sizePages oldsz) (sizePages newsz) fun _ =>
          some (zeroPage (growPerm xperm))
        else m.seen roots := by
  have hsmall := hs.full_pages hr hfull
  have hu := npages_user R
  have hempty : ∀ w < userPages, sizePages oldsz ≤ w → m.seen roots h w = none := by
    intro w hw hge
    rw [← Option.not_isSome_iff_eq_none, hfull w hw]
    exact Nat.not_lt_of_le hge
  obtain ⟨ok, m', hm', hs', hseen⟩ := growLoop_spec hr hk hp
    ((newsz - sizePages oldsz * pgsize + (pgsize - 1)) / pgsize) (sizePages oldsz) m hs
    (Nat.le_refl _) (fun w hw => (hfull w (by omega)).2 hw) hempty
  rw [growRounds_eq hle, setRange_empty (Nat.le_refl (sizePages oldsz))] at hseen
  refine ⟨ok, m', ?_, hs', hseen⟩
  unfold Kmem.uvmalloc
  rw [if_neg (Nat.not_lt_of_le hle), pgroundup_eq]
  exact bind_some_fst hm'

end Kmem

end AgentOS
