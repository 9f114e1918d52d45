import AgentOS.Model.Space
import AgentOS.Proof.PageCopy

/-!
# User memory

* `Shape.uvmclear_spec`: a page becomes a guard page.
* `Shape.copyout_spec`, `Shape.copyin_spec`: the bytes up to the first address that the process may
  not write, or read.
-/

namespace AgentOS

namespace Space

variable {page : ℕ → Option UserPage} {good good' : ℕ → Bool} {a n len i j : ℕ} {src : List UInt8}

/-! ### Good addresses -/

theorem reach_add (hle : n ≤ len) (hg : ∀ i < n, good (a + i) = true) :
    reach good a len = n + reach good (a + n) (len - n) := by
  induction n generalizing a len with
  | zero => rw [Nat.zero_add, Nat.add_zero, Nat.sub_zero]
  | succ n ih =>
    cases len with
    | zero => exact absurd hle (Nat.not_succ_le_zero n)
    | succ len =>
      have hstep : ∀ i < n, good (a + 1 + i) = true := by
        intro i hi
        rw [Nat.add_assoc, Nat.add_comm 1 i]
        exact hg (i + 1) (Nat.succ_lt_succ hi)
      have h0 : good a = true := hg 0 (Nat.succ_pos n)
      rw [reach, if_pos h0, ih (Nat.le_of_succ_le_succ hle) hstep,
        Nat.add_sub_add_right, Nat.add_assoc a 1 n, Nat.add_comm 1 n]
      omega

/-- All of them are good. -/
theorem reach_all : reach good a n = n ↔ ∀ i < n, good (a + i) = true := by
  constructor
  · induction n generalizing a with
    | zero => exact fun _ i hi => absurd hi (Nat.not_lt_zero i)
    | succ n ih =>
      intro hr i hi
      rw [reach] at hr
      split at hr
      · rename_i hg
        cases i with
        | zero => exact hg
        | succ i =>
          have hi' := ih (Nat.succ.inj hr) i (Nat.lt_of_succ_lt_succ hi)
          rwa [Nat.add_assoc, Nat.add_comm 1 i] at hi'
      · cases hr
  · intro hg
    rw [reach_add (Nat.le_refl n) hg, Nat.sub_self]
    rfl

theorem reach_bad (hg : good a = false) : reach good a len = 0 := by
  cases len with
  | zero => rfl
  | succ len =>
    rw [reach, hg]
    rfl

theorem writable_putBytes : writable (putBytes page a src) = writable page := by
  funext b
  unfold writable putBytes
  cases page (b / pgsize) <;> rfl

theorem putBytes_nil : putBytes page a [] = page := by
  funext v
  unfold putBytes
  cases page v with
  | none => rfl
  | some x =>
    rw [Option.map_some]
    congr 2
    funext k
    refine if_neg ?_
    rw [List.length_nil]
    omega

/-- **One piece after the other.** -/
theorem putBytes_take (hi : i ≤ src.length) :
    putBytes (putBytes page a (src.take i)) (a + i) ((src.drop i).take j) =
      putBytes page a (src.take (i + j)) := by
  funext v
  unfold putBytes
  cases page v with
  | none => rfl
  | some x =>
    rw [Option.map_some, Option.map_some, Option.map_some]
    congr 2
    funext k
    dsimp only
    rw [List.length_take, List.length_take, List.length_take, List.length_drop]
    by_cases hk : k < pgsize
    · by_cases h1 : a + i ≤ v * pgsize + k
      · -- behind the first piece
        have hnot : ¬(k < pgsize ∧ a ≤ v * pgsize + k ∧
            v * pgsize + k < a + min i src.length) := by omega
        rw [if_neg hnot]
        by_cases h2 : v * pgsize + k < a + i + min j (src.length - i)
        · rw [if_pos ⟨hk, h1, h2⟩, if_pos ⟨hk, by omega, by omega⟩, List.getD_eq_getElem?_getD,
            List.getD_eq_getElem?_getD, List.getElem?_take_of_lt (by omega),
            List.getElem?_take_of_lt (by omega), List.getElem?_drop]
          congr 2
          omega
        · rw [if_neg fun hc => h2 hc.2.2, if_neg (by omega)]
      · rw [if_neg fun hc => h1 hc.2.1]
        by_cases h3 : a ≤ v * pgsize + k
        · rw [if_pos ⟨hk, h3, by omega⟩, if_pos ⟨hk, h3, by omega⟩, List.getD_eq_getElem?_getD,
            List.getD_eq_getElem?_getD, List.getElem?_take_of_lt (by omega),
            List.getElem?_take_of_lt (by omega)]
        · rw [if_neg fun hc => h3 hc.2.1, if_neg fun hc => h3 hc.2.1]
    · rw [if_neg fun hc => hk hc.1, if_neg fun hc => hk hc.1, if_neg fun hc => hk hc.1]

/-- The byte that was put at an address. -/
theorem byte_putBytes {k : ℕ} {x : UserPage} (hk : k < src.length)
    (hx : page ((a + k) / pgsize) = some x) : byte (putBytes page a src) (a + k) = src[k] := by
  have hs4 : pgsize = 4096 := rfl
  have haddr : (a + k) / pgsize * pgsize + (a + k) % pgsize = a + k := by
    rw [hs4]
    omega
  have hmod : (a + k) % pgsize < pgsize := Nat.mod_lt _ (by decide)
  unfold byte putBytes
  rw [hx, Option.map_some, Option.map_some, Option.getD_some]
  dsimp only
  rw [haddr, if_pos ⟨hmod, by omega, by omega⟩, Nat.add_sub_cancel_left,
    List.getD_eq_getElem?_getD, List.getElem?_eq_getElem hk, Option.getD_some]

/-- **What was written is read.** -/
theorem copyin_copyout {p : Space} {dst : ℕ}
    (hw : reach (writable p.page) dst src.length = src.length) :
    (p.copyout dst src).copyin dst src.length = (true, src) := by
  have hall := reach_all.1 hw
  have hpage : ∀ k < src.length, ∃ x, p.page ((dst + k) / pgsize) = some x ∧
      x.flags &&& pteU ≠ 0 := by
    intro k hk
    have hk := hall k hk
    unfold writable at hk
    cases hx : p.page ((dst + k) / pgsize) with
    | none =>
      rw [hx] at hk
      cases hk
    | some x =>
      rw [hx, Option.any_some, decide_eq_true_eq] at hk
      exact ⟨x, rfl, hk.1⟩
  have hread : reach (readable (putBytes p.page dst src)) dst src.length = src.length := by
    refine reach_all.2 fun k hk => ?_
    obtain ⟨x, hx, hu⟩ := hpage k hk
    unfold readable putBytes
    rw [hx, Option.map_some, Option.any_some]
    exact decide_eq_true hu
  unfold copyin copyout
  dsimp only
  rw [hw, List.take_length, hread, decide_eq_true rfl]
  congr 1
  refine List.ext_getElem (by rw [List.length_map, List.length_range]) fun k hk hk' => ?_
  obtain ⟨x, hx, -⟩ := hpage k hk'
  rw [List.getElem_map, List.getElem_range]
  exact byte_putBytes hk' hx

end Space

namespace Kmem

open Space

variable {R : Ram} {m m' : Kmem R} {roots : ℕ → Option R.Frame}
  {held : Option ℕ → Option R.Frame} {h v va : ℕ} {r f : R.Frame}

theorem userFrame_of (hv : v < userPages) (hval : pteValid (m.entry r v))
    (hf : R.frameOf (pte2pa (m.entry r v)) = some f) : m.userFrame r v = some f := by
  unfold userFrame
  rw [if_pos ⟨hv, hval⟩]
  exact hf

/-- **Page `v` of user memory is written.** -/
theorem Shape.setUser (hs : m.Shape roots held) (hr : roots h = some r)
    (hf : m.userFrame r v = some f) (b : ℕ → UInt8) :
    (m.setPage f (.bytes b)).Shape roots held ∧
      (m.setPage f (.bytes b)).seen roots =
        setSeen (m.seen roots) h v (some ⟨pteFlags (m.entry r v), b⟩) := by
  have hb := hs.userFrame_bytes hr hf
  have hp := pte_setPage_bytes hb b
  have hentry := entry_of_pte hp
  refine ⟨hs.of_pte hp hs.nodup hs.free hs.owned hs.hands, ?_⟩
  funext h' v'
  unfold setSeen
  by_cases hc : h' = h ∧ v' = v
  · obtain ⟨rfl, rfl⟩ := hc
    have hu : (m.setPage f (.bytes b)).userFrame r v' = some f := by
      rw [userFrame_congr (congrFun (congrFun hentry r) v')]
      exact hf
    rw [if_pos ⟨rfl, rfl⟩]
    unfold seen
    rw [hr, Option.bind_some, hu, Option.bind_some, bytes_setPage_self, hentry]
    rfl
  · rw [if_neg hc]
    refine seen_congr rfl (fun r' _ => by rw [hentry]) fun r' g hr' hg => ?_
    refine bytes_setPage_ne ?_
    rintro rfl
    have hq := hs.place_inj (c := .page h v) (d := .page h' v') ((place_page hr).trans hf)
      ((place_page hr').trans hg)
    injection hq with hh hvv
    exact hc ⟨hh.symm, hvv.symm⟩

/-- **`uvmclear`.** -/
theorem Shape.uvmclear_spec (hs : m.Shape roots held) (hr : roots h = some r)
    (hv : va / pgsize < userPages) (hsome : (m.seen roots h (va / pgsize)).isSome = true) :
    ∃ m', m.uvmclear r va = some m' ∧ m'.Shape roots held ∧
      m'.seen roots = setSeen (m.seen roots) h (va / pgsize)
        ((m.seen roots h (va / pgsize)).map fun x => { x with flags := x.flags &&& ~~~pteU }) := by
  obtain ⟨t, f, b, ht, he, hval, hf, hb, hseen, hp, hor⟩ := hs.seen_page hr hv hsome
  have hfl := clear_flags (m.entry r (va / pgsize))
  have hpa := clear_pa (m.entry r (va / pgsize))
  -- the other flags stay, so the entry stays valid and no link
  have hand : ∀ x : BitVec 32, ~~~pteU &&& x = x →
      pteFlags (m.entry r (va / pgsize)) &&& ~~~pteU &&& x =
        pteFlags (m.entry r (va / pgsize)) &&& x := fun x hx => by
    rw [BitVec.and_assoc, hx]
  have hl : ¬pteLink (m.entry r (va / pgsize) &&& ~~~pteU.setWidth 64) := by
    apply not_pteLink
    rw [hfl, hand _ (by decide), ← hor]
    exact hp.rwx
  have hval' : pteValid (m.entry r (va / pgsize) &&& ~~~pteU.setWidth 64) := by
    rw [pteValid_iff, hfl, hand _ (by decide)]
    exact pteValid_iff.1 hval
  have hnew : (m.setPte t (pn 0 (va / pgsize))
      (m.entry r (va / pgsize) &&& ~~~pteU.setWidth 64)).userFrame r (va / pgsize) = some f := by
    unfold userFrame
    rw [hs.entry_self hr ht hl hv, if_pos ⟨hv, hval'⟩, hpa]
    exact hf
  have hplace : (m.setPte t (pn 0 (va / pgsize))
      (m.entry r (va / pgsize) &&& ~~~pteU.setWidth 64)).place roots held =
        m.place roots held := by
    funext c
    by_cases hc : c = .page h (va / pgsize)
    · rw [hc, place_page hr, place_page hr, hnew, userFrame_of hv hval hf]
    · exact hs.place_setPte hr ht hl hv hc
  refine ⟨_, ?_, hs.setEntry hr ht hl hv (by rw [hplace]; exact hs.owned) hs.hands
    fun _ => ⟨f, by rw [hpa]; exact hf, by rw [hb]; rfl⟩, hs.seen_setPte hr ht hl hv ?_⟩
  · unfold uvmclear
    rw [bind_some_fst (hs.walk_find hr (user_lt_maxva hv)), ht]
    dsimp only [Option.map_some]
    rw [bind_some_fst rfl]
    dsimp only
    rw [bind_some_fst he]
  · rw [hnew, Option.bind_some, hb, hseen, hfl]
    rfl

/-! ### `copyout` -/

theorem update_seen {s : ℕ → ℕ → Option UserPage} {x : Option UserPage} :
    setSeen s h v x = Function.update s h (Function.update (s h) v x) := by
  funext h' v'
  unfold setSeen
  by_cases hh : h' = h
  · subst hh
    rw [Function.update_self]
    by_cases hv : v' = v
    · rw [hv, if_pos ⟨rfl, rfl⟩, Function.update_self]
    · rw [if_neg fun hc => hv hc.2, Function.update_of_ne hv]
  · rw [if_neg fun hc => hh hc.1, Function.update_of_ne hh]

/-- A piece inside one page. -/
theorem putBytes_page {page : ℕ → Option UserPage} {x : UserPage} {dst : ℕ}
    (src : List UInt8) (hx : page (dst / pgsize) = some x) (hlen : dst % pgsize + src.length ≤ pgsize) :
    Function.update page (dst / pgsize)
      (some { x with bytes := moveBytes x.bytes (dst % pgsize) src }) = putBytes page dst src := by
  have hs4 : pgsize = 4096 := rfl
  funext v
  unfold putBytes
  by_cases hv : v = dst / pgsize
  · rw [hv, Function.update_self, hx, Option.map_some]
    congr 2
    funext k
    unfold moveBytes
    have hiff : (dst % pgsize ≤ k ∧ k < dst % pgsize + src.length) ↔
        (k < pgsize ∧ dst ≤ dst / pgsize * pgsize + k ∧
          dst / pgsize * pgsize + k < dst + src.length) := by
      rw [hs4] at hlen ⊢
      omega
    have hoff : dst / pgsize * pgsize + k - dst = k - dst % pgsize := by
      rw [hs4]
      omega
    rw [hoff]
    exact if_congr hiff rfl rfl
  · rw [Function.update_of_ne hv]
    cases hp : page v with
    | none => rfl
    | some y =>
      have hother : (fun k => if k < pgsize ∧ dst ≤ v * pgsize + k ∧
          v * pgsize + k < dst + src.length then src.getD (v * pgsize + k - dst) 0
          else y.bytes k) = y.bytes := by
        funext k
        refine if_neg ?_
        rw [hs4] at hlen hv ⊢
        omega
      rw [Option.map_some, hother]

theorem copyoutLoop_nil (fuel dst : ℕ) : copyoutLoop r fuel dst [] m = some (true, m) := by
  cases fuel with
  | zero => rfl
  | succ fuel => rfl

/-- A round at an address that may not be written. -/
theorem Shape.copyout_bad (hs : m.Shape roots held) (hr : roots h = some r) {fuel dst : ℕ}
    {src : List UInt8} (hv : dst / pgsize < userPages) (hsrc : src ≠ [])
    (hbad : writable (m.seen roots h) dst = false) :
    copyoutLoop r (fuel + 1) dst src m = some (false, m) := by
  have hdiv : dst / pgsize * pgsize / pgsize = dst / pgsize :=
    Nat.mul_div_cancel _ (by decide)
  have hmax := user_lt_maxva (a := dst / pgsize * pgsize) (by rw [hdiv]; exact hv)
  have hwalk := hs.walk_find hr hmax
  rw [hdiv] at hwalk
  unfold copyoutLoop
  rw [if_neg hsrc]
  dsimp only
  rw [if_neg (Nat.not_le_of_lt hmax), bind_some_fst hwalk]
  cases ht : m.node r (vpath (dst / pgsize)) with
  | none => rfl
  | some t =>
    obtain ⟨he, -⟩ := hs.entry_of_node hr ht
    dsimp only [Option.map_some]
    rw [bind_some_fst he]
    refine if_pos ?_
    by_cases hval : pteValid (m.entry r (dst / pgsize))
    · obtain ⟨-, -, b, -, -, -, -, -, hseen, -, -⟩ :=
        hs.seen_page hr hv ((hs.seen_isSome hr hv).2 hval)
      unfold writable at hbad
      rw [hseen, Option.any_some, decide_eq_false_iff_not] at hbad
      refine .inr ?_
      by_cases hu : pteFlags (m.entry r (dst / pgsize)) &&& pteU = 0
      · exact .inl hu
      · exact .inr (not_not.1 fun hw => hbad ⟨hu, hw⟩)
    · exact .inl hval

/-- A round at an address that may be written: the piece inside its page. -/
theorem Shape.copyout_good (hs : m.Shape roots held) (hr : roots h = some r) (fuel : ℕ)
    {dst n : ℕ} {src : List UInt8} (hv : dst / pgsize < userPages) (hsrc : src ≠ [])
    (hgood : writable (m.seen roots h) dst = true)
    (hn : min (pgsize - dst % pgsize) src.length = n) :
    ∃ m₁, copyoutLoop r (fuel + 1) dst src m = copyoutLoop r fuel (dst + n) (src.drop n) m₁ ∧
      m₁.Shape roots held ∧ m₁.seen roots = Function.update (m.seen roots) h
        (putBytes (m.seen roots h) dst (src.take n)) := by
  have hs4 : pgsize = 4096 := rfl
  have hmod : dst % pgsize < pgsize := Nat.mod_lt _ (by decide)
  have hdiv : dst / pgsize * pgsize / pgsize = dst / pgsize :=
    Nat.mul_div_cancel _ (by decide)
  have hoff : dst - dst / pgsize * pgsize = dst % pgsize := by
    rw [hs4]
    omega
  have hmax := user_lt_maxva (a := dst / pgsize * pgsize) (by rw [hdiv]; exact hv)
  have hwalk := hs.walk_find hr hmax
  rw [hdiv] at hwalk
  have hsome : (m.seen roots h (dst / pgsize)).isSome = true := by
    unfold writable at hgood
    cases hp : m.seen roots h (dst / pgsize) with
    | none =>
      rw [hp] at hgood
      cases hgood
    | some x => rfl
  obtain ⟨t, f, b, ht, he, hval, hf, hb, hseen, -, -⟩ := hs.seen_page hr hv hsome
  unfold writable at hgood
  rw [hseen, Option.any_some, decide_eq_true_eq] at hgood
  rw [ht] at hwalk
  obtain ⟨hs₁, hseen₁⟩ :=
    hs.setUser hr (userFrame_of hv hval hf) (moveBytes b (dst % pgsize) (src.take n))
  have hpage := putBytes_page (src.take n) hseen (by rw [List.length_take]; omega)
  dsimp only at hpage
  rw [update_seen, hpage] at hseen₁
  refine ⟨m.setPage f (.bytes (moveBytes b (dst % pgsize) (src.take n))), ?_, hs₁, hseen₁⟩
  -- the next round starts at the next page, or there is nothing left to copy
  have hround : copyoutLoop r (fuel + 1) dst src m =
      copyoutLoop r fuel (dst / pgsize * pgsize + pgsize) (src.drop n)
        (m.setPage f (.bytes (moveBytes b (dst % pgsize) (src.take n)))) := by
    rw [copyoutLoop, if_neg hsrc]
    dsimp only
    rw [if_neg (Nat.not_le_of_lt hmax), bind_some_fst hwalk]
    dsimp only [Option.map_some]
    rw [bind_some_fst he, if_neg fun hc => hc.elim (fun hc => hc hval) fun hc =>
      hc.elim hgood.1 hgood.2, bind_some_fst hf, bind_some_fst hb, hoff, hn]
  rw [hround]
  by_cases hend : src.drop n = []
  · rw [hend, copyoutLoop_nil, copyoutLoop_nil]
  · have hlt : n < src.length := Nat.lt_of_not_le fun hc => hend (List.drop_eq_nil_of_le hc)
    have hnext : dst / pgsize * pgsize + pgsize = dst + n := by
      rw [hs4] at hn ⊢
      omega
    rw [hnext]

/-- **The loop of `copyout`.** -/
theorem copyoutLoop_spec (hr : roots h = some r) :
    ∀ (fuel dst : ℕ) (src : List UInt8) (m : Kmem R), m.Shape roots held →
      dst + src.length ≤ trapframe → src.length ≤ fuel →
      ∃ m', copyoutLoop r fuel dst src m =
          some (decide (reach (writable (m.seen roots h)) dst src.length = src.length), m') ∧
        m'.Shape roots held ∧ m'.seen roots = Function.update (m.seen roots) h
          (putBytes (m.seen roots h) dst
            (src.take (reach (writable (m.seen roots h)) dst src.length))) := by
  have hs4 : pgsize = 4096 := rfl
  have htf : trapframe = userPages * pgsize := by decide
  have hnil : ∀ (dst : ℕ) (m : Kmem R), m.seen roots = Function.update (m.seen roots) h
      (putBytes (m.seen roots h) dst []) := fun dst m => by
    rw [putBytes_nil, Function.update_eq_self]
  intro fuel
  induction fuel with
  | zero =>
    intro dst src m hs _ hlen
    obtain rfl := List.length_eq_zero_iff.1 (Nat.le_zero.1 hlen)
    exact ⟨m, rfl, hs, hnil dst m⟩
  | succ fuel ih =>
    intro dst src m hs htop hlen
    by_cases hsrc : src = []
    · subst hsrc
      exact ⟨m, copyoutLoop_nil _ _, hs, hnil dst m⟩
    have hpos : 0 < src.length := List.length_pos_iff.2 hsrc
    have hv : dst / pgsize < userPages := by
      rw [htf, hs4] at htop
      rw [hs4]
      omega
    cases hw : writable (m.seen roots h) dst with
    | false =>
      rw [reach_bad hw, List.take_zero, hs.copyout_bad hr hv hsrc hw,
        decide_eq_false (Nat.ne_of_lt hpos)]
      exact ⟨m, rfl, hs, hnil dst m⟩
    | true =>
      have hmod : dst % pgsize < pgsize := Nat.mod_lt _ (by decide)
      obtain ⟨n, hn⟩ : ∃ n, min (pgsize - dst % pgsize) src.length = n := ⟨_, rfl⟩
      have hnlen : n ≤ src.length := by omega
      obtain ⟨m₁, hm₁, hs₁, hseen₁⟩ := hs.copyout_good hr fuel hv hsrc hw hn
      have hgood : writable (m₁.seen roots h) = writable (m.seen roots h) := by
        rw [hseen₁, Function.update_self]
        exact writable_putBytes
      have hall : ∀ i < n, writable (m.seen roots h) (dst + i) = true := by
        intro i hi
        have hq : (dst + i) / pgsize = dst / pgsize := by
          rw [hs4] at hn hmod ⊢
          omega
        unfold writable at hw ⊢
        rw [hq]
        exact hw
      have hreach := reach_add hnlen hall
      obtain ⟨m', hm', hs', hseen'⟩ := ih (dst + n) (src.drop n) m₁ hs₁
        (by rw [List.length_drop]; omega) (by rw [List.length_drop]; omega)
      rw [hgood, List.length_drop] at hm' hseen'
      refine ⟨m', ?_, hs', ?_⟩
      · rw [hm₁, hm', hreach]
        have hiff : reach (writable (m.seen roots h)) (dst + n) (src.length - n) =
            src.length - n ↔ n + reach (writable (m.seen roots h)) (dst + n) (src.length - n) =
              src.length := by omega
        rw [decide_eq_decide.2 hiff]
      · rw [hseen', hseen₁, Function.update_idem, Function.update_self, putBytes_take hnlen,
          hreach]

/-- **`copyout`.** -/
theorem Shape.copyout_spec (hs : m.Shape roots held) (hr : roots h = some r) {dst : ℕ}
    {src : List UInt8} (htop : dst + src.length ≤ trapframe) :
    ∃ m', m.copyout r dst src =
        some (decide (reach (writable (m.seen roots h)) dst src.length = src.length), m') ∧
      m'.Shape roots held ∧ m'.seen roots = Function.update (m.seen roots) h
        (putBytes (m.seen roots h) dst
          (src.take (reach (writable (m.seen roots h)) dst src.length))) :=
  copyoutLoop_spec hr src.length dst src m hs htop (Nat.le_refl _)

/-! ### `copyin` -/

theorem Shape.walkaddr_bad (hs : m.Shape roots held) (hr : roots h = some r)
    (hv : va / pgsize < userPages) (hbad : readable (m.seen roots h) va = false) :
    m.walkaddr r va = some none := by
  have hmax := user_lt_maxva hv
  unfold walkaddr
  rw [if_neg (Nat.not_le_of_lt hmax), bind_some_fst (hs.walk_find hr hmax)]
  cases ht : m.node r (vpath (va / pgsize)) with
  | none => rfl
  | some t =>
    obtain ⟨he, -⟩ := hs.entry_of_node hr ht
    dsimp only [Option.map_some]
    rw [bind_some_fst he]
    by_cases hval : pteValid (m.entry r (va / pgsize))
    · obtain ⟨-, -, b, -, -, -, -, -, hseen, -, -⟩ :=
        hs.seen_page hr hv ((hs.seen_isSome hr hv).2 hval)
      unfold readable at hbad
      rw [hseen, Option.any_some, decide_eq_false_iff_not, not_not] at hbad
      rw [if_neg (not_not_intro hval), if_pos hbad]
    · exact if_pos hval

theorem Shape.walkaddr_good (hs : m.Shape roots held) (hr : roots h = some r)
    (hv : va / pgsize < userPages) (hgood : readable (m.seen roots h) va = true) :
    ∃ pa f b, m.walkaddr r va = some (some pa) ∧ R.frameOf pa = some f ∧ m.bytes f = some b ∧
      ∀ a, a / pgsize = va / pgsize → byte (m.seen roots h) a = b (a % pgsize) := by
  have hmax := user_lt_maxva hv
  have hsome : (m.seen roots h (va / pgsize)).isSome = true := by
    unfold readable at hgood
    cases hp : m.seen roots h (va / pgsize) with
    | none =>
      rw [hp] at hgood
      cases hgood
    | some x => rfl
  obtain ⟨t, f, b, ht, he, hval, hf, hb, hseen, -, -⟩ := hs.seen_page hr hv hsome
  unfold readable at hgood
  rw [hseen, Option.any_some, decide_eq_true_eq] at hgood
  refine ⟨pte2pa (m.entry r (va / pgsize)), f, b, ?_, hf, hb, fun a ha => ?_⟩
  · unfold walkaddr
    rw [if_neg (Nat.not_le_of_lt hmax), bind_some_fst (hs.walk_find hr hmax), ht]
    dsimp only [Option.map_some]
    rw [bind_some_fst he, if_neg (not_not_intro hval), if_neg hgood]
  · unfold byte
    rw [ha, hseen]
    rfl

theorem copyinLoop_zero (fuel src : ℕ) : m.copyinLoop r fuel src 0 = some (true, []) := by
  cases fuel with
  | zero => rfl
  | succ fuel => rfl

/-- **The loop of `copyin`.** -/
theorem Shape.copyinLoop_spec (hs : m.Shape roots held) (hr : roots h = some r) :
    ∀ fuel src len, src + len ≤ trapframe → len ≤ fuel →
      m.copyinLoop r fuel src len =
        some (decide (reach (readable (m.seen roots h)) src len = len),
          (List.range (reach (readable (m.seen roots h)) src len)).map fun k =>
            byte (m.seen roots h) (src + k)) := by
  have hs4 : pgsize = 4096 := rfl
  have htf : trapframe = userPages * pgsize := by decide
  intro fuel
  induction fuel with
  | zero =>
    intro src len _ hlen
    obtain rfl := Nat.le_zero.1 hlen
    rfl
  | succ fuel ih =>
    intro src len htop hlen
    by_cases hz : len = 0
    · subst hz
      exact copyinLoop_zero _ _
    have hdiv : src / pgsize * pgsize / pgsize = src / pgsize :=
      Nat.mul_div_cancel _ (by decide)
    have hv : src / pgsize * pgsize / pgsize < userPages := by
      rw [hdiv, hs4]
      rw [htf, hs4] at htop
      omega
    have hsame : readable (m.seen roots h) (src / pgsize * pgsize) =
        readable (m.seen roots h) src := by
      unfold readable
      rw [hdiv]
    rw [copyinLoop, if_neg hz]
    dsimp only
    cases hw : readable (m.seen roots h) src with
    | false =>
      rw [bind_some_fst (hs.walkaddr_bad hr hv (hsame.trans hw)), reach_bad hw,
        decide_eq_false (Ne.symm hz)]
      rfl
    | true =>
      obtain ⟨pa, f, b, hpa, hf, hb, hbyte⟩ := hs.walkaddr_good hr hv (hsame.trans hw)
      rw [hdiv] at hbyte
      have hmod : src % pgsize < pgsize := Nat.mod_lt _ (by decide)
      have hoff : src - src / pgsize * pgsize = src % pgsize := by
        rw [hs4]
        omega
      obtain ⟨n, hn⟩ : ∃ n, min (pgsize - src % pgsize) len = n := ⟨_, rfl⟩
      have hnlen : n ≤ len := by omega
      have hpage : ∀ i < n, (src + i) / pgsize = src / pgsize ∧
          (src + i) % pgsize = src % pgsize + i := by
        intro i hi
        rw [hs4] at hn hmod ⊢
        omega
      have hall : ∀ i < n, readable (m.seen roots h) (src + i) = true := by
        intro i hi
        unfold readable at hw ⊢
        rw [(hpage i hi).1]
        exact hw
      have hreach := reach_add hnlen hall
      have hnext : m.copyinLoop r fuel (src / pgsize * pgsize + pgsize) (len - n) =
          m.copyinLoop r fuel (src + n) (len - n) := by
        by_cases hend : len - n = 0
        · rw [hend, copyinLoop_zero, copyinLoop_zero]
        · have hsrc : src / pgsize * pgsize + pgsize = src + n := by
            rw [hs4] at hn ⊢
            omega
          rw [hsrc]
      rw [bind_some_fst hpa]
      dsimp only
      rw [bind_some_fst hf, bind_some_fst hb, hoff, hn, hnext,
        bind_some_fst (ih (src + n) (len - n) (by omega) (by omega)), hreach]
      dsimp only
      have hiff : reach (readable (m.seen roots h)) (src + n) (len - n) = len - n ↔
          n + reach (readable (m.seen roots h)) (src + n) (len - n) = len := by omega
      rw [decide_eq_decide.2 hiff, List.range_add, List.map_append, List.map_map]
      congr 2
      have hfirst : (List.range n).map (fun k => b (src % pgsize + k)) =
          (List.range n).map fun k => byte (m.seen roots h) (src + k) := by
        refine List.map_congr_left fun k hk => ?_
        obtain ⟨hq, hr⟩ := hpage k (List.mem_range.1 hk)
        rw [hbyte (src + k) hq, hr]
      rw [hfirst]
      congr 1
      refine List.map_congr_left fun k _ => ?_
      rw [Function.comp_apply, Nat.add_assoc]

/-- **`copyin`.** -/
theorem Shape.copyin_spec (hs : m.Shape roots held) (hr : roots h = some r) {src len z : ℕ}
    (htop : src + len ≤ trapframe) :
    m.copyin r src len = some (Space.copyin ⟨z, m.seen roots h⟩ src len) :=
  hs.copyinLoop_spec hr len src len htop (Nat.le_refl _)

end Kmem

end AgentOS
