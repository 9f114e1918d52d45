import AgentOS.Proof.BlockInodes

/-!
# Truncation

* `freed_loop`: a loop that frees the blocks of its slots.
* `itrunc_spec`: `itrunc` does not panic; it frees the blocks of one inode and no others.
-/

namespace AgentOS

variable {sb : Superblock}

namespace BlockFs

/-- From `s` to `t`, the blocks in `S` are freed, and outside of the bitmap no block changes. -/
structure Freed (S : ℕ → Prop) (s t : BlockFs sb) : Prop where
  bit : ∀ x, t.bit x = true ↔ s.bit x = true ∧ ¬S x
  block : ∀ a, (∀ c, c < sb.size → a ≠ sb.bblock c) → t.block a = s.block a
  logs : Logs s t

variable {s t u : BlockFs sb} {i : Fin sb.ninodes} {S S' : ℕ → Prop} {b : ℕ}

theorem Freed.refl (h : ∀ x, ¬S x) : Freed S s s :=
  ⟨fun x => ⟨fun hx => ⟨hx, h x⟩, fun hx => hx.1⟩, fun _ _ => rfl, Logs.refl⟩

theorem Freed.trans (h : Freed S s t) (h' : Freed S' t u) :
    Freed (fun x => S x ∨ S' x) s u where
  bit x := by
    rw [h'.bit, h.bit, not_or, and_assoc]
  block a ha := (h'.block a ha).trans (h.block a ha)
  logs := h.logs.trans h'.logs

theorem Freed.congr (h : Freed S s t) (hS : ∀ x, S x ↔ S' x) : Freed S' s t :=
  ⟨fun x => by rw [h.bit, hS], h.block, h.logs⟩

theorem bfree_freed (hbit : s.bit b = true) (hb : b < sb.size) :
    ∃ t, s.bfree b = some t ∧ t.inode = s.inode ∧ Freed (fun x => b = x) s t := by
  refine ⟨s.markFree b, if_pos hbit, rfl, fun x => ?_, fun a ha => markFree_block (ha b hb),
    Logs.setBlock _⟩
  rw [bit_markFree, Bool.and_eq_true, decide_eq_true_eq, ne_comm]

/-! ### Loops -/

section Loop

variable {κ : Type*} {f : BlockFs sb → κ → Option (BlockFs sb)}

/-- **A loop over slots** that frees the block `val k` of each slot that holds one; `Inv l` holds
before the slots `l`. -/
theorem freed_loop (val : κ → ℕ) (Inv : List κ → BlockFs sb → Prop)
    (hstep : ∀ k l u, k ∉ l → Inv (k :: l) u → (val k ≠ 0 → u.bit (val k) = true) →
      ∃ t, f u k = some t ∧ Inv l t ∧ Freed (fun x => x ≠ 0 ∧ val k = x) u t)
    {l : List κ} (hl : l.Nodup) (hs : Inv l s) (hbit : ∀ k ∈ l, val k ≠ 0 → s.bit (val k) = true)
    (hinj : ∀ k ∈ l, ∀ k' ∈ l, val k ≠ 0 → val k = val k' → k = k') :
    ∃ t, l.foldlM f s = some t ∧ Inv [] t ∧ Freed (fun x => x ≠ 0 ∧ ∃ k ∈ l, val k = x) s t := by
  induction l generalizing s with
  | nil =>
    refine ⟨s, rfl, hs, Freed.refl ?_⟩
    rintro x ⟨-, k, hk, -⟩
    cases hk
  | cons k l ih =>
    rw [List.nodup_cons] at hl
    obtain ⟨u, hu, hinv, hfreed⟩ := hstep k l s hl.1 hs (hbit k List.mem_cons_self)
    have hbit' : ∀ k' ∈ l, val k' ≠ 0 → u.bit (val k') = true := by
      intro k' hk' hne
      have hmem := List.mem_cons_of_mem k hk'
      refine (hfreed.bit _).2 ⟨hbit k' hmem hne, fun he => hl.1 ?_⟩
      have hkk := hinj k' hmem k List.mem_cons_self hne he.2.symm
      exact hkk ▸ hk'
    obtain ⟨t, ht, hinv', hfreed'⟩ := ih hl.2 hinv hbit' fun a ha b hb =>
      hinj a (List.mem_cons_of_mem _ ha) b (List.mem_cons_of_mem _ hb)
    refine ⟨t, ?_, hinv', (hfreed.trans hfreed').congr fun x => ?_⟩
    · rw [List.foldlM_cons, hu]
      exact ht
    · simp only [List.mem_cons, exists_eq_or_imp]
      rw [← and_or_left]

end Loop

/-! ### The direct blocks -/

/-- Between the steps of the first loop of `itrunc`, which began in `s`, before the slots `l`. -/
structure FreeingAddrs (s : BlockFs sb) (i : Fin sb.ninodes) (l : List (Fin 12))
    (u : BlockFs sb) : Prop where
  type : (u.inode i).type = (s.inode i).type
  other : ∀ j, j ≠ i → u.inode j = s.inode j
  indirect : (u.inode i).addrs 12 = (s.inode i).addrs 12
  left : ∀ k : Fin 12, k ∈ l → (u.inode i).addrs k.castSucc = (s.inode i).addrs k.castSucc
  done : ∀ k : Fin 12, k ∉ l → (u.inode i).addrs k.castSucc = 0

theorem castSucc_ne_last (k : Fin 12) : k.castSucc ≠ 12 := Fin.castSucc_ne_last k

theorem freeAddr_step {k : Fin 12} {l : List (Fin 12)} (h : s.Mapped) (hk : k ∉ l)
    (hu : FreeingAddrs s i (k :: l) u)
    (hbit : (s.inode i).addrs k.castSucc ≠ 0 → u.bit ((s.inode i).addrs k.castSucc) = true) :
    ∃ t, u.freeAddr i k.castSucc = some t ∧ FreeingAddrs s i l t ∧
      Freed (fun x => x ≠ 0 ∧ (s.inode i).addrs k.castSucc = x) u t := by
  have hval := hu.left k List.mem_cons_self
  unfold freeAddr
  rw [hval]
  by_cases h0 : (s.inode i).addrs k.castSucc = 0
  · rw [if_pos h0]
    refine ⟨u, rfl, ⟨hu.type, hu.other, hu.indirect, fun k' hk' => hu.left k' (List.mem_cons_of_mem _ hk'),
      fun k' hk' => ?_⟩, Freed.refl fun x hx => hx.1 (hx.2.symm.trans h0)⟩
    by_cases hkk : k' = k
    · rw [hkk, hval, h0]
    · exact hu.done k' fun hm => hk' ((List.mem_cons.1 hm).resolve_left hkk)
  · rw [if_neg h0]
    have hlt : (s.inode i).addrs k.castSucc < sb.size := (h.used (c := (i, .addr _)) h0).1.2
    obtain ⟨t, ht, hti, hf⟩ := bfree_freed (hbit h0) hlt
    rw [ht]
    have hne : ∀ k' : Fin 12, k' ≠ k → ((t.setAddr i k.castSucc 0).inode i).addrs k'.castSucc =
        (u.inode i).addrs k'.castSucc := by
      intro k' hkk
      rw [setAddr_addr_ne fun he => hkk (Fin.castSucc_injective _ he), hti]
    refine ⟨t.setAddr i k.castSucc 0, rfl, ⟨?_, fun j hj => ?_, ?_, fun k' hk' => ?_,
      fun k' hk' => ?_⟩, ?_⟩
    · rw [setAddr_type, hti]
      exact hu.type
    · rw [setAddr_inode_ne hj, hti]
      exact hu.other j hj
    · rw [setAddr_addr_ne (castSucc_ne_last k).symm, hti]
      exact hu.indirect
    · rw [hne k' fun he => hk (he ▸ hk')]
      exact hu.left k' (List.mem_cons_of_mem _ hk')
    · by_cases hkk : k' = k
      · rw [hkk, setAddr_addr]
      · rw [hne k' hkk]
        exact hu.done k' fun hm => hk' ((List.mem_cons.1 hm).resolve_left hkk)
    · exact Freed.congr ⟨hf.bit, hf.block, hf.logs.trans (Logs.setAddr fun _ => rfl)⟩ fun x =>
        ⟨fun he => ⟨fun hx => h0 (he.trans hx), he⟩, fun hx => hx.2⟩

theorem freeAddrs_spec (h : s.Mapped) (i : Fin sb.ninodes) :
    ∃ t, (List.finRange 12).foldlM (fun t k => freeAddr t i k.castSucc) s = some t ∧
      FreeingAddrs s i [] t ∧
      Freed (fun x => x ≠ 0 ∧ ∃ k ∈ List.finRange 12, (s.inode i).addrs k.castSucc = x) s t := by
  refine freed_loop (fun k => (s.inode i).addrs k.castSucc) (FreeingAddrs s i)
    (fun k l u hk hu hbit => freeAddr_step h hk hu hbit) (List.nodup_finRange 12) ?_ ?_ ?_
  · exact ⟨rfl, fun _ _ => rfl, rfl, fun _ _ => rfl, fun k hk => absurd (List.mem_finRange k) hk⟩
  · exact fun k _ hne => (h.used (c := (i, .addr k.castSucc)) hne).2
  · intro k _ k' _ hne he
    have hc := h.owned.inj (i, .addr k.castSucc) (i, .addr k'.castSucc) hne he
    exact Fin.castSucc_injective _ (BlockSlot.addr.inj (Prod.mk.inj hc).2)

/-! ### The indirect block -/

theorem freeWord_step {ind : ℕ} {w : Fin 256} (hu : u.inode = s.inode ∧ u.block ind = s.block ind)
    (hind : ∀ c, c < sb.size → ind ≠ sb.bblock c) (hlt : Words.get (s.block ind) w < sb.size)
    (hbit : Words.get (s.block ind) w ≠ 0 → u.bit (Words.get (s.block ind) w) = true) :
    ∃ t, u.freeWord ind w = some t ∧ (t.inode = s.inode ∧ t.block ind = s.block ind) ∧
      Freed (fun x => x ≠ 0 ∧ Words.get (s.block ind) w = x) u t := by
  unfold freeWord
  rw [hu.2]
  by_cases h0 : Words.get (s.block ind) w = 0
  · rw [if_pos h0]
    exact ⟨u, rfl, hu, Freed.refl fun x hx => hx.1 (hx.2.symm.trans h0)⟩
  · rw [if_neg h0]
    obtain ⟨t, ht, hti, hf⟩ := bfree_freed (hbit h0) hlt
    refine ⟨t, ht, ⟨hti.trans hu.1, (hf.block ind hind).trans hu.2⟩, hf.congr fun x => ?_⟩
    exact ⟨fun he => ⟨fun hx => h0 (he.trans hx), he⟩, fun hx => hx.2⟩

/-- The loop over the indirect block; `u` is `s` with the direct blocks freed. -/
theorem freeWords_spec (h : s.Mapped) (hk : (s.inode i).addrs 12 ≠ 0)
    (hblock : u.block ((s.inode i).addrs 12) = s.block ((s.inode i).addrs 12))
    (hbit : ∀ w, s.ptr (i, .word w) ≠ 0 → u.bit (s.ptr (i, .word w)) = true) :
    ∃ t, (List.finRange 256).foldlM (fun t j => freeWord t ((s.inode i).addrs 12) j) u = some t ∧
      t.inode = u.inode ∧
      Freed (fun x => x ≠ 0 ∧ ∃ w ∈ List.finRange 256, s.ptr (i, .word w) = x) u t := by
  have hout : ∀ c, c < sb.size → (s.inode i).addrs 12 ≠ sb.bblock c :=
    fun c hc => (h.indirect hk).1.ne_bblock hc
  have hval : ∀ w, s.ptr (i, .word w) = Words.get (u.block ((s.inode i).addrs 12)) w := by
    intro w
    rw [hblock]
    exact ptr_word_pos hk
  simp only [hval] at hbit ⊢
  have hlt : ∀ w, Words.get (u.block ((s.inode i).addrs 12)) w < sb.size := by
    intro w
    rw [← hval]
    by_cases h0 : s.ptr (i, .word w) = 0
    · have hd := (h.indirect hk).1.2
      omega
    · exact (h.used h0).1.2
  have hloop := freed_loop (s := u)
    (fun w => Words.get (u.block ((s.inode i).addrs 12)) w)
    (fun _ v => v.inode = u.inode ∧ v.block ((s.inode i).addrs 12) =
      u.block ((s.inode i).addrs 12))
    (f := fun t j => freeWord t ((s.inode i).addrs 12) j)
    (fun w l v _ hv hb => freeWord_step hv hout (hlt w) hb) (List.nodup_finRange 256) ⟨rfl, rfl⟩
    (fun w _ hne => hbit w hne) ?_
  · obtain ⟨t, ht, hinv, hf⟩ := hloop
    exact ⟨t, ht, hinv.1, hf⟩
  · intro w _ w' _ hne he
    rw [← hval, ← hval] at he
    rw [← hval] at hne
    have hc := h.owned.inj (i, .word w) (i, .word w') hne he
    exact BlockSlot.word.inj (Prod.mk.inj hc).2

/-- `freeAddr` of a slot that holds a block in use. -/
theorem freeAddr_freed {k : Fin 13} (hk : (u.inode i).addrs k ≠ 0)
    (hbit : u.bit ((u.inode i).addrs k) = true) (hlt : (u.inode i).addrs k < sb.size) :
    ∃ t, u.freeAddr i k = some t ∧ (∀ j, j ≠ i → t.inode j = u.inode j) ∧
      (t.inode i).type = (u.inode i).type ∧ (t.inode i).addrs k = 0 ∧ (∀ k', k' ≠ k → (t.inode i).addrs k' = (u.inode i).addrs k') ∧
      Freed (fun x => (u.inode i).addrs k = x) u t := by
  unfold freeAddr
  rw [if_neg hk]
  obtain ⟨t, ht, hti, hf⟩ := bfree_freed hbit hlt
  rw [ht]
  refine ⟨t.setAddr i k 0, rfl, fun j hj => ?_, ?_, setAddr_addr, fun k' hk' => ?_,
    ⟨hf.bit, hf.block, hf.logs.trans (Logs.setAddr fun _ => rfl)⟩⟩
  · rw [setAddr_inode_ne hj, hti]
  · rw [setAddr_type, hti]
  · rw [setAddr_addr_ne hk', hti]

/-- The second half of `itrunc`; `u` is `s` with the direct blocks freed. -/
theorem freeIndirect_spec (h : s.Mapped) (hu : FreeingAddrs s i [] u)
    (hf : Freed (fun x => x ≠ 0 ∧ ∃ k ∈ List.finRange 12, (s.inode i).addrs k.castSucc = x) s u) :
    ∃ t, u.freeIndirect i = some t ∧ (∀ j, j ≠ i → t.inode j = s.inode j) ∧
      (t.inode i).type = (s.inode i).type ∧ (∀ k, (t.inode i).addrs k = 0) ∧
      Freed (fun x => x ≠ 0 ∧ ((s.inode i).addrs 12 = x ∨ ∃ w, s.ptr (i, .word w) = x)) u t := by
  have hzero : ∀ k : Fin 12, (u.inode i).addrs k.castSucc = 0 :=
    fun k => hu.done k (List.not_mem_nil)
  unfold freeIndirect
  rw [hu.indirect]
  by_cases h0 : (s.inode i).addrs 12 = 0
  · rw [if_pos h0]
    refine ⟨u, rfl, hu.other, hu.type, fun k => ?_, Freed.refl fun x hx => ?_⟩
    · induction k using Fin.lastCases with
      | last => exact hu.indirect.trans h0
      | cast k => exact hzero k
    · rcases hx.2 with he | ⟨w, he⟩
      · exact hx.1 (he.symm.trans h0)
      · exact hx.1 (he.symm.trans (ptr_word_zero h0))
  · rw [if_neg h0]
    -- a block of another slot is still in use
    have hstill : ∀ c, s.ptr (i, c) ≠ 0 → (∀ k : Fin 12, c ≠ .addr k.castSucc) →
        u.bit (s.ptr (i, c)) = true := by
      intro c hne hc
      refine (hf.bit _).2 ⟨(h.used hne).2, ?_⟩
      rintro ⟨-, k, -, he⟩
      have hcc := h.owned.inj (i, c) (i, .addr k.castSucc) hne he.symm
      exact hc k (Prod.mk.inj hcc).2
    have hind := h.indirect h0
    have hblock := hf.block _ fun c hc => hind.1.ne_bblock hc
    obtain ⟨v, hv, hvi, hvf⟩ := freeWords_spec h h0 hblock fun w hne =>
      hstill (.word w) hne fun k => BlockSlot.noConfusion
    rw [hv, Option.bind_some]
    have ha : (v.inode i).addrs 12 = (s.inode i).addrs 12 := by
      rw [hvi]
      exact hu.indirect
    have hbit : v.bit ((s.inode i).addrs 12) = true := by
      refine (hvf.bit _).2 ⟨hstill (.addr 12) h0 fun k he => ?_, ?_⟩
      · exact castSucc_ne_last k (BlockSlot.addr.inj he).symm
      · rintro ⟨-, w, -, he⟩
        have hcc := h.owned.inj (i, .addr 12) (i, .word w) h0 he.symm
        exact BlockSlot.noConfusion (Prod.mk.inj hcc).2
    rw [← ha] at h0 hbit
    have hlt : (v.inode i).addrs 12 < sb.size := by
      rw [ha]
      exact hind.1.2
    obtain ⟨t, ht, hto, hty, ht12, htk, htf⟩ := freeAddr_freed h0 hbit hlt
    refine ⟨t, ht, fun j hj => ?_, ?_, fun k => ?_, (hvf.trans htf).congr fun x => ?_⟩
    · rw [hto j hj, hvi]
      exact hu.other j hj
    · rw [hty, hvi]
      exact hu.type
    · induction k using Fin.lastCases with
      | last => exact ht12
      | cast k =>
        rw [htk _ (castSucc_ne_last k), hvi]
        exact hzero k
    · rw [ha]
      constructor
      · rintro (⟨hx, w, -, he⟩ | he)
        · exact ⟨hx, Or.inr ⟨w, he⟩⟩
        · exact ⟨fun hx => h0 (ha.trans (he.trans hx)), Or.inl he⟩
      · rintro ⟨hx, he | ⟨w, he⟩⟩
        · exact Or.inr he
        · exact Or.inl ⟨hx, w, List.mem_finRange w, he⟩

/-! ### `itrunc` -/

/-- `t` is `s` with inode `i` truncated. -/
structure Truncated (i : Fin sb.ninodes) (s t : BlockFs sb) : Prop where
  mapped : t.Mapped
  other : ∀ j, j ≠ i → t.inode j = s.inode j
  inode : t.inode i = ⟨(s.inode i).type, 0, fun _ => 0⟩
  ptr : ∀ c, c.1 ≠ i → t.ptr c = s.ptr c
  data : ∀ a, sb.Data a → t.block a = s.block a
  dinode : t.dinode i = t.inode i
  dinode_other : ∀ j, j ≠ i → t.dinode j = s.dinode j
  bit : ∀ x, t.bit x = true ↔ s.bit x = true ∧ ¬(x ≠ 0 ∧ ∃ c, s.ptr (i, c) = x)
  logs : Logs s t

theorem ptr_of_addrs (h : ∀ k, (s.inode i).addrs k = 0) (c : BlockSlot) : s.ptr (i, c) = 0 := by
  cases c with
  | addr k => exact h k
  | word w => exact ptr_word_zero (h 12)

theorem setSize_inode_ne {j : Fin sb.ninodes} {n : ℕ} (h : j ≠ i) :
    (s.setSize i n).inode j = s.inode j := Function.update_of_ne h ..

theorem setSize_inode {n : ℕ} : (s.setSize i n).inode i = { s.inode i with size := n } :=
  Function.update_self ..

theorem setSize_logs (n : ℕ) : Logs s ((s.setSize i n).iupdate i) := iupdate_logs rfl

/-- The blocks of one inode are given up. -/
theorem Mapped.release (h : s.Mapped) (L : sb.Layout) (hi : ∀ c, t.ptr (i, c) = 0)
    (ho : ∀ c, c.1 ≠ i → t.ptr c = s.ptr c)
    (hbit : ∀ x, t.bit x = true ↔ s.bit x = true ∧ ¬(x ≠ 0 ∧ ∃ c, s.ptr (i, c) = x)) :
    t.Mapped := by
  constructor
  · refine h.owned.release (fun c => c.1 = i) ?_ ho fun x => ?_
    · rintro ⟨j, c⟩ hj
      dsimp only at hj
      rw [hj]
      exact hi c
    · unfold Used
      rw [hbit, and_assoc, and_congr_right_iff]
      intro hd
      rw [and_congr_right_iff]
      intro _
      constructor
      · rintro hno ⟨j, c⟩ hj he
        dsimp only at hj
        subst hj
        exact hno ⟨hd.pos L, c, he⟩
      · rintro hno ⟨-, c, he⟩
        exact hno (i, c) rfl he
  · intro x hx
    refine (hbit x).2 ⟨h.inUse x hx, ?_⟩
    rintro ⟨hne, c, he⟩
    rw [← he] at hne hx
    have hd := (h.used hne).1.1
    omega

/-- **`itrunc`** frees the blocks of one inode. -/
theorem itrunc_spec (h : s.Mapped) (L : sb.Layout) (i : Fin sb.ninodes) :
    ∃ t, s.itrunc i = some t ∧ Truncated i s t := by
  obtain ⟨u, hu, hua, huf⟩ := freeAddrs_spec h i
  obtain ⟨v, hv, hvo, hvt, hvz, hvf⟩ := freeIndirect_spec h hua huf
  unfold itrunc
  rw [hu, Option.bind_some, hv, Option.map_some]
  refine ⟨_, rfl, ?_⟩
  have hf : Freed (fun x => x ≠ 0 ∧ ∃ c, s.ptr (i, c) = x) s v := by
    refine (huf.trans hvf).congr fun x => ?_
    constructor
    · rintro (⟨hx, k, -, he⟩ | ⟨hx, he | ⟨w, he⟩⟩)
      · exact ⟨hx, .addr k.castSucc, he⟩
      · exact ⟨hx, .addr 12, he⟩
      · exact ⟨hx, .word w, he⟩
    · rintro ⟨hx, c, he⟩
      cases c with
      | addr k =>
        induction k using Fin.lastCases with
        | last => exact Or.inr ⟨hx, Or.inl he⟩
        | cast k => exact Or.inl ⟨hx, k, List.mem_finRange k, he⟩
      | word w => exact Or.inr ⟨hx, Or.inr ⟨w, he⟩⟩
  have hother : ∀ j, j ≠ i → ((v.setSize i 0).iupdate i).inode j = s.inode j := by
    intro j hj
    rw [iupdate_inode, setSize_inode_ne hj]
    exact hvo j hj
  have hself : ((v.setSize i 0).iupdate i).inode i = ⟨(s.inode i).type, 0, fun _ => 0⟩ := by
    rw [iupdate_inode, setSize_inode]
    exact BlockInode.ext hvt rfl (funext hvz)
  have hdata : ∀ a, sb.Data a → ((v.setSize i 0).iupdate i).block a = s.block a := by
    intro a ha
    rw [iupdate_block (ha.ne_iblock L i)]
    exact hf.block a fun c hc => ha.ne_bblock hc
  have hptr : ∀ c, c.1 ≠ i → ((v.setSize i 0).iupdate i).ptr c = s.ptr c :=
    fun c hc => ptr_congr (congrArg BlockInode.addrs (hother c.1 hc)) fun h0 =>
      hdata _ (h.indirect h0).1
  have hbit : ∀ x, ((v.setSize i 0).iupdate i).bit x = true ↔
      s.bit x = true ∧ ¬(x ≠ 0 ∧ ∃ c, s.ptr (i, c) = x) := by
    intro x
    rw [iupdate_bit L]
    exact hf.bit x
  have hz : ∀ c, ((v.setSize i 0).iupdate i).ptr (i, c) = 0 :=
    ptr_of_addrs fun k => by rw [hself]
  refine ⟨h.release L hz hptr hbit, hother, hself, hptr, hdata, ?_, fun j hj => ?_, hbit,
    hf.logs.trans (setSize_logs 0)⟩
  · have hin : (v.setSize i 0).inode i = ⟨(s.inode i).type, 0, fun _ => 0⟩ := hself
    refine dinode_iupdate ?_ fun k => ?_
    · rw [hin]
      exact Nat.two_pow_pos 32
    · rw [hin]
      exact Nat.two_pow_pos 32
  · rw [dinode_iupdate_ne hj]
    exact dinode_congr (hf.block _ fun c _ => iblock_ne_bblock L j c)

end BlockFs

end AgentOS
