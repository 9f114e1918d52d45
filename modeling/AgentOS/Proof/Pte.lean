import AgentOS.Model.PageTable

/-!
# The bits of a page table entry

* `pteMake_pa`, `pteMake_flags`: an entry holds the address of its page and the flags.
* `frameOf_pa`: the address of a page leads to the page.
* `pteValid_iff`, `pteLink_iff`: what the kernel reads off an entry, it reads off the flags.
-/

namespace AgentOS

variable {R : Ram}

namespace Ram

theorem npages_lt (R : Ram) : R.first + R.npages = 557056 := by
  have h := R.top
  have hp : phystop = 2281701376 := rfl
  have hs : pgsize = 4096 := rfl
  rw [hp, hs] at h
  omega

theorem pa_toNat (f : R.Frame) : (R.pa f).toNat = (R.first + f.val) * 4096 := by
  have h := R.npages_lt
  have hf := f.isLt
  unfold pa
  rw [BitVec.toNat_shiftLeft, BitVec.toNat_ofNat, Nat.shiftLeft_eq]
  omega

/-- **The address of a page leads to the page.** -/
theorem frameOf_pa (f : R.Frame) : R.frameOf (R.pa f) = some f := by
  have hs : pgsize = 4096 := rfl
  have hf := f.isLt
  have hq : (R.pa f).toNat / pgsize = R.first + f.val := by
    rw [pa_toNat, hs]
    omega
  have hm : R.Managed (R.pa f) := by
    refine ⟨?_, ?_, ?_⟩
    · rw [pa_toNat, hs]
      omega
    · rw [hq]
      omega
    · rw [hq]
      omega
  unfold frameOf
  rw [dif_pos hm]
  refine congrArg some (Fin.ext ?_)
  dsimp only
  omega

theorem frameOf_inj {a b : BitVec 64} {f : R.Frame} (ha : R.frameOf a = some f)
    (hb : R.frameOf b = some f) : a = b := by
  have hs : pgsize = 4096 := rfl
  unfold frameOf at ha hb
  split at ha <;> [skip; cases ha]
  split at hb <;> [skip; cases hb]
  rename_i hma hmb
  have hva := congrArg Fin.val (Option.some.inj ha)
  have hvb := congrArg Fin.val (Option.some.inj hb)
  dsimp only at hva hvb
  obtain ⟨ha0, ha1, -⟩ := hma
  obtain ⟨hb0, hb1, -⟩ := hmb
  rw [hs] at *
  apply BitVec.eq_of_toNat_eq
  omega

end Ram

/-! ### Flags -/

theorem pteFlags_toNat (e : Pte) : (pteFlags e).toNat = e.toNat % 1024 := by
  have h : e.toNat &&& 1023 = e.toNat % 1024 := Nat.and_two_pow_sub_one_eq_mod _ 10
  unfold pteFlags
  rw [BitVec.toNat_setWidth, BitVec.toNat_and]
  change (e.toNat &&& 1023) % 2 ^ 32 = _
  rw [h]
  omega

theorem pteFlags_bit (e : Pte) (k : ℕ) :
    (pteFlags e).getLsbD k = (decide (k < 10) && e.getLsbD k) := by
  unfold pteFlags
  rw [BitVec.getLsbD_setWidth, BitVec.getLsbD_and]
  have h : (0x3FF#64).getLsbD k = decide (k < 10) := by
    change (1023 % 2 ^ 64).testBit k = _
    exact Nat.testBit_two_pow_sub_one 10 k
  rw [h]
  by_cases hk : k < 10
  · simp [hk]; omega
  · simp [hk]

/-- A mask below bit 10 meets an entry in its flags. -/
theorem pteFlags_and (e : Pte) {w : BitVec 32} (hm : w.toNat < 1024) :
    e &&& w.setWidth 64 = 0 ↔ pteFlags e &&& w = 0 := by
  have hbit : ∀ k, w.getLsbD k = true → k < 10 := by
    intro k hk
    by_contra hge
    have hf := Nat.testBit_lt_two_pow (x := w.toNat) (i := k)
      (Nat.lt_of_lt_of_le hm (Nat.pow_le_pow_right (by decide) (Nat.le_of_not_lt hge) : 2 ^ 10 ≤ 2 ^ k))
    unfold BitVec.getLsbD at hk
    rw [hf] at hk
    cases hk
  constructor
  · intro h
    apply BitVec.eq_of_getLsbD_eq
    intro k hk
    have hb := congrArg (fun x => BitVec.getLsbD x k) h
    simp only [BitVec.getLsbD_and, BitVec.getLsbD_setWidth] at hb ⊢
    rw [pteFlags_bit]
    grind
  · intro h
    apply BitVec.eq_of_getLsbD_eq
    intro k hk
    have hb := congrArg (fun x => BitVec.getLsbD x k) h
    simp only [BitVec.getLsbD_and, BitVec.getLsbD_setWidth] at hb ⊢
    rw [pteFlags_bit] at hb
    grind

theorem pteValid_iff {e : Pte} : pteValid e ↔ pteFlags e &&& 1 ≠ 0 :=
  not_congr (pteFlags_and e (w := 1) (by decide))

theorem pteLink_iff {e : Pte} :
    pteLink e ↔ pteFlags e &&& 1 ≠ 0 ∧ pteFlags e &&& (pteR ||| pteW ||| pteX) = 0 :=
  and_congr pteValid_iff (pteFlags_and e (by decide))

theorem pteValid_zero : ¬pteValid 0 := by
  decide

theorem pteLink_zero : ¬pteLink 0 := by
  decide

/-- What is mapped readable, writable or executable is no link. -/
theorem not_pteLink {e : Pte} (h : pteFlags e &&& (pteR ||| pteW ||| pteX) ≠ 0) : ¬pteLink e :=
  fun hl => h (pteLink_iff.1 hl).2

/-- An entry that is not a link has more flags than `PTE_V`. -/
theorem pteFlags_ne_one {e : Pte} (hv : pteValid e) (hl : ¬pteLink e) : pteFlags e ≠ 1 := by
  intro h
  refine hl (pteLink_iff.2 ⟨pteValid_iff.1 hv, ?_⟩)
  rw [h]
  decide

/-! ### Making an entry -/

theorem pteMake_toNat {pa : BitVec 64} {perm : BitVec 32} {k : ℕ} (ha : pa.toNat = k * 4096)
    (hk : k < 2 ^ 44) (hp : perm.toNat < 1024) :
    (pteMake pa perm).toNat = k * 1024 + (perm ||| 1).toNat := by
  have hq : (perm ||| 1).toNat < 2 ^ 10 := by
    rw [BitVec.toNat_or]
    exact Nat.or_lt_two_pow hp (by decide)
  have hor : perm.setWidth 64 ||| pteV = (perm ||| 1).setWidth 64 := by
    have hv : pteV = (1 : BitVec 32).setWidth 64 := by decide
    rw [hv, BitVec.setWidth_or]
  have hpte : (pa2pte pa).toNat = k <<< 10 := by
    unfold pa2pte
    rw [BitVec.toNat_shiftLeft, BitVec.toNat_ushiftRight, ha, Nat.shiftRight_eq_div_pow,
      Nat.shiftLeft_eq, Nat.shiftLeft_eq]
    omega
  have hw : ((perm ||| 1).setWidth 64).toNat = (perm ||| 1).toNat := by
    rw [BitVec.toNat_setWidth]
    omega
  unfold pteMake
  rw [BitVec.or_assoc, hor, BitVec.toNat_or, hpte, hw, ← Nat.shiftLeft_add_eq_or_of_lt hq,
    Nat.shiftLeft_eq]

variable {pa : BitVec 64} {perm : BitVec 32} {k : ℕ}

/-- **An entry holds the address of its page.** -/
theorem pteMake_pa (ha : pa.toNat = k * 4096) (hk : k < 2 ^ 44) (hp : perm.toNat < 1024) :
    pte2pa (pteMake pa perm) = pa := by
  have hq : (perm ||| 1).toNat < 2 ^ 10 := by
    rw [BitVec.toNat_or]
    exact Nat.or_lt_two_pow hp (by decide)
  apply BitVec.eq_of_toNat_eq
  unfold pte2pa
  rw [BitVec.toNat_shiftLeft, BitVec.toNat_ushiftRight, pteMake_toNat ha hk hp,
    Nat.shiftRight_eq_div_pow, Nat.shiftLeft_eq, ha]
  omega

/-- **An entry holds its flags.** -/
theorem pteMake_flags (ha : pa.toNat = k * 4096) (hk : k < 2 ^ 44) (hp : perm.toNat < 1024) :
    pteFlags (pteMake pa perm) = perm ||| 1 := by
  have hq : (perm ||| 1).toNat < 2 ^ 10 := by
    rw [BitVec.toNat_or]
    exact Nat.or_lt_two_pow hp (by decide)
  apply BitVec.eq_of_toNat_eq
  rw [pteFlags_toNat, pteMake_toNat ha hk hp]
  omega

/-- The entry of a page table page is one without flags. -/
theorem pteLink_make (pa : BitVec 64) : pa2pte pa ||| pteV = pteMake pa 0 := by
  have hz : (0 : BitVec 32).setWidth 64 = 0#64 := by decide
  unfold pteMake
  rw [hz, BitVec.or_zero]

/-! ### `uvmclear` -/

theorem pteU_bit (k : ℕ) : (pteU.setWidth 64 : BitVec 64).getLsbD k = decide (4 = k) := by
  have h : (pteU.setWidth 64 : BitVec 64).getLsbD k = (2 ^ 4).testBit k := rfl
  rw [h, Nat.testBit_two_pow]

theorem clear_bit (e : Pte) {k : ℕ} (hk : k ≠ 4) :
    (e &&& ~~~pteU.setWidth 64).getLsbD k = e.getLsbD k := by
  rw [BitVec.getLsbD_and, BitVec.getLsbD_not, pteU_bit, decide_eq_false (Ne.symm hk)]
  by_cases hlt : k < 64
  · rw [decide_eq_true hlt]
    simp
  · rw [BitVec.getLsbD_of_ge e k (Nat.le_of_not_lt hlt)]
    rfl

theorem clear_pa (e : Pte) : pte2pa (e &&& ~~~pteU.setWidth 64) = pte2pa e := by
  apply BitVec.eq_of_getLsbD_eq
  intro k hk
  unfold pte2pa
  rw [BitVec.getLsbD_shiftLeft, BitVec.getLsbD_shiftLeft, BitVec.getLsbD_ushiftRight,
    BitVec.getLsbD_ushiftRight, clear_bit e (by omega)]

theorem clear_flags (e : Pte) :
    pteFlags (e &&& ~~~pteU.setWidth 64) = pteFlags e &&& ~~~pteU := by
  apply BitVec.eq_of_getLsbD_eq
  intro k hk
  have hu : pteU.getLsbD k = decide (4 = k) := by
    have h : pteU.getLsbD k = (2 ^ 4).testBit k := rfl
    rw [h, Nat.testBit_two_pow]
  rw [BitVec.getLsbD_and, BitVec.getLsbD_not, hu, pteFlags_bit, pteFlags_bit, decide_eq_true hk,
    Bool.true_and]
  by_cases h4 : k = 4
  · subst h4
    rw [BitVec.getLsbD_and, BitVec.getLsbD_not, pteU_bit]
    simp
  · rw [clear_bit e h4, decide_eq_false (Ne.symm h4)]
    simp

end AgentOS
