import AgentOS.Model.Log

/-!
# The header block of the log

* `headBlocks_headBlock`: what `write_head` stores is what `read_head` reads.
* `headBlocks_congr`: the header lies in the first sector, so that a crash between the two sectors
  of the block leaves the old header or the new one.
* `sector_sector`: both sectors written, in either order.
-/

namespace AgentOS

variable {b b' c d : Block} {l : List ℕ} {k k' : Sector}

/-- The header block `b` lists the blocks `l`. -/
structure HeadIs (b : Block) (l : List ℕ) : Prop where
  n : headN b = l.length
  blocks : headBlocks b = l

/-! ### Sectors -/

theorem sector_apply_same {i : Fin (4 * 256)} (h : i.val / 512 = k.val) :
    Block.sector k c d i = c i := if_pos h

theorem sector_apply_other {i : Fin (4 * 256)} (h : i.val / 512 ≠ k.val) :
    Block.sector k c d i = d i := if_neg h

/-- **Both sectors**: the block is the new one. -/
theorem sector_sector (h : k' ≠ k) : Block.sector k c (Block.sector k' c d) = c := by
  funext i
  by_cases hk : i.val / 512 = k.val
  · exact sector_apply_same hk
  · rw [sector_apply_other hk]
    apply sector_apply_same
    have hkk : k'.val ≠ k.val := fun he => h (Fin.ext he)
    omega

/-- The first sector written: the bytes of the header are the new ones. -/
theorem sector_zero_head {i : Fin (4 * 256)} (h : i.val < 512) : Block.sector 0 c d i = c i := by
  apply sector_apply_same
  rw [Fin.val_zero]
  omega

/-- The second sector written: they are the old ones. -/
theorem sector_one_head {i : Fin (4 * 256)} (h : i.val < 512) : Block.sector 1 c d i = d i := by
  apply sector_apply_other
  rw [Fin.val_one]
  omega

/-! ### The words of the header -/

theorem ofNat_word_val {i : ℕ} (h : i < 256) : (Fin.ofNat 256 i).val = i := Nat.mod_eq_of_lt h

theorem ofNat_word_ne {i j : ℕ} (hi : i < 256) (hj : j < 256) (h : i ≠ j) :
    Fin.ofNat 256 i ≠ Fin.ofNat 256 j := by
  intro he
  have hv := congrArg Fin.val he
  rw [ofNat_word_val hi, ofNat_word_val hj] at hv
  exact h hv

/-- A word of the first sector. -/
theorem get_congr_head {j : Fin 256} (hj : j.val < 128) (h : ∀ i, i.val < 512 → b i = b' i) :
    Words.get b j = Words.get b' j := by
  apply Words.get_congr
  intro k
  apply h
  change 4 * j.val + k.val < 512
  omega

/-- **The header lies in the first sector.** -/
theorem HeadIs.congr (hb : HeadIs b l) (hl : l.length ≤ logsize)
    (h : ∀ i, i.val < 512 → b i = b' i) : HeadIs b' l := by
  have hn : headN b' = headN b := by
    unfold headN
    rw [get_congr_head (by decide) h]
  refine ⟨hn.trans hb.n, ?_⟩
  rw [← hb.blocks]
  unfold headBlocks
  rw [hn, hb.n]
  apply List.map_congr_left
  intro i hi
  have hi' := List.mem_range.1 hi
  have hlog : logsize = 30 := rfl
  have hlt : i + 1 < 128 := by
    rw [Int.toNat_natCast] at hi'
    omega
  refine (get_congr_head ?_ h).symm
  rw [ofNat_word_val (by omega)]
  exact hlt

/-- The stores of `write_head` into the words before the list. -/
theorem putBlocks_get_lt {i j : ℕ} (hj : j < i + 1) (hlen : i + l.length < 256) :
    Words.get (putBlocks b i l) (Fin.ofNat 256 j) = Words.get b (Fin.ofNat 256 j) := by
  induction l generalizing b i with
  | nil => rfl
  | cons x l ih =>
    rw [List.length_cons] at hlen
    rw [putBlocks, ih (by omega) (by omega)]
    apply Words.get_set_ne
    exact ofNat_word_ne (by omega) (by omega) (by omega)

/-- The stores of `write_head` into its own words. -/
theorem putBlocks_get {i j : ℕ} (hj : j < l.length) (hlen : i + l.length < 256)
    (hl : ∀ x ∈ l, x < 2 ^ 32) :
    Words.get (putBlocks b i l) (Fin.ofNat 256 (i + j + 1)) = l[j] := by
  induction l generalizing b i j with
  | nil => simp at hj
  | cons x l ih =>
    rw [List.length_cons] at hlen hj
    rw [putBlocks]
    cases j with
    | zero =>
      rw [putBlocks_get_lt (by omega) (by omega), Nat.add_zero]
      exact Words.get_set_self (hl x List.mem_cons_self)
    | succ j =>
      have hrec := ih (b := Words.set b (Fin.ofNat 256 (i + 1)) x) (i := i + 1) (j := j)
        (by omega) (by omega) fun y hy => hl y (List.mem_cons_of_mem _ hy)
      rw [show i + (j + 1) + 1 = i + 1 + j + 1 by omega, hrec]
      rfl

/-- **What `write_head` stores, `read_head` reads.** -/
theorem headIs_headBlock (hlen : l.length ≤ logsize) (hl : ∀ x ∈ l, x < 2 ^ 32) :
    HeadIs (headBlock b l) l := by
  have hlog : logsize = 30 := rfl
  have hn : headN (headBlock b l) = l.length := by
    have hget : Words.get (headBlock b l) 0 = l.length := by
      have h0 : (0 : Fin 256) = Fin.ofNat 256 0 := rfl
      unfold headBlock
      rw [h0, putBlocks_get_lt (by omega) (by omega), ← h0]
      exact Words.get_set_self (by omega)
    unfold headN
    rw [hget, BitVec.toInt_eq_toNat_cond, BitVec.toNat_ofNat]
    omega
  refine ⟨hn, ?_⟩
  unfold headBlocks
  rw [hn, Int.toNat_natCast]
  apply List.ext_getElem
  · simp
  · intro i _ hi
    rw [List.getElem_map, List.getElem_range]
    unfold headBlock
    have hget := putBlocks_get (b := Words.set b 0 l.length) (i := 0) hi (by omega) hl
    rw [Nat.zero_add] at hget
    exact hget

/-- A zero block is an empty header. -/
theorem headIs_zero : HeadIs Block.zero [] := by
  have hn : headN Block.zero = 0 := by decide
  refine ⟨hn, ?_⟩
  unfold headBlocks
  rw [hn]
  rfl

end AgentOS
