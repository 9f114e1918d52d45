import AgentOS.Model.BlockFs

/-!
# The free bitmap

* `bit_markUsed`, `bit_markFree`: one bit changes.
* `balloc_cases`: `balloc` takes a block whose bit is clear, and zeroes it; or every bit is set.
-/

namespace AgentOS

variable {sb : Superblock}

/-- What `mkfs` guarantees of a superblock: the inode blocks lie before the bitmap, the bitmap
before the data blocks, and block numbers are positive `int`s. -/
structure Superblock.Layout (sb : Superblock) : Prop where
  inodes : sb.inodestart + sb.ninodes / ipb < sb.bmapstart
  data : sb.datastart ≤ sb.size
  size : sb.size < 2 ^ 31

theorem mkfs_layout : Superblock.mkfs.Layout := ⟨by decide, by decide, by decide⟩

/-- Data blocks. -/
def Superblock.Data (sb : Superblock) (b : ℕ) : Prop := sb.datastart ≤ b ∧ b < sb.size

theorem bblock_ge (sb : Superblock) (b : ℕ) : sb.bmapstart ≤ sb.bblock b := Nat.le_add_left ..

theorem bblock_lt {b : ℕ} (h : b < sb.size) : sb.bblock b < sb.datastart := by
  have hd := Nat.div_le_div_right (c := bpb) (Nat.le_of_lt h)
  unfold Superblock.bblock Superblock.datastart
  omega

theorem iblock_lt (L : sb.Layout) (i : Fin sb.ninodes) : sb.iblock i < sb.bmapstart := by
  have hd := Nat.div_le_div_right (c := ipb) (Nat.le_of_lt i.isLt)
  have hl := L.inodes
  unfold Superblock.iblock
  omega

theorem bmapstart_lt (sb : Superblock) : sb.bmapstart < sb.datastart := Nat.lt_add_of_pos_right (Nat.succ_pos _)

theorem Superblock.Data.pos {b : ℕ} (L : sb.Layout) (h : sb.Data b) : b ≠ 0 := by
  have hl := L.inodes
  have hb := bmapstart_lt sb
  have hd := h.1
  omega

theorem Superblock.Data.ne_bblock {b c : ℕ} (h : sb.Data b) (hc : c < sb.size) :
    b ≠ sb.bblock c := by
  have hl := bblock_lt hc
  have hd := h.1
  omega

theorem Superblock.Data.ne_iblock {b : ℕ} (L : sb.Layout) (h : sb.Data b) (i : Fin sb.ninodes) :
    b ≠ sb.iblock i := by
  have hi := iblock_lt L i
  have hb := bmapstart_lt sb
  have hd := h.1
  omega

theorem iblock_ne_bblock (L : sb.Layout) (i : Fin sb.ninodes) (c : ℕ) :
    sb.iblock i ≠ sb.bblock c := by
  have hi := iblock_lt L i
  have hb := bblock_ge sb c
  omega

/-! ### One byte -/

/-- The test of a bit. -/
theorem mask_test (x : UInt8) (j : Fin 8) :
    (x &&& 1 <<< UInt8.ofNat j != 0) = x.toBitVec.getLsbD j := by
  have h : ∀ x : Fin 256, ∀ j : Fin 8,
      (UInt8.ofNat x &&& 1 <<< UInt8.ofNat j != 0) = (UInt8.ofNat x).toBitVec.getLsbD j := by
    decide +kernel
  have hx := h ⟨x.toNat, x.toNat_lt⟩ j
  rwa [UInt8.ofNat_toNat] at hx

theorem mask_getLsbD (i j : Fin 8) :
    ((1 : UInt8) <<< UInt8.ofNat i).toBitVec.getLsbD j = decide (j = i) := by
  revert i j
  decide +kernel

theorem mask_or (x : UInt8) (i j : Fin 8) :
    ((x ||| 1 <<< UInt8.ofNat i) &&& 1 <<< UInt8.ofNat j != 0) =
      (x &&& 1 <<< UInt8.ofNat j != 0 || decide (j = i)) := by
  rw [mask_test, mask_test, UInt8.toBitVec_or, BitVec.getLsbD_or, mask_getLsbD]

theorem mask_clear (x : UInt8) (i j : Fin 8) :
    ((x &&& ~~~(1 <<< UInt8.ofNat i)) &&& 1 <<< UInt8.ofNat j != 0) =
      (x &&& 1 <<< UInt8.ofNat j != 0 && decide (j ≠ i)) := by
  rw [mask_test, mask_test, UInt8.toBitVec_and, BitVec.getLsbD_and, UInt8.toBitVec_not,
    BitVec.getLsbD_not, mask_getLsbD, decide_not, decide_eq_true j.isLt, Bool.true_and]

/-- Where the bit of a block is. -/
theorem bmap_inj {b c : ℕ} (hblock : sb.bblock b = sb.bblock c) (hbyte : bmapByte b = bmapByte c)
    (hbit : b % bpb % 8 = c % bpb % 8) : b = c := by
  have hv := congrArg Fin.val hbyte
  unfold bmapByte at hv
  rw [Fin.val_ofNat, Fin.val_ofNat] at hv
  have hbpb : bpb = 8192 := rfl
  unfold Superblock.bblock at hblock
  rw [hbpb] at hblock hbit hv
  omega

/-! ### Bits -/

namespace BlockFs

variable {s : BlockFs sb} {b c : ℕ} {x : Block}

@[simp] theorem setBlock_inode : (s.setBlock b x).inode = s.inode := rfl

@[simp] theorem markUsed_inode : (s.markUsed b).inode = s.inode := rfl

@[simp] theorem markFree_inode : (s.markFree b).inode = s.inode := rfl

theorem setBlock_self : (s.setBlock b x).block b = x := Function.update_self ..

theorem setBlock_ne (h : c ≠ b) : (s.setBlock b x).block c = s.block c :=
  Function.update_of_ne h ..

theorem bit_setBlock (h : b ≠ sb.bblock c) : (s.setBlock b x).bit c = s.bit c := by
  unfold bit
  rw [setBlock_ne h.symm]

theorem markUsed_block (h : c ≠ sb.bblock b) : (s.markUsed b).block c = s.block c := setBlock_ne h

theorem markFree_block (h : c ≠ sb.bblock b) : (s.markFree b).block c = s.block c := setBlock_ne h

/-- The bit of `c` after a store into the byte of `b`. -/
theorem bit_setBmap_ne {y : UInt8} (h : sb.bblock c ≠ sb.bblock b ∨ bmapByte c ≠ bmapByte b) :
    (s.setBmap b y).bit c = s.bit c := by
  unfold bit setBmap
  by_cases hb : sb.bblock c = sb.bblock b
  · rw [hb, setBlock_self, Function.update_of_ne (h.resolve_left (fun hn => hn hb))]
  · rw [setBlock_ne hb]

theorem bit_setBmap_same {y : UInt8} (hblock : sb.bblock c = sb.bblock b)
    (hbyte : bmapByte c = bmapByte b) : (s.setBmap b y).bit c = (y &&& bmapMask c != 0) := by
  unfold bit setBmap
  rw [hblock, setBlock_self, hbyte, Function.update_self]

/-- **One bit is set.** -/
theorem bit_markUsed : (s.markUsed b).bit c = (s.bit c || decide (c = b)) := by
  by_cases h : sb.bblock c = sb.bblock b ∧ bmapByte c = bmapByte b
  · obtain ⟨hblock, hbyte⟩ := h
    unfold markUsed
    rw [bit_setBmap_same hblock hbyte]
    have hm := mask_or (s.block (sb.bblock b) (bmapByte b)) (Fin.ofNat 8 (b % bpb % 8))
      (Fin.ofNat 8 (c % bpb % 8))
    rw [Fin.val_ofNat, Fin.val_ofNat, Nat.mod_mod, Nat.mod_mod] at hm
    unfold bit bmapMask
    rw [hm, hblock, hbyte]
    congr 1
    rw [decide_eq_decide]
    constructor
    · intro he
      have hv := congrArg Fin.val he
      rw [Fin.val_ofNat, Fin.val_ofNat, Nat.mod_mod, Nat.mod_mod] at hv
      exact bmap_inj hblock hbyte hv
    · rintro rfl
      rfl
  · unfold markUsed
    rw [bit_setBmap_ne (not_and_or.1 h)]
    have hne : c ≠ b := by
      rintro rfl
      exact h ⟨rfl, rfl⟩
    rw [decide_eq_false hne, Bool.or_false]

/-- **One bit is cleared.** -/
theorem bit_markFree : (s.markFree b).bit c = (s.bit c && decide (c ≠ b)) := by
  by_cases h : sb.bblock c = sb.bblock b ∧ bmapByte c = bmapByte b
  · obtain ⟨hblock, hbyte⟩ := h
    unfold markFree
    rw [bit_setBmap_same hblock hbyte]
    have hm := mask_clear (s.block (sb.bblock b) (bmapByte b)) (Fin.ofNat 8 (b % bpb % 8))
      (Fin.ofNat 8 (c % bpb % 8))
    rw [Fin.val_ofNat, Fin.val_ofNat, Nat.mod_mod, Nat.mod_mod] at hm
    unfold bit bmapMask
    rw [hm, hblock, hbyte]
    congr 1
    rw [decide_eq_decide, not_iff_not]
    constructor
    · intro he
      have hv := congrArg Fin.val he
      rw [Fin.val_ofNat, Fin.val_ofNat, Nat.mod_mod, Nat.mod_mod] at hv
      exact bmap_inj hblock hbyte hv
    · rintro rfl
      rfl
  · unfold markFree
    rw [bit_setBmap_ne (not_and_or.1 h)]
    have hne : c ≠ b := by
      rintro rfl
      exact h ⟨rfl, rfl⟩
    rw [decide_eq_true hne, Bool.and_true]

/-- **`balloc`**: no block is free, or it takes one. -/
theorem balloc_cases (s : BlockFs sb) :
    ((∀ b, b < sb.size → s.bit b = true) ∧ s.balloc = (s, 0)) ∨
      ∃ b, b < sb.size ∧ s.bit b = false ∧
        s.balloc = ((s.markUsed b).setBlock b Block.zero, b) := by
  unfold balloc
  cases hf : (List.range sb.size).find? fun b => !s.bit b with
  | none =>
    left
    refine ⟨fun b hb => ?_, rfl⟩
    have hn := List.find?_eq_none.1 hf b (List.mem_range.2 hb)
    simpa using hn
  | some b =>
    right
    have hb := List.mem_range.1 (List.mem_of_find?_eq_some hf)
    have hp := List.find?_some hf
    exact ⟨b, hb, by simpa using hp, rfl⟩

end BlockFs

end AgentOS
