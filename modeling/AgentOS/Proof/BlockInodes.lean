import AgentOS.Proof.BlockSlots

/-!
# Inodes in their blocks

* `dinode_iupdate`, `dinode_iupdate_ne`: `iupdate` stores one inode, and the others in its block
  stay as they are.
* `dinodeGet_new`: so does `ialloc`, which stores an inode without blocks.
* `Mapped.iupdate`: `iupdate` changes no slot and no bit.
-/

namespace AgentOS

variable {sb : Superblock}

/-! ### Words of an inode -/

theorem dinodeWord_val {i k : ℕ} (hk : k < 64) : (dinodeWord i k).val = 64 * (i % ipb) + k := by
  have hipb : ipb = 4 := rfl
  unfold dinodeWord
  rw [Fin.val_ofNat, hipb]
  omega

theorem dinodeWord_ne {i j k m : ℕ} (hk : k < 64) (hm : m < 64) (h : i % ipb ≠ j % ipb ∨ k ≠ m) :
    dinodeWord i k ≠ dinodeWord j m := by
  intro he
  have hv := congrArg Fin.val he
  rw [dinodeWord_val hk, dinodeWord_val hm] at hv
  omega

section Words

variable {b : Block} {i : ℕ} {ip : BlockInode} {w : Fin 256} {l : List (Fin 13)} {k : Fin 13}

/-- The stores of addresses. -/
def putAddrs (b : Block) (i : ℕ) (ip : BlockInode) (l : List (Fin 13)) : Block :=
  l.foldl (fun b (k : Fin 13) => Words.set b (dinodeWord i (3 + k)) (ip.addrs k)) b

theorem putAddrs_ne (h : ∀ k ∈ l, w ≠ dinodeWord i (3 + (k : Fin 13))) :
    Words.get (putAddrs b i ip l) w = Words.get b w := by
  induction l generalizing b with
  | nil => rfl
  | cons k l ih =>
    have hrec := ih (b := Words.set b (dinodeWord i (3 + k)) (ip.addrs k))
      fun k' hk' => h k' (List.mem_cons_of_mem _ hk')
    exact hrec.trans (Words.get_set_ne (h k List.mem_cons_self))

theorem putAddrs_get (hk : k ∈ l) (hlt : ip.addrs k < 2 ^ 32) :
    Words.get (putAddrs b i ip l) (dinodeWord i (3 + k)) = ip.addrs k := by
  induction l generalizing b with
  | nil => cases hk
  | cons k' l ih =>
    by_cases hl : k ∈ l
    · exact ih (b := Words.set b (dinodeWord i (3 + k')) (ip.addrs k')) hl
    · obtain rfl : k = k' := (List.mem_cons.1 hk).resolve_right hl
      have hne : ∀ k' ∈ l, dinodeWord i (3 + k) ≠ dinodeWord i (3 + (k' : Fin 13)) := by
        intro k' hk'
        refine dinodeWord_ne (by omega) (by omega) (Or.inr fun he => hl ?_)
        have hkk : k = k' := Fin.ext (by omega)
        exact hkk ▸ hk'
      have hrec : Words.get (putAddrs (Words.set b (dinodeWord i (3 + k)) (ip.addrs k)) i ip l)
          (dinodeWord i (3 + k)) = _ := putAddrs_ne hne
      exact hrec.trans (Words.get_set_self hlt)

theorem dinodeType_get {type : BitVec 16} :
    BitVec.ofNat 16 (Words.get (dinodeType b i type) (dinodeWord i 0)) = type := by
  have hlt := Words.get_lt (b := b) (j := dinodeWord i 0)
  have ht := type.isLt
  have hset : Words.get (dinodeType b i type) (dinodeWord i 0) =
      Words.get b (dinodeWord i 0) / 2 ^ 16 * 2 ^ 16 + type.toNat :=
    Words.get_set_self (by omega)
  rw [hset]
  apply BitVec.eq_of_toNat_eq
  rw [BitVec.toNat_ofNat, Nat.mul_add_mod_self_right, Nat.mod_eq_of_lt ht]

/-- What `iupdate` stores, `ilock` reads. -/
theorem dinodeGet_dinodeSet (hs : ip.size < 2 ^ 32) (ha : ∀ k, ip.addrs k < 2 ^ 32) :
    dinodeGet (dinodeSet b i ip) i = ip := by
  apply BlockInode.ext
  · have hne : ∀ k ∈ List.finRange 13, dinodeWord i 0 ≠ dinodeWord i (3 + (k : Fin 13)) :=
      fun k _ => dinodeWord_ne (by omega) (by omega) (Or.inr (by omega))
    have hget : Words.get (dinodeSet b i ip) (dinodeWord i 0) =
        Words.get (dinodeType b i ip.type) (dinodeWord i 0) :=
      (putAddrs_ne hne).trans (Words.get_set_ne (dinodeWord_ne (by omega) (by omega)
        (Or.inr (by omega))))
    exact (congrArg (BitVec.ofNat 16) hget).trans dinodeType_get
  · have hne : ∀ k ∈ List.finRange 13, dinodeWord i 2 ≠ dinodeWord i (3 + (k : Fin 13)) :=
      fun k _ => dinodeWord_ne (by omega) (by omega) (Or.inr (by omega))
    exact (putAddrs_ne hne).trans (Words.get_set_self hs)
  · funext k
    exact putAddrs_get (List.mem_finRange k) (ha k)

/-- The other inodes of the block. -/
theorem dinodeGet_dinodeSet_ne {j : ℕ} (h : j % ipb ≠ i % ipb) :
    dinodeGet (dinodeSet b i ip) j = dinodeGet b j := by
  have hget : ∀ m, m < 64 → Words.get (dinodeSet b i ip) (dinodeWord j m) =
      Words.get b (dinodeWord j m) := by
    intro m hm
    have hne : ∀ k ∈ List.finRange 13, dinodeWord j m ≠ dinodeWord i (3 + (k : Fin 13)) :=
      fun k _ => dinodeWord_ne hm (by omega) (Or.inl h)
    have hw : ∀ k, k < 64 → dinodeWord j m ≠ dinodeWord i k :=
      fun k hk => dinodeWord_ne hm hk (Or.inl h)
    calc Words.get (dinodeSet b i ip) (dinodeWord j m)
        = Words.get (Words.set (dinodeType b i ip.type) (dinodeWord i 2) ip.size) (dinodeWord j m) :=
          putAddrs_ne hne
      _ = Words.get (dinodeType b i ip.type) (dinodeWord j m) :=
          Words.get_set_ne (hw 2 (by omega))
      _ = Words.get b (dinodeWord j m) := Words.get_set_ne (hw 0 (by omega))
  apply BlockInode.ext
  · exact congrArg (BitVec.ofNat 16) (hget 0 (by omega))
  · exact hget 2 (by omega)
  · funext k
    exact hget (3 + k) (by omega)

theorem dinodeClear_get {j m : ℕ} (hm : m < 64) :
    Words.get (dinodeClear b i) (dinodeWord j m) =
      if j % ipb = i % ipb then 0 else Words.get b (dinodeWord j m) := by
  have hipb : ipb = 4 := rfl
  have hv := dinodeWord_val (i := j) hm
  have hq : ∀ k : Fin 4, (Words.byte (dinodeWord j m) k).val / 256 = j % ipb := by
    intro k
    unfold Words.byte
    dsimp only
    rw [hipb] at hv ⊢
    omega
  have hbyte : ∀ k, dinodeClear b i (Words.byte (dinodeWord j m) k) =
      if j % ipb = i % ipb then 0 else b (Words.byte (dinodeWord j m) k) := by
    intro k
    unfold dinodeClear
    rw [hq k]
  by_cases h : j % ipb = i % ipb
  · simp only [h, if_true] at hbyte ⊢
    unfold Words.get
    rw [hbyte, hbyte, hbyte, hbyte]
    rfl
  · simp only [h, if_false] at hbyte ⊢
    exact Words.get_congr hbyte

/-- The inode that `ialloc` stores. -/
theorem dinodeGet_new {type : BitVec 16} :
    dinodeGet (dinodeType (dinodeClear b i) i type) i = ⟨type, 0, fun _ => 0⟩ := by
  have hget : ∀ m, 0 < m → m < 64 →
      Words.get (dinodeType (dinodeClear b i) i type) (dinodeWord i m) = 0 := by
    intro m h0 hm
    rw [dinodeType, Words.get_set_ne (dinodeWord_ne hm (by omega) (Or.inr (by omega))),
      dinodeClear_get hm, if_pos rfl]
  apply BlockInode.ext
  · exact dinodeType_get
  · exact hget 2 (by omega) (by omega)
  · funext k
    exact hget (3 + k) (by omega) (by omega)

theorem dinodeGet_new_ne {j : ℕ} {type : BitVec 16} (h : j % ipb ≠ i % ipb) :
    dinodeGet (dinodeType (dinodeClear b i) i type) j = dinodeGet b j := by
  have hget : ∀ m, m < 64 →
      Words.get (dinodeType (dinodeClear b i) i type) (dinodeWord j m) =
        Words.get b (dinodeWord j m) := by
    intro m hm
    rw [dinodeType, Words.get_set_ne (dinodeWord_ne hm (by omega) (Or.inl h)),
      dinodeClear_get hm, if_neg h]
  apply BlockInode.ext
  · exact congrArg (BitVec.ofNat 16) (hget 0 (by omega))
  · exact hget 2 (by omega)
  · funext k
    exact hget (3 + k) (by omega)

end Words

/-! ### `iupdate` -/

namespace BlockFs

variable {s t : BlockFs sb} {i j : Fin sb.ninodes}

theorem iupdate_inode : (s.iupdate i).inode = s.inode := rfl

theorem iupdate_block {b : ℕ} (h : b ≠ sb.iblock i) : (s.iupdate i).block b = s.block b :=
  setBlock_ne h

theorem dinode_congr (h : t.block (sb.iblock i) = s.block (sb.iblock i)) :
    t.dinode i = s.dinode i := by
  unfold dinode
  rw [h]

/-- **`iupdate` stores the inode.** -/
theorem dinode_iupdate (hs : (s.inode i).size < 2 ^ 32) (ha : ∀ k, (s.inode i).addrs k < 2 ^ 32) :
    (s.iupdate i).dinode i = s.inode i := by
  unfold dinode iupdate
  rw [setBlock_self]
  exact dinodeGet_dinodeSet hs ha

/-- A store into the block of an inode that keeps the others of the block. -/
theorem dinode_setBlock_ne {x : Block} (h : j ≠ i)
    (hx : (j : ℕ) % ipb ≠ i % ipb → dinodeGet x j = dinodeGet (s.block (sb.iblock i)) j) :
    (s.setBlock (sb.iblock i) x).dinode j = s.dinode j := by
  by_cases hb : sb.iblock j = sb.iblock i
  · unfold dinode
    rw [hb, setBlock_self]
    refine hx fun hm => h ?_
    have hipb : ipb = 4 := rfl
    unfold Superblock.iblock at hb
    rw [hipb] at hb hm
    exact Fin.ext (by omega)
  · exact dinode_congr (setBlock_ne hb)

/-- **The other inodes stay.** -/
theorem dinode_iupdate_ne (h : j ≠ i) : (s.iupdate i).dinode j = s.dinode j :=
  dinode_setBlock_ne h dinodeGet_dinodeSet_ne

theorem iupdate_bit (L : sb.Layout) (b : ℕ) : (s.iupdate i).bit b = s.bit b :=
  bit_setBlock (iblock_ne_bblock L i b)

theorem iupdate_ptr (h : s.Mapped) (L : sb.Layout) : (s.iupdate i).ptr = s.ptr :=
  funext fun _ => ptr_congr rfl fun h0 => iupdate_block ((h.indirect h0).1.ne_iblock L i)

theorem Mapped.iupdate (h : s.Mapped) (L : sb.Layout) : (s.iupdate i).Mapped :=
  h.congr (iupdate_ptr h L) (iupdate_bit L)

/-- An inode with other fields is stored. -/
theorem iupdate_logs {ip : BlockInode} (h : ip.addrs = (s.inode i).addrs) :
    Logs s ((s.setInode i ip).iupdate i) := (Logs.setInode h).trans (Logs.setBlock _)

/-- Addresses are words. -/
theorem Mapped.addr_lt (h : s.Mapped) (L : sb.Layout) (k : Fin 13) :
    (s.inode i).addrs k < 2 ^ 32 := by
  by_cases h0 : (s.inode i).addrs k = 0
  · omega
  · have hd := (h.used (c := (i, .addr k)) h0).1.2
    have hs := L.size
    rw [ptr_addr] at hd
    omega

end BlockFs

end AgentOS
