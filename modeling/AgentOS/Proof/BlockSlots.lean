import AgentOS.Lib.Owner
import AgentOS.Proof.BlockBitmap

/-!
# The blocks of a file

* `Mapped`: every data block in use is in one slot of one inode.
* `Logs`: what `balloc`, `bfree` and `iupdate` store, they log.
* `bmap_spec`: `bmap` keeps that, and what the slots and the blocks of files hold; it answers the
  block in the slot, or 0.
* `Mapped.setBlock`: so does a store into a block that is no indirect block.
-/

namespace AgentOS

variable {sb : Superblock}

namespace BlockFs

/-- The block in a slot of an inode; 0 if there is none. -/
def ptr (s : BlockFs sb) (c : Fin sb.ninodes × BlockSlot) : ℕ :=
  match c.2 with
  | .addr k => (s.inode c.1).addrs k
  | .word j =>
    if (s.inode c.1).addrs 12 = 0 then 0 else Words.get (s.block ((s.inode c.1).addrs 12)) j

/-- A data block in use. -/
def Used (s : BlockFs sb) (b : ℕ) : Prop := sb.Data b ∧ s.bit b = true

/-- **Data blocks are free or in one slot**; the other blocks are in use. -/
structure Mapped (s : BlockFs sb) : Prop where
  owned : Owned s.Used 0 s.ptr
  inUse : ∀ b, b < sb.datastart → s.bit b = true

/-- The buffer of block `b` is not what was logged. -/
def Torn (s : BlockFs sb) (b : ℕ) : Prop := s.logged b ≠ s.block b

/-- **Every store is logged**: from `s` to `t` no block is torn, nor does a torn block become the
indirect block of a file. -/
structure Logs (s t : BlockFs sb) : Prop where
  torn : ∀ b, t.Torn b → s.Torn b
  indirect : ∀ b j, t.Torn b → (t.inode j).addrs 12 = b → b = 0 ∨ (s.inode j).addrs 12 = b
  valid : t.valid = s.valid

/-- From `s` to `t`, inode `i` gets new blocks at most. -/
structure Grows (i : Fin sb.ninodes) (s t : BlockFs sb) : Prop where
  type : ∀ j, (t.inode j).type = (s.inode j).type
  size : ∀ j, (t.inode j).size = (s.inode j).size
  other : ∀ j, j ≠ i → t.inode j = s.inode j
  ptr : ∀ c, s.ptr c ≠ 0 → t.ptr c = s.ptr c
  ptr_other : ∀ c, c.1 ≠ i → t.ptr c = s.ptr c
  data : ∀ c, s.ptr c ≠ 0 → c.2 ≠ .addr 12 → t.block (s.ptr c) = s.block (s.ptr c)
  iblock : ∀ j : Fin sb.ninodes, t.block (sb.iblock j) = s.block (sb.iblock j)
  logs : Logs s t

variable {s t u : BlockFs sb} {i j : Fin sb.ninodes} {k : Fin 13} {w : Fin 256} {a b bn : ℕ}

theorem ptr_addr : s.ptr (i, .addr k) = (s.inode i).addrs k := rfl

theorem ptr_word : s.ptr (i, .word w) =
    if (s.inode i).addrs 12 = 0 then 0 else Words.get (s.block ((s.inode i).addrs 12)) w := rfl

theorem ptr_word_pos (h : (s.inode i).addrs 12 ≠ 0) :
    s.ptr (i, .word w) = Words.get (s.block ((s.inode i).addrs 12)) w := if_neg h

theorem ptr_word_zero (h : (s.inode i).addrs 12 = 0) : s.ptr (i, .word w) = 0 := if_pos h

theorem Logs.refl : Logs s s := ⟨fun _ h => h, fun _ _ _ h => Or.inr h, rfl⟩

theorem Logs.trans (h : Logs s t) (h' : Logs t u) : Logs s u where
  torn b hb := h.torn b (h'.torn b hb)
  indirect b j hb hj :=
    (h'.indirect b j hb hj).elim Or.inl (h.indirect b j (h'.torn b hb))
  valid := h'.valid.trans h.valid

theorem not_torn_setBlock {x : Block} : ¬(s.setBlock b x).Torn b := by
  have hl : (s.setBlock b x).logged b = x := Function.update_self ..
  exact fun hn => hn (hl.trans setBlock_self.symm)

theorem torn_setBlock {x : Block} (h : (s.setBlock b x).Torn a) : s.Torn a ∧ a ≠ b := by
  have hab : a ≠ b := by
    rintro rfl
    exact not_torn_setBlock h
  have hl : (s.setBlock b x).logged a = s.logged a := Function.update_of_ne hab ..
  have hb : (s.setBlock b x).block a = s.block a := Function.update_of_ne hab ..
  refine ⟨fun he => h ?_, hab⟩
  rw [hl, hb]
  exact he

theorem Logs.setBlock (x : Block) : Logs s (s.setBlock b x) :=
  ⟨fun _ h => (torn_setBlock h).1, fun _ _ _ h => Or.inr h, rfl⟩

theorem setInode_self {ip : BlockInode} : (s.setInode i ip).inode i = ip := Function.update_self ..

theorem setInode_ne {ip : BlockInode} (h : j ≠ i) : (s.setInode i ip).inode j = s.inode j :=
  Function.update_of_ne h ..

theorem Logs.setInode {ip : BlockInode} (h : ip.addrs = (s.inode i).addrs) :
    Logs s (s.setInode i ip) := by
  refine ⟨fun _ hb => hb, fun b j _ hj => Or.inr ?_, rfl⟩
  rw [← hj]
  by_cases hi : j = i
  · rw [hi, setInode_self, h]
  · rw [setInode_ne hi]

theorem Grows.refl : Grows i s s :=
  ⟨fun _ => rfl, fun _ => rfl, fun _ _ => rfl, fun _ _ => rfl, fun _ _ => rfl, fun _ _ _ => rfl,
    fun _ => rfl, Logs.refl⟩

theorem Grows.trans (h : Grows i s t) (h' : Grows i t u) : Grows i s u where
  type j := (h'.type j).trans (h.type j)
  size j := (h'.size j).trans (h.size j)
  other j hj := (h'.other j hj).trans (h.other j hj)
  ptr c hc := by
    have ht : t.ptr c ≠ 0 := by
      rw [h.ptr c hc]
      exact hc
    exact (h'.ptr c ht).trans (h.ptr c hc)
  ptr_other c hc := (h'.ptr_other c hc).trans (h.ptr_other c hc)
  data c hc hk := by
    have ht : t.ptr c ≠ 0 := by
      rw [h.ptr c hc]
      exact hc
    have hd := h'.data c ht hk
    rw [h.ptr c hc] at hd
    exact hd.trans (h.data c hc hk)
  iblock j := (h'.iblock j).trans (h.iblock j)
  logs := h.logs.trans h'.logs

/-! ### Slots -/

theorem data_addr (h : bn < 12) : BlockSlot.data bn = .addr (Fin.ofNat 13 bn) := if_pos h

theorem data_word (h : 12 ≤ bn) : BlockSlot.data bn = .word (Fin.ofNat 256 (bn - 12)) :=
  if_neg (by omega)

theorem data_ne : BlockSlot.data bn ≠ .addr 12 := by
  by_cases h : bn < 12
  · rw [data_addr h]
    intro he
    have hv := congrArg Fin.val (BlockSlot.addr.inj he)
    rw [Fin.val_ofNat] at hv
    have h12 : ((12 : Fin 13) : ℕ) = 12 := rfl
    omega
  · rw [data_word (by omega)]
    exact BlockSlot.noConfusion

theorem data_inj {bn' : ℕ} (h : bn < 268) (h' : bn' < 268)
    (he : BlockSlot.data bn = BlockSlot.data bn') : bn = bn' := by
  by_cases hb : bn < 12
  · by_cases hb' : bn' < 12
    · rw [data_addr hb, data_addr hb'] at he
      have hv := congrArg Fin.val (BlockSlot.addr.inj he)
      rw [Fin.val_ofNat, Fin.val_ofNat] at hv
      omega
    · rw [data_addr hb, data_word (by omega)] at he
      exact BlockSlot.noConfusion he
  · by_cases hb' : bn' < 12
    · rw [data_word (by omega), data_addr hb'] at he
      exact BlockSlot.noConfusion he
    · rw [data_word (by omega), data_word (by omega)] at he
      have hv := congrArg Fin.val (BlockSlot.word.inj he)
      rw [Fin.val_ofNat, Fin.val_ofNat] at hv
      omega

/-! ### What slots hold -/

theorem Mapped.used (h : s.Mapped) {c : Fin sb.ninodes × BlockSlot} (hc : s.ptr c ≠ 0) :
    s.Used (s.ptr c) := h.owned.inUse c hc

theorem Mapped.indirect (h : s.Mapped) (hk : (s.inode i).addrs 12 ≠ 0) :
    s.Used ((s.inode i).addrs 12) := h.used (c := (i, .addr 12)) hk

theorem Mapped.free_data (h : s.Mapped) (hb : b < sb.size) (hbit : s.bit b = false) :
    sb.Data b := by
  refine ⟨?_, hb⟩
  by_contra hlt
  rw [h.inUse b (by omega)] at hbit
  exact Bool.noConfusion hbit

theorem Used.ne_free (h : s.Used a) (hbit : s.bit b = false) : a ≠ b := by
  rintro rfl
  rw [h.2] at hbit
  exact Bool.noConfusion hbit

/-! ### A new block -/

/-- `b` is marked in use and zeroed. -/
def taken (s : BlockFs sb) (b : ℕ) : BlockFs sb := (s.markUsed b).setBlock b Block.zero

theorem taken_inode : (s.taken b).inode = s.inode := rfl

theorem taken_zero : (s.taken b).block b = Block.zero := setBlock_self

theorem taken_block (hab : a ≠ b) (ha : a ≠ sb.bblock b) : (s.taken b).block a = s.block a := by
  unfold taken
  rw [setBlock_ne hab, markUsed_block ha]

theorem taken_used (hb : b < sb.size) (h : s.Used a) (hbit : s.bit b = false) :
    (s.taken b).block a = s.block a := taken_block (h.ne_free hbit) (h.1.ne_bblock hb)

theorem taken_iblock (L : sb.Layout) (hb : sb.Data b) (j : Fin sb.ninodes) :
    (s.taken b).block (sb.iblock j) = s.block (sb.iblock j) :=
  taken_block (hb.ne_iblock L j).symm (iblock_ne_bblock L j b)

theorem taken_bit (hb : sb.Data b) {c : ℕ} (hc : c < sb.size) :
    (s.taken b).bit c = (s.bit c || decide (c = b)) := by
  unfold taken
  rw [bit_setBlock (hb.ne_bblock hc), bit_markUsed]

/-- The blocks in use behind the allocation of `b`. -/
theorem used_take (hb : sb.Data b) (ht : ∀ c, c < sb.size → t.bit c = (s.taken b).bit c) (x : ℕ) :
    t.Used x ↔ s.Used x ∨ x = b := by
  unfold Used
  constructor
  · rintro ⟨hd, hbit⟩
    rw [ht x hd.2, taken_bit hb hd.2, Bool.or_eq_true, decide_eq_true_eq] at hbit
    exact hbit.imp_left fun hx => ⟨hd, hx⟩
  · intro hx
    have hd : sb.Data x := by
      rcases hx with hx | rfl
      · exact hx.1
      · exact hb
    refine ⟨hd, ?_⟩
    rw [ht x hd.2, taken_bit hb hd.2, Bool.or_eq_true, decide_eq_true_eq]
    exact hx.imp_left fun hx => hx.2

/-- **An empty slot gets a new block**; `t` is `s.taken b` with `b` in slot `c`. -/
theorem Mapped.take (h : s.Mapped) (L : sb.Layout) {c : Fin sb.ninodes × BlockSlot}
    (hc : s.ptr c = 0) (hb : b < sb.size) (hbit : s.bit b = false) (hself : t.ptr c = b)
    (hother : ∀ c', c' ≠ c → t.ptr c' = s.ptr c')
    (ht : ∀ x, x < sb.size → t.bit x = (s.taken b).bit x) : t.Mapped := by
  have hd := h.free_data hb hbit
  have hfree : ¬s.Used b := by
    rintro ⟨-, hu⟩
    rw [hbit] at hu
    exact Bool.noConfusion hu
  refine ⟨h.owned.take hc hfree (hd.pos L) hself hother (used_take hd ht), fun x hx => ?_⟩
  have hxs := lt_of_lt_of_le hx L.data
  rw [ht x hxs, taken_bit hd hxs, h.inUse x hx, Bool.true_or]

/-! ### `addrs` -/

theorem setAddr_addr : ((s.setAddr i k a).inode i).addrs k = a := by
  unfold setAddr setInode
  dsimp only
  rw [Function.update_self]
  exact Function.update_self ..

theorem setAddr_addr_ne {k' : Fin 13} (h : k' ≠ k) :
    ((s.setAddr i k a).inode i).addrs k' = (s.inode i).addrs k' := by
  unfold setAddr setInode
  dsimp only
  rw [Function.update_self]
  exact Function.update_of_ne h ..

theorem setAddr_inode_ne (h : j ≠ i) : (s.setAddr i k a).inode j = s.inode j :=
  Function.update_of_ne h ..

theorem setAddr_size : ((s.setAddr i k a).inode j).size = (s.inode j).size := by
  by_cases h : j = i
  · subst h
    unfold setAddr setInode
    dsimp only
    rw [Function.update_self]
  · rw [setAddr_inode_ne h]

theorem setAddr_type : ((s.setAddr i k a).inode j).type = (s.inode j).type := by
  by_cases h : j = i
  · subst h
    unfold setAddr setInode
    dsimp only
    rw [Function.update_self]
  · rw [setAddr_inode_ne h]

theorem setAddr_addrs_ne {k' : Fin 13} (h : (j, k') ≠ (i, k)) :
    ((s.setAddr i k a).inode j).addrs k' = (s.inode j).addrs k' := by
  by_cases hj : j = i
  · subst hj
    exact setAddr_addr_ne fun hk => h (by rw [hk])
  · rw [setAddr_inode_ne hj]

/-- An address of a block that is not torn. -/
theorem Logs.setAddr (h : s.Torn a → a = 0) : Logs s (s.setAddr i k a) := by
  refine ⟨fun _ hb => hb, fun b j hb hj => ?_, rfl⟩
  by_cases he : (j, (12 : Fin 13)) = (i, k)
  · obtain ⟨rfl, rfl⟩ := Prod.mk.inj he
    rw [setAddr_addr] at hj
    subst hj
    exact Or.inl (h hb)
  · rw [setAddr_addrs_ne he] at hj
    exact Or.inr hj

theorem taken_logs : Logs s (s.taken b) := (Logs.setBlock _).trans (Logs.setBlock _)

theorem zero_word (w : Fin 256) : Words.get Block.zero w = 0 := rfl

/-- The slots behind a new block in slot `k` of `addrs`. -/
theorem take_addr_ptr (h : s.Mapped) (hk : (s.inode i).addrs k = 0) (hb : b < sb.size)
    (hbit : s.bit b = false) (c : Fin sb.ninodes × BlockSlot) (hc : c ≠ (i, .addr k)) :
    ((s.taken b).setAddr i k b).ptr c = s.ptr c := by
  obtain ⟨j, c⟩ := c
  cases c with
  | addr k' =>
    refine setAddr_addrs_ne fun he => hc ?_
    obtain ⟨rfl, rfl⟩ := Prod.mk.inj he
    rfl
  | word w =>
    by_cases hjk : (j, (12 : Fin 13)) = (i, k)
    · -- the new block is the indirect block, with no word set
      obtain ⟨rfl, rfl⟩ := Prod.mk.inj hjk
      rw [ptr_word_zero hk, ptr_word, setAddr_addr]
      have hz : ((s.taken b).setAddr j 12 b).block b = Block.zero := taken_zero
      rw [hz, zero_word, ite_self]
    · have ha : (((s.taken b).setAddr i k b).inode j).addrs 12 = (s.inode j).addrs 12 :=
        setAddr_addrs_ne hjk
      rw [ptr_word, ptr_word, ha]
      by_cases h0 : (s.inode j).addrs 12 = 0
      · rw [if_pos h0, if_pos h0]
      · rw [if_neg h0, if_neg h0]
        have hbl : ((s.taken b).setAddr i k b).block ((s.inode j).addrs 12) =
            s.block ((s.inode j).addrs 12) := taken_used hb (h.indirect h0) hbit
        rw [hbl]

/-- **A new block in `addrs`.** -/
theorem Mapped.take_addr (h : s.Mapped) (L : sb.Layout) (hk : (s.inode i).addrs k = 0)
    (hb : b < sb.size) (hbit : s.bit b = false) :
    ((s.taken b).setAddr i k b).Mapped ∧ Grows i s ((s.taken b).setAddr i k b) := by
  have hptr := take_addr_ptr h hk hb hbit
  have hd := h.free_data hb hbit
  refine ⟨h.take L (c := (i, .addr k)) hk hb hbit setAddr_addr hptr fun _ _ => rfl, ?_⟩
  refine ⟨fun _ => setAddr_type, fun _ => setAddr_size, fun j hj => setAddr_inode_ne hj,
    fun c hc => ?_, fun c hc => ?_, fun c hc _ => taken_used hb (h.used hc) hbit,
    fun j => taken_iblock L hd j,
    taken_logs.trans (Logs.setAddr fun ht => absurd ht not_torn_setBlock)⟩
  · refine hptr c ?_
    rintro rfl
    exact hc hk
  · refine hptr c ?_
    rintro rfl
    exact hc rfl

/-- The slots behind a new block in word `w` of the indirect block. -/
theorem take_word_ptr (h : s.Mapped) (hk : (s.inode i).addrs 12 ≠ 0) (hb : b < sb.size)
    (hbit : s.bit b = false) {x : Block}
    (hx : ∀ w', w' ≠ w → Words.get x w' = Words.get (s.block ((s.inode i).addrs 12)) w')
    (c : Fin sb.ninodes × BlockSlot) (hc : c ≠ (i, .word w)) :
    ((s.taken b).setBlock ((s.inode i).addrs 12) x).ptr c = s.ptr c := by
  obtain ⟨j, c⟩ := c
  cases c with
  | addr k' => rfl
  | word w' =>
    rw [ptr_word, ptr_word, setBlock_inode, taken_inode]
    by_cases h0 : (s.inode j).addrs 12 = 0
    · rw [if_pos h0, if_pos h0]
    · rw [if_neg h0, if_neg h0]
      by_cases hj : j = i
      · subst hj
        rw [setBlock_self]
        refine hx w' ?_
        rintro rfl
        exact hc rfl
      · have hne : (s.inode j).addrs 12 ≠ (s.inode i).addrs 12 := by
          intro he
          have hji := h.owned.inj (j, .addr 12) (i, .addr 12) h0 he
          exact hj (Prod.mk.inj hji).1
        rw [setBlock_ne hne, taken_used hb (h.indirect h0) hbit]

/-- **A new block in the indirect block.** -/
theorem Mapped.take_word (h : s.Mapped) (L : sb.Layout) (hk : (s.inode i).addrs 12 ≠ 0)
    (hw : Words.get (s.block ((s.inode i).addrs 12)) w = 0) (hb : b < sb.size)
    (hbit : s.bit b = false) {x : Block}
    (hx : x = Words.set ((s.taken b).block ((s.inode i).addrs 12)) w b) :
    ((s.taken b).setBlock ((s.inode i).addrs 12) x).Mapped ∧
      Grows i s ((s.taken b).setBlock ((s.inode i).addrs 12) x) ∧
      ((s.taken b).setBlock ((s.inode i).addrs 12) x).ptr (i, .word w) = b := by
  have hd := h.free_data hb hbit
  have hind := h.indirect hk
  have hsize := L.size
  have hself : ((s.taken b).setBlock ((s.inode i).addrs 12) x).ptr (i, .word w) = b := by
    rw [ptr_word, setBlock_inode, taken_inode, if_neg hk, setBlock_self, hx]
    exact Words.get_set_self (by omega)
  have hptr := take_word_ptr h hk hb hbit (w := w) (x := x) fun w' hw' => by
    rw [hx, Words.get_set_ne hw', taken_used hb hind hbit]
  have hzero : s.ptr (i, .word w) = 0 := by
    rw [ptr_word_pos hk]
    exact hw
  refine ⟨h.take L hzero hb hbit hself hptr fun c hc => ?_, ?_, hself⟩
  · exact bit_setBlock (hind.1.ne_bblock hc)
  refine ⟨fun _ => rfl, fun _ => rfl, fun _ _ => rfl, fun c hc => ?_, fun c hc => ?_,
    fun c hc hn => ?_, fun j => ?_, taken_logs.trans (Logs.setBlock _)⟩
  · refine hptr c ?_
    rintro rfl
    exact hc hzero
  · refine hptr c ?_
    rintro rfl
    exact hc rfl
  · have hne : s.ptr c ≠ (s.inode i).addrs 12 := by
      intro he
      have hci := h.owned.inj c (i, .addr 12) hc he
      rw [hci] at hn
      exact hn rfl
    rw [setBlock_ne hne, taken_used hb (h.used hc) hbit]
  · rw [setBlock_ne (hind.1.ne_iblock L j).symm, taken_iblock L hd j]

/-! ### `bmap` -/

/-- What `bmap` does for slot `c` of inode `i`: `a` is the block in it, or 0 when no block is
free. -/
structure MapsTo (i : Fin sb.ninodes) (c : BlockSlot) (s t : BlockFs sb) (a : ℕ) : Prop where
  mapped : t.Mapped
  grows : Grows i s t
  answer : a ≠ 0 → t.ptr (i, c) = a
  full : a = 0 → ∀ b, b < sb.size → t.bit b = true

theorem bmapAddr_spec (h : s.Mapped) (L : sb.Layout) (i : Fin sb.ninodes) (k : Fin 13) :
    MapsTo i (.addr k) s (s.bmapAddr i k).1 (s.bmapAddr i k).2 := by
  unfold bmapAddr
  by_cases hk : (s.inode i).addrs k = 0
  · rw [if_pos hk]
    rcases balloc_cases s with ⟨hfull, he⟩ | ⟨b, hb, hbit, he⟩
    · rw [he]
      exact ⟨h, Grows.refl, fun hn => absurd rfl hn, fun _ => hfull⟩
    · have hb0 := (h.free_data hb hbit).pos L
      rw [he]
      dsimp only
      rw [if_neg hb0]
      obtain ⟨hm, hg⟩ := h.take_addr L hk hb hbit
      exact ⟨hm, hg, fun _ => setAddr_addr, fun h0 => absurd h0 hb0⟩
  · rw [if_neg hk]
    exact ⟨h, Grows.refl, fun _ => rfl, fun h0 => absurd h0 hk⟩

theorem bmapWord_spec (h : s.Mapped) (L : sb.Layout) (hk : (s.inode i).addrs 12 ≠ 0)
    (w : Fin 256) :
    MapsTo i (.word w) s (s.bmapWord ((s.inode i).addrs 12) w).1
      (s.bmapWord ((s.inode i).addrs 12) w).2 := by
  unfold bmapWord
  by_cases hw : Words.get (s.block ((s.inode i).addrs 12)) w = 0
  · rw [if_pos hw]
    rcases balloc_cases s with ⟨hfull, he⟩ | ⟨b, hb, hbit, he⟩
    · rw [he]
      exact ⟨h, Grows.refl, fun hn => absurd rfl hn, fun _ => hfull⟩
    · have hb0 := (h.free_data hb hbit).pos L
      rw [he]
      dsimp only
      rw [if_neg hb0]
      obtain ⟨hm, hg, hp⟩ := h.take_word L hk hw hb hbit rfl
      exact ⟨hm, hg, fun _ => hp, fun h0 => absurd h0 hb0⟩
  · rw [if_neg hw]
    exact ⟨h, Grows.refl, fun _ => ptr_word_pos hk, fun h0 => absurd h0 hw⟩

/-- **`bmap`** of a block of a file does not panic. -/
theorem bmap_spec (h : s.Mapped) (L : sb.Layout) (i : Fin sb.ninodes) (hbn : bn < 268) :
    ∃ t a, s.bmap i bn = some (t, a) ∧ MapsTo i (.data bn) s t a := by
  unfold bmap
  by_cases hd : bn < 12
  · rw [if_pos hd, data_addr hd]
    exact ⟨_, _, rfl, bmapAddr_spec h L i _⟩
  · rw [if_neg hd, if_pos (by omega), data_word (by omega)]
    have ha := bmapAddr_spec h L i 12
    dsimp only
    by_cases hr : (s.bmapAddr i 12).2 = 0
    · rw [if_pos hr]
      exact ⟨_, _, rfl, ha.mapped, ha.grows, fun hn => absurd hr hn, ha.full⟩
    · rw [if_neg hr]
      have hind : ((s.bmapAddr i 12).1.inode i).addrs 12 = (s.bmapAddr i 12).2 := ha.answer hr
      have hne : ((s.bmapAddr i 12).1.inode i).addrs 12 ≠ 0 := by
        rw [hind]
        exact hr
      have hw := bmapWord_spec ha.mapped L hne (Fin.ofNat 256 (bn - 12))
      rw [hind] at hw
      exact ⟨_, _, rfl, hw.mapped, ha.grows.trans hw.grows, hw.answer, hw.full⟩

/-- A block that is there is answered, and nothing is allocated. -/
theorem bmap_there (hbn : bn < 268) (h : s.ptr (i, .data bn) ≠ 0) :
    s.bmap i bn = some (s, s.ptr (i, .data bn)) := by
  unfold bmap
  by_cases hd : bn < 12
  · rw [data_addr hd, ptr_addr] at h ⊢
    rw [if_pos hd]
    unfold bmapAddr
    rw [if_neg h]
  · rw [data_word (by omega)] at h ⊢
    rw [if_neg hd, if_pos (by omega)]
    have hk : (s.inode i).addrs 12 ≠ 0 := fun h0 => h (ptr_word_zero h0)
    rw [ptr_word_pos hk] at h ⊢
    have ha : s.bmapAddr i 12 = (s, (s.inode i).addrs 12) := if_neg hk
    rw [ha]
    dsimp only
    rw [if_neg hk]
    unfold bmapWord
    rw [if_neg h]

/-! ### Stores into a file -/

/-- Slots of inodes that keep their addresses, in blocks that stay. -/
theorem ptr_congr {c : Fin sb.ninodes × BlockSlot}
    (hi : (t.inode c.1).addrs = (s.inode c.1).addrs)
    (hd : (s.inode c.1).addrs 12 ≠ 0 →
      t.block ((s.inode c.1).addrs 12) = s.block ((s.inode c.1).addrs 12)) :
    t.ptr c = s.ptr c := by
  obtain ⟨j, c⟩ := c
  cases c with
  | addr k => rw [ptr_addr, ptr_addr, hi]
  | word w =>
    rw [ptr_word, ptr_word, hi]
    by_cases h0 : (s.inode j).addrs 12 = 0
    · rw [if_pos h0, if_pos h0]
    · rw [if_neg h0, if_neg h0, hd h0]

/-- What `Mapped` depends on. -/
theorem Mapped.congr (h : s.Mapped) (hptr : t.ptr = s.ptr) (hbit : ∀ b, t.bit b = s.bit b) :
    t.Mapped := by
  have hused : t.Used = s.Used := by
    funext b
    unfold Used
    rw [hbit b]
  constructor
  · rw [hptr, hused]
    exact h.owned
  · intro b hb
    rw [hbit b]
    exact h.inUse b hb

theorem ptr_setBlock {x : Block}
    (hn : ∀ j, (s.inode j).addrs 12 ≠ 0 → (s.inode j).addrs 12 ≠ b) :
    (s.setBlock b x).ptr = s.ptr :=
  funext fun c => ptr_congr rfl fun h0 => setBlock_ne (hn c.1 h0)

/-- **A store into a block of data** that is no indirect block. -/
theorem Mapped.setBlock (h : s.Mapped) {x : Block} (hd : sb.Data b)
    (hn : ∀ j, (s.inode j).addrs 12 ≠ 0 → (s.inode j).addrs 12 ≠ b) : (s.setBlock b x).Mapped := by
  have hbit : ∀ c, c < sb.size → (s.setBlock b x).bit c = s.bit c :=
    fun c hc => bit_setBlock (hd.ne_bblock hc)
  have hused : (s.setBlock b x).Used = s.Used := by
    funext c
    unfold Used
    rw [eq_iff_iff, and_congr_right_iff]
    intro hc
    rw [hbit c hc.2]
  constructor
  · rw [ptr_setBlock hn, hused]
    exact h.owned
  · intro c hc
    rw [hbit c (lt_trans hc (lt_of_le_of_lt hd.1 hd.2)), h.inUse c hc]

/-- A block of a file is no indirect block. -/
theorem Mapped.ne_indirect (h : s.Mapped) {c : Fin sb.ninodes × BlockSlot} (hn : c.2 ≠ .addr 12)
    (j : Fin sb.ninodes) (h0 : (s.inode j).addrs 12 ≠ 0) : (s.inode j).addrs 12 ≠ s.ptr c := by
  intro he
  rw [← h.owned.inj (j, .addr 12) c h0 he] at hn
  exact hn rfl

end BlockFs

end AgentOS
