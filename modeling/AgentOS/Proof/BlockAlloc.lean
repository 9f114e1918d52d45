import AgentOS.Proof.BlockSound

/-!
# New and freed files

* `ilock_cases`: `ilock` panics for a free inode, and no other.
* `create_spec`: a new file has the first inode that is free, and no bytes.
* `ifree_spec`: a file that is freed gives its blocks back.
* `recycle_sound`, `commit_sound`: whatever becomes of the buffers, files stay consistent.
-/

namespace AgentOS

variable {sb : Superblock}

namespace BlockFs

variable {s t u : BlockFs sb} {i j : Fin sb.ninodes}

/-! ### `ilock` -/

theorem setValid_sound (h : s.Sound) {v : Bool} (hv : v = true → (s.inode i).type ≠ 0) :
    (s.setValid i v).Sound := by
  have hself : (s.setValid i v).valid i = v := Function.update_self ..
  have hc : Changed i s (s.setValid i v) :=
    ⟨h.mapped.congr rfl fun _ => rfl, fun _ _ => rfl, fun _ _ => rfl,
      fun j hj => Function.update_of_ne hj .., fun _ _ => rfl, fun _ _ _ _ => rfl, h.synced i,
      h.backed i, h.size i⟩
  refine hc.sound h (h.free i) (fun he => ?_) h.torn
  rw [hself] at he
  exact hv he

/-- **`ilock`** panics for a free inode, and no other. -/
theorem ilock_cases (h : s.Sound) (i : Fin sb.ninodes) :
    ((s.inode i).type = 0 ∧ s.ilock i = none) ∨
      ((s.inode i).type ≠ 0 ∧ s.ilock i = some (s.setValid i true) ∧
        (s.setValid i true).Sound) := by
  have hload : s.setInode i (s.dinode i) = s := by
    unfold setInode
    rw [h.synced i, Function.update_eq_self]
  by_cases ht : (s.inode i).type = 0
  · have hv : s.valid i = false := by
      by_contra hn
      exact h.valid i (Bool.eq_true_of_not_eq_false hn) ht
    refine Or.inl ⟨ht, ?_⟩
    unfold ilock
    rw [hv, if_neg Bool.false_ne_true, hload]
    exact if_pos ht
  · refine Or.inr ⟨ht, ?_, setValid_sound h fun _ => ht⟩
    unfold ilock
    by_cases hv : s.valid i = true
    · rw [if_pos hv]
      unfold setValid
      rw [← hv, Function.update_eq_self]
    · rw [if_neg hv, hload]
      exact if_neg ht

/-! ### New and freed files -/

/-- `iput` of an inode without links. -/
theorem ifree_spec (h : s.Sound) (L : sb.Layout) (i : Fin sb.ninodes) :
    ∃ t, s.ifree i = some t ∧ Changed i s t ∧ t.inode i = ⟨0, 0, fun _ => 0⟩ ∧
      t.valid i = false ∧ t.TornData ∧ (s.Clean → t.Clean) := by
  obtain ⟨t, ht, hs⟩ := itrunc_spec h.mapped L i
  have htp : (t.setType i 0).ptr = t.ptr := setInode_ptr rfl
  have hmap : (t.setType i 0).Mapped := hs.mapped.setInode rfl
  have hptr : ((t.setType i 0).iupdate i).ptr = t.ptr := (iupdate_ptr hmap L).trans htp
  have hlogs : Logs s ((t.setType i 0).iupdate i) :=
    hs.logs.trans (iupdate_logs rfl)
  have hin : (t.setType i 0).inode i = ⟨0, 0, fun _ => 0⟩ := by
    unfold setType
    rw [setInode_self, hs.inode]
  have hsz : (((t.setType i 0).iupdate i).inode i).size = 0 := congrArg BlockInode.size hin
  unfold ifree
  rw [ht, Option.map_some]
  have htorn : ((t.setType i 0).iupdate i).TornData := h.torn.logs L hlogs
  refine ⟨_, rfl, ?_, hin, Function.update_self .., htorn, fun hc b hb => hc b (hlogs.torn b hb)⟩
  refine ⟨(hmap.iupdate L).congr rfl fun _ => rfl, fun j hj => ?_, fun j hj => ?_, fun j hj => ?_,
    fun c hc => ?_, fun c hi hc hn => ?_, ?_, ?_, ?_⟩
  · exact (setInode_ne hj).trans (hs.other j hj)
  · exact (dinode_iupdate_ne hj).trans (hs.dinode_other j hj)
  · exact (Function.update_of_ne hj ..).trans (congrFun hlogs.valid j)
  · exact (congrFun hptr c).trans (hs.ptr c hc)
  · have hd := (h.mapped.used hc).1
    exact (iupdate_block (hd.ne_iblock L i)).trans (hs.data _ hd)
  · refine dinode_iupdate ?_ fun k => hmap.addr_lt L k
    rw [hin]
    exact Nat.two_pow_pos 32
  · intro p hp
    exact absurd (lt_of_lt_of_eq hp hsz) (Nat.not_lt_zero p)
  · exact le_of_eq_of_le hsz (Nat.zero_le _)

/-- `itrunc` of a file. -/
theorem itrunc_changed (h : s.Sound) (hs : Truncated i s t) : Changed i s t := by
  have hsz : (t.inode i).size = 0 := by rw [hs.inode]
  refine ⟨hs.mapped, hs.other, hs.dinode_other, fun j _ => congrFun hs.logs.valid j, hs.ptr,
    fun c _ hc _ => hs.data _ (h.mapped.used hc).1, hs.dinode, ?_, ?_⟩
  · rw [hsz]
    exact fun p hp => absurd hp (Nat.not_lt_zero p)
  · rw [hsz]
    exact Nat.zero_le _

/-- The inode that `create` finds. -/
theorem ialloc_find (h : s.Sound) :
    (fun i : Fin sb.ninodes => decide (i.val ≠ 0 ∧ (s.dinode i).type = 0)) =
      fun i => decide (i.val ≠ 0 ∧ s.contents i = none) := by
  funext i
  rw [decide_eq_decide, h.synced i, contents_none_iff]

/-- The new file `i`, locked. -/
def created (s : BlockFs sb) (i : Fin sb.ninodes) (type : BitVec 16) : BlockFs sb :=
  (((s.setBlock (sb.iblock i) (dinodeType (dinodeClear (s.block (sb.iblock i)) i) i type)).setValid
    i false).setInode i ⟨type, 0, fun _ => 0⟩).setValid i true

section Created

variable {type : BitVec 16}

theorem created_inode : (s.created i type).inode i = ⟨type, 0, fun _ => 0⟩ := setInode_self

theorem created_inode_ne (h : j ≠ i) : (s.created i type).inode j = s.inode j := setInode_ne h

theorem created_block {b : ℕ} (h : b ≠ sb.iblock i) : (s.created i type).block b = s.block b :=
  Function.update_of_ne h ..

theorem created_dinode : (s.created i type).dinode i = ⟨type, 0, fun _ => 0⟩ := by
  change dinodeGet (Function.update s.block (sb.iblock i) _ (sb.iblock i)) i = _
  rw [Function.update_self]
  exact dinodeGet_new

theorem created_torn {b : ℕ} (h : (s.created i type).Torn b) : s.Torn b :=
  (torn_setBlock (s := s) h).1

theorem created_ptr (h : s.Mapped) (L : sb.Layout) (hi : s.inode i = ⟨0, 0, fun _ => 0⟩) :
    (s.created i type).ptr = s.ptr := by
  refine funext fun c => ptr_congr ?_ fun h0 =>
    created_block ((h.indirect h0).1.ne_iblock L i)
  by_cases hc : c.1 = i
  · rw [hc, created_inode, hi]
  · rw [created_inode_ne hc]

/-- **`ilock` of a new inode** does not panic. -/
theorem ilock_new (htype : type ≠ 0) :
    ((s.setBlock (sb.iblock i) (dinodeType (dinodeClear (s.block (sb.iblock i)) i) i type)).setValid
      i false).ilock i = some (s.created i type) := by
  have hd : (s.created i type).dinode i = ⟨type, 0, fun _ => 0⟩ := created_dinode
  unfold ilock
  rw [if_neg (ne_true_of_eq_false (Function.update_self ..))]
  change (if ((BlockFs.setInode _ i ((s.created i type).dinode i)).inode i).type = 0 then none
    else some ((BlockFs.setInode _ i ((s.created i type).dinode i)).setValid i true)) = _
  rw [hd, setInode_self, if_neg htype]
  rfl

theorem created_changed (h : s.Sound) (L : sb.Layout) (hi : s.inode i = ⟨0, 0, fun _ => 0⟩) :
    Changed i s (s.created i type) := by
  have hptr : (s.created i type).ptr = s.ptr := created_ptr h.mapped L hi
  have hdata : ∀ a, sb.Data a → (s.created i type).block a = s.block a :=
    fun a ha => created_block (ha.ne_iblock L i)
  have hbit : ∀ b, (s.created i type).bit b = s.bit b := by
    intro b
    unfold bit
    rw [created_block (iblock_ne_bblock L i b).symm]
  have hsz : ((s.created i type).inode i).size = 0 := by rw [created_inode]
  refine ⟨h.mapped.congr hptr hbit, fun j hj => created_inode_ne hj, fun j hj => ?_,
    fun j hj => ?_, fun c _ => congrFun hptr c,
    fun c _ hc _ => hdata _ (h.mapped.used hc).1, ?_, ?_, ?_⟩
  · exact dinode_setBlock_ne (s := s) hj dinodeGet_new_ne
  · exact (Function.update_of_ne hj ..).trans (Function.update_of_ne hj ..)
  · rw [created_dinode, created_inode]
  · rw [hsz]
    exact fun p hp => absurd hp (Nat.not_lt_zero p)
  · rw [hsz]
    exact Nat.zero_le _

theorem created_sound (h : s.Sound) (L : sb.Layout) (hi : s.inode i = ⟨0, 0, fun _ => 0⟩)
    (htype : type ≠ 0) : (s.created i type).Sound := by
  have hne : ((s.created i type).inode i).type ≠ 0 := by
    rw [created_inode]
    exact htype
  refine (created_changed h L hi).sound h (fun h0 => absurd h0 hne) (fun _ => hne) fun b hb => ?_
  obtain ⟨hd, hn⟩ := h.torn b (created_torn hb)
  refine ⟨hd, fun j => ?_⟩
  by_cases hj : j = i
  · rw [hj, created_inode]
    exact (hd.pos L).symm
  · rw [created_inode_ne hj]
    exact hn j

end Created

/-- **`create`** takes the first inode that is free, for a file without bytes. -/
theorem create_spec (h : s.Sound) (L : sb.Layout) {type : BitVec 16} (htype : type ≠ 0) :
    ∃ t n, s.create type = some (t, n) ∧ t.Sound ∧ (s.Clean → t.Clean) ∧
      s.contents.create = (t.contents, n) := by
  unfold create ialloc FileBytes.create
  rw [ialloc_find h]
  cases hf : (List.finRange sb.ninodes).find? fun i => decide (i.val ≠ 0 ∧ s.contents i = none) with
  | none => exact ⟨s, 0, rfl, h, id, rfl⟩
  | some i =>
    have hp := List.find?_some hf
    have hi := h.free i (contents_none_iff.1 (of_decide_eq_true hp).2)
    dsimp only
    rw [ilock_new htype, Option.map_some]
    have hnew : (s.created i type).contents i = some [] := by
      rw [contents_some (by rw [created_inode]; exact htype), content, created_inode]
      rfl
    refine ⟨_, _, rfl, created_sound h L hi htype, fun hc b hb => hc b (created_torn hb), ?_⟩
    rw [(created_changed h L hi).contents h, hnew]

/-! ### Buffers -/

/-- The buffer of a torn block is recycled. -/
theorem recycle_sound (h : s.Sound) (L : sb.Layout) (b : ℕ) :
    (s.setBuffer b (s.logged b)).Sound := by
  by_cases ht : s.Torn b
  · obtain ⟨hd, hn⟩ := h.torn b ht
    have hblock : ∀ a, a ≠ b → (s.setBuffer b (s.logged b)).block a = s.block a :=
      fun a ha => Function.update_of_ne ha ..
    have hptr : (s.setBuffer b (s.logged b)).ptr = s.ptr :=
      funext fun c => ptr_congr rfl fun _ => hblock _ (hn c.1)
    have hmap : (s.setBlock b (s.logged b)).Mapped := h.mapped.setBlock hd fun j _ => hn j
    refine ⟨hmap.congr rfl fun _ => rfl, fun i => ?_, fun i p hp => ?_, h.size, h.free, h.valid,
      fun a ha => ?_⟩
    · exact (dinode_congr (hblock _ (hd.ne_iblock L i).symm)).trans (h.synced i)
    · rw [hptr]
      exact h.backed i p hp
    · rcases torn_setBuffer ha with rfl | ha'
      · exact ⟨hd, hn⟩
      · exact h.torn a ha'
  · have he : s.setBuffer b (s.logged b) = s := by
      rw [not_not.1 ht, setBuffer, Function.update_eq_self]
    rw [he]
    exact h

theorem Clean.recycle (hc : s.Clean) (b : ℕ) : s.setBuffer b (s.logged b) = s := by
  rw [not_not.1 (hc b), setBuffer, Function.update_eq_self]

/-- A commit writes the buffer as it is. -/
theorem commit_sound (h : s.Sound) (L : sb.Layout) (b : ℕ) :
    (s.setBlock b (s.block b)).Sound ∧ (s.setBlock b (s.block b)).contents = s.contents := by
  have hlogs : Logs s (s.setBlock b (s.block b)) := Logs.setBlock _
  have he : s.setBlock b (s.block b) =
      { s with logged := Function.update s.logged b (s.block b) } := by
    unfold setBlock setBuffer
    rw [Function.update_eq_self]
  have htorn := h.torn.logs L hlogs
  rw [he] at htorn ⊢
  exact ⟨⟨h.mapped.congr rfl fun _ => rfl, h.synced, h.backed, h.size, h.free, h.valid, htorn⟩, rfl⟩

end BlockFs

end AgentOS
