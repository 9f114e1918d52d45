import AgentOS.Proof.BlockWrite

/-!
# Consistent files

* `Sound`: the inodes in memory are those on the disk, every file has the blocks of its bytes, and a
  free inode has none.
* `Changed`: one inode changes, and the other files stay.
* `readi_spec`, `writei_spec`: `readi` and `writei` do what they do on a list of bytes.
-/

namespace AgentOS

variable {sb : Superblock}

namespace BlockFs

/-- **Consistent files**, between two operations. -/
structure Sound (s : BlockFs sb) : Prop where
  mapped : s.Mapped
  synced : ∀ i, s.dinode i = s.inode i
  backed : ∀ i, s.Backed i (s.inode i).size
  size : ∀ i, (s.inode i).size ≤ maxFileSize
  free : ∀ i, (s.inode i).type = 0 → s.inode i = ⟨0, 0, fun _ => 0⟩
  valid : ∀ i, s.valid i = true → (s.inode i).type ≠ 0
  torn : s.TornData

/-- No block is torn. -/
def Clean (s : BlockFs sb) : Prop := ∀ b, ¬s.Torn b

/-- The bytes of every file. -/
def contents (s : BlockFs sb) : FileBytes sb := fun i =>
  if (s.inode i).type = 0 then none else some (s.content i)

variable {s t u : BlockFs sb} {i j : Fin sb.ninodes} {n off avail p : ℕ} {src : List UInt8}

theorem content_length : (s.content i).length = (s.inode i).size := bytes_length

theorem contents_none (h : (s.inode i).type = 0) : s.contents i = none := if_pos h

theorem contents_some (h : (s.inode i).type ≠ 0) : s.contents i = some (s.content i) := if_neg h

theorem contents_none_iff : s.contents i = none ↔ (s.inode i).type = 0 := by
  refine ⟨fun hn => ?_, contents_none⟩
  by_contra ht
  rw [contents_some ht] at hn
  cases hn

/-! ### One inode changes -/

/-- From `s` to `t`, inode `i` is changed and stored, and the other files keep what they have. -/
structure Changed (i : Fin sb.ninodes) (s t : BlockFs sb) : Prop where
  mapped : t.Mapped
  inode : ∀ j, j ≠ i → t.inode j = s.inode j
  dinode : ∀ j, j ≠ i → t.dinode j = s.dinode j
  valid : ∀ j, j ≠ i → t.valid j = s.valid j
  ptr : ∀ c, c.1 ≠ i → t.ptr c = s.ptr c
  data : ∀ c, c.1 ≠ i → s.ptr c ≠ 0 → c.2 ≠ .addr 12 → t.block (s.ptr c) = s.block (s.ptr c)
  stored : t.dinode i = t.inode i
  backed : t.Backed i (t.inode i).size
  size : (t.inode i).size ≤ maxFileSize

theorem Changed.sound (hc : Changed i s t) (h : s.Sound)
    (hfree : (t.inode i).type = 0 → t.inode i = ⟨0, 0, fun _ => 0⟩)
    (hvalid : t.valid i = true → (t.inode i).type ≠ 0) (htorn : t.TornData) : t.Sound := by
  refine ⟨hc.mapped, fun j => ?_, fun j p hp => ?_, fun j => ?_, fun j => ?_, fun j => ?_, htorn⟩
  all_goals by_cases hj : j = i
  · rw [hj]
    exact hc.stored
  · rw [hc.dinode j hj, hc.inode j hj]
    exact h.synced j
  · subst hj
    exact hc.backed p hp
  · rw [hc.inode j hj] at hp
    rw [hc.ptr _ hj]
    exact h.backed j p hp
  · rw [hj]
    exact hc.size
  · rw [hc.inode j hj]
    exact h.size j
  · rw [hj]
    exact hfree
  · rw [hc.inode j hj]
    exact h.free j
  · rw [hj]
    exact hvalid
  · rw [hc.inode j hj, hc.valid j hj]
    exact h.valid j

theorem Changed.content (hc : Changed i s t) (h : s.Sound) (hj : j ≠ i) :
    t.content j = s.content j := by
  unfold BlockFs.content
  rw [hc.inode j hj]
  refine map_range_congr fun p hp => ?_
  unfold byteAt
  rw [hc.ptr _ hj, hc.data _ hj (h.backed j p hp) data_ne]

/-- **The other files stay.** -/
theorem Changed.contents (hc : Changed i s t) (h : s.Sound) :
    t.contents = Function.update s.contents i (t.contents i) := by
  funext j
  rw [Function.update_apply]
  by_cases hj : j = i
  · rw [if_pos hj, hj]
  · rw [if_neg hj]
    unfold BlockFs.contents
    rw [hc.inode j hj, hc.content h hj]

theorem setInode_ptr {ip : BlockInode} (h : ip.addrs = (s.inode i).addrs) :
    (s.setInode i ip).ptr = s.ptr := by
  refine funext fun c => ptr_congr ?_ fun _ => rfl
  by_cases hj : c.1 = i
  · rw [hj, setInode_self]
    exact h
  · rw [setInode_ne hj]

theorem Mapped.setInode {ip : BlockInode} (hm : s.Mapped) (h : ip.addrs = (s.inode i).addrs) :
    (s.setInode i ip).Mapped := hm.congr (setInode_ptr h) fun _ => rfl

/-! ### `readi` -/

/-- What is left of a list over a range. -/
theorem drop_take_range {f : ℕ → UInt8} {m : ℕ} :
    (((List.range m).map f).drop off).take n =
      (List.range (min n (m - off))).map fun p => f (off + p) := by
  apply List.ext_getElem?
  intro p
  by_cases hp : p < min n (m - off)
  · rw [List.getElem?_take_of_lt (by omega), List.getElem?_drop, List.getElem?_map,
      List.getElem?_map, List.getElem?_range (by omega), List.getElem?_range hp]
    rfl
  · rw [List.getElem?_eq_none (by simp; omega), List.getElem?_eq_none (by simp; omega)]

/-- **`readi`** answers the bytes of the file, and changes nothing. -/
theorem readi_spec (h : s.Sound) (hoff : off < 2 ^ 32) (hn : n < 2 ^ 32) :
    s.readi i off n avail =
      some (s, (AgentOS.readi (s.content i) off n).take avail,
        if avail < (AgentOS.readi (s.content i) off n).length then (-1 : ℤ)
        else (AgentOS.readi (s.content i) off n).length) := by
  have hsize := h.size i
  unfold BlockFs.readi AgentOS.readi
  rw [content_length]
  by_cases hrej : (s.inode i).size < off ∨ (off + n) % 2 ^ 32 < off
  · rw [if_pos hrej, if_pos hrej, List.take_nil, List.length_nil, if_neg (Nat.not_lt_zero _)]
    rfl
  rw [if_neg hrej, if_neg hrej]
  rw [not_or] at hrej
  dsimp only
  have hms : maxFileSize = 268 * 1024 := rfl
  have hle : (if (s.inode i).size < (off + n) % 2 ^ 32 then (s.inode i).size - off else n) =
      min n ((s.inode i).size - off) := by
    split <;> omega
  rw [hle, content, bytes, drop_take_range]
  have hb : s.Backed i (off + min n ((s.inode i).size - off)) := by
    intro p hp
    exact h.backed i p (by omega)
  rw [readiLoop_spec (le_refl _) hb (by omega), Option.map_some]
  refine congrArg some (Prod.ext rfl (Prod.ext rfl ?_))
  dsimp only
  rw [List.length_map, List.length_range]
  by_cases hav : min n ((s.inode i).size - off) ≤ avail
  · rw [if_pos (decide_eq_true hav), if_neg (by omega), List.length_take, List.length_map,
      List.length_range, Nat.min_eq_right hav]
  · rw [if_neg (by simpa using hav), if_pos (by omega)]

/-! ### `writei` -/

/-- The end of `writei`. -/
theorem stored_changed (L : sb.Layout) (hw : Writes i s t) {m : ℕ}
    (hm : m ≤ maxFileSize) (hb : t.Backed i m) :
    Changed i s ((t.setSize i m).iupdate i) ∧
      ((t.setSize i m).iupdate i).content i = t.bytes i m := by
  have hsp : (t.setSize i m).ptr = t.ptr := setInode_ptr rfl
  have hmap : (t.setSize i m).Mapped := hw.mapped.setInode rfl
  have hptr : ((t.setSize i m).iupdate i).ptr = t.ptr := (iupdate_ptr hmap L).trans hsp
  have hdata : ∀ c, t.ptr c ≠ 0 →
      ((t.setSize i m).iupdate i).block (t.ptr c) = t.block (t.ptr c) :=
    fun c hc => iupdate_block ((hw.mapped.used hc).1.ne_iblock L i)
  have hsz : (((t.setSize i m).iupdate i).inode i).size = m := by
    rw [iupdate_inode, setSize_inode]
  have hms : maxFileSize = 268 * 1024 := rfl
  constructor
  · refine ⟨hmap.iupdate L, fun j hj => ?_, fun j hj => ?_, fun j _ => ?_, fun c hc => ?_,
      fun c hi hc hn => ?_, ?_, ?_, ?_⟩
    · rw [iupdate_inode, setSize_inode_ne hj]
      exact hw.other j hj
    · rw [dinode_iupdate_ne hj]
      exact dinode_congr (hw.iblock j)
    · exact congrFun hw.valid j
    · rw [hptr, hw.ptr_other c hc]
    · rw [← hw.ptr_other c hi] at hc ⊢
      rw [hdata c hc, hw.ptr_other c hi]
      exact hw.data_other c hi (by rwa [hw.ptr_other c hi] at hc) hn
    · refine dinode_iupdate ?_ fun k => hmap.addr_lt L k
      rw [setSize_inode]
      dsimp only
      omega
    · rw [hsz]
      intro p hp
      rw [hptr]
      exact hb p hp
    · rw [hsz]
      exact hm
  · unfold BlockFs.content
    rw [hsz]
    refine map_range_congr fun p hp => ?_
    unfold byteAt
    rw [hptr, hdata _ (hb p hp)]

/-- What `writei` answers and leaves: `avail'` bytes of the source reach the file. -/
structure WroteFile (i : Fin sb.ninodes) (off : ℕ) (src : List UInt8) (avail : ℕ)
    (s t : BlockFs sb) (r : ℤ) (avail' : ℕ) : Prop where
  le : avail' ≤ avail
  changed : Changed i s t
  type : (t.inode i).type = (s.inode i).type
  valid : t.valid = s.valid
  content : t.content i = (AgentOS.writei (s.content i) off src avail').1
  answer : r = (AgentOS.writei (s.content i) off src avail').2
  full : src.length ≤ avail → 0 ≤ r → r < src.length → ∀ b, b < sb.size → t.bit b = true
  torn : t.TornData
  clean : src.length ≤ avail ∨ avail = 0 ∨ (off + avail) % bsize = 0 → s.Clean → t.Clean

theorem Changed.refl (h : s.Sound) (i : Fin sb.ninodes) : Changed i s s :=
  ⟨h.mapped, fun _ _ => rfl, fun _ _ => rfl, fun _ _ => rfl, fun _ _ => rfl, fun _ _ _ _ => rfl,
    h.synced i, h.backed i, h.size i⟩

/-- **`writei`** writes the file as `writei` of a list of bytes does. -/
theorem writei_spec (i : Fin sb.ninodes) (avail : ℕ) (h : s.Sound) (L : sb.Layout)
    (hoff : off < 2 ^ 32) (hlen : src.length < 2 ^ 32) :
    ∃ t r avail', s.writei i off src avail = some (t, r) ∧
      WroteFile i off src avail s t r avail' := by
  have hms : maxFileSize = 268 * 1024 := rfl
  have hsize := h.size i
  unfold BlockFs.writei
  dsimp only
  by_cases hrej : writeiRejects (s.content i) off src.length
  · have hl : AgentOS.writei (s.content i) off src avail = (s.content i, -1) := if_pos hrej
    have hrej' := hrej
    unfold writeiRejects at hrej'
    rw [content_length] at hrej'
    rw [if_pos hrej']
    refine ⟨s, -1, avail, rfl, le_refl _, Changed.refl h i, rfl, rfl, ?_, ?_,
      fun _ h0 => by omega, h.torn, fun _ hc => hc⟩
    · rw [hl]
    · rw [hl]
  · have hl : ∀ a, AgentOS.writei (s.content i) off src a =
        ((AgentOS.writeiLoop src.length (s.content i) off src a).1,
          ((AgentOS.writeiLoop src.length (s.content i) off src a).2 : ℤ)) := fun a => if_neg hrej
    have hrej' := hrej
    unfold writeiRejects at hrej'
    rw [content_length] at hrej'
    rw [if_neg hrej']
    rw [not_or, not_or] at hrej'
    obtain ⟨t, tot, avail', ht, hw⟩ := writeiLoop_spec avail h.mapped L (le_refl _)
      (by omega : off ≤ (s.inode i).size) hsize (by omega : off + src.length ≤ maxFileSize)
      (h.backed i)
    have hb := hw.bytes
    rw [ht, Option.map_some]
    have htot := hw.tot_le
    obtain ⟨hchanged, hcontent⟩ := stored_changed L hw.writes
      (m := max (s.inode i).size (off + tot)) (by omega) hw.backed
    have hlogs : Logs t ((t.setSize i (max (s.inode i).size (off + tot))).iupdate i) :=
      setSize_logs _
    refine ⟨_, tot, avail', rfl, hw.le, hchanged, ?_, ?_, ?_, ?_, fun hle _ hlt b hb => ?_, ?_, ?_⟩
    · rw [iupdate_inode, setSize_inode]
      exact hw.writes.type
    · exact hlogs.valid.trans hw.writes.valid
    · rw [hcontent, hl]
      change _ = (AgentOS.writeiLoop src.length (s.bytes i (s.inode i).size) off src avail').1
      rw [hb]
    · rw [hl]
      change (tot : ℤ) =
        ((AgentOS.writeiLoop src.length (s.bytes i (s.inode i).size) off src avail').2 : ℤ)
      rw [hb]
    · rw [iupdate_bit L]
      exact hw.full hle (by omega) b hb
    · exact (hw.torn h.torn).logs L hlogs
    · exact fun hwhole hc b hb => hw.clean hwhole hc b (hlogs.torn b hb)

end BlockFs

end AgentOS
