import AgentOS.Proof.BlockTrunc
import AgentOS.Proof.Writeback

/-!
# Reading and writing files in blocks

* `bytes_put`: a chunk of `writei` overlays the bytes of the file.
* `writeiLoop_spec`: the loop of `writei` does what the loop over a list of bytes does, for a source
  that ends where the blocks or the pages end; it tears the block of a copy that fails midway, and
  no other.
* `readiLoop_spec`: the loop of `readi` answers the bytes of the file, and allocates nothing.
-/

namespace AgentOS

variable {sb : Superblock}

/-! ### Lists over a range -/

section Range

variable {f g : ℕ → UInt8} {n off : ℕ} {bytes : List UInt8}

theorem take_map_range {m : ℕ} (h : n ≤ m) :
    ((List.range m).map f).take n = (List.range n).map f := by
  rw [← List.map_take, List.take_range, Nat.min_eq_left h]

theorem map_range_congr (h : ∀ p, p < n → f p = g p) :
    (List.range n).map f = (List.range n).map g :=
  List.map_congr_left fun p hp => h p (List.mem_range.1 hp)

/-- An overlay, byte by byte. -/
theorem overlay_map (h : off ≤ n) :
    overlay ((List.range n).map f) off bytes =
      (List.range (max n (off + bytes.length))).map fun p =>
        if off ≤ p ∧ p < off + bytes.length then bytes.getD (p - off) 0 else f p := by
  apply List.ext_getElem?
  intro p
  unfold overlay
  rw [List.append_assoc, List.getElem?_append, List.getElem?_append, List.length_take,
    List.length_map, List.length_range, Nat.min_eq_left h, List.getElem?_map]
  by_cases h1 : p < off
  · rw [if_pos h1, List.getElem?_take_of_lt h1, List.getElem?_map, List.getElem?_range (by omega),
      List.getElem?_range (by omega), Option.map_some, Option.map_some, if_neg (by omega)]
  rw [if_neg h1]
  by_cases h2 : p < off + bytes.length
  · rw [if_pos (by omega), List.getElem?_range (by omega), Option.map_some, if_pos (by omega),
      List.getD_eq_getElem?_getD, List.getElem?_eq_getElem (by omega), Option.getD_some]
  · rw [if_neg (by omega), List.getElem?_drop, List.getElem?_map,
      show off + bytes.length + (p - off - bytes.length) = p by omega]
    by_cases h3 : p < n
    · rw [List.getElem?_range h3, List.getElem?_range (by omega), Option.map_some, Option.map_some,
        if_neg (by omega)]
    · rw [List.getElem?_eq_none (by rw [List.length_range]; omega),
        List.getElem?_eq_none (by rw [List.length_range]; omega)]
      rfl

end Range

namespace BlockFs

variable {s t u : BlockFs sb} {i j : Fin sb.ninodes} {n off avail p : ℕ} {src : List UInt8}

/-- Byte `p` of a file. -/
def byteAt (s : BlockFs sb) (i : Fin sb.ninodes) (p : ℕ) : UInt8 :=
  s.block (s.ptr (i, .data (p / bsize))) (Fin.ofNat (4 * 256) (p % bsize))

/-- The first `n` bytes of a file. -/
def bytes (s : BlockFs sb) (i : Fin sb.ninodes) (n : ℕ) : List UInt8 :=
  (List.range n).map (s.byteAt i)

/-- **The content of a file.** -/
def content (s : BlockFs sb) (i : Fin sb.ninodes) : List UInt8 := s.bytes i (s.inode i).size

/-- The first `n` bytes have their blocks. -/
def Backed (s : BlockFs sb) (i : Fin sb.ninodes) (n : ℕ) : Prop :=
  ∀ p, p < n → s.ptr (i, .data (p / bsize)) ≠ 0

theorem bytes_length : (s.bytes i n).length = n := by
  rw [bytes, List.length_map, List.length_range]

/-! ### Torn blocks -/

/-- Torn blocks hold the bytes of a file, or none. -/
def TornData (s : BlockFs sb) : Prop :=
  ∀ b, s.Torn b → sb.Data b ∧ ∀ j, (s.inode j).addrs 12 ≠ b

theorem TornData.logs (h : s.TornData) (L : sb.Layout) (hl : Logs s t) : t.TornData := by
  intro b hb
  obtain ⟨hd, hn⟩ := h b (hl.torn b hb)
  exact ⟨hd, fun j hj => (hl.indirect b j hb hj).elim (hd.pos L) (hn j)⟩

/-- A store that is not logged tears its block. -/
theorem torn_setBuffer {b c : ℕ} {x : Block} (h : (s.setBuffer b x).Torn c) : c = b ∨ s.Torn c := by
  by_cases hc : c = b
  · exact Or.inl hc
  · refine Or.inr fun he => h ?_
    have hb : (s.setBuffer b x).block c = s.block c := Function.update_of_ne hc ..
    rw [hb]
    exact he

theorem TornData.setBuffer (h : s.TornData) (hm : s.Mapped) {c : Fin sb.ninodes × BlockSlot}
    (hc : s.ptr c ≠ 0) (hn : c.2 ≠ .addr 12) (x : Block) :
    (s.setBuffer (s.ptr c) x).TornData := by
  intro b hb
  rcases torn_setBuffer hb with rfl | hs
  · refine ⟨(hm.used hc).1, fun j hj => hn ?_⟩
    rw [hm.owned.inj c (j, .addr 12) hc hj.symm]
  · exact h b hs

/-! ### Stores into a file -/

/-- From `s` to `t`, inode `i` gets new blocks at most, and only blocks of its file are written. -/
structure Writes (i : Fin sb.ninodes) (s t : BlockFs sb) : Prop where
  mapped : t.Mapped
  type : (t.inode i).type = (s.inode i).type
  size : (t.inode i).size = (s.inode i).size
  other : ∀ j, j ≠ i → t.inode j = s.inode j
  ptr : ∀ c, s.ptr c ≠ 0 → t.ptr c = s.ptr c
  ptr_other : ∀ c, c.1 ≠ i → t.ptr c = s.ptr c
  data_other : ∀ c, c.1 ≠ i → s.ptr c ≠ 0 → c.2 ≠ .addr 12 →
    t.block (s.ptr c) = s.block (s.ptr c)
  iblock : ∀ j : Fin sb.ninodes, t.block (sb.iblock j) = s.block (sb.iblock j)
  valid : t.valid = s.valid

theorem Writes.refl (h : s.Mapped) : Writes i s s :=
  ⟨h, rfl, rfl, fun _ _ => rfl, fun _ _ => rfl, fun _ _ => rfl, fun _ _ _ _ => rfl, fun _ => rfl,
    rfl⟩

theorem Writes.trans (h : Writes i s t) (h' : Writes i t u) : Writes i s u where
  mapped := h'.mapped
  type := h'.type.trans h.type
  size := h'.size.trans h.size
  other j hj := (h'.other j hj).trans (h.other j hj)
  ptr c hc := by
    have ht : t.ptr c ≠ 0 := by
      rw [h.ptr c hc]
      exact hc
    exact (h'.ptr c ht).trans (h.ptr c hc)
  ptr_other c hc := (h'.ptr_other c hc).trans (h.ptr_other c hc)
  data_other c hi hc hk := by
    have hd := h'.data_other c hi
    rw [h.ptr_other c hi] at hd
    exact (hd hc hk).trans (h.data_other c hi hc hk)
  iblock j := (h'.iblock j).trans (h.iblock j)
  valid := h'.valid.trans h.valid

theorem MapsTo.writes {c : BlockSlot} {a : ℕ} (h : MapsTo i c s t a) : Writes i s t :=
  ⟨h.mapped, h.grows.type i, h.grows.size i, h.grows.other, h.grows.ptr, h.grows.ptr_other,
    fun c _ hc hk => h.grows.data c hc hk, h.grows.iblock, h.grows.logs.valid⟩

/-- A store into a block of the file. -/
theorem Mapped.writes (h : s.Mapped) (L : sb.Layout) {c : BlockSlot} (hc : s.ptr (i, c) ≠ 0)
    (hn : c ≠ .addr 12) (x : Block) : Writes i s (s.setBlock (s.ptr (i, c)) x) where
  mapped := h.setBlock (h.used hc).1 (h.ne_indirect hn)
  type := rfl
  size := rfl
  other _ _ := rfl
  ptr c' _ := congrFun (ptr_setBlock (h.ne_indirect hn)) c'
  ptr_other c' _ := congrFun (ptr_setBlock (h.ne_indirect hn)) c'
  data_other c' hi hc' _ := by
    refine setBlock_ne fun he => hi ?_
    rw [h.owned.inj c' (i, c) hc' he]
  iblock j := setBlock_ne ((h.used hc).1.ne_iblock L j).symm
  valid := rfl

/-- What is in a buffer does not depend on what is logged. -/
theorem Writes.setBuffer {b : ℕ} {x : Block} (h : Writes i s (t.setBlock b x)) :
    Writes i s (t.setBuffer b x) :=
  ⟨h.mapped.congr rfl fun _ => rfl, h.type, h.size, h.other, h.ptr, h.ptr_other, h.data_other,
    h.iblock, h.valid⟩

theorem Writes.backed (h : Writes i s t) (hb : s.Backed j n) : t.Backed j n := by
  intro p hp
  rw [h.ptr _ (hb p hp)]
  exact hb p hp

/-- What `bmap` leaves of the file. -/
theorem Grows.byteAt (h : Grows i s t) (hp : s.ptr (i, .data (p / bsize)) ≠ 0) :
    t.byteAt i p = s.byteAt i p := by
  unfold BlockFs.byteAt
  rw [h.ptr _ hp, h.data _ hp data_ne]

/-! ### Chunks -/

/-- The store of a chunk: `bytes` at `off` of the file, in its block. -/
def put (s : BlockFs sb) (i : Fin sb.ninodes) (off : ℕ) (src : List UInt8) : BlockFs sb :=
  s.setBlock (s.ptr (i, .data (off / bsize)))
    ((s.block (s.ptr (i, .data (off / bsize)))).store (off % bsize) src)

theorem put_writes (h : s.Mapped) (L : sb.Layout) (ha : s.ptr (i, .data (off / bsize)) ≠ 0) :
    Writes i s (s.put i off src) := h.writes L ha data_ne _

theorem put_ptr (h : s.Mapped) (c : Fin sb.ninodes × BlockSlot) :
    (s.put i off src).ptr c = s.ptr c := congrFun (ptr_setBlock (h.ne_indirect data_ne)) c

/-- A byte of the block behind a store. -/
theorem store_apply {b : Block} {q : Fin (4 * 256)} :
    b.store off src q =
      if off ≤ q.val ∧ q.val < off + src.length then src.getD (q.val - off) 0 else b q := by
  unfold Block.store
  by_cases h1 : off ≤ q.val
  · rw [if_pos h1]
    by_cases h2 : q.val < off + src.length
    · have hlt : q.val - off < src.length := by omega
      rw [if_pos ⟨h1, h2⟩, List.getD_eq_getElem?_getD, List.getD_eq_getElem?_getD,
        List.getElem?_eq_getElem hlt]
      rfl
    · rw [if_neg fun hc => h2 hc.2, List.getD_eq_getElem?_getD,
        List.getElem?_eq_none (by omega), Option.getD_none]
  · rw [if_neg h1, if_neg fun hc => h1 hc.1]

theorem byteAt_put (h : s.Mapped) (ha : s.ptr (i, .data (off / bsize)) ≠ 0)
    (hfit : off % bsize + src.length ≤ bsize) (hoff : off < maxFileSize) (hp : p < maxFileSize) :
    (s.put i off src).byteAt i p =
      if off ≤ p ∧ p < off + src.length then src.getD (p - off) 0 else s.byteAt i p := by
  have hbs : bsize = 1024 := rfl
  have hmax : maxFileSize = 268 * 1024 := rfl
  unfold byteAt
  rw [put_ptr h]
  unfold put
  rw [hbs] at hfit ha ⊢
  by_cases hq : p / 1024 = off / 1024
  · rw [hq, setBlock_self, store_apply, Fin.val_ofNat]
    by_cases hin : off ≤ p ∧ p < off + src.length
    · rw [if_pos hin, if_pos (by omega), show p % 1024 % (4 * 256) - off % 1024 = p - off by omega]
    · rw [if_neg hin, if_neg (by omega)]
  · rw [if_neg (by omega), setBlock_ne]
    intro he
    have hc := h.owned.inj (i, .data (off / 1024)) (i, .data (p / 1024)) ha he.symm
    exact hq (data_inj (by omega) (by omega) (Prod.mk.inj hc).2).symm

/-- **A chunk overlays the bytes of the file.** -/
theorem bytes_put (h : s.Mapped) (ha : s.ptr (i, .data (off / bsize)) ≠ 0)
    (hfit : off % bsize + src.length ≤ bsize) (hn : off ≤ n) (hmax : n ≤ maxFileSize)
    (hstop : off + src.length ≤ maxFileSize) (hoff : off < maxFileSize) :
    (s.put i off src).bytes i (max n (off + src.length)) = overlay (s.bytes i n) off src := by
  unfold bytes
  rw [overlay_map hn]
  exact map_range_congr fun p hp => byteAt_put h ha hfit hoff (by omega)

theorem put_backed (h : s.Mapped) (ha : s.ptr (i, .data (off / bsize)) ≠ 0)
    (hfit : off % bsize + src.length ≤ bsize) (hn : off ≤ n) (hb : s.Backed i n) :
    (s.put i off src).Backed i (max n (off + src.length)) := by
  intro p hp
  rw [put_ptr h]
  by_cases hpn : p < n
  · exact hb p hpn
  · have hbs : bsize = 1024 := rfl
    rw [hbs] at hfit ha ⊢
    have hq : p / 1024 = off / 1024 := by omega
    rw [hq]
    exact ha

/-- A chunk that fails leaves, of the file as it was, what an overlay leaves. -/
theorem bytes_put_fail (h : s.Mapped) (ha : s.ptr (i, .data (off / bsize)) ≠ 0)
    (hfit : off % bsize + src.length ≤ bsize) (hn : off ≤ n) (hmax : n ≤ maxFileSize)
    (hstop : off + src.length ≤ maxFileSize) (hoff : off < maxFileSize) :
    (s.put i off src).bytes i n = (overlay (s.bytes i n) off src).take n := by
  rw [← bytes_put h ha hfit hn hmax hstop hoff]
  unfold bytes
  rw [take_map_range (Nat.le_max_left ..)]

/-! ### The loop of `writei` -/

/-- What a run of the loop of `writei` from `s` leaves, for a file of which `n` bytes have blocks:
`avail'` bytes of the source reach the file. -/
structure WroteTo (i : Fin sb.ninodes) (fuel n off : ℕ) (src : List UInt8) (avail : ℕ)
    (s t : BlockFs sb) (tot avail' : ℕ) : Prop where
  le : avail' ≤ avail
  tot_le : tot ≤ src.length
  writes : Writes i s t
  backed : t.Backed i (max n (off + tot))
  bytes : AgentOS.writeiLoop fuel (s.bytes i n) off src avail' =
    (t.bytes i (max n (off + tot)), tot)
  full : src.length ≤ avail → tot < src.length → ∀ b, b < sb.size → t.bit b = true
  torn : s.TornData → t.TornData
  clean : src.length ≤ avail ∨ avail = 0 ∨ (off + avail) % bsize = 0 → (∀ b, ¬s.Torn b) →
    ∀ b, ¬t.Torn b

theorem grows_bytes (h : Grows i s t) (hb : s.Backed i n) : t.bytes i n = s.bytes i n :=
  map_range_congr fun p hp => h.byteAt (hb p hp)

/-- **The loop of `writei`** writes the file as the loop over a list of bytes does. -/
theorem writeiLoop_spec {fuel : ℕ} (avail : ℕ) (h : s.Mapped) (L : sb.Layout) (hfuel : src.length ≤ fuel)
    (hn : off ≤ n) (hmax : n ≤ maxFileSize) (hstop : off + src.length ≤ maxFileSize)
    (hb : s.Backed i n) :
    ∃ t tot avail', writeiLoop i fuel s off src avail = some (t, tot) ∧
      WroteTo i fuel n off src avail s t tot avail' := by
  have hbs : bsize = 1024 := rfl
  have hms : maxFileSize = 268 * 1024 := rfl
  -- induction on the fuel; a round is one block
  induction fuel generalizing s n off src avail with
  | zero =>
    have hz : max n (off + 0) = n := by omega
    refine ⟨s, 0, 0, rfl, Nat.zero_le _, Nat.zero_le _, Writes.refl h, ?_, ?_,
      fun _ hlt => by omega, id, fun _ => id⟩
    · rwa [hz]
    · rw [hz]
      rfl
  | succ fuel ih =>
    have hz : max n (off + 0) = n := by omega
    unfold writeiLoop
    by_cases hnil : src = []
    · rw [if_pos hnil]
      refine ⟨s, 0, 0, rfl, Nat.zero_le _, Nat.zero_le _, Writes.refl h, ?_, ?_,
        fun _ hlt => absurd (List.length_pos_iff.1 hlt) (not_not_intro hnil), id, fun _ => id⟩
      · rwa [hz]
      · rw [hz]
        unfold AgentOS.writeiLoop
        rw [if_pos hnil]
    rw [if_neg hnil]
    have hlen : 0 < src.length := List.length_pos_iff.2 hnil
    have hbn : off / bsize < 268 := by
      rw [hbs]
      omega
    obtain ⟨u, a, hu, hm⟩ := bmap_spec h L i hbn
    rw [hu, Option.bind_some]
    dsimp only
    have hub : u.bytes i n = s.bytes i n := grows_bytes hm.grows hb
    have hback : u.Backed i n := hm.writes.backed hb
    obtain ⟨m, hmdef⟩ : ∃ m, m = min src.length (bsize - off % bsize) := ⟨_, rfl⟩
    rw [← hmdef]
    have hm0 : 0 < m := by
      rw [hbs] at hmdef
      omega
    have hmle : m ≤ src.length := by omega
    by_cases ha0 : a = 0
    · -- no block: nothing of the source reaches the file
      rw [if_pos ha0]
      refine ⟨u, 0, 0, rfl, Nat.zero_le _, Nat.zero_le _, hm.writes, ?_, ?_, fun _ _ => hm.full ha0,
        fun ht => ht.logs L hm.grows.logs, fun _ hc b hb => hc b (hm.grows.logs.torn b hb)⟩
      · rwa [hz]
      · rw [hz, hub]
        unfold AgentOS.writeiLoop
        rw [if_neg hnil]
        dsimp only
        rw [← hmdef, if_pos hm0, List.take_zero, overlay_nil, List.take_length]
    rw [if_neg ha0]
    have hptr : u.ptr (i, .data (off / bsize)) = a := hm.answer ha0
    have hptr0 : u.ptr (i, .data (off / bsize)) ≠ 0 := by
      rw [hptr]
      exact ha0
    have hput : ∀ k, u.setBlock a ((u.block a).store (off % bsize) (src.take k)) =
        u.put i off (src.take k) := by
      intro k
      rw [put, hptr]
    rw [hput]
    by_cases hav : avail < m
    · -- a page of the source faults in this block
      rw [if_pos hav]
      have hl : (src.take avail).length = avail := by
        rw [List.length_take]
        omega
      have hfit : off % bsize + (src.take avail).length ≤ bsize := by
        rw [hl, hbs]
        rw [hbs] at hmdef
        omega
      have hw : Writes i s (u.setBuffer a ((u.block a).store (off % bsize) (src.take avail))) := by
        apply Writes.setBuffer
        rw [hput]
        exact hm.writes.trans (put_writes hm.mapped L hptr0)
      have hbytes : (u.setBuffer a ((u.block a).store (off % bsize) (src.take avail))).bytes i n =
          (u.put i off (src.take avail)).bytes i n := by
        rw [← hput]
        rfl
      refine ⟨_, 0, avail, rfl, le_refl _, Nat.zero_le _, hw, ?_, ?_, fun hle => by omega,
        fun ht => ?_, fun hwhole hc b hb => ?_⟩
      · rw [hz]
        exact hw.backed hb
      · rw [hz, hbytes]
        unfold AgentOS.writeiLoop
        rw [if_neg hnil]
        dsimp only
        rw [← hmdef, if_pos hav, bytes_length, bytes_put_fail hm.mapped hptr0 hfit hn hmax
          (by rw [hl]; omega) (by omega), hub]
      · rw [← hptr]
        exact (ht.logs L hm.grows.logs).setBuffer hm.mapped hptr0 data_ne _
      · -- the copy fails before its first byte: the buffer stays as it is
        have h0 : avail = 0 := by
          rw [hbs] at hmdef hwhole
          omega
        have hcopied : (u.block a).store (off % bsize) (src.take avail) = u.block a := by
          rw [h0, List.take_zero]
          funext q
          rw [store_apply, List.length_nil, if_neg (by omega)]
        have hsame : (u.setBuffer a ((u.block a).store (off % bsize) (src.take avail))) = u := by
          rw [hcopied, setBuffer, Function.update_eq_self]
        rw [hsame] at hb
        exact hc b (hm.grows.logs.torn b hb)
    · rw [if_neg hav]
      have hl : (src.take m).length = m := by
        rw [List.length_take]
        omega
      have hfit : off % bsize + (src.take m).length ≤ bsize := by
        rw [hl, hbs]
        rw [hbs] at hmdef
        omega
      have hw : Writes i s (u.put i off (src.take m)) :=
        hm.writes.trans (put_writes hm.mapped L hptr0)
      have hpb := bytes_put hm.mapped hptr0 hfit hn hmax (by rw [hl]; omega) (by omega)
      have hbk := put_backed hm.mapped hptr0 hfit hn hback
      rw [hl] at hpb hbk
      have hdl : (src.drop m).length = src.length - m := List.length_drop
      have hlogs : Logs s (u.put i off (src.take m)) := hm.grows.logs.trans (Logs.setBlock _)
      obtain ⟨t, tot, avail', ht, hle, htot, hwt, hbt, hbytes, hfull, htorn, hclean⟩ :=
        ih (avail - m) hw.mapped
        (by rw [hdl]; omega) (Nat.le_max_right n (off + m)) (by omega) (by rw [hdl]; omega) hbk
      rw [ht, Option.map_some]
      have hend : max (max n (off + m)) (off + m + tot) = max n (off + (m + tot)) := by omega
      rw [hend] at hbt hbytes
      refine ⟨t, m + tot, m + avail', rfl, by omega, by omega, hw.trans hwt, hbt, ?_,
        fun _ hlt => hfull (by omega) (by omega), fun ht => htorn (ht.logs L hlogs),
        fun hwhole hc => hclean ?_ fun b hb => hc b (hlogs.torn b hb)⟩
      swap
      · rw [hdl, hbs]
        rw [hbs] at hmdef hwhole
        omega
      unfold AgentOS.writeiLoop
      rw [if_neg hnil]
      dsimp only
      rw [← hmdef, if_neg (by omega), Nat.add_sub_cancel_left, ← hub, ← hpb, hbytes]

/-! ### The loop of `readi` -/

/-- The bytes of a block of the file. -/
theorem block_bytes {m : ℕ} (hfit : off % bsize + m ≤ bsize) :
    (s.block (s.ptr (i, .data (off / bsize)))).bytes (off % bsize) m =
      (List.range m).map fun p => s.byteAt i (off + p) := by
  have hbs : bsize = 1024 := rfl
  unfold Block.bytes
  refine map_range_congr fun p hp => ?_
  unfold byteAt
  rw [hbs] at hfit ⊢
  rw [show (off + p) / 1024 = off / 1024 by omega,
    show (off + p) % 1024 = off % 1024 + p by omega]

/-- **The loop of `readi`** answers the bytes of the file, and changes nothing. -/
theorem readiLoop_spec {fuel : ℕ} (hfuel : n ≤ fuel) (hb : s.Backed i (off + n))
    (hmax : off + n ≤ maxFileSize) :
    readiLoop i fuel s off n avail =
      some (s, ((List.range n).map fun p => s.byteAt i (off + p)).take avail,
        decide (n ≤ avail)) := by
  have hbs : bsize = 1024 := rfl
  have hms : maxFileSize = 268 * 1024 := rfl
  -- induction on the fuel; a round is one block
  induction fuel generalizing n off avail with
  | zero =>
    obtain rfl := Nat.le_zero.1 hfuel
    unfold readiLoop
    rw [List.range_zero, List.map_nil, List.take_nil, decide_eq_true (Nat.zero_le avail)]
  | succ fuel ih =>
    unfold readiLoop
    by_cases hn : n = 0
    · rw [if_pos hn, hn, List.range_zero, List.map_nil, List.take_nil,
        decide_eq_true (Nat.zero_le avail)]
    rw [if_neg hn]
    have hptr := hb off (by omega)
    rw [bmap_there (by rw [hbs]; omega) hptr, Option.bind_some]
    dsimp only
    obtain ⟨m, hmdef⟩ : ∃ m, m = min n (bsize - off % bsize) := ⟨_, rfl⟩
    have hfit : off % bsize + m ≤ bsize := by
      rw [hbs] at hmdef ⊢
      omega
    have hm0 : 0 < m := by
      rw [hbs] at hmdef
      omega
    have hmn : m ≤ n := by omega
    rw [← hmdef, if_neg hptr, block_bytes hfit]
    by_cases hav : avail < m
    · rw [if_pos hav, decide_eq_false (by omega)]
      refine congrArg some (Prod.ext rfl (Prod.ext ?_ rfl))
      rw [← List.map_take, ← List.map_take, List.take_range, List.take_range,
        Nat.min_eq_left (by omega), Nat.min_eq_left (by omega)]
    · have hb' : s.Backed i (off + m + (n - m)) := by
        rw [show off + m + (n - m) = off + n by omega]
        exact hb
      rw [if_neg hav, ih (by omega) hb' (by omega), Option.map_some]
      have hsplit : ((List.range n).map fun p => s.byteAt i (off + p)) =
          ((List.range m).map fun p => s.byteAt i (off + p)) ++
            (List.range (n - m)).map fun p => s.byteAt i (off + m + p) := by
        have hr : List.range n = List.range m ++ (List.range (n - m)).map (m + ·) := by
          rw [← List.range_add, Nat.add_sub_cancel' hmn]
        rw [hr, List.map_append, List.map_map]
        refine congrArg _ (map_range_congr fun p _ => ?_)
        rw [Function.comp_apply, Nat.add_assoc]
      have hdec : decide (n - m ≤ avail - m) = decide (n ≤ avail) := by
        rw [decide_eq_decide]
        omega
      refine congrArg some (Prod.ext rfl (Prod.ext ?_ hdec))
      dsimp only
      rw [hsplit, List.take_append, List.length_map, List.length_range,
        List.take_of_length_le (l := List.map _ (List.range m)) (by simp; omega)]

end BlockFs

end AgentOS
