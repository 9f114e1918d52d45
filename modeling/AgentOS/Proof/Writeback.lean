import AgentOS.Model.Mapping
import Mathlib.Data.List.Basic
import Mathlib.Tactic.Linarith

/-!
# What `writeback` leaves in the file

`writeback` copies user memory to the front of the file, chunk by chunk, and stops at the first page
that is not there. So what it leaves is the first `i` bytes of the memory and the rest of the file
(`writebackLoop_written`), and it stops short only before a missing page, at a chunk that the
largest file has no room for, or behind the old end of the file (`CutOff`).
-/

namespace AgentOS

/-! ### A chunk -/

section

variable {d src : List UInt8} {off avail fuel : ℕ}

theorem overlay_nil (d : List UInt8) (off : ℕ) : overlay d off [] = d := by
  simp [overlay]

theorem overlay_length (hoff : off ≤ d.length) :
    (overlay d off src).length = max d.length (off + src.length) := by
  unfold overlay
  simp only [List.length_append, List.length_take, List.length_drop]
  omega

/-- What was stored ends where the next store begins. -/
theorem overlay_split (hoff : off ≤ d.length) (a : List UInt8) :
    (overlay d off a).take (off + a.length) = d.take off ++ a ∧
      (overlay d off a).drop (off + a.length) = d.drop (off + a.length) := by
  have hlen : (d.take off ++ a).length = off + a.length := by
    rw [List.length_append, List.length_take, Nat.min_eq_left hoff]
  unfold overlay
  constructor
  · rw [← hlen, List.take_left]
  · rw [← hlen, List.drop_left]

theorem overlay_append (hoff : off ≤ d.length) (a b : List UInt8) :
    overlay (overlay d off a) (off + a.length) b = overlay d off (a ++ b) := by
  obtain ⟨htake, hdrop⟩ := overlay_split hoff a
  have hrest : (overlay d off a).drop (off + a.length + b.length) =
      d.drop (off + (a ++ b).length) := by
    rw [← List.drop_drop, hdrop, List.drop_drop, List.length_append, Nat.add_assoc]
  rw [overlay, htake, hrest, overlay]
  simp only [List.append_assoc]

/-- The loop of `writei`, where what it can write ends at a block boundary. -/
theorem writeiLoop_eq (hoff : off ≤ d.length) (hfuel : src.length ≤ fuel)
    (hcut : avail < src.length → (off + avail) % bsize = 0) :
    writeiLoop fuel d off src avail = (overlay d off (src.take avail), min avail src.length) := by
  -- induction on the fuel; a round writes one block
  induction fuel generalizing d off src avail with
  | zero =>
    have hnil : src = [] := List.length_eq_zero_iff.1 (Nat.le_zero.1 hfuel)
    rw [hnil, List.take_nil, overlay_nil, List.length_nil, Nat.min_zero]
    rfl
  | succ fuel ih =>
    unfold writeiLoop
    dsimp only
    by_cases hnil : src = []
    · rw [if_pos hnil, hnil, List.take_nil, overlay_nil, List.length_nil, Nat.min_zero]
    · have hpos : 0 < src.length := List.length_pos_iff.2 hnil
      have hb : off % bsize < bsize := Nat.mod_lt _ (by decide)
      rw [if_neg hnil]
      generalize hm : min src.length (bsize - off % bsize) = m
      by_cases hlt : avail < m
      · -- the first block is missing: nothing is written
        have havail : avail = 0 := by
          have hz := hcut (by omega)
          have hz' : (off % bsize + avail) % bsize = 0 := by rw [Nat.mod_add_mod]; exact hz
          rw [Nat.mod_eq_of_lt (by omega)] at hz'
          omega
        rw [if_pos hlt, havail, List.take_zero, overlay_nil, List.take_length, Nat.zero_min]
      · have htake : (src.take m).length = m := by rw [List.length_take]; omega
        have hdrop : (src.drop m).length = src.length - m := List.length_drop ..
        have hstep : writeiLoop fuel (overlay d off (src.take m)) (off + m) (src.drop m) (avail - m) =
            (overlay (overlay d off (src.take m)) (off + m) ((src.drop m).take (avail - m)),
              min (avail - m) (src.drop m).length) := by
          apply ih
          · rw [overlay_length hoff, htake]
            omega
          · omega
          · intro h
            have hz := hcut (by omega)
            rw [show off + m + (avail - m) = off + avail by omega]
            exact hz
        have hover := overlay_append hoff (src.take m) ((src.drop m).take (avail - m))
        rw [htake] at hover
        have hjoin : src.take m ++ (src.drop m).take (avail - m) = src.take avail := by
          rw [← List.take_add, show m + (avail - m) = avail by omega]
        rw [if_neg hlt, hstep, hover, hjoin, hdrop]
        congr 1
        omega

/-- **A chunk** that `writei` does not reject. -/
theorem writei_eq (hr : ¬ writeiRejects d off src.length)
    (hcut : avail < src.length → (off + avail) % bsize = 0) :
    writei d off src avail = (overlay d off (src.take avail), ((min avail src.length : ℕ) : ℤ)) := by
  have hoff : off ≤ d.length := not_lt.1 fun h => hr (.inl h)
  unfold writei
  rw [if_neg hr]
  dsimp only
  rw [writeiLoop_eq hoff le_rfl hcut]

end

/-! ### User memory -/

theorem takeWhile_range (p : ℕ → Bool) (n : ℕ) :
    ((List.range n).takeWhile p).length ≤ n ∧
      (∀ k < ((List.range n).takeWhile p).length, p k = true) ∧
      (((List.range n).takeWhile p).length < n →
        p ((List.range n).takeWhile p).length = false) := by
  have hlen : ((List.range n).takeWhile p).length = (List.range n).findIdx fun k => !p k := by
    have hle : (List.range n).findIdx (fun k => !p k) ≤ (List.range n).length :=
      List.findIdx_le_length
    rw [List.takeWhile_eq_take_findIdx_not, List.length_take, Nat.min_eq_left hle]
  rw [hlen]
  refine ⟨?_, ?_, ?_⟩
  · have hle : (List.range n).findIdx (fun k => !p k) ≤ (List.range n).length :=
      List.findIdx_le_length
    rwa [List.length_range] at hle
  · intro k hk
    have hnot := List.not_of_lt_findIdx hk
    simpa using hnot
  · intro hlt
    have hw : ((List.range n).findIdx fun k => !p k) < (List.range n).length := by
      rwa [List.length_range]
    have hat := List.findIdx_getElem (w := hw)
    simpa using hat

namespace MapState

variable {s : MapState} {addr n va : ℕ}

theorem userBytes_length : (s.userBytes addr n).length = n := by
  rw [userBytes, List.length_map, List.length_range]

theorem userBytes_add (i t : ℕ) :
    s.userBytes addr (i + t) = s.userBytes addr i ++ s.userBytes (addr + i) t := by
  unfold userBytes
  rw [List.range_add, List.map_append, List.map_map]
  congr 1
  apply List.map_congr_left
  intro k _
  simp only [Function.comp_apply, Nat.add_assoc]

theorem userBytes_take {t : ℕ} (h : t ≤ n) : (s.userBytes addr n).take t = s.userBytes addr t := by
  obtain ⟨r, rfl⟩ : ∃ r, n = t + r := ⟨n - t, by omega⟩
  rw [userBytes_add, List.take_left' userBytes_length]

theorem byte_isSome : (s.byte va).isSome = (s.page va).isSome := by
  rw [byte, Option.isSome_map]

/-- Memory that starts a page is there up to `k`: the pages below, and the page of `k`. -/
theorem byte_of_pages {addr k j : ℕ} (haddr : addr % pgsize = 0)
    (hpages : ∀ q < k / pgsize, (s.pages (addr / pgsize + q)).isSome = true)
    (hk : (s.byte (addr + k)).isSome = true) (hj : j ≤ k) :
    (s.byte (addr + j)).isSome = true := by
  rw [byte_isSome] at hk ⊢
  unfold page at hk ⊢
  by_cases hpage : j / pgsize < k / pgsize
  · have hq := hpages (j / pgsize) hpage
    have hpj : (addr + j) / pgsize = addr / pgsize + j / pgsize := by
      unfold pgsize at *
      omega
    rw [hpj]
    exact hq
  · have hpj : (addr + j) / pgsize = (addr + k) / pgsize := by
      unfold pgsize at *
      omega
    rw [hpj]
    exact hk

/-- The page of an address that is not the first of a page is that of the address before. -/
theorem page_succ (h : (va + 1) % pgsize ≠ 0) : s.page (va + 1) = s.page va := by
  unfold page
  congr 1
  unfold pgsize at h ⊢
  omega

/-- `copyin` copies what is there, and stops at the first byte of a page. -/
theorem copyin_spec (s : MapState) (addr n : ℕ) :
    s.copyin addr n ≤ n ∧ (∀ k < s.copyin addr n, (s.byte (addr + k)).isSome = true) ∧
      (s.copyin addr n < n → s.byte (addr + s.copyin addr n) = none ∧
        (0 < s.copyin addr n → (addr + s.copyin addr n) % pgsize = 0)) := by
  obtain ⟨hle, hthere, hstop⟩ := takeWhile_range (fun k => (s.byte (addr + k)).isSome) n
  refine ⟨hle, hthere, ?_⟩
  intro hlt
  have hnone : (s.byte (addr + s.copyin addr n)).isSome = false := hstop hlt
  refine ⟨by simpa using hnone, ?_⟩
  intro hpos
  -- the byte before is on another page
  by_contra hne
  obtain ⟨c, hc⟩ : ∃ c, s.copyin addr n = c + 1 := ⟨s.copyin addr n - 1, by omega⟩
  have hlast : (s.byte (addr + c)).isSome = true := hthere c (by show c < s.copyin addr n; omega)
  rw [hc, ← Nat.add_assoc] at hne hnone
  rw [byte_isSome, page_succ hne, ← byte_isSome, hlast] at hnone
  cases hnone

/-! ### The loop -/

section

variable (s) (addr n : ℕ) (d : List UInt8)

/-- The file with the first `i` bytes of the memory at `addr`. -/
def written (i : ℕ) : List UInt8 := s.userBytes addr i ++ d.drop i

/-- What holds before the chunk at `i`: it begins a block, and a chunk, unless the old end of the
file is passed or the memory is at an end. -/
def ChunkAt (i : ℕ) : Prop :=
  i < n → i % bsize = 0 ∧ (i % writeMax = 0 ∨ d.length ≤ i ∨ s.byte (addr + i) = none)

/-- The loop stopped at `i` with nothing left of the old file that it could write. -/
def CutOff (i : ℕ) : Prop :=
  ∀ k, i ≤ k → k < n → k < d.length → (∀ j ≤ k, (s.byte (addr + j)).isSome = true) →
    ¬ (n ≤ maxFileSize ∨ k < maxFileSize / writeMax * writeMax)

end

variable {d : List UInt8} {i fuel : ℕ} (room : ℕ → ℕ)

theorem written_length : (s.written addr d i).length = max d.length i := by
  rw [written, List.length_append, userBytes_length, List.length_drop]
  omega

theorem written_zero : s.written addr d 0 = d := by
  simp [written, userBytes]

theorem written_overlay {t : ℕ} (ht : t ≤ n) :
    overlay (s.written addr d i) i ((s.userBytes (addr + i) n).take t) =
      s.written addr d (i + t) := by
  have hlen : (s.userBytes addr i).length = i := userBytes_length
  have htake : (s.written addr d i).take i = s.userBytes addr i := List.take_left' hlen
  have hdrop : (s.written addr d i).drop (i + t) = d.drop (i + t) := by
    rw [← List.drop_drop, written, List.drop_left' hlen, List.drop_drop]
  rw [userBytes_take ht, overlay, userBytes_length, htake, hdrop, written, userBytes_add]

/-- What `writei` can take of the chunk at `i`. -/
def chunkRoom (s : MapState) (addr : ℕ) (d : List UInt8) (room : ℕ → ℕ) (i n1 : ℕ) : ℕ :=
  min (s.copyin (addr + i) n1)
    (max (room i) (((s.written addr d i).length + bsize - 1) / bsize) * bsize - i)

/-- If it takes less than the chunk, it stops at a block, and the next chunk begins there. -/
theorem chunkRoom_cut {n1 : ℕ} (haddr : addr % pgsize = 0) (hlt : i < n) (hat : ChunkAt s addr n d i)
    (hcut : chunkRoom s addr d room i n1 < n1) :
    (i + chunkRoom s addr d room i n1) % bsize = 0 ∧
      (d.length ≤ i + chunkRoom s addr d room i n1 ∨
        s.byte (addr + (i + chunkRoom s addr d room i n1)) = none) := by
  obtain ⟨hblock, -⟩ := hat hlt
  obtain ⟨-, -, hstop⟩ := copyin_spec s (addr + i) n1
  have hlen : (s.written addr d i).length = max d.length i := written_length
  unfold chunkRoom at hcut ⊢
  rw [hlen] at hcut ⊢
  generalize hc : s.copyin (addr + i) n1 = c at hcut hstop ⊢
  generalize hb : max (room i) ((max d.length i + bsize - 1) / bsize) = b at hcut ⊢
  have hreach : max d.length i ≤ b * bsize := by
    have hle : (max d.length i + bsize - 1) / bsize ≤ b := by omega
    have hmul := Nat.mul_le_mul_right bsize hle
    have hdiv : max d.length i ≤ (max d.length i + bsize - 1) / bsize * bsize := by
      unfold bsize
      omega
    omega
  by_cases hle : c ≤ b * bsize - i
  · -- the memory is at an end
    rw [Nat.min_eq_left hle] at hcut ⊢
    obtain ⟨hnone, hpage⟩ := hstop hcut
    refine ⟨?_, .inr (by rw [← Nat.add_assoc]; exact hnone)⟩
    by_cases hz : c = 0
    · rw [hz]
      exact hblock
    · have hal := hpage (by omega)
      unfold pgsize at hal haddr
      unfold bsize
      omega
  · -- there is no block
    rw [Nat.min_eq_right (by omega)]
    have hsum : i + (b * bsize - i) = b * bsize := by omega
    rw [hsum]
    exact ⟨Nat.mul_mod_left b bsize, .inl (by omega)⟩

/-- The largest file has no room for the chunk. -/
theorem ChunkAt.rejected {n1 : ℕ} (hat : ChunkAt s addr n d i) (hn : n < 2 ^ 31) (hlt : i < n)
    (hn1 : n1 = min (n - i) writeMax) (hrej : writeiRejects (s.written addr d i) i n1) :
    CutOff s addr n d i := by
  intro k hik hkn hkd hthere hfits
  have hbig : maxFileSize < i + n1 := by
    rcases hrej with h | h | h
    · rw [written_length] at h
      omega
    · rw [Nat.mod_eq_of_lt (by omega)] at h
      omega
    · rwa [Nat.mod_eq_of_lt (by omega)] at h
  -- the largest file ends inside this chunk, so at its beginning or before
  have hmax : maxFileSize = 274432 := rfl
  have hw : writeMax = 3072 := rfl
  rcases (hat hlt).2 with hchunk | hend | hnone
  · rw [hmax, hw] at hfits
    rw [hw] at hchunk hn1
    omega
  · omega
  · have hi := hthere i hik
    rw [hnone] at hi
    cases hi

/-- A whole chunk is written. -/
theorem ChunkAt.whole (hat : ChunkAt s addr n d i) (hlt : i < n)
    (hbyte : s.byte (addr + i) ≠ none) : ChunkAt s addr n d (i + writeMax) := by
  obtain ⟨hblock, hstart⟩ := hat hlt
  have hw : writeMax = 3 * bsize := rfl
  intro _
  refine ⟨by rw [hw, Nat.add_mul_mod_self_right]; exact hblock, ?_⟩
  rcases hstart with hchunk | hend | hnone
  · left
    rw [Nat.add_mod_right]
    exact hchunk
  · right
    left
    omega
  · exact absurd hnone hbyte

/-- **One chunk**: nothing is left that could be written, or bytes are written and the next chunk
begins behind them. -/
theorem chunk_spec {n1 : ℕ} (haddr : addr % pgsize = 0) (hn : n < 2 ^ 31) (hlt : i < n)
    (hat : ChunkAt s addr n d i) (hn1 : n1 = min (n - i) writeMax) {r : List UInt8 × ℤ}
    (hr : r = writei (s.written addr d i) i (s.userBytes (addr + i) n1)
      (chunkRoom s addr d room i n1)) :
    (r.2 ≤ 0 ∧ r.1 = s.written addr d i ∧ CutOff s addr n d i) ∨
      ∃ t, 0 < t ∧ i + t ≤ n ∧ r = (s.written addr d (i + t), (t : ℤ)) ∧
        ChunkAt s addr n d (i + t) := by
  have hsrc : (s.userBytes (addr + i) n1).length = n1 := userBytes_length
  by_cases hrej : writeiRejects (s.written addr d i) i n1
  · left
    rw [writei, hsrc, if_pos hrej] at hr
    subst hr
    exact ⟨by norm_num, rfl, hat.rejected hn hlt hn1 hrej⟩
  · have hcut : chunkRoom s addr d room i n1 < n1 → _ := chunkRoom_cut room haddr hlt hat
    have hread : chunkRoom s addr d room i n1 ≤ s.copyin (addr + i) n1 := Nat.min_le_left _ _
    obtain ⟨hall, hbytes, -⟩ := copyin_spec s (addr + i) n1
    generalize chunkRoom s addr d room i n1 = t at hr hcut hread
    have hwr : writei (s.written addr d i) i (s.userBytes (addr + i) n1) t = _ :=
      writei_eq (by rw [hsrc]; exact hrej) (by rw [hsrc]; intro h; exact (hcut h).1)
    rw [hsrc, Nat.min_eq_left (hread.trans hall), written_overlay (hread.trans hall)] at hwr
    rw [hwr] at hr
    subst hr
    by_cases hz : t = 0
    · -- nothing could be taken
      left
      subst hz
      refine ⟨le_rfl, rfl, ?_⟩
      intro k hik hkn hkd hthere _
      have hpos : 0 < n1 := by rw [hn1, show writeMax = 3072 from rfl]; omega
      rcases (hcut hpos).2 with hend | hnone
      · omega
      · have hi := hthere i hik
        rw [Nat.add_zero] at hnone
        rw [hnone] at hi
        cases hi
    · right
      refine ⟨t, by omega, by omega, rfl, ?_⟩
      intro hmore
      by_cases hfull : t < n1
      · obtain ⟨hb, hend⟩ := hcut hfull
        exact ⟨hb, .inr hend⟩
      · have htw : t = writeMax := by omega
        have hfirst := hbytes 0 (by omega)
        rw [Nat.add_zero] at hfirst
        rw [htw] at hmore ⊢
        exact hat.whole hlt (Option.isSome_iff_ne_none.1 (by simp [hfirst])) hmore

/-- **What the loop leaves**: the first bytes of the memory, and behind them nothing of the old file
that it could have written. -/
theorem writebackLoop_written (haddr : addr % pgsize = 0) (hn : n < 2 ^ 31) (hfuel : n ≤ fuel + i)
    (hi : i ≤ n) (hat : ChunkAt s addr n d i) :
    ∃ j, s.writebackLoop room 0 addr n fuel (s.written addr d i) i = s.written addr d j ∧
      j ≤ n ∧ CutOff s addr n d j := by
  have hdone : CutOff s addr n d n := by
    intro k hk hkn
    omega
  -- induction on the fuel; `chunk_spec` is the step
  induction fuel generalizing i with
  | zero =>
    have hin : i = n := by omega
    exact ⟨i, rfl, hi, hin ▸ hdone⟩
  | succ fuel ih =>
    unfold writebackLoop
    dsimp only
    by_cases hend : n ≤ i
    · rw [if_pos hend]
      have hin : i = n := by omega
      exact ⟨i, rfl, hi, hin ▸ hdone⟩
    · rw [if_neg hend, Nat.zero_add, Nat.mod_eq_of_lt (show i < 2 ^ 32 by omega)]
      generalize hr : writei (s.written addr d i) i _ _ = r
      have hstep := chunk_spec room haddr hn (by omega) hat rfl hr.symm
      rcases hstep with ⟨hneg, hd, hcut⟩ | ⟨t, hpos, hle, rfl, hnext⟩
      · rw [if_pos hneg]
        exact ⟨i, hd, hi, hcut⟩
      · rw [if_neg (by push_cast; omega)]
        exact ih (by omega) (by omega) (by simpa using hnext)

/-- The first bytes are those of the memory. -/
theorem written_getElem? {j k : ℕ} {b : UInt8} (hk : k < j) (hb : s.byte (addr + k) = some b) :
    (s.written addr d j)[k]? = some b := by
  have hlen : (s.userBytes addr j).length = j := userBytes_length
  rw [written, List.getElem?_append_left (by omega), userBytes, List.getElem?_map,
    List.getElem?_range hk, Option.map_some, hb, Option.getD_some]

/-- The others are those of the file. -/
theorem written_getElem?_ge {j k : ℕ} (hk : j ≤ k) : (s.written addr d j)[k]? = d[k]? := by
  have hlen : (s.userBytes addr j).length = j := userBytes_length
  rw [written, List.getElem?_append_right (by omega), hlen, List.getElem?_drop,
    Nat.add_sub_cancel' hk]

end MapState

end AgentOS
