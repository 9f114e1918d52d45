import AgentOS.Proof.VmaLists

/-!
# The mapping table stays whole

* `sysMmap_inv`, `sysMunmap_inv`: the two calls, when they are `Sound`.
* `copyFds_inv`, `copyVmas_inv`, `closeFds_inv`, `freeVmas_inv`: the loops of `fork` and `exit`.
* `VmaInv`, `vmaInv_step`: the invariant of the machine.
* **`vma_integrity`**: integrity in every run whose calls are `Sound`.
* `vma_integrity_breaks`: each kind of call left out can break it.
-/

namespace AgentOS

open Machine Chain

variable {s t u : VmaTable} {i j : Slot} {x y : VmaIndex} {f : FileIndex}
  {L : Slot → List VmaIndex}

/-! ### Addresses -/

theorem u64_of_lt {n : ℤ} (h0 : 0 ≤ n) (h : n < 2 ^ 64) : (u64 n : ℤ) = n := by
  unfold u64
  omega

/-- A length that is 0 as a `uint64` changes nothing. -/
theorem subInt_of_u64 {a : ℕ} {n : ℤ} (h : u64 n = 0) (ha : a < 2 ^ 64) : subInt a n = a := by
  unfold subInt
  unfold u64 at h ⊢
  omega

/-- What is left of a mapping that ended where `addr + n` is. -/
theorem subInt_tail {start stop addr : ℕ} {n : ℤ} (h : addInt addr n = stop)
    (hs : start ≤ addr) (ha : addr < stop) (hlt : stop < 2 ^ 64) :
    subInt stop n = addr ∧ subInt (stop - start) n = addr - start := by
  unfold addInt u64 at h
  unfold subInt u64
  omega

/-! ### `sys_mmap` and `sys_munmap` -/

/-- The last mapping of a list ends behind all others. -/
theorem VmaLists.stop_le_last (h : VmaLists s L) {q : VmaIndex} (hq : (L i).getLast? = some q) :
    ∀ y ∈ L i, (s.slots y).stop ≤ (s.slots q).stop := by
  obtain ⟨a, ha⟩ := List.getLast?_eq_some_iff.1 hq
  intro y hy
  have hsorted := h.sorted i
  have hfit := (h.fits i q (List.mem_of_getLast? hq)).1
  rw [ha] at hsorted hy
  rcases List.mem_append.1 hy with hy | hy
  · have hyq := (List.pairwise_append.1 hsorted).2.2 y hy q (by simp)
    omega
  · rw [List.mem_singleton.1 hy]

theorem CountOnly.lists (hu : CountOnly s u) (h : VmaLists s L) : VmaLists u L :=
  h.frame hu.slots hu.live hu.vma

/-- What a call keeps besides the lists. -/
structure CallKeeps (s t : VmaTable) : Prop where
  live : t.live = s.live
  ofile : t.ofile = s.ofile

/-- A pointer that `filedup` takes has a reference behind it. -/
theorem filedupAt_ref {p : FilePointer} {e : FtableEntry} (he : s.fileAt p = some e)
    (hu : s.filedupAt p = some u) : 1 ≤ e.ref := by
  cases p with
  | null => cases he
  | file f =>
    obtain rfl := Option.some.inj he
    simp only [VmaTable.filedupAt, VmaTable.filedup] at hu
    split at hu <;> [cases hu; skip]
    omega
  | other e' =>
    obtain rfl := Option.some.inj he
    simp only [VmaTable.filedupAt] at hu
    split at hu <;> [cases hu; skip]
    omega

theorem sysMmap_inv {length : ℤ} {prot flags : BitVec 32} {fd : ℤ} {word : FilePointer}
    (h : VmaLists s L) (hr : RefsOk s) (hi : s.live i = true)
    (hok : s.Sound (.mmap i length prot flags fd word))
    (hn : s.sysMmap i length prot flags fd word = some t) :
    ∃ L', VmaLists t L' ∧ RefsOk t ∧ CallKeeps s t := by
  simp only [VmaTable.sysMmap, Option.bind_eq_bind, Option.bind_eq_some_iff] at hn
  obtain ⟨e, he, hn⟩ := hn
  cases hp : mmapPermission e prot flags with
  | none =>
    rw [hp] at hn
    obtain rfl := Option.some.inj hn
    exact ⟨L, h, hr, rfl, rfl⟩
  | some permission =>
    rw [hp] at hn
    obtain ⟨x, hx, hn⟩ := Option.bind_eq_some_iff.1 hn
    obtain ⟨u, hu, hn⟩ := Option.bind_eq_some_iff.1 hn
    obtain ⟨last, hlast, hn⟩ := Option.bind_eq_some_iff.1 hn
    obtain ⟨hfile, hpos, hlt, hfresh⟩ := hok e he (by rw [hp]; rfl) (filedupAt_ref he hu)
    -- the pointer is an entry of `ftable`
    obtain ⟨f, hf⟩ : ∃ f, s.ofileAt i fd word = .file f := by
      cases hw : s.ofileAt i fd word with
      | file f => exact ⟨f, rfl⟩
      | null =>
        rw [hw] at hfile
        cases hfile
      | other e' =>
        rw [hw] at hfile
        cases hfile
    rw [hf] at hu hn
    have hx0 : (s.slots x).length = 0 := by simpa using Table.first_some hx
    have hud := filedup_only hu
    have hslots := hud.slots
    have hend := (h.linked i hi).last (h.length_le hi)
    rw [hud.nexts, hud.vma, hend] at hlast
    obtain rfl := Option.some.inj hlast
    have hadd := hlt _ hend
    have hstart : s.mmapStart (L i).getLast? = u.mmapStart (L i).getLast? := by
      unfold VmaTable.mmapStart
      rw [hslots]
    rw [hstart] at hadd
    generalize hst : u.mmapStart (L i).getLast? = start at hn hadd
    have hu64 := u64_of_lt hpos.le (by omega : length < 2 ^ 64)
    have hmod : start % 2 ^ 64 = start := Nat.mod_eq_of_lt (by omega)
    have hstop : addInt start length = start + u64 length := by
      unfold addInt
      have hs := u64_of_lt (by omega : (0 : ℤ) ≤ start + length) hadd
      omega
    have hnext : u.mmapNext (L i).getLast? x = none := by
      unfold VmaTable.mmapNext
      cases hq : (L i).getLast? with
      | none =>
        -- an empty list, so the slot is fresh
        have hnil : L i = [] := List.getLast?_eq_none_iff.1 hq
        have hempty : s.vma i = none := by
          have hhead := (h.linked i hi).head
          rw [hnil] at hhead
          exact hhead
        simp only [hslots]
        exact hfresh hempty x hx
      | some q => rfl
    have hbehind : ∀ y ∈ L i, (u.slots y).stop ≤ start := by
      intro y hy
      rw [hslots, ← hst]
      cases hq : (L i).getLast? with
      | none =>
        rw [List.getLast?_eq_none_iff.1 hq] at hy
        cases hy
      | some q =>
        have hle := h.stop_le_last hq y hy
        have hround := le_pgroundup (s.slots q).stop
        simp only [VmaTable.mmapStart, hslots]
        omega
    obtain rfl := Option.some.inj hn
    rw [hmod, hnext]
    obtain ⟨hl, ho, -⟩ := link_fields (u.setSlot x
      { start := start, stop := addInt start length, length := u64 length, off := 0,
        permission := permission, flags := flags, file := some f, next := none }) i
      (L i).getLast? x
    refine ⟨_, (hud.lists h).append (hud.live ▸ hi) (hslots ▸ hx0) rfl ?_ hstop ?_
      hbehind (by simp [FilePointer.entry]), hr.entered hx0 ?_ rfl hu _, hl.trans hud.live, ho.trans hud.ofile⟩
    · show 0 < u64 length
      omega
    · show addInt start length < 2 ^ 64
      omega
    · show 0 < u64 length
      omega

/-- The whole mapping goes. -/
theorem munmap_whole {a b : List VmaIndex} (h : VmaLists s L) (hr : RefsOk s)
    (hL : L i = a ++ x :: b) (hf : (s.slots x).file = some f) (hu : s.fileclose f = some u) :
    ∃ L', VmaLists (u.cut i a.getLast? x) L' ∧ RefsOk (u.cut i a.getLast? x) ∧
      CallKeeps s (u.cut i a.getLast? x) := by
  have hud := fileclose_only hu
  obtain ⟨hcl, hco, hcf⟩ := cut_fields u i a.getLast? x
  have hheld : s.holder (.inr x) = some f := (h.holder (i := i) (by simp [hL])).trans hf
  have hsame : ∀ y, y ≠ x → SameData ((u.cut i a.getLast? x).slots y) (s.slots y) := by
    intro y hy
    rw [← hud.slots]
    exact cut_data u i _ hy
  exact ⟨_, (hud.lists h).cut hL,
    hr.left hheld hu (hco.trans hud.ofile) hcf hsame (cut_length ..), hcl.trans hud.live,
    hco.trans hud.ofile⟩

/-- A prefix of no bytes goes. -/
theorem munmap_nothing {length : ℤ} (h : VmaLists s L) (hr : RefsOk s) (hx : x ∈ L i)
    (hz : u64 length = 0) : VmaLists (s.setSlot x ((s.slots x).freeHead length)) L ∧
      RefsOk (s.setSlot x ((s.slots x).freeHead length)) := by
  obtain ⟨hfit, hlt⟩ := h.fits i x hx
  have hpos := (h.used x).2 ⟨i, hx⟩
  have hstart : subInt (s.slots x).start length = (s.slots x).start :=
    subInt_of_u64 hz (by omega)
  have hlen : subInt (s.slots x).length length = (s.slots x).length :=
    subInt_of_u64 hz (by omega)
  have hholder : (s.setSlot x ((s.slots x).freeHead length)).holder = s.holder := by
    refine holder_congr rfl fun y => ?_
    by_cases hy : y = x
    · subst hy
      simp only [VmaTable.setSlot, Function.update_self, VmaSlot.freeHead]
      exact ⟨hlen, trivial⟩
    · simp only [VmaTable.setSlot, Function.update_of_ne hy]
      exact ⟨trivial, trivial⟩
  refine ⟨h.shrink hx rfl rfl hstart ?_ ?_ le_rfl, fun g => ?_⟩
  · show 0 < subInt (s.slots x).length length
    omega
  · show (s.slots x).stop = subInt (s.slots x).start length + subInt (s.slots x).length length
    omega
  · rw [hholder]
    exact hr g

/-- The end of the mapping goes, from `addr` on. -/
theorem munmap_tail {addr : ℕ} {length : ℤ} (h : VmaLists s L) (hr : RefsOk s) (hx : x ∈ L i)
    (hstart : (s.slots x).start < addr) (hstop : addr < (s.slots x).stop)
    (hend : addInt addr length = (s.slots x).stop) :
    VmaLists (s.setSlot x ((s.slots x).freeTail length)) L ∧
      RefsOk (s.setSlot x ((s.slots x).freeTail length)) := by
  obtain ⟨hfit, hlt⟩ := h.fits i x hx
  obtain ⟨hs₁, hs₂⟩ := subInt_tail hend hstart.le hstop hlt
  have hlen : (s.slots x).stop - (s.slots x).start = (s.slots x).length := by omega
  rw [hlen] at hs₂
  have hpos : 0 < ((s.slots x).freeTail length).length := by
    show 0 < subInt (s.slots x).length length
    omega
  have hholder : (s.setSlot x ((s.slots x).freeTail length)).holder = s.holder := by
    rw [holder_setSlot, if_pos hpos]
    exact Function.update_eq_self_iff.2 ((h.holder hx).symm)
  refine ⟨h.shrink hx rfl rfl rfl hpos ?_ ?_, fun g => ?_⟩
  · show subInt (s.slots x).stop length = (s.slots x).start + subInt (s.slots x).length length
    omega
  · show subInt (s.slots x).stop length ≤ (s.slots x).stop
    omega
  · rw [hholder]
    exact hr g

theorem sysMunmap_inv {addr : ℕ} {length : ℤ} (h : VmaLists s L) (hr : RefsOk s)
    (hi : s.live i = true) (hok : s.Sound (.munmap i addr length))
    (hn : s.sysMunmap i addr length = some t) :
    ∃ L', VmaLists t L' ∧ RefsOk t ∧ CallKeeps s t := by
  simp only [VmaTable.sysMunmap, Option.bind_eq_bind, Option.bind_eq_some_iff] at hn
  obtain ⟨r, hfind, hn⟩ := hn
  have hsearch := (h.linked i hi).find
    (p := fun x => (s.slots x).start ≤ addr && addr < (s.slots x).stop) (h.length_le hi) none
  rcases hsearch with ⟨hnone, -⟩ | ⟨a, x, b, hL, hsome, hx, -⟩
  · obtain rfl := Option.some.inj (hfind.symm.trans hnone)
    obtain rfl := Option.some.inj hn
    exact ⟨L, h, hr, rfl, rfl⟩
  obtain rfl := Option.some.inj (hfind.symm.trans hsome)
  have hmem : x ∈ L i := by simp [hL]
  have hsound : addr = (s.slots x).start → u64 length = (s.slots x).length ∨ u64 length = 0 :=
    hok _ hfind x rfl
  simp only [Bool.and_eq_true, decide_eq_true_eq] at hx
  simp only at hn
  split at hn <;> [cases hn; skip]
  rename_i hedge
  split at hn
  · rename_i haddr
    split at hn
    · obtain ⟨f, hf, hn⟩ := Option.bind_eq_some_iff.1 hn
      obtain ⟨u, hu, hn⟩ := Option.bind_eq_some_iff.1 hn
      rw [Option.or_none] at hn
      obtain rfl : u.cut i a.getLast? x = t := Option.some.inj hn
      exact munmap_whole h hr hL hf hu
    · rename_i hwhole
      obtain rfl := Option.some.inj hn
      obtain ⟨hl, hrefs⟩ := munmap_nothing h hr hmem ((hsound haddr).resolve_left hwhole)
      exact ⟨L, hl, hrefs, rfl, rfl⟩
  · rename_i haddr
    have hend : addInt addr length = (s.slots x).stop := by
      by_contra hne
      exact hedge ⟨haddr, hne⟩
    obtain rfl := Option.some.inj hn
    obtain ⟨hl, hrefs⟩ := munmap_tail h hr hmem (lt_of_le_of_ne hx.1 (Ne.symm haddr)) hx.2 hend
    exact ⟨L, hl, hrefs, rfl, rfl⟩

/-! ### Descriptors -/

/-- What a loop over descriptors leaves alone. -/
structure FdsOnly (s t : VmaTable) : Prop where
  slots : t.slots = s.slots
  live : t.live = s.live
  vma : t.vma = s.vma

theorem FdsOnly.lists (hf : FdsOnly s t) (h : VmaLists s L) : VmaLists t L :=
  h.frame hf.slots hf.live hf.vma

theorem FdsOnly.trans (h : FdsOnly s t) (h' : FdsOnly t u) : FdsOnly s u :=
  ⟨h'.slots.trans h.slots, h'.live.trans h.live, h'.vma.trans h.vma⟩

/-- A descriptor takes a reference. -/
theorem RefsOk.openFd (hr : RefsOk s) {fd : Fin nofile} (hfd : s.ofile i fd = none)
    (hu : s.filedup f = some u) : RefsOk (u.setFd i fd (some f)) ∧
      FdsOnly s (u.setFd i fd (some f)) := by
  refine ⟨hr.take hu (k := .inl (i, fd)) hfd rfl ?_, ?_⟩
  · rw [holder_setFd]
    obtain rfl := filedup_eq hu
    rfl
  · obtain rfl := filedup_eq hu
    exact ⟨rfl, rfl, rfl⟩

/-- A descriptor drops its reference. -/
theorem RefsOk.closeFd (hr : RefsOk s) {fd : Fin nofile} (hfd : s.ofile i fd = some f)
    (hu : s.fileclose f = some u) : RefsOk (u.setFd i fd none) ∧ FdsOnly s (u.setFd i fd none) := by
  refine ⟨hr.drop hu (k := .inl (i, fd)) hfd rfl ?_, ?_⟩
  · rw [holder_setFd]
    obtain ⟨-, rfl⟩ := fileclose_eq hu
    rfl
  · obtain ⟨-, rfl⟩ := fileclose_eq hu
    exact ⟨rfl, rfl, rfl⟩

theorem setFd_ofile (s : VmaTable) (i : Slot) (fd : Fin nofile) (f : Option FileIndex) (j : Slot)
    (fd' : Fin nofile) :
    (s.setFd i fd f).ofile j fd' = if j = i ∧ fd' = fd then f else s.ofile j fd' := by
  by_cases hj : j = i
  · subst hj
    by_cases hfd : fd' = fd
    · subst hfd
      simp [VmaTable.setFd]
    · simp [VmaTable.setFd, hfd]
  · simp [VmaTable.setFd, hj]

/-- **The loop of `fork` over the descriptors**, into a row that is empty. -/
theorem copyFds_inv {fds : List (Fin nofile)} (hnd : fds.Nodup) (hr : RefsOk s)
    (hnone : ∀ fd ∈ fds, s.ofile j fd = none) (hn : s.copyFds i j fds = some t) :
    RefsOk t ∧ FdsOnly s t ∧ ∀ k, k ≠ j → t.ofile k = s.ofile k := by
  induction fds generalizing s with
  | nil =>
    obtain rfl := Option.some.inj hn
    exact ⟨hr, ⟨rfl, rfl, rfl⟩, fun _ _ => rfl⟩
  | cons fd fds ih =>
    obtain ⟨hfd, hnd⟩ := List.nodup_cons.1 hnd
    simp only [VmaTable.copyFds] at hn
    split at hn
    · exact ih hnd hr (fun fd' h => hnone fd' (by simp [h])) hn
    · rename_i f hf
      obtain ⟨u, hu, hn⟩ := Option.bind_eq_some_iff.1 hn
      obtain ⟨hru, hfu⟩ := hr.openFd (hnone fd (by simp)) hu
      have hofile := (filedup_only hu).ofile
      have hrow : ∀ fd' ∈ fds, (u.setFd j fd (some f)).ofile j fd' = none := by
        intro fd' h'
        have hne : fd' ≠ fd := by
          rintro rfl
          exact hfd h'
        rw [setFd_ofile, if_neg (by simp [hne]), hofile]
        exact hnone fd' (by simp [h'])
      obtain ⟨hrt, hft, hot⟩ := ih hnd hru hrow hn
      refine ⟨hrt, hfu.trans hft, fun k hk => ?_⟩
      rw [hot k hk]
      funext fd'
      rw [setFd_ofile, if_neg (by simp [hk]), hofile]

/-- **The loop of `exit` over the descriptors.** -/
theorem closeFds_inv {fds : List (Fin nofile)} (hr : RefsOk s)
    (hn : s.closeFds i fds = some t) :
    RefsOk t ∧ FdsOnly s t ∧ (∀ k, k ≠ i → t.ofile k = s.ofile k) ∧
      ∀ fd, fd ∈ fds ∨ s.ofile i fd = none → t.ofile i fd = none := by
  induction fds generalizing s with
  | nil =>
    obtain rfl := Option.some.inj hn
    exact ⟨hr, ⟨rfl, rfl, rfl⟩, fun _ _ => rfl, fun fd h => by simpa using h⟩
  | cons fd fds ih =>
    simp only [VmaTable.closeFds] at hn
    split at hn
    · rename_i hf
      obtain ⟨hrt, hft, hot, hit⟩ := ih hr hn
      refine ⟨hrt, hft, hot, fun fd' h => hit fd' ?_⟩
      rcases h with h | h
      · rcases List.mem_cons.1 h with rfl | h
        · exact .inr hf
        · exact .inl h
      · exact .inr h
    · rename_i f hf
      obtain ⟨u, hu, hn⟩ := Option.bind_eq_some_iff.1 hn
      obtain ⟨hru, hfu⟩ := hr.closeFd hf hu
      have hofile := (fileclose_only hu).ofile
      obtain ⟨hrt, hft, hot, hit⟩ := ih hru hn
      refine ⟨hrt, hfu.trans hft, fun k hk => ?_, fun fd' h => hit fd' ?_⟩
      · rw [hot k hk]
        funext fd'
        rw [setFd_ofile, if_neg (by simp [hk]), hofile]
      · rw [setFd_ofile]
        by_cases hfd : fd' = fd
        · right
          rw [if_pos ⟨rfl, hfd⟩]
        · rw [if_neg (by simp [hfd]), hofile]
          simpa [hfd] using h

/-! ### The loops over the mappings -/

theorem filedup_setSlot (s : VmaTable) (x : VmaIndex) (v : VmaSlot) (f : FileIndex) :
    (s.setSlot x v).filedup f = (s.filedup f).map fun u => u.setSlot x v := by
  unfold VmaTable.filedup
  by_cases h : (s.files f).ref < 1
  · rw [if_pos h]
    exact if_pos h
  · rw [if_neg h]
    exact if_neg h

/-- The copy of slot `z` in the free slot `x`, at the end of the list of process `j`. -/
def VmaTable.copied (w : VmaTable) (j : Slot) (pre : Option VmaIndex) (x : VmaIndex)
    (v : VmaSlot) : VmaTable :=
  (w.setSlot x { v with next := none }).link j pre x

/-- The links of the parent stay. -/
theorem copied_nexts {z : VmaIndex} (hij : i ≠ j) (h : VmaLists s L) (hwd : CountOnly s u)
    (hx0 : (s.slots x).length = 0) (hy : y ∈ L i) :
    (u.copied j (L j).getLast? x (s.slots z)).nexts y = s.nexts y := by
  have hyx : y ≠ x := fun he => h.not_mem hx0 i (he ▸ hy)
  unfold VmaTable.copied
  cases hq : (L j).getLast? with
  | none =>
    show (u.setSlot x _).nexts y = _
    rw [nexts_setSlot, Function.update_of_ne hyx, hwd.nexts]
  | some q =>
    have hyq : y ≠ q := by
      rintro rfl
      exact hij (h.one i j y hy (List.mem_of_getLast? hq))
    show ((u.setSlot x _).setNext q (some x)).nexts y = _
    rw [nexts_setNext, Function.update_of_ne hyq, nexts_setSlot, Function.update_of_ne hyx,
      hwd.nexts]

/-- **A round of the loop of `fork`**: the rest of the parent's list is behind what the child has. -/
theorem copyVma_round {z : VmaIndex} {p r : List VmaIndex} (hij : i ≠ j) (h : VmaLists s L)
    (hr : RefsOk s) (hj : s.live j = true) (hL : L i = p ++ z :: r)
    (hrest : Chain.Linked s.nexts (s.slots z).next r)
    (hbefore : ∀ y ∈ L j, ∀ z' ∈ z :: r, (s.slots y).stop ≤ (s.slots z').start)
    (hx0 : (s.slots x).length = 0) (hf : (s.slots z).file = some f) (hu : s.filedup f = some u)
    (he : t = u.copied j (L j).getLast? x (s.slots z)) :
    VmaLists t (Function.update L j (L j ++ [x])) ∧ RefsOk t ∧ CallKeeps s t ∧
      Chain.Linked t.nexts (t.slots z).next r ∧
      ∀ y ∈ L j ++ [x], ∀ z' ∈ r, (t.slots y).stop ≤ (t.slots z').start := by
  have hud := filedup_only hu
  have hz : z ∈ L i := by simp [hL]
  have hxj := h.not_mem hx0
  have hpos := (h.used z).2 ⟨i, hz⟩
  obtain ⟨hfit, hlt⟩ := h.fits i z hz
  have hlists := (hud.lists h).append (i := j) (v := { s.slots z with next := none })
    (hud.live ▸ hj) (hud.slots ▸ hx0) rfl hpos hfit hlt
    (fun y hy => by rw [hud.slots]; exact hbefore y hy z (by simp)) (by simp [hf])
  have hrefs := hr.entered (i := j) (v := { s.slots z with next := none }) hx0 hpos hf hu
    (L j).getLast?
  obtain ⟨hll, hlo, -⟩ := link_fields (u.setSlot x { s.slots z with next := none }) j
    (L j).getLast? x
  have hdata := fun y => entered_data u j (L j).getLast? x y { s.slots z with next := none }
  have hsub : ∀ y ∈ r, y ∈ L i := fun y hy => by simp [hL, hy]
  subst he
  refine ⟨hlists, hrefs, ⟨hll.trans hud.live, hlo.trans hud.ofile⟩, ?_, fun y hy z' hz' => ?_⟩
  · have hzn := copied_nexts (z := z) hij h hud hx0 hz
    change ((u.copied j (L j).getLast? x (s.slots z)).slots z).next = (s.slots z).next at hzn
    rw [hzn]
    exact hrest.frame fun y hy => copied_nexts hij h hud hx0 (hsub y hy)
  · have hsorted := h.sorted i
    rw [hL] at hsorted
    -- what is still to come lies behind `z`, and so behind its copy
    have hzr := (List.pairwise_cons.1 (List.pairwise_append.1 hsorted).2.1).1
    have hzx : z' ≠ x := fun he => hxj i (he ▸ hsub z' hz')
    unfold VmaTable.copied
    rw [(hdata y).stop, (hdata z').start, if_neg hzx, hud.slots]
    rcases List.mem_append.1 hy with hy | hy
    · have hyx : y ≠ x := fun he => hxj j (he ▸ hy)
      rw [if_neg hyx]
      exact hbefore y hy z' (by simp [hz'])
    · rw [if_pos (List.mem_singleton.1 hy)]
      exact hzr z' hz'

/-- **The loop of `fork` over the mappings**: what the child has so far lies before what is still to
come, and each round puts one more slot at the end of its list. -/
theorem copyVmas_inv {fuel : ℕ} {pv pre : Option VmaIndex} {p r : List VmaIndex} (hij : i ≠ j)
    (h : VmaLists s L) (hr : RefsOk s) (hi : s.live i = true) (hj : s.live j = true)
    (hL : L i = p ++ r) (hpv : Chain.Linked s.nexts pv r) (hpre : pre = (L j).getLast?)
    (hbefore : ∀ y ∈ L j, ∀ z ∈ r, (s.slots y).stop ≤ (s.slots z).start)
    (hn : VmaTable.copyVmas j fuel s pv pre = some t) :
    ∃ L', VmaLists t L' ∧ RefsOk t ∧ CallKeeps s t := by
  induction fuel generalizing s L pv pre p r with
  | zero =>
    cases pv with
    | none =>
      obtain rfl := Option.some.inj hn
      exact ⟨L, h, hr, rfl, rfl⟩
    | some z => cases hn
  | succ fuel ih =>
    cases pv with
    | none =>
      obtain rfl := Option.some.inj hn
      exact ⟨L, h, hr, rfl, rfl⟩
    | some z =>
      cases hpv with
      | @cons _ r hr' =>
      simp only [VmaTable.copyVmas, Option.bind_eq_bind, Option.bind_eq_some_iff] at hn
      obtain ⟨x, hx, f, hf, u, hu, hn⟩ := hn
      have hx0 : (s.slots x).length = 0 := by simpa using Table.first_some hx
      have hf' : (s.slots z).file = some f := by
        simpa [VmaTable.setSlot] using hf
      rw [filedup_setSlot, Option.map_eq_some_iff] at hu
      obtain ⟨w, hw, rfl⟩ := hu
      subst hpre
      obtain ⟨hlists, hrefs, hkeep, hlinked, hnext⟩ :=
        copyVma_round hij h hr hj hL hr' hbefore hx0 hf' hw rfl
      obtain ⟨L', hlt, hrt, hkt⟩ := ih hlists hrefs (hkeep.live ▸ hi) (hkeep.live ▸ hj)
        (p := p ++ [z]) (by rw [Function.update_of_ne hij, hL]; simp) hlinked
        (by rw [Function.update_self]; simp) (by rw [Function.update_self]; exact hnext) hn
      exact ⟨L', hlt, hrt, hkt.live.trans hkeep.live, hkt.ofile.trans hkeep.ofile⟩

/-- The list of a process with this head. -/
theorem linked_setHead {pv : Option VmaIndex} (h : VmaLists (s.setHead i pv) L)
    (hi : s.live i = true) : Chain.Linked s.nexts pv (L i) := by
  have hown := h.linked i hi
  have hhead : (s.setHead i pv).vma i = pv := by simp [VmaTable.setHead]
  rwa [hhead] at hown

/-- A round of the loop of `exit`: the head `x` goes, and the list is the rest. -/
theorem freeVma_round {l : List VmaIndex} (h : VmaLists (s.setHead i (some x)) L) (hr : RefsOk s)
    (hi : s.live i = true) (hL : L i = x :: l) (hf : (s.slots x).file = some f)
    (hu : s.fileclose f = some u) :
    VmaLists ((u.setSlot x { u.slots x with next := none, length := 0 }).setHead i
        (u.slots x).next) (Function.update L i l) ∧
      RefsOk (u.setSlot x { u.slots x with next := none, length := 0 }) := by
  have hud := fileclose_only hu
  have hx : x ∈ L i := by simp [hL]
  have hlinked := linked_setHead h hi
  have hnd := hlinked.nodup
  rw [hL] at hlinked hnd
  have hdata : ∀ z, z ≠ x → SameData
      ((u.setSlot x { u.slots x with next := none, length := 0 }).slots z) (s.slots z) := by
    intro z hz
    simp only [VmaTable.setSlot, Function.update_of_ne hz, hud.slots]
    exact SameData.rfl' _
  have h0 : ((u.setSlot x { u.slots x with next := none, length := 0 }).slots x).length = 0 := by
    simp [VmaTable.setSlot]
  have hheld : s.holder (.inr x) = some f := (h.holder hx).trans hf
  refine ⟨h.drop (a := []) hL hud.live (fun z hz => hdata z hz) h0 fun j hj => ?_,
    hr.left hheld hu hud.ofile rfl hdata h0⟩
  have hnexts : ((u.setSlot x { u.slots x with next := none, length := 0 }).setHead i
      (u.slots x).next).nexts = Function.update s.nexts x none := by
    show (u.setSlot x _).nexts = _
    rw [nexts_setSlot, hud.nexts]
  rw [hnexts, List.nil_append]
  by_cases hji : j = i
  · -- the list itself, from the next slot on
    subst hji
    rw [Function.update_self]
    simp only [VmaTable.setHead, Function.update_self]
    have hnext : (u.slots x).next = s.nexts x := by rw [hud.slots]; rfl
    rw [hnext]
    cases hlinked with
    | cons hrest =>
      refine hrest.frame fun z hz => Function.update_of_ne ?_ _ _
      rintro rfl
      exact (List.nodup_cons.1 hnd).1 hz
  · rw [Function.update_of_ne hji]
    have hvma : ((u.setSlot x { u.slots x with next := none, length := 0 }).setHead i
        (u.slots x).next).vma j = (s.setHead i (some x)).vma j := by
      simp only [VmaTable.setHead, VmaTable.setSlot, Function.update_of_ne hji, hud.vma]
    rw [hvma]
    refine h.linked_others (fun z hz => Function.update_of_ne ?_ _ _) hj hji
    rintro rfl
    exact hz hx

/-- **The loop of `exit` over the mappings**: each round takes the head out; `p->vma` would follow
it if the loop stored it. -/
theorem freeVmas_inv {fuel : ℕ} {pv : Option VmaIndex} (h : VmaLists (s.setHead i pv) L)
    (hr : RefsOk s) (hi : s.live i = true) (hn : VmaTable.freeVmas fuel s pv = some t) :
    ∃ L', VmaLists (t.setHead i none) L' ∧ L' i = [] ∧ RefsOk t ∧ CallKeeps s t := by
  induction fuel generalizing s L pv with
  | zero =>
    cases pv with
    | none =>
      obtain rfl := Option.some.inj hn
      have hown := linked_setHead h hi
      cases hl : L i with
      | nil => exact ⟨L, h, hl, hr, rfl, rfl⟩
      | cons y l =>
        rw [hl] at hown
        cases hown
    | some v => cases hn
  | succ fuel ih =>
    have hown := linked_setHead h hi
    cases pv with
    | none =>
      obtain rfl := Option.some.inj hn
      cases hl : L i with
      | nil => exact ⟨L, h, hl, hr, rfl, rfl⟩
      | cons y l =>
        rw [hl] at hown
        cases hown
    | some v =>
      cases hl : L i with
      | nil =>
        rw [hl] at hown
        cases hown
      | cons y l =>
        rw [hl] at hown
        cases hown with
        | cons hrest =>
        simp only [VmaTable.freeVmas, Option.bind_eq_bind, Option.bind_eq_some_iff] at hn
        obtain ⟨f, hf, u, hu, hn⟩ := hn
        have hud := fileclose_only hu
        obtain ⟨hlists, hrefs⟩ := freeVma_round h hr hi hl hf hu
        obtain ⟨L', hlt, hit, hrt, hkt⟩ := ih hlists hrefs (hud.live ▸ hi) hn
        exact ⟨L', hlt, hit, hrt, hkt.live.trans hud.live, hkt.ofile.trans hud.ofile⟩

/-! ### The machine -/

/-- **The invariant**: some lists, the references, and no descriptor of a process that is gone. -/
structure VmaInv (s : VmaTable) : Prop where
  lists : ∃ L, VmaLists s L
  refs : RefsOk s
  closed : ∀ i fd, s.live i = false → s.ofile i fd = none

theorem VmaInv.kept (h : VmaInv s) (hl : VmaLists t L) (hr : RefsOk t) (hk : CallKeeps s t) :
    VmaInv t :=
  ⟨⟨L, hl⟩, hr, fun i fd hi => by rw [hk.ofile]; exact h.closed i fd (hk.live ▸ hi)⟩

theorem VmaInv.fork (h : VmaInv s) (hi : s.live i = true) (hj : s.live j = false)
    (hn : s.fork i j = some t) : VmaInv t := by
  obtain ⟨⟨L, hl⟩, hr, hc⟩ := h
  simp only [VmaTable.fork, Option.bind_eq_bind, Option.bind_eq_some_iff] at hn
  obtain ⟨u, hu, hn⟩ := hn
  have hij : i ≠ j := by
    rintro rfl
    rw [hi] at hj
    cases hj
  obtain ⟨hru, hfu, hou⟩ := copyFds_inv (List.nodup_finRange _) hr (fun fd _ => hc j fd hj) hu
  have hlu := hfu.lists hl
  -- the child becomes live with an empty list
  have hborn : VmaLists ((u.setLive j true).setHead j none) L := by
    refine ⟨fun k hk => ?_, fun k hk => ?_, hlu.one, hlu.used, hlu.fits, hlu.sorted, hlu.held⟩
    · by_cases hkj : k = j
      · subst hkj
        rw [hl.dead k hj]
        simp only [VmaTable.setHead, Function.update_self]
        exact .nil
      · simp only [VmaTable.setHead, VmaTable.setLive, Function.update_of_ne hkj] at hk ⊢
        exact hlu.linked k hk
    · have hkj : k ≠ j := by
        rintro rfl
        simp [VmaTable.setHead, VmaTable.setLive] at hk
      simp only [VmaTable.setHead, VmaTable.setLive, Function.update_of_ne hkj] at hk
      exact hlu.dead k hk
  have hil : ((u.setLive j true).setHead j none).live i = true := by
    simp only [VmaTable.setHead, VmaTable.setLive, Function.update_of_ne hij, hfu.live]
    exact hi
  have hjl : ((u.setLive j true).setHead j none).live j = true := by
    simp [VmaTable.setHead, VmaTable.setLive]
  obtain ⟨L', hlt, hrt, hkt⟩ := copyVmas_inv (p := []) (r := L i) hij hborn hru hil hjl rfl
    (hborn.linked i hil) (by rw [hl.dead j hj]; rfl) (by rw [hl.dead j hj]; simp) hn
  refine ⟨⟨L', hlt⟩, hrt, fun k fd hk => ?_⟩
  have hkj : k ≠ j := by
    rintro rfl
    rw [hkt.live, hjl] at hk
    cases hk
  rw [hkt.live] at hk
  simp only [VmaTable.setHead, VmaTable.setLive, Function.update_of_ne hkj, hfu.live] at hk
  rw [hkt.ofile]
  show u.ofile k fd = none
  rw [hou k hkj]
  exact hc k fd hk

theorem VmaInv.exit (h : VmaInv s) (hi : s.live i = true) (hn : s.exit i = some t) : VmaInv t := by
  obtain ⟨⟨L, hl⟩, hr, hc⟩ := h
  simp only [VmaTable.exit, Option.bind_eq_bind, Option.bind_eq_some_iff] at hn
  obtain ⟨u, hu, w, hw, hn⟩ := hn
  obtain rfl := Option.some.inj hn
  have hself : s.setHead i (s.vma i) = s := by
    unfold VmaTable.setHead
    rw [Function.update_eq_self]
  obtain ⟨L', hlu, hiu, hru, hku⟩ := freeVmas_inv (hself.symm ▸ hl) hr hi hu
  obtain ⟨hrw, hfw, how, hiw⟩ := closeFds_inv hru hw
  have hslots : (w.setLive i false).slots = u.slots := hfw.slots
  have hnexts : w.nexts = u.nexts := by
    unfold VmaTable.nexts
    rw [hfw.slots]
  refine ⟨⟨L', fun k hk => ?_, fun k hk => ?_, hlu.one, ?_, ?_, ?_, ?_⟩, hrw, fun k fd hk => ?_⟩
  · have hki : k ≠ i := by
      rintro rfl
      simp [VmaTable.setLive] at hk
    simp only [VmaTable.setLive, Function.update_of_ne hki, hfw.live] at hk
    have hown := hlu.linked k hk
    simp only [VmaTable.setHead, Function.update_of_ne hki] at hown
    show Chain.Linked w.nexts (w.vma k) (L' k)
    rw [hnexts, hfw.vma]
    exact hown
  · by_cases hki : k = i
    · subst hki
      exact hiu
    · simp only [VmaTable.setLive, Function.update_of_ne hki, hfw.live] at hk
      exact hlu.dead k hk
  · rw [hslots]
    exact hlu.used
  · rw [hslots]
    exact hlu.fits
  · rw [hslots]
    exact hlu.sorted
  · rw [hslots]
    exact hlu.held
  · by_cases hki : k = i
    · subst hki
      exact hiw fd (.inl (by simp))
    · simp only [VmaTable.setLive, Function.update_of_ne hki, hfw.live, hku.live] at hk
      show w.ofile k fd = none
      rw [how k hki, hku.ofile]
      exact hc k fd hk

/-- A descriptor of a live process changes. -/
theorem VmaInv.fd (h : VmaInv s) (hi : s.live i = true) (hr : RefsOk t) (hf : FdsOnly s t)
    (ho : ∀ k, k ≠ i → t.ofile k = s.ofile k) : VmaInv t := by
  obtain ⟨⟨L, hl⟩, -, hc⟩ := h
  refine ⟨⟨L, hf.lists hl⟩, hr, fun k fd hk => ?_⟩
  rw [hf.live] at hk
  have hki : k ≠ i := by
    rintro rfl
    rw [hi] at hk
    cases hk
  rw [ho k hki]
  exact hc k fd hk

theorem setFd_others (s : VmaTable) {i k : Slot} (hk : k ≠ i) (fd : Fin nofile)
    (f : Option FileIndex) : (s.setFd i fd f).ofile k = s.ofile k := by
  funext fd'
  rw [setFd_ofile, if_neg (by simp [hk])]

/-- A file that nobody holds is opened. -/
theorem RefsOk.opened (hr : RefsOk s) {fd : Fin nofile} (hfd : s.ofile i fd = none)
    (hf : (s.files f).ref = 0) (readable writable : Bool) :
    RefsOk ((s.setFile f ⟨1, readable, writable⟩).setFd i fd (some f)) := by
  intro g
  have hg := hr g
  rw [holder_setFd]
  have hh : (s.setFile f ⟨1, readable, writable⟩).holder = s.holder := rfl
  rw [hh, RefCount.holders_take (show s.holder (.inl (i, fd)) = none from hfd), ← hg]
  show (Function.update s.files f ⟨1, readable, writable⟩ g).ref = _
  by_cases hgf : g = f
  · subst hgf
    rw [Function.update_self, if_pos rfl, hf]
  · rw [Function.update_of_ne hgf, if_neg (Ne.symm hgf)]
    rfl

theorem vmaInv_step (s : VmaTable) (l : VmaLabel) (t : VmaTable) (h : VmaInv s)
    (hok : s.Sound l) (hn : vmaMachine.next s l = some t) : VmaInv t := by
  obtain ⟨L, hl⟩ := h.lists
  cases l with
  | mmap i length prot flags fd word =>
    simp only [vmaMachine, VmaTable.next] at hn
    split at hn <;> [skip; cases hn]
    rename_i hi
    obtain ⟨L', hlt, hrt, hkt⟩ := sysMmap_inv hl h.refs hi hok hn
    exact h.kept hlt hrt hkt
  | munmap i addr length =>
    simp only [vmaMachine, VmaTable.next] at hn
    split at hn <;> [skip; cases hn]
    rename_i hi
    obtain ⟨L', hlt, hrt, hkt⟩ := sysMunmap_inv hl h.refs hi hok hn
    exact h.kept hlt hrt hkt
  | fork i j =>
    simp only [vmaMachine, VmaTable.next] at hn
    split at hn <;> [skip; cases hn]
    rename_i hc
    exact h.fork hc.1 hc.2 hn
  | exit i =>
    simp only [vmaMachine, VmaTable.next] at hn
    split at hn <;> [skip; cases hn]
    rename_i hi
    exact h.exit hi hn
  | openFile i fd f readable writable =>
    simp only [vmaMachine, VmaTable.next] at hn
    split at hn <;> [skip; cases hn]
    rename_i hc
    obtain rfl := Option.some.inj hn
    exact h.fd hc.1 (h.refs.opened hc.2.1 hc.2.2 readable writable) ⟨rfl, rfl, rfl⟩
      fun k hk => setFd_others (s.setFile f _) hk fd _
  | dup i fd fd' =>
    simp only [vmaMachine, VmaTable.next] at hn
    split at hn <;> [skip; cases hn]
    rename_i hc
    obtain ⟨f, -, hn⟩ := Option.bind_eq_some_iff.1 hn
    obtain ⟨u, hu, hn⟩ := Option.bind_eq_some_iff.1 hn
    obtain rfl := Option.some.inj hn
    obtain ⟨hru, hfu⟩ := h.refs.openFd hc.2 hu
    refine h.fd hc.1 hru hfu fun k hk => ?_
    rw [setFd_others u hk, filedup_eq hu]
    rfl
  | close i fd =>
    simp only [vmaMachine, VmaTable.next] at hn
    split at hn <;> [skip; cases hn]
    rename_i hi
    obtain ⟨f, hf, hn⟩ := Option.bind_eq_some_iff.1 hn
    obtain ⟨u, hu, hn⟩ := Option.bind_eq_some_iff.1 hn
    obtain rfl := Option.some.inj hn
    obtain ⟨hru, hfu⟩ := h.refs.closeFd hf hu
    refine h.fd hi hru hfu fun k hk => ?_
    rw [setFd_others u hk, (fileclose_eq hu).2]
    rfl

theorem vmaInv_init (s : VmaTable) (h : vmaMachine.init s) : VmaInv s := by
  obtain ⟨hs, hf, hv, ho⟩ := h
  refine ⟨⟨fun _ => [], fun i _ => ?_, fun _ _ => rfl, ?_, fun x => ?_, ?_, fun _ => .nil, ?_⟩,
    fun f => ?_, fun i fd _ => ho i fd⟩
  · rw [hv]
    exact .nil
  · intro i j x hx
    cases hx
  · rw [hs]
    simp [VmaSlot.zero]
  · intro i x hx
    cases hx
  · intro i x hx
    cases hx
  · rw [hf]
    refine (RefCount.holders_eq_zero.2 fun k => ?_).symm
    cases k with
    | inl d => simp [VmaTable.holder, ho]
    | inr x => simp [VmaTable.holder, hs, VmaSlot.zero]

/-- The holders of a file are its descriptors and the slots in use that name it. -/
theorem holders_eq (s : VmaTable) (f : FileIndex) :
    RefCount.holders s.holder f =
      Set.ncard {d : Slot × Fin nofile | s.ofile d.1 d.2 = some f} +
        Set.ncard {x | 0 < (s.slots x).length ∧ (s.slots x).file = some f} := by
  have hslot : ∀ x, s.holder (.inr x) = some f ↔
      0 < (s.slots x).length ∧ (s.slots x).file = some f := by
    intro x
    by_cases h : 0 < (s.slots x).length <;> simp [VmaTable.holder, h]
  have hfd : ∀ d : Slot × Fin nofile, s.holder (.inl d) = some f ↔ s.ofile d.1 d.2 = some f :=
    fun _ => Iff.rfl
  unfold RefCount.holders
  rw [Finset.card_filter, Fintype.sum_sum_type, ← Finset.card_filter, ← Finset.card_filter,
    Set.ncard_eq_toFinset_card', Set.ncard_eq_toFinset_card']
  simp only [hslot, hfd, Set.toFinset_ofPred]

theorem VmaInv.integrity (h : VmaInv s) : s.Integrity := by
  obtain ⟨⟨L, hl⟩, hr, -⟩ := h
  have hon : ∀ i x, s.OnList i x ↔ x ∈ L i := by
    intro i x
    constructor
    · rintro ⟨hi, hx⟩
      exact (hl.linked i hi).reaches.1 hx
    · intro hx
      have hi := hl.live_of_mem hx
      exact ⟨hi, (hl.linked i hi).reaches.2 hx⟩
  refine ⟨fun x => ?_, fun i hi => ⟨L i, hl.linked i hi, (hl.linked i hi).nodup⟩,
    fun i j x hx hy => ?_, fun i x hx => ?_, fun i x y hx hy hne => ?_, fun i x hx => ?_,
    fun f => ?_⟩
  · rw [hl.used x]
    exact exists_congr fun i => (hon i x).symm
  · exact hl.one i j x ((hon i x).1 hx) ((hon j x).1 hy)
  · exact (hl.fits i x ((hon i x).1 hx)).1
  · -- one of the two comes first in the list
    rw [hon] at hx hy
    have hsymm : Std.Symm fun x y => (s.slots x).stop ≤ (s.slots y).start ∨
        (s.slots y).stop ≤ (s.slots x).start := ⟨fun _ _ => Or.symm⟩
    have hboth : (L i).Pairwise fun x y => (s.slots x).stop ≤ (s.slots y).start ∨
        (s.slots y).stop ≤ (s.slots x).start := (hl.sorted i).imp .inl
    exact hboth.forall hx hy hne
  · exact Option.isSome_iff_ne_none.2 (hl.held i x ((hon i x).1 hx))
  · rw [hr f, holders_eq]
    congr 2
    ext x
    simp only [Set.mem_ofPred_eq, hl.used x, hon]

/-- **The table stays whole.** In every run of `sys_mmap`, `sys_munmap`, `fork`, `exit`, `open`,
`dup` and `close` by any number of processes, in which no `sys_munmap` takes a proper prefix of a
mapping, and `sys_mmap` maps a file with a positive length, does not overflow the addresses and on
an empty list finds a slot whose `next` is null, every state has integrity. -/
theorem vma_integrity {tr : List VmaLabel} (h : vmaMachine.Reach VmaTable.Sound tr s) :
    s.Integrity :=
  (h.inv vmaInv_init vmaInv_step : VmaInv s).integrity

/-! ### Runs -/

/-- Processes 0 and 1 run, and nothing is mapped. -/
def twoProcs : VmaTable where
  slots _ := VmaSlot.zero
  files _ := ⟨0, false, false⟩
  live i := decide (i = 0 ∨ i = 1)
  vma _ := none
  ofile _ _ := none

theorem twoProcs_init : vmaMachine.init twoProcs :=
  ⟨fun _ => rfl, fun _ => rfl, fun _ => rfl, fun _ _ => rfl⟩

/-- Two mappings of one file, a fork into slot 2, and in the parent the head of the list goes, and
half of what is left. -/
def mappingRun : List VmaLabel :=
  [.openFile 0 0 0 true true, .mmap 0 8192 (protRead ||| protWrite) mapShared 0 .null,
    .mmap 0 8192 protRead mapPrivate 0 .null, .fork 0 2, .munmap 0 vmaStart 8192,
    .munmap 0 (vmaStart + 12288) 4096, .close 0 0]

def mappingEnd : VmaTable := (vmaMachine.runOk VmaTable.Sound twoProcs mappingRun).getD twoProcs

theorem mappingEnd_reach : vmaMachine.Reach VmaTable.Sound mappingRun mappingEnd :=
  ⟨_, twoProcs_init, pathOk_getD (by decide +kernel)⟩

theorem vma_integrity_sound : mappingEnd.Integrity ∧ (mappingEnd.files 0).ref = 4 :=
  ⟨vma_integrity mappingEnd_reach, by decide +kernel⟩

/-- `sys_munmap` of the first page of two. -/
def frontRun : List VmaLabel :=
  [.openFile 0 0 0 true true, .mmap 0 8192 protRead mapShared 0 .null,
    .munmap 0 vmaStart 4096]

/-- The head of a list goes, and another process maps a file. -/
def relinkRun : List VmaLabel :=
  [.openFile 0 0 0 true true, .openFile 1 0 1 true true, .mmap 0 4096 protRead mapShared 0 .null,
    .mmap 0 4096 protRead mapShared 0 .null, .munmap 0 vmaStart 4096,
    .mmap 1 4096 protRead mapShared 0 .null]

/-- A mapping of length 0. -/
def noLengthRun : List VmaLabel :=
  [.openFile 0 0 0 true true, .mmap 0 0 protRead mapShared 0 .null]

/-- A descriptor behind the array, where the word is a pointer to the inode of the directory. -/
def strayRun : List VmaLabel :=
  [.mmap 0 4096 protRead mapShared nofile (.other ⟨1, true, true⟩)]

/-- **Each kind of call left out breaks the table**: a prefix makes `start` and `end` disagree with
`length`; a stale `next` puts a slot on two lists; a length 0 puts a free slot on a list; a
descriptor that is none makes a mapping of other memory. -/
theorem vma_integrity_breaks :
    (∃ t, vmaMachine.Reach always frontRun t ∧ ¬ t.Integrity) ∧
    (∃ t, vmaMachine.Reach always relinkRun t ∧ ¬ t.Integrity) ∧
    (∃ t, vmaMachine.Reach always noLengthRun t ∧ ¬ t.Integrity) ∧
    ∃ t, vmaMachine.Reach always strayRun t ∧ ¬ t.Integrity := by
  refine ⟨⟨(vmaMachine.run twoProcs frontRun).getD twoProcs,
      ⟨_, twoProcs_init, path_getD (by decide +kernel)⟩, fun h => ?_⟩,
    ⟨(vmaMachine.run twoProcs relinkRun).getD twoProcs,
      ⟨_, twoProcs_init, path_getD (by decide +kernel)⟩, fun h => ?_⟩,
    ⟨(vmaMachine.run twoProcs noLengthRun).getD twoProcs,
      ⟨_, twoProcs_init, path_getD (by decide +kernel)⟩, fun h => ?_⟩,
    ⟨(vmaMachine.run twoProcs strayRun).getD twoProcs,
      ⟨_, twoProcs_init, path_getD (by decide +kernel)⟩, fun h => ?_⟩⟩
  · set t := (vmaMachine.run twoProcs frontRun).getD twoProcs with ht
    have hv : t.live 0 = true ∧ t.vma 0 = some 0 ∧
        (t.slots 0).stop ≠ (t.slots 0).start + (t.slots 0).length := by decide +kernel
    exact hv.2.2 (h.ends 0 0 ⟨hv.1, hv.2.1 ▸ .here 0⟩)
  · set t := (vmaMachine.run twoProcs relinkRun).getD twoProcs with ht
    have hv : t.live 0 = true ∧ t.live 1 = true ∧ t.vma 0 = some 1 ∧ t.vma 1 = some 0 ∧
        t.nexts 0 = some 1 := by decide +kernel
    have h01 := h.one 0 1 1 ⟨hv.1, hv.2.2.1 ▸ .here 1⟩
      ⟨hv.2.1, hv.2.2.2.1 ▸ .there (hv.2.2.2.2 ▸ .here 1)⟩
    cases h01
  · set t := (vmaMachine.run twoProcs noLengthRun).getD twoProcs with ht
    have hv : t.live 0 = true ∧ t.vma 0 = some 0 ∧ (t.slots 0).length = 0 := by decide +kernel
    have hpos := (h.used 0).2 ⟨0, hv.1, hv.2.1 ▸ .here 0⟩
    omega
  · set t := (vmaMachine.run twoProcs strayRun).getD twoProcs with ht
    have hv : t.live 0 = true ∧ t.vma 0 = some 0 ∧ (t.slots 0).file = none := by decide +kernel
    have hheld := h.held 0 0 ⟨hv.1, hv.2.1 ▸ .here 0⟩
    rw [hv.2.2] at hheld
    cases hheld

end AgentOS
