import AgentOS.Lib.RefCount
import AgentOS.Model.VmaTable
import Mathlib.Data.Fintype.Prod
import Mathlib.Data.Fintype.Sum

/-!
# The lists of mappings and the references they hold

* `VmaTable.holder`, `RefsOk`: a file counts its holders.
* `VmaLists`: the list of each process, and what the slots on it contain.
* `VmaLists.append`, `VmaLists.drop`, `VmaLists.cut`, `VmaLists.shrink`: a slot enters at the end of
  a list, leaves it, or loses the end of its mapping.
* `RefsOk.entered`, `RefsOk.left`: the references that go with this.
-/

namespace AgentOS

open Machine Chain

variable {s t u : VmaTable} {i j : Slot} {x y : VmaIndex} {f : FileIndex}
  {L : Slot → List VmaIndex}

/-! ### References -/

namespace VmaTable

/-- Who holds a reference to a file: a descriptor, or a slot in use. -/
def holder (s : VmaTable) : (Slot × Fin nofile) ⊕ VmaIndex → Option FileIndex
  | .inl d => s.ofile d.1 d.2
  | .inr x => if 0 < (s.slots x).length then (s.slots x).file else none

end VmaTable

/-- Every file counts its holders. -/
def RefsOk (s : VmaTable) : Prop := ∀ f, (s.files f).ref = RefCount.holders s.holder f

theorem filedup_eq (h : s.filedup f = some t) :
    t = s.setFile f { s.files f with ref := (s.files f).ref + 1 } := by
  unfold VmaTable.filedup at h
  split at h <;> [cases h; skip]
  exact (Option.some.inj h).symm

theorem fileclose_eq (h : s.fileclose f = some t) : 0 < (s.files f).ref ∧
    t = s.setFile f { s.files f with ref := (s.files f).ref - 1 } := by
  unfold VmaTable.fileclose at h
  split at h <;> [cases h; skip]
  exact ⟨by omega, (Option.some.inj h).symm⟩

/-- The two tables differ in the count of a file only. -/
structure CountOnly (s t : VmaTable) : Prop where
  slots : t.slots = s.slots
  live : t.live = s.live
  vma : t.vma = s.vma
  ofile : t.ofile = s.ofile

theorem filedup_only (h : s.filedup f = some t) : CountOnly s t := by
  obtain rfl := filedup_eq h
  exact ⟨rfl, rfl, rfl, rfl⟩

theorem fileclose_only (h : s.fileclose f = some t) : CountOnly s t := by
  obtain ⟨-, rfl⟩ := fileclose_eq h
  exact ⟨rfl, rfl, rfl, rfl⟩

theorem CountOnly.nexts (h : CountOnly s t) : t.nexts = s.nexts := by
  unfold VmaTable.nexts
  rw [h.slots]

/-- **A new holder** and its reference. -/
theorem RefsOk.take (h : RefsOk s) (hd : s.filedup f = some t)
    {k : (Slot × Fin nofile) ⊕ VmaIndex} (hk : s.holder k = none) (hu : u.files = t.files)
    (hh : u.holder = Function.update s.holder k (some f)) : RefsOk u := by
  obtain rfl := filedup_eq hd
  intro g
  have hg := h g
  rw [hu, hh, RefCount.holders_take hk]
  by_cases hf : g = f
  · subst hf
    simp [VmaTable.setFile, hg]
  · simp [VmaTable.setFile, Function.update_of_ne hf, hg, Ne.symm hf]

/-- **A holder goes** with its reference. -/
theorem RefsOk.drop (h : RefsOk s) (hd : s.fileclose f = some t)
    {k : (Slot × Fin nofile) ⊕ VmaIndex} (hk : s.holder k = some f) (hu : u.files = t.files)
    (hh : u.holder = Function.update s.holder k none) : RefsOk u := by
  obtain ⟨hpos, rfl⟩ := fileclose_eq hd
  intro g
  have hg := h g
  have hdrop : RefCount.holders (Function.update s.holder k none) g +
      (if f = g then 1 else 0) = RefCount.holders s.holder g := RefCount.holders_drop hk
  rw [hu, hh]
  by_cases hf : g = f
  · subst hf
    rw [if_pos rfl] at hdrop
    simp only [VmaTable.setFile, Function.update_self]
    omega
  · rw [if_neg (Ne.symm hf)] at hdrop
    simp only [VmaTable.setFile, Function.update_of_ne hf]
    omega

theorem holder_setFd (s : VmaTable) (i : Slot) (fd : Fin nofile) (f : Option FileIndex) :
    (s.setFd i fd f).holder = Function.update s.holder (.inl (i, fd)) f := by
  funext k
  cases k with
  | inl d =>
    obtain ⟨j, fd'⟩ := d
    by_cases hj : j = i
    · subst hj
      by_cases hfd : fd' = fd
      · subst hfd
        simp [VmaTable.holder, VmaTable.setFd]
      · simp [VmaTable.holder, VmaTable.setFd, hfd]
    · simp [VmaTable.holder, VmaTable.setFd, hj]
  | inr x =>
    rw [Function.update_of_ne (by simp)]
    rfl

theorem holder_setSlot (s : VmaTable) (x : VmaIndex) (v : VmaSlot) :
    (s.setSlot x v).holder =
      Function.update s.holder (.inr x) (if 0 < v.length then v.file else none) := by
  funext k
  cases k with
  | inl d => simp [VmaTable.holder, VmaTable.setSlot]
  | inr y =>
    by_cases hy : y = x
    · subst hy
      simp [VmaTable.holder, VmaTable.setSlot]
    · simp [VmaTable.holder, VmaTable.setSlot, hy]

/-- Stores that keep descriptors, lengths and files keep the holders. -/
theorem holder_congr (ho : t.ofile = s.ofile)
    (hs : ∀ x, (t.slots x).length = (s.slots x).length ∧ (t.slots x).file = (s.slots x).file) :
    t.holder = s.holder := by
  funext k
  cases k with
  | inl d => simp [VmaTable.holder, ho]
  | inr x => simp only [VmaTable.holder, (hs x).1, (hs x).2]

/-! ### Links -/

/-- All of a slot but `next`. -/
structure SameData (v w : VmaSlot) : Prop where
  start : v.start = w.start
  stop : v.stop = w.stop
  length : v.length = w.length
  file : v.file = w.file

theorem SameData.rfl' (v : VmaSlot) : SameData v v := ⟨rfl, rfl, rfl, rfl⟩

theorem setNext_data (s : VmaTable) (q : VmaIndex) (n : Option VmaIndex) (y : VmaIndex) :
    SameData ((s.setNext q n).slots y) (s.slots y) := by
  by_cases hy : y = q
  · subst hy
    simp only [VmaTable.setNext, VmaTable.setSlot, Function.update_self]
    exact ⟨rfl, rfl, rfl, rfl⟩
  · simp only [VmaTable.setNext, VmaTable.setSlot, Function.update_of_ne hy]
    exact SameData.rfl' _

theorem link_data (s : VmaTable) (i : Slot) (pre : Option VmaIndex) (x y : VmaIndex) :
    SameData ((s.link i pre x).slots y) (s.slots y) := by
  cases pre with
  | none => exact SameData.rfl' _
  | some q => exact setNext_data s q _ y

theorem nexts_setSlot (s : VmaTable) (x : VmaIndex) (v : VmaSlot) :
    (s.setSlot x v).nexts = Function.update s.nexts x v.next := by
  funext y
  by_cases hy : y = x
  · subst hy
    simp [VmaTable.nexts, VmaTable.setSlot]
  · simp [VmaTable.nexts, VmaTable.setSlot, hy]

theorem nexts_setNext (s : VmaTable) (q : VmaIndex) (n : Option VmaIndex) :
    (s.setNext q n).nexts = Function.update s.nexts q n :=
  nexts_setSlot s q _

/-! ### The invariant -/

/-- The lists `L`: of each live process its own, and no slot on two; the slots with a length; and
on a list, mappings one behind the other. -/
structure VmaLists (s : VmaTable) (L : Slot → List VmaIndex) : Prop where
  linked : ∀ i, s.live i = true → Chain.Linked s.nexts (s.vma i) (L i)
  dead : ∀ i, s.live i = false → L i = []
  one : ∀ i j x, x ∈ L i → x ∈ L j → i = j
  used : ∀ x, 0 < (s.slots x).length ↔ ∃ i, x ∈ L i
  fits : ∀ i, ∀ x ∈ L i, (s.slots x).stop = (s.slots x).start + (s.slots x).length ∧
    (s.slots x).stop < 2 ^ 64
  sorted : ∀ i, (L i).Pairwise fun x y => (s.slots x).stop ≤ (s.slots y).start
  held : ∀ i, ∀ x ∈ L i, (s.slots x).file ≠ none

/-- The lists do not depend on descriptors and reference counts. -/
theorem VmaLists.frame (h : VmaLists s L) (hs : t.slots = s.slots) (hl : t.live = s.live)
    (hv : t.vma = s.vma) : VmaLists t L := by
  have hn : t.nexts = s.nexts := by
    unfold VmaTable.nexts
    rw [hs]
  exact ⟨fun i hi => by rw [hn, hv]; exact h.linked i (hl ▸ hi), fun i hi => h.dead i (hl ▸ hi),
    h.one, by rw [hs]; exact h.used, by rw [hs]; exact h.fits, by rw [hs]; exact h.sorted,
    by rw [hs]; exact h.held⟩

theorem VmaLists.not_mem (h : VmaLists s L) (hx : (s.slots x).length = 0) (i : Slot) : x ∉ L i := by
  intro hi
  have hpos := (h.used x).2 ⟨i, hi⟩
  omega

theorem VmaLists.live_of_mem (h : VmaLists s L) (hx : x ∈ L i) : s.live i = true := by
  by_contra hl
  rw [h.dead i (by simpa using hl)] at hx
  cases hx

theorem VmaLists.length_le (h : VmaLists s L) (hi : s.live i = true) :
    (L i).length ≤ maxVmaCount := by
  have hle := (h.linked i hi).length_le
  simpa using hle

theorem VmaLists.holder (h : VmaLists s L) (hx : x ∈ L i) :
    s.holder (.inr x) = (s.slots x).file :=
  if_pos ((h.used x).2 ⟨i, hx⟩)

theorem holder_free (hx : (s.slots x).length = 0) : s.holder (.inr x) = none :=
  if_neg (by omega)

/-! ### A slot enters a list -/

section

variable {v : VmaSlot}

/-- The slots after slot `x` got the contents `v` and entered the list of process `i`. -/
theorem entered_data (s : VmaTable) (i : Slot) (pre : Option VmaIndex) (x y : VmaIndex)
    (v : VmaSlot) :
    SameData (((s.setSlot x v).link i pre x).slots y) (if y = x then v else s.slots y) := by
  have h := link_data (s.setSlot x v) i pre x y
  by_cases hy : y = x
  · subst hy
    simpa [VmaTable.setSlot] using h
  · simpa [VmaTable.setSlot, hy] using h

theorem link_fields (s : VmaTable) (i : Slot) (pre : Option VmaIndex) (x : VmaIndex) :
    (s.link i pre x).live = s.live ∧ (s.link i pre x).ofile = s.ofile ∧
      (s.link i pre x).files = s.files := by
  cases pre <;> exact ⟨rfl, rfl, rfl⟩

theorem entered_linked (h : VmaLists s L) (hx : (s.slots x).length = 0)
    (hn : v.next = none) (j : Slot) (hj : s.live j = true) :
    Chain.Linked ((s.setSlot x v).link i (L i).getLast? x).nexts
      (((s.setSlot x v).link i (L i).getLast? x).vma j)
      (Function.update L i (L i ++ [x]) j) := by
  have hxi := h.not_mem hx
  have hold := h.linked j hj
  have hset : (s.setSlot x v).nexts = Function.update s.nexts x none := by
    rw [nexts_setSlot, hn]
  cases hq : (L i).getLast? with
  | none =>
    -- the list was empty, and starts with `x`
    have hnil : L i = [] := List.getLast?_eq_none_iff.1 hq
    have hnext : ((s.setSlot x v).link i none x).nexts = Function.update s.nexts x none := hset
    rw [hnext]
    by_cases hji : j = i
    · subst hji
      rw [Function.update_self, hnil]
      simp only [VmaTable.link, VmaTable.setHead, Function.update_self]
      refine .cons ?_
      rw [Function.update_self]
      exact .nil
    · rw [Function.update_of_ne hji]
      simp only [VmaTable.link, VmaTable.setHead, Function.update_of_ne hji]
      refine hold.frame fun y hy => Function.update_of_ne ?_ _ _
      rintro rfl
      exact hxi j hy
  | some q =>
    have hnext : ((s.setSlot x v).link i (some q) x).nexts =
        Function.update (Function.update s.nexts x none) q (some x) := by
      rw [← hset]
      exact nexts_setNext _ q _
    have hqi : q ∈ L i := List.mem_of_getLast? hq
    rw [hnext]
    by_cases hji : j = i
    · subst hji
      rw [Function.update_self]
      exact hold.append (hxi j) hq
    · rw [Function.update_of_ne hji]
      refine hold.frame fun y hy => ?_
      have hyq : y ≠ q := by
        rintro rfl
        exact hji (h.one j i y hy hqi)
      have hyx : y ≠ x := by
        rintro rfl
        exact hxi j hy
      rw [Function.update_of_ne hyq, Function.update_of_ne hyx]

/-- **A free slot enters the list** of a live process, with a mapping behind all others. -/
theorem VmaLists.append (h : VmaLists s L) (hi : s.live i = true) (hx : (s.slots x).length = 0)
    (hn : v.next = none) (hpos : 0 < v.length) (hstop : v.stop = v.start + v.length)
    (hlt : v.stop < 2 ^ 64) (hle : ∀ y ∈ L i, (s.slots y).stop ≤ v.start) (hf : v.file ≠ none) :
    VmaLists ((s.setSlot x v).link i (L i).getLast? x) (Function.update L i (L i ++ [x])) := by
  have hxi := h.not_mem hx
  have hlive : ((s.setSlot x v).link i (L i).getLast? x).live = s.live := (link_fields ..).1
  have hdata := fun y => entered_data s i (L i).getLast? x y v
  have hmem : ∀ j y, y ∈ Function.update L i (L i ++ [x]) j ↔ y ∈ L j ∨ j = i ∧ y = x := by
    intro j y
    by_cases hj : j = i
    · subst hj
      simp
    · simp [hj]
  -- a slot that was on a list keeps its data
  have hkeep : ∀ j, ∀ y ∈ L j,
      SameData (((s.setSlot x v).link i (L i).getLast? x).slots y) (s.slots y) := by
    intro j y hy
    have hyx : y ≠ x := by
      rintro rfl
      exact hxi j hy
    have hd := hdata y
    rwa [if_neg hyx] at hd
  have hnew : SameData (((s.setSlot x v).link i (L i).getLast? x).slots x) v := by
    have hd := hdata x
    rwa [if_pos rfl] at hd
  refine ⟨fun j hj => entered_linked h hx hn j (hlive ▸ hj), fun j hj => ?_, fun j k y hy hk => ?_,
    fun y => ?_, fun j y hy => ?_, fun j => ?_, fun j y hy => ?_⟩
  · rw [hlive] at hj
    have hji : j ≠ i := by
      rintro rfl
      rw [hi] at hj
      cases hj
    rw [Function.update_of_ne hji]
    exact h.dead j hj
  · rcases (hmem j y).1 hy with hyj | ⟨rfl, rfl⟩ <;> rcases (hmem k y).1 hk with hyk | ⟨rfl, he⟩
    · exact h.one j k y hyj hyk
    · exact absurd (he ▸ hyj) (hxi j)
    · exact absurd hyk (hxi k)
    · rfl
  · rw [(hdata y).length]
    constructor
    · intro hy
      by_cases hyx : y = x
      · exact ⟨i, (hmem i y).2 (.inr ⟨rfl, hyx⟩)⟩
      · rw [if_neg hyx] at hy
        obtain ⟨j, hj⟩ := (h.used y).1 hy
        exact ⟨j, (hmem j y).2 (.inl hj)⟩
    · rintro ⟨j, hy⟩
      rcases (hmem j y).1 hy with hyj | ⟨-, rfl⟩
      · have hyx : y ≠ x := by
          rintro rfl
          exact hxi j hyj
        rw [if_neg hyx]
        exact (h.used y).2 ⟨j, hyj⟩
      · rwa [if_pos rfl]
  · rcases (hmem j y).1 hy with hyj | ⟨-, rfl⟩
    · have hk := hkeep j y hyj
      rw [hk.stop, hk.start, hk.length]
      exact h.fits j y hyj
    · rw [hnew.stop, hnew.start, hnew.length]
      exact ⟨hstop, hlt⟩
  · have hold : (L j).Pairwise fun a b => (((s.setSlot x v).link i (L i).getLast? x).slots a).stop ≤
        (((s.setSlot x v).link i (L i).getLast? x).slots b).start := by
      refine (h.sorted j).imp_of_mem fun ha hb hab => ?_
      rw [(hkeep j _ ha).stop, (hkeep j _ hb).start]
      exact hab
    by_cases hji : j = i
    · subst hji
      rw [Function.update_self]
      refine List.pairwise_append.2 ⟨hold, List.pairwise_singleton _ _, fun a ha b hb => ?_⟩
      rw [List.mem_singleton.1 hb, (hkeep j a ha).stop, hnew.start]
      exact hle a ha
    · rw [Function.update_of_ne hji]
      exact hold
  · rcases (hmem j y).1 hy with hyj | ⟨-, rfl⟩
    · rw [(hkeep j y hyj).file]
      exact h.held j y hyj
    · rw [hnew.file]
      exact hf

/-- The reference it takes. -/
theorem RefsOk.entered (h : RefsOk s) (hx : (s.slots x).length = 0) (hpos : 0 < v.length)
    (hf : v.file = some f) (hd : s.filedup f = some u) (pre : Option VmaIndex) :
    RefsOk ((u.setSlot x v).link i pre x) := by
  refine h.take hd (holder_free hx) (link_fields ..).2.2 ?_
  obtain rfl := filedup_eq hd
  rw [holder_congr (link_fields ..).2.1 fun y => ⟨(link_data ..).length, (link_data ..).file⟩,
    holder_setSlot, if_pos hpos, hf]
  rfl

end

/-! ### A slot leaves a list -/

section

variable {a b : List VmaIndex}

/-- Slot `x` left the list of process `i` and has no length any more. -/
theorem VmaLists.drop (h : VmaLists s L) (hL : L i = a ++ x :: b) (hl : t.live = s.live)
    (hd : ∀ y, y ≠ x → SameData (t.slots y) (s.slots y)) (h0 : (t.slots x).length = 0)
    (hlink : ∀ j, s.live j = true →
      Chain.Linked t.nexts (t.vma j) (Function.update L i (a ++ b) j)) :
    VmaLists t (Function.update L i (a ++ b)) := by
  have hxi : x ∈ L i := by simp [hL]
  have hnd : (L i).Nodup := (h.linked i (h.live_of_mem hxi)).nodup
  have hsub : (a ++ b).Sublist (L i) := by
    rw [hL]
    exact (List.sublist_cons_self x b).append_left a
  -- a slot stays where it was, unless it is `x`
  have hmem : ∀ j y, y ∈ Function.update L i (a ++ b) j ↔ y ∈ L j ∧ y ≠ x := by
    intro j y
    by_cases hj : j = i
    · subst hj
      rw [Function.update_self]
      constructor
      · intro hy
        refine ⟨hsub.subset hy, ?_⟩
        rintro rfl
        rw [hL] at hnd
        have hmid := (List.nodup_middle.1 hnd)
        exact (List.nodup_cons.1 hmid).1 hy
      · rintro ⟨hy, hne⟩
        rw [hL] at hy
        simpa [hne] using hy
    · rw [Function.update_of_ne hj]
      constructor
      · intro hy
        refine ⟨hy, ?_⟩
        rintro rfl
        exact hj (h.one j i y hy hxi)
      · exact And.left
  refine ⟨fun j hj => hlink j (hl ▸ hj), fun j hj => ?_, fun j k y hy hk => ?_, fun y => ?_,
    fun j y hy => ?_, fun j => ?_, fun j y hy => ?_⟩
  · rw [hl] at hj
    have hji : j ≠ i := by
      rintro rfl
      rw [h.live_of_mem hxi] at hj
      cases hj
    rw [Function.update_of_ne hji]
    exact h.dead j hj
  · exact h.one j k y ((hmem j y).1 hy).1 ((hmem k y).1 hk).1
  · by_cases hyx : y = x
    · subst hyx
      rw [h0]
      simp [hmem]
    · rw [(hd y hyx).length, h.used y]
      simp [hmem, hyx]
  · obtain ⟨hyj, hyx⟩ := (hmem j y).1 hy
    rw [(hd y hyx).stop, (hd y hyx).start, (hd y hyx).length]
    exact h.fits j y hyj
  · have hold : (Function.update L i (a ++ b) j).Pairwise
        fun y z => (s.slots y).stop ≤ (s.slots z).start := by
      by_cases hj : j = i
      · subst hj
        rw [Function.update_self]
        exact (h.sorted j).sublist hsub
      · rw [Function.update_of_ne hj]
        exact h.sorted j
    refine hold.imp_of_mem fun hy hz hyz => ?_
    rw [(hd _ ((hmem j _).1 hy).2).stop, (hd _ ((hmem j _).1 hz).2).start]
    exact hyz
  · obtain ⟨hyj, hyx⟩ := (hmem j y).1 hy
    rw [(hd y hyx).file]
    exact h.held j y hyj

/-- The lists of the others when links change on one list only. -/
theorem VmaLists.linked_others (h : VmaLists s L) {n : VmaIndex → Option VmaIndex}
    (hn : ∀ y, y ∉ L i → n y = s.nexts y) (hj : s.live j = true) (hji : j ≠ i) :
    Chain.Linked n (s.vma j) (L j) :=
  (h.linked j hj).frame fun y hy => hn y fun hyi => hji (h.one j i y hy hyi)

/-- `sys_munmap` of a whole mapping, less the file. -/
def VmaTable.cut (s : VmaTable) (i : Slot) (pre : Option VmaIndex) (x : VmaIndex) : VmaTable :=
  (s.unlink i pre x).setSlot x { (s.unlink i pre x).slots x with length := 0 }

theorem cut_fields (s : VmaTable) (i : Slot) (pre : Option VmaIndex) (x : VmaIndex) :
    (s.cut i pre x).live = s.live ∧ (s.cut i pre x).ofile = s.ofile ∧
      (s.cut i pre x).files = s.files := by
  cases pre <;> exact ⟨rfl, rfl, rfl⟩

theorem unlink_data (s : VmaTable) (i : Slot) (pre : Option VmaIndex) (x y : VmaIndex) :
    SameData ((s.unlink i pre x).slots y) (s.slots y) := by
  cases pre with
  | none => exact SameData.rfl' _
  | some q =>
    have h₁ := setNext_data (s.setNext q (s.slots x).next) x none y
    have h₂ := setNext_data s q (s.slots x).next y
    exact ⟨h₁.start.trans h₂.start, h₁.stop.trans h₂.stop, h₁.length.trans h₂.length,
      h₁.file.trans h₂.file⟩

theorem cut_data (s : VmaTable) (i : Slot) (pre : Option VmaIndex) (hy : y ≠ x) :
    SameData ((s.cut i pre x).slots y) (s.slots y) := by
  unfold VmaTable.cut VmaTable.setSlot
  simp only [Function.update_of_ne hy]
  exact unlink_data s i pre x y

theorem cut_length (s : VmaTable) (i : Slot) (pre : Option VmaIndex) (x : VmaIndex) :
    ((s.cut i pre x).slots x).length = 0 := by
  simp [VmaTable.cut, VmaTable.setSlot]

theorem cut_nexts (s : VmaTable) (i : Slot) (pre : Option VmaIndex) (x : VmaIndex) :
    (s.cut i pre x).nexts = (s.unlink i pre x).nexts := by
  unfold VmaTable.cut
  rw [nexts_setSlot]
  exact Function.update_eq_self x _

/-- **Taking out a mapping** relinks its list. -/
theorem VmaLists.cut (h : VmaLists s L) (hL : L i = a ++ x :: b) :
    VmaLists (s.cut i a.getLast? x) (Function.update L i (a ++ b)) := by
  have hxi : x ∈ L i := by simp [hL]
  have hi := h.live_of_mem hxi
  have hown := h.linked i hi
  have hnd := hown.nodup
  rw [hL] at hown hnd
  refine h.drop hL (cut_fields ..).1 (fun y hy => cut_data s i _ hy) (cut_length ..) fun j hj => ?_
  rw [cut_nexts]
  rcases List.eq_nil_or_concat a with rfl | ⟨a, q, rfl⟩
  · -- `x` is the head: the links stay
    by_cases hji : j = i
    · subst hji
      rw [Function.update_self]
      cases hv : s.vma j with
      | none =>
        rw [hv] at hown
        cases hown
      | some y =>
        rw [hv] at hown
        cases hown with
        | cons hb =>
          simp only [List.getLast?_nil, VmaTable.cut, VmaTable.unlink, VmaTable.setHead,
            VmaTable.setSlot, Function.update_self]
          exact hb
    · rw [Function.update_of_ne hji]
      simp only [List.getLast?_nil, VmaTable.cut, VmaTable.unlink, VmaTable.setHead,
        VmaTable.setSlot, Function.update_of_ne hji]
      exact h.linked j hj
  · -- `q` comes before it, and is linked to what comes behind it
    have hq : (a.concat q).getLast? = some q := by simp
    have hnext : (s.unlink i (some q) x).nexts =
        Function.update (Function.update s.nexts q (s.nexts x)) x none := by
      show ((s.setNext q (s.slots x).next).setNext x none).nexts = _
      rw [nexts_setNext, nexts_setNext]
      rfl
    have hvma : (s.cut i (some q) x).vma = s.vma := rfl
    have hqi : q ∈ L i := by simp [hL]
    rw [hq, hnext, hvma]
    by_cases hji : j = i
    · subst hji
      rw [Function.update_self]
      simp only [List.concat_eq_append, List.append_assoc, List.cons_append, List.nil_append]
        at hown hnd ⊢
      refine hown.remove.frame fun y hy => Function.update_of_ne ?_ _ _
      rintro rfl
      have hmid : (y :: (a ++ [q] ++ b)).Nodup := List.nodup_middle.1 (by simpa using hnd)
      exact (List.nodup_cons.1 hmid).1 (by simpa using hy)
    · rw [Function.update_of_ne hji]
      refine h.linked_others (fun y hy => ?_) hj hji
      have hyq : y ≠ q := fun he => hy (he ▸ hqi)
      have hyx : y ≠ x := fun he => hy (he ▸ hxi)
      rw [Function.update_of_ne hyx, Function.update_of_ne hyq]

/-- The reference it drops. -/
theorem RefsOk.left (h : RefsOk s) (hx : s.holder (.inr x) = some f) (hd : s.fileclose f = some u)
    (ho : t.ofile = s.ofile) (hf : t.files = u.files)
    (hs : ∀ y, y ≠ x → SameData (t.slots y) (s.slots y)) (h0 : (t.slots x).length = 0) :
    RefsOk t := by
  refine h.drop hd hx hf ?_
  funext k
  cases k with
  | inl d =>
    rw [Function.update_of_ne (by simp)]
    simp only [VmaTable.holder, ho]
  | inr y =>
    by_cases hy : y = x
    · subst hy
      rw [Function.update_self]
      exact holder_free h0
    · rw [Function.update_of_ne (by simpa using hy)]
      simp only [VmaTable.holder, (hs y hy).length, (hs y hy).file]

/-! ### A mapping loses its end -/

theorem VmaLists.shrink {v : VmaSlot} (h : VmaLists s L) (hx : x ∈ L i)
    (hn : v.next = (s.slots x).next) (hf : v.file = (s.slots x).file)
    (hs : v.start = (s.slots x).start) (hpos : 0 < v.length) (hstop : v.stop = v.start + v.length)
    (hle : v.stop ≤ (s.slots x).stop) : VmaLists (s.setSlot x v) L := by
  have hslot : ∀ y, (s.setSlot x v).slots y = if y = x then v else s.slots y := by
    intro y
    simp only [VmaTable.setSlot, Function.update_apply]
  have hnext : (s.setSlot x v).nexts = s.nexts := by
    rw [nexts_setSlot, hn]
    exact Function.update_eq_self x _
  have hbound : ∀ y, ((s.setSlot x v).slots y).stop ≤ (s.slots y).stop ∧
      ((s.setSlot x v).slots y).start = (s.slots y).start ∧
      ((s.setSlot x v).slots y).file = (s.slots y).file := by
    intro y
    rw [hslot]
    split
    · rename_i hy
      subst hy
      exact ⟨hle, hs, hf⟩
    · exact ⟨le_rfl, rfl, rfl⟩
  refine ⟨fun j hj => by rw [hnext]; exact h.linked j hj, h.dead, h.one, fun y => ?_,
    fun j y hy => ?_, fun j => ?_, fun j y hy => ?_⟩
  · rw [← h.used y, hslot]
    split
    · rename_i hy
      subst hy
      exact ⟨fun _ => (h.used y).2 ⟨i, hx⟩, fun _ => hpos⟩
    · exact Iff.rfl
  · have hlt := (h.fits j y hy).2
    have hb := (hbound y).1
    refine ⟨?_, lt_of_le_of_lt hb hlt⟩
    rw [hslot]
    split
    · exact hstop
    · exact (h.fits j y hy).1
  · refine (h.sorted j).imp fun {y z} hyz => ?_
    have hby := (hbound y).1
    rw [(hbound z).2.1]
    omega
  · rw [(hbound y).2.2]
    exact h.held j y hy

end

end AgentOS
