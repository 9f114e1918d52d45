import AgentOS.Lib.Redo
import AgentOS.Proof.LogHeader
import Mathlib.Data.List.GetD
import Mathlib.Data.List.Nodup

/-!
# What the disk recovers to

`OnDisk sb d τ l`: the header on the disk `d` lists the blocks `l`, and installing their copies in
the log gives the contents `τ`. Every write that `commit` and `recover_from_log` make keeps this:

* `OnDisk.putLog`: a copy into the log while the header is empty;
* `OnDisk.putHome`: a write to a block that the header lists, torn or not;
* `OnDisk.putHead`: a header with the same list, or the two changes of the list, `OnDisk.seal` and
  `OnDisk.clear`.
-/

namespace AgentOS

variable {sb : Superblock} {d : ℕ → Block} {τ τ' : ℕ → Block} {l : List ℕ} {b i : ℕ} {v : Block}

/-- The log block of entry `i`. -/
def Superblock.logBlock (sb : Superblock) (i : ℕ) : ℕ := sb.logstart + i + 1

/-- The entries of the log on the disk `d`, for a header that lists `l`. -/
def logEntries (sb : Superblock) (d : ℕ → Block) (l : List ℕ) : List (ℕ × Block) :=
  (List.range l.length).map fun i => (l.getD i 0, d (sb.logBlock i))

/-- A list of distinct home blocks that fits in the log. -/
structure ListOk (sb : Superblock) (l : List ℕ) : Prop where
  home : ∀ b ∈ l, sb.Home b
  lt : ∀ b ∈ l, b < 2 ^ 32
  nodup : l.Nodup
  room : l.length ≤ logsize
  fits : l.length < sb.nlog

/-- **The disk recovers to `τ`** through a header that lists `l`. -/
structure OnDisk (sb : Superblock) (d τ : ℕ → Block) (l : List ℕ) : Prop where
  ok : ListOk sb l
  head : HeadIs (d sb.logstart) l
  recov : Redo.Recovers sb.Home (logEntries sb d l) d τ

theorem getD_mem (h : i < l.length) : l.getD i 0 ∈ l := by
  rw [List.getD_eq_getElem _ _ h]
  exact List.getElem_mem h

theorem getD_inj {j : ℕ} (hl : l.Nodup) (hi : i < l.length) (hj : j < l.length)
    (h : l.getD i 0 = l.getD j 0) : i = j := by
  rw [List.getD_eq_getElem _ _ hi, List.getD_eq_getElem _ _ hj] at h
  exact (List.Nodup.getElem_inj_iff hl).1 h

theorem mem_logEntries {e : ℕ × Block} :
    e ∈ logEntries sb d l ↔ ∃ i < l.length, e = (l.getD i 0, d (sb.logBlock i)) := by
  unfold logEntries
  simp only [List.mem_map, List.mem_range]
  constructor
  · rintro ⟨i, hi, rfl⟩
    exact ⟨i, hi, rfl⟩
  · rintro ⟨i, hi, rfl⟩
    exact ⟨i, hi, rfl⟩

theorem logEntries_congr {d' : ℕ → Block}
    (h : ∀ i < l.length, d (sb.logBlock i) = d' (sb.logBlock i)) :
    logEntries sb d l = logEntries sb d' l := by
  unfold logEntries
  apply List.map_congr_left
  intro i hi
  rw [h i (List.mem_range.1 hi)]

/-! ### Where the blocks lie -/

theorem logBlock_inj {j : ℕ} : sb.logBlock i = sb.logBlock j ↔ i = j := by
  unfold Superblock.logBlock
  omega

theorem logBlock_ne_start : sb.logBlock i ≠ sb.logstart := by
  unfold Superblock.logBlock
  omega

theorem logBlock_not_home (h : i + 1 < sb.nlog) : ¬ sb.Home (sb.logBlock i) := by
  unfold Superblock.Home Superblock.logBlock
  omega

theorem start_not_home (h : 0 < sb.nlog) : ¬ sb.Home sb.logstart := by
  unfold Superblock.Home
  omega

theorem ListOk.logBlock (h : ListOk sb l) (hi : i < l.length) : ¬ sb.Home (sb.logBlock i) :=
  logBlock_not_home (by have := h.fits; omega)

theorem ListOk.start (h : ListOk sb l) : ¬ sb.Home sb.logstart :=
  start_not_home (by have := h.fits; omega)

theorem ListOk.nil (h : 0 < sb.nlog) : ListOk sb [] := by
  refine ⟨?_, ?_, List.nodup_nil, Nat.zero_le _, h⟩
  · intro b hb
    cases hb
  · intro b hb
    cases hb

/-! ### Writes -/

/-- A copy into the log, while the header is empty. -/
theorem OnDisk.putLog (h : OnDisk sb d τ []) (hi : i + 1 < sb.nlog) :
    OnDisk sb (Function.update d (sb.logBlock i) v) τ [] := by
  refine ⟨h.ok, ?_, h.recov.outside (logBlock_not_home hi) v⟩
  rw [Function.update_of_ne logBlock_ne_start.symm]
  exact h.head

/-- **A write to a block that the header lists**, with any value. -/
theorem OnDisk.putHome (h : OnDisk sb d τ l) (hi : i < l.length) :
    OnDisk sb (Function.update d (l.getD i 0) v) τ l := by
  have hhome := h.ok.home _ (getD_mem hi)
  refine ⟨h.ok, ?_, ?_⟩
  · have hne : sb.logstart ≠ l.getD i 0 := by
      intro he
      apply h.ok.start
      rw [he]
      exact hhome
    rw [Function.update_of_ne hne]
    exact h.head
  · have hlog : logEntries sb (Function.update d (l.getD i 0) v) l = logEntries sb d l := by
      apply logEntries_congr
      intro j hj
      apply Function.update_of_ne
      intro he
      apply h.ok.logBlock hj
      rw [he]
      exact hhome
    rw [hlog]
    exact h.recov.write (mem_logEntries.2 ⟨i, hi, rfl⟩) v

theorem logEntries_putStart :
    logEntries sb (Function.update d sb.logstart v) l = logEntries sb d l :=
  logEntries_congr fun _ _ => Function.update_of_ne logBlock_ne_start _ _

/-- A header with the same list. -/
theorem OnDisk.putHead (h : OnDisk sb d τ l) (hv : HeadIs v l) :
    OnDisk sb (Function.update d sb.logstart v) τ l := by
  refine ⟨h.ok, ?_, ?_⟩
  · rw [Function.update_self]
    exact hv
  · rw [logEntries_putStart]
    exact h.recov.outside h.ok.start v

/-- **The commit**: the header now lists the blocks whose copies are in the log. -/
theorem OnDisk.seal (h : OnDisk sb d τ []) (hl : ListOk sb l) (hv : HeadIs v l)
    (hlog : ∀ i < l.length, d (sb.logBlock i) = τ' (l.getD i 0))
    (hτ : ∀ b, sb.Home b → b ∉ l → τ' b = τ b) :
    OnDisk sb (Function.update d sb.logstart v) τ' l := by
  refine ⟨hl, ?_, ?_⟩
  · rw [Function.update_self]
    exact hv
  · rw [logEntries_putStart]
    refine Redo.Recovers.outside (h.recov.begin ?_ ?_) hl.start v
    · intro e he
      obtain ⟨i, hi, rfl⟩ := mem_logEntries.1 he
      exact (hlog i hi).symm
    · intro b hb hm
      apply hτ b hb
      intro hmem
      obtain ⟨i, hi, rfl⟩ := List.mem_iff_getElem.1 hmem
      apply hm _ (mem_logEntries.2 ⟨i, hi, rfl⟩)
      exact List.getD_eq_getElem _ _ hi

/-- **The end of the transaction**: every listed block is at home. -/
theorem OnDisk.clear (h : OnDisk sb d τ l) (hv : HeadIs v [])
    (hd : ∀ i < l.length, d (l.getD i 0) = d (sb.logBlock i)) :
    OnDisk sb (Function.update d sb.logstart v) τ [] := by
  refine ⟨ListOk.nil (by have := h.ok.fits; omega), ?_, ?_⟩
  · rw [Function.update_self]
    exact hv
  · refine Redo.Recovers.outside (h.recov.clear ?_) h.ok.start v
    intro e he
    obtain ⟨i, hi, rfl⟩ := mem_logEntries.1 he
    exact hd i hi

theorem OnDisk.home (h : OnDisk sb d τ []) (hb : sb.Home b) : d b = τ b :=
  Redo.Recovers.nil.1 h.recov b hb

/-- A copy in the log holds what its block recovers to. -/
theorem OnDisk.logged (h : OnDisk sb d τ l) (hi : i < l.length) :
    d (sb.logBlock i) = τ (l.getD i 0) :=
  (h.recov.logged _ (mem_logEntries.2 ⟨i, hi, rfl⟩)).symm

theorem OnDisk.congr (h : OnDisk sb d τ l) (hτ : ∀ b, sb.Home b → τ' b = τ b) :
    OnDisk sb d τ' l := by
  refine ⟨h.ok, h.head, ⟨?_, ?_⟩⟩
  · intro e he
    obtain ⟨i, hi, rfl⟩ := mem_logEntries.1 he
    rw [hτ _ (h.ok.home _ (getD_mem hi))]
    exact (h.logged hi).symm
  · intro b hb hm
    rw [hτ b hb]
    exact h.recov.rest b hb hm

end AgentOS
