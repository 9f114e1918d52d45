import AgentOS.Model.QueryShare
import AgentOS.Proof.FileIndex

/-!
# Builds of the file index among changes of metadata

* `fileIndexFinish_congr`: what a build leaves is determined by the table `file_meta`.
* `BuildCore`, `CoreStep`: the machine of shared queries seen from the index: which agents are
  building it or have changed metadata that no version stands for yet.
* `coreInv_step`: while nobody has a changed inode still to be walked, a walk that is under way
  has read the current metadata of the files it has visited.
* `quiet_index`: when no build and no change is under way, the index is the complete index of
  the current metadata, and the version stands for it.
-/

namespace AgentOS

open Machine

/-! ### What a build leaves -/

section

variable {t t' : AgentFileIndex} {m : AgentFileMeta}

theorem fileCacheFindByInum_congr (h : t.fileMeta = t'.fileMeta) (inum : ℕ) :
    fileCacheFindByInum t inum = fileCacheFindByInum t' inum := by
  unfold fileCacheFindByInum
  rw [h]

theorem fileCacheUpsert_meta (h : t.fileMeta = t'.fileMeta) :
    (fileCacheUpsert t m).fileMeta = (fileCacheUpsert t' m).fileMeta := by
  unfold fileCacheUpsert
  rw [fileCacheFindByInum_congr h, h]
  dsimp only
  split
  · rfl
  · exact h

theorem fileAddPosting_setReady (b : Bool) (e : ℕ) (key value : List UInt8) :
    fileAddPosting { t with ready := b } e key value =
      { fileAddPosting t e key value with ready := b } := by
  unfold fileAddPosting
  dsimp only
  split <;> rfl

theorem foldl_add_setReady (b : Bool) (i : Fin agentFileMetaMax) (attrs : List InodeAttr) :
    attrs.foldl (fun t a => fileAddPosting t i a.key a.value) { t with ready := b } =
      { attrs.foldl (fun t a => fileAddPosting t i a.key a.value) t with ready := b } := by
  induction attrs generalizing t with
  | nil => rfl
  | cons a attrs ih => rw [List.foldl_cons, List.foldl_cons, fileAddPosting_setReady, ih]

theorem filePostEntry_setReady (b : Bool) (i : Fin agentFileMetaMax) :
    filePostEntry { t with ready := b } i = { filePostEntry t i with ready := b } := by
  unfold filePostEntry
  split
  · exact foldl_add_setReady b i _
  · rfl

theorem foldl_post_setReady (b : Bool) (l : List (Fin agentFileMetaMax)) :
    l.foldl filePostEntry { t with ready := b } = { l.foldl filePostEntry t with ready := b } := by
  induction l generalizing t with
  | nil => rfl
  | cons i l ih => rw [List.foldl_cons, List.foldl_cons, filePostEntry_setReady, ih]

theorem fileIndexReset_congr (h : t.fileMeta = t'.fileMeta) :
    fileIndexReset t = { fileIndexReset t' with ready := t.ready } := by
  unfold fileIndexReset
  rw [h]

theorem fileRebuildPostings_congr (h : t.fileMeta = t'.fileMeta) :
    fileRebuildPostings t = { fileRebuildPostings t' with ready := t.ready } := by
  unfold fileRebuildPostings
  rw [fileIndexReset_congr h]
  exact foldl_post_setReady t.ready _

/-- **The last section of a build depends on `file_meta` only.** -/
theorem fileIndexFinish_congr (h : t.fileMeta = t'.fileMeta) :
    fileIndexFinish t = fileIndexFinish t' := by
  unfold fileIndexFinish
  simp only [fileRebuildPostings_congr h]

@[simp] theorem fileIndexFinish_meta : (fileIndexFinish t).fileMeta = t.fileMeta := by
  simp only [fileIndexFinish, fileRebuildPostings_meta]

theorem fileIndexFinish_idem : fileIndexFinish (fileIndexFinish t) = fileIndexFinish t :=
  fileIndexFinish_congr fileIndexFinish_meta

end

/-! ### Builds and changes under way -/

/-- Where an agent is, as far as the index is concerned; `pending` has changed an inode and has
not locked the root yet. -/
inductive Stage
  | out
  | pending
  | walking (c : BuildFor) (n : ℕ)
  | finish (c : BuildFor)
  | bump
  deriving DecidableEq

def QueryCall.stage : QueryCall → Stage
  | .build .update => .pending
  | .walking c n => .walking c n
  | .finish c => .finish c
  | .bump => .bump
  | _ => .out

/-- Does this agent have a change that no version stands for yet? -/
def Stage.changing : Stage → Bool
  | .pending | .walking .update _ | .finish .update | .bump => true
  | _ => false

/-- The machine seen from the index. -/
structure BuildCore where
  stage : Slot → Stage
  walk : List (ℕ × List UInt8)
  inodes : ℕ → FileInode
  index : AgentFileIndex
  root : Option Slot
  stands : ℕ → FileInode

namespace BuildCore

variable (b : BuildCore)

/-- The index after a walk over the first `n` files. -/
def walked (n : ℕ) : AgentFileIndex :=
  (b.walk.take n).foldl (fileIndexVisit b.inodes) (fileIndexClear AgentFileIndex.init)

/-- A change that the walk of no build has seen yet. -/
def Pending : Prop := ∃ i, b.stage i = .pending

def goto (i : Slot) (st : Stage) : BuildCore := { b with stage := Function.update b.stage i st }

end BuildCore

/-- A step of the machine, seen from the index. -/
inductive CoreStep (b : BuildCore) : BuildCore → Prop
  | same : CoreStep b b
  | clear (i : Slot) (c : BuildFor) (hs : b.stage i = (QueryCall.build c).stage)
      (hr : b.root = none) :
      CoreStep b ({ b with index := fileIndexClear b.index, root := some i }.goto i (.walking c 0))
  | visit (i : Slot) (c : BuildFor) (n : ℕ) (f : ℕ × List UInt8) (hs : b.stage i = .walking c n)
      (hf : b.walk[n]? = some f) :
      CoreStep b ({ b with index := fileIndexVisit b.inodes b.index f }.goto i
        (.walking c (n + 1)))
  | walked (i : Slot) (c : BuildFor) (hs : b.stage i = .walking c b.walk.length) :
      CoreStep b ({ b with root := none }.goto i (.finish c))
  | finish (i : Slot) (c : BuildFor) (hs : b.stage i = .finish c) :
      CoreStep b ({ b with index := fileIndexFinish b.index }.goto i c.after.stage)
  | change (i : Slot) (inum : ℕ) (ip : FileInode) (hs : b.stage i = .out) :
      CoreStep b ({ b with inodes := Function.update b.inodes inum ip }.goto i .pending)
  | bump (i : Slot) (hs : b.stage i = .bump) :
      CoreStep b ({ b with stands := b.inodes }.goto i .out)

/-- **The invariant of builds.** -/
structure CoreInv (b : BuildCore) : Prop where
  root : ∀ i, b.root = some i ↔ ∃ c n, b.stage i = .walking c n
  reading : ∀ i c n, b.stage i = .walking c n → ¬ b.Pending →
    b.index.fileMeta = (b.walked n).fileMeta
  idle : b.root = none → ¬ b.Pending → (b.index.ready = true ∨ ∃ i c, b.stage i = .finish c) →
    b.index.fileMeta = (b.walked b.walk.length).fileMeta
  posted : b.root = none → (∀ i c, b.stage i ≠ .finish c) → b.index.ready = true →
    b.index = fileIndexFinish b.index
  published : (∀ i, (b.stage i).changing = false) → b.stands = b.inodes

section

variable {b b' : BuildCore} {i j : Slot} {st st₀ : Stage} {c : BuildFor} {n : ℕ}

@[simp] theorem BuildCore.goto_self : (b.goto i st).stage i = st := Function.update_self ..

theorem BuildCore.goto_ne (h : j ≠ i) : (b.goto i st).stage j = b.stage j :=
  Function.update_of_ne h ..

/-- What holds of the stage left if and only if it holds of the stage entered holds of the same
agents after the move. -/
theorem BuildCore.goto_iff (P : Stage → Prop) (hs : b.stage i = st₀) (h : P st ↔ P st₀)
    (j : Slot) : P ((b.goto i st).stage j) ↔ P (b.stage j) := by
  by_cases hj : j = i
  · subst hj
    rw [BuildCore.goto_self, hs]
    exact h
  · rw [BuildCore.goto_ne hj]

theorem BuildCore.pending_goto (hs : b.stage i = st₀) (h : st = .pending ↔ st₀ = .pending) :
    (b.goto i st).Pending ↔ b.Pending :=
  exists_congr (BuildCore.goto_iff (· = .pending) hs h)

theorem BuildCore.changing_goto (hs : b.stage i = st₀) (h : st.changing = st₀.changing)
    (hp : ∀ j, ((b.goto i st).stage j).changing = false) (j : Slot) :
    (b.stage j).changing = false :=
  (BuildCore.goto_iff (fun st => st.changing = false) hs (by rw [h]) j).1 (hp j)

theorem BuildCore.walked_succ {f : ℕ × List UInt8} (hf : b.walk[n]? = some f) :
    b.walked (n + 1) = fileIndexVisit b.inodes (b.walked n) f := by
  unfold BuildCore.walked
  rw [List.take_add_one, hf, List.foldl_append]
  rfl

theorem CoreInv.rooted (h : CoreInv b) (hi : b.stage i = .walking c n) : b.root = some i :=
  (h.root i).2 ⟨c, n, hi⟩

theorem CoreInv.unrooted (h : CoreInv b) (hr : b.root = none) : b.stage i ≠ .walking c n := by
  intro hi
  have hri := h.rooted hi
  rw [hr] at hri
  cases hri

/-- Two agents do not walk at the same time. -/
theorem CoreInv.walker (h : CoreInv b) (hi : b.stage i = .walking c n) {c' : BuildFor} {n' : ℕ}
    (hj : b.stage j = .walking c' n') : j = i :=
  Option.some.inj ((h.rooted hj).symm.trans (h.rooted hi))

theorem CoreInv.clear (h : CoreInv b) (hs : b.stage i = (QueryCall.build c).stage)
    (hr : b.root = none) :
    CoreInv ({ b with index := fileIndexClear b.index, root := some i }.goto i
      (.walking c 0)) := by
  refine ⟨fun j => ?_, fun j c' n' hj _ => ?_, fun hr' => ?_, fun hr' => ?_, fun hp => ?_⟩
  · by_cases hj : j = i
    · subst hj
      exact iff_of_true rfl ⟨c, 0, BuildCore.goto_self⟩
    · refine iff_of_false (fun he => hj (Option.some.inj he).symm) ?_
      rintro ⟨c', n', hw⟩
      rw [BuildCore.goto_ne hj] at hw
      exact h.unrooted hr hw
  · have hji : j = i := by
      by_contra hji
      rw [BuildCore.goto_ne hji] at hj
      exact h.unrooted hr hj
    subst hji
    rw [BuildCore.goto_self] at hj
    cases hj
    rfl
  · cases hr'
  · cases hr'
  · refine h.published (BuildCore.changing_goto hs ?_ hp)
    cases c <;> rfl

theorem CoreInv.visit (h : CoreInv b) {f : ℕ × List UInt8} (hs : b.stage i = .walking c n)
    (hf : b.walk[n]? = some f) :
    CoreInv ({ b with index := fileIndexVisit b.inodes b.index f }.goto i
      (.walking c (n + 1))) := by
  have hri := h.rooted hs
  refine ⟨fun j => ?_, fun j c' n' hj hp => ?_, fun hr => ?_, fun hr => ?_, fun hp => ?_⟩
  · refine (h.root j).trans
      (BuildCore.goto_iff (fun st => ∃ c n, st = .walking c n) hs ?_ j).symm
    exact iff_of_true ⟨c, n + 1, rfl⟩ ⟨c, n, rfl⟩
  · have hji : j = i := by
      by_contra hji
      rw [BuildCore.goto_ne hji] at hj
      exact hji (h.walker hs hj)
    subst hji
    rw [BuildCore.goto_self] at hj
    cases hj
    have hp' : ¬ b.Pending := mt (BuildCore.pending_goto hs (by simp)).2 hp
    change (fileIndexVisit b.inodes b.index f).fileMeta = (b.walked (n + 1)).fileMeta
    rw [BuildCore.walked_succ hf]
    exact fileCacheUpsert_meta (h.reading j c n hs hp')
  · cases hri.symm.trans hr
  · cases hri.symm.trans hr
  · refine h.published (BuildCore.changing_goto hs ?_ hp)
    cases c <;> rfl

theorem CoreInv.walked (h : CoreInv b) (hs : b.stage i = .walking c b.walk.length) :
    CoreInv ({ b with root := none }.goto i (.finish c)) := by
  have hno : ∀ j c' n', ({ b with root := none }.goto i (.finish c)).stage j ≠
      .walking c' n' := by
    intro j c' n' hj
    by_cases hji : j = i
    · subst hji
      rw [BuildCore.goto_self] at hj
      cases hj
    · rw [BuildCore.goto_ne hji] at hj
      exact hji (h.walker hs hj)
  refine ⟨fun j => ?_, fun j c' n' hj => absurd hj (hno j c' n'), fun _ hp _ => ?_,
    fun _ hf => absurd BuildCore.goto_self (hf i c), fun hp => ?_⟩
  · refine iff_of_false (fun he => by cases he) ?_
    rintro ⟨c', n', hw⟩
    exact hno j c' n' hw
  · exact h.reading i c _ hs (mt (BuildCore.pending_goto hs (by simp)).2 hp)
  · refine h.published (BuildCore.changing_goto hs ?_ hp)
    cases c <;> rfl

/-- `t` is what the last section of the build leaves. -/
theorem CoreInv.finish (h : CoreInv b) {t : AgentFileIndex} (hs : b.stage i = .finish c)
    (hmeta : t.fileMeta = b.index.fileMeta) (ht : t = fileIndexFinish t) :
    CoreInv ({ b with index := t }.goto i c.after.stage) := by
  have hafter : c.after.stage = .out ∨ c.after.stage = .bump := by
    cases c
    · exact Or.inl rfl
    · exact Or.inr rfl
  have hpend : ({ b with index := t }.goto i c.after.stage).Pending ↔ b.Pending := by
    refine BuildCore.pending_goto hs ?_
    rcases hafter with ha | ha <;> simp [ha]
  have hwalk : ∀ j c' n', ({ b with index := t }.goto i c.after.stage).stage j =
      .walking c' n' ↔ b.stage j = .walking c' n' := by
    intro j c' n'
    refine BuildCore.goto_iff (· = .walking c' n') hs ?_ j
    rcases hafter with ha | ha <;> simp [ha]
  refine ⟨fun j => ?_, fun j c' n' hj hp => ?_, fun hr hp _ => ?_, fun _ _ _ => ht, fun hp => ?_⟩
  · simp only [hwalk]
    exact h.root j
  · exact hmeta.trans (h.reading j c' n' ((hwalk j c' n').1 hj) (mt hpend.2 hp))
  · exact hmeta.trans (h.idle hr (mt hpend.2 hp) (Or.inr ⟨i, c, hs⟩))
  · refine h.published (BuildCore.changing_goto hs ?_ hp)
    cases c <;> rfl

theorem CoreInv.change (h : CoreInv b) (inum : ℕ) (ip : FileInode) (hs : b.stage i = .out) :
    CoreInv ({ b with inodes := Function.update b.inodes inum ip }.goto i .pending) := by
  have hpend : ({ b with inodes := Function.update b.inodes inum ip }.goto i .pending).Pending :=
    ⟨i, BuildCore.goto_self⟩
  refine ⟨fun j => ?_, fun j c' n' _ hp => absurd hpend hp, fun _ hp => absurd hpend hp,
    fun hr hf => ?_, fun hp => ?_⟩
  · exact (h.root j).trans
      (BuildCore.goto_iff (fun st => ∃ c n, st = .walking c n) hs (by simp) j).symm
  · exact h.posted hr fun j c' hj =>
      hf j c' ((BuildCore.goto_iff (· = .finish c') hs (by simp) j).2 hj)
  · have hi := hp i
    rw [BuildCore.goto_self] at hi
    cases hi

theorem CoreInv.bump (h : CoreInv b) (hs : b.stage i = .bump) :
    CoreInv ({ b with stands := b.inodes }.goto i .out) := by
  have hpend : ({ b with stands := b.inodes }.goto i .out).Pending ↔ b.Pending :=
    BuildCore.pending_goto hs (by simp)
  have hwalk : ∀ j c' n', ({ b with stands := b.inodes }.goto i .out).stage j =
      .walking c' n' ↔ b.stage j = .walking c' n' :=
    fun j c' n' => BuildCore.goto_iff (· = .walking c' n') hs (by simp) j
  have hfin : ∀ j c', ({ b with stands := b.inodes }.goto i .out).stage j = .finish c' ↔
      b.stage j = .finish c' :=
    fun j c' => BuildCore.goto_iff (· = .finish c') hs (by simp) j
  refine ⟨fun j => ?_, fun j c' n' hj hp => ?_, fun hr hp hready => ?_, fun hr hf => ?_,
    fun _ => rfl⟩
  · simp only [hwalk]
    exact h.root j
  · exact h.reading j c' n' ((hwalk j c' n').1 hj) (mt hpend.2 hp)
  · simp only [hfin] at hready
    exact h.idle hr (mt hpend.2 hp) hready
  · exact h.posted hr fun j c' hj => hf j c' ((hfin j c').2 hj)

/-- A step keeps the invariant of builds. -/
theorem coreInv_step (h : CoreInv b) (hs : CoreStep b b') : CoreInv b' := by
  cases hs with
  | same => exact h
  | clear i c hst hr => exact h.clear hst hr
  | visit i c n f hst hf => exact h.visit hst hf
  | walked i c hst => exact h.walked hst
  | finish i c hst => exact h.finish hst fileIndexFinish_meta fileIndexFinish_idem.symm
  | change i inum ip hst => exact h.change inum ip hst
  | bump i hst => exact h.bump hst

/-- **With no build and no change under way, the index is complete and the version stands for
the metadata.** -/
theorem quiet_index (h : CoreInv b) (hout : ∀ i, b.stage i = .out) :
    b.stands = b.inodes ∧
      (b.index.ready = true → b.index = fileIndexBuild AgentFileIndex.init b.inodes b.walk) := by
  have hr : b.root = none := by
    cases hroot : b.root with
    | none => rfl
    | some i =>
      obtain ⟨c, n, hw⟩ := (h.root i).1 hroot
      rw [hout i] at hw
      cases hw
  have hp : ¬ b.Pending := by
    rintro ⟨i, hi⟩
    rw [hout i] at hi
    cases hi
  have hf : ∀ i c, b.stage i ≠ .finish c := by
    intro i c hi
    rw [hout i] at hi
    cases hi
  refine ⟨h.published fun i => by rw [hout i]; rfl, fun hready => ?_⟩
  have hmeta := h.idle hr hp (Or.inl hready)
  rw [h.posted hr hf hready, fileIndexFinish_congr hmeta]
  unfold BuildCore.walked
  rw [List.take_length]
  rfl

end

end AgentOS
