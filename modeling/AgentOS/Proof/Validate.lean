import AgentOS.Model.File

/-!
# Validation of Context dependencies

* `raw`: the version of an inode in the table; `NextVersion`: what a change does to the table.
* `Tracked`: the condition on a run, for one inode; `owes`: what a call still has to do to the table.
* `VersionRead.step`, `settled_step`: a recorded version is never passed back, and a change is
  followed by a new version before its call returns.
* `validate_sound`: over whole runs, a dependency on a file that has changed is not valid.
* `open_truncates_silently`: a run against the condition.
-/

namespace AgentOS

open Machine

/-! ### The version table -/

namespace FileVersions

/-- The version in the table; 0 if there is none. -/
def raw (t : FileVersions) (k : InodeKey) : ℕ :=
  match Table.first t (isFor k) with
  | none => 0
  | some i => (t i).version

section

variable {t : FileVersions} {k k' : InodeKey} {i : Fin agentFileVersionMax}

theorem raw_of (h : Table.first t (isFor k) = some i) : raw t k = (t i).version := by
  unfold raw
  rw [h]

theorem first_of_raw (h : raw t k ≠ 0) : ∃ i, Table.first t (isFor k) = some i := by
  unfold raw at h
  split at h
  · exact absurd rfl h
  · exact ⟨_, ‹_›⟩

/-- Two keys do not share an entry. -/
theorem isFor_ne {e : AgentFileVersion} (h : isFor k e = true) (hne : k' ≠ k) : isFor k' e = false := by
  unfold isFor at *
  simp only [Bool.and_eq_true, beq_iff_eq] at h
  rw [Bool.eq_false_iff]
  intro h'
  simp only [Bool.and_eq_true, beq_iff_eq] at h'
  exact hne (Prod.ext (h'.1.2.symm.trans h.1.2) (h'.2.symm.trans h.2))

/-- A lookup finds the entry that is there. -/
theorem find_of_some (h : Table.first t (isFor k) = some i) : fileVersionFind t k = (t, some i) := by
  unfold fileVersionFind
  rw [h]

/-- A lookup leaves the versions that are there as they are, and finds an entry of its key. -/
theorem find_spec (t : FileVersions) (k : InodeKey) :
    (∀ k', raw t k' ≠ 0 → raw (fileVersionFind t k).1 k' = raw t k') ∧
      ∀ i, (fileVersionFind t k).2 = some i → isFor k ((fileVersionFind t k).1 i) = true ∧
        Table.first (fileVersionFind t k).1 (isFor k) = some i := by
  unfold fileVersionFind
  split
  · rename_i i hi
    exact ⟨fun _ _ => rfl, fun i' h => by cases h; exact ⟨Table.first_some hi, hi⟩⟩
  · rename_i hnone
    split
    · exact ⟨fun _ _ => rfl, fun i h => by cases h⟩
    · rename_i i hfree
      have hfree : (t i).used = false := by simpa using Table.first_some hfree
      have hfor : isFor k ⟨true, k.1, k.2, 1, false⟩ = true := by simp [isFor]
      refine ⟨fun k' hk' => ?_, fun i' h => ?_⟩
      · -- the new entry is not of a key that is there
        have hne : k' ≠ k := by
          rintro rfl
          obtain ⟨i', hi'⟩ := first_of_raw hk'
          rw [hnone] at hi'
          cases hi'
        obtain ⟨i', hi'⟩ := first_of_raw hk'
        have hold : isFor k' (t i) = false := by unfold isFor; rw [hfree]; rfl
        have hfirst := (Table.first_update (f := t) (i := i)
          ((isFor_ne hfor hne).trans hold.symm)).trans hi'
        have hi : i' ≠ i := by
          rintro rfl
          rw [Table.first_some hi'] at hold
          cases hold
        rw [raw_of hfirst, raw_of hi', Function.update_of_ne hi]
      · cases h
        dsimp only
        refine ⟨by rw [Function.update_self]; exact hfor, ?_⟩
        refine Table.first_eq_of_unique (by rw [Function.update_self]; exact hfor) fun j hj => ?_
        by_contra hne
        rw [Function.update_of_ne hne, Table.first_none.1 hnone j] at hj
        cases hj

/-- `agentfs_inode_version_get` changes no version that is there, and answers with it. -/
theorem get_spec (t : FileVersions) (k : InodeKey) :
    (∀ k', raw t k' ≠ 0 → raw (agentfsInodeVersionGet t k).1 k' = raw t k') ∧
      ((agentfsInodeVersionGet t k).2 ≠ 0 →
        (agentfsInodeVersionGet t k).2 = raw (agentfsInodeVersionGet t k).1 k) := by
  obtain ⟨hkeep, hfind⟩ := find_spec t k
  unfold agentfsInodeVersionGet
  split
  · rename_i t' heq
    rw [heq] at hkeep
    exact ⟨hkeep, fun h => absurd rfl h⟩
  · rename_i t' i heq
    rw [heq] at hkeep hfind
    refine ⟨hkeep, fun h => ?_⟩
    dsimp only at h ⊢
    rw [raw_of (hfind i rfl).2]
    split at h
    · exact absurd rfl h
    · rename_i hdel
      rw [if_neg hdel]

/-- Storing a new version in the entry that a lookup has found. -/
theorem raw_store {e : AgentFileVersion} (h : Table.first t (isFor k) = some i)
    (he : isFor k e = true) (k' : InodeKey) :
    raw (Function.update t i e) k' = if k' = k then e.version else raw t k' := by
  have hi := Table.first_some h
  by_cases hk : k' = k
  · subst hk
    rw [if_pos rfl, raw_of ((Table.first_update (he.trans hi.symm)).trans h), Function.update_self]
  · have hfirst : Table.first (Function.update t i e) (isFor k') = Table.first t (isFor k') :=
      Table.first_update ((isFor_ne he hk).trans (isFor_ne hi hk).symm)
    rw [if_neg hk]
    unfold raw
    rw [hfirst]
    split
    · rfl
    · rename_i i' hi'
      have hne : i' ≠ i := by
        rintro rfl
        have := Table.first_some hi'
        rw [isFor_ne hi hk] at this
        cases this
      rw [Function.update_of_ne hne]

theorem versionSucc_of {v : ℕ} (h : v < 2 ^ 64 - 1) : versionSucc v = v + 1 := by
  unfold versionSucc
  rw [Nat.mod_eq_of_lt (by omega), if_neg (Nat.succ_ne_zero v)]

/-- **What a bump or a removal leaves**: the table of a lookup that has found no room, or a next
version in the entry that the lookup has found. -/
inductive NextVersion (t : FileVersions) (k : InodeKey) : FileVersions → Prop
  | full (h : (fileVersionFind t k).2 = none) : NextVersion t k (fileVersionFind t k).1
  | stored (i : Fin agentFileVersionMax) (e : AgentFileVersion)
      (h : (fileVersionFind t k).2 = some i) (he : isFor k e = isFor k ((fileVersionFind t k).1 i))
      (hv : e.version = versionSucc ((fileVersionFind t k).1 i).version) :
      NextVersion t k (Function.update (fileVersionFind t k).1 i e)

theorem bump_next (t : FileVersions) (k : InodeKey) :
    NextVersion t k (agentfsInodeVersionBump t k).1 := by
  have hfull := NextVersion.full (t := t) (k := k)
  have hstored := NextVersion.stored (t := t) (k := k)
  unfold agentfsInodeVersionBump
  split <;> rename_i heq <;> rw [heq] at hfull hstored
  · exact hfull rfl
  · exact hstored _ _ rfl rfl rfl

theorem remove_next (t : FileVersions) (k : InodeKey) :
    NextVersion t k (agentfsInodeVersionRemove t k) := by
  have hfull := NextVersion.full (t := t) (k := k)
  have hstored := NextVersion.stored (t := t) (k := k)
  unfold agentfsInodeVersionRemove
  split <;> rename_i heq <;> rw [heq] at hfull hstored
  · exact hfull rfl
  · exact hstored _ _ rfl rfl rfl

/-- **It gives the inode the next version** and leaves the others. -/
theorem NextVersion.raw {t' : FileVersions} (h : NextVersion t k t')
    (hk : k' = k → raw t k < 2 ^ 64 - 1) (h' : raw t k' ≠ 0) :
    raw t' k' = if k' = k then raw t k + 1 else raw t k' := by
  obtain ⟨hkeep, hfind⟩ := find_spec t k
  cases h with
  | full hnone =>
    have hne : k' ≠ k := by
      rintro rfl
      obtain ⟨i, hi⟩ := first_of_raw h'
      rw [find_of_some hi] at hnone
      cases hnone
    rw [if_neg hne]
    exact hkeep k' h'
  | stored i e hi he hv =>
    obtain ⟨hfor, hfirst⟩ := hfind i hi
    rw [raw_store hfirst (he.trans hfor)]
    split
    · rename_i hkk
      subst hkk
      rw [hv, ← raw_of hfirst, hkeep _ h', versionSucc_of (hk rfl)]
    · exact hkeep k' h'

theorem bump_spec (hk : k' = k → raw t k < 2 ^ 64 - 1) (h' : raw t k' ≠ 0) :
    raw (agentfsInodeVersionBump t k).1 k' = if k' = k then raw t k + 1 else raw t k' :=
  (bump_next t k).raw hk h'

theorem remove_spec (hk : k' = k → raw t k < 2 ^ 64 - 1) (h' : raw t k' ≠ 0) :
    raw (agentfsInodeVersionRemove t k) k' = if k' = k then raw t k + 1 else raw t k' :=
  (remove_next t k).raw hk h'

end

end FileVersions

/-! ### Writing -/

section

variable {d src : List UInt8} {off avail fuel : ℕ}

/-- A write that is not cut short writes everything. -/
theorem writeiLoop_full (hfuel : src.length ≤ fuel) (h : src.length ≤ avail) :
    (writeiLoop fuel d off src avail).2 = src.length := by
  -- induction on the fuel; a round writes at least one byte
  induction fuel generalizing d off src avail with
  | zero =>
    have hnil : src = [] := List.length_eq_zero_iff.1 (Nat.le_zero.1 hfuel)
    rw [hnil]
    rfl
  | succ fuel ih =>
    unfold writeiLoop
    dsimp only
    by_cases hnil : src = []
    · rw [if_pos hnil, hnil]
      rfl
    · have hpos : 0 < src.length := List.length_pos_iff.2 hnil
      have hm : 0 < bsize - off % bsize := Nat.sub_pos_of_lt (Nat.mod_lt _ (by decide))
      have hdrop : (src.drop (min src.length (bsize - off % bsize))).length =
          src.length - min src.length (bsize - off % bsize) := List.length_drop ..
      rw [if_neg hnil, if_neg (by omega), ih (by omega) (by omega)]
      omega

/-- A first block that cannot be written leaves the content, where nothing reaches its buffer or
the file ends before it. -/
theorem writeiLoop_first (hcut : avail < min src.length (bsize - off % bsize))
    (h : avail = 0 ∨ off = d.length) (hoff : off ≤ d.length) :
    writeiLoop fuel d off src avail = (d, 0) := by
  cases fuel with
  | zero => rfl
  | succ fuel =>
    have hnil : src ≠ [] := by
      rintro rfl
      simp at hcut
    unfold writeiLoop
    dsimp only
    rw [if_neg hnil, if_pos hcut]
    congr 1
    rcases h with rfl | rfl
    · simp [overlay]
    · simp [overlay]

/-- `writei` writes everything, or leaves the content where it is cut in its first block. -/
theorem writei_full (h : src.length ≤ avail) (hr : ¬ writeiRejects d off src.length) :
    (writei d off src avail).2 = src.length := by
  unfold writei
  rw [if_neg hr]
  dsimp only
  rw [writeiLoop_full le_rfl h]

theorem writei_rejected (hr : writeiRejects d off src.length) : (writei d off src avail) = (d, -1) := by
  unfold writei
  rw [if_pos hr]

theorem writei_first (hcut : avail < min src.length (bsize - off % bsize))
    (h : avail = 0 ∨ off = d.length) : (writei d off src avail).1 = d := by
  unfold writei
  split
  · rfl
  · rename_i hr
    have hoff : off ≤ d.length := not_lt.1 fun hlt => hr (.inl hlt)
    dsimp only
    rw [writeiLoop_first hcut h hoff]

/-- Where the first block is written, `writei` answers with at least one byte. -/
theorem writei_pos (hsrc : src ≠ []) (hcut : min src.length (bsize - off % bsize) ≤ avail)
    (hr : ¬ writeiRejects d off src.length) : 0 < (writei d off src avail).2 := by
  have hpos : 0 < src.length := List.length_pos_iff.2 hsrc
  have hm : 0 < bsize - off % bsize := Nat.sub_pos_of_lt (Nat.mod_lt _ (by decide))
  obtain ⟨n, hn⟩ : ∃ n, src.length = n + 1 := ⟨src.length - 1, by omega⟩
  unfold writei
  rw [if_neg hr, hn]
  unfold writeiLoop
  dsimp only
  rw [if_neg hsrc, if_neg (not_lt.2 hcut)]
  push_cast
  omega

end

/-! ### The condition -/

/-- The call will still call `agentfs_inode_version_remove`. -/
def removing : FileCall → InodeKey → Prop
  | .remove k', k => k' = k
  | .iput _ next, k => removing next k
  | _, _ => False

/-- The call will still give the inode a new version. -/
def owes : FileCall → InodeKey → Prop
  | .write _ k' _ i, k => k' = k ∧ 0 < i
  | .writeback k' _ _ i, k => k' = k ∧ 0 < i
  | .notify k', k => k' = k
  | .remove k', k => k' = k
  | .iput _ next, k => owes next k
  | _, _ => False

/-- Some `sys_unlink` that removed the last link has still to remove the version. -/
def removePending (s : FileState) (k : InodeKey) : Prop := ∃ i, removing (s.calls i) k

/-- **The condition on a step on inode `k`**: a change of content is not left unannounced, and the
version of an unlinked inode is removed before the inode is freed or allocated again. -/
def Tracked (k : InodeKey) (s : FileState) (a : FileLabel) : Prop :=
  match a.op, s.calls a.thread with
  -- `sys_open` does not discard anything
  | .opened (some _), .opening k' true _ =>
    k' = k → (s.inode k).type = .file → (s.inode k).data = []
  -- the first chunk of `filewrite` is written whole, or nothing of it
  | .writeChunk src avail, .write f k' _ 0 =>
    k' = k → ∀ x, s.files f = some x → src.length ≤ avail ∨ avail = 0 ∨
      writeiRejects (s.inode k).data x.off src.length ∨
      x.off = (s.inode k).data.length ∧ avail < bsize - x.off % bsize
  -- the first block of `writeback` is written, or nothing of it
  | .writebackChunk src avail, .writeback k' off _ 0 =>
    k' = k → avail < min src.length (bsize - off % 2 ^ 32 % bsize) →
      avail = 0 ∨ writeiRejects (s.inode k).data (off % 2 ^ 32) src.length ∨
        off % 2 ^ 32 = (s.inode k).data.length
  -- the disk has room for the patched file
  | .patchContent avail, .patch k' old newtext =>
    k' = k → ∀ off, strFind (s.inode k).data old = some off →
      (patched (s.inode k).data old newtext off).length ≤ avail
  -- a version that is recorded is that of an inode with a link, or is to be removed
  | .readContent, .read k' =>
    k' = k → 0 < (s.inode k).nlink ∨ removePending s k ∨
      (s.versions.agentfsInodeVersionGet k).2 = 0
  | .linkEntry false, .linked k' => k' = k → (s.inode k).nlink ≠ 1
  | .iput, .iput k' _ => k' = k → (s.inode k).ref = 1 → (s.inode k).nlink = 0 →
      ∀ i, i ≠ a.thread → ¬ removing (s.calls i) k
  | .create k' _ _ _ _, .kernel => k' = k → ¬ removePending s k
  -- no version wraps
  | .notify, .notify k' => k' = k → s.versions.raw k < 2 ^ 64 - 1
  | .remove, .remove k' => k' = k → s.versions.raw k < 2 ^ 64 - 1
  | _, _ => True

/-! ### What a step does -/

/-- What a step of thread `j` does to an inode. -/
inductive InodeStep (s t : FileState) (j : Slot) (k : InodeKey) : Prop
  | same (type : (t.inode k).type = (s.inode k).type) (nlink : (t.inode k).nlink = (s.inode k).nlink)
      (data : (t.inode k).data = (s.inode k).data)
  | content (type : (t.inode k).type = (s.inode k).type)
      (nlink : (t.inode k).nlink = (s.inode k).nlink)
      (owed : owes (t.calls j) k ∨ (s.inode k).type = .dir)
  | links (type : (t.inode k).type = (s.inode k).type) (data : (t.inode k).data = (s.inode k).data)
      (last : 0 < (t.inode k).nlink ∨ (s.inode k).nlink = 0 ∨ removing (t.calls j) k)
  | freed (type : (t.inode k).type = .free) (nlink : (s.inode k).nlink = 0)
      (alone : ∀ i, i ≠ j → ¬ removing (s.calls i) k)
  | created (type : (s.inode k).type = .free) (idle : ¬ removePending s k)

/-- **What a step of thread `j` does**, for inode `k`. -/
structure FileChange (k : InodeKey) (s t : FileState) (j : Slot) : Prop where
  others : ∀ i, i ≠ j → t.calls i = s.calls i
  version : s.versions.raw k ≠ 0 →
    t.versions.raw k = s.versions.raw k ∨ t.versions.raw k = s.versions.raw k + 1
  owes : s.versions.raw k ≠ 0 → owes (s.calls j) k →
    owes (t.calls j) k ∨ t.versions.raw k = s.versions.raw k + 1
  removing : s.versions.raw k ≠ 0 → removing (s.calls j) k →
    removing (t.calls j) k ∨ t.versions.raw k = s.versions.raw k + 1
  inode : InodeStep s t j k

section

variable {s t : FileState} {j : Slot} {k k' : InodeKey} {c : FileCall}

theorem InodeStep.of_eq (h : t.inode = s.inode) : InodeStep s t j k :=
  .same (by rw [h]) (by rw [h]) (by rw [h])

/-- A step that stores one inode. -/
theorem InodeStep.of_update {x : Inode} (h : t.inode = Function.update s.inode k' x)
    (hk : k' = k → InodeStep s t j k) : InodeStep s t j k := by
  by_cases hkk : k = k'
  · exact hk hkk.symm
  · have hne : t.inode k = s.inode k := by rw [h, Function.update_of_ne hkk]
    exact .same (by rw [hne]) (by rw [hne]) (by rw [hne])

/-- A step that keeps the versions. -/
theorem FileChange.ofCalls (hc : t.calls = Function.update s.calls j c)
    (hv : s.versions.raw k ≠ 0 → t.versions.raw k = s.versions.raw k)
    (ho : AgentOS.owes (s.calls j) k → AgentOS.owes c k)
    (hr : AgentOS.removing (s.calls j) k → AgentOS.removing c k)
    (hi : InodeStep s t j k) : FileChange k s t j where
  others i hij := by rw [hc, Function.update_of_ne hij]
  version hk := .inl (hv hk)
  owes _ h := .inl (by rw [hc, Function.update_self]; exact ho h)
  removing _ h := .inl (by rw [hc, Function.update_self]; exact hr h)
  inode := hi

/-- Nothing is owed at this place of a call. -/
def Idle (c : FileCall) : Prop := ∀ k, ¬ owes c k ∧ ¬ removing c k

theorem FileChange.ofIdle {c₀ : FileCall} (hj : s.calls j = c₀) (h0 : Idle c₀)
    (hc : t.calls = Function.update s.calls j c)
    (hv : s.versions.raw k ≠ 0 → t.versions.raw k = s.versions.raw k)
    (hi : InodeStep s t j k) : FileChange k s t j := by
  refine FileChange.ofCalls hc hv (fun h => absurd h ?_) (fun h => absurd h ?_) hi
  · rw [hj]
    exact (h0 k).1
  · rw [hj]
    exact (h0 k).2

/-- A step that only moves its thread. -/
theorem FileChange.goto {c₀ : FileCall} (hj : s.calls j = c₀) (h0 : Idle c₀) :
    FileChange k s (s.goto j c) j :=
  FileChange.ofIdle hj h0 rfl (fun _ => rfl) (InodeStep.of_eq rfl)

/-- A call that finds an inode. -/
theorem FileChange.namei (hj : s.calls j = .kernel) (h : s.namei j k' c = some t) :
    FileChange k s t j := by
  unfold FileState.namei at h
  split at h
  · obtain rfl := Option.some.inj h
    refine FileChange.ofIdle hj (fun _ => ⟨id, id⟩) rfl (fun _ => rfl)
      (InodeStep.of_update rfl ?_)
    rintro rfl
    refine .same ?_ ?_ ?_ <;>
      simp only [FileState.goto, FileState.setInode, Function.update_self]
  · cases h

/-- A step that stores the content of an inode. -/
theorem InodeStep.setData {d : List UInt8} (hi : t.inode = (s.setData k' d).inode)
    (h : k' = k → d ≠ (s.inode k).data → owes (t.calls j) k ∨ (s.inode k).type = .dir) :
    InodeStep s t j k := by
  refine InodeStep.of_update hi ?_
  rintro rfl
  have hk : t.inode k' = { s.inode k' with data := d } := by
    rw [hi]
    exact Function.update_self ..
  by_cases hd : d = (s.inode k').data
  · exact .same (by rw [hk]) (by rw [hk]) (by rw [hk]; exact hd)
  · exact .content (by rw [hk]) (by rw [hk]) (h rfl hd)

theorem patchContent_change {old newtext : List UInt8} {avail : ℕ} {a : FileLabel}
    (hop : a.op = .patchContent avail) (hj : s.calls a.thread = .patch k' old newtext)
    (hok : Tracked k s a) (h : s.next a = some t) : FileChange k s t a.thread := by
  have h0 : Idle (.patch k' old newtext) := fun _ => ⟨id, id⟩
  simp only [Tracked, hop, hj] at hok
  simp only [FileState.next, hop, hj] at h
  split at h
  · obtain rfl := Option.some.inj h
    exact FileChange.goto hj h0
  · split at h
    · obtain rfl := Option.some.inj h
      exact FileChange.goto hj h0
    · rename_i off hoff
      split at h
      · obtain rfl := Option.some.inj h
        exact FileChange.goto hj h0
      · rename_i hlen
        by_cases hkk : k' = k
        · subst hkk
          -- the disk has room, so `writei` writes the whole text
          have hlen : (patched (s.inode k').data old newtext off).length < pgsize - 1 :=
            not_le.1 hlen
          have hrejects :
              ¬ writeiRejects [] 0 (patched (s.inode k').data old newtext off).length := by
            unfold pgsize at hlen
            unfold writeiRejects maxFileSize bsize
            simp only [List.length_nil]
            omega
          have hfull := writei_full (hok rfl off hoff) hrejects
          rw [hfull, if_neg (fun hne => hne rfl)] at h
          obtain rfl := Option.some.inj h
          refine FileChange.ofIdle hj h0 rfl (fun _ => rfl)
            (InodeStep.setData rfl fun _ _ => .inl ?_)
          simp only [FileState.goto, Function.update_self]
          exact rfl
        · split at h
          all_goals
            obtain rfl := Option.some.inj h
            exact FileChange.ofIdle hj h0 rfl (fun _ => rfl)
              (InodeStep.setData rfl fun he => absurd he hkk)

theorem opened_change {f : Option ℕ} {trunc writable : Bool} {a : FileLabel}
    (hop : a.op = .opened f) (hj : s.calls a.thread = .opening k' trunc writable)
    (hok : Tracked k s a) (h : s.next a = some t) : FileChange k s t a.thread := by
  have h0 : Idle (.opening k' trunc writable) := fun _ => ⟨id, id⟩
  simp only [FileState.next, hop, hj] at h
  split at h
  · obtain rfl := Option.some.inj h
    exact FileChange.goto hj h0
  cases f with
  | none =>
    obtain rfl := Option.some.inj h
    exact FileChange.goto hj h0
  | some f =>
    dsimp only at h
    split at h
    · split at h
      · rename_i htrunc
        obtain rfl := Option.some.inj h
        simp only [Tracked, hop, hj, htrunc.1] at hok
        refine FileChange.ofIdle hj h0 rfl (fun _ => rfl) (InodeStep.setData rfl fun he hne => ?_)
        subst he
        exact absurd (hok rfl htrunc.2).symm hne
      · obtain rfl := Option.some.inj h
        exact FileChange.ofIdle hj h0 rfl (fun _ => rfl) (InodeStep.of_eq rfl)
    · cases h

theorem writeNext_owes {f n i n1 : ℕ} {r : ℤ} (h : 0 < i ∨ r = n1 ∧ 0 < n1) :
    owes (FileState.writeNext k f n i r n1) k := by
  unfold FileState.writeNext
  split
  · rename_i hr
    split
    · exact ⟨rfl, by omega⟩
    · exact rfl
  · rename_i hr
    have hi : 0 < i := h.resolve_right fun h => hr h.1
    rw [if_pos hi]
    exact rfl

/-- A chunk that `writei` writes whole or not at all changes nothing, or makes its call owe a
new version. -/
theorem writeChunk_owes {f n i avail off : ℕ} {src d : List UInt8}
    (hne : (writei d off src avail).1 ≠ d)
    (h : 0 < i ∨ src.length ≤ avail ∨ avail = 0 ∨ writeiRejects d off src.length ∨
      off = d.length ∧ avail < bsize - off % bsize) :
    owes (FileState.writeNext k f n i (writei d off src avail).2 src.length) k := by
  have hrej : ¬ writeiRejects d off src.length := fun hr => hne (by rw [writei_rejected hr])
  have hsrc : 0 < src.length := by
    refine Nat.pos_of_ne_zero fun h0 => hne ?_
    rw [List.length_eq_zero_iff.1 h0]
    unfold writei
    split <;> rfl
  by_cases hfull : src.length ≤ avail
  · exact writeNext_owes (.inr ⟨writei_full hfull hrej, hsrc⟩)
  have hm : 0 < bsize - off % bsize := Nat.sub_pos_of_lt (Nat.mod_lt _ (by decide))
  rcases h with hi | hfull' | h0 | hr | ⟨hend, hblock⟩
  · exact writeNext_owes (.inl hi)
  · exact absurd hfull' hfull
  · exact absurd (writei_first (by omega) (.inl h0)) hne
  · exact absurd hr hrej
  · exact absurd (writei_first (by omega) (.inr hend)) hne

theorem writeChunk_change {f n i avail : ℕ} {src : List UInt8} {a : FileLabel}
    (hop : a.op = .writeChunk src avail) (hj : s.calls a.thread = .write f k' n i)
    (hok : Tracked k s a) (h : s.next a = some t) : FileChange k s t a.thread := by
  simp only [FileState.next, hop, hj] at h
  split at h
  · rename_i x hx
    split at h
    · obtain rfl := Option.some.inj h
      obtain ⟨c, hc⟩ : ∃ c, c = FileState.writeNext k' f n i
        (writei (s.inode k').data x.off src avail).2 src.length := ⟨_, rfl⟩
      refine FileChange.ofCalls (c := c) (by rw [hc]; rfl) (fun _ => rfl) (fun h => ?_)
        (fun h => ?_) (InodeStep.setData rfl fun he hne => .inl ?_)
      · rw [hj] at h
        obtain ⟨rfl, hi⟩ := h
        rw [hc]
        exact writeNext_owes (.inl hi)
      · rw [hj] at h
        exact absurd h id
      · subst he
        simp only [FileState.goto, Function.update_self]
        refine writeChunk_owes hne ?_
        cases i with
        | succ i => exact .inl (Nat.succ_pos i)
        | zero =>
          simp only [Tracked, hop, hj] at hok
          exact .inr (hok trivial x hx)
    · cases h
  · cases h

theorem writebackNext_owes {off n i : ℕ} {r : ℤ} (h : 0 < i ∨ 0 < r) :
    owes (FileState.writebackNext k off n i r) k := by
  unfold FileState.writebackNext
  split
  · rename_i hr
    rw [if_pos (h.resolve_right (by omega))]
    exact rfl
  · split
    · exact ⟨rfl, by omega⟩
    · exact rfl

theorem writebackChunk_owes {off o n i avail : ℕ} {src d : List UInt8}
    (hne : (writei d o src avail).1 ≠ d)
    (h : 0 < i ∨ (avail < min src.length (bsize - o % bsize) →
      avail = 0 ∨ writeiRejects d o src.length ∨ o = d.length)) :
    owes (FileState.writebackNext k off n i (writei d o src avail).2) k := by
  have hrej : ¬ writeiRejects d o src.length := fun hr => hne (by rw [writei_rejected hr])
  have hsrc : src ≠ [] := by
    rintro rfl
    refine hne ?_
    unfold writei
    split <;> rfl
  rcases h with hi | h
  · exact writebackNext_owes (.inl hi)
  by_cases hcut : avail < min src.length (bsize - o % bsize)
  · rcases h hcut with h0 | hr | hend
    · exact absurd (writei_first hcut (.inl h0)) hne
    · exact absurd hr hrej
    · exact absurd (writei_first hcut (.inr hend)) hne
  · exact writebackNext_owes (.inr (writei_pos hsrc (not_lt.1 hcut) hrej))

theorem writebackChunk_change {off n i avail : ℕ} {src : List UInt8} {a : FileLabel}
    (hop : a.op = .writebackChunk src avail) (hj : s.calls a.thread = .writeback k' off n i)
    (hok : Tracked k s a) (h : s.next a = some t) : FileChange k s t a.thread := by
  simp only [FileState.next, hop, hj] at h
  split at h
  · obtain rfl := Option.some.inj h
    obtain ⟨c, hc⟩ : ∃ c, c = FileState.writebackNext k' off n i
      (writei (s.inode k').data ((off + i) % 2 ^ 32) src avail).2 := ⟨_, rfl⟩
    refine FileChange.ofCalls (c := c) (by rw [hc]; rfl) (fun _ => rfl) (fun h => ?_)
      (fun h => ?_) (InodeStep.setData rfl fun he hne => .inl ?_)
    · rw [hj] at h
      obtain ⟨rfl, hi⟩ := h
      rw [hc]
      exact writebackNext_owes (.inl hi)
    · rw [hj] at h
      exact absurd h id
    · subst he
      simp only [FileState.goto, Function.update_self]
      refine writebackChunk_owes hne ?_
      cases i with
      | succ i => exact .inl (Nat.succ_pos i)
      | zero =>
        simp only [Tracked, hop, hj] at hok
        exact .inr (hok trivial)
  · cases h

/-- A step that stores the link count of an inode. -/
theorem InodeStep.setLinks {n : ℕ}
    (hi : t.inode = (s.setInode k' { s.inode k' with nlink := n }).inode)
    (h : k' = k → 0 < n ∨ (s.inode k).nlink = 0 ∨ removing (t.calls j) k) :
    InodeStep s t j k := by
  refine InodeStep.of_update hi ?_
  rintro rfl
  have hk : t.inode k' = { s.inode k' with nlink := n } := by
    rw [hi]
    exact Function.update_self ..
  exact .links (by rw [hk]) (by rw [hk]) (by rw [hk]; exact h rfl)

theorem unlinkEntry_change {isEmpty : Bool} {a : FileLabel} (hop : a.op = .unlinkEntry isEmpty)
    (hj : s.calls a.thread = .unlinking k') (h : s.next a = some t) :
    FileChange k s t a.thread := by
  have h0 : Idle (.unlinking k') := fun _ => ⟨id, id⟩
  simp only [FileState.next, hop, hj] at h
  split at h
  · cases h
  split at h
  · obtain rfl := Option.some.inj h
    exact FileChange.goto hj h0
  split at h
  · obtain rfl := Option.some.inj h
    refine FileChange.ofIdle hj h0 rfl (fun _ => rfl)
      (InodeStep.setLinks rfl fun he => .inr (.inr ?_))
    simp only [FileState.goto, Function.update_self]
    exact he
  · rename_i hlast
    obtain rfl := Option.some.inj h
    exact FileChange.ofIdle hj h0 rfl (fun _ => rfl)
      (InodeStep.setLinks rfl fun _ => .inl (Nat.pos_of_ne_zero hlast))

theorem linkEntry_change {ok : Bool} {a : FileLabel} (hop : a.op = .linkEntry ok)
    (hj : s.calls a.thread = .linked k') (hok : Tracked k s a) (h : s.next a = some t) :
    FileChange k s t a.thread := by
  have h0 : Idle (.linked k') := fun _ => ⟨id, id⟩
  simp only [FileState.next, hop, hj] at h
  cases ok with
  | true =>
    obtain rfl := Option.some.inj h
    exact FileChange.goto hj h0
  | false =>
    simp only [Tracked, hop, hj] at hok
    obtain rfl := Option.some.inj h
    refine FileChange.ofIdle hj h0 rfl (fun _ => rfl) (InodeStep.setLinks rfl fun he => ?_)
    subst he
    have hlink := hok rfl
    omega

/-- A step on the version table, from a place where its call owes a version of `u` alone. -/
theorem FileChange.ofVersion {u : InodeKey} (hc : t.calls = Function.update s.calls j .kernel)
    (hv : s.versions.raw k ≠ 0 → t.versions.raw k =
      if k = u then s.versions.raw u + 1 else s.versions.raw k)
    (ho : AgentOS.owes (s.calls j) k → u = k)
    (hr : AgentOS.removing (s.calls j) k → u = k) (hi : t.inode = s.inode) :
    FileChange k s t j where
  others i hij := by rw [hc, Function.update_of_ne hij]
  version hk := by
    rw [hv hk]
    split
    · rename_i h
      rw [h]
      exact .inr rfl
    · exact .inl rfl
  owes hk h := by rw [hv hk, if_pos (ho h).symm, ho h]; exact .inr rfl
  removing hk h := by rw [hv hk, if_pos (hr h).symm, hr h]; exact .inr rfl
  inode := InodeStep.of_eq hi

theorem iput_change {next : FileCall} {a : FileLabel} (hop : a.op = .iput)
    (hj : s.calls a.thread = .iput k' next) (hok : Tracked k s a) (h : s.next a = some t) :
    FileChange k s t a.thread := by
  simp only [Tracked, hop, hj] at hok
  simp only [FileState.next, hop, hj] at h
  obtain rfl := Option.some.inj h
  refine FileChange.ofCalls (c := next) rfl (fun _ => rfl) (fun h => ?_) (fun h => ?_)
    (InodeStep.of_update rfl ?_)
  · rw [hj] at h
    exact h
  · rw [hj] at h
    exact h
  · rintro rfl
    by_cases hfree : (s.inode k').ref = 1 ∧ (s.inode k').nlink = 0
    · refine .freed ?_ hfree.2 (hok rfl hfree.1 hfree.2)
      simp only [FileState.iput, FileState.goto, FileState.setInode, Function.update_self,
        if_pos hfree]
    · refine .same ?_ ?_ ?_ <;>
        simp only [FileState.iput, FileState.goto, FileState.setInode, Function.update_self,
          if_neg hfree]

/-- **The step theorem**: one case for each operation. -/
theorem fileNext_change {a : FileLabel} (hok : Tracked k s a) (h : s.next a = some t) :
    FileChange k s t a.thread := by
  have hrun := h
  unfold FileState.next at h
  dsimp only at h
  split at h
  all_goals rename_i hop hj
  case h_1 | h_2 | h_24 =>
    obtain rfl := Option.some.inj h
    exact FileChange.goto hj fun _ => ⟨id, id⟩
  case h_3 =>
    obtain ⟨r, -, rfl⟩ := Option.map_eq_some_iff.1 h
    refine FileChange.ofIdle hj (fun _ => ⟨id, id⟩) (c := .kernel) ?_ (fun _ => rfl)
      (InodeStep.of_eq rfl)
    rw [← hj]
    exact (Function.update_eq_self _ _).symm
  case h_4 | h_9 | h_13 | h_16 | h_23 => exact FileChange.namei hj h
  case h_5 k =>
    split at h
    · obtain rfl := Option.some.inj h
      exact FileChange.ofIdle hj (fun _ => ⟨id, id⟩) rfl ((FileVersions.get_spec _ _).1 _)
        (InodeStep.of_eq rfl)
    · obtain rfl := Option.some.inj h
      exact FileChange.goto hj fun _ => ⟨id, id⟩
  case h_6 =>
    obtain rfl := Option.some.inj h
    exact FileChange.ofIdle hj (fun _ => ⟨id, id⟩) rfl (fun _ => rfl) (InodeStep.of_eq rfl)
  case h_7 =>
    split at h
    · cases h
    · exact FileChange.namei hj h
  case h_8 => exact patchContent_change hop hj hok hrun
  case h_10 k type dirlink trunc writable =>
    simp only [Tracked, hop, hj] at hok
    split at h
    · rename_i hfree
      split at h
      all_goals
        obtain rfl := Option.some.inj h
        refine FileChange.ofIdle hj (fun _ => ⟨id, id⟩) rfl (fun _ => rfl)
          (InodeStep.of_update rfl ?_)
        rintro rfl
        exact .created hfree.1 (hok rfl)
    · cases h
  case h_11 => exact opened_change hop hj hok hrun
  case h_12 =>
    obtain ⟨x, -, rfl⟩ := Option.map_eq_some_iff.1 h
    exact FileChange.ofIdle hj (fun _ => ⟨id, id⟩) rfl (fun _ => rfl) (InodeStep.of_eq rfl)
  case h_14 k =>
    split at h
    · obtain rfl := Option.some.inj h
      exact FileChange.goto hj fun _ => ⟨id, id⟩
    · obtain rfl := Option.some.inj h
      exact FileChange.ofIdle hj (fun _ => ⟨id, id⟩) rfl (fun _ => rfl)
        (InodeStep.setLinks rfl fun _ => .inl (Nat.succ_pos _))
  case h_15 => exact linkEntry_change hop hj hok hrun
  case h_17 => exact unlinkEntry_change hop hj hrun
  case h_18 k data =>
    split at h
    · rename_i hdir
      obtain rfl := Option.some.inj h
      refine FileChange.ofIdle hj (fun _ => ⟨id, id⟩) (c := .kernel) ?_ (fun _ => rfl)
        (InodeStep.setData rfl fun he _ => .inr (he ▸ hdir))
      rw [← hj]
      exact (Function.update_eq_self _ _).symm
    · cases h
  case h_19 =>
    split at h
    · split at h
      · obtain rfl := Option.some.inj h
        refine FileChange.ofIdle hj (fun _ => ⟨id, id⟩) rfl (fun _ => rfl) (InodeStep.of_eq rfl)
      · cases h
    · cases h
  case h_20 => exact writeChunk_change hop hj hok hrun
  case h_21 =>
    split at h
    · obtain rfl := Option.some.inj h
      exact FileChange.ofIdle hj (fun _ => ⟨id, id⟩) rfl (fun _ => rfl) (InodeStep.of_eq rfl)
    · cases h
  case h_22 => exact writebackChunk_change hop hj hok hrun
  case h_25 => exact iput_change hop hj hok hrun
  case h_26 k' =>
    simp only [Tracked, hop, hj] at hok
    obtain rfl := Option.some.inj h
    refine FileChange.ofVersion (u := k') rfl (fun hk => FileVersions.bump_spec (fun he => ?_) hk)
      (fun h => ?_) (fun h => ?_) rfl
    · subst he
      exact hok rfl
    · rw [hj] at h
      exact h
    · rw [hj] at h
      exact absurd h id
  case h_27 k' =>
    simp only [Tracked, hop, hj] at hok
    obtain rfl := Option.some.inj h
    refine FileChange.ofVersion (u := k') rfl
      (fun hk => FileVersions.remove_spec (fun he => ?_) hk) (fun h => ?_) (fun h => ?_) rfl
    · subst he
      exact hok rfl
    · rw [hj] at h
      exact h
    · rw [hj] at h
      exact h
  case h_28 => cases h

theorem owes_of_removing {c : FileCall} (h : removing c k) : owes c k := by
  induction c with
  | iput _ _ ih => exact ih h
  | remove => exact h
  | _ => exact absurd h id

end

/-! ### VersionRead versions -/

/-- **A version `v` that was recorded for `k`** is never ahead of the table; while it is the
version there, the inode has a link, or its version is to be removed. -/
structure VersionRead (k : InodeKey) (v : ℕ) (s : FileState) : Prop where
  pos : v ≠ 0
  le : v ≤ s.versions.raw k
  live : s.versions.raw k = v → (s.inode k).type ≠ .dir ∧
    ((s.inode k).type ≠ .free ∧ 0 < (s.inode k).nlink ∨ removePending s k)

/-- The content of an inode changes, or its last link is removed. -/
def Touched (k : InodeKey) (s t : FileState) : Prop :=
  (t.inode k).data ≠ (s.inode k).data ∨ 0 < (s.inode k).nlink ∧ (t.inode k).nlink = 0

/-- The inode has a later version, or call `i` will give it one. -/
def Settled (k : InodeKey) (v : ℕ) (i : Slot) (s : FileState) : Prop :=
  v < s.versions.raw k ∨ owes (s.calls i) k

section

variable {s t : FileState} {i j : Slot} {k : InodeKey} {v : ℕ}

theorem VersionRead.present (h : VersionRead k v s) : s.versions.raw k ≠ 0 := by
  have hp := h.pos
  have hle := h.le
  omega

/-- A removal stays pending until it has been made. -/
theorem FileChange.pending (hc : FileChange k s t j) (h : VersionRead k v s)
    (hsame : t.versions.raw k = s.versions.raw k) (hp : removePending s k) : removePending t k := by
  obtain ⟨i, hi⟩ := hp
  by_cases hij : i = j
  · subst hij
    refine ⟨i, (hc.removing h.present hi).resolve_right ?_⟩
    omega
  · exact ⟨i, by rw [hc.others i hij]; exact hi⟩

/-- **A step keeps a recorded version.** -/
theorem VersionRead.step (h : VersionRead k v s) (hc : FileChange k s t j) : VersionRead k v t := by
  have hle := h.le
  have hv := hc.version h.present
  refine ⟨h.pos, by omega, fun heq => ?_⟩
  have hsame : t.versions.raw k = s.versions.raw k := by omega
  obtain ⟨hdir, hlive⟩ := h.live (by omega)
  have hpend := hc.pending h hsame
  cases hc.inode with
  | same type nlink =>
    rw [type, nlink]
    exact ⟨hdir, hlive.imp_right hpend⟩
  | content type nlink =>
    rw [type, nlink]
    exact ⟨hdir, hlive.imp_right hpend⟩
  | links type _ last =>
    rw [type]
    refine ⟨hdir, ?_⟩
    rcases hlive with ⟨hfree, hpos⟩ | hp
    · rcases last with hpos' | h0 | hr
      · exact .inl ⟨hfree, hpos'⟩
      · omega
      · exact .inr ⟨j, hr⟩
    · exact .inr (hpend hp)
  | freed type nlink =>
    rw [type]
    refine ⟨by decide, .inr (hpend (hlive.resolve_left fun hl => ?_))⟩
    omega
  | created type idle =>
    exact absurd (hlive.resolve_left fun hl => hl.1 type) idle

/-- **A step that touches the inode** gives it a new version, or makes its call owe one. -/
theorem VersionRead.touched (h : VersionRead k v s) (hc : FileChange k s t j) (ht : Touched k s t) :
    Settled k v j t := by
  have hle := h.le
  have hv := hc.version h.present
  by_cases hlt : v < t.versions.raw k
  · exact .inl hlt
  have hsame : t.versions.raw k = s.versions.raw k := by omega
  obtain ⟨hdir, hlive⟩ := h.live (by omega)
  refine .inr ?_
  cases hc.inode with
  | same _ nlink data =>
    rcases ht with hd | hn
    · exact absurd data hd
    · omega
  | content _ _ owed => exact owed.resolve_right hdir
  | links _ data last =>
    rcases ht with hd | hn
    · exact absurd data hd
    · rcases last with hpos | h0 | hr
      · omega
      · omega
      · exact owes_of_removing hr
  | freed _ nlink alone =>
    -- the inode is freed by the call that removes its version
    obtain ⟨i, hi⟩ := hlive.resolve_left fun hl => by omega
    have hij : i = j := by
      by_contra hne
      exact alone i hne hi
    subst hij
    refine owes_of_removing ((hc.removing h.present hi).resolve_right ?_)
    omega
  | created type idle => exact absurd (hlive.resolve_left fun hl => hl.1 type) idle

/-- What a call owes it still owes, or has done. -/
theorem Settled.step (hs : Settled k v i s) (h : VersionRead k v s) (hc : FileChange k s t j) :
    Settled k v i t := by
  have hle := h.le
  have hv := hc.version h.present
  rcases hs with hlt | ho
  · exact .inl (by omega)
  · by_cases hij : i = j
    · subst hij
      rcases hc.owes h.present ho with ho' | hnew
      · exact .inr ho'
      · exact .inl (by omega)
    · exact .inr (by rw [hc.others i hij]; exact ho)

theorem VersionRead.path {tr : List FileLabel} (h : VersionRead k v s)
    (hp : fileMachine.Path (Tracked k) s tr t) : VersionRead k v t :=
  hp.inv (fun _ _ _ h hok hn => h.step (fileNext_change hok hn)) h

theorem Settled.path {tr : List FileLabel} (hs : Settled k v i s) (h : VersionRead k v s)
    (hp : fileMachine.Path (Tracked k) s tr t) : Settled k v i t := by
  refine (hp.inv (P := fun s => Settled k v i s ∧ VersionRead k v s) (fun _ _ _ h hok hn => ?_)
    ⟨hs, h⟩).1
  have hc := fileNext_change hok hn
  exact ⟨h.1.step h.2 hc, h.2.step hc⟩

/-! ### The theorem -/

/-- **Since `s`, a system call that touched the inode has returned**, in a run to `t` whose steps
all meet `ok`. -/
def TouchedSince (ok : FileState → FileLabel → Prop) (k : InodeKey) (s t : FileState) : Prop :=
  ∃ tr₁ u₁ a u₂ tr₂ u₃ u₄ tr₃, fileMachine.Path ok s tr₁ u₁ ∧ ok u₁ a ∧
    fileMachine.next u₁ a = some u₂ ∧ Touched k u₁ u₂ ∧ fileMachine.Path ok u₂ tr₂ u₃ ∧
    ok u₃ ⟨a.thread, .ret⟩ ∧ fileMachine.next u₃ ⟨a.thread, .ret⟩ = some u₄ ∧
    fileMachine.Path ok u₄ tr₃ t

/-- `read_file` of thread `j` reads the inode and records version `v`. -/
def ReadsVersion (s t : FileState) (j : Slot) (k : InodeKey) (v : ℕ) : Prop :=
  s.calls j = .read k ∧ (s.inode k).type = .file ∧ fileMachine.next s ⟨j, .readContent⟩ = some t ∧
    t.calls j = .iput k (.readDone k v)

/-- A read records the version in the table. -/
theorem versionRead_of_read (h : ReadsVersion s t j k v) (hok : Tracked k s ⟨j, .readContent⟩)
    (hv : v ≠ 0) : VersionRead k v t := by
  obtain ⟨hj, htype, hnext, hcall⟩ := h
  simp only [Tracked, hj] at hok
  simp only [fileMachine, FileState.next, hj, htype, if_true] at hnext
  obtain rfl := Option.some.inj hnext
  simp only [FileState.goto, Function.update_self, FileCall.iput.injEq, true_and,
    FileCall.readDone.injEq] at hcall
  subst hcall
  have hraw := (FileVersions.get_spec s.versions k).2 hv
  refine ⟨hv, hraw.le, fun _ => ⟨?_, ?_⟩⟩
  · change (s.inode k).type ≠ .dir
    rw [htype]
    decide
  · rcases hok trivial with hpos | ⟨i, hi⟩ | h0
    · refine .inl ⟨?_, hpos⟩
      change (s.inode k).type ≠ .free
      rw [htype]
      decide
    · refine .inr ⟨i, ?_⟩
      have hij : i ≠ j := by
        rintro rfl
        rw [hj] at hi
        exact hi
      simp only [FileState.goto, Function.update_of_ne hij]
      exact hi
    · exact absurd h0 hv

/-- A dependency is valid only with the version of the table. -/
theorem validate_valid {c : ContextState} {T : FileVersions} {sequence : ℕ}
    (h : (agentContextValidate c T sequence).2.state = .valid) :
    let r := (agentContextValidate c T sequence).2
    r.recordedVersion ≠ 0 ∧
      r.recordedVersion = (T.agentfsInodeVersionGet (r.dev, r.inum)).2 := by
  unfold agentContextValidate at h ⊢
  dsimp only at h ⊢
  split at h
  · cases h
  · split at h
    · cases h
    · dsimp only at h
      rename_i hused
      rw [if_neg hused]
      dsimp only
      split at h
      · cases h
      · rename_i h0
        split at h
        · cases h
        · rename_i hv
          have heq := not_not.1 hv
          exact ⟨fun hz => h0 (heq.trans hz), heq.symm⟩

theorem ret_kernel {i : Slot} (h : fileMachine.next s ⟨i, .ret⟩ = some t) : s.calls i = .kernel := by
  simp only [fileMachine, FileState.next] at h
  cases hc : s.calls i <;> simp only [hc] at h <;> first | rfl | cases h

/-- **Validation is sound** in every run that meets the condition for its inode: a node that depends on a file
that has been changed or removed, by a call that has returned, is not valid. -/
theorem validate_sound {s₀ s₁ s : FileState} {j : Slot} {k : InodeKey} {v : ℕ}
    (hread : ReadsVersion s₀ s₁ j k v) (hok : Tracked k s₀ ⟨j, .readContent⟩)
    (hsince : TouchedSince (Tracked k) k s₁ s) (i : Slot) (sequence : ℕ) :
    let r := (agentContextValidate (s.agent i).proc.ctx s.versions sequence).2
    (r.dev, r.inum) = k → r.recordedVersion = v → r.state ≠ .valid := by
  intro r hk hv hvalid
  obtain ⟨hne, hcur⟩ := validate_valid hvalid
  change r.recordedVersion ≠ 0 at hne
  change r.recordedVersion = (s.versions.agentfsInodeVersionGet (r.dev, r.inum)).2 at hcur
  rw [hv] at hne
  rw [hk, hv] at hcur
  have h₁ := versionRead_of_read hread hok hne
  obtain ⟨tr₁, u₁, a, u₂, tr₂, u₃, u₄, tr₃, hp₁, hoka, hstep, ht, hp₂, hokr, hret, hp₃⟩ := hsince
  have hu₁ := h₁.path hp₁
  have hca := fileNext_change hoka hstep
  have hu₂ := hu₁.step hca
  have hu₃ := hu₂.path hp₂
  have hset := (hu₁.touched hca ht).path hu₂ hp₂
  -- a call that returns owes nothing
  have hkernel : u₃.calls a.thread = .kernel := ret_kernel hret
  have hlt : v < u₃.versions.raw k := by
    refine hset.resolve_right fun howes => ?_
    rw [hkernel] at howes
    exact howes
  have hend : VersionRead k v s ∧ v < s.versions.raw k := by
    refine (Path.cons hokr hret hp₃).inv (P := fun s => VersionRead k v s ∧ v < s.versions.raw k)
      (fun _ _ _ h hok hn => ?_) ⟨hu₃, hlt⟩
    have hc := fileNext_change hok hn
    have hver := hc.version h.1.present
    exact ⟨h.1.step hc, by omega⟩
  obtain ⟨hkeep, hget⟩ := FileVersions.get_spec s.versions k
  have hraw := hkeep k hend.1.present
  have hcur' := hget (by rw [← hcur]; exact hne)
  have hgt := hend.2
  omega

end

/-! ### Two runs -/

/-- A disk with one file of one byte. -/
def oneFile : FileState where
  inode k := if k = (1, 2) then ⟨.file, 1, [65], 0⟩ else ⟨.free, 0, [], 0⟩
  files _ := none
  versions := FileVersions.init
  calls _ := .user
  agent _ := ⟨{ Proc.boot with sz := pgsize }, ⟨fun _ => 0, fun _ => false, fun _ => false⟩⟩

/-- `agent_create(PRIMARY, 0, 0)` of process 0. -/
def readerMark : MarkArgs where
  type := agentTypePrimary
  heartbeatInterval := 0
  resourceQuota := 0
  uvmalloc := true
  generation := 1
  now := 1
  atLeave := AgentGlobal.init
  atJoin := AgentGlobal.init

/-- The state that a run from `s` ends in. -/
def after (s : FileState) (tr : List FileLabel) : FileState := (fileMachine.run s tr).getD s

/-- The state that a step from `s` ends in. -/
def afterStep (s : FileState) (a : FileLabel) : FileState := (fileMachine.next s a).getD s

theorem after_path {s : FileState} {tr : List FileLabel}
    (h : (fileMachine.run s tr).isSome = true) : fileMachine.Path always s tr (after s tr) :=
  path_getD h

theorem afterStep_next {s : FileState} {a : FileLabel} (h : (fileMachine.next s a).isSome = true) :
    fileMachine.next s a = some (afterStep s a) :=
  next_getD h

/-- Process 0 becomes an Agent and is about to read the file. -/
def startRead : List FileLabel :=
  [⟨0, .enter⟩, ⟨0, .context (.mark readerMark)⟩, ⟨0, .readFile (1, 2)⟩]

/-- The rest of the read, which pushes a node. -/
def endRead : List FileLabel :=
  [⟨0, .iput⟩, ⟨0, .readDone⟩, ⟨0, .context (.push ⟨0, 1, 0, 0, 0, [], []⟩ 1)⟩]

/-- The file has been read. -/
def fileRead : FileState := afterStep (after oneFile startRead) ⟨0, .readContent⟩

theorem oneFile_init : fileMachine.init oneFile :=
  ⟨rfl, fun _ => rfl, fun _ => ⟨rfl, rfl, rfl, rfl, rfl, fun h => absurd rfl h⟩⟩

set_option maxRecDepth 100000 in
theorem fileRead_reads : ReadsVersion (after oneFile startRead) fileRead 0 (1, 2) 1 :=
  ⟨by decide +kernel, by decide +kernel, afterStep_next (by decide +kernel), by decide +kernel⟩

/-! The file is unlinked while it is read. -/

/-- Process 1 has the inode in hand. -/
def unlinkFound : FileState := after fileRead [⟨1, .enter⟩, ⟨1, .unlink (1, 2)⟩]

/-- The last link is gone. -/
def unlinked : FileState := afterStep unlinkFound ⟨1, .unlinkEntry true⟩

/-- The version is removed. -/
def versionRemoved : FileState := afterStep (afterStep unlinked ⟨1, .iput⟩) ⟨1, .remove⟩

/-- The unlink has returned. -/
def unlinkDone : FileState := afterStep versionRemoved ⟨1, .ret⟩

/-- The reader has pushed its node. -/
def nodePushed : FileState := after (afterStep unlinkDone ⟨0, .iput⟩) endRead.tail

set_option maxRecDepth 100000 in
theorem unlink_touches : TouchedSince (Tracked (1, 2)) (1, 2) fileRead nodePushed := by
  have hiput : fileMachine.Path (Tracked (1, 2)) unlinked [⟨1, .iput⟩] (afterStep unlinked ⟨1, .iput⟩) := by
    refine Path.single ?_ (afterStep_next (by decide +kernel))
    have hj : unlinked.calls 1 = .iput (1, 2) (.remove (1, 2)) := by decide +kernel
    have href : (unlinked.inode (1, 2)).ref ≠ 1 := by decide +kernel
    simp only [Tracked, hj]
    exact fun _ h => absurd h href
  have hremove : fileMachine.Path (Tracked (1, 2)) (afterStep unlinked ⟨1, .iput⟩) [⟨1, .remove⟩]
      versionRemoved := by
    refine Path.single ?_ (afterStep_next (by decide +kernel))
    have hj : (afterStep unlinked ⟨1, .iput⟩).calls 1 = .remove (1, 2) := by decide +kernel
    simp only [Tracked, hj]
    decide +kernel
  have hput : fileMachine.Path (Tracked (1, 2)) unlinkDone [⟨0, .iput⟩] (afterStep unlinkDone ⟨0, .iput⟩) := by
    refine Path.single ?_ (afterStep_next (by decide +kernel))
    have hj : unlinkDone.calls 0 = .iput (1, 2) (.readDone (1, 2) 1) := by decide +kernel
    have hidle : ∀ i, i ≠ 0 → unlinkDone.calls i = .user := by decide +kernel
    simp only [Tracked, hj]
    intro _ _ _ i hi
    rw [hidle i hi]
    exact id
  have hrest : fileMachine.Path (Tracked (1, 2)) (afterStep unlinkDone ⟨0, .iput⟩) endRead.tail nodePushed :=
    (after_path (by decide +kernel)).of_labels fun a ha s => by
      simp only [endRead, List.tail_cons, List.mem_cons, List.not_mem_nil, or_false] at ha
      rcases ha with rfl | rfl <;> trivial
  refine ⟨[⟨1, .enter⟩, ⟨1, .unlink (1, 2)⟩], unlinkFound, ⟨1, .unlinkEntry true⟩, unlinked, _, versionRemoved, unlinkDone, _,
    (after_path (by decide +kernel)).of_labels fun a ha s => ?_, trivial,
    afterStep_next (by decide +kernel), .inr (by decide +kernel), hiput.trans hremove, trivial,
    afterStep_next (by decide +kernel), hput.trans hrest⟩
  simp only [List.mem_cons, List.not_mem_nil, or_false] at ha
  rcases ha with rfl | rfl <;> trivial

set_option maxRecDepth 100000 in
theorem validate_sound_unlink :
    let r := (agentContextValidate (nodePushed.agent 0).proc.ctx nodePushed.versions 1).2
    (r.dev, r.inum) = (1, 2) ∧ r.recordedVersion = 1 ∧ r.state ≠ .valid := by
  have hj : (after oneFile startRead).calls 0 = .read (1, 2) := by decide +kernel
  have hok : Tracked (1, 2) (after oneFile startRead) ⟨0, .readContent⟩ := by
    simp only [Tracked, hj]
    exact fun _ => .inl (by decide +kernel)
  exact ⟨by decide +kernel, by decide +kernel, validate_sound fileRead_reads hok unlink_touches 0 1
    (by decide +kernel) (by decide +kernel)⟩

/-! The file is truncated after the node was pushed. -/

/-- Process 1 has found the file, to open it with `O_TRUNC`. -/
def truncFound : FileState := after fileRead (endRead ++ [⟨1, .enter⟩, ⟨1, .openPath (1, 2) true true⟩])

/-- The file is open and empty. -/
def truncated : FileState := afterStep truncFound ⟨1, .opened (some 0)⟩

/-- The open has returned. -/
def truncDone : FileState := afterStep truncated ⟨1, .ret⟩

set_option maxRecDepth 100000 in
/-- **A truncating open goes unnoticed**: the call has emptied the file and returned, and the
node that read it is still valid. -/
theorem open_truncates_silently :
    fileMachine.Reach always startRead (after oneFile startRead) ∧
      ReadsVersion (after oneFile startRead) fileRead 0 (1, 2) 1 ∧
      TouchedSince always (1, 2) fileRead truncDone ∧
      (agentContextValidate (truncDone.agent 0).proc.ctx truncDone.versions 1).2 =
        ⟨1, 1, 2, 1, 1, .valid⟩ := by
  refine ⟨⟨oneFile, oneFile_init, after_path (by decide +kernel)⟩, fileRead_reads, ?_,
    by decide +kernel⟩
  exact ⟨endRead ++ [⟨1, .enter⟩, ⟨1, .openPath (1, 2) true true⟩], truncFound, ⟨1, .opened (some 0)⟩, truncated, [], truncated, truncDone, [],
    after_path (by decide +kernel), trivial, afterStep_next (by decide +kernel), .inl (by decide +kernel),
    Path.nil _, trivial, afterStep_next (by decide +kernel), Path.nil _⟩

end AgentOS
