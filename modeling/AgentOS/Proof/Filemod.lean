import AgentOS.Lib.Mask
import AgentOS.Model.Filemod

/-!
# FILEMOD and the file that is watched

* `Awaits c j k`: the call `c` has changed the content of inode `k`, and slot `j` has still to hear of
  it.
* `Precise`: no broadcast signals an Agent that watches another file only, and no watch begins and no
  FILEMOD is returned between a change of the file and its signals.
* `FilemodInv`: while FILEMOD is pending or still to come for an Agent that watches a file only, the
  file has changed; `filemodInv_step`.
* **`filemod_precise`**; `filemod_imprecise`: without the condition other files wake it, and so does an
  old change of its own.
-/

namespace AgentOS

open Machine

/-- The call has changed the content of inode `k`, and has still to tell slot `j`. -/
def FilemodCall.Awaits (j : Slot) (k : InodeKey) : FilemodCall → Prop
  | .user | .broadcast none | .signalling none _ _ => False
  | .write k' _ i | .writeback k' _ i => k' = k ∧ 0 < i
  | .changed k' | .broadcast (some k') | .signalling (some k') _ _ => k' = k
  | .notifying k' _ n => k' = k ∧ n ≤ j

instance (j : Slot) (k : InodeKey) : (c : FilemodCall) → Decidable (c.Awaits j k)
  | .user | .broadcast none | .signalling none _ _ => inferInstanceAs (Decidable False)
  | .write .. | .writeback .. | .notifying .. => inferInstanceAs (Decidable (_ ∧ _))
  | .changed k' | .broadcast (some k') | .signalling (some k') _ _ =>
    inferInstanceAs (Decidable (k' = k))

/-- A change of the file that process `i` watches has still to be signalled to it. -/
def FilemodSystem.Owed (s : FilemodSystem) (i : Slot) (k : InodeKey) : Prop :=
  ∃ j, (s.calls j).Awaits i k

instance (s : FilemodSystem) (i : Slot) (k : InodeKey) : Decidable (s.Owed i k) :=
  inferInstanceAs (Decidable (∃ _, _))

/-- FILEMOD is pending for process `i`, or still to come. -/
def FilemodSystem.Due (s : FilemodSystem) (i : Slot) : Prop :=
  FilemodPending (s.proc i) ∨ s.Owed i (watchedKey (s.proc i))

instance (s : FilemodSystem) (i : Slot) : Decidable (s.Due i) :=
  inferInstanceAs (Decidable (_ ∨ _))

/-- `agent_proc_wait` would return FILEMOD. -/
def ReportsFilemod (p : Proc) : Prop :=
  p.loop.pendingEvents &&& agentEventParentGone = 0 ∧ p.mailbox.count ≤ 0 ∧ FilemodPending p

instance (p : Proc) : Decidable (ReportsFilemod p) := inferInstanceAs (Decidable (_ ∧ _))

/-- `agent_signal_filemod` signals this process. An Agent that is DONE hears nothing. -/
def HearsBroadcast (p : Proc) : Prop :=
  p.state ≠ .unused ∧ p.ident.agentType ≠ agentTypeNormal ∧ p.loop.loopState ≠ agentLoopDone ∧
    p.loop.watchMask &&& agentWatchFilemod ≠ 0

instance decidableHearsBroadcast (p : Proc) : Decidable (HearsBroadcast p) :=
  inferInstanceAs (Decidable (_ ∧ _))

/-- **The condition on a step.** -/
def Precise (s : FilemodSystem) : FilemodLabel → Prop
  | .look i =>
    match s.calls i with
    | .signalling _ _ n => ∀ j : Slot, n = j → s.FileOnly j → HearsBroadcast (s.proc j) → s.Due j
    | _ => True
  | .watchFile i k _ =>
    (s.proc i).ident.agentType ≠ agentTypeNormal → s.general i = false →
      ¬ FilemodPending (s.proc i) ∧ ¬ s.Owed i k
  | .wait i _ _ | .round i _ =>
    s.FileOnly i → ReportsFilemod (s.proc i) → ¬ s.Owed i (watchedKey (s.proc i))
  | _ => True

instance (s : FilemodSystem) (l : FilemodLabel) : Decidable (Precise s l) := by
  cases l with
  | look i =>
    unfold Precise
    dsimp only
    split <;> infer_instance
  | _ => unfold Precise; infer_instance

/-- **The invariant.** -/
def FilemodInv (s : FilemodSystem) : Prop := ∀ i, s.FileOnly i → s.Due i → s.changed i = true

section

variable {s t : FilemodSystem} {l : FilemodLabel} {i j x : Slot} {p q : Proc} {k : InodeKey}
  {c : FilemodCall} {now now' : ℕ}

/-! ### Signals -/

/-- A signal leaves the watch alone. -/
theorem signal_watch (event : BitVec 32) :
    (agentSignalEventLocked j p event now).loop.watchMask = p.loop.watchMask ∧
      watchedKey (agentSignalEventLocked j p event now) = watchedKey p := by
  unfold agentSignalEventLocked
  dsimp only
  split <;> exact ⟨rfl, rfl⟩

theorem broadcast_watch : (agentSignalFilemodAt j p now).loop.watchMask = p.loop.watchMask ∧
    watchedKey (agentSignalFilemodAt j p now) = watchedKey p := by
  unfold agentSignalFilemodAt
  split
  · exact signal_watch _
  · exact ⟨rfl, rfl⟩

/-- **`agent_signal_filemod` leaves the others as they are.** -/
theorem broadcast_other (hp : ¬ HearsBroadcast p) : agentSignalFilemodAt j p now = p := by
  unfold agentSignalFilemodAt
  exact if_neg hp

theorem notify_watch {dev inum : ℕ} :
    (agentNotifyFileModifiedAt j p dev inum now).loop.watchMask = p.loop.watchMask ∧
      watchedKey (agentNotifyFileModifiedAt j p dev inum now) = watchedKey p := by
  unfold agentNotifyFileModifiedAt
  split
  · exact signal_watch _
  · exact ⟨rfl, rfl⟩

/-- **`agent_notify_file_modified` signals the Agents that watch the inode only.** -/
theorem notify_other (hk : watchedKey p ≠ k) : agentNotifyFileModifiedAt j p k.1 k.2 now = p := by
  unfold agentNotifyFileModifiedAt
  refine if_neg fun hc => hk ?_
  exact Prod.ext hc.2.2.2.2 hc.2.2.2.1

/-! ### Parts of a step -/

theorem FilemodSystem.setProc_self : (s.setProc i p).proc i = p := Kernel.setProc_self _ _ _

theorem FilemodSystem.setProc_ne (h : x ≠ i) : (s.setProc i p).proc x = s.proc x :=
  Kernel.setProc_ne _ _ _ _ h

/-- Another control point: what it has still to tell, it had before, or it has marked as changed. -/
theorem filemodInv_goto (h : FilemodInv s) (hc : ∀ x, s.FileOnly x →
    c.Awaits x (watchedKey (s.proc x)) →
      (s.calls i).Awaits x (watchedKey (s.proc x)) ∨ s.changed x = true) :
    FilemodInv (s.goto i c) := by
  intro x honly hdue
  have hchanged : s.Due x ∨ s.changed x = true := by
    rcases hdue with hp | ⟨j, ho⟩
    · exact .inl (.inl hp)
    · by_cases hj : j = i
      · subst hj
        have hcall : (s.goto j c).calls j = c := Function.update_self ..
        rw [hcall] at ho
        rcases hc x honly ho with hb | hb
        · exact .inl (.inr ⟨j, hb⟩)
        · exact .inr hb
      · have hcall : (s.goto i c).calls j = s.calls j := Function.update_of_ne hj ..
        rw [hcall] at ho
        exact .inl (.inr ⟨j, ho⟩)
  rcases hchanged with hd | hd
  · exact h x honly hd
  · exact hd

/-- A store marks whoever watches the inode. -/
theorem filemodInv_store {ip : FileInode} {stored : Bool} (h : FilemodInv s) :
    FilemodInv (s.store k ip stored) := by
  intro x honly hdue
  change (s.changed x || _) = true
  rw [h x honly hdue, Bool.true_or]

theorem store_changed {ip : FileInode} {stored : Bool} (hs : stored = true)
    (hk : watchedKey (s.proc x) = k) : (s.store k ip stored).changed x = true := by
  unfold FilemodSystem.store
  simp [hs, hk]

/-- A signal to slot `j`, for which one is due if it watches a file only. -/
theorem filemodInv_signal (h : FilemodInv s) (hmask : p.loop.watchMask = (s.proc j).loop.watchMask)
    (hkey : watchedKey p = watchedKey (s.proc j))
    (hdue : s.FileOnly j → FilemodPending p → s.Due j) : FilemodInv (s.setProc j p) := by
  intro x honly hd
  change s.changed x = true
  by_cases hx : x = j
  · subst hx
    unfold FilemodSystem.FileOnly watchesFilemod at honly
    rw [FilemodSystem.setProc_self, hmask] at honly
    refine h x honly ?_
    rcases hd with hp | ho
    · rw [FilemodSystem.setProc_self] at hp
      exact hdue honly hp
    · rw [FilemodSystem.setProc_self, hkey] at ho
      exact .inr ho
  · unfold FilemodSystem.FileOnly at honly
    unfold FilemodSystem.Due at hd
    rw [FilemodSystem.setProc_ne hx] at honly hd
    exact h x honly hd

/-- A call of process `i` that leaves the others alone. -/
theorem filemodInv_own (h : FilemodInv s) (hcalls : t.calls = s.calls)
    (hothers : ∀ x, x ≠ i → t.proc x = s.proc x ∧ t.general x = s.general x ∧
      t.changed x = s.changed x) (hi : t.FileOnly i → t.Due i → t.changed i = true) :
    FilemodInv t := by
  intro x honly hdue
  by_cases hx : x = i
  · subst hx
    exact hi honly hdue
  · obtain ⟨hp, hg, hch⟩ := hothers x hx
    unfold FilemodSystem.FileOnly at honly
    unfold FilemodSystem.Due FilemodSystem.Owed at hdue
    rw [hp, hg] at honly
    rw [hp, hcalls] at hdue
    rw [hch]
    exact h x honly hdue

/-! ### Writers -/

theorem filemodInv_writeData {off avail : ℕ} {src : List UInt8} {c : ℤ → FilemodCall}
    (h : FilemodInv s) (hc : ∀ r x k', (c r).Awaits x k' →
      (s.calls j).Awaits x k' ∨ (k' = k ∧ 0 < r)) :
    FilemodInv (s.writeData j k off src avail c) := by
  unfold FilemodSystem.writeData
  dsimp only
  set r := writei (s.inodes k).2.data off src avail
  refine filemodInv_goto (filemodInv_store h) fun x _ ha => ?_
  rcases hc _ _ _ ha with hb | ⟨hk, hpos⟩
  · exact .inl hb
  · refine .inr (store_changed ?_ hk)
    simp [hpos]

/-- What `filewrite` has still to tell after a chunk: what it had before, or the chunk is stored. -/
theorem writeNext_awaits {n m n1 : ℕ} {r : ℤ} (hn1 : 0 < n1) {k' : InodeKey}
    (h : (FilemodSystem.writeNext k n m n1 r).Awaits x k') :
    (FilemodCall.write k n m).Awaits x k' ∨ (k' = k ∧ 0 < r) := by
  unfold FilemodSystem.writeNext at h
  split at h
  · rename_i hr
    have hpos : 0 < r := by omega
    split at h
    · exact .inr ⟨h.1.symm, hpos⟩
    · exact .inr ⟨Eq.symm h, hpos⟩
  · split at h
    · rename_i hm
      exact .inl ⟨h, hm⟩
    · exact absurd h id

theorem writebackNext_awaits {n m : ℕ} {r : ℤ} {k' : InodeKey}
    (h : (FilemodSystem.writebackNext k n m r).Awaits x k') :
    (FilemodCall.writeback k n m).Awaits x k' ∨ (k' = k ∧ 0 < r) := by
  unfold FilemodSystem.writebackNext at h
  split at h
  · split at h
    · rename_i hm
      exact .inl ⟨h, hm⟩
    · exact absurd h id
  · rename_i hr
    have hpos : 0 < r := by omega
    split at h
    · exact .inr ⟨h.1.symm, hpos⟩
    · exact .inr ⟨Eq.symm h, hpos⟩

/-- `set_file_attr` and `del_file_attr` change no content. -/
theorem filemodInv_attr {ip : Option FileInode} (h : FilemodInv s) :
    FilemodInv (s.attrStored i k ip) := by
  unfold FilemodSystem.attrStored
  cases ip with
  | none => exact h
  | some ip => exact filemodInv_goto (filemodInv_store h) fun x _ ha => absurd ha id

/-! ### The loops over `proc[]` -/

/-- **One slot of a loop.** -/
theorem filemodInv_look (h : FilemodInv s) (hok : Precise s (.look i))
    (ht : s.next (.look i) = some t) : FilemodInv t := by
  unfold Precise at hok
  unfold FilemodSystem.next at ht
  dsimp only at hok ht
  split at ht
  · -- `agent_signal_filemod`
    rename_i after now n hcall
    rw [hcall] at hok
    dsimp only at hok
    split at ht
    · rename_i hn
      obtain rfl := Option.some.inj ht
      refine filemodInv_goto (filemodInv_signal h broadcast_watch.1 broadcast_watch.2
        fun honly hp => ?_) fun x _ ha => .inl ?_
      · by_cases hhears : HearsBroadcast (s.proc ⟨n, hn⟩)
        · exact hok ⟨n, hn⟩ rfl honly hhears
        · rw [broadcast_other hhears] at hp
          exact .inl hp
      · change (s.calls i).Awaits x _
        rw [hcall]
        cases after <;> exact ha
    · cases after with
      | none =>
        obtain rfl := Option.some.inj ht
        exact filemodInv_goto h fun x _ ha => absurd ha id
      | some k =>
        obtain rfl := Option.some.inj ht
        refine filemodInv_goto h fun x _ ha => .inl ?_
        rw [hcall]
        exact ha
  · -- `agent_notify_file_modified`
    rename_i k now n hcall
    split at ht
    · rename_i hn
      obtain rfl := Option.some.inj ht
      refine filemodInv_goto (filemodInv_signal h notify_watch.1 notify_watch.2
        fun _ hp => ?_) fun x _ ha => .inl ?_
      · by_cases hk : watchedKey (s.proc ⟨n, hn⟩) = k
        · refine .inr ⟨i, ?_⟩
          rw [hcall, hk]
          exact ⟨rfl, le_rfl⟩
        · rw [notify_other hk] at hp
          exact .inl hp
      · change (s.calls i).Awaits x _
        rw [hcall]
        exact ⟨ha.1, Nat.le_of_succ_le ha.2⟩
    · obtain rfl := Option.some.inj ht
      exact filemodInv_goto h fun x _ ha => absurd ha id
  · cases ht

/-! ### Watchers -/

theorem watchesFilemod_iff : watchesFilemod p = true ↔ p.loop.watchMask &&& agentWatchFilemod ≠ 0 := by
  unfold watchesFilemod
  simp

/-- `agent_proc_watch` adds to the mask only. -/
theorem watch_spec {mask : BitVec 32} (hgeneral : ¬ ((agentProcWatch p mask).2 = 0 ∧
    mask &&& agentWatchFilemod ≠ 0)) :
    watchesFilemod (agentProcWatch p mask).1 = watchesFilemod p ∧
      watchedKey (agentProcWatch p mask).1 = watchedKey p ∧
      (agentProcWatch p mask).1.loop.pendingEvents = p.loop.pendingEvents := by
  unfold agentProcWatch at hgeneral ⊢
  split_ifs at hgeneral ⊢
  · exact ⟨rfl, rfl, rfl⟩
  · exact ⟨rfl, rfl, rfl⟩
  · have hmask : mask &&& agentWatchFilemod = 0 := by
      by_contra hne
      exact hgeneral ⟨rfl, hne⟩
    refine ⟨?_, rfl, rfl⟩
    change (((p.loop.watchMask ||| mask) &&& agentWatchFilemod) != 0) = _
    rw [Mask.or_and hmask]
    rfl

/-- `agent_proc_unwatch` takes bits away; a watch for FILEMOD that is left is the old one. -/
theorem unwatch_spec {mask : BitVec 32} (hw : watchesFilemod (agentProcUnwatch p mask).1 = true) :
    watchesFilemod p = true ∧ watchedKey (agentProcUnwatch p mask).1 = watchedKey p ∧
      (FilemodPending (agentProcUnwatch p mask).1 → FilemodPending p) := by
  unfold agentProcUnwatch at hw ⊢
  by_cases htype : p.ident.agentType = agentTypeNormal
  · rw [if_pos htype] at hw ⊢
    exact ⟨hw, rfl, id⟩
  rw [if_neg htype] at hw ⊢
  dsimp only at hw ⊢
  set watch : BitVec 32 := if mask = 0 then 0 else p.loop.watchMask &&& ~~~mask with hwatch
  have hbit : watch &&& agentWatchFilemod ≠ 0 := by
    have hb := watchesFilemod_iff.1 hw
    split_ifs at hb <;> exact hb
  have hold : watchesFilemod p = true := by
    refine watchesFilemod_iff.2 ?_
    rw [hwatch] at hbit
    split at hbit
    · exact absurd hbit (by simp)
    · exact Mask.of_clear hbit
  rw [if_neg hbit]
  refine ⟨hold, ?_, fun hp => ?_⟩
  · split <;> rfl
  · unfold FilemodPending at hp
    split at hp
    · exact Mask.of_clear hp
    · exact hp

/-- A round of the wait loop leaves the watch alone. -/
theorem round_watch : (agentProcWaitIter i p now now').1.loop.watchMask = p.loop.watchMask ∧
    watchedKey (agentProcWaitIter i p now now').1 = watchedKey p := by
  unfold agentProcWaitIter
  split_ifs <;> exact ⟨rfl, rfl⟩

/-- It raises no FILEMOD. -/
theorem round_pending (hp : FilemodPending (agentProcWaitIter i p now now').1) :
    FilemodPending p := by
  unfold agentProcWaitIter at hp
  split_ifs at hp
  · exact Mask.of_clear hp
  · unfold FilemodPending agentProcWaitMessage waitFinish at hp
    dsimp only at hp
    split at hp
    · rw [Mask.or_and (by decide)] at hp
      exact hp
    · exact Mask.of_clear hp
  · exact Mask.of_clear hp
  · exact Mask.of_clear hp
  · exact hp
  · exact hp
  · exact hp

/-- **A round that returns FILEMOD** takes it. -/
theorem round_filemod (hr : (agentProcWaitIter i p now now').2.isFilemod = true) :
    ReportsFilemod p ∧ ¬ FilemodPending (agentProcWaitIter i p now now').1 := by
  unfold agentProcWaitIter at hr ⊢
  split_ifs at hr ⊢ with hgone hcount hfile
  · exact absurd hr (by simp [WaitOutcome.isFilemod, agentWaitFilemod, agentWaitParentGone])
  · exact absurd hr (by simp [WaitOutcome.isFilemod, agentWaitFilemod, agentWaitMessage])
  · refine ⟨⟨not_not.1 hgone, not_lt.1 hcount, hfile⟩, not_not.2 ?_⟩
    change p.loop.pendingEvents &&& ~~~agentEventFilemod &&& agentEventFilemod = 0
    rw [BitVec.and_assoc]
    have h0 : ~~~agentEventFilemod &&& agentEventFilemod = 0 := by decide
    rw [h0]
    simp
  · exact absurd hr (by simp [WaitOutcome.isFilemod, agentWaitFilemod, agentWaitHeartbeat])
  · exact absurd hr (by simp [WaitOutcome.isFilemod, agentWaitFilemod, agentWaitTimeout])
  · exact absurd hr (by simp [WaitOutcome.isFilemod, agentWaitFilemod])
  · exact absurd hr (by simp [WaitOutcome.isFilemod])

/-- **A round of the wait loop.** -/
theorem filemodInv_round (h : FilemodInv s)
    (hloop : p.loop.pendingEvents = (s.proc i).loop.pendingEvents ∧
      p.loop.watchMask = (s.proc i).loop.watchMask ∧ watchedKey p = watchedKey (s.proc i))
    (hbox : p.mailbox = (s.proc i).mailbox)
    (hok : s.FileOnly i → ReportsFilemod (s.proc i) → ¬ s.Owed i (watchedKey (s.proc i))) :
    FilemodInv (s.waitRound i p now') := by
  set r := agentProcWaitIter i p s.kernel.ticks now' with hr
  have hproc : (s.waitRound i p now').proc i = r.1 := Kernel.setProc_self _ _ _
  have hkey : watchedKey r.1 = watchedKey (s.proc i) := round_watch.2.trans hloop.2.2
  refine filemodInv_own (i := i) h rfl (fun x hx => ⟨Kernel.setProc_ne _ _ _ _ hx, rfl, ?_⟩)
    fun honly hdue => ?_
  · change (if r.2.isFilemod then _ else s.changed) x = _
    split
    · exact Function.update_of_ne hx _ _
    · rfl
  · have honly' : s.FileOnly i := by
      refine ⟨?_, honly.2⟩
      have hw := honly.1
      unfold watchesFilemod at hw ⊢
      rw [hproc, round_watch.1, hloop.2.1] at hw
      exact hw
    rcases hdue with hp | ho
    · rw [hproc] at hp
      change (if r.2.isFilemod then _ else s.changed) i = true
      split
      · rename_i hf
        exact absurd hp (round_filemod hf).2
      · refine h i honly' (.inl ?_)
        have hp' : FilemodPending p := round_pending hp
        unfold FilemodPending at hp' ⊢
        rw [← hloop.1]
        exact hp'
    · rw [hproc, hkey] at ho
      have ho' : s.Owed i (watchedKey (s.proc i)) := ho
      change (if r.2.isFilemod then _ else s.changed) i = true
      split
      · rename_i hf
        have hrep := (round_filemod hf).1
        refine absurd ho' (hok honly' ?_)
        unfold ReportsFilemod FilemodPending at hrep ⊢
        rw [← hloop.1, ← hbox]
        exact hrep
      · exact h i honly' (.inr ho')

/-- `agent_watch`: one for FILEMOD takes the Agent out of those that watch a file only. -/
theorem filemodInv_watch {mask : BitVec 32} (h : FilemodInv s)
    (ht : s.next (.watch i mask) = some t) : FilemodInv t := by
  unfold FilemodSystem.next at ht
  dsimp only at ht
  split at ht <;> [skip; cases ht]
  obtain rfl := Option.some.inj ht
  refine filemodInv_own (i := i) h rfl
    (fun x hx => ⟨Kernel.setProc_ne _ _ _ _ hx, Function.update_of_ne hx _ _, rfl⟩)
    fun honly hdue => ?_
  have hgeneral := honly.2
  dsimp only at hgeneral
  rw [Function.update_self, Bool.or_eq_false_iff] at hgeneral
  have hno : ¬ ((agentProcWatch (s.proc i) mask).2 = 0 ∧ mask &&& agentWatchFilemod ≠ 0) := by
    rintro ⟨hret, hbit⟩
    simp [hret] at hgeneral
    exact hbit hgeneral.2
  obtain ⟨hw, hkey, hpending⟩ := watch_spec hno
  have hproc : (s.setProc i (agentProcWatch (s.proc i) mask).1).proc i =
      (agentProcWatch (s.proc i) mask).1 := FilemodSystem.setProc_self
  have honly' : s.FileOnly i := by
    refine ⟨?_, hgeneral.1⟩
    rw [← hw, ← hproc]
    exact honly.1
  refine h i honly' ?_
  rcases hdue with hp | ho
  · left
    have hp' : FilemodPending ((s.setProc i (agentProcWatch (s.proc i) mask).1).proc i) := hp
    rw [hproc] at hp'
    unfold FilemodPending at hp' ⊢
    rw [← hpending]
    exact hp'
  · right
    have ho' : s.Owed i (watchedKey
      ((s.setProc i (agentProcWatch (s.proc i) mask).1).proc i)) := ho
    rw [hproc, hkey] at ho'
    exact ho'

/-- A call of process `i`, or the rest of the kernel, that keeps its watch or ends it. -/
theorem filemodInv_keeps {g : Bool} (h : FilemodInv s) (hp : FilemodKeeps (s.proc i) p)
    (hg : g = (s.general i && watchesFilemod p)) :
    FilemodInv { s.setProc i p with general := Function.update s.general i g } := by
  refine filemodInv_own (i := i) h rfl
    (fun x hx => ⟨Kernel.setProc_ne _ _ _ _ hx, Function.update_of_ne hx _ _, rfl⟩)
    fun honly hdue => ?_
  have hproc : (s.setProc i p).proc i = p := FilemodSystem.setProc_self
  have hw : watchesFilemod ((s.setProc i p).proc i) = true := honly.1
  rw [hproc] at hw
  have hgeneral := honly.2
  dsimp only at hgeneral
  rw [Function.update_self, hg, hw, Bool.and_true] at hgeneral
  obtain ⟨hold, hkey⟩ := hp.2 hw
  refine h i ⟨hold, hgeneral⟩ ?_
  rcases hdue with hpend | ho
  · left
    have hpend' : FilemodPending ((s.setProc i p).proc i) := hpend
    rw [hproc] at hpend'
    exact hp.1 hpend'
  · right
    have ho' : s.Owed i (watchedKey ((s.setProc i p).proc i)) := ho
    rw [hproc, hkey] at ho'
    exact ho'

theorem filemodInv_unwatch {mask : BitVec 32} (h : FilemodInv s)
    (ht : s.next (.unwatch i mask) = some t) : FilemodInv t := by
  unfold FilemodSystem.next at ht
  dsimp only at ht
  split at ht <;> [skip; cases ht]
  obtain rfl := Option.some.inj ht
  by_cases hw : watchesFilemod (agentProcUnwatch (s.proc i) mask).1 = true
  · obtain ⟨hold, hkey, hpending⟩ := unwatch_spec hw
    exact filemodInv_keeps h ⟨hpending, fun _ => ⟨hold, hkey⟩⟩ rfl
  · -- it watches no more
    refine filemodInv_own (i := i) h rfl
      (fun x hx => ⟨Kernel.setProc_ne _ _ _ _ hx, Function.update_of_ne hx _ _, rfl⟩)
      fun honly _ => absurd ?_ hw
    have hon : watchesFilemod ((s.setProc i (agentProcUnwatch (s.proc i) mask).1).proc i) = true :=
      honly.1
    rwa [FilemodSystem.setProc_self] at hon

/-- **`agent_watch_file`**: nothing is due to an Agent that begins to watch. -/
theorem filemodInv_watchFile {path : List UInt8} (h : FilemodInv s)
    (hok : Precise s (.watchFile i k path)) (ht : s.next (.watchFile i k path) = some t) :
    FilemodInv t := by
  unfold Precise at hok
  dsimp only at hok
  unfold FilemodSystem.next at ht
  dsimp only at ht
  split at ht <;> [skip; cases ht]
  obtain rfl := Option.some.inj ht
  by_cases htype : (s.proc i).ident.agentType = agentTypeNormal
  · rw [if_pos htype]
    unfold agentProcWatchFile
    rw [if_pos htype]
    exact filemodInv_signal h rfl rfl fun _ hp => .inl hp
  rw [if_neg htype]
  set p := (agentProcWatchFile (s.proc i) k.1 k.2 path).1 with hp
  have hfields : p.loop.pendingEvents = (s.proc i).loop.pendingEvents ∧ watchedKey p = k := by
    rw [hp]
    unfold agentProcWatchFile
    rw [if_neg htype]
    exact ⟨rfl, rfl⟩
  refine filemodInv_own (i := i) h rfl
    (fun x hx => ⟨Kernel.setProc_ne _ _ _ _ hx, rfl, Function.update_of_ne hx _ _⟩)
    fun honly hdue => ?_
  obtain ⟨hnone, hnot⟩ := hok htype honly.2
  have hproc : (s.setProc i p).proc i = p := FilemodSystem.setProc_self
  rcases hdue with hpend | ho
  · have hpend' : FilemodPending ((s.setProc i p).proc i) := hpend
    rw [hproc] at hpend'
    unfold FilemodPending at hpend'
    rw [hfields.1] at hpend'
    exact absurd hpend' hnone
  · have ho' : s.Owed i (watchedKey ((s.setProc i p).proc i)) := ho
    rw [hproc, hfields.2] at ho'
    exact absurd ho' hnot

/-! ### Runs -/

theorem filemodInv_init (h : filemodMachine.init s) : FilemodInv s := by
  intro i honly
  have hw := honly.1
  unfold watchesFilemod at hw
  rw [(h i).2.2.2.2] at hw
  exact absurd hw (by decide)

/-- **One step.** -/
theorem filemodInv_step (h : FilemodInv s) (hok : Precise s l)
    (ht : filemodMachine.next s l = some t) : FilemodInv t := by
  change s.next l = some t at ht
  cases l with
  | look i => exact filemodInv_look h hok ht
  | watch i mask => exact filemodInv_watch h ht
  | unwatch i mask => exact filemodInv_unwatch h ht
  | watchFile i k path => exact filemodInv_watchFile h hok ht
  | write i k n =>
    unfold FilemodSystem.next at ht
    dsimp only at ht
    split at ht <;> [skip; cases ht]
    obtain rfl := Option.some.inj ht
    exact filemodInv_goto h fun x _ ha => absurd ha.2 (lt_irrefl 0)
  | writeback i k n =>
    unfold FilemodSystem.next at ht
    dsimp only at ht
    split at ht <;> [skip; cases ht]
    obtain rfl := Option.some.inj ht
    exact filemodInv_goto h fun x _ ha => absurd ha.2 (lt_irrefl 0)
  | writeChunk j off src avail =>
    unfold FilemodSystem.next at ht
    dsimp only at ht
    split at ht <;> [skip; cases ht]
    rename_i k n m hcall
    split at ht <;> [skip; cases ht]
    rename_i hlen
    obtain rfl := Option.some.inj ht
    have hpos : 0 < src.length := by
      have hmax : 0 < writeMax := by decide
      omega
    refine filemodInv_writeData h fun r x k' ha => ?_
    rw [hcall]
    exact writeNext_awaits hpos ha
  | writebackChunk j off src avail =>
    unfold FilemodSystem.next at ht
    dsimp only at ht
    split at ht <;> [skip; cases ht]
    rename_i k n m hcall
    split at ht <;> [skip; cases ht]
    obtain rfl := Option.some.inj ht
    refine filemodInv_writeData h fun r x k' ha => ?_
    rw [hcall]
    exact writebackNext_awaits ha
  | patch i params kalloc k free =>
    unfold FilemodSystem.next at ht
    dsimp only at ht
    split at ht <;> [skip; cases ht]
    cases k with
    | none =>
      obtain rfl := Option.some.inj ht
      exact h
    | some k =>
      obtain rfl := Option.some.inj ht
      split
      · rename_i hpatched
        refine filemodInv_goto (filemodInv_store h) fun x _ ha => .inr (store_changed ?_ ?_)
        · rw [hpatched, Bool.true_or]
        · exact Eq.symm ha
      · exact filemodInv_store h
  | setAttr i k key value =>
    unfold FilemodSystem.next at ht
    dsimp only at ht
    split at ht <;> [skip; cases ht]
    obtain rfl := Option.some.inj ht
    exact filemodInv_attr h
  | delAttr i k key =>
    unfold FilemodSystem.next at ht
    dsimp only at ht
    split at ht <;> [skip; cases ht]
    obtain rfl := Option.some.inj ht
    exact filemodInv_attr h
  | signal i =>
    unfold FilemodSystem.next at ht
    dsimp only at ht
    split at ht
    · rename_i k hcall
      obtain rfl := Option.some.inj ht
      refine filemodInv_goto h fun x _ ha => .inl ?_
      rw [hcall]
      exact ha.1
    · rename_i after hcall
      obtain rfl := Option.some.inj ht
      refine filemodInv_goto h fun x _ ha => .inl ?_
      rw [hcall]
      cases after <;> exact ha
    · cases ht
  | wait i n now' =>
    unfold FilemodSystem.next at ht
    dsimp only at ht
    split at ht <;> [skip; cases ht]
    split at ht <;> obtain rfl := Option.some.inj ht
    · exact h
    · exact filemodInv_round h ⟨rfl, rfl, rfl⟩ rfl hok
  | round i now' =>
    unfold FilemodSystem.next at ht
    dsimp only at ht
    split at ht <;> [skip; cases ht]
    obtain rfl := Option.some.inj ht
    exact filemodInv_round h ⟨rfl, rfl, rfl⟩ rfl hok
  | clock =>
    obtain rfl := Option.some.inj ht
    exact h
  | rest j p =>
    unfold FilemodSystem.next at ht
    dsimp only at ht
    split at ht <;> [skip; cases ht]
    rename_i hkeeps
    obtain rfl := Option.some.inj ht
    exact filemodInv_keeps h hkeeps rfl

/-- What `agent_proc_wait` answers. -/
theorem outcome_filemod {o : WaitOutcome} (h : s.outcome l = some (i, o)) (ho : o.isFilemod = true) :
    FilemodPending (s.proc i) := by
  cases l with
  | wait j n now' =>
    unfold FilemodSystem.outcome at h
    dsimp only at h
    split at h
    · cases h
    · obtain ⟨rfl, rfl⟩ := Prod.mk.inj (Option.some.inj h)
      exact (round_filemod ho).1.2.2
  | round j now' =>
    obtain ⟨rfl, rfl⟩ := Prod.mk.inj (Option.some.inj h)
    exact (round_filemod ho).1.2.2
  | _ => cases h

/-- **FILEMOD is precise** in a run whose steps all meet the condition: an Agent that watches a file
only has it pending, and gets it from `agent_proc_wait`, only if the content of the file has changed
since it began to watch or last got it. -/
theorem filemod_precise {tr : List FilemodLabel} (h : filemodMachine.Reach Precise tr s)
    (honly : s.FileOnly i) :
    (FilemodPending (s.proc i) → s.changed i = true) ∧
      ∀ l o, s.outcome l = some (i, o) → o.isFilemod = true → s.changed i = true := by
  have hinv : FilemodInv s :=
    h.inv (fun _ => filemodInv_init) fun _ _ _ hs hok ht => filemodInv_step hs hok ht
  have hpending : FilemodPending (s.proc i) → s.changed i = true := fun hp =>
    hinv i honly (.inl hp)
  exact ⟨hpending, fun l o ho hf => hpending (outcome_filemod ho hf)⟩

end

/-! ### Runs of two Agents -/

/-- Two workers, and files that hold one byte. -/
def twoWorkers : FilemodSystem where
  inodes := fun _ => (.file, ⟨[65], [], []⟩)
  kernel :=
    (Kernel.boot.setProc 0
      { Proc.boot with pid := 1, state := .running, ident.agentType := agentTypeWorker }).setProc 1
        { Proc.boot with pid := 2, state := .running, ident.agentType := agentTypeWorker }
  calls := fun _ => .user
  waiting := fun _ => false
  general := fun _ => false
  changed := fun _ => false

theorem twoWorkers_init : filemodMachine.init twoWorkers := by
  refine fun i => ⟨rfl, rfl, rfl, rfl, ?_⟩
  change (((Kernel.boot.setProc 0 _).setProc 1 _).procs i).loop = _
  rw [Kernel.setProc_procs]
  split
  · rfl
  · rw [Kernel.setProc_procs]
    split <;> rfl

def filemodRuns (tr : List FilemodLabel) : FilemodSystem :=
  (filemodMachine.run twoWorkers tr).getD twoWorkers

/-- The first watches a file and waits. -/
def watchesOne : List FilemodLabel := [.watchFile 0 (1, 5) (lit "watchonly"), .wait 0 0 0]

/-- The second writes a byte to another file, then to this one. -/
def writesBoth : List FilemodLabel :=
  [.write 1 (1, 6) 1, .writeChunk 1 0 (lit "O") 1024, .signal 1] ++ List.replicate 65 (.look 1) ++
    [.write 1 (1, 5) 1, .writeChunk 1 0 (lit "W") 1024, .signal 1] ++ List.replicate 65 (.look 1)

set_option maxRecDepth 100000 in
theorem filemod_precise_write :
    (FilemodPending ((filemodRuns (watchesOne ++ writesBoth)).proc 0) →
        (filemodRuns (watchesOne ++ writesBoth)).changed 0 = true) ∧
      ∀ l o, (filemodRuns (watchesOne ++ writesBoth)).outcome l = some (0, o) →
        o.isFilemod = true → (filemodRuns (watchesOne ++ writesBoth)).changed 0 = true :=
  filemod_precise ⟨_, twoWorkers_init, pathOk_run_getD (by decide +kernel)⟩ (by decide +kernel)

/-- The second sets an attribute of another file. -/
def setsAttr : List FilemodLabel :=
  watchesOne ++ [.setAttr 1 (1, 6) (lit "k") (lit "v"), .signal 1, .look 1]

/-- The second has written before the first watches, and signals after it. -/
def writesBefore : List FilemodLabel :=
  [.write 1 (1, 5) 1, .writeChunk 1 0 (lit "W") 1024, .watchFile 0 (1, 5) (lit "watchonly"),
    .signal 1, .look 1]

/-- The second patches the file; the first has FILEMOD before `agent_notify_file_modified`. -/
def patchesOnce : List FilemodLabel :=
  watchesOne ++ [.patch 1 (lit "path=watchonly;op=replace;old=A;new=B") true (some (1, 5)) 1,
    .signal 1, .look 1, .round 0 0] ++ List.replicate 64 (.look 1) ++ [.signal 1, .look 1]

set_option maxRecDepth 100000 in
/-- **FILEMOD for a file that has not changed.** -/
theorem filemod_imprecise : [setsAttr, writesBefore, patchesOnce].Forall fun tr =>
    filemodMachine.Reach always tr (filemodRuns tr) ∧ (filemodRuns tr).FileOnly 0 ∧
      (∃ l o, (filemodMachine.next (filemodRuns tr) l).isSome = true ∧
        (filemodRuns tr).outcome l = some (0, o) ∧ o.isFilemod = true) ∧
      (filemodRuns tr).changed 0 = false := by
  refine ⟨?_, ?_, ?_⟩
  · exact ⟨⟨_, twoWorkers_init, path_getD (by decide +kernel)⟩, by decide +kernel,
      ⟨.round 0 0, _, by decide +kernel, rfl, by decide +kernel⟩, by decide +kernel⟩
  · exact ⟨⟨_, twoWorkers_init, path_getD (by decide +kernel)⟩, by decide +kernel,
      ⟨.wait 0 5 0, _, by decide +kernel, rfl, by decide +kernel⟩, by decide +kernel⟩
  · exact ⟨⟨_, twoWorkers_init, path_getD (by decide +kernel)⟩, by decide +kernel,
      ⟨.wait 0 5 0, _, by decide +kernel, rfl, by decide +kernel⟩, by decide +kernel⟩

end AgentOS
