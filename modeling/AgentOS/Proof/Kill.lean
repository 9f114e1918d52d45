import AgentOS.Proof.Exit

/-!
# Whom an explicit cascade kill spares

* `Names`: `workflow_leader_pid` is the pid that `workflow_id` names, but between the stores of
  `agent_mark_current`.
* `spared_step`: no process becomes the leader of a workflow that is there already, and a
  killed one stays killed.
* **`cascade_kill_spares`**; `leader_killed`: a worker with `AGENT_CAP_WORKFLOW_CTRL` kills the
  leader.
-/

namespace AgentOS

open Machine

namespace CascadeState

variable (s : CascadeState) (c j : Slot)

/-- Process `j` is the leader process of the workflow that process `c` is in. -/
def IsLeader : Prop :=
  (s.proc j).state ≠ .unused ∧ (s.proc j).pid = (s.proc c).wf.workflowLeaderPid ∧
    (s.proc j).ident.identityGeneration = (s.proc c).wf.workflowLeaderGeneration

instance : Decidable (s.IsLeader c j) := inferInstanceAs (Decidable (_ ∧ _))

/-- Process `c` is in `agent_cascade_kill`. -/
def InKill : Prop :=
  (∃ now, s.calls c = .cascade now false) ∨ ∃ key n now, s.calls c = .sweep key n now false

/-- A step of `c` kills none but members of its workflow other than the leader, and leaves the
processes of other workflows alone. -/
def Spares (l : CascadeLabel) : Prop :=
  l.thread = some c → ∀ t, s.next l = some t →
    (∀ j, (s.proc j).killed = false → (t.proc j).killed = true →
      (s.proc j).wf.key = (s.proc c).wf.key ∧ ¬ s.IsLeader c j) ∧
    ∀ j, (s.proc j).wf.key ≠ (s.proc c).wf.key → t.proc j = s.proc j

/-- The caller is the leader, or the leader is gone or killed. -/
def Sparing : Prop :=
  s.IsLeader c c ∨ ∀ j, s.IsLeader c j → (s.proc j).killed = true

end CascadeState

section

variable {s t u : CascadeState} {c i j : Slot} {l : CascadeLabel} {tr tr' : List CascadeLabel}

/-! ### The name of the leader -/

/-- `workflow_leader_pid` is the pid that names the workflow. -/
def Membership.Named (m : Membership) : Prop := m.workflowLeaderPid = m.workflowId

/-- **The invariant of names**: they agree but between two stores of `agent_mark_current`. -/
def Names (s : CascadeState) : Prop :=
  ∀ j, (s.proc j).wf.Named ∨ ∃ type, s.calls j = .markOwn type

/-- A step of thread `i` that changes one record at most, that of slot `j`. -/
theorem Names.move {k : Call} (h : Names s) (hc : t.calls = Function.update s.calls i k)
    (hi : i ≠ j → (s.proc i).wf.Named) (hne : ∀ m, m ≠ j → (t.proc m).wf = (s.proc m).wf)
    (hj : (t.proc j).wf.Named) : Names t := by
  intro m
  by_cases hmj : m = j
  · rw [hmj]
    exact .inl hj
  rw [hne m hmj]
  by_cases hmi : m = i
  · rw [hmi]
    exact .inl (hi fun hij => hmj (hmi.trans hij))
  · rw [hc, Function.update_of_ne hmi]
    exact h m

/-- A step that changes one record and moves no thread. -/
theorem Names.stay (h : Names s) (hc : t.calls = s.calls)
    (hst : ∀ m, (t.proc m).wf = (s.proc m).wf ∨ (t.proc m).wf.Named) : Names t := by
  intro m
  rcases hst m with hw | hok
  · rw [hw, hc]
    exact h m
  · exact .inl hok

theorem leave_named {g : AgentGlobal} {m : Membership} (h : m.Named) :
    (agentWorkflowLeave g m).2.Named := by
  unfold agentWorkflowLeave
  dsimp only
  (repeat' split) <;> exact h

/-- A thread elsewhere agrees with itself. -/
theorem Names.own {k : Call} (h : Names s) (hc : s.calls i = k) (hk : ∀ type, k ≠ .markOwn type) :
    (s.proc i).wf.Named := by
  subst hc
  rcases h i with hok | ⟨type, hc⟩
  · exact hok
  · exact absurd hc (hk type)

theorem setProc_wf {v : CascadeState} (p : Proc) (hv : ∀ m, m ≠ j → v.proc m = s.proc m) :
    ∀ m, m ≠ j → ((v.setProc j p).proc m).wf = (s.proc m).wf := by
  intro m hm
  rw [CascadeState.setProc_ne _ _ _ _ hm, hv m hm]

/-- The thread only moves. -/
theorem Names.goto (h : Names s) (k : Call) (hi : (s.proc i).wf.Named) : Names (s.goto i k) :=
  h.move (j := i) rfl (fun _ => hi) (fun _ _ => rfl) hi

/-! ### The sections, one by one -/

theorem Names.other {p : Proc} (h : Names s) (hn : s.next (.other i p) = some t) : Names t := by
  simp only [CascadeState.next] at hn
  split at hn
  swap
  · cases hn
  rename_i hk
  simp only [Option.some.injEq] at hn
  subst hn
  refine h.stay rfl fun m => .inl ?_
  by_cases hm : m = i
  · subst hm
    rw [CascadeState.setProc_self]
    exact hk.2.wf
  · exact setProc_wf p (fun _ _ => rfl) m hm

theorem Names.reap (h : Names s) (hn : s.next (.reap i) = some t) : Names t := by
  simp only [CascadeState.next] at hn
  split at hn
  swap
  · cases hn
  simp only [Option.some.injEq] at hn
  subst hn
  refine h.stay rfl fun m => ?_
  by_cases hm : m = i
  · subst hm
    rw [CascadeState.setProc_self]
    exact .inr rfl
  · exact .inl (setProc_wf _ (fun _ _ => rfl) m hm)

theorem Names.mark {type hb : ℤ} {quota : ℕ} {u : Bool} {now now' : ℕ} (h : Names s)
    (hn : s.next (.mark i type hb quota u now now') = some t) : Names t := by
  simp only [CascadeState.next] at hn
  split at hn
  swap
  · cases hn
  rename_i hc
  have hi := h.own hc (by simp)
  split at hn
  · simp only [Option.some.injEq] at hn
    subst hn
    exact h
  · rename_i k hk
    simp only [Option.some.injEq] at hn
    subst hn
    obtain ⟨-, -, -, hne⟩ := markCurrent_frame i hk
    obtain ⟨-, hwf, -⟩ := markCurrent_ident hk
    refine h.move (j := i) rfl (fun _ => hi) (fun m hm => congrArg Proc.wf (hne m hm)) ?_
    change (k.procs i).wf.Named
    rw [hwf]
    exact hi

theorem Names.storeId (h : Names s) (hn : s.next (.storeId i) = some t) : Names t := by
  simp only [CascadeState.next] at hn
  split at hn
  swap
  · cases hn
  rename_i type hc
  simp only [Option.some.injEq] at hn
  subst hn
  intro m
  by_cases hm : m = i
  · subst hm
    exact .inr ⟨type, Function.update_self ..⟩
  · rw [CascadeState.goto_calls, Function.update_of_ne hm]
    simp only [CascadeState.goto_proc, CascadeState.setWf]
    rw [CascadeState.setProc_ne _ _ _ _ hm]
    exact h m

theorem Names.storeOwn (h : Names s) (hI : ThreadInv s)
    (hn : s.next (.storeOwn i) = some t) : Names t := by
  simp only [CascadeState.next] at hn
  split at hn
  swap
  · cases hn
  rename_i type hc
  have hth := hI.thread i
  rw [hc] at hth
  simp only [Option.some.injEq] at hn
  subst hn
  refine h.move (j := i) rfl (fun hne => absurd rfl hne) (setProc_wf _ fun _ _ => rfl) ?_
  simpa [Membership.Named] using hth.2.2.2.2.symm

theorem Names.leave (h : Names s) (hn : s.next (.leave i) = some t) : Names t := by
  simp only [CascadeState.next] at hn
  split at hn
  · rename_i type hc
    have hi := h.own hc (by simp)
    split at hn
    · simp only [Option.some.injEq] at hn
      subst hn
      refine h.move (j := i) rfl (fun _ => hi) (setProc_wf _ fun _ _ => rfl) ?_
      simpa [CascadeState.setWf] using leave_named hi
    split at hn
    · simp only [Option.some.injEq] at hn
      subst hn
      refine h.move (j := i) rfl (fun _ => hi) (setProc_wf _ fun _ _ => rfl) ?_
      simpa [CascadeState.setWf, Membership.Named] using hi
    split at hn
    · simp only [Option.some.injEq] at hn
      subst hn
      refine h.move (j := i) rfl (fun _ => hi) (setProc_wf _ fun _ _ => rfl) ?_
      simpa [CascadeState.setWf, Membership.Named] using hi
    · simp only [Option.some.injEq] at hn
      subst hn
      refine h.move (j := i) rfl (fun _ => hi) (setProc_wf _ ?_) ?_
      · exact fun m hm => CascadeState.setProc_ne _ _ _ _ hm
      · simpa [CascadeState.markDone, CascadeState.setWf, markContext, Membership.Named] using hi
  · rename_i hc
    have hi := h.own hc (by simp)
    simp only [Option.some.injEq] at hn
    subst hn
    refine h.move (j := i) rfl (fun _ => hi) (setProc_wf _ fun _ _ => rfl) ?_
    simpa [CascadeState.setWf] using leave_named hi
  · cases hn

theorem Names.create (h : Names s) (hn : s.next (.create i) = some t) : Names t := by
  simp only [CascadeState.next] at hn
  split at hn
  swap
  · cases hn
  rename_i hc
  have hi := h.own hc (by simp)
  split at hn <;> simp only [Option.some.injEq] at hn <;> subst hn
  · refine h.move (j := i) rfl (fun _ => hi) (setProc_wf _ fun _ _ => rfl) ?_
    simpa [CascadeState.markDone, markContext] using hi
  · refine h.move (j := i) rfl (fun _ => hi) (setProc_wf _ ?_) ?_
    · exact fun m hm => CascadeState.setProc_ne _ _ _ _ hm
    · simpa [CascadeState.markDone, CascadeState.setWf, markContext, Membership.Named] using hi

theorem Names.join (h : Names s) (hn : s.next (.join i) = some t) : Names t := by
  simp only [CascadeState.next] at hn
  split at hn
  swap
  · cases hn
  rename_i hc
  have hi := h.own hc (by simp)
  split at hn <;> simp only [Option.some.injEq] at hn <;> subst hn
  · refine h.move (j := i) rfl (fun _ => hi) (setProc_wf _ ?_) ?_
    · exact fun m hm => CascadeState.setProc_ne _ _ _ _ hm
    · simpa [CascadeState.markDone, CascadeState.setWf, markContext, Membership.Named] using hi
  · exact h.goto .kernel hi

theorem Names.fork (h : Names s) (hn : s.next (.fork i j) = some t) : Names t := by
  simp only [CascadeState.next] at hn
  split at hn
  swap
  · cases hn
  rename_i hc
  have hi := h.own hc.1 (by simp)
  simp only [Option.some.injEq] at hn
  subst hn
  refine h.move (j := j) rfl (fun _ => hi) (setProc_wf _ fun _ _ => rfl) ?_
  change ((s.setProc j (allocprocAt (s.proc j) s.kernel.nextpid)).proc j).wf.Named
  rw [CascadeState.setProc_self]
  rfl

theorem Names.forkFail (h : Names s) (hn : s.next (.forkFail i) = some t) : Names t := by
  simp only [CascadeState.next] at hn
  split at hn
  swap
  · cases hn
  rename_i j hc
  have hi := h.own hc (by simp)
  simp only [Option.some.injEq] at hn
  subst hn
  refine h.move (j := j) rfl (fun _ => hi) (setProc_wf _ fun _ _ => rfl) ?_
  simp [freeproc, agentInitProc, Membership.Named, Membership.init]

theorem Names.forkStore (h : Names s) (hn : s.next (.forkStore i) = some t) : Names t := by
  simp only [CascadeState.next] at hn
  split at hn
  swap
  · cases hn
  rename_i j hc
  have hi := h.own hc (by simp)
  simp only [Option.some.injEq] at hn
  subst hn
  refine h.move (j := j) rfl (fun _ => hi) (setProc_wf _ fun _ _ => rfl) ?_
  simpa [agentAfterFork, forkMembership, Membership.Named] using hi

theorem Names.forkJoin (h : Names s) (hI : ThreadInv s)
    (hn : s.next (.forkJoin i) = some t) : Names t := by
  simp only [CascadeState.next] at hn
  split at hn
  swap
  · cases hn
  rename_i j hc
  have hi := h.own hc (by simp)
  -- the child has no thread
  have hj := h.own (hI.idle i j (by rw [hc]; rfl)) (by simp)
  split at hn <;> simp only [Option.some.injEq] at hn <;> subst hn
  · exact h.goto _ hi
  · refine h.move (j := j) rfl (fun _ => hi) (setProc_wf _ fun _ _ => rfl) ?_
    simp only [CascadeState.goto_proc, CascadeState.setProc_self]
    split <;> exact hj

theorem Names.forkRun (h : Names s) (hI : ThreadInv s)
    (hn : s.next (.forkRun i) = some t) : Names t := by
  simp only [CascadeState.next] at hn
  split at hn
  swap
  · cases hn
  rename_i j hc
  have hi := h.own hc (by simp)
  have hj := h.own (hI.idle i j (by rw [hc]; rfl)) (by simp)
  simp only [Option.some.injEq] at hn
  subst hn
  have hrun : Names ((s.setProc j { s.proc j with state := .runnable, parent := some i }).goto i
      .kernel) := by
    refine h.move (j := j) rfl (fun _ => hi) (setProc_wf _ fun _ _ => rfl) ?_
    simpa using hj
  refine hrun.move (j := j) rfl (fun hne => absurd rfl hne) (fun _ _ => rfl) ?_
  simpa using hj

theorem Names.sweep (h : Names s) (hn : s.next (.sweep i) = some t) : Names t := by
  simp only [CascadeState.next] at hn
  split at hn
  swap
  · cases hn
  rename_i key n now exiting hc
  have hi := h.own hc (by simp)
  split at hn
  swap
  · cases hn
  rename_i hm
  split at hn
  swap
  · cases hn
  split at hn <;> simp only [Option.some.injEq] at hn <;> subst hn
  · refine (h.goto _ hi).stay rfl fun m => .inl ?_
    by_cases hmj : m = ⟨n, hm⟩
    · subst hmj
      rw [CascadeState.setProc_self]
      rfl
    · exact setProc_wf _ (fun _ _ => rfl) m hmj
  · exact h.goto _ hi

theorem Names.zombie (h : Names s) (hn : s.next (.zombie i) = some t) : Names t := by
  simp only [CascadeState.next] at hn
  split at hn
  swap
  · cases hn
  rename_i hc
  have hi := h.own hc.1 (by simp)
  simp only [Option.some.injEq] at hn
  subst hn
  refine h.move (j := i) rfl (fun _ => hi) (setProc_wf _ fun _ _ => rfl) ?_
  simpa using hi

theorem Names.exit (h : Names s) (hn : s.next (.exit i) = some t) : Names t := by
  simp only [CascadeState.next] at hn
  split at hn
  swap
  · cases hn
  rename_i hc
  have hi : (s.proc i).wf.Named := by
    rcases hc with hc | ⟨hc, -⟩ <;> exact h.own hc (by simp)
  split at hn <;> simp only [Option.some.injEq] at hn <;> subst hn <;> exact h.goto _ hi

theorem Names.trap (h : Names s) (hn : s.next (.trap i) = some t) : Names t := by
  simp only [CascadeState.next] at hn
  split at hn
  swap
  · cases hn
  rename_i hc
  simp only [Option.some.injEq] at hn
  subst hn
  exact h.goto _ (h.own hc.1 (by simp))

theorem Names.sysret (h : Names s) (hn : s.next (.sysret i) = some t) : Names t := by
  simp only [CascadeState.next] at hn
  split at hn
  swap
  · cases hn
  rename_i hc
  simp only [Option.some.injEq] at hn
  subst hn
  exact h.goto _ (h.own hc (by simp))

/-- **Step.** -/
theorem Names.step (h : Names s) (hI : ThreadInv s) (hn : s.next l = some t) : Names t := by
  cases l with
  | tick =>
    simp only [CascadeState.next, Option.some.injEq] at hn
    subst hn
    exact h
  | other i p => exact h.other hn
  | reap i => exact h.reap hn
  | mark i type hb quota u now now' => exact h.mark hn
  | storeId i => exact h.storeId hn
  | storeOwn i => exact h.storeOwn hI hn
  | leave i => exact h.leave hn
  | create i => exact h.create hn
  | join i => exact h.join hn
  | fork i j => exact h.fork hn
  | forkFail i => exact h.forkFail hn
  | forkStore i => exact h.forkStore hn
  | forkJoin i => exact h.forkJoin hI hn
  | forkRun i => exact h.forkRun hI hn
  | sweep i => exact h.sweep hn
  | zombie i => exact h.zombie hn
  | exit i => exact h.exit hn
  | trap i => exact h.trap hn
  | sysret i => exact h.sysret hn
  | forkRelease i | begin i | swept i | terminate i =>
    simp only [CascadeState.next] at hn
    split at hn
    swap
    · cases hn
    rename_i hc
    have hi := h.own hc (by simp)
    (repeat' split at hn) <;> simp only [Option.some.injEq, reduceCtorEq] at hn <;> subst hn <;>
      first | exact h | exact h.goto _ hi

theorem names_reach (h : cascadeMachine.Reach always tr s) : Names s := by
  refine (h.inv (P := fun v => CascadeInv v ∧ Names v) (fun v hv => ⟨cascadeInv_init v hv, ?_⟩)
    fun v l v' hv _ hn => ⟨cascadeInv_step v l v' hv.1 trivial hn, hv.2.step hv.1.thread hn⟩).2
  obtain ⟨-, -, -, i, -, -, -, hwf, -, hrest⟩ := hv
  intro j
  left
  by_cases hj : j = i
  · rw [hj, hwf]; rfl
  · rw [(hrest j hj).1]; rfl

/-! ### The call -/

/-- While it kills, the caller's own record stays. -/
theorem kill_keeps (hs : CascadeInv s) (hk : s.InKill c) (hn : s.next l = some t) :
    (s.proc c).Keeps (t.proc c) := by
  by_cases hl : l.thread = some c
  swap
  · refine keeps_other hs.thread hn hl ?_
    rcases hk with ⟨now, hc⟩ | ⟨key, n, now, hc⟩ <;> simp [hc]
  rcases hk with ⟨now, hc⟩ | ⟨key, n, now, hc⟩
  · obtain rfl := cascade_thread hn hl hc
    obtain ⟨-, _, _, -, hproc, -⟩ := beginStep hs.thread hs.registry hn
    rw [hproc c]
    exact Proc.Keeps.refl _
  · rcases sweep_thread hn hl hc with rfl | rfl
    · obtain ⟨-, _, _, _, _, -, -, hkeeps, -⟩ := sweepStep hs.thread hs.registry hn
      exact hkeeps c
    · simp only [CascadeState.next, hc] at hn
      split at hn
      · simp only [Option.some.injEq] at hn
        subst hn
        exact Proc.Keeps.refl _
      · cases hn

/-- What a caller knows of its workflow. -/
theorem kill_names (hs : CascadeInv s) (hnm : Names s) (hk : s.InKill c) :
    (s.proc c).live ∧ ¬ (s.proc c).wf.outside ∧ (s.proc c).wf.Named := by
  have hth := hs.thread.thread c
  have hname := hnm c
  rcases hk with ⟨now, hc⟩ | ⟨key, n, now, hc⟩ <;> rw [hc] at hth hname
  · exact ⟨hth.1, hth.2.2.2, hname.resolve_right (by simp)⟩
  · exact ⟨hth.1, hth.2.2.2.1, hname.resolve_right (by simp)⟩

/-- Nobody becomes the leader of a workflow that is there, and a killed leader stays killed. -/
theorem spared_step (hs : CascadeInv s) (hnm : Names s) (hk : s.InKill c)
    (hn : s.next l = some t) (h : s.Sparing c) : t.Sparing c := by
  obtain ⟨hc, -⟩ := cascadeNext_change hs.table hs.thread hs.registry hn
  obtain ⟨hlive, hout, hname⟩ := kill_names hs hnm hk
  have hkeep := kill_keeps hs hk hn
  have hself : t.IsLeader c c ↔ s.IsLeader c c := by
    unfold CascadeState.IsLeader
    rw [hkeep.pid, hkeep.wf, hkeep.generation, ne_eq, hkeep.unused]
  rcases h with hlead | hall
  · exact .inl (hself.2 hlead)
  right
  intro j hj
  by_cases hjc : j = c
  · subst hjc
    exact hkeep.killed (hall j (hself.1 hj))
  obtain ⟨hu, hpid, hgen⟩ := hj
  rw [hkeep.wf] at hpid hgen
  have hid : (s.proc c).wf.workflowId < s.kernel.nextpid := (hs.table.proc c).id
  obtain ⟨a, ha, hne⟩ := hc.slot
  -- the slot had this process before, and it owned the workflow
  have hold : (s.proc j).state ≠ .unused → (s.proc j).pid = (t.proc j).pid →
      (s.proc j).Owns (s.proc c).wf.workflowLeaderGeneration ∧ (s.proc j).killed = true := by
    intro hu' hp
    have hown := hs.table.origin c j (Ne.symm hjc) hu' (by rw [hp, hpid]; exact hname.symm)
    exact ⟨hown, hall j ⟨hu', hp.trans hpid, hown.identity⟩⟩
  by_cases hja : j = a
  swap
  · have hkj := (hne j hja).1
    exact hkj.killed (hold (fun hu' => hu (hkj.unused.2 hu')) hkj.pid.symm).2
  subst hja
  cases ha with
  | keeps hkj => exact hkj.killed (hold (fun hu' => hu (hkj.unused.2 hu')) hkj.pid.symm).2
  | own ho =>
    rw [ho.killed]
    exact (hold (fun hu' => hu (ho.unused.2 hu')) ho.pid.symm).2
  | alloc _ _ hp =>
    have hfresh : (s.proc c).wf.workflowId = s.kernel.nextpid := by
      rw [← hname, ← hpid, hp]
    omega
  | free _ hu' => exact absurd hu' hu
  | store _ _ _ hlivej hwf hp =>
    have hown := (hold hlivej.1 hp.symm).1
    exact absurd hown (not_owns_init hwf ((hs.table.proc j).pid hlivej.1).1 _)
  | born _ hp _ hlivej _ _ _ _ _ hkept => exact hkept (hold hlivej.1 hp.symm).2

/-- A step of the caller spares the leader and the other workflows. -/
theorem spares_of_sparing (hs : CascadeInv s) (hk : s.InKill c) (h : s.Sparing c) :
    s.Spares c l := by
  intro hl t hn
  have hth := hs.thread.thread c
  have hquiet : (∀ j, t.proc j = s.proc j) →
      (∀ j, (s.proc j).killed = false → (t.proc j).killed = true →
        (s.proc j).wf.key = (s.proc c).wf.key ∧ ¬ s.IsLeader c j) ∧
      ∀ j, (s.proc j).wf.key ≠ (s.proc c).wf.key → t.proc j = s.proc j := by
    intro hsame
    refine ⟨fun j h0 h1 => ?_, fun j _ => hsame j⟩
    rw [hsame j, h0] at h1
    cases h1
  rcases hk with ⟨now, hc⟩ | ⟨key, n, now, hc⟩
  · obtain rfl := cascade_thread hn hl hc
    obtain ⟨-, _, _, -, hproc, -⟩ := beginStep hs.thread hs.registry hn
    exact hquiet hproc
  rw [hc] at hth
  obtain ⟨hlive, -, -, -, hkey⟩ := hth
  rcases sweep_thread hn hl hc with rfl | rfl
  · simp only [CascadeState.next, hc] at hn
    split at hn
    swap
    · cases hn
    rename_i hm
    split at hn
    swap
    · cases hn
    split at hn <;> simp only [Option.some.injEq] at hn <;> subst hn
    swap
    · exact hquiet fun _ => rfl
    -- the process in slot `n` is a target
    rename_i htarget
    obtain ⟨hu, -, hkt, hself⟩ := htarget
    have hnc : (⟨n, hm⟩ : Slot) ≠ c := by
      rcases hself with hself | hself
      · cases hself
      · simpa using hself
    refine ⟨fun j h0 h1 => ?_, fun j hj => ?_⟩
    · by_cases hjn : j = ⟨n, hm⟩
      swap
      · rw [CascadeState.setProc_ne _ _ _ _ hjn, CascadeState.goto_proc, h0] at h1
        cases h1
      subst hjn
      refine ⟨hkt.trans hkey.symm, fun hlead => ?_⟩
      rcases h with hown | hall
      · exact hnc (hs.table.pids _ _ hu hlive.1 (hlead.2.1.trans hown.2.1.symm))
      · exact absurd (h0.symm.trans (hall _ hlead)) (by decide)
    · have hjn : j ≠ ⟨n, hm⟩ := by
        rintro rfl
        exact hj (hkt.trans hkey.symm)
      rw [CascadeState.setProc_ne _ _ _ _ hjn, CascadeState.goto_proc]
  · simp only [CascadeState.next, hc] at hn
    split at hn
    · simp only [Option.some.injEq] at hn
      subst hn
      exact hquiet fun _ => rfl
    · cases hn

/-- **An explicit cascade kill spares the leader** if the leader calls it, or is gone or killed
already when it is called: then every step of the call, in whatever interleaving, kills members
of the workflow other than the leader and leaves the processes of other workflows alone. -/
theorem cascade_kill_spares (hr : cascadeMachine.Reach always tr s) (hc : s.calls c = .kernel)
    (hok : agentCascadeCheck (s.proc c) = agentToolOk)
    (hn : cascadeMachine.next s (.terminate c) = some t) (h : s.Sparing c)
    (hp : cascadeMachine.Path (fun v _ => v.InKill c) t tr' u) (hk : u.InKill c) :
    u.Spares c l := by
  have hs := cascadeInv_reach hr
  have ht : CascadeInv t ∧ Names t ∧ t.Sparing c := by
    have hn₀ : s.next (.terminate c) = some t := hn
    refine ⟨cascadeInv_step s _ t hs trivial hn, (names_reach hr).step hs.thread hn₀, ?_⟩
    simp only [cascadeMachine, CascadeState.next, hc, if_true, hok, Option.some.injEq] at hn
    subst hn
    exact h
  obtain ⟨hu, -, hsp⟩ := hp.inv (P := fun v => CascadeInv v ∧ Names v ∧ v.Sparing c)
    (fun v l v' hv hkv hn' => ⟨cascadeInv_step v l v' hv.1 trivial hn',
      hv.2.1.step hv.1.thread hn', spared_step hv.1 hv.2.1 hkv hn' hv.2.2⟩) ht
  exact spares_of_sparing hu hk hsp

end

/-! ### Two callers -/

/-- The worker of a Planner takes the role of a Planner. -/
def workerRises : CascadeLabel :=
  .other 2 (agentProcRoleSet (leaderRuns.proc 2) agentRolePlanner).1

def workerRisen : CascadeState := leaderRuns.onStep workerRises

theorem workerRisen_reach : cascadeMachine.Reach always (leaderForks ++ [workerRises]) workerRisen :=
  leaderRuns_reach.snoc trivial (next_getD (d := leaderRuns) (by decide))

/-- Its `agent_cascade_kill`, as it has begun and as it has passed slot 0. -/
def workerAsks : CascadeState := workerRisen.onStep (.terminate 2)

def workerSweeps : CascadeState := (workerAsks.onStep (.begin 2)).onStep (.sweep 2)

/-- The `agent_cascade_kill` of the Planner, as it has begun, and past slots 0 and 1. -/
def plannerAsks : CascadeState := leaderRuns.onStep (.terminate 1)

def plannerAt : CascadeState := plannerAsks.on [.begin 1, .sweep 1, .sweep 1]

/-- The next step of the sweep kills the worker in slot 2. -/
theorem cascade_kill_spares_planner :
    plannerAt.Spares 1 (.sweep 1) ∧ (plannerAt.proc 2).killed = false ∧
      ((plannerAt.onStep (.sweep 1)).proc 2).killed = true := by
  have hp : cascadeMachine.Path (fun v _ => v.InKill 1) plannerAsks [.begin 1, .sweep 1, .sweep 1]
      plannerAt := by
    refine .cons (.inl ⟨0, by decide⟩) (next_getD (d := plannerAsks) (by decide))
      (.cons ?_ (next_getD (d := plannerAsks.on [.begin 1]) (by decide)) (.single ?_ ?_))
    · exact .inr ⟨(2, 1), 0, 0, by decide⟩
    · exact .inr ⟨(2, 1), 1, 0, by decide⟩
    · exact next_getD (d := plannerAsks) (by decide)
  exact ⟨cascade_kill_spares leaderRuns_reach (by decide) (by decide)
    (next_getD (d := leaderRuns) (by decide)) (.inl (by decide)) hp
    (.inr ⟨(2, 1), 2, 0, by decide⟩), by decide, by decide⟩

/-- **The leader is killed** by a worker with `AGENT_CAP_WORKFLOW_CTRL`. -/
theorem leader_killed :
    ¬ ∀ tr s c t tr' u l, cascadeMachine.Reach always tr s → s.calls c = .kernel →
      agentCascadeCheck (s.proc c) = agentToolOk →
      cascadeMachine.next s (.terminate c) = some t →
      cascadeMachine.Path (fun v _ => v.InKill c) t tr' u → u.InKill c → u.Spares c l := by
  intro h
  have hp : cascadeMachine.Path (fun v _ => v.InKill 2) workerAsks [.begin 2, .sweep 2]
      workerSweeps := by
    refine .cons (.inl ⟨0, by decide⟩) (next_getD (d := workerAsks) (by decide)) (.single ?_ ?_)
    · exact .inr ⟨(2, 1), 0, 0, by decide⟩
    · exact next_getD (d := workerAsks.onStep (.begin 2)) (by decide)
  have hspares := h _ workerRisen 2 workerAsks _ workerSweeps (.sweep 2) workerRisen_reach
    (by decide) (by decide) (next_getD (d := workerRisen) (by decide)) hp
    (.inr ⟨(2, 1), 1, 0, by decide⟩)
  have hsweep : cascadeMachine.next workerSweeps (.sweep 2) =
      some (workerSweeps.onStep (.sweep 2)) := next_getD (by decide)
  obtain ⟨hkill, -⟩ := hspares rfl _ hsweep
  exact (hkill 1 (by decide) (by decide)).2 (by decide)

end AgentOS
