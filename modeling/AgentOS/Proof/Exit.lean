import AgentOS.Proof.Member

/-!
# A leader that exits leaves no agents behind

* `keeps_other`: a thread finds its record as it left it, whatever the others do.
* `Departed`: no process can create the workflow anew, since its owner is past the sweep of its
  exit; it stays so, and with it what the sweep has left.
* **`leader_exit_no_orphans`**; `orphans_remain`: a leader that has made itself a worker, and a
  fork that the sweep does not see.
-/

namespace AgentOS

open Machine

section

variable {s t u : CascadeState} {i j : Slot} {key : WorkflowKey} {n : ℕ} {l : CascadeLabel}
  {tr tr' tr'' : List CascadeLabel}

/-- While a thread stands still its record keeps its process and its workflow. -/
theorem keeps_other (hI : ThreadInv s) (hn : s.next l = some t) (hl : l.thread ≠ some j)
    (hj : s.calls j ≠ .idle) : (s.proc j).Keeps (t.proc j) := by
  have hlive := (hI.thread j).live hj
  -- a child that is being made has no thread yet
  have hchild : ∀ i k, (s.calls i).child = some k → j ≠ k := by
    rintro i k hk rfl
    exact hj (hI.idle i j hk)
  have hstay : ∀ (v : CascadeState) (k : Slot) (p : Proc), v.proc j = s.proc j → j ≠ k →
      (s.proc j).Keeps ((v.setProc k p).proc j) := by
    intro v k p hv hk
    rw [CascadeState.setProc_ne _ _ _ _ hk, hv]
    exact Proc.Keeps.refl _
  have hself : ∀ i, l.thread = some i → j ≠ i := by
    rintro i hi rfl
    exact hl hi
  cases l with
  | tick =>
    simp only [CascadeState.next, Option.some.injEq] at hn
    subst hn
    exact Proc.Keeps.refl _
  | other i p =>
    simp only [CascadeState.next] at hn
    split at hn
    · rename_i h
      simp only [Option.some.injEq] at hn
      subst hn
      by_cases hji : j = i
      · subst hji
        rw [CascadeState.setProc_self]
        exact h.2
      · exact hstay s i p rfl hji
    · cases hn
  | mark i type hb quota u now now' =>
    simp only [CascadeState.next] at hn
    split at hn
    · split at hn
      · simp only [Option.some.injEq] at hn
        subst hn
        exact Proc.Keeps.refl _
      · rename_i k hk
        simp only [Option.some.injEq] at hn
        subst hn
        obtain ⟨-, -, -, hne⟩ := markCurrent_frame i hk
        have hjp : k.procs j = s.proc j := hne j (hself i rfl)
        change (s.proc j).Keeps (k.procs j)
        rw [hjp]
        exact Proc.Keeps.refl _
    · cases hn
  | fork i k =>
    simp only [CascadeState.next] at hn
    split at hn
    · rename_i h
      have hjk : j ≠ k := by
        rintro rfl
        exact hlive.1 h.2.2
      simp only [Option.some.injEq] at hn
      subst hn
      exact hstay s k _ rfl hjk
    · cases hn
  | forkFail i | forkStore i =>
    simp only [CascadeState.next] at hn
    split at hn
    · rename_i k hc
      simp only [Option.some.injEq] at hn
      subst hn
      exact hstay _ k _ rfl (hchild i k (by rw [hc]; rfl))
    · cases hn
  | forkJoin i =>
    simp only [CascadeState.next] at hn
    split at hn
    · rename_i k hc
      split at hn <;> simp only [Option.some.injEq] at hn <;> subst hn
      · exact Proc.Keeps.refl _
      · exact hstay _ k _ rfl (hchild i k (by rw [hc]; rfl))
    · cases hn
  | forkRun i =>
    simp only [CascadeState.next] at hn
    split at hn
    · rename_i k hc
      simp only [Option.some.injEq] at hn
      subst hn
      exact hstay _ k _ rfl (hchild i k (by rw [hc]; rfl))
    · cases hn
  | sweep i =>
    simp only [CascadeState.next] at hn
    split at hn
    · rename_i key m now exiting hc
      split at hn
      · rename_i hm
        split at hn
        · split at hn <;> simp only [Option.some.injEq] at hn <;> subst hn
          · by_cases hjm : j = ⟨m, hm⟩
            · subst hjm
              rw [CascadeState.setProc_self]
              exact cascadeKill_keeps _ _
            · exact hstay _ _ _ rfl hjm
          · exact Proc.Keeps.refl _
        · cases hn
      · cases hn
    · cases hn
  | reap k =>
    simp only [CascadeState.next] at hn
    split at hn
    · rename_i h
      have hjk : j ≠ k := by
        rintro rfl
        exact hlive.2 h.1
      simp only [Option.some.injEq] at hn
      subst hn
      exact hstay s k _ rfl hjk
    · cases hn
  | _ =>
    have hji := hself _ rfl
    simp only [CascadeState.next] at hn
    (repeat' split at hn) <;> simp only [Option.some.injEq, reduceCtorEq] at hn <;> subst hn <;>
      first
      | exact Proc.Keeps.refl _
      | exact hstay _ _ _ rfl hji
      | exact hstay _ _ _ (CascadeState.setProc_ne _ _ _ _ hji) hji

/-! ### The owner is gone -/

/-- The thread is past the sweep of its `exit`. -/
def Call.past : Call → Prop
  | .exitLeave | .exitZombie => True
  | _ => False

/-- No process creates the workflow `key` any more: its owner is dead, or on its way past the
sweep of its exit. -/
def Departed (s : CascadeState) (key : WorkflowKey) : Prop :=
  ∀ j, (s.proc j).state ≠ .unused → (s.proc j).pid = key.1 →
    (s.calls j).past ∨ (s.proc j).state = .zombie

/-- A process that creates its workflow owns it. -/
theorem Departed.no_create (h : Departed s key) (hI : ThreadInv s) :
    ¬ ∃ m, s.calls m = .markCreate ∧ (s.proc m).wf.key = key := by
  rintro ⟨m, hm, hk⟩
  have hth := hI.thread m
  rw [hm] at hth
  obtain ⟨hlive, -, hid⟩ := hth
  have hpid : (s.proc m).pid = key.1 := by rw [← hid, ← hk]; rfl
  rcases h m hlive.1 hpid with hpast | hz
  · rw [hm] at hpast
    exact hpast
  · exact hlive.2 hz

theorem past_ne_idle {c : Call} (h : c.past) : c ≠ .idle := by
  rintro rfl
  exact h

/-- A thread past its sweep goes on to its death. -/
theorem past_next (hI : ThreadInv s) (hn : s.next l = some t) (h : (s.calls j).past) :
    (t.calls j).past ∨ (t.proc j).state = .zombie := by
  by_cases hl : l.thread = some j
  swap
  · left
    rw [calls_other hI hn hl (past_ne_idle h)]
    exact h
  unfold Call.past at h
  split at h
  · rename_i hc
    cases l <;> simp only [CascadeLabel.thread, Option.some.injEq, reduceCtorEq] at hl <;>
      subst hl <;> simp [CascadeState.next, hc] at hn
    subst hn
    left
    simp [Call.past]
  · rename_i hc
    cases l <;> simp only [CascadeLabel.thread, Option.some.injEq, reduceCtorEq] at hl <;>
      subst hl <;> simp [CascadeState.next, hc] at hn
    obtain ⟨-, hn⟩ := hn
    subst hn
    right
    simp
  · exact h.elim

theorem Departed.step (h : Departed s key) (hI : ThreadInv s) (hc : CascadeChange s t)
    (hn : s.next l = some t) (hkey : key.1 < s.kernel.nextpid) :
    Departed t key := by
  intro j hu hpid
  obtain ⟨a, ha, hne⟩ := hc.slot
  -- the slot had this process before
  obtain ⟨hu', hpid'⟩ : (s.proc j).state ≠ .unused ∧ (s.proc j).pid = key.1 := by
    by_cases hja : j = a
    · subst hja
      rcases ha.pid hu with ⟨hp, hu'⟩ | ⟨hp, -⟩
      · exact ⟨hu', hp.symm.trans hpid⟩
      · omega
    · have hk := (hne j hja).1
      exact ⟨fun hu' => hu (hk.unused.2 hu'), hk.pid.symm.trans hpid⟩
  rcases h j hu' hpid' with hpast | hz
  · exact past_next hI hn hpast
  · right
    by_cases hja : j = a
    swap
    · exact (hne j hja).1.zombie.2 hz
    subst hja
    cases ha with
    | keeps hk => exact hk.zombie.2 hz
    | own ho =>
      by_contra hnz
      exact (ho.live ⟨hu, hnz⟩).2 hz
    | alloc hu₀ => exact absurd hu₀ hu'
    | free _ hu₀ => exact absurd hu₀ hu
    | store _ _ _ hlive => exact absurd hz hlive.2
    | born _ _ _ hlive => exact absurd hz hlive.2

/-- Nobody is missed any more, for nobody creates the workflow anew. -/
theorem Departed.swept (h : Departed s key) (hsw : Sweeping s key key.1 nproc) (hs : CascadeInv s)
    (hn : s.next l = some t) : Departed t key ∧ Sweeping t key key.1 nproc := by
  obtain ⟨hc, -⟩ := cascadeNext_change hs.table hs.thread hs.registry hn
  exact ⟨h.step hs.thread hc hn hsw.caller,
    hsw.step hs.table hc fun _ _ => h.no_create hs.thread⟩

/-- Next a thread that asks for a termination begins it. -/
theorem cascade_thread {now : ℕ} {exiting : Bool} (hn : s.next l = some t)
    (hl : l.thread = some i) (hc : s.calls i = .cascade now exiting) : l = .begin i := by
  cases l <;> simp only [CascadeLabel.thread, Option.some.injEq, reduceCtorEq] at hl <;>
    subst hl <;> simp [CascadeState.next, hc] at hn ⊢

theorem sweep_thread {now : ℕ} {exiting : Bool} (hn : s.next l = some t)
    (hl : l.thread = some i) (hc : s.calls i = .sweep key n now exiting) :
    l = .sweep i ∨ l = .swept i := by
  cases l <;> simp only [CascadeLabel.thread, Option.some.injEq, reduceCtorEq] at hl <;>
    subst hl <;> simp [CascadeState.next, hc] at hn ⊢

/-- **The exit of a leader**, process `i`: it asks for the termination of its workflow `key`,
sweeps, and is gone. -/
inductive Leaving (s : CascadeState) (i : Slot) (key : WorkflowKey) : Prop
  | asks (now : ℕ) (hc : s.calls i = .cascade now true) (hk : (s.proc i).wf.key = key)
      (hp : (s.proc i).pid = key.1)
  | sweeps (n now : ℕ) (hc : s.calls i = .sweep key n now true) (hp : (s.proc i).pid = key.1)
  | gone (h : Departed s key) (hs : Sweeping s key key.1 nproc)

theorem Leaving.step (h : Leaving s i key) (hs : CascadeInv s) (hn : s.next l = some t) :
    Leaving t i key := by
  obtain ⟨hc, hI⟩ := cascadeNext_change hs.table hs.thread hs.registry hn
  cases h with
  | asks now hcall hk hp =>
    by_cases hl : l.thread = some i
    swap
    · have hkeep := keeps_other hs.thread hn hl (by simp [hcall])
      refine .asks now ?_ ((congrArg Membership.key hkeep.wf).trans hk) (hkeep.pid.trans hp)
      rw [calls_other hs.thread hn hl (by simp [hcall]), hcall]
    -- the thread itself begins the termination
    obtain rfl := cascade_thread hn hl hcall
    simp only [CascadeState.next, hcall] at hn
    obtain ⟨hret, -⟩ := beginTerminate_spec (g := s.kernel.agentGlobal) hs.registry
      (s.proc i).wf.key s.kernel.ticks
    rw [if_neg (by rintro ⟨h₁, h₂⟩; exact hret.elim h₁ h₂), Option.some.injEq, hk] at hn
    subst hn
    exact .sweeps 0 now (Function.update_self ..) hp
  | sweeps n now hcall hp =>
    by_cases hl : l.thread = some i
    swap
    · have hkeep := keeps_other hs.thread hn hl (by simp [hcall])
      refine .sweeps n now ?_ (hkeep.pid.trans hp)
      rw [calls_other hs.thread hn hl (by simp [hcall]), hcall]
    have hpid := (pid_of_thread hs.thread hc (by simp [hcall])).trans hp
    rcases sweep_thread hn hl hcall with rfl | rfl
    · obtain ⟨-, key', m, now', exiting', hcall', hcalls, -⟩ := sweepStep hs.thread hs.registry hn
      rw [hcall] at hcall'
      cases hcall'
      exact .sweeps (n + 1) now (by rw [hcalls, Function.update_self]) hpid
    · -- the sweep is over, and the owner on its way out
      have hsweep := (hs.sweep i key n now true hcall).step hs.table hc
        fun hrec _ => hs.not_recreated hcall hrec
      simp only [CascadeState.next, hcall] at hn
      split at hn
      swap
      · cases hn
      rename_i hend
      simp only [Option.some.injEq] at hn
      rw [hp, hend] at hsweep
      have hcall' : t.calls i = .exitLeave := by
        subst hn
        exact Function.update_self ..
      refine .gone (fun j hu hj => .inl ?_) hsweep
      have hlive := (hI.thread i).live (by simp [hcall'])
      rw [(hs.table.step hc).pids j i hu hlive.1 (hj.trans hpid.symm), hcall']
      trivial
  | gone h hsw => exact .gone (h.swept hsw hs hn).1 (h.swept hsw hs hn).2

/-- A leader that calls `exit` asks for the termination of the workflow it owns. -/
theorem leaving_of_exit (hs : CascadeInv s) (hlead : (s.proc i).wf.isWorkflowLeader = true)
    (hn : s.next (.exit i) = some t) : Leaving t i (s.proc i).wf.key := by
  have hth := hs.thread.thread i
  simp only [CascadeState.next] at hn
  split at hn
  swap
  · cases hn
  rename_i hc
  obtain ⟨hlive, hset⟩ : (s.proc i).live ∧ (s.proc i).Settled := by
    rcases hc with hc | ⟨hc, -⟩ <;> rw [hc] at hth
    · exact ⟨hth.1, hth.2.1⟩
    · exact ⟨hth.1, hth.2.1⟩
  have hid := (hs.table.proc i).leader hlead
  have hpid := ((hs.table.proc i).pid hlive.1).1
  obtain ⟨htype, hgen⟩ := (hs.table.proc i).type (by omega)
  have hout : ¬ (s.proc i).wf.outside := by
    rintro (h0 | h0)
    · omega
    · exact hgen ((hset hid).symm.trans h0)
  have hok : agentCascadeCheck (s.proc i) = agentToolOk := by
    unfold agentCascadeCheck
    rw [if_neg htype, if_neg (by simp [hlead]), if_neg hout]
  rw [if_pos ⟨hlead, hok⟩, Option.some.injEq] at hn
  subst hn
  exact .asks _ (Function.update_self ..) rfl hid.symm

/-- **A leader that exits leaves no agents behind.** Process `i` calls `exit` while
`is_workflow_leader` is set. When it has finished, and ever after, every other process that
carries its workflow is killed, but for a child that a fork is still about to join to it. -/
theorem leader_exit_no_orphans (hr : cascadeMachine.Reach always tr s)
    (hlead : (s.proc i).wf.isWorkflowLeader = true)
    (hn : cascadeMachine.next s (.exit i) = some t)
    (hp : cascadeMachine.Path always t tr' u)
    {v w : CascadeState} (hz : cascadeMachine.next u (.zombie i) = some v)
    (hp' : cascadeMachine.Path always v tr'' w) {j : Slot} (hu : (w.proc j).state ≠ .unused)
    (hk : (w.proc j).wf.key = (s.proc i).wf.key) (hj : (w.proc j).pid ≠ (s.proc i).pid)
    (hjoin : ∀ m, w.calls m ≠ .forkJoin j) : (w.proc j).killed = true := by
  have hs := cascadeInv_reach hr
  obtain ⟨k, hkdef⟩ : ∃ k, k = (s.proc i).wf.key := ⟨_, rfl⟩
  rw [← hkdef] at hk
  have hpid : (s.proc i).pid = k.1 := by
    rw [hkdef]
    exact ((hs.table.proc i).leader hlead).symm
  obtain ⟨hu₁, hleave⟩ : CascadeInv u ∧ Leaving u i k := by
    refine hp.inv (P := fun v => CascadeInv v ∧ Leaving v i k) (fun v l v' hv _ hv' => ?_)
      ⟨cascadeInv_step s _ t hs trivial hn, hkdef ▸ leaving_of_exit hs hlead hn⟩
    exact ⟨cascadeInv_step v l v' hv.1 trivial hv', hv.2.step hv.1 hv'⟩
  -- the thread dies past its sweep
  have hcall : u.calls i = .exitZombie := by
    simp only [cascadeMachine, CascadeState.next] at hz
    split at hz
    · rename_i h
      exact h.1
    · cases hz
  obtain ⟨hgone, hswept⟩ : Departed u k ∧ Sweeping u k k.1 nproc := by
    cases hleave with
    | asks now hc => rw [hcall] at hc; cases hc
    | sweeps n now hc => rw [hcall] at hc; cases hc
    | gone h hsw => exact ⟨h, hsw⟩
  obtain ⟨-, -, hsw⟩ : CascadeInv w ∧ Departed w k ∧ Sweeping w k k.1 nproc := by
    refine (Path.cons trivial hz hp').inv
      (P := fun v => CascadeInv v ∧ Departed v k ∧ Sweeping v k k.1 nproc)
      (fun v l v' hv _ hv' => ?_) ⟨hu₁, hgone, hswept⟩
    exact ⟨cascadeInv_step v l v' hv.1 trivial hv', hv.2.1.swept hv.2.2 hv.1 hv'⟩
  by_contra hkill
  have hmiss : Missed w k k.1 j := by
    refine ⟨hu, hk, ?_, ?_, by simpa using hkill⟩
    · rw [← hpid]
      exact hj
    · rintro ⟨m, hm⟩
      exact hjoin m hm
  have hle := hsw.swept j hmiss
  have hlt := j.isLt
  omega

end

/-! ### Orphans -/

/-- `init` forks a process, which makes itself a Planner and forks a worker. -/
def leaderForks : List CascadeLabel :=
  [.trap 0, .fork 0 1, .forkStore 0, .forkJoin 0, .forkRelease 0, .forkRun 0,
    .trap 1, .mark 1 agentTypePrimary 0 0 true 0 0, .leave 1, .storeId 1, .storeOwn 1, .create 1,
    .fork 1 2, .forkStore 1, .forkJoin 1, .forkRelease 1, .forkRun 1, .trap 2]

/-- The exit of the Planner behind its start, up to its death. -/
def leaderDies : List CascadeLabel :=
  .begin 1 :: List.replicate nproc (.sweep 1) ++ [.swept 1, .leave 1]

/-- The same, with the worker in a fork behind the back of the sweep. -/
def workerForks : List CascadeLabel := leaderDies ++ [.fork 2 3, .forkStore 2]

/-- The Planner makes itself a worker and exits. -/
def workerDies : List CascadeLabel :=
  [.mark 1 agentTypeWorker 0 0 true 0 0, .leave 1, .exit 1, .leave 1]

/-- The state after some more steps. -/
def CascadeState.on (s : CascadeState) (l : List CascadeLabel) : CascadeState :=
  (cascadeMachine.run s l).getD s

/-- The state after one more step. -/
def CascadeState.onStep (s : CascadeState) (l : CascadeLabel) : CascadeState :=
  (cascadeMachine.next s l).getD s

def leaderRuns : CascadeState := initRuns.on leaderForks

theorem leaderRuns_reach : cascadeMachine.Reach always leaderForks leaderRuns :=
  ⟨initRuns, initRuns_init, path_getD (d := initRuns) (by decide)⟩

/-- Its death. -/
def leaderDead : CascadeState := ((leaderRuns.onStep (.exit 1)).on leaderDies).onStep (.zombie 1)

set_option maxRecDepth 100000 in
/-- The worker is killed, and still when its parent has reaped the Planner and it exits itself. -/
theorem leader_exit_no_orphans_worker :
    ((leaderDead.on [.tick, .reap 1, .exit 2, .leave 2]).proc 2).killed = true :=
  leader_exit_no_orphans (i := 1) (u := (leaderRuns.onStep (.exit 1)).on leaderDies) leaderRuns_reach
    (by decide +kernel) (next_getD (by decide +kernel)) (path_getD (by decide +kernel))
    (next_getD (d := (leaderRuns.onStep (.exit 1)).on leaderDies) (by decide +kernel))
    (path_getD (by decide +kernel)) (by decide +kernel) (by decide +kernel) (by decide +kernel)
    (by decide +kernel)

set_option maxRecDepth 100000 in
/-- **Orphans remain**: those of a leader that makes itself a worker before it exits; and of any
leader the child that a worker forks behind the sweep, before it joins. -/
theorem orphans_remain :
    (¬ ∀ tr s i tr' u v, cascadeMachine.Reach always tr s →
      (s.proc i).wf.isWorkflowLeader = true → cascadeMachine.Path always s tr' u →
      (u.proc i).pid = (s.proc i).pid → cascadeMachine.next u (.zombie i) = some v →
      ∀ j, (v.proc j).state ≠ .unused → (v.proc j).wf.key = (s.proc i).wf.key →
        (v.proc j).pid ≠ (s.proc i).pid → (∀ m, v.calls m ≠ .forkJoin j) →
        (v.proc j).killed = true) ∧
    ¬ ∀ tr s i t tr' u v, cascadeMachine.Reach always tr s →
      (s.proc i).wf.isWorkflowLeader = true → cascadeMachine.next s (.exit i) = some t →
      cascadeMachine.Path always t tr' u → cascadeMachine.next u (.zombie i) = some v →
      ∀ j, (v.proc j).state ≠ .unused → (v.proc j).wf.key = (s.proc i).wf.key →
        (v.proc j).pid ≠ (s.proc i).pid → (v.proc j).killed = true := by
  constructor
  · intro h
    have hkill := h _ leaderRuns 1 _ (leaderRuns.on workerDies)
      ((leaderRuns.on workerDies).onStep (.zombie 1)) leaderRuns_reach (by decide +kernel)
      (path_getD (by decide +kernel)) (by decide +kernel) (next_getD (by decide +kernel)) 2
      (by decide +kernel) (by decide +kernel) (by decide +kernel) (by decide +kernel)
    exact absurd hkill (by decide +kernel)
  · intro h
    have hkill := h _ leaderRuns 1 (leaderRuns.onStep (.exit 1)) _
      ((leaderRuns.onStep (.exit 1)).on workerForks)
      (((leaderRuns.onStep (.exit 1)).on workerForks).onStep (.zombie 1)) leaderRuns_reach
      (by decide +kernel) (next_getD (by decide +kernel)) (path_getD (by decide +kernel))
      (next_getD (by decide +kernel)) 3 (by decide +kernel) (by decide +kernel) (by decide +kernel)
    exact absurd hkill (by decide +kernel)

end AgentOS
