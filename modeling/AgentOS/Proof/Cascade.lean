import AgentOS.Proof.Threads

/-!
# Cascade termination misses nobody

* `Sweeping`: what holds of a workflow from the start of its termination; among the first
  `n` slots no member is left that is not killed, but for the process that asked.
* `Sweeping.step`: every step keeps it that does not make the record of the workflow anew,
  and no step does while the process that asked is still sweeping (`not_recreated`).
* **`cascade_misses_nobody`**.
-/

namespace AgentOS

open Machine

/-- A process of the workflow, other than `pid`, that no kill has reached; a fork that has not
joined yet is not counted. -/
structure Missed (s : CascadeState) (key : WorkflowKey) (pid : ℕ) (j : Slot) : Prop where
  used : (s.proc j).state ≠ .unused
  key : (s.proc j).wf.key = key
  other : (s.proc j).pid ≠ pid
  joined : ¬ s.Joining j
  alive : (s.proc j).killed = false

/-- **The termination of `key` by `pid` has begun**, and its sweep has passed `n` slots. -/
structure Sweeping (s : CascadeState) (key : WorkflowKey) (pid n : ℕ) : Prop where
  id : 0 < key.1 ∧ key.1 < s.kernel.nextpid
  generation : key.2 ≠ 0
  caller : pid < s.kernel.nextpid
  closed : ¬ Active s.workflows key
  swept : ∀ j, Missed s key pid j → n ≤ j
  owner : ∀ j, (s.proc j).state ≠ .unused → (s.proc j).pid = key.1 → (s.proc j).pid ≠ pid →
    (s.proc j).Owns key.2

section

variable {s t u : CascadeState} {i j c : Slot} {key : WorkflowKey} {pid n : ℕ} {l : CascadeLabel}
  {tr tr' : List CascadeLabel}

/-- A step that does not make the record anew leaves no process behind the sweep. -/
theorem Sweeping.step (h : Sweeping s key pid n) (hT : TableInv s)
    (hc : CascadeChange s t) (hno : ¬ Recorded s.workflows key → Recorded t.workflows key →
      ¬ ∃ m, s.calls m = .markCreate ∧ (s.proc m).wf.key = key) : Sweeping t key pid n := by
  obtain ⟨a, ha, hne⟩ := hc.slot
  have hn := hc.nextpid
  have hid := h.id
  have hcaller := h.caller
  -- the workflow swept is neither that of a new process nor none
  have hzero : Membership.init.key ≠ key := fun he => absurd (congrArg Prod.fst he) hid.1.ne
  have hout : ∀ {m : Membership}, m.key = key → ¬ m.outside := by
    rintro m rfl (h0 | h0)
    · exact hid.1.ne' h0
    · exact h.generation h0
  refine ⟨⟨hid.1, by omega⟩, h.generation, by omega, fun hact => ?_, fun j hj => ?_,
    fun j hu hpid hother => ?_⟩
  · rcases hc.active key hact with hold | ⟨hrec, hm⟩
    · exact h.closed hold
    · obtain ⟨r, hu, hk, -⟩ := hact
      exact hno hrec ⟨r, hu, hk⟩ hm
  · -- a process missed after the step was missed before it
    refine h.swept j ?_
    by_cases hja : j = a
    swap
    · obtain ⟨hk, hjoin⟩ := hne j hja
      exact ⟨fun hu => hj.used (hk.unused.2 hu), (congrArg Membership.key hk.wf).symm.trans hj.key,
        fun he => hj.other (hk.pid.trans he), fun hj' => hj.joined (hjoin.1 hj'), by
          cases hkill : (s.proc j).killed
          · rfl
          · rw [← hj.alive, hk.killed hkill]⟩
    subst hja
    cases ha with
    | keeps hk hjoin =>
      exact ⟨fun hu => hj.used (hk.unused.2 hu), (congrArg Membership.key hk.wf).symm.trans hj.key,
        fun he => hj.other (hk.pid.trans he), fun hj' => hj.joined (hjoin.1 hj'), by
          cases hkill : (s.proc j).killed
          · rfl
          · rw [← hj.alive, hk.killed hkill]⟩
    | own ho hjoin =>
      have hother : (s.proc j).pid ≠ pid := fun he => hj.other (ho.pid.trans he)
      have hused : (s.proc j).state ≠ .unused := fun hu => hj.used (ho.unused.2 hu)
      refine ⟨hused, ?_, hother, fun hj' => hj.joined (hjoin.1 hj'), ho.killed.symm.trans hj.alive⟩
      rcases ho.key with hk | hk
      · exact hk.symm.trans hj.key
      · -- the process names itself, so it is the owner and was settled
        have hpid : (s.proc j).pid = key.1 := by
          rw [← ho.pid, ← hk]
          exact congrArg Prod.fst hj.key
        have hown := h.owner j hused hpid hother
        exact Prod.ext (hown.id.trans hpid) hown.leader
    | alloc _ _ _ _ hwf | free _ _ _ hwf =>
      exact absurd ((congrArg Membership.key hwf).symm.trans hj.key) hzero
    | store _ _ _ _ _ _ _ _ _ _ _ _ _ _ hjoin => exact absurd hjoin hj.joined
    | born _ _ _ _ _ hkey _ _ hkill =>
      have hk : (s.proc j).wf.key = key := hkey.symm.trans hj.key
      rcases hkill with ho | hkill | hact
      · exact absurd ho (hout hk)
      · exact absurd (hj.alive.symm.trans hkill) (by decide)
      · exact absurd (hk ▸ hact) h.closed
  · by_cases hja : j = a
    swap
    · have hk := (hne j hja).1
      exact hk.owns.2 (h.owner j (fun hu' => hu (hk.unused.2 hu')) (hk.pid ▸ hpid)
        (hk.pid ▸ hother))
    subst hja
    rcases ha.pid hu with ⟨hp, hu'⟩ | ⟨hp, -⟩
    · exact ha.owns hT hu (h.owner j hu' (hp ▸ hpid) (hp ▸ hother))
    · omega

/-- The sweep passes slot `n`. -/
theorem Sweeping.pass (h : Sweeping s key pid n) (hn : ∀ j : Slot, j = n → ¬ Missed s key pid j) :
    Sweeping s key pid (n + 1) := by
  refine { h with swept := fun j hj => ?_ }
  have hle := h.swept j hj
  rcases Nat.eq_or_lt_of_le hle with he | hlt
  · exact absurd hj (hn j he.symm)
  · exact hlt

/-- **The invariant of cascade termination.** -/
structure CascadeInv (s : CascadeState) : Prop where
  table : TableInv s
  thread : ThreadInv s
  registry : Registry s.workflows s.held
  sweep : ∀ i key n now exiting, s.calls i = .sweep key n now exiting →
    Sweeping s key (s.proc i).pid n

/-- While a process sweeps, nobody makes the record of its workflow: either it is registered in
that record, or it owns the workflow and is not in `agent_mark_current`. -/
theorem CascadeInv.not_recreated (h : CascadeInv s) {now : ℕ} {exiting : Bool}
    (hi : s.calls i = .sweep key n now exiting) (hrec : ¬ Recorded s.workflows key) :
    ¬ ∃ m, s.calls m = .markCreate ∧ (s.proc m).wf.key = key := by
  rintro ⟨m, hm, hkm⟩
  have hth := h.thread.thread i
  have hthm := h.thread.thread m
  rw [hi] at hth
  rw [hm] at hthm
  obtain ⟨hlive, -, htied, hout, hkey⟩ := hth
  obtain ⟨hlivem, -, hidm⟩ := hthm
  rcases htied with hreg | ho | hown
  · refine hrec (h.registry.found i key ?_)
    simp only [CascadeState.held, Membership.held, hreg, if_true, hkey]
  · exact hout ho
  · have hpid : (s.proc m).pid = (s.proc i).pid := by
      rw [← hidm, ← hown]
      exact key_id (hkm.trans hkey.symm)
    have hmi := h.table.pids m i hlivem.1 hlive.1 hpid
    rw [hmi, hi] at hm
    cases hm

/-- The pid of a thread stays. -/
theorem pid_of_thread (hI : ThreadInv s) (hc : CascadeChange s t) (hi : s.calls i ≠ .idle) :
    (t.proc i).pid = (s.proc i).pid := by
  obtain ⟨a, ha, hne⟩ := hc.slot
  have hlive := (hI.thread i).live hi
  by_cases hia : i = a
  swap
  · exact (hne i hia).1.pid
  subst hia
  cases ha with
  | keeps hk => exact hk.pid
  | own ho => exact ho.pid
  | alloc hu => exact absurd hu hlive.1
  | free hidle => exact absurd hidle hi
  | store _ _ hidle => exact absurd hidle hi
  | born hidle => exact absurd hidle hi

/-- Only `begin` and `sweep` move a sweep. -/
theorem sweep_origin {now : ℕ} {exiting : Bool} (hn : s.next l = some t)
    (hb : ∀ j, l ≠ .begin j) (hs : ∀ j, l ≠ .sweep j)
    (ht : t.calls i = .sweep key n now exiting) : s.calls i = .sweep key n now exiting := by
  have hgoto : ∀ (f : Slot → Call) (j : Slot) (c : Call), c ≠ .sweep key n now exiting →
      Function.update f j c i = .sweep key n now exiting → f i = .sweep key n now exiting := by
    intro f j c hc h
    by_cases hij : i = j
    · subst hij; rw [Function.update_self] at h; exact absurd h hc
    · rwa [Function.update_of_ne hij] at h
  have hafter : ∀ e : Bool, (if e then Call.exitLeave else .kernel) ≠ .sweep key n now exiting := by
    intro e; cases e <;> simp
  cases l with
  | begin j => exact absurd rfl (hb j)
  | sweep j => exact absurd rfl (hs j)
  | forkRun j =>
    simp only [CascadeState.next] at hn
    split at hn
    · simp only [Option.some.injEq] at hn
      subst hn
      exact hgoto _ _ _ (by simp) (hgoto _ _ _ (by simp) ht)
    · cases hn
  | swept j =>
    simp only [CascadeState.next] at hn
    split at hn
    · split at hn
      · simp only [Option.some.injEq] at hn
        subst hn
        exact hgoto _ _ _ (hafter _) ht
      · cases hn
    · cases hn
  | _ =>
    simp only [CascadeState.next] at hn
    (repeat' split at hn) <;> simp only [Option.some.injEq, reduceCtorEq] at hn <;> subst hn <;>
      first | exact ht | exact hgoto _ _ _ (by simp) ht

theorem cascadeInv_step (s : CascadeState) (l : CascadeLabel) (t : CascadeState) (h : CascadeInv s)
    (_ : always s l) (hn : cascadeMachine.next s l = some t) : CascadeInv t := by
  obtain ⟨hc, hI⟩ := cascadeNext_change h.table h.thread h.registry hn
  have hT := h.table.step hc
  -- a sweep that does not move
  have hstay : ∀ i key n now exiting, s.calls i = .sweep key n now exiting →
      Sweeping t key (t.proc i).pid n := by
    intro i key n now exiting hi
    rw [pid_of_thread h.thread hc (by simp [hi])]
    exact (h.sweep i key n now exiting hi).step h.table hc fun hrec _ => h.not_recreated hi hrec
  refine ⟨hT, hI, hc.registry, fun i key n now exiting hi => ?_⟩
  by_cases hb : ∃ j, l = .begin j
  · obtain ⟨j, rfl⟩ := hb
    obtain ⟨-, now', exiting', hcalls, hproc, hclosed⟩ := beginStep h.thread h.registry hn
    by_cases hij : i = j
    swap
    · rw [hcalls, Function.update_of_ne hij] at hi
      exact hstay i key n now exiting hi
    subst hij
    rw [hcalls, Function.update_self] at hi
    cases hi
    have hth := hI.thread i
    rw [hcalls, Function.update_self] at hth
    obtain ⟨hlive, -, -, hout, -⟩ := hth
    refine ⟨⟨Nat.pos_of_ne_zero fun h0 => ?_, ?_⟩, fun h0 => ?_, ?_, hclosed, fun j _ => Nat.zero_le _,
      fun j hu hpid hother => ?_⟩
    · exact hout (.inl (by rw [hproc i]; exact h0))
    · have hid := (hT.proc i).id
      rw [hproc i] at hid
      exact hid
    · exact hout (.inr (by rw [hproc i]; exact h0))
    · exact ((hT.proc i).pid hlive.1).2
    · -- the owner of the workflow, if it is another process, is settled
      have hij : i ≠ j := fun he => hother (by rw [he])
      have hown := hT.origin i j hij hu (by rw [hproc i]; exact hpid.symm)
      rw [hproc i] at hown
      exact hown
  by_cases hs : ∃ j, l = .sweep j
  · obtain ⟨j, rfl⟩ := hs
    obtain ⟨-, key', m, now', exiting', hj, hcalls, hkeeps, hm, hkill⟩ :=
      sweepStep h.thread h.registry hn
    by_cases hij : i = j
    swap
    · rw [hcalls, Function.update_of_ne hij] at hi
      exact hstay i key n now exiting hi
    subst hij
    rw [hcalls, Function.update_self] at hi
    cases hi
    refine (hstay i key m now exiting hj).pass fun k hk hmiss => ?_
    obtain rfl : k = ⟨m, hm⟩ := Fin.ext hk
    -- the slot was a target, so it is killed now
    have hk' := hkeeps ⟨m, hm⟩
    have hself : (⟨m, hm⟩ : Slot) ≠ i := fun he => hmiss.other (by rw [he])
    have hkey : (s.proc ⟨m, hm⟩).wf.key = key := (congrArg Membership.key hk'.wf).symm.trans hmiss.key
    have hid : (s.proc ⟨m, hm⟩).wf.workflowId ≠ 0 := by
      have hpos := (h.sweep i key m now exiting hj).id.1
      rw [show (s.proc ⟨m, hm⟩).wf.workflowId = key.1 from congrArg Prod.fst hkey]
      omega
    have hdead := hkill ⟨fun hu => hmiss.used (hk'.unused.2 hu), ((h.table.proc _).type hid).1, hkey,
      .inr (by simpa using hself)⟩
    exact absurd (hmiss.alive.symm.trans hdead) (by decide)
  · rw [not_exists] at hb hs
    exact hstay i key n now exiting (sweep_origin hn hb hs hi)

theorem cascadeInv_init (s : CascadeState) (h : cascadeMachine.init s) : CascadeInv s := by
  obtain ⟨hg, hn, hl, i, hpid, hlive, hid, hwf, hcall, hrest⟩ := h
  have hboot : ∀ j, j ≠ i → (s.proc j).state = .unused ∧ (s.proc j).pid = 0 := fun j hj => by
    rw [(hrest j hj).1]; exact ⟨rfl, rfl⟩
  have hinit : ∀ j, (s.proc j).wf = Membership.init := by
    intro j
    by_cases hj : j = i
    · subst hj; exact hwf
    · rw [(hrest j hj).1]; rfl
  have hcalls : ∀ j, s.calls j = .idle ∨ s.calls j = .user := by
    intro j
    by_cases hj : j = i
    · subst hj; exact .inr hcall
    · exact .inl (hrest j hj).2
  have hchild : ∀ j k, (s.calls j).child ≠ some k := by
    intro j k hk
    rcases hcalls j with hj | hj <;> rw [hj] at hk <;> cases hk
  have hw : s.workflows = fun _ => AgentWorkflow.zero := by
    unfold CascadeState.workflows
    rw [hg]; rfl
  have hone : ∀ j, (s.proc j).state ≠ .unused → j = i := fun j hj =>
    not_not.1 fun hji => hj (hboot j hji).1
  refine ⟨⟨by omega, fun j => ?_, fun j k hj hk _ => ?_, fun j k hjk hk hw' => ?_⟩,
    ⟨fun j => ?_, fun j => ?_, fun j k hk => absurd hk (hchild j k),
      fun j _ k hk => absurd hk (hchild j k)⟩, ⟨?_, ?_, ?_, fun j k hk => ?_⟩,
    fun j key n now exiting hj => ?_⟩
  · by_cases hj : j = i
    · subst hj
      refine .ofLive hlive (by omega) ?_ ?_ ?_ ?_ <;> simp [hwf, Membership.init, hn]
    · exact procOk_free (hboot j hj).1 (hboot j hj).2 (hinit j) (by omega)
  · rw [hone j hj, hone k hk]
  · rw [hone k hk, hpid, hinit j] at hw'
    cases hw'
  · by_cases hj : j = i
    · subst hj
      rw [hcall]
      refine ⟨hlive, fun h => ?_, .inl (.inr (.inl (.inl ?_)))⟩
      · rw [hwf, hpid] at h; cases h
      · rw [hwf]; rfl
    · rw [(hrest j hj).2]; trivial
  · rcases hcalls j with hj | hj <;> rw [hj] <;> trivial
  · intro r hu; rw [hw] at hu; cases hu
  · intro r hu; rw [hw] at hu; cases hu
  · intro r _ hu; rw [hw] at hu; cases hu
  · simp [CascadeState.held, Membership.held, hinit j, Membership.init] at hk
  · rcases hcalls j with hj' | hj' <;> rw [hj'] at hj <;> cases hj

/-- A fork that joins a child to a workflow without an Active record kills it. -/
theorem join_kills (h : CascadeInv s) (hi : s.calls i = .forkJoin j)
    (hn : s.next (.forkJoin i) = some t) (hclosed : ¬ Active s.workflows (t.proc j).wf.key)
    (hout : ¬ (t.proc j).wf.outside) : (t.proc j).killed = true := by
  have hfk := h.thread.fork i
  rw [hi] at hfk
  have hnone : s.held j = none := by simp [CascadeState.held, Membership.held, hfk.2.2.2]
  simp only [CascadeState.next, hi] at hn
  split at hn
  · rename_i ho
    simp only [Option.some.injEq] at hn
    subst hn
    exact absurd ho hout
  rename_i ho
  simp only [Option.some.injEq] at hn
  rcases join_cases (g := s.kernel.agentGlobal) (m := (s.proc j).wf) h.registry ho hnone with
    ⟨hbad, -⟩ | ⟨hgood, hactive, -⟩
  · rw [if_neg hbad] at hn
    subst hn
    simp
  · rw [if_pos hgood] at hn
    subst hn
    simp only [CascadeState.goto_proc, CascadeState.setProc_self] at hclosed
    exact absurd hactive hclosed

theorem cascadeInv_reach (h : cascadeMachine.Reach always tr s) : CascadeInv s :=
  h.inv cascadeInv_init cascadeInv_step

/-- The step makes no record of the workflow where there is none. -/
def KeepsGone (key : WorkflowKey) (v : CascadeState) (l : CascadeLabel) : Prop :=
  ∀ v', cascadeMachine.next v l = some v' → Recorded v'.workflows key → Recorded v.workflows key

/-- **Cascade termination misses nobody.** When `agent_cascade_terminate` of process `c` returns,
every other process of its workflow that no fork is still about to join to it is killed or
has exited. This stays so until somebody makes a new record of that workflow, so in
particular until the record is freed, and until then a fork that joins a child to the
workflow creates it killed. -/
theorem cascade_misses_nobody (hr : cascadeMachine.Reach always tr s)
    (hn : cascadeMachine.next s (.swept c) = some t)
    (hp : cascadeMachine.Path (KeepsGone (s.proc c).wf.key) t tr' u) :
    (∀ j, (u.proc j).wf.key = (s.proc c).wf.key → (u.proc j).pid ≠ (s.proc c).pid →
      (u.proc j).state ≠ .unused → (∀ i, u.calls i ≠ .forkJoin j) →
      (u.proc j).killed = true ∨ (u.proc j).state = .zombie) ∧
    ∀ i j v, u.calls i = .forkJoin j → cascadeMachine.next u (.forkJoin i) = some v →
      (v.proc j).wf.key = (s.proc c).wf.key → (v.proc j).killed = true := by
  have hinv := cascadeInv_reach hr
  have hinv' := cascadeInv_step s _ t hinv trivial hn
  -- the sweep has passed every slot
  have hdone : Sweeping t (s.proc c).wf.key (s.proc c).pid nproc := by
    obtain ⟨hc, -⟩ := cascadeNext_change (l := .swept c) hinv.table hinv.thread hinv.registry hn
    have hth := hinv.thread.thread c
    simp only [cascadeMachine, CascadeState.next] at hn
    split at hn
    swap
    · cases hn
    rename_i key m now exiting hcall
    rw [hcall] at hth
    obtain ⟨-, -, -, -, hkey⟩ := hth
    split at hn
    swap
    · cases hn
    rename_i hm
    subst hm
    rw [hkey]
    exact (hinv.sweep c key _ now exiting hcall).step hinv.table hc fun hrec _ =>
      hinv.not_recreated hcall hrec
  obtain ⟨hu, hsw⟩ : CascadeInv u ∧ Sweeping u (s.proc c).wf.key (s.proc c).pid nproc := by
    refine hp.inv (P := fun v => CascadeInv v ∧ Sweeping v (s.proc c).wf.key (s.proc c).pid nproc)
      (fun v l v' hv hok hv' => ?_) ⟨hinv', hdone⟩
    obtain ⟨hc, -⟩ := cascadeNext_change hv.1.table hv.1.thread hv.1.registry hv'
    exact ⟨cascadeInv_step v l v' hv.1 trivial hv', hv.2.step hv.1.table hc fun hrec hrec' =>
      absurd (hok v' hv' hrec') hrec⟩
  refine ⟨fun j hkey hpid hused hjoin => ?_, fun i j v hi hv hkey => ?_⟩
  · left
    by_contra hnot
    have hmiss : Missed u (s.proc c).wf.key (s.proc c).pid j := by
      refine ⟨hused, hkey, hpid, ?_, by simpa using hnot⟩
      rintro ⟨i, hi⟩
      exact hjoin i hi
    have hle := hsw.swept j hmiss
    have hlt := j.isLt
    omega
  · refine join_kills hu hi hv (by rw [hkey]; exact hsw.closed) ?_
    rintro (h0 | h0)
    · exact hsw.id.1.ne' ((congrArg Prod.fst hkey).symm.trans h0)
    · exact hsw.generation ((congrArg Prod.snd hkey).symm.trans h0)

end

/-- `init`, to be a Planner. -/
def initRuns : CascadeState where
  kernel := initOnly
  calls i := if i = 0 then .user else .idle
  lock _ := none

/-- It makes itself a Planner, forks a worker, asks for the termination of its workflow and
sweeps the process table. -/
def plannerSweeps : List CascadeLabel :=
  [.trap 0, .mark 0 agentTypePrimary 0 0 true 0 0, .leave 0, .storeId 0, .storeOwn 0, .create 0,
    .fork 0 1, .forkStore 0, .forkJoin 0, .forkRelease 0, .forkRun 0, .terminate 0, .begin 0] ++
  List.replicate nproc (.sweep 0)

def plannerSwept : CascadeState := (cascadeMachine.run initRuns plannerSweeps).getD initRuns

/-- `agent_cascade_terminate` has returned to the Planner. -/
def plannerDone : CascadeState := (plannerSwept.next (.swept 0)).getD plannerSwept

theorem initRuns_init : cascadeMachine.init initRuns := by
  refine ⟨rfl, rfl, fun _ => rfl, 0, rfl, by decide, rfl, rfl, rfl, fun j hj => ?_⟩
  simp [initRuns, CascadeState.proc, initOnly, Kernel.setProc_procs, hj, Kernel.boot]

theorem plannerSwept_reach : cascadeMachine.Reach always plannerSweeps plannerSwept :=
  ⟨initRuns, initRuns_init, path_getD (by decide)⟩

theorem plannerDone_next : cascadeMachine.next plannerSwept (.swept 0) = some plannerDone := rfl

/-- The worker is killed. -/
theorem cascade_misses_nobody_worker :
    (plannerDone.proc 1).killed = true ∨ (plannerDone.proc 1).state = .zombie :=
  (cascade_misses_nobody plannerSwept_reach plannerDone_next (Path.nil _)).1 1 (by decide)
    (by decide) (by decide) (by decide)

/-- The worker is in a system call when the sweep passes it, and forks behind its back. -/
def workerForksBehind : List CascadeLabel :=
  [.trap 0, .mark 0 agentTypePrimary 0 0 true 0 0, .leave 0, .storeId 0, .storeOwn 0, .create 0,
    .fork 0 1, .forkStore 0, .forkJoin 0, .forkRelease 0, .forkRun 0, .trap 1, .terminate 0,
    .begin 0] ++
  List.replicate nproc (.sweep 0) ++ [.fork 1 2, .forkStore 1]

def forkedBehind : CascadeState := (cascadeMachine.run initRuns workerForksBehind).getD initRuns

set_option maxRecDepth 100000 in
/-- **A child that its fork has not joined yet is missed**: it is in the workflow when
`agent_cascade_terminate` returns, and nobody has killed it. -/
theorem unjoined_child_missed :
    ¬ ∀ tr s c t, cascadeMachine.Reach always tr s → cascadeMachine.next s (.swept c) = some t →
      ∀ j, (t.proc j).wf.key = (s.proc c).wf.key → (t.proc j).pid ≠ (s.proc c).pid →
        (t.proc j).state ≠ .unused → (t.proc j).killed = true ∨ (t.proc j).state = .zombie := by
  intro h
  have hreach : cascadeMachine.Reach always workerForksBehind forkedBehind :=
    ⟨initRuns, initRuns_init, path_getD (by decide +kernel)⟩
  have hkill := h _ forkedBehind 0 ((forkedBehind.next (.swept 0)).getD forkedBehind) hreach
    (next_getD (by decide +kernel)) 2 (by decide +kernel) (by decide +kernel) (by decide +kernel)
  exact absurd hkill (by decide +kernel)

end AgentOS
