import AgentOS.Model.Mark
import AgentOS.Proof.Member

/-!
# What `agent_create` leaves in the workflow table

* `create_iff`: when `agent_workflow_create_locked` succeeds; its record is Active then.
* `leave_table`: what a leave does to the table.
* `agentMarkCurrent_path`: the call alone is a run of the machine of workflows.
* **`mark_usable_iff`**; `mark_unregistered`: a Planner that terminated its workflow and creates
  itself again is in no workflow.
-/

namespace AgentOS

open Machine RefCount

/-! ### The table -/

/-- An Active record, or none and a free slot. -/
def Room (f : Workflows) (k : WorkflowKey) : Prop :=
  Active f k ∨ ¬ Recorded f k ∧ ∃ r, (f r).used = false

section

variable {g : AgentGlobal} {held : Slot → Option WorkflowKey} {i : Slot} {m : Membership}
  {k : WorkflowKey}

theorem create_iff (h : Registry g.workflows held) :
    (agentWorkflowCreate g m).2 = agentToolOk ↔ Room g.workflows m.key := by
  unfold agentWorkflowCreate Room
  cases hf : agentWorkflowFind g m.key with
  | some r =>
    obtain ⟨hu, hk⟩ := find_some hf
    have hrec : Recorded g.workflows m.key := ⟨r, hu, hk⟩
    have honly : Active g.workflows m.key ↔ (g.workflows r).state = agentWorkflowActive := by
      constructor
      · rintro ⟨r', hu', hk', ha⟩
        rwa [h.inj r r' hu hu' (hk.trans hk'.symm)]
      · intro ha
        exact ⟨r, hu, hk, ha⟩
    dsimp only
    rw [honly]
    split
    · rename_i hs
      rw [hs]
      refine iff_of_false (show agentToolErrBusy ≠ agentToolOk by decide) ?_
      rintro (ha | ⟨hno, -⟩)
      · exact terminating_ne_active ha
      · exact hno hrec
    · rename_i hs
      exact iff_of_true rfl (.inl ((h.state r hu).resolve_right hs))
  | none =>
    have hno := find_none hf
    have hact : ¬ Active g.workflows m.key := by
      rintro ⟨r, hu, hk, -⟩
      exact hno ⟨r, hu, hk⟩
    dsimp only
    cases hs : Table.first g.workflows fun w => !w.used with
    | none =>
      refine iff_of_false (show agentToolErrNoSpace ≠ agentToolOk by decide) ?_
      rintro (ha | ⟨-, r, hu⟩)
      · exact hact ha
      · have hr := Table.first_none.1 hs r
        simp [hu] at hr
    | some r =>
      have hr := Table.first_some hs
      exact iff_of_true rfl (.inr ⟨hno, r, by simpa using hr⟩)

theorem create_active (h : Registry g.workflows held)
    (hok : (agentWorkflowCreate g m).2 = agentToolOk) :
    Active (agentWorkflowCreate g m).1.workflows m.key := by
  unfold agentWorkflowCreate at hok ⊢
  cases hf : agentWorkflowFind g m.key with
  | some r =>
    obtain ⟨hu, hk⟩ := find_some hf
    rw [hf] at hok
    dsimp only at hok ⊢
    split at hok
    · exact absurd hok (show agentToolErrBusy ≠ agentToolOk by decide)
    rename_i hs
    rw [if_neg hs]
    refine ⟨r, ?_, ?_, ?_⟩ <;> rw [AgentGlobal.setWorkflow_workflows, Function.update_self]
    · exact hu
    · exact hk
    · exact (h.state r hu).resolve_right hs
  | none =>
    rw [hf] at hok
    dsimp only at hok ⊢
    cases hs : Table.first g.workflows fun w => !w.used with
    | none =>
      rw [hs] at hok
      exact absurd hok (show agentToolErrNoSpace ≠ agentToolOk by decide)
    | some r =>
      refine ⟨r, ?_, ?_, ?_⟩ <;> simp only [AgentGlobal.setWorkflow_workflows, Function.update_self]
      rfl

/-- A join that succeeds keeps the Active record it finds. -/
theorem join_keeps (h : Registry g.workflows held) (ho : ¬ m.outside)
    (hok : (agentWorkflowJoin g m).2 = agentToolOk) :
    Active (agentWorkflowJoin g m).1.workflows m.key := by
  unfold agentWorkflowJoin at hok ⊢
  rw [if_neg ho] at hok ⊢
  cases hf : agentWorkflowFind g m.key with
  | none =>
    rw [hf] at hok
    exact absurd hok (show agentToolErrServiceGone ≠ agentToolOk by decide)
  | some r =>
    obtain ⟨hu, hk⟩ := find_some hf
    rw [hf] at hok
    dsimp only at hok ⊢
    split at hok
    · exact absurd hok (show agentToolErrBusy ≠ agentToolOk by decide)
    rename_i hs
    split at hok
    · exact absurd hok (show agentToolErrNoSpace ≠ agentToolOk by decide)
    rename_i hmax
    rw [if_neg hs, if_neg hmax]
    refine ⟨r, ?_, ?_, ?_⟩ <;> rw [AgentGlobal.setWorkflow_workflows, Function.update_self]
    · exact hu
    · exact hk
    · exact (h.state r hu).resolve_right hs

/-- A leave of a registered process clears its record if it is alone there, and takes one off
its count otherwise. -/
theorem leave_table (h : Registry g.workflows held) (hm : held i = m.held)
    (ho : m.workflowMemberRegistered = true → ¬ m.outside)
    (hreg : m.workflowMemberRegistered = true) :
    ∃ r, (g.workflows r).used = true ∧ (g.workflows r).key = m.key ∧
      ((g.workflows r).memberCount = 1 ∧
        (agentWorkflowLeave g m).1.workflows = Function.update g.workflows r AgentWorkflow.zero ∨
      1 < (g.workflows r).memberCount ∧
        (agentWorkflowLeave g m).1.workflows = Function.update g.workflows r
          { g.workflows r with memberCount := (g.workflows r).memberCount - 1 }) := by
  have hk : held i = some m.key := by rw [hm, Membership.held, hreg]; rfl
  obtain ⟨r₀, hu₀, hk₀⟩ := h.found i _ hk
  unfold agentWorkflowLeave
  rw [if_neg (by rintro (hc | hc); exacts [absurd (hreg.symm.trans hc) (by decide), ho hreg hc])]
  cases hf : agentWorkflowFind g m.key with
  | none => exact absurd ⟨r₀, hu₀, hk₀⟩ (find_none hf)
  | some r =>
    obtain ⟨hu, hkr⟩ := find_some hf
    have hpos := h.pos hk hu hkr
    refine ⟨r, hu, hkr, ?_⟩
    dsimp only
    rw [if_pos hpos]
    split
    · exact .inl ⟨by omega, rfl⟩
    · exact .inr ⟨by omega, rfl⟩

end

/-! ### Who owns a workflow -/

section

variable {s t : CascadeState} {i : Slot} {k : WorkflowKey} {g : AgentGlobal} {p : Proc}
  {r : Fin agentWorkflowMax} {type hb : ℤ} {quota now now' : ℕ} {u : Bool}
  {tr : List CascadeLabel}

/-- The record that names the pid of a settled process is that of the workflow it is in. -/
theorem owner_key (h : CascadeInv s) (hm : Manned s.workflows) (hl : (s.proc i).live)
    (hset : (s.proc i).Settled) (hu : (s.workflows r).used = true)
    (hid : (s.workflows r).workflowId = (s.proc i).pid) :
    (s.proc i).wf.key = (s.workflows r).key ∧
      (s.workflows r).key = ((s.proc i).pid, (s.proc i).ident.identityGeneration) := by
  have hcount := h.registry.count r hu
  have hpos := hm r hu
  obtain ⟨j, hj⟩ : ∃ j, s.held j = some (s.workflows r).key := by
    by_contra hno
    rw [not_exists] at hno
    have hzero := holders_eq_zero.2 hno
    omega
  have hkey : (s.proc j).wf.key = (s.workflows r).key := by
    unfold CascadeState.held Membership.held at hj
    split at hj
    · exact Option.some.inj hj
    · cases hj
  have hjid : (s.proc j).wf.workflowId = (s.proc i).pid := (congrArg Prod.fst hkey).trans hid
  by_cases hji : j = i
  · subst hji
    refine ⟨hkey, ?_⟩
    rw [← hkey]
    exact Prod.ext hjid (hset hjid)
  · have hown := h.table.origin j i hji hl.1 hjid
    have hki : (s.proc i).wf.key = (s.proc j).wf.key :=
      Prod.ext (hown.id.trans hjid.symm) hown.leader
    refine ⟨hki.trans hkey, ?_⟩
    rw [← hkey]
    exact Prod.ext hjid hown.identity.symm

/-- A process that is to own a workflow: the record it looks for is one that names its pid. -/
theorem recorded_own (h : CascadeInv s) (hm : Manned s.workflows) (hl : (s.proc i).live)
    (hset : (s.proc i).Settled) {o : ℕ}
    (ho : (s.proc i).ident.identityGeneration ≠ 0 → o = (s.proc i).ident.identityGeneration)
    (hu : (s.workflows r).used = true) :
    (s.workflows r).key = ((s.proc i).pid, o) ↔ (s.workflows r).workflowId = (s.proc i).pid := by
  refine ⟨fun hk => congrArg Prod.fst hk, fun hid => ?_⟩
  obtain ⟨hwf, hk⟩ := owner_key h hm hl hset hu hid
  have hpid := ((h.table.proc i).pid hl.1).1
  have hw : (s.proc i).wf.workflowId = (s.proc i).pid := (congrArg Prod.fst hwf).trans hid
  have hgen := ((h.table.proc i).type (by omega)).2
  rw [hk, ho hgen]

/-- Where a create goes through behind the leave of a process, in terms of the table before. -/
theorem room_iff (h : CascadeInv s) (hm : Manned s.workflows) (hl : (s.proc i).live)
    (hset : (s.proc i).Settled) (hg : g.workflows = s.workflows) {o : ℕ}
    (ho : (s.proc i).ident.identityGeneration ≠ 0 → o = (s.proc i).ident.identityGeneration) :
    Room (agentWorkflowLeave g (s.proc i).wf).1.workflows ((s.proc i).pid, o) ↔ s.OwnRoom i := by
  have hown : ∀ r, (s.workflows r).used = true → ((s.workflows r).key = ((s.proc i).pid, o) ↔
      (s.workflows r).workflowId = (s.proc i).pid) := fun r hu => recorded_own h hm hl hset ho hu
  -- a table with the records of `s`, but for their counts
  have hsame : ∀ f : Workflows, (∀ r, (f r).used = (s.workflows r).used ∧
      (f r).key = (s.workflows r).key ∧ (f r).state = (s.workflows r).state) →
      (∀ r, ¬ s.Alone i r) → (Room f ((s.proc i).pid, o) ↔ s.OwnRoom i) := by
    intro f hf halone
    refine or_congr ?_ (and_congr ?_ (exists_congr fun r => ?_))
    · refine exists_congr fun r => ?_
      rw [(hf r).1, (hf r).2.1, (hf r).2.2]
      refine and_congr_right fun hu => and_congr (hown r hu) ?_
      simp [halone r]
    · unfold Recorded
      rw [not_exists]
      refine forall_congr' fun r => ?_
      rw [(hf r).1, (hf r).2.1, not_and]
      exact imp_congr_right fun hu => not_congr (hown r hu)
    · rw [(hf r).1]
      simp [halone r]
  cases hreg : (s.proc i).wf.workflowMemberRegistered with
  | false =>
    have hleave : (agentWorkflowLeave g (s.proc i).wf).1 = g := by
      unfold agentWorkflowLeave
      rw [if_pos (.inl hreg)]
    rw [hleave]
    refine hsame _ (fun r => by rw [hg]; exact ⟨rfl, rfl, rfl⟩) fun r ha => ?_
    exact absurd (hreg.symm.trans ha.1) (by decide)
  | true =>
    obtain ⟨r₀, hu₀, hk₀, hcase⟩ := leave_table (g := g) (i := i) (m := (s.proc i).wf)
      (by rw [hg]; exact h.registry) rfl (h.table.proc i).registered hreg
    rw [hg] at hu₀ hk₀ hcase
    have honly : ∀ r, (s.workflows r).used = true → (s.workflows r).key = (s.proc i).wf.key →
        r = r₀ := fun r hu hk => h.registry.inj r r₀ hu hu₀ (hk.trans hk₀.symm)
    rcases hcase with ⟨hone, hf⟩ | ⟨hmany, hf⟩
    · -- its own record is cleared: the table has room
      have halone : s.Alone i r₀ := ⟨hreg, hu₀, hk₀, hone⟩
      rw [hf]
      refine iff_of_true (.inr ⟨?_, r₀, ?_⟩) ?_
      · rintro ⟨r, hu, hk⟩
        by_cases hr : r = r₀
        · subst hr
          rw [Function.update_self] at hu
          cases hu
        · rw [Function.update_of_ne hr] at hu hk
          have hkey := (owner_key h hm hl hset hu ((hown r hu).1 hk)).1
          exact hr (honly r hu hkey.symm)
      · rw [Function.update_self]; rfl
      · by_cases hrec : ∃ r, (s.workflows r).used = true ∧
            (s.workflows r).workflowId = (s.proc i).pid
        · obtain ⟨r, hu, hid⟩ := hrec
          have hkey := (owner_key h hm hl hset hu hid).1
          obtain rfl := honly r hu hkey.symm
          exact .inl ⟨r, hu, hid, .inr halone⟩
        · exact .inr ⟨fun r hu hid => hrec ⟨r, hu, hid⟩, r₀, .inr halone⟩
    · rw [hf]
      refine hsame _ (fun r => ?_) fun r ha => ?_
      · by_cases hr : r = r₀
        · subst hr
          rw [Function.update_self]
          exact ⟨rfl, rfl, rfl⟩
        · rw [Function.update_of_ne hr]
          exact ⟨rfl, rfl, rfl⟩
      · obtain ⟨-, hu, hk, hone⟩ := ha
        obtain rfl := honly r hu hk
        omega

/-! ### The call -/

theorem manned_reach (h : cascadeMachine.Reach always tr s) : Manned s.workflows := by
  refine h.inv (P := fun s => Manned s.workflows) (fun s hs r hu => ?_)
    fun s l t hs _ hn => (tableStep_of_next hn).manned hs
  have hw : s.workflows r = AgentWorkflow.zero := by
    unfold CascadeState.workflows
    rw [hs.1]; rfl
  rw [hw] at hu
  cases hu

/-- A process that names a workflow of its own is in it if its record could be made. -/
theorem own_usable {held : Slot → Option WorkflowKey} (hR : Registry t.workflows held)
    (hreg : (t.proc i).wf.workflowMemberRegistered = false) (leader : Bool) :
    ((t.agentMarkOwn i leader).markDone i).Usable i ↔
      Room t.workflows ((t.proc i).pid, (t.proc i).ident.identityGeneration) := by
  unfold CascadeState.agentMarkOwn
  dsimp only
  rw [if_neg (by simp [hreg])]
  set m : Membership := { (t.proc i).wf with
    workflowId := (t.proc i).pid
    workflowLeaderPid := (t.proc i).pid
    workflowLeaderGeneration := (t.proc i).ident.identityGeneration
    isWorkflowLeader := leader } with hmdef
  have hiff := create_iff (g := t.kernel.agentGlobal) (m := m) hR
  have hkey : m.key = ((t.proc i).pid, (t.proc i).ident.identityGeneration) := rfl
  rw [hkey] at hiff
  refine Iff.trans ?_ hiff
  constructor
  · rintro ⟨hr, -⟩
    simpa [CascadeState.markDone, CascadeState.setWf, markContext] using hr
  · intro hok
    obtain ⟨r, hu, hk, ha⟩ := create_active (m := m) hR hok
    refine ⟨?_, r, hu, ?_, ha⟩
    · simpa [CascadeState.markDone, CascadeState.setWf, markContext] using hok
    · refine hk.trans ?_
      simp [CascadeState.markDone, CascadeState.setWf, markContext, Membership.key, hmdef]

/-- `s` with the record of `i`, its thread and the global state replaced. -/
def CascadeState.put (s : CascadeState) (i : Slot) (p : Proc) (g : AgentGlobal) (c : Call) :
    CascadeState :=
  ((s.setGlobal g).setProc i p).goto i c

section

variable {p' : Proc} {g' : AgentGlobal} {c c' : Call}

@[simp] theorem put_proc : (s.put i p g c).proc i = p := by simp [CascadeState.put]

@[simp] theorem put_calls : (s.put i p g c).calls i = c := by simp [CascadeState.put]

@[simp] theorem put_global : (s.put i p g c).kernel.agentGlobal = g := rfl

@[simp] theorem put_goto : (s.put i p g c).goto i c' = s.put i p g c' := by
  simp [CascadeState.put, CascadeState.goto]

@[simp] theorem put_setGlobal : (s.put i p g c).setGlobal g' = s.put i p g' c := rfl

@[simp] theorem put_setProc : (s.put i p g c).setProc i p' = s.put i p' g c := by
  simp [CascadeState.put, CascadeState.setProc, CascadeState.setGlobal, CascadeState.goto,
    Kernel.setProc]

theorem put_self : s.put i (s.proc i) s.kernel.agentGlobal (s.calls i) = s := by
  simp [CascadeState.put, CascadeState.setProc, CascadeState.setGlobal, CascadeState.goto,
    Kernel.setProc, CascadeState.proc]

/-- The stores by which a process names a workflow of its own, and the section behind them. -/
theorem own_path (leader : Bool) (hlead : (p.wf.isWorkflowLeader || type == agentTypePrimary) = leader) :
    cascadeMachine.Path always (s.put i p g (.markId type)) [.storeId i, .storeOwn i, .create i]
      (((s.put i p g .kernel).agentMarkOwn i leader).markDone i) := by
  refine path_of_run ?_
  subst hlead
  simp only [run, cascadeMachine, CascadeState.next, CascadeState.agentMarkOwn, CascadeState.setWf,
    CascadeState.markDone, put_calls, put_proc, put_setProc, put_goto, Option.bind_some, if_true]
  split
  · simp
  · simp

end

/-- **The call alone is a run**: its steps are sections of its own thread. -/
theorem agentMarkCurrent_path (hc : s.calls i = .kernel) :
    ∃ tr', (∀ l ∈ tr', l.thread = some i) ∧
      cascadeMachine.Path always s tr' (s.agentMarkCurrent i type hb quota u now now').1 := by
  unfold CascadeState.agentMarkCurrent
  cases hk : s.kernel.markCurrent i type hb quota u now now' with
  | none =>
    have hmark : cascadeMachine.next s (.mark i type hb quota u now now') = some s := by
      simp [cascadeMachine, CascadeState.next, hc, hk]
    exact ⟨_, by simp [CascadeLabel.thread], Path.single trivial hmark⟩
  | some k =>
    have hmark : cascadeMachine.next s (.mark i type hb quota u now now') =
        some ({ s with kernel := k }.goto i (.markLeave (markType type))) := by
      simp [cascadeMachine, CascadeState.next, hc, hk]
    obtain ⟨w, p, g, hv⟩ : ∃ w p g, ({ s with kernel := k } : CascadeState) =
        CascadeState.put w i p g .kernel := by
      have hput := put_self (s := ({ s with kernel := k } : CascadeState)) (i := i)
      rw [show ({ s with kernel := k } : CascadeState).calls i = .kernel from hc] at hput
      exact ⟨_, _, _, hput.symm⟩
    have hg : k.agentGlobal = g := congrArg (fun v : CascadeState => v.kernel.agentGlobal) hv
    rw [hv, put_goto] at hmark
    simp only [hv, hg, put_proc, put_setGlobal, CascadeState.setWf, put_setProc, put_global,
      CascadeState.markDone, put_goto]
    split
    · -- a Primary
      rename_i ht
      rw [ht] at hmark
      have hleave : cascadeMachine.next (w.put i p g (.markLeave agentTypePrimary)) (.leave i) =
          some (w.put i { p with wf := (agentWorkflowLeave g p.wf).2 } (agentWorkflowLeave g p.wf).1
            (.markId agentTypePrimary)) := by
        simp [cascadeMachine, CascadeState.next, CascadeState.setWf]
      exact ⟨_, by simp [CascadeLabel.thread], .cons trivial hmark (.cons trivial hleave
        (own_path true (by simp)))⟩
    · rename_i ht
      -- a worker clears its flag and is done, or goes on to own or to join a workflow
      have hleave : cascadeMachine.next (w.put i p g (.markLeave (markType type))) (.leave i) =
          some (if p.wf.outside then
              w.put i { p with wf := { p.wf with isWorkflowLeader := false } } g
                (.markId (markType type))
            else if p.wf.workflowMemberRegistered = false then
              w.put i { p with wf := { p.wf with isWorkflowLeader := false } } g .markJoin
            else w.put i (markContext { p with wf := { p.wf with isWorkflowLeader := false } }) g
              .kernel) := by
        simp only [cascadeMachine, CascadeState.next, CascadeState.setWf, put_calls, put_proc,
          put_setProc, put_goto, CascadeState.markDone, if_neg ht]
        split
        · rfl
        · split <;> rfl
      split
      · rename_i hout
        rw [if_pos hout] at hleave
        refine ⟨_, by simp [CascadeLabel.thread], .cons trivial hmark (.cons trivial hleave
          (own_path false ?_))⟩
        simpa using ht
      · rename_i hout
        rw [if_neg hout] at hleave
        split
        · rename_i hreg
          rw [if_pos hreg] at hleave
          refine ⟨[_, _, .join i], by simp [CascadeLabel.thread], .cons trivial hmark
            (.cons trivial hleave (path_of_run ?_))⟩
          simp only [run, cascadeMachine, CascadeState.next, CascadeState.setWf, put_calls, put_proc,
            put_setProc, put_goto, CascadeState.markDone, put_global, put_setGlobal, if_true]
          split <;> rfl
        · rename_i hreg
          rw [if_neg hreg] at hleave
          exact ⟨_, by simp [CascadeLabel.thread], .cons trivial hmark (.single trivial hleave)⟩

/-- **When `agent_create` delivers a usable workflow**: a call that returns the Context address
leaves its process registered with an Active workflow if and only if the table had room for
it. -/
theorem mark_usable_iff (hr : cascadeMachine.Reach always tr s) (hc : s.calls i = .kernel)
    (hret : (s.agentMarkCurrent i type hb quota u now now').2 ≠ -1) :
    (s.agentMarkCurrent i type hb quota u now now').1.Usable i ↔ s.Admitted i type := by
  have h := cascadeInv_reach hr
  have hm := manned_reach hr
  have hth := h.thread.thread i
  rw [hc] at hth
  obtain ⟨hl, hset, -⟩ := hth
  unfold CascadeState.agentMarkCurrent at hret ⊢
  cases hk : s.kernel.markCurrent i type hb quota u now now' with
  | none =>
    rw [hk] at hret
    exact absurd rfl hret
  | some k =>
    rw [hk] at hret
    obtain ⟨v, hv⟩ : ∃ v : CascadeState, v = { s with kernel := k } := ⟨_, rfl⟩
    obtain ⟨hpid, hwf, hw, hgen⟩ : (v.proc i).pid = (s.proc i).pid ∧
        (v.proc i).wf = (s.proc i).wf ∧ v.workflows = s.workflows ∧
        ((s.proc i).ident.identityGeneration ≠ 0 →
          (v.proc i).ident.identityGeneration = (s.proc i).ident.identityGeneration) := by
      obtain ⟨-, hpid, -⟩ := markCurrent_frame i hk
      obtain ⟨hw, hwf, -, -, -, hsame⟩ := markCurrent_ident hk
      subst hv
      exact ⟨hpid, hwf, hw, hsame⟩
    have hR : Registry v.workflows s.held := by rw [hw]; exact h.registry
    have hg : k.agentGlobal = v.kernel.agentGlobal := by rw [hv]
    dsimp only at hret ⊢
    rw [← hv, hg] at hret ⊢
    unfold CascadeState.Admitted
    split
    · -- a Primary leaves its workflow and owns a new one
      rename_i htype
      obtain ⟨hleft, -, hRl⟩ := leave_cases (g := v.kernel.agentGlobal) (i := i) (m := (v.proc i).wf)
        hR (congrArg Membership.held hwf.symm)
        (by rw [hwf]; exact (h.table.proc i).registered)
      rw [if_pos (.inl htype)]
      refine (own_usable (t := (v.setGlobal _).setWf i (agentWorkflowLeave _ _).2) hRl ?_
        true).trans ?_
      · simp [CascadeState.setWf, hleft]
      · simp only [CascadeState.setWf, CascadeState.setProc_self, CascadeState.setProc_workflows,
          CascadeState.setGlobal_workflows, CascadeState.setGlobal_proc]
        rw [hwf, hpid]
        exact room_iff h hm hl hset hw hgen
    · rename_i htype
      rw [if_neg htype] at hret
      rw [hwf] at hret ⊢
      by_cases hout : (s.proc i).wf.outside
      · -- a worker that is in no workflow owns one
        have hreg : (s.proc i).wf.workflowMemberRegistered = false := by
          by_contra hne
          exact (h.table.proc i).registered (by simpa using hne) hout
        have hleave : (agentWorkflowLeave v.kernel.agentGlobal (s.proc i).wf).1 =
            v.kernel.agentGlobal := by
          unfold agentWorkflowLeave
          rw [if_pos (.inl hreg)]
        have hroom := room_iff (g := v.kernel.agentGlobal) h hm hl hset hw hgen
        rw [hleave] at hroom
        rw [if_pos hout, if_pos (.inr hout)]
        refine (own_usable (t := v.setWf i _) hR ?_ false).trans ?_
        · simp [CascadeState.setWf, hreg]
        · simp only [CascadeState.setWf, CascadeState.setProc_self]
          rw [hpid]
          exact hroom
      · rw [if_neg hout] at hret ⊢
        rw [if_neg (not_or.2 ⟨htype, hout⟩)]
        split
        · -- a worker without a record joins
          rename_i hreg
          rw [if_pos hreg] at hret
          split
          · rename_i hok
            have hout' : ¬ ((v.setWf i { (s.proc i).wf with isWorkflowLeader := false }).proc
                i).wf.outside := by
              simpa [CascadeState.setWf, Membership.outside] using hout
            obtain ⟨r, hu, hkr, ha⟩ := join_keeps (g := v.kernel.agentGlobal) hR hout' hok
            refine iff_of_true ⟨?_, r, hu, ?_, ha⟩ fun hr => absurd (hreg.symm.trans hr) (by decide)
            · simp [CascadeState.markDone, CascadeState.setWf, markContext]
            · refine hkr.trans ?_
              simp [CascadeState.markDone, CascadeState.setWf, markContext, Membership.key]
          · rename_i hok
            rw [if_neg hok] at hret
            exact absurd rfl hret
        · -- a worker that stays registered
          rename_i hreg
          have hreg' : (s.proc i).wf.workflowMemberRegistered = true := by simpa using hreg
          have hview : (((v.setWf i { (s.proc i).wf with isWorkflowLeader := false }).markDone
              i).proc i).wf = { (s.proc i).wf with isWorkflowLeader := false } := by
            simp [CascadeState.markDone, CascadeState.setWf, markContext]
          unfold CascadeState.Usable
          rw [hview, show ((v.setWf i { (s.proc i).wf with isWorkflowLeader := false }).markDone
              i).workflows = s.workflows from hw]
          exact ⟨fun hact _ => hact.2, fun hact => ⟨hreg', hact hreg'⟩⟩

/-! ### Two calls -/

/-- `init` in a system call. -/
def initCalls : CascadeState := (cascadeMachine.next initRuns (.trap 0)).getD initRuns

theorem initCalls_reach : cascadeMachine.Reach always [.trap 0] initCalls :=
  ⟨initRuns, initRuns_init, .single trivial (next_getD (by decide))⟩

/-- The first workflow finds room. -/
theorem mark_usable_iff_first :
    (initCalls.agentMarkCurrent 0 agentTypePrimary 0 0 true 0 0).1.Usable 0 :=
  (mark_usable_iff initCalls_reach (by decide) (by decide)).2 (by decide)

/-- A Planner that has terminated its workflow creates itself again. -/
theorem mark_unregistered :
    ¬ ∀ tr s i type hb quota u now now', cascadeMachine.Reach always tr s →
      s.calls i = .kernel → (s.agentMarkCurrent i type hb quota u now now').2 ≠ -1 →
      (s.agentMarkCurrent i type hb quota u now now').1.Usable i := by
  intro h
  have hu := (h _ plannerDone 0 agentTypePrimary 0 0 true 0 0
    (plannerSwept_reach.snoc trivial plannerDone_next) (by decide) (by decide)).1
  exact absurd hu (by decide)

end

end AgentOS
