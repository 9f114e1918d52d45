import AgentOS.Model.Workflow

/-!
# `agent_mark_current`, run alone

The sections of `agent_mark_current` in one go, with no other process in between, and what
it returns. Of the rest of the call the machine of workflows has the stores that it needs;
the Context is in `AgentOS.Model.Context`.
-/

namespace AgentOS

namespace CascadeState

variable (s : CascadeState) (i : Slot)

/-- The process names a workflow of its own, and enters it in the table. -/
def agentMarkOwn (leader : Bool) : CascadeState :=
  let p := s.proc i
  let p := { p with
    ident.agentParentPid := 0
    ident.agentParentGeneration := 0
    wf.workflowId := p.pid
    wf.workflowLeaderPid := p.pid
    wf.workflowLeaderGeneration := p.ident.identityGeneration
    wf.isWorkflowLeader := leader }
  let t := s.setProc i p
  if p.wf.workflowMemberRegistered then t
  else
    let r := agentWorkflowCreate t.kernel.agentGlobal p.wf
    (t.setGlobal r.1).setWf i { p.wf with workflowMemberRegistered := r.2 == agentToolOk }

/-- `agent_mark_current`: the state it leaves, and its result. -/
def agentMarkCurrent (type heartbeatInterval : ℤ) (resourceQuota : ℕ) (uvmalloc : Bool)
    (now now' : ℕ) : CascadeState × ℤ :=
  match s.kernel.markCurrent i type heartbeatInterval resourceQuota uvmalloc now now' with
  | none => (s, -1)
  | some k =>
    let t : CascadeState := { s with kernel := k }
    let p := t.proc i
    let start : ℤ := p.ctx.contextRegionStart
    if markType type = agentTypePrimary then
      let r := agentWorkflowLeave t.kernel.agentGlobal p.wf
      ((((t.setGlobal r.1).setWf i r.2).agentMarkOwn i true).markDone i, start)
    else
      let t := t.setWf i { p.wf with isWorkflowLeader := false }
      if p.wf.outside then ((t.agentMarkOwn i false).markDone i, start)
      else if p.wf.workflowMemberRegistered = false then
        let r := agentWorkflowJoin t.kernel.agentGlobal (t.proc i).wf
        if r.2 = agentToolOk then
          (((t.setGlobal r.1).setWf i
            { (t.proc i).wf with workflowMemberRegistered := true }).markDone i, start)
        else ((t.setGlobal r.1).goto i .kernel, -1)
      else (t.markDone i, start)

/-- The process is the one member of record `r`. -/
def Alone (r : Fin agentWorkflowMax) : Prop :=
  (s.proc i).wf.workflowMemberRegistered = true ∧ (s.workflows r).used = true ∧
    (s.workflows r).key = (s.proc i).wf.key ∧ (s.workflows r).memberCount = 1

instance (r : Fin agentWorkflowMax) : Decidable (s.Alone i r) := inferInstanceAs (Decidable (_ ∧ _))

/-- The table has room for a workflow of the process: the record that names its pid is Active or
goes with it as it leaves, or there is none and a slot is free or becomes free as it leaves. -/
def OwnRoom : Prop :=
  (∃ r, (s.workflows r).used = true ∧ (s.workflows r).workflowId = (s.proc i).pid ∧
    ((s.workflows r).state = agentWorkflowActive ∨ s.Alone i r)) ∨
  ((∀ r, (s.workflows r).used = true → (s.workflows r).workflowId ≠ (s.proc i).pid) ∧
    ∃ r, (s.workflows r).used = false ∨ s.Alone i r)

instance : Decidable (s.OwnRoom i) := inferInstanceAs (Decidable (_ ∨ _))

/-- The table admits the process: where it is to own a workflow there is room for it, and
where it stays registered its record is Active. -/
def Admitted (type : ℤ) : Prop :=
  if markType type = agentTypePrimary ∨ (s.proc i).wf.outside then s.OwnRoom i
  else (s.proc i).wf.workflowMemberRegistered = true →
    ∃ r, (s.workflows r).used = true ∧ (s.workflows r).key = (s.proc i).wf.key ∧
      (s.workflows r).state = agentWorkflowActive

instance (type : ℤ) : Decidable (s.Admitted i type) := inferInstanceAs (Decidable (ite _ _ _))

/-- The process is registered with an Active workflow. -/
def Usable : Prop :=
  (s.proc i).wf.workflowMemberRegistered = true ∧
    ∃ r, (s.workflows r).used = true ∧ (s.workflows r).key = (s.proc i).wf.key ∧
      (s.workflows r).state = agentWorkflowActive

instance : Decidable (s.Usable i) := inferInstanceAs (Decidable (_ ∧ _))

end CascadeState

end AgentOS
