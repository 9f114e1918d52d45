import AgentOS.Model.Workflow

/-!
# Members of a workflow, store by store

`agent_workflow_leave` takes the process out of the table under `agent_global.lock` and clears
`p->workflow_member_registered` after it has released the lock. In `cascadeMachine` the two are
one step; here the store is a step of its own. Until it is made the thread does nothing
else, and the flag is still set.
-/

namespace AgentOS

/-- The thread that runs a step; `none` for what other processes or the clock do. -/
def CascadeLabel.thread : CascadeLabel → Option Slot
  | .tick | .other _ _ | .reap _ => none
  | .trap i | .sysret i | .mark i _ _ _ _ _ _ | .leave i | .storeId i | .storeOwn i | .create i
  | .join i | .fork i _ | .forkFail i | .forkStore i | .forkJoin i | .forkRelease i | .forkRun i
  | .terminate i | .begin i | .sweep i | .swept i | .exit i | .zombie i => some i

/-- The machine of workflows, and which threads are between the section of
`agent_workflow_leave` and the store behind it. -/
structure MemberState where
  cascade : CascadeState
  leaving : Slot → Bool

inductive MemberLabel
  | step (l : CascadeLabel)
  /-- `p->workflow_member_registered = 0` of `agent_workflow_leave`. -/
  | clear (i : Slot)

namespace MemberState

variable (s : MemberState) (j : Slot) (k : WorkflowKey)

/-- `p->workflow_member_registered`. -/
def registered : Bool := (s.cascade.proc j).wf.workflowMemberRegistered || s.leaving j

/-- Which threads are behind the section of `agent_workflow_leave` after a step. -/
def leavingNext (t : CascadeState) : CascadeLabel → Slot → Bool
  | .leave i => Function.update s.leaving i (s.registered i &&
      !(t.proc i).wf.workflowMemberRegistered)
  | _ => s.leaving

/-- One step: what `CascadeState.next` does, or the store behind a leave. -/
def next : MemberLabel → Option MemberState
  | .step l =>
    if l.thread.any s.leaving then none
    else (s.cascade.next l).map fun t => ⟨t, s.leavingNext t l⟩
  | .clear i =>
    if s.leaving i then some { s with leaving := Function.update s.leaving i false } else none

def init : Prop := s.cascade.init ∧ ∀ i, s.leaving i = false

/-- The process is registered with the workflow, and not past the section of
`agent_workflow_leave`. -/
def Member : Prop :=
  s.registered j = true ∧ s.leaving j = false ∧ (s.cascade.proc j).wf.key = k

instance : Decidable (s.Member j k) := inferInstanceAs (Decidable (_ ∧ _))

end MemberState

/-- **The machine of workflow members.** -/
def memberMachine : Machine MemberState MemberLabel := ⟨MemberState.init, MemberState.next⟩

end AgentOS
