import AgentOS.Model.Context
import AgentOS.Model.Mark
import AgentOS.Model.Wheel

/-!
# `agent_create`, the whole call

`agent_mark_current` of `kernel/agent.c`, run alone: it takes the process off the wheel,
allocates the Context region, stores the fields, settles the workflow (all of this is
`CascadeState.agentMarkCurrent`), clears the Context, and puts the process on the wheel.
-/

namespace AgentOS

/-- The arguments of `agent_create`, whether `uvmalloc` succeeds, and the readings of the clock. -/
structure CreateArgs where
  type : ℤ
  heartbeatInterval : ℤ
  resourceQuota : ℕ
  uvmalloc : Bool
  now : ℕ
  now' : ℕ
  now'' : ℕ

/-- The user memory, with the region and its guard page if the call allocates them. -/
def markMemory (p : Proc) (m : Memory) (uvmalloc : Bool) : Memory :=
  if p.ctx.contextRegionStart = 0 ∧ uvmalloc = true then
    (m.uvmalloc p.sz (markRegion p).sz).uvmclear
      ((markRegion p).ctx.contextRegionStart + agentContextRegionSize)
  else m

/-- `agent_create`: the state and the user memory of the caller that it leaves, and its result;
`none` if a walk through the wheel never ends. -/
def agentCreate (s : CascadeState) (m : Memory) (i : Slot) (a : CreateArgs) :
    Option (CascadeState × Memory × ℤ) :=
  (agentHeartbeatWheelRemoveLocked s.kernel i).bind fun k =>
    let r := ({ s with kernel := k } : CascadeState).agentMarkCurrent i a.type a.heartbeatInterval
      a.resourceQuota a.uvmalloc a.now a.now'
    let m := markMemory (s.proc i) m a.uvmalloc
    if r.2 = -1 then some (r.1, m, -1)
    else
      let w := (r.1.proc i).ctx.agentContextClear m a.now''
      let t := r.1.setProc i { r.1.proc i with ctx := w.1 }
      if 0 < (t.proc i).hb.heartbeatInterval then
        (agentHeartbeatWheelInsertLocked t.kernel i).map fun k => ({ t with kernel := k }, w.2, r.2)
      else some (t, w.2, r.2)

/-! ### What a failed call is to leave alone -/

/-- The Agent of slot `i` and the workflow table are the same in both states: type, role,
capabilities, mailbox, heartbeat and the lists of the wheel, scheduling, workflow, Context and the
address space that ends with its region. -/
structure SameAgent (s t : CascadeState) (i : Slot) : Prop where
  type : (t.proc i).ident.agentType = (s.proc i).ident.agentType
  role : (t.proc i).ident.agentRole = (s.proc i).ident.agentRole
  locked : (t.proc i).ident.agentRoleLocked = (s.proc i).ident.agentRoleLocked
  caps : (t.proc i).ident.agentCapabilities = (s.proc i).ident.agentCapabilities
  mailbox : (t.proc i).mailbox = (s.proc i).mailbox
  hb : (t.proc i).hb = (s.proc i).hb
  heads : t.kernel.agentGlobal.heartbeatWheelHeads = s.kernel.agentGlobal.heartbeatWheelHeads
  links : ∀ j, (t.proc j).hb.heartbeatWheelNext = (s.proc j).hb.heartbeatWheelNext
  sched : (t.proc i).sched = (s.proc i).sched
  wf : (t.proc i).wf = (s.proc i).wf
  ctx : (t.proc i).ctx = (s.proc i).ctx
  sz : (t.proc i).sz = (s.proc i).sz
  workflows : t.workflows = s.workflows

/-! ### Where the call fails, in terms of the state before it -/

/-- No memory for the region. -/
def RegionFails (p : Proc) (a : CreateArgs) : Prop :=
  p.ctx.contextRegionStart = 0 ∧ a.uvmalloc = false

/-- The process has to join the workflow it names, and the record of that workflow is missing,
TERMINATING or full. -/
def JoinRefused (f : Fin agentWorkflowMax → AgentWorkflow) (m : Membership) (type : ℤ) : Prop :=
  markType type ≠ agentTypePrimary ∧ ¬ m.outside ∧ m.workflowMemberRegistered = false ∧
    ∀ r, Table.first f (fun w => w.used && w.key == m.key) = some r →
      (f r).state = agentWorkflowTerminating ∨ agentWorkflowMemberMax ≤ (f r).memberCount

/-- The list that is to hold the process runs in a circle that does not: after no number of
links comes its end or the process. -/
def Circular (k : Kernel) (i : Slot) : Prop :=
  (k.procs i).hb.heartbeatWheelActive = true ∧
    ∃ bucket : Fin agentHeartbeatWheelBuckets, (k.procs i).hb.heartbeatWheelBucket = bucket ∧
      ∀ n, k.wheelNext^[n] (k.agentGlobal.heartbeatWheelHeads bucket) ≠ 0 ∧
        k.wheelNext^[n] (k.agentGlobal.heartbeatWheelHeads bucket) ≠ agentProcWheelIndex i

/-- The process has what the call stores before it comes to the workflow. -/
structure Stored (p : Proc) (a : CreateArgs) : Prop where
  region : p.ctx.contextRegionStart ≠ 0
  quota : p.ctx.resourceQuota = a.resourceQuota
  type : p.ident.agentType = markType a.type
  role : p.ident.agentRole = agentRoleUnset
  locked : p.ident.agentRoleLocked = false
  caps : p.ident.agentCapabilities = markCapabilities (markType a.type)
  interval : p.hb.heartbeatInterval = a.heartbeatInterval
  deadline : p.hb.heartbeatDeadline =
    if 0 < a.heartbeatInterval then a.now + a.heartbeatInterval.toNat else 0
  sched : p.sched =
    { agentSchedPriority := agentDefaultSchedPriority (markType a.type)
      agentSchedQuota := agentDefaultSchedQuota (markType a.type)
      agentSchedBudget := agentDefaultSchedQuota (markType a.type)
      agentSchedBoost := 0
      agentSchedVruntime := 0
      agentSchedLastRun := 0
      agentSchedBudgetPenalty := 0
      budgetReplenishDeadline := if 0 < agentDefaultSchedQuota (markType a.type) then
        a.now' + agentSchedBudgetReplenishInterval else 0
      runnableSince := p.sched.runnableSince }
  mailbox : p.mailbox = AgentMailbox.empty
  leader : p.wf.isWorkflowLeader = false

end AgentOS
