import AgentOS.Model.Proc

/-!
# Creating Agents: identity, roles and capabilities

The parts of `kernel/agent.c` that write the Agent fields of a process:
`agent_mark_current` (the body of `agent_create`), `agent_after_fork`,
`agent_after_exec`, `agent_proc_role_set` and `agent_proc_cap_set`. A function of the
source that runs through several lock sections is given section by section; the
workflow sections are in `AgentOS.Model.Workflow`, the wheel sections in
`AgentOS.Model.Wheel` and the bytes of the Context region in `AgentOS.Model.Context`.
-/

namespace AgentOS

/-- `agent_role_default_caps`. -/
def agentRoleDefaultCaps (role : ℤ) : BitVec 64 :=
  match role with
  | 0 => agentCapQueryProcess ||| agentCapQueryFile ||| agentCapSendMessage |||
      agentCapWorkflowCtrl ||| agentCapSchedConfig ||| agentCapAuditRead
  | 1 => agentCapQueryFile ||| agentCapReadFile ||| agentCapSendMessage
  | 2 => agentCapReadFile ||| agentCapPatchFile ||| agentCapLeaseAcquire ||| agentCapSendMessage
  | 3 => agentCapQueryFile ||| agentCapReadFile ||| agentCapSendMessage
  | 4 => agentCapReadFile ||| agentCapWatchFile ||| agentCapSendMessage ||| agentCapQueryFile
  | 5 => agentCapRegisterTool ||| agentCapSendMessage
  | _ => 0

/-- `agent_default_sched_priority`. -/
def agentDefaultSchedPriority (type : ℤ) : ℤ :=
  if type = agentTypePrimary then 5
  else if type = agentTypeWorker then 3
  else agentSchedPriorityMin

/-- `agent_default_sched_quota`. -/
def agentDefaultSchedQuota (type : ℤ) : ℤ :=
  if type = agentTypePrimary then 4
  else if type = agentTypeWorker then 2
  else 0

/-- The capabilities `agent_mark_current` gives. -/
def markCapabilities (type : ℤ) : BitVec 64 :=
  if type = agentTypePrimary then agentCapAll
  else agentCapQueryProcess ||| agentCapQueryFile ||| agentCapReadFile ||| agentCapSendMessage

/-! ### `agent_mark_current` -/

/-- `if(type <= AGENT_TYPE_NORMAL) type = AGENT_TYPE_PRIMARY`. -/
def markType (type : ℤ) : ℤ := if type ≤ agentTypeNormal then agentTypePrimary else type

theorem markType_ne (type : ℤ) : markType type ≠ agentTypeNormal := by
  unfold markType agentTypeNormal agentTypePrimary
  split <;> omega

/-- The new Context region, once `uvmalloc` has succeeded. -/
def markRegion (p : Proc) : Proc :=
  { p with
    sz := pgroundup p.sz + agentContextRegionSize + agentGuardPageSize
    ctx.contextRegionStart := pgroundup p.sz
    ctx.contextRegionSize := agentContextRegionSize }

/-- The identity `agent_mark_current` stores; `generation` is what `agent_next_identity`
returns if it is called. -/
def markIdent (p : Proc) (type : ℤ) (generation : ℕ) : Ident :=
  { p.ident with
    agentType := type
    agentRole := if type = agentTypePrimary then agentRolePlanner else agentRoleUnset
    agentRoleLocked := decide (type = agentTypePrimary)
    identityGeneration :=
      if p.ident.identityGeneration = 0 then generation else p.ident.identityGeneration
    agentGroup :=
      if type = agentTypePrimary then p.pid
      else if p.ident.agentGroup = 0 then p.pid
      else p.ident.agentGroup
    agentPriority :=
      if p.ident.agentPriority ≤ 0 then agentDefaultPriority else p.ident.agentPriority
    agentCapabilities := markCapabilities type }

/-- The Agent Loop fields it stores. -/
def markLoop (l : Loop) : Loop :=
  { l with
    loopState := agentLoopReady
    wakeupTick := 0
    watchMask := 0
    pendingEvents := 0
    lastWakeupReason := agentEventNone
    agentWatchDev := 0
    agentWatchInum := 0
    agentWatchPath := [] }

/-- The heartbeat fields it stores. -/
def markHeartbeat (h : Heartbeat) (heartbeatInterval : ℤ) (now : ℕ) : Heartbeat :=
  { h with
    heartbeatInterval := heartbeatInterval
    heartbeatDeadline := if 0 < heartbeatInterval then now + heartbeatInterval.toNat else 0 }

/-- The scheduling fields it stores. -/
def markSched (s : Sched) (type : ℤ) (now : ℕ) : Sched :=
  { s with
    agentSchedPriority := agentDefaultSchedPriority type
    agentSchedQuota := agentDefaultSchedQuota type
    agentSchedBudget := agentDefaultSchedQuota type
    agentSchedBoost := 0
    agentSchedVruntime := 0
    agentSchedLastRun := 0
    agentSchedBudgetPenalty := 0
    budgetReplenishDeadline :=
      if 0 < agentDefaultSchedQuota type then now + agentSchedBudgetReplenishInterval else 0 }

/-- The stores from `p->agent_type = type` to `p->agent_capabilities = …`; `now` and `now'`
are the two readings of the clock. -/
def markStores (p : Proc) (type heartbeatInterval : ℤ) (resourceQuota generation now now' : ℕ) :
    Proc :=
  { p with
    ident := markIdent p type generation
    hb := markHeartbeat p.hb heartbeatInterval now
    loop := markLoop p.loop
    sched := markSched p.sched type now'
    mailbox := AgentMailbox.empty
    ctx.resourceQuota := resourceQuota }

/-- The stores after the workflow is settled, before `agent_context_clear`. -/
def markContext (p : Proc) : Proc :=
  { p with
    ctx.contextGeneration := 1
    ctx.contextFirstSequence := 0
    ctx.contextNextSequence := 1
    ctx.contextDigests := fun _ => AgentContextDigest.zero
    ctx.contextDigestHead := 0
    ctx.contextDigestCount := 0
    loop.waitGeneration := 0
    loop.waitTimeoutTicks := 0
    loop.waitDeadline := 0
    ctx.lastContextQuery := 0
    ctx.contextReuseHit := 0 }

/-! ### `agent_after_fork` and `agent_after_exec` -/

/-- The identity of a forked process. -/
def forkIdent (dst src : Proc) (generation : ℕ) : Ident :=
  { dst.ident with
    agentType := src.ident.agentType
    agentRole := agentRoleUnset
    agentRoleLocked := false
    agentPriority := src.ident.agentPriority
    agentGroup := src.ident.agentGroup
    agentCapabilities := 0
    identityGeneration := generation
    agentParentPid := src.pid
    agentParentGeneration := src.ident.identityGeneration }

/-- Its workflow, before it joins. -/
def forkMembership (src : Proc) : Membership :=
  { src.wf with isWorkflowLeader := false, workflowMemberRegistered := false }

/-- Its scheduling fields. -/
def forkSched (src : Proc) : Sched :=
  { Sched.init with
    agentSchedPriority := src.sched.agentSchedPriority
    agentSchedQuota := src.sched.agentSchedQuota }

/-- Its Context: the region of the copied address space, empty. -/
def forkContext (src : Proc) : ContextState :=
  { ContextState.init with
    resourceQuota := src.ctx.resourceQuota
    contextRegionStart := src.ctx.contextRegionStart
    contextRegionSize := src.ctx.contextRegionSize
    contextGeneration := src.ctx.contextGeneration + 1 }

/-- `agent_after_fork` except for joining the workflow; `generation` is what
`agent_next_identity` returns. -/
def agentAfterFork (dst src : Proc) (generation : ℕ) : Proc :=
  { dst with
    ident := forkIdent dst src generation
    wf := forkMembership src
    loop := Loop.init
    hb := Heartbeat.init
    sched := forkSched src
    mailbox := AgentMailbox.empty
    ctx := forkContext src }

/-- `agent_after_exec`. -/
def agentAfterExec (p : Proc) : Proc :=
  { p with
    ctx.contextRegionStart := 0
    ctx.contextRegionSize := 0
    ctx.contextPathLen := 0
    ctx.contextNodeCount := 0
    ctx.contextDroppedNodes := 0
    ctx.contextGeneration := 0
    ctx.contextFirstSequence := 0
    ctx.contextNextSequence := 1
    ctx.contextOffsets := fun _ => 0
    ctx.contextLengths := fun _ => 0
    ctx.contextDeps := fun _ => AgentContextDep.zero
    ctx.contextDigests := fun _ => AgentContextDigest.zero
    ctx.contextDigestHead := 0
    ctx.contextDigestCount := 0
    ctx.pendingContextDep := false
    ctx.pendingContextDev := 0
    ctx.pendingContextInum := 0
    ctx.pendingContextVersion := 0
    ctx.lastContextQuery := 0
    ctx.contextReuseHit := 0 }

/-! ### Capabilities and roles -/

/-- `agent_proc_cap_set`. -/
def agentProcCapSet (p : Proc) (caps : BitVec 64) : Proc × ℤ :=
  if p.ident.agentType = agentTypeNormal then (p, agentToolErrNotAgent)
  else if caps &&& ~~~agentCapAll ≠ 0 then (p, agentToolErrBadParam)
  else if caps &&& ~~~p.ident.agentCapabilities ≠ 0 then (p, agentToolErrPermission)
  else ({ p with ident.agentCapabilities := caps }, 0)

/-- `agent_proc_role_set`. -/
def agentProcRoleSet (p : Proc) (role : ℤ) : Proc × ℤ :=
  if p.ident.agentType = agentTypeNormal then (p, agentToolErrNotAgent)
  else if role < agentRolePlanner ∨ agentRoleToolService < role then (p, agentToolErrBadParam)
  else if p.ident.agentRoleLocked then (p, agentToolErrPermission)
  else
    ({ p with
        ident.agentRole := role
        ident.agentCapabilities := agentRoleDefaultCaps role
        ident.agentRoleLocked := true }, agentToolOk)

/-! ### The process table -/

/-- `allocproc` on an `UNUSED` slot. -/
def allocprocAt (p : Proc) (pid : ℕ) : Proc :=
  agentInitProc { p with pid := pid, state := .used }

/-- `freeproc`. -/
def freeproc (p : Proc) : Proc :=
  { agentInitProc { p with
      sz := 0, pid := 0, parent := none, chan := none, killed := false, xstate := 0 } with
    state := .unused }

/-- `agent_next_identity`: a `uint64` counter that skips 0. -/
def agentNextIdentity (g : AgentGlobal) : AgentGlobal × ℕ :=
  let n := (g.nextIdentityGeneration + 1) % 2 ^ 64
  let n := if n = 0 then (n + 1) % 2 ^ 64 else n
  ({ g with nextIdentityGeneration := n }, n)

end AgentOS
