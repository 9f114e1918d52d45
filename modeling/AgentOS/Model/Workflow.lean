import AgentOS.Lib.Table
import AgentOS.Lib.Transition
import AgentOS.Model.Authority

/-!
# Workflows and cascade termination

The workflow table of `kernel/agent.c`, `agent_cascade_terminate`, and the machine of
processes that create themselves as Agents, fork, terminate their workflow and exit. A
step is one section under `agent_global.lock` or one `p->lock`, or one private store
between two sections. `lock j` is the process whose `fork` holds the lock of the slot it
allocated, from `allocproc` to the end of `agent_after_fork`; every other holder of a
`p->lock` takes and releases it within one step.
-/

namespace AgentOS

/-- What identifies a workflow: `(workflow_id, workflow_leader_generation)`. -/
abbrev WorkflowKey := ℕ × ℕ

def Membership.key (m : Membership) : WorkflowKey := (m.workflowId, m.workflowLeaderGeneration)

def AgentWorkflow.key (w : AgentWorkflow) : WorkflowKey := (w.workflowId, w.leaderGeneration)

/-- `p->workflow_id == 0 || p->workflow_leader_generation == 0`. -/
def Membership.outside (m : Membership) : Prop :=
  m.workflowId = 0 ∨ m.workflowLeaderGeneration = 0

instance (m : Membership) : Decidable m.outside := inferInstanceAs (Decidable (_ ∨ _))

namespace AgentGlobal

/-- Store a record of the workflow table. -/
def setWorkflow (g : AgentGlobal) (i : Fin agentWorkflowMax) (w : AgentWorkflow) : AgentGlobal :=
  { g with workflows := Function.update g.workflows i w }

@[simp] theorem setWorkflow_workflows (g : AgentGlobal) (i : Fin agentWorkflowMax)
    (w : AgentWorkflow) : (g.setWorkflow i w).workflows = Function.update g.workflows i w := rfl

end AgentGlobal

/-! ### The sections under `agent_global.lock` -/

/-- `agent_workflow_find_locked`. -/
def agentWorkflowFind (g : AgentGlobal) (key : WorkflowKey) : Option (Fin agentWorkflowMax) :=
  Table.first g.workflows fun w => w.used && w.key == key

/-- `agent_workflow_create_locked`. -/
def agentWorkflowCreate (g : AgentGlobal) (m : Membership) : AgentGlobal × ℤ :=
  match agentWorkflowFind g m.key with
  | some i =>
    let w := g.workflows i
    if w.state = agentWorkflowTerminating then (g, agentToolErrBusy)
    else
      (g.setWorkflow i
        { w with leaderPid := m.workflowLeaderPid, memberCount := w.memberCount + 1 }, agentToolOk)
  | none =>
    match Table.first g.workflows fun w => !w.used with
    | none => (g, agentToolErrNoSpace)
    | some i =>
      (g.setWorkflow i
        { used := true, workflowId := m.workflowId, leaderPid := m.workflowLeaderPid,
          leaderGeneration := m.workflowLeaderGeneration, state := agentWorkflowActive,
          memberCount := 1, terminateTick := 0 }, agentToolOk)

/-- `agent_workflow_join_locked`. -/
def agentWorkflowJoin (g : AgentGlobal) (m : Membership) : AgentGlobal × ℤ :=
  if m.outside then (g, agentToolOk)
  else
    match agentWorkflowFind g m.key with
    | none => (g, agentToolErrServiceGone)
    | some i =>
      let w := g.workflows i
      if w.state = agentWorkflowTerminating then (g, agentToolErrBusy)
      else if agentWorkflowMemberMax ≤ w.memberCount then (g, agentToolErrNoSpace)
      else (g.setWorkflow i { w with memberCount := w.memberCount + 1 }, agentToolOk)

/-- `agent_workflow_begin_terminate_locked`. -/
def agentWorkflowBeginTerminate (g : AgentGlobal) (key : WorkflowKey) (now : ℕ) :
    AgentGlobal × ℤ :=
  match agentWorkflowFind g key with
  | none => (g, agentToolErrServiceGone)
  | some i =>
    let w := g.workflows i
    if w.state = agentWorkflowTerminating then (g, agentToolOk)
    else if w.state ≠ agentWorkflowActive then (g, agentToolErrServiceGone)
    else
      (g.setWorkflow i { w with state := agentWorkflowTerminating, terminateTick := now },
        agentToolOk)

/-- `agent_workflow_leave`: the section, then `p->workflow_member_registered = 0`. -/
def agentWorkflowLeave (g : AgentGlobal) (m : Membership) : AgentGlobal × Membership :=
  if m.workflowMemberRegistered = false ∨ m.outside then (g, m)
  else
    let m' := { m with workflowMemberRegistered := false }
    match agentWorkflowFind g m.key with
    | none => (g, m')
    | some i =>
      let w := g.workflows i
      let n := if 0 < w.memberCount then w.memberCount - 1 else w.memberCount
      if n ≤ 0 then (g.setWorkflow i AgentWorkflow.zero, m')
      else (g.setWorkflow i { w with memberCount := n }, m')

/-! ### `agent_cascade_terminate` -/

/-- The checks on the caller. -/
def agentCascadeCheck (leader : Proc) : ℤ :=
  if leader.ident.agentType = agentTypeNormal then agentToolErrNotAgent
  else if leader.wf.isWorkflowLeader = false ∧
      leader.ident.agentCapabilities &&& agentCapWorkflowCtrl = 0 then agentToolErrPermission
  else if leader.wf.outside then agentToolErrBadParam
  else agentToolOk

/-- Is this slot a target of the sweep? `self` is `p == leader`. -/
def cascadeTarget (p : Proc) (key : WorkflowKey) (self includeLeader : Bool) : Prop :=
  p.state ≠ .unused ∧ p.ident.agentType ≠ agentTypeNormal ∧ p.wf.key = key ∧
    (includeLeader = true ∨ self = false)

instance (p : Proc) (key : WorkflowKey) (self includeLeader : Bool) :
    Decidable (cascadeTarget p key self includeLeader) := inferInstanceAs (Decidable (_ ∧ _))

/-- What the sweep stores in a target. -/
def cascadeKill (p : Proc) (now : ℕ) : Proc :=
  { p with
    killed := true
    state := if p.state = .sleeping then .runnable else p.state
    hb.heartbeatInterval := 0
    hb.heartbeatDeadline := 0
    loop.loopState := agentLoopDone
    loop.watchMask := 0
    loop.pendingEvents := p.loop.pendingEvents ||| agentEventParentGone
    loop.lastWakeupReason := agentEventParentGone
    loop.wakeupTick := now
    loop.waitDeadline := 0
    loop.agentWatchDev := 0
    loop.agentWatchInum := 0
    loop.agentWatchPath := [] }

/-! ### The machine -/

/-- Where the thread of a slot is. -/
inductive Call
  /-- The slot has no thread: it is unused, under construction or a zombie. -/
  | idle
  | user
  /-- In a system call, between the sections below. -/
  | kernel
  | markLeave (type : ℤ)
  | markId (type : ℤ)
  | markOwn (type : ℤ)
  | markCreate
  | markJoin
  | forkCopy (child : Slot)
  | forkJoin (child : Slot)
  | forkRelease (child : Slot)
  | forkRun (child : Slot)
  | cascade (now : ℕ) (exiting : Bool)
  | sweep (key : WorkflowKey) (index now : ℕ) (exiting : Bool)
  | exitLeave
  | exitZombie
  deriving DecidableEq, Repr

/-- Kernel, threads and the locks that forks hold. -/
structure CascadeState where
  kernel : Kernel
  calls : Slot → Call
  lock : Slot → Option Slot

inductive CascadeLabel
  | tick
  | other (i : Slot) (p : Proc)
  | trap (i : Slot)
  | sysret (i : Slot)
  | mark (i : Slot) (type heartbeatInterval : ℤ) (resourceQuota : ℕ) (uvmalloc : Bool)
      (now now' : ℕ)
  | leave (i : Slot)
  | storeId (i : Slot)
  | storeOwn (i : Slot)
  | create (i : Slot)
  | join (i : Slot)
  | fork (i j : Slot)
  | forkFail (i : Slot)
  | forkStore (i : Slot)
  | forkJoin (i : Slot)
  | forkRelease (i : Slot)
  | forkRun (i : Slot)
  | terminate (i : Slot)
  | begin (i : Slot)
  | sweep (i : Slot)
  | swept (i : Slot)
  | exit (i : Slot)
  | zombie (i : Slot)
  | reap (j : Slot)

/-- What the rest of the kernel keeps of a process: its pid, its workflow, that it is an Agent,
its identity generation, a kill, and whether it is allocated or dead. -/
structure Proc.Keeps (p q : Proc) : Prop where
  pid : q.pid = p.pid
  wf : q.wf = p.wf
  type : q.ident.agentType = p.ident.agentType
  generation : q.ident.identityGeneration = p.ident.identityGeneration
  killed : p.killed = true → q.killed = true
  unused : q.state = .unused ↔ p.state = .unused
  zombie : q.state = .zombie ↔ p.state = .zombie

instance (p q : Proc) : Decidable (p.Keeps q) :=
  decidable_of_iff
    (q.pid = p.pid ∧ q.wf = p.wf ∧ q.ident.agentType = p.ident.agentType ∧
      q.ident.identityGeneration = p.ident.identityGeneration ∧
      (p.killed = true → q.killed = true) ∧ (q.state = .unused ↔ p.state = .unused) ∧
      (q.state = .zombie ↔ p.state = .zombie))
    ⟨fun ⟨a, b, c, d, e, f, g⟩ => ⟨a, b, c, d, e, f, g⟩,
      fun ⟨a, b, c, d, e, f, g⟩ => ⟨a, b, c, d, e, f, g⟩⟩

namespace CascadeState

variable (s : CascadeState) (i j : Slot)

def proc : Proc := s.kernel.procs i

def workflows : Fin agentWorkflowMax → AgentWorkflow := s.kernel.agentGlobal.workflows

def goto (c : Call) : CascadeState := { s with calls := Function.update s.calls i c }

def setProc (p : Proc) : CascadeState := { s with kernel := s.kernel.setProc i p }

def setGlobal (g : AgentGlobal) : CascadeState :=
  { s with kernel := { s.kernel with agentGlobal := g } }

def setLock (h : Option Slot) : CascadeState := { s with lock := Function.update s.lock j h }

/-- Store the membership of process `i`. -/
def setWf (m : Membership) : CascadeState := s.setProc i { s.proc i with wf := m }

/-- The rest of `agent_mark_current`. -/
def markDone : CascadeState := (s.setProc i (markContext (s.proc i))).goto i .kernel

section

variable (c : Call) (p : Proc) (g : AgentGlobal) (h : Option Slot)

@[simp] theorem goto_calls : (s.goto i c).calls = Function.update s.calls i c := rfl

@[simp] theorem goto_proc : (s.goto i c).proc j = s.proc j := rfl

@[simp] theorem goto_kernel : (s.goto i c).kernel = s.kernel := rfl

@[simp] theorem goto_workflows : (s.goto i c).workflows = s.workflows := rfl

@[simp] theorem goto_lock : (s.goto i c).lock = s.lock := rfl

@[simp] theorem setProc_calls : (s.setProc i p).calls = s.calls := rfl

@[simp] theorem setProc_lock : (s.setProc i p).lock = s.lock := rfl

@[simp] theorem setProc_nextpid : (s.setProc i p).kernel.nextpid = s.kernel.nextpid := rfl

@[simp] theorem setProc_agentGlobal : (s.setProc i p).kernel.agentGlobal = s.kernel.agentGlobal :=
  rfl

@[simp] theorem setProc_workflows : (s.setProc i p).workflows = s.workflows := rfl

@[simp] theorem setProc_self : (s.setProc i p).proc i = p := by simp [proc, setProc]

theorem setProc_ne (h : j ≠ i) : (s.setProc i p).proc j = s.proc j := by
  simp [proc, setProc, Kernel.setProc_procs, h]

@[simp] theorem setGlobal_calls : (s.setGlobal g).calls = s.calls := rfl

@[simp] theorem setGlobal_lock : (s.setGlobal g).lock = s.lock := rfl

@[simp] theorem setGlobal_proc : (s.setGlobal g).proc j = s.proc j := rfl

@[simp] theorem setGlobal_nextpid : (s.setGlobal g).kernel.nextpid = s.kernel.nextpid := rfl

@[simp] theorem setGlobal_workflows : (s.setGlobal g).workflows = g.workflows := rfl

@[simp] theorem setGlobal_agentGlobal : (s.setGlobal g).kernel.agentGlobal = g := rfl

@[simp] theorem setLock_calls : (s.setLock i h).calls = s.calls := rfl

@[simp] theorem setLock_kernel : (s.setLock i h).kernel = s.kernel := rfl

@[simp] theorem setLock_proc : (s.setLock i h).proc j = s.proc j := rfl

@[simp] theorem setLock_lock : (s.setLock i h).lock = Function.update s.lock i h := rfl

end

/-- One section. -/
def next : CascadeLabel → Option CascadeState
  | .tick => some { s with kernel := { s.kernel with ticks := s.kernel.ticks + 1 } }
  | .other i p => if s.lock i = none ∧ (s.proc i).Keeps p then some (s.setProc i p) else none
  -- `usertrap`: a killed process does not start a system call
  | .trap i =>
    if s.calls i = .user ∧ (s.proc i).killed = false then some (s.goto i .kernel) else none
  | .sysret i => if s.calls i = .kernel then some (s.goto i .user) else none
  -- `agent_mark_current` up to the workflow
  | .mark i type hb quota uvmalloc now now' =>
    if s.calls i = .kernel then
      match s.kernel.markCurrent i type hb quota uvmalloc now now' with
      | none => some s
      | some k => some ({ s with kernel := k }.goto i (.markLeave (markType type)))
    else none
  -- `if(type == AGENT_TYPE_PRIMARY && p->workflow_member_registered) agent_workflow_leave(p)`,
  -- and on to the branches
  | .leave i =>
    match s.calls i with
    | .markLeave type =>
      if type = agentTypePrimary then
        let r := agentWorkflowLeave s.kernel.agentGlobal (s.proc i).wf
        some (((s.setGlobal r.1).setWf i r.2).goto i (.markId type))
      else
        let t := s.setWf i { (s.proc i).wf with isWorkflowLeader := false }
        if (s.proc i).wf.outside then some (t.goto i (.markId type))
        else if (s.proc i).wf.workflowMemberRegistered = false then some (t.goto i .markJoin)
        else some (t.markDone i)
    -- `agent_proc_exit`
    | .exitLeave =>
      let r := agentWorkflowLeave s.kernel.agentGlobal (s.proc i).wf
      some (((s.setGlobal r.1).setWf i r.2).goto i .exitZombie)
    | _ => none
  | .storeId i =>
    match s.calls i with
    | .markId type =>
      some ((s.setWf i { (s.proc i).wf with workflowId := (s.proc i).pid }).goto i (.markOwn type))
    | _ => none
  | .storeOwn i =>
    match s.calls i with
    | .markOwn type =>
      let p := s.proc i
      let p' := { p with
        ident.agentParentPid := 0
        ident.agentParentGeneration := 0
        wf.workflowLeaderPid := p.pid
        wf.workflowLeaderGeneration := p.ident.identityGeneration
        wf.isWorkflowLeader := p.wf.isWorkflowLeader || type == agentTypePrimary }
      some ((s.setProc i p').goto i .markCreate)
    | _ => none
  | .create i =>
    if s.calls i = .markCreate then
      if (s.proc i).wf.workflowMemberRegistered then some (s.markDone i)
      else
        let r := agentWorkflowCreate s.kernel.agentGlobal (s.proc i).wf
        let m := { (s.proc i).wf with workflowMemberRegistered := r.2 == agentToolOk }
        some (((s.setGlobal r.1).setWf i m).markDone i)
    else none
  | .join i =>
    if s.calls i = .markJoin then
      let r := agentWorkflowJoin s.kernel.agentGlobal (s.proc i).wf
      if r.2 = agentToolOk then
        let m := { (s.proc i).wf with workflowMemberRegistered := true }
        some (((s.setGlobal r.1).setWf i m).markDone i)
      else some ((s.setGlobal r.1).goto i .kernel)
    else none
  -- `allocproc`, which returns with the lock of slot `j` held
  | .fork i j =>
    if s.calls i = .kernel ∧ s.lock j = none ∧ (s.proc j).state = .unused then
      let t := s.setProc j (allocprocAt (s.proc j) s.kernel.nextpid)
      let t := { t with kernel := { t.kernel with nextpid := t.kernel.nextpid + 1 } }
      some ((t.setLock j (some i)).goto i (.forkCopy j))
    else none
  | .forkFail i =>
    match s.calls i with
    | .forkCopy j => some (((s.setProc j (freeproc (s.proc j))).setLock j none).goto i .kernel)
    | _ => none
  -- `uvmcopy`, then `agent_after_fork` up to the workflow
  | .forkStore i =>
    match s.calls i with
    | .forkCopy j =>
      let r := agentNextIdentity s.kernel.agentGlobal
      let np := agentAfterFork { s.proc j with sz := (s.proc i).sz } (s.proc i) r.2
      some (((s.setGlobal r.1).setProc j np).goto i (.forkJoin j))
    | _ => none
  | .forkJoin i =>
    match s.calls i with
    | .forkJoin j =>
      let np := s.proc j
      if np.wf.outside then some (s.goto i (.forkRelease j))
      else
        let r := agentWorkflowJoin s.kernel.agentGlobal np.wf
        let np' := if r.2 = agentToolOk then { np with wf.workflowMemberRegistered := true }
          else { np with killed := true }
        some (((s.setGlobal r.1).setProc j np').goto i (.forkRelease j))
    | _ => none
  | .forkRelease i =>
    match s.calls i with
    | .forkRelease j => some ((s.setLock j none).goto i (.forkRun j))
    | _ => none
  | .forkRun i =>
    match s.calls i with
    | .forkRun j =>
      let np := { s.proc j with state := .runnable, parent := some i }
      some (((s.setProc j np).goto i .kernel).goto j .user)
    | _ => none
  -- `sys_agent_cascade_kill`: the clock, then the checks
  | .terminate i =>
    if s.calls i = .kernel then
      if agentCascadeCheck (s.proc i) = agentToolOk then
        some (s.goto i (.cascade s.kernel.ticks false))
      else some s
    else none
  | .begin i =>
    match s.calls i with
    | .cascade now exiting =>
      let key := (s.proc i).wf.key
      let r := agentWorkflowBeginTerminate s.kernel.agentGlobal key s.kernel.ticks
      if r.2 ≠ agentToolOk ∧ r.2 ≠ agentToolErrServiceGone then
        some ((s.setGlobal r.1).goto i (if exiting then .exitLeave else .kernel))
      else some ((s.setGlobal r.1).goto i (.sweep key 0 now exiting))
    | _ => none
  | .sweep i =>
    match s.calls i with
    | .sweep key n now exiting =>
      if h : n < nproc then
        let j : Slot := ⟨n, h⟩
        let t := s.goto i (.sweep key (n + 1) now exiting)
        if s.lock j = none then
          if cascadeTarget (s.proc j) key (j == i) false then
            some (t.setProc j (cascadeKill (s.proc j) now))
          else some t
        else none
      else none
    | _ => none
  -- the sweep is over: `agent_cascade_terminate` returns
  | .swept i =>
    match s.calls i with
    | .sweep _ n _ exiting =>
      if n = nproc then some (s.goto i (if exiting then .exitLeave else .kernel)) else none
    | _ => none
  -- `exit`, from a system call or from `usertrap` when killed
  | .exit i =>
    if s.calls i = .kernel ∨ s.calls i = .user ∧ (s.proc i).killed = true then
      if (s.proc i).wf.isWorkflowLeader ∧ agentCascadeCheck (s.proc i) = agentToolOk then
        some (s.goto i (.cascade s.kernel.ticks true))
      else some (s.goto i .exitLeave)
    else none
  | .zombie i =>
    if s.calls i = .exitZombie ∧ s.lock i = none then
      some ((s.setProc i { s.proc i with state := .zombie }).goto i .idle)
    else none
  -- `freeproc` by `wait` of the parent
  | .reap j =>
    if (s.proc j).state = .zombie ∧ s.lock j = none then
      some (s.setProc j (freeproc (s.proc j)))
    else none

/-- At boot the workflow table is empty and `init` runs alone. -/
def init : Prop :=
  s.kernel.agentGlobal = AgentGlobal.init ∧ s.kernel.nextpid = 2 ∧ (∀ j, s.lock j = none) ∧
    ∃ i, (s.proc i).pid = 1 ∧ (s.proc i).live ∧ (s.proc i).ident = Ident.init ∧
      (s.proc i).wf = Membership.init ∧ s.calls i = .user ∧
      ∀ j, j ≠ i → s.proc j = Proc.boot ∧ s.calls j = .idle

end CascadeState

/-- **The machine of workflows.** -/
def cascadeMachine : Machine CascadeState CascadeLabel := ⟨CascadeState.init, CascadeState.next⟩

end AgentOS
