import AgentOS.Model.Param
import Mathlib.Logic.Function.Basic

/-!
# Processes and the kernel state

`struct proc` with the Agent fields of `kernel/proc.h`, grouped into records, the
global Agent state of `kernel/agent.h`, and `agent_init_proc`. Flags (`int` fields
that hold 0 or 1) are `Bool`; a `uint64` counter is the natural number it holds, and
where it can wrap its increments carry the `% 2^64`.
-/

namespace AgentOS

/-- `enum procstate`. -/
inductive ProcState
  | unused | used | sleeping | runnable | running | zombie
  deriving DecidableEq, Repr

/-- The sleep channels the model tells apart. -/
inductive Chan
  | proc (i : Slot)
  | ticks
  | request (slot : ℕ)
  | toolRecv
  | other (addr : ℕ)
  deriving DecidableEq, Repr

/-- The Agent identity of a process. -/
structure Ident where
  agentType : ℤ
  agentRole : ℤ
  agentRoleLocked : Bool
  agentPriority : ℤ
  agentGroup : ℤ
  agentCapabilities : BitVec 64
  identityGeneration : ℕ
  agentParentPid : ℕ
  agentParentGeneration : ℕ
  deriving DecidableEq, Repr

/-- The workflow a process belongs to. -/
structure Membership where
  workflowId : ℕ
  workflowLeaderPid : ℕ
  workflowLeaderGeneration : ℕ
  isWorkflowLeader : Bool
  workflowMemberRegistered : Bool
  deriving DecidableEq, Repr

/-- Agent Loop state: events, file watch, wait timeout. -/
structure Loop where
  loopState : ℤ
  wakeupTick : ℕ
  watchMask : BitVec 32
  pendingEvents : BitVec 32
  lastWakeupReason : BitVec 32
  agentWatchDev : ℕ
  agentWatchInum : ℕ
  agentWatchPath : List UInt8
  waitGeneration : ℕ
  waitTimeoutTicks : ℤ
  waitDeadline : ℕ
  deriving DecidableEq, Repr

/-- Heartbeat and its link in the timing wheel. -/
structure Heartbeat where
  heartbeatInterval : ℤ
  heartbeatDeadline : ℕ
  heartbeatWheelNext : ℕ
  heartbeatWheelBucket : ℤ
  heartbeatWheelActive : Bool
  deriving DecidableEq, Repr

/-- Scheduling parameters. -/
structure Sched where
  agentSchedPriority : ℤ
  agentSchedQuota : ℤ
  agentSchedBudget : ℤ
  agentSchedBoost : ℤ
  agentSchedVruntime : ℕ
  agentSchedLastRun : ℕ
  agentSchedBudgetPenalty : ℤ
  budgetReplenishDeadline : ℕ
  runnableSince : ℕ
  deriving DecidableEq, Repr

/-- `struct agent_message`. -/
structure AgentMessage where
  fromPid : ℕ
  type : ℤ
  length : ℕ
  sequence : ℕ
  requestId : UInt64
  payload : List UInt8
  deriving DecidableEq, Repr

/-- `struct agent_mailbox`; `head` and `tail` are indices of `queue`. -/
structure AgentMailbox where
  queue : Fin agentMailboxCap → AgentMessage
  head : Fin agentMailboxCap
  tail : Fin agentMailboxCap
  count : ℤ
  normalCount : ℤ
  systemCount : ℤ
  dropped : ℕ
  systemDropped : ℕ
  nextSequence : ℕ

/-- `struct agent_context_dep`. -/
structure AgentContextDep where
  used : Bool
  sequence : ℕ
  dev : ℕ
  inum : ℕ
  version : ℕ
  deriving DecidableEq, Repr

/-- `struct agent_context_digest`. -/
structure AgentContextDigest where
  sequence : UInt64
  requestId : UInt64
  requestHash : UInt64
  resultHash : UInt64
  previousHash : UInt64
  currentHash : UInt64
  status : ℤ
  deriving DecidableEq, Repr

/-- The Context Path of a process: its bookkeeping, not its bytes, which are user memory. -/
structure ContextState where
  resourceQuota : ℕ
  contextRegionStart : ℕ
  contextRegionSize : ℕ
  contextPathLen : ℕ
  contextNodeCount : ℕ
  contextDroppedNodes : ℕ
  contextOffsets : ℕ → ℕ
  contextLengths : ℕ → ℕ
  contextDeps : ℕ → AgentContextDep
  pendingContextDep : Bool
  pendingContextDev : ℕ
  pendingContextInum : ℕ
  pendingContextVersion : ℕ
  contextGeneration : ℕ
  contextFirstSequence : ℕ
  contextNextSequence : ℕ
  contextDigests : Fin agentContextDigestMax → AgentContextDigest
  contextDigestHead : ℕ
  contextDigestCount : ℕ
  lastContextQuery : UInt64
  contextReuseHit : ℕ

/-- `struct proc`. -/
structure Proc where
  state : ProcState
  chan : Option Chan
  killed : Bool
  xstate : ℤ
  pid : ℕ
  parent : Option Slot
  sz : ℕ
  ident : Ident
  wf : Membership
  loop : Loop
  hb : Heartbeat
  sched : Sched
  mailbox : AgentMailbox
  ctx : ContextState

/-! ### Zeroed values: what `memset(…, 0, …)` leaves -/

def AgentMessage.zero : AgentMessage := ⟨0, 0, 0, 0, 0, []⟩

def AgentContextDep.zero : AgentContextDep := ⟨false, 0, 0, 0, 0⟩

def AgentContextDigest.zero : AgentContextDigest := ⟨0, 0, 0, 0, 0, 0, 0⟩

/-- `memset(&p->mailbox, 0, sizeof(p->mailbox)); p->mailbox.next_sequence = 1`. -/
def AgentMailbox.empty : AgentMailbox where
  queue := fun _ => AgentMessage.zero
  head := 0
  tail := 0
  count := 0
  normalCount := 0
  systemCount := 0
  dropped := 0
  systemDropped := 0
  nextSequence := 1

/-- The identity `agent_init_proc` leaves. -/
def Ident.init : Ident where
  agentType := agentTypeNormal
  agentRole := agentRoleUnset
  agentRoleLocked := false
  agentPriority := agentDefaultPriority
  agentGroup := 0
  agentCapabilities := 0
  identityGeneration := 0
  agentParentPid := 0
  agentParentGeneration := 0

def Membership.init : Membership where
  workflowId := 0
  workflowLeaderPid := 0
  workflowLeaderGeneration := 0
  isWorkflowLeader := false
  workflowMemberRegistered := false

def Loop.init : Loop where
  loopState := agentLoopIdle
  wakeupTick := 0
  watchMask := 0
  pendingEvents := 0
  lastWakeupReason := agentEventNone
  agentWatchDev := 0
  agentWatchInum := 0
  agentWatchPath := []
  waitGeneration := 0
  waitTimeoutTicks := 0
  waitDeadline := 0

def Heartbeat.init : Heartbeat where
  heartbeatInterval := 0
  heartbeatDeadline := 0
  heartbeatWheelNext := 0
  heartbeatWheelBucket := -1
  heartbeatWheelActive := false

def Sched.init : Sched where
  agentSchedPriority := agentSchedPriorityMin
  agentSchedQuota := 0
  agentSchedBudget := 0
  agentSchedBoost := 0
  agentSchedVruntime := 0
  agentSchedLastRun := 0
  agentSchedBudgetPenalty := 0
  budgetReplenishDeadline := 0
  runnableSince := 0

def ContextState.init : ContextState where
  resourceQuota := agentContextRegionSize - sizeofContextHeader
  contextRegionStart := 0
  contextRegionSize := 0
  contextPathLen := 0
  contextNodeCount := 0
  contextDroppedNodes := 0
  contextOffsets := fun _ => 0
  contextLengths := fun _ => 0
  contextDeps := fun _ => AgentContextDep.zero
  pendingContextDep := false
  pendingContextDev := 0
  pendingContextInum := 0
  pendingContextVersion := 0
  contextGeneration := 1
  contextFirstSequence := 0
  contextNextSequence := 1
  contextDigests := fun _ => AgentContextDigest.zero
  contextDigestHead := 0
  contextDigestCount := 0
  lastContextQuery := 0
  contextReuseHit := 0

/-- `agent_init_proc`. -/
def agentInitProc (p : Proc) : Proc :=
  { p with
    ident := Ident.init
    wf := Membership.init
    loop := Loop.init
    hb := Heartbeat.init
    sched := Sched.init
    mailbox := AgentMailbox.empty
    ctx := ContextState.init }

/-- A slot of the zeroed `proc[]` table at boot. -/
def Proc.boot : Proc :=
  agentInitProc
    { state := .unused, chan := none, killed := false, xstate := 0, pid := 0, parent := none,
      sz := 0, ident := Ident.init, wf := Membership.init, loop := Loop.init,
      hb := Heartbeat.init, sched := Sched.init, mailbox := AgentMailbox.empty,
      ctx := ContextState.init }

/-! ### The global Agent state -/

/-- `struct agent_edit_lease`. -/
structure AgentEditLease where
  used : Bool
  dev : ℕ
  inum : ℕ
  ownerPid : ℕ
  ownerGeneration : ℕ
  leaseId : ℕ
  baseVersion : ℕ
  expiryTick : ℕ
  deriving DecidableEq, Repr

def AgentEditLease.zero : AgentEditLease := ⟨false, 0, 0, 0, 0, 0, 0, 0⟩

/-- `struct agent_workflow`, less its metrics. -/
structure AgentWorkflow where
  used : Bool
  workflowId : ℕ
  leaderPid : ℕ
  leaderGeneration : ℕ
  state : ℤ
  memberCount : ℤ
  terminateTick : ℕ
  deriving DecidableEq, Repr

def AgentWorkflow.zero : AgentWorkflow := ⟨false, 0, 0, 0, 0, 0, 0⟩

/-- `struct agent_global_state`. A wheel head is 0 or the index of a slot plus one. -/
structure AgentGlobal where
  leases : Fin agentLeaseMax → AgentEditLease
  nextLeaseId : ℕ
  nextIdentityGeneration : ℕ
  workflows : Fin agentWorkflowMax → AgentWorkflow
  heartbeatWheelHeads : Fin agentHeartbeatWheelBuckets → ℕ
  heartbeatCount : ℕ
  heartbeatMinDeadline : ℕ
  heartbeatTickScanned : ℕ
  heartbeatTickWakeups : ℕ

/-- `agent_global_init`. -/
def AgentGlobal.init : AgentGlobal where
  leases := fun _ => AgentEditLease.zero
  nextLeaseId := 0
  nextIdentityGeneration := 0
  workflows := fun _ => AgentWorkflow.zero
  heartbeatWheelHeads := fun _ => 0
  heartbeatCount := 0
  heartbeatMinDeadline := 0
  heartbeatTickScanned := 0
  heartbeatTickWakeups := 0

/-- The kernel state: `proc[]`, `ticks`, `nextpid` and `agent_global`. -/
structure Kernel where
  procs : Slot → Proc
  ticks : ℕ
  nextpid : ℕ
  agentGlobal : AgentGlobal

/-- The state at boot. -/
def Kernel.boot : Kernel where
  procs := fun _ => Proc.boot
  ticks := 0
  nextpid := 1
  agentGlobal := AgentGlobal.init

namespace Kernel

/-- Store the record of slot `i`. -/
def setProc (k : Kernel) (i : Slot) (p : Proc) : Kernel :=
  { k with procs := Function.update k.procs i p }

variable (k : Kernel) (i j : Slot) (p : Proc)

@[simp] theorem setProc_self : (k.setProc i p).procs i = p := by simp [setProc]

theorem setProc_ne (h : j ≠ i) : (k.setProc i p).procs j = k.procs j := by simp [setProc, h]

theorem setProc_procs :
    (k.setProc i p).procs j = if j = i then p else k.procs j := by
  simp [setProc, Function.update_apply]

@[simp] theorem setProc_ticks : (k.setProc i p).ticks = k.ticks := rfl

@[simp] theorem setProc_nextpid : (k.setProc i p).nextpid = k.nextpid := rfl

@[simp] theorem setProc_agentGlobal : (k.setProc i p).agentGlobal = k.agentGlobal := rfl

end Kernel

end AgentOS
