import AgentOS.Model.Access
import AgentOS.Model.Context
import AgentOS.Model.Wait

/-!
# The calls of an Agent around its loop

The machine of waiting Agents with the other calls that touch `loop_state`, or that a process can
make beside them: `agent_tool_call` from its permission check to its end, the Context calls, the
scheduling, role and capability calls. While a process is in `agent_tool_call` it makes no other
system call; what handlers do to other processes (a message, a file notification) are sections of
the loop machine. The user memory that a Context call finds is part of its label.

`rest` is any other section of the kernel on a process outside `agent_proc_wait`: it leaves the
loop record alone. `reborn` is `agent_create`, or a slot that gets another process.
-/

namespace AgentOS

/-- The process that makes a system call with this section. -/
def LoopLabel.caller : LoopLabel → Option Slot
  | .cascade i | .kill i _ | .heartbeatSet i _ | .heartbeatStop i | .watch i _ | .unwatch i _
  | .watchFile i .. | .finish i | .wait i _ => some i
  | _ => none

/-- A section that the loop machine leaves open. -/
def LoopLabel.isOther : LoopLabel → Bool
  | .other .. => true
  | _ => false

/-- `agent_tool_call` returns before it stores `AGENT_LOOP_RUNNING`. -/
def ToolRefused (r : Runtime) (p : Proc) (tool : List UInt8) : Prop :=
  p.ident.agentType = agentTypeNormal ∨ toolPermitted r p tool = false

instance (r : Runtime) (p : Proc) (tool : List UInt8) : Decidable (ToolRefused r p tool) :=
  inferInstanceAs (Decidable (_ ∨ _))

/-- `agent_tool_call` up to the handler. -/
def agentToolCallBegin (r : Runtime) (p : Proc) (tool : List UInt8) : Proc :=
  if p.ident.agentType = agentTypeNormal then p
  else
    let p := { p with ctx := p.ctx.dropPending }
    if toolPermitted r p tool = false then p
    else { p with loop.loopState := agentLoopRunning }

/-- `agent_context_rollback` returns before it stores `AGENT_LOOP_ROLLED_BACK`. -/
def RollbackRefused (c : ContextState) (m : Memory) (keepNodes now : ℕ) : Prop :=
  c.contextNodeCount < keepNodes ∨ keepNodes = 0 ∨ (c.writeBegin m now).2.2 = false

instance (c : ContextState) (m : Memory) (keepNodes now : ℕ) :
    Decidable (RollbackRefused c m keepNodes now) := inferInstanceAs (Decidable (_ ∨ _))

/-- `agent_context_rollback`, the whole call. -/
def agentContextRollbackCall (p : Proc) (m : Memory) (keepNodes now : ℕ) : Proc :=
  let q : Proc := { p with ctx := (p.ctx.agentContextRollback m keepNodes now).1 }
  if RollbackRefused p.ctx m keepNodes now then q
  else { q with loop.loopState := agentLoopRolledBack }

/-- The loop machine, and who is inside `agent_tool_call`. -/
structure AgentSystem where
  sys : LoopSystem
  inTool : Slot → Bool

inductive AgentCall
  | loop (l : LoopLabel)
  | toolBegin (i : Slot) (r : Runtime) (tool : List UInt8)
  | toolEnd (i : Slot)
  | push (i : Slot) (m : Memory) (node : AgentContextNode) (now : ℕ)
  | rollback (i : Slot) (m : Memory) (keepNodes now : ℕ)
  | clear (i : Slot) (m : Memory) (now : ℕ)
  | query (i : Slot) (m : Memory) (dst len : ℕ)
  | prioritySet (i : Slot) (priority : ℤ)
  | schedSet (i : Slot) (priority quota : ℤ) (now : ℕ)
  | roleSet (i : Slot) (role : ℤ)
  | capSet (i : Slot) (caps : BitVec 64)
  | rest (i : Slot) (p : Proc)
  | reborn (i : Slot) (p : Proc) (reset : Bool)

namespace AgentSystem

variable (s : AgentSystem) (i : Slot)

def proc : Proc := s.sys.proc i

/-- A section of process `i`, outside `agent_proc_wait`, that stores `p`. -/
def store (p : Proc) : Option AgentSystem :=
  (s.sys.next (.other i p false)).map fun sys => { s with sys := sys }

/-- A call of process `i`, from user mode, that stores `p`. -/
def call (p : Proc) : Option AgentSystem :=
  if s.sys.calls i = .user ∧ s.inTool i = false then s.store i p else none

def setTool (on : Bool) : AgentSystem := { s with inTool := Function.update s.inTool i on }

/-- One section. -/
def next : AgentCall → Option AgentSystem
  | .loop l =>
    if l.isOther ∨ ∃ i, l.caller = some i ∧ s.inTool i = true then none
    else (s.sys.next l).map fun sys => { s with sys := sys }
  | .toolBegin i r tool =>
    (s.call i (agentToolCallBegin r (s.proc i) tool)).map fun t =>
      t.setTool i (!decide (ToolRefused r (s.proc i) tool))
  | .toolEnd i =>
    if s.sys.calls i = .user ∧ s.inTool i = true then
      (s.store i { s.proc i with loop.loopState := agentLoopReady }).map fun t =>
        t.setTool i false
    else none
  -- the node of a tool call, or `sys_context_push`
  | .push i m node now =>
    if s.sys.calls i = .user then
      ((s.proc i).ctx.agentContextPushNode m node now).bind fun r =>
        s.store i { s.proc i with ctx := r.1 }
    else none
  | .rollback i m k now => s.call i (agentContextRollbackCall (s.proc i) m k now)
  | .clear i m now => s.call i { s.proc i with ctx := ((s.proc i).ctx.agentContextClear m now).1 }
  | .query i m dst len =>
    s.call i { s.proc i with ctx := ((s.proc i).ctx.agentContextQuery m dst len).1 }
  | .prioritySet i priority => s.call i (agentProcPrioritySet (s.proc i) priority).1
  | .schedSet i priority quota now => s.call i (agentProcSchedSet (s.proc i) priority quota now).1
  | .roleSet i role => s.call i (agentProcRoleSet (s.proc i) role).1
  | .capSet i caps => s.call i (agentProcCapSet (s.proc i) caps).1
  | .rest i p => s.store i { p with loop := (s.proc i).loop }
  | .reborn i p reset =>
    if s.sys.calls i ≠ .user ∨ s.inTool i = true then none
    else (s.sys.next (.other i p reset)).map fun sys => { s with sys := sys }

/-- At boot nobody is in a tool call. -/
def init : Prop := s.sys.init ∧ ∀ i, s.inTool i = false

/-- The loop of process `i` is over. -/
def Done : Prop := (s.proc i).loop.loopState = agentLoopDone

end AgentSystem

/-- **The machine of Agents and their calls.** -/
def agentMachine : Machine AgentSystem AgentCall := ⟨AgentSystem.init, AgentSystem.next⟩

end AgentOS
