import AgentOS.Lib.Transition
import AgentOS.Model.Tool

/-!
# Callers and services

The machine of processes that register tools, call them, receive requests, reply, are
killed and exit. A step is one section under `agent_runtime_lock`; a process that
sleeps on `dynamic_requests` may run its next round at any time, which covers every
`wakeup`, every `kill` and every spurious wakeup. A process reaches `exit` from user
mode only, because a call returns before the kill check of `usertrap`.
-/

namespace AgentOS

/-- Where a process is. -/
inductive CallPoint
  | user
  | calling (tool params : List UInt8)
  | inCall (slot : Fin agentDynamicRequestMax) (requestId : ℤ)
  | receiving
  | gone
  deriving DecidableEq, Repr

/-- An accepted call: its id, its caller, and the owner of the tool when it was made. -/
structure Made where
  id : ℤ
  caller : ℕ
  owner : ℕ
  deriving DecidableEq, Repr

/-- A request handed to a receiver. -/
structure Handed where
  id : ℤ
  service : ℕ
  deriving DecidableEq, Repr

/-- An accepted reply: what was passed to `agent_tool_reply`, and by whom. -/
structure Reply where
  id : ℤ
  service : ℕ
  status : ℤ
  result : List UInt8
  deriving DecidableEq, Repr

/-- A finished call: what it answered, and whether its caller was killed by then. -/
structure Answer where
  id : ℤ
  caller : ℕ
  killed : Bool
  response : AgentToolResponse
  deriving DecidableEq, Repr

/-- The process that owns the dynamic tool of this name. -/
def toolOwner (r : Runtime) (tool : List UInt8) : ℕ :=
  match findTool r tool with
  | none => 0
  | some t => (r.dynamicTools t).ownerPid

/-- Process table, tables, control points and the histories. -/
structure DynState where
  kernel : Kernel
  runtime : Runtime
  points : Slot → CallPoint
  made : List Made
  handed : List Handed
  replies : List Reply
  answers : List Answer
  exited : List ℕ

inductive DynLabel
  | register (i : Slot) (name : List UInt8) (flags : BitVec 32)
  | call (i : Slot) (tool params : List UInt8)
  | enter (i : Slot)
  | resumeCall (i : Slot)
  | recv (i : Slot)
  | resumeRecv (i : Slot)
  | reply (i : Slot) (requestId : ℤ) (result : List UInt8) (status : ℤ)
  | kill (i : Slot)
  | exit (i : Slot)
  | spawn (i : Slot) (p : Proc)
  | other (i : Slot) (p : Proc)

namespace DynState

variable (s : DynState) (i : Slot)

def proc : Proc := s.kernel.procs i

def goto (c : CallPoint) : DynState := { s with points := Function.update s.points i c }

def setRuntime (r : Runtime) : DynState := { s with runtime := r }

/-- Process `i` has put its request for `tool` into `slot` of the tables `r`. -/
def enqueue (tool : List UInt8) (r : Runtime) (slot : Fin agentDynamicRequestMax) : DynState :=
  let id := (r.dynamicRequests slot).id
  { (s.setRuntime r).goto i (.inCall slot id) with
    made := s.made ++ [⟨id, (s.proc i).pid, toolOwner s.runtime tool⟩] }

/-- A round of the wait loop of caller `i`. -/
def callRound (slot : Fin agentDynamicRequestMax) (id : ℤ) : DynState :=
  let r := dynamicCallRound s.runtime (s.proc i).killed slot id
  match r.2 with
  | none => (s.setRuntime r.1).goto i (.inCall slot id)
  | some resp =>
    { (s.setRuntime r.1).goto i .user with
      answers := s.answers ++ [⟨id, (s.proc i).pid, (s.proc i).killed, resp⟩] }

/-- A round of the receive loop of service `i`. -/
def recvRound : DynState :=
  let r := agentToolRecvRound s.runtime (s.proc i).pid (s.proc i).killed
  match r.2 with
  | .request out =>
    { (s.setRuntime r.1).goto i .user with
      handed := s.handed ++ [⟨out.requestId, (s.proc i).pid⟩] }
  | .failed => (s.setRuntime r.1).goto i .user
  | .asleep => (s.setRuntime r.1).goto i .receiving

/-- One section. -/
def next : DynLabel → Option DynState
  | .register i name flags =>
    if s.points i = .user then
      some (s.setRuntime (agentToolRegister s.runtime (s.proc i) name flags).1)
    else none
  -- `agent_tool_call` on a name that is not built in, up to the permission check
  | .call i tool params =>
    if s.points i = .user ∧ toolIsBuiltin tool = false then
      if (s.proc i).ident.agentType = agentTypeNormal ∨
          agentCheckToolPermission s.runtime (s.proc i) tool = false then some s
      else some (s.goto i (.calling tool params))
    else none
  | .enter i =>
    match s.points i with
    | .calling tool params =>
      match dynamicCallAdmit s.runtime (s.proc i) tool params with
      | .error _ => some (s.goto i .user)
      | .ok (r, slot) =>
        some ((s.enqueue i tool r slot).callRound i slot (r.dynamicRequests slot).id)
    | _ => none
  | .resumeCall i =>
    match s.points i with
    | .inCall slot id => some (s.callRound i slot id)
    | _ => none
  | .recv i =>
    if s.points i = .user then
      if (s.proc i).ident.agentType = agentTypeNormal then some s else some (s.recvRound i)
    else none
  | .resumeRecv i => if s.points i = .receiving then some (s.recvRound i) else none
  -- `sys_tool_reply` has the result in a buffer of `AGENT_TOOL_RESULT_MAX` bytes
  | .reply i id result status =>
    if s.points i = .user ∧ strlen result < agentToolResultMax then
      let r := agentToolReply s.runtime (s.proc i) id result status
      if r.2 = 0 then
        some { s.setRuntime r.1 with
          replies := s.replies ++ [⟨id, (s.proc i).pid, status, cstr result⟩] }
      else some s
    else none
  | .kill i =>
    some { s with kernel := s.kernel.setProc i { s.proc i with killed := true } }
  | .exit i =>
    if s.points i = .user then
      some { (s.setRuntime (agentProcExitRuntime s.runtime (s.proc i).pid)).goto i .gone with
        exited := s.exited ++ [(s.proc i).pid] }
    else none
  -- a new process in the slot of one that is gone
  | .spawn i p =>
    if s.points i = .gone then
      let k := s.kernel.setProc i { p with pid := s.kernel.nextpid, killed := false }
      some { s.goto i .user with kernel := { k with nextpid := k.nextpid + 1 } }
    else none
  -- the rest of the kernel: everything but the pid and a kill
  | .other i p =>
    let p := { p with pid := (s.proc i).pid, killed := (s.proc i).killed }
    some { s with kernel := s.kernel.setProc i p }

/-- At boot the tables are empty, every process is in user mode or gone, and processes in use
have distinct pids below `nextpid`. -/
def init : Prop :=
  s.runtime = Runtime.init ∧ (∀ i, s.points i = .user ∨ s.points i = .gone) ∧
    (∀ i, s.points i ≠ .gone → (s.proc i).pid < s.kernel.nextpid) ∧
    (∀ i j, s.points i ≠ .gone → s.points j ≠ .gone → (s.proc i).pid = (s.proc j).pid → i = j) ∧
    s.made = [] ∧ s.handed = [] ∧ s.replies = [] ∧ s.answers = [] ∧ s.exited = []

end DynState

/-- **The machine of dynamic tool calls.** -/
def dynamicMachine : Machine DynState DynLabel := ⟨DynState.init, DynState.next⟩

end AgentOS
