import AgentOS.Lib.Table
import AgentOS.Model.Proc

/-!
# Dynamic tools

The tables of `kernel/agent_tool.c` and the functions that change them under
`agent_runtime_lock`. `agent_dynamic_tool_call` is cut where it sleeps:
`dynamicCallAdmit` is the code up to the loop, `dynamicCallRound` one round of it.
-/

namespace AgentOS

/-- `struct agent_tool_response`. -/
structure AgentToolResponse where
  status : ℤ
  resultLen : ℕ
  result : List UInt8
  deriving DecidableEq, Repr

/-- `tool_resp_set`. -/
def toolRespSet (status : ℤ) (result : List UInt8) : AgentToolResponse where
  status := status
  resultLen := strlen (safestrcpy result agentToolResultMax)
  result := safestrcpy result agentToolResultMax

/-- The names `tool_is_builtin` knows. -/
def builtinTools : List String :=
  ["query_process", "get_system_status", "send_message", "read_context", "read_file",
    "patch_file", "run_rule_test", "diff_file", "set_file_attr", "get_file_attr",
    "del_file_attr", "query_file", "query_agent", "get_workflow_metrics", "lease_begin",
    "lease_commit", "lease_abort"]

/-- `tool_is_builtin`. -/
def toolIsBuiltin (name : List UInt8) : Bool := builtinTools.any fun t => streq name (lit t)

/-- `struct agent_dynamic_tool`. -/
structure AgentDynamicTool where
  used : Bool
  name : List UInt8
  ownerPid : ℕ
  ownerGroup : ℤ
  flags : BitVec 32
  requiredCap : BitVec 64
  deriving DecidableEq, Repr

def AgentDynamicTool.zero : AgentDynamicTool := ⟨false, [], 0, 0, 0, 0⟩

/-- `struct agent_dynamic_request_slot`. -/
structure AgentDynamicRequestSlot where
  used : Bool
  delivered : Bool
  replied : Bool
  id : ℤ
  callerPid : ℕ
  callerGroup : ℤ
  servicePid : ℕ
  status : ℤ
  spanId : ℕ
  deadline : ℕ
  tool : List UInt8
  params : List UInt8
  result : List UInt8
  deriving DecidableEq, Repr

def AgentDynamicRequestSlot.zero : AgentDynamicRequestSlot :=
  ⟨false, false, false, 0, 0, 0, 0, 0, 0, 0, [], [], []⟩

/-- `struct agent_dynamic_tool_request`. -/
structure AgentDynamicToolRequest where
  requestId : ℤ
  callerPid : ℕ
  spanId : ℕ
  tool : List UInt8
  params : List UInt8
  deriving DecidableEq, Repr

/-- The variables `agent_runtime_lock` protects. -/
structure Runtime where
  agentNextRequestId : ℤ
  dynamicTools : Fin agentDynamicToolMax → AgentDynamicTool
  dynamicRequests : Fin agentDynamicRequestMax → AgentDynamicRequestSlot

/-- The runtime at boot. -/
def Runtime.init : Runtime :=
  ⟨1, fun _ => AgentDynamicTool.zero, fun _ => AgentDynamicRequestSlot.zero⟩

/-- Store a request slot. -/
def Runtime.setRequest (r : Runtime) (slot : Fin agentDynamicRequestMax)
    (q : AgentDynamicRequestSlot) : Runtime :=
  { r with dynamicRequests := Function.update r.dynamicRequests slot q }

/-- `agent_same_group_or_public`. -/
def agentSameGroupOrPublic (p : Proc) (ownerGroup : ℤ) (flags : BitVec 32) : Bool :=
  flags &&& agentToolFlagPublic != 0 ||
    (p.ident.agentGroup != 0 && p.ident.agentGroup == ownerGroup)

/-- The dynamic tool of this name. -/
def findTool (r : Runtime) (name : List UInt8) : Option (Fin agentDynamicToolMax) :=
  Table.first r.dynamicTools fun t => t.used && streq t.name name

/-- `agent_check_tool_permission` on a name that is not built in. -/
def agentCheckToolPermission (r : Runtime) (p : Proc) (name : List UInt8) : Bool :=
  match findTool r name with
  | none => true
  | some i => agentSameGroupOrPublic p (r.dynamicTools i).ownerGroup (r.dynamicTools i).flags

/-- `agent_tool_register`. -/
def agentToolRegister (r : Runtime) (p : Proc) (name : List UInt8) (flags : BitVec 32) :
    Runtime × ℤ :=
  if p.ident.agentType = agentTypeNormal then (r, agentToolErrNotAgent)
  else if p.ident.agentCapabilities &&& agentCapRegisterTool = 0 then (r, agentToolErrPermission)
  else if strlen name = 0 ∨ toolIsBuiltin name ∨ flags &&& ~~~agentToolFlagPublic ≠ 0 then
    (r, agentToolErrBadParam)
  else if (findTool r name).isSome then (r, agentToolErrBusy)
  else
    match Table.first r.dynamicTools fun t => !t.used with
    | none => (r, agentToolErrNoSpace)
    | some slot =>
      let tool : AgentDynamicTool :=
        { used := true, name := safestrcpy name agentToolNameMax, ownerPid := p.pid,
          ownerGroup := p.ident.agentGroup, flags := flags, requiredCap := 0 }
      ({ r with dynamicTools := Function.update r.dynamicTools slot tool }, 0)

/-- An `int`. -/
def IsInt (n : ℤ) : Prop := -2 ^ 31 ≤ n ∧ n < 2 ^ 31

instance (n : ℤ) : Decidable (IsInt n) := inferInstanceAs (Decidable (_ ∧ _))

/-- The `int` that `n` wraps to. -/
def toInt32 (n : ℤ) : ℤ := (n + 2 ^ 31) % 2 ^ 32 - 2 ^ 31

/-- `agent_next_request_id++; if(agent_next_request_id <= 0) agent_next_request_id = 1`. -/
def nextRequestId (n : ℤ) : ℤ := if toInt32 (n + 1) ≤ 0 then 1 else toInt32 (n + 1)

/-- `agent_dynamic_tool_call` up to the loop: the refusal, or the tables with the new request
and its slot. -/
def dynamicCallAdmit (r : Runtime) (p : Proc) (tool params : List UInt8) :
    Except AgentToolResponse (Runtime × Fin agentDynamicRequestMax) :=
  match findTool r tool with
  | none => .error (toolRespSet agentToolErrToolNotFound (lit "tool not found"))
  | some t =>
    let d := r.dynamicTools t
    if d.requiredCap ≠ 0 ∧ p.ident.agentCapabilities &&& d.requiredCap = 0 then
      .error (toolRespSet agentToolErrPermission (lit "permission denied"))
    else if ¬ agentSameGroupOrPublic p d.ownerGroup d.flags then
      .error (toolRespSet agentToolErrPermission (lit "tool permission denied"))
    else
      match Table.first r.dynamicRequests fun s => !s.used with
      | none => .error (toolRespSet agentToolErrBusy (lit "tool request queue full"))
      | some slot =>
        let req : AgentDynamicRequestSlot :=
          { AgentDynamicRequestSlot.zero with
            used := true
            id := r.agentNextRequestId
            callerPid := p.pid
            callerGroup := p.ident.agentGroup
            servicePid := d.ownerPid
            tool := safestrcpy tool agentToolNameMax
            params := safestrcpy params agentToolParamMax }
        .ok ({ r.setRequest slot req with
          agentNextRequestId := nextRequestId r.agentNextRequestId }, slot)

/-- `memset(slot, 0, sizeof(*slot))`. -/
def Runtime.clearRequest (r : Runtime) (slot : Fin agentDynamicRequestMax) : Runtime :=
  r.setRequest slot AgentDynamicRequestSlot.zero

/-- One round of the wait loop of the caller of request `requestId`; `none` is `sleep`. -/
def dynamicCallRound (r : Runtime) (killed : Bool) (slot : Fin agentDynamicRequestMax)
    (requestId : ℤ) : Runtime × Option AgentToolResponse :=
  let s := r.dynamicRequests slot
  if s.replied then (r.clearRequest slot, some (toolRespSet s.status s.result))
  else if killed then
    (r.clearRequest slot, some (toolRespSet agentToolErrServiceGone (lit "caller killed")))
  else if s.id ≠ requestId ∨ ¬ s.used then
    (r, some (toolRespSet agentToolErrServiceGone (lit "tool request lost")))
  else (r, none)

/-- How a round of `agent_tool_recv` ends. -/
inductive RecvOutcome
  | request (out : AgentDynamicToolRequest)
  | failed
  | asleep
  deriving DecidableEq, Repr

/-- One round of `agent_tool_recv`. -/
def agentToolRecvRound (r : Runtime) (pid : ℕ) (killed : Bool) : Runtime × RecvOutcome :=
  match Table.first r.dynamicRequests fun s => s.used && !s.delivered && s.servicePid == pid with
  | some slot =>
    let s := r.dynamicRequests slot
    (r.setRequest slot { s with delivered := true },
      .request ⟨s.id, s.callerPid, s.spanId, s.tool, s.params⟩)
  | none => if killed then (r, .failed) else (r, .asleep)

/-- `agent_tool_reply`. -/
def agentToolReply (r : Runtime) (p : Proc) (requestId : ℤ) (result : List UInt8) (status : ℤ) :
    Runtime × ℤ :=
  if p.ident.agentType = agentTypeNormal then (r, agentToolErrNotAgent)
  else
    match Table.first r.dynamicRequests
      fun s => s.used && s.id == requestId && s.servicePid == p.pid with
    | some slot =>
      (r.setRequest slot
        { r.dynamicRequests slot with
          status := status
          result := safestrcpy result agentToolResultMax
          replied := true }, 0)
    | none => (r, agentToolErrBadParam)

/-- What `agent_proc_exit` of process `pid` does to one request slot. -/
def exitRequest (pid : ℕ) (s : AgentDynamicRequestSlot) : AgentDynamicRequestSlot :=
  if ¬ s.used then s
  else if s.callerPid = pid then AgentDynamicRequestSlot.zero
  else if s.servicePid = pid ∧ ¬ s.replied then
    { s with
      status := agentToolErrServiceGone
      result := safestrcpy (lit "tool service exited") agentToolResultMax
      replied := true }
  else s

/-- The section of `agent_proc_exit` under `agent_runtime_lock`. -/
def agentProcExitRuntime (r : Runtime) (pid : ℕ) : Runtime :=
  { r with
    dynamicTools :=
      Table.sweep r.dynamicTools (fun t => t.used && t.ownerPid == pid) AgentDynamicTool.zero
    dynamicRequests := fun i => exitRequest pid (r.dynamicRequests i) }

end AgentOS
