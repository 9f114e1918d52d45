import AgentOS.Model.Access
import AgentOS.Model.File
import AgentOS.Model.Message

/-!
# The tools that take a number

`tool_send_message_tool`, `tool_lease_commit` and `tool_lease_abort` of `kernel/agent_tool.c`: the
number is read by `parse_uint_param`, and selects a process or a lease. `agent_send_message` is here
in one piece, where `AgentOS.Model.Message` has its sections.
-/

namespace AgentOS

/-- `agent_send_message`; the target is an `int`. -/
def agentSendMessage (k : Kernel) (src : Slot) (targetPid msgType : ℤ) (payload : List UInt8)
    (requestId : UInt64) (now : ℕ) : Kernel × ℤ :=
  if msgType ≠ agentMessageTypeNormal ∧ msgType ≠ agentMessageTypeSystem then
    (k, agentToolErrBadParam)
  else
    match (List.finRange nproc).find? fun j => (k.procs j).pid == targetPid &&
        (k.procs j).state != .unused && (k.procs j).ident.agentType != agentTypeNormal with
    | none => (k, agentToolErrServiceGone)
    | some j =>
      let r := agentSendMessageDeliver j (k.procs j) (k.procs src).pid
        ⟨targetPid.toNat, msgType, payload, requestId⟩ now
      (k.setProc j r.1, r.2)

/-- `tool_send_message_tool`. The pid is cast to `int`. -/
def toolSendMessageTool (k : Kernel) (caller : Slot) (params : List UInt8) (now : ℕ) :
    Kernel × AgentToolResponse :=
  match parseUintParam params (lit "target_pid"), strFind params (lit "message=") with
  | some pid, some off =>
    let message := safestrcpy (params.drop (off + strlen (lit "message="))) agentMessageMax
    let r := agentSendMessage k caller (toInt32 pid) agentMessageTypeNormal message 0 now
    (r.1,
      if r.2 = agentToolErrBusy then toolRespSet r.2 (lit "target mailbox full")
      else if r.2 ≠ agentToolOk then toolRespSet r.2 (lit "target agent unavailable")
      else toolRespSet agentToolOk (lit "message delivered"))
  | _, _ => (k, toolRespSet agentToolErrBadParam (lit "bad params"))

/-- `tool_lease_commit`. -/
def toolLeaseCommit (g : AgentGlobal) (p : Proc) (params : List UInt8) (now : ℕ) :
    AgentGlobal × AgentToolResponse :=
  match parseUintParam params (lit "lease_id"), parseUintParam params (lit "expected_version") with
  | some leaseId, some expectedVersion =>
    let r := agentProcLeaseCommit g p leaseId expectedVersion now
    (r.1,
      if r.2 = agentToolOk then toolRespSet agentToolOk (lit "\x7bstatus=ok\x7d")
      else if r.2 = agentToolErrBadParam then toolRespSet agentToolErrBadParam (lit "lease stale")
      else toolRespSet r.2 (lit "commit failed"))
  | _, _ => (g, toolRespSet agentToolErrBadParam (lit "bad params"))

/-- `tool_lease_abort`. -/
def toolLeaseAbort (g : AgentGlobal) (p : Proc) (params : List UInt8) :
    AgentGlobal × AgentToolResponse :=
  match parseUintParam params (lit "lease_id") with
  | some leaseId =>
    let r := agentProcLeaseAbort g p leaseId
    (r.1,
      if r.2 = agentToolOk then toolRespSet agentToolOk (lit "\x7bstatus=ok\x7d")
      else toolRespSet r.2 (lit "abort failed"))
  | none => (g, toolRespSet agentToolErrBadParam (lit "bad params"))

end AgentOS
