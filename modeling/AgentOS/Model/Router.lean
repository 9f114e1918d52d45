import AgentOS.Model.DynamicCall
import AgentOS.Model.Query

/-!
# The Tool Router

`kernel/agent_tool.c`: the policy table of the built-in tools, `agent_check_tool_permission`,
the dispatch of `agent_tool_call`, `agent_tool_schema_get` and `agent_copy_tool_list`;
`sys_tool_register` of `kernel/sysagent.c`. What a built-in tool does is elsewhere; here it
is the handler that the call reaches.
-/

namespace AgentOS

/-! ### The built-in tools -/

/-- The handlers of the dispatch chain. -/
inductive BuiltinTool
  | queryProcess | getSystemStatus | sendMessage | readContext | readFile | patchFile
  | runRuleTest | diffFile | setFileAttr | getFileAttr | delFileAttr | queryFile | queryAgent
  | getWorkflowMetrics | leaseBegin | leaseCommit | leaseAbort
  deriving DecidableEq, Repr

/-- `builtin_policies`: names and `required_cap`. -/
def builtinPolicies : List (String × BitVec 64) :=
  [("query_process", agentCapQueryProcess),
    ("get_system_status", agentCapQueryProcess),
    ("send_message", agentCapSendMessage),
    ("read_context", 0),
    ("read_file", agentCapReadFile),
    ("patch_file", agentCapPatchFile),
    ("run_rule_test", agentCapQueryFile),
    ("diff_file", agentCapReadFile),
    ("set_file_attr", agentCapPatchFile),
    ("get_file_attr", agentCapQueryFile),
    ("del_file_attr", agentCapPatchFile),
    ("query_file", agentCapQueryFile),
    ("query_agent", agentCapQueryProcess),
    ("get_workflow_metrics", agentCapAuditRead),
    ("lease_begin", agentCapLeaseAcquire),
    ("lease_commit", agentCapLeaseAcquire),
    ("lease_abort", agentCapLeaseAcquire)]

/-- The comparisons of `agent_tool_call`, in order. -/
def dispatchChain : List (String × BuiltinTool) :=
  [("query_process", .queryProcess),
    ("get_system_status", .getSystemStatus),
    ("send_message", .sendMessage),
    ("read_context", .readContext),
    ("read_file", .readFile),
    ("patch_file", .patchFile),
    ("run_rule_test", .runRuleTest),
    ("diff_file", .diffFile),
    ("set_file_attr", .setFileAttr),
    ("get_file_attr", .getFileAttr),
    ("del_file_attr", .delFileAttr),
    ("query_file", .queryFile),
    ("query_agent", .queryAgent),
    ("get_workflow_metrics", .getWorkflowMetrics),
    ("lease_begin", .leaseBegin),
    ("lease_commit", .leaseCommit),
    ("lease_abort", .leaseAbort)]

/-- The entry of the first name that `name` is equal to. -/
def lookupName {α : Type} (l : List (String × α)) (name : List UInt8) : Option α :=
  (l.find? fun e => streq name (lit e.1)).map Prod.snd

/-! ### `agent_tool_call` -/

/-- `agent_check_tool_permission`. -/
def toolPermitted (r : Runtime) (p : Proc) (name : List UInt8) : Bool :=
  match lookupName builtinPolicies name with
  | some cap => cap == 0 || p.ident.agentCapabilities &&& cap != 0
  | none => agentCheckToolPermission r p name

/-- Where `agent_tool_call` takes a request: to an error, to the handler of a built-in tool, or
to `agent_dynamic_tool_call`. -/
inductive Routed
  | error (resp : AgentToolResponse)
  | builtin (t : BuiltinTool)
  | dynamic
  deriving DecidableEq, Repr

/-- `agent_tool_call` up to the handler. -/
def agentToolRoute (r : Runtime) (p : Proc) (name : List UInt8) : Routed :=
  if p.ident.agentType = agentTypeNormal then
    .error (toolRespSet agentToolErrNotAgent (lit "process is not agent"))
  else if toolPermitted r p name = false then
    .error (toolRespSet agentToolErrPermission (lit "permission denied"))
  else
    match lookupName dispatchChain name with
    | some t => .builtin t
    | none => .dynamic

/-! ### Discovery -/

/-- `struct agent_tool_schema`. -/
structure AgentToolSchema where
  name : List UInt8
  paramsDesc : List UInt8
  requiredCap : BitVec 64
  resultDesc : List UInt8
  isDynamic : Bool
  ownerPid : ℕ
  ownerGroup : ℤ
  flags : BitVec 32
  deriving DecidableEq, Repr

/-- The parameters of a built-in tool in its schema. -/
def builtinParams (name : List UInt8) : List UInt8 :=
  if streq name (lit "query_file") then
    lit "type:string?,owner:string?,tags:string?,keyword:string?,public:string?,mode:string?"
  else if streq name (lit "send_message") then lit "target_pid:int,message:string"
  else if streq name (lit "read_file") then lit "path:string"
  else if streq name (lit "patch_file") then lit "path:string,op:replace,old:string,new:string"
  else if streq name (lit "run_rule_test") then lit "target:string"
  else lit "see documentation"

/-- `agent_tool_schema_get`; the calling process is not looked at. -/
def agentToolSchemaGet (r : Runtime) (_p : Proc) (name : List UInt8) : Option AgentToolSchema :=
  match lookupName builtinPolicies name with
  | some cap =>
    some { name := safestrcpy name agentToolNameMax, requiredCap := cap, isDynamic := false,
           paramsDesc := safestrcpy (builtinParams name) agentToolParamMax,
           resultDesc := safestrcpy (lit "status=int,...") agentToolResultMax,
           ownerPid := 0, ownerGroup := 0, flags := 0 }
  | none =>
    (findTool r name).map fun t =>
      let d := r.dynamicTools t
      { name := safestrcpy name agentToolNameMax, requiredCap := d.requiredCap, isDynamic := true,
        paramsDesc := safestrcpy (lit "dynamic params") agentToolParamMax,
        resultDesc := safestrcpy (lit "dynamic result") agentToolResultMax,
        ownerPid := d.ownerPid, ownerGroup := d.ownerGroup, flags := d.flags }

/-- The built-in tools in the list of `agent_copy_tool_list`. -/
def builtinToolList : List UInt8 :=
  lit ("get_system_status();query_process(type);" ++
    "query_file(type,owner,tags,keyword,public,mode);" ++
    "send_message(target_pid,message);read_context();" ++
    "read_file(path);patch_file(path,op,old,new);" ++
    "run_rule_test(target);diff_file(path);" ++
    "set_file_attr(path,key,value);get_file_attr(path,key);" ++
    "del_file_attr(path,key);query_agent(role,capability,group);" ++
    "get_workflow_metrics();" ++
    "lease_begin(path);lease_commit(lease_id,expected_version);" ++
    "lease_abort(lease_id)")

/-- The loop of `agent_copy_tool_list` at one slot. -/
def listTool (p : Proc) (buf : List UInt8) (d : AgentDynamicTool) : List UInt8 :=
  if d.used && agentSameGroupOrPublic p d.ownerGroup d.flags then
    resultPuts (resultPuts (resultPuts buf (lit ";")) d.name) (lit "(dynamic)")
  else buf

/-- `agent_copy_tool_list`: the bytes for a buffer of `len` bytes. -/
def agentCopyToolList (r : Runtime) (p : Proc) (len : ℕ) : List UInt8 :=
  (((List.finRange agentDynamicToolMax).map r.dynamicTools).foldl (listTool p)
    (resultPuts [] builtinToolList)).take len

/-! ### Registration -/

/-- `sys_tool_register`: `argstr` refuses a name that does not fit. -/
def sysToolRegister (r : Runtime) (p : Proc) (name : List UInt8) (flags : BitVec 32) :
    Runtime × ℤ :=
  if strlen name < agentToolNameMax then agentToolRegister r p name flags else (r, -1)

/-- One section of a process, where tools are registered by the system call. -/
def registryNext (s : DynState) : DynLabel → Option DynState
  | .register i name flags =>
    if s.points i = .user then
      some (s.setRuntime (sysToolRegister s.runtime (s.proc i) name flags).1)
    else none
  | l => s.next l

/-- **The machine of the tool registry.** -/
def registryMachine : Machine DynState DynLabel := ⟨DynState.init, registryNext⟩

end AgentOS
