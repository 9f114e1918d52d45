import AgentOS.Model.Tool

/-!
# Batched tool calls

`sys_tool_call` and `sys_tool_call_batch` of `kernel/sysagent.c` with
`agent_tool_call_batch` of `kernel/agent_tool.c`. `agent_tool_call` itself is a
parameter `call`: it gets the kernel state and the memory from the request pointer on,
which is all it can read the `tool` and `params` strings from, and it fills one
response. Writes to the page that `kalloc` returned for the response are kept as
`(offset, length)` pairs.
-/

namespace AgentOS

/-- `sizeof(struct agent_tool_response)`: `int`, `uint32`, `char[512]`. -/
def sizeofToolResponse : ℕ := 4 + 4 + agentToolResultMax

/-- `sizeof(struct agent_tool_batch_response)`: `int` and the responses. -/
def sizeofBatchResponse : ℕ := 4 + agentToolBatchMax * sizeofToolResponse

/-- `struct agent_tool_request`: two fields of arbitrary bytes. -/
structure AgentToolRequest where
  tool : List UInt8
  params : List UInt8
  tool_length : tool.length = agentToolNameMax
  params_length : params.length = agentToolParamMax

namespace AgentToolRequest

/-- The request in memory. -/
def bytes (req : AgentToolRequest) : List UInt8 := req.tool ++ req.params

/-- `req->tool[sizeof(req->tool) - 1] = 0`, and the same for `params`. -/
def terminate (req : AgentToolRequest) : AgentToolRequest where
  tool := req.tool.set (agentToolNameMax - 1) 0
  params := req.params.set (agentToolParamMax - 1) 0
  tool_length := by simp [req.tool_length]
  params_length := by simp [req.params_length]

/-- Do both fields end in a NUL already? -/
def Terminated (req : AgentToolRequest) : Prop :=
  req.tool[agentToolNameMax - 1]? = some 0 ∧ req.params[agentToolParamMax - 1]? = some 0

end AgentToolRequest

/-- `struct agent_tool_batch_request`. -/
structure AgentToolBatchRequest where
  count : ℤ
  requests : List AgentToolRequest
  requests_length : requests.length = agentToolBatchMax

/-- Writes into one allocated page. -/
abbrev PageWrites := List (ℕ × ℕ)

/-- Do all writes stay inside the page? -/
def InPage (w : PageWrites) : Prop := ∀ x ∈ w, x.1 + x.2 ≤ pgsize

/-- What may fail around a call: a `kalloc` of it, its `copyin`, its `copyout`. -/
structure CallEnv where
  kalloc : Bool
  copyin : Bool
  copyout : Bool
  deriving DecidableEq, Repr

/-- What a system call leaves: the kernel, its return value, the responses copied out, and its
writes to the response page. -/
structure CallResult (K : Type*) where
  kernel : K
  ret : ℤ
  responses : Option (List AgentToolResponse)
  writes : PageWrites

section

variable {K : Type*} (call : K → List UInt8 → K × AgentToolResponse) (agentType : K → ℤ)

/-- `sys_tool_call`; `junk` is what follows the request in its page. -/
def sysToolCall (k : K) (env : CallEnv) (req : AgentToolRequest) (junk : List UInt8) :
    CallResult K :=
  if env.kalloc = false ∨ env.copyin = false then ⟨k, -1, none, []⟩
  else
    let r := call k (req.terminate.bytes ++ junk)
    let writes := [(0, sizeofToolResponse)]
    if env.copyout then ⟨r.1, r.2.status, some [r.2], writes⟩ else ⟨r.1, -1, none, writes⟩

/-- The loop of `agent_tool_call_batch`: request `i` is read from where it lies in the struct,
with the later requests and then the stack behind it. -/
def batchLoop (k : K) (stack : List UInt8) : ℕ → List AgentToolRequest → K × List AgentToolResponse
  | n + 1, req :: rest =>
    let r := call k ((req :: rest).flatMap AgentToolRequest.bytes ++ stack)
    let t := batchLoop r.1 stack n rest
    (t.1, r.2 :: t.2)
  | _, _ => (k, [])

/-- The writes of the loop: the response of request `i`, and the counter. -/
def batchWrites (n : ℕ) : PageWrites :=
  (0, 4) :: (List.range n).flatMap fun i => [(4 + i * sizeofToolResponse, sizeofToolResponse), (0, 4)]

/-- `agent_tool_call_batch`. -/
def agentToolCallBatch (k : K) (breq : AgentToolBatchRequest) (stack : List UInt8) : CallResult K :=
  if agentType k = agentTypeNormal then ⟨k, agentToolErrNotAgent, some [], []⟩
  else if breq.count < 1 ∨ (agentToolBatchMax : ℤ) < breq.count then
    ⟨k, agentToolErrBadParam, some [], []⟩
  else
    let n := breq.count.toNat
    let r := batchLoop call k stack n breq.requests
    ⟨r.1, n, some r.2, batchWrites n⟩

/-- `sys_tool_call_batch`: the response page is cleared before anything is checked. -/
def sysToolCallBatch (k : K) (env : CallEnv) (breq : AgentToolBatchRequest) (stack : List UInt8) :
    CallResult K :=
  if env.kalloc = false ∨ env.copyin = false then ⟨k, -1, none, []⟩
  else
    let r := agentToolCallBatch call agentType k breq stack
    let writes := (0, sizeofBatchResponse) :: r.writes
    if env.copyout then ⟨r.kernel, r.ret, r.responses, writes⟩ else ⟨r.kernel, -1, none, writes⟩

/-- The same requests one by one through `sys_tool_call`: the kernel they leave, and their responses
if every call copies one out. -/
def singleCalls (k : K) (env : CallEnv) (junk : List UInt8) :
    List AgentToolRequest → K × Option (List AgentToolResponse)
  | [] => (k, some [])
  | req :: rest =>
    let r := sysToolCall call k env req junk
    let t := singleCalls r.kernel env junk rest
    (t.1, r.responses.bind fun rs => t.2.map fun ts => rs ++ ts)

end

end AgentOS
