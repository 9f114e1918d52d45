import AgentOS.Model.QueryCache
import AgentOS.Model.Router
import AgentOS.Model.Trusted
import AgentOS.Model.Version

/-!
# A tool call and its Context node

`agent_tool_call` of `kernel/agent_tool.c` from its request to the node that it pushes, as far as
the Context of the caller goes: of the built-in tools only `read_file` touches it. What the other
handlers answer is a parameter.

Beside it is the machine of a process that calls tools and works on its Context; a list that no
call reads records what each live node was pushed by.
-/

namespace AgentOS

/-! ### `read_file` -/

/-- What a tool call finds: the policy and the tables, the regular file at a path with its content,
whether the two pages of `read_file` and the page of the node are there, the answer of another
tool, and the clock. -/
structure ToolWorld where
  runtime : Runtime
  file : List UInt8 → Option (InodeKey × List UInt8)
  pages : Bool
  nodePage : Bool
  answer : AgentToolResponse
  now : ℕ

/-- A file that has been read. -/
structure ReadFile where
  key : InodeKey
  version : ℕ
  content : List UInt8
  deriving DecidableEq, Repr

/-- `read_file_content_versioned`, with a buffer of `AGENT_TOOL_RESULT_MAX` bytes. -/
def readFileContentVersioned (t : FileVersions)
    (file : List UInt8 → Option (InodeKey × List UInt8)) (path : List UInt8) :
    FileVersions × Option ReadFile :=
  match file path with
  | none => (t, none)
  | some (k, data) =>
    let r := t.agentfsInodeVersionGet k
    (r.1, some ⟨k, r.2, data.take (agentToolResultMax - 1)⟩)

/-- The answer of `read_file`. -/
def readFileText (path content : List UInt8) : List UInt8 :=
  let buf := resultPuts (resultPuts [] (lit "\x7bstatus=ok,path=")) path
  resultPuts (resultPuts (resultPuts buf (lit ",content=")) content) (lit "\x7d")

/-- The stores of `tool_read_file` into the PCB. -/
def ContextState.setPending (c : ContextState) (f : ReadFile) : ContextState :=
  { c with
    pendingContextDep := true
    pendingContextDev := f.key.1
    pendingContextInum := f.key.2
    pendingContextVersion := f.version }

/-- `tool_read_file`: the Context, the version table, and the answer. -/
def toolReadFile (c : ContextState) (t : FileVersions) (params : List UInt8) (env : ToolWorld) :
    ContextState × FileVersions × AgentToolResponse :=
  match paramValue params (lit "path") 64 with
  | none => (c, t, toolRespSet agentToolErrBadParam (lit "bad params"))
  | some path =>
    if env.pages = false then (c, t, toolRespSet agentToolErrNoSpace (lit "no memory"))
    else
      match readFileContentVersioned t env.file path with
      | (t, none) => (c, t, toolRespSet agentToolErrBadParam (lit "file not found"))
      | (t, some f) =>
        (c.setPending f, t, toolRespSet agentToolOk (readFileText path f.content))

/-! ### `agent_tool_call` -/

/-- The request of the node: the tool, and its parameters in brackets as far as there is room. -/
def nodeRequest (tool params : List UInt8) : List UInt8 :=
  let request := safestrcpy tool agentContextReqMax
  let n := request.length
  if cstr params = [] then request
  else if n < agentContextReqMax - 2 then
    let request := request ++ lit "(" ++ safestrcpy params (agentContextReqMax - n - 1)
    if request.length < agentContextReqMax - 1 then request ++ lit ")" else request
  else request

/-- The node of a tool call. -/
def toolNode (tool params : List UInt8) (resp : AgentToolResponse) (now : ℕ) : AgentContextNode where
  timestampMs := now
  requestId := 0
  spanId := 0
  causeSequence := 0
  status := resp.status
  request := nodeRequest tool params
  result := safestrcpy resp.result agentContextResMax

/-- `agent_tool_call` up to its node. The last result is false where it returns without one. -/
def agentToolHandle (c : ContextState) (p : Proc) (t : FileVersions) (tool params : List UInt8)
    (env : ToolWorld) : ContextState × FileVersions × AgentToolResponse × Bool :=
  match agentToolRoute env.runtime p tool with
  | .error resp => (if p.ident.agentType = agentTypeNormal then c else c.dropPending, t, resp, false)
  | .builtin .readFile =>
    let r := toolReadFile c.dropPending t params env
    (r.1, r.2.1, r.2.2, env.nodePage)
  | _ => (c.dropPending, t, env.answer, env.nodePage)

/-- `agent_tool_call`, on the Context of the caller; `none` if its push never ends. -/
def agentToolCall (p : Proc) (m : Memory) (t : FileVersions) (tool params : List UInt8)
    (env : ToolWorld) : Option (ContextState × Memory × FileVersions × AgentToolResponse) :=
  let h := agentToolHandle p.ctx p t tool params env
  if h.2.2.2 then
    (h.1.agentContextPushNode m (toolNode tool params h.2.2.1 env.now) env.now).map fun r =>
      (r.1, r.2.1, h.2.1, h.2.2.1)
  else some (h.1, m, h.2.1, h.2.2.1)

/-- The file that a call of `read_file` reads, if it succeeds. -/
def toolReads (p : Proc) (t : FileVersions) (tool params : List UInt8) (env : ToolWorld) :
    Option ReadFile :=
  if agentToolRoute env.runtime p tool = .builtin .readFile ∧ env.pages = true then
    (paramValue params (lit "path") 64).bind fun path =>
      (readFileContentVersioned t env.file path).2
  else none

/-- The call records its node. -/
def toolRecords (p : Proc) (m : Memory) (t : FileVersions) (tool params : List UInt8)
    (env : ToolWorld) : Bool :=
  let h := agentToolHandle p.ctx p t tool params env
  h.2.2.2 && h.1.recorded m (toolNode tool params h.2.2.1 env.now) env.now

/-! ### The machine -/

/-- A process, its user memory, the version table, and the file each live node was pushed with: the
one that the tool call that pushed it has read, if that was a `read_file` that succeeded. -/
structure ToolRun where
  proc : Proc
  mem : Memory
  versions : FileVersions
  reads : List (Option ReadFile)

inductive ToolLabel
  | toolCall (tool params : List UInt8) (env : ToolWorld)
  | push (node : AgentContextNode) (now : ℕ)
  | rollback (keepNodes now : ℕ)
  | clear (now : ℕ)
  | query (dst len : ℕ)
  | mark (a : MarkArgs)
  | fork (child : Proc) (generation : ℕ)
  | exec (m : Memory) (sz : ℕ)
  | memory (m : Memory) (sz : ℕ)
  | files (t : FileVersions)
  | other (p : Proc)

namespace ToolRun

variable (s : ToolRun)

/-- A push: of the nodes pushed with `reads`, the oldest are dropped. -/
def keepNewest (c : ContextState) (m : Memory) (reads : List (Option ReadFile)) : ToolRun :=
  { s with
    proc := { s.proc with ctx := c }
    mem := m
    reads := reads.drop (reads.length - c.contextNodeCount) }

/-- A call that drops the newest nodes, down to the count it leaves. -/
def keepOldest (p : Proc) (m : Memory) : ToolRun :=
  { s with proc := p, mem := m, reads := s.reads.take p.ctx.contextNodeCount }

/-- One step; `none` where a push never ends. A fork goes on in the child. `memory` is what the
process and the kernel do to its user memory, `files` what other calls do to the version table,
`other` everything that leaves the Context alone. -/
def next : ToolLabel → Option ToolRun
  | .toolCall tool params env =>
    (agentToolCall s.proc s.mem s.versions tool params env).map fun r =>
      let reads := if toolRecords s.proc s.mem s.versions tool params env then
          s.reads ++ [toolReads s.proc s.versions tool params env]
        else s.reads
      { s.keepNewest r.1 r.2.1 reads with versions := r.2.2.1 }
  | .push node now =>
    (s.proc.ctx.agentContextPushNode s.mem node now).map fun r =>
      s.keepNewest r.1 r.2.1
        (if s.proc.ctx.recorded s.mem node now then s.reads ++ [none] else s.reads)
  | .rollback k now =>
    let r := s.proc.ctx.agentContextRollback s.mem k now
    some (s.keepOldest { s.proc with ctx := r.1 } r.2.1)
  | .clear now =>
    let r := s.proc.ctx.agentContextClear s.mem now
    some (s.keepOldest { s.proc with ctx := r.1 } r.2)
  | .query dst len =>
    let r := s.proc.ctx.agentContextQuery s.mem dst len
    some (s.keepOldest { s.proc with ctx := r.1 } r.2.1)
  | .mark a =>
    let r := agentMarkCurrent s.proc s.mem a
    some (s.keepOldest r.1 r.2.1)
  | .fork child generation =>
    some (s.keepOldest (agentAfterFork { child with sz := s.proc.sz } s.proc generation) s.mem)
  | .exec m sz => some (s.keepOldest (agentAfterExec { s.proc with sz := sz }) m)
  | .memory m sz => some { s with proc.sz := sz, mem := m }
  | .files t => some { s with versions := t }
  | .other p => some { s with proc := { p with ctx := s.proc.ctx } }

/-- A new process: it has no nodes. -/
def init : Prop := s.proc.ctx.contextNodeCount = 0 ∧ s.reads = []

end ToolRun

/-- **The machine of a process that calls tools.** -/
def toolMachine : Machine ToolRun ToolLabel := ⟨ToolRun.init, ToolRun.next⟩

end AgentOS
