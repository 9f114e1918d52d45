import AgentOS.Lib.Slice
import AgentOS.Model.Workflow

/-!
# The Context Path

`kernel/agent_context.c`, the digest ring of `kernel/agent.c` and `agent_mark_current` as
far as it touches them, on the Context state of a process and its user memory. A record
is written to user memory as text; its offset, its length and the file it depends on are
kept in arrays of the PCB.
-/

namespace AgentOS

open Slice

/-! ### User memory -/

/-- The user memory of a process: its bytes and, for each page, the bits `PTE_V & PTE_U` and
`PTE_W`. -/
structure Memory where
  byte : ℕ → UInt8
  user : ℕ → Bool
  writable : ℕ → Bool

/-- The pages of a range of addresses. -/
def pages (va n : ℕ) : List ℕ :=
  if n = 0 then [] else List.range' (va / pgsize) ((va + n - 1) / pgsize - va / pgsize + 1)

namespace Memory

/-- `copyin`. -/
def copyin (m : Memory) (va n : ℕ) : Option (List UInt8) :=
  if (pages va n).all m.user then some (slice m.byte va n) else none

/-- `copyout`: page by page, up to the first page that cannot be written. -/
def copyout (m : Memory) (va : ℕ) (bytes : List UInt8) : Memory × Bool :=
  match (pages va bytes.length).find? fun g => !(m.user g && m.writable g) with
  | none => ({ m with byte := write m.byte va bytes }, true)
  | some g => ({ m with byte := write m.byte va (bytes.take (g * pgsize - va)) }, false)

/-- One round of a copy through a buffer, unless an earlier one failed. -/
def copyChunk (src dst : ℕ) (r : Memory × Bool) (x : ℕ × ℕ) : Memory × Bool :=
  if r.2 then
    match r.1.copyin (src + x.1) x.2 with
    | none => (r.1, false)
    | some tmp => r.1.copyout (dst + x.1) tmp
  else r

/-- Copy `n` bytes from `src` to `dst` through a buffer of 128 bytes. -/
def copyThrough (m : Memory) (src dst n : ℕ) : Memory × Bool :=
  (chunks 128 n).foldl (copyChunk src dst) (m, true)

/-- `uvmalloc` from `oldsz` to `newsz` with `PTE_W`. -/
def uvmalloc (m : Memory) (oldsz newsz : ℕ) : Memory where
  byte a := if pgroundup oldsz ≤ a ∧ a < pgroundup newsz then 0 else m.byte a
  user g := m.user g || (pgroundup oldsz ≤ g * pgsize && g * pgsize < newsz)
  writable g := m.writable g || (pgroundup oldsz ≤ g * pgsize && g * pgsize < newsz)

/-- `uvmclear`: the page of `va` is no longer accessible to the user. -/
def uvmclear (m : Memory) (va : ℕ) : Memory :=
  { m with user := Function.update m.user (va / pgsize) false }

end Memory

/-! ### Text -/

/-- `sizeof(record)`. -/
def recordSize : ℕ := agentContextReqMax + agentContextResMax + 128

/-- `buf_putc` into `record`: one byte stays for the NUL. -/
def bufPutc (out : List UInt8) (c : UInt8) : List UInt8 :=
  if recordSize - out.length ≤ 1 then out else out ++ [c]

/-- `buf_puts`. -/
def bufPuts (out : List UInt8) (s : List UInt8) : List UInt8 := (cstr s).foldl bufPutc out

/-- The decimal digits of `value`. -/
def decimal (value : ℕ) : List UInt8 :=
  (Nat.toDigits 10 value).map fun c => UInt8.ofNat c.toNat

/-- `buf_putu`. -/
def bufPutu (out : List UInt8) (value : ℕ) : List UInt8 := (decimal value).foldl bufPutc out

/-! ### The header -/

/-- `struct agent_context_header`. -/
structure AgentContextHeader where
  magic : ℕ
  version : ℕ
  headerSize : ℕ
  nodeSize : ℕ
  regionSize : ℕ
  pathOffset : ℕ
  pathLength : ℕ
  nodeCount : ℕ
  droppedNodes : ℕ
  generation : ℕ
  firstSequence : ℕ
  nextSequence : ℕ
  lastResultLen : ℕ
  lastTimestamp : ℕ
  lastResult : List UInt8

/-- `w` bytes of an unsigned integer, lowest first. -/
def littleEndian (w v : ℕ) : List UInt8 := (List.range w).map fun i => UInt8.ofNat (v / 256 ^ i)

/-- The header as it lies in memory; `last_tool` is never set. -/
def AgentContextHeader.bytes (h : AgentContextHeader) : List UInt8 :=
  [h.magic, h.version, h.headerSize, h.nodeSize].flatMap (littleEndian 4) ++
    [h.regionSize, h.pathOffset, h.pathLength, h.nodeCount, h.droppedNodes, h.generation,
      h.firstSequence, h.nextSequence, h.lastResultLen, h.lastTimestamp].flatMap (littleEndian 8) ++
    padded [] agentToolNameMax ++ padded h.lastResult agentToolResultMax

/-- `AGENT_CONTEXT_HEADER_MAGIC`. -/
def agentContextHeaderMagic : ℕ := 0x41474e54

/-- `AGENT_CONTEXT_HEADER_VERSION`. -/
def agentContextHeaderVersion : ℕ := 2

/-- `sizeof(struct agent_context_node)`. -/
def sizeofContextNode : ℕ := 5 * 8 + 4 + agentContextReqMax + agentContextResMax + 4

/-- `struct agent_context_node`; `sequence` is written by the push. -/
structure AgentContextNode where
  timestampMs : ℕ
  requestId : UInt64
  spanId : ℕ
  causeSequence : ℕ
  status : ℤ
  request : List UInt8
  result : List UInt8

namespace ContextState

variable (c : ContextState)

/-- `agent_path_capacity`. -/
def agentPathCapacity : ℕ :=
  let cap := (c.contextRegionSize + 2 ^ 64 - sizeofContextHeader) % 2 ^ 64
  if c.resourceQuota = 0 ∨ cap < c.resourceQuota then cap else c.resourceQuota

/-- `agent_path_base`. -/
def agentPathBase : ℕ := c.contextRegionStart + sizeofContextHeader

/-- `agent_context_build_header`; `now` is `ticks`. -/
def buildHeader (now : ℕ) : AgentContextHeader where
  magic := agentContextHeaderMagic
  version := agentContextHeaderVersion
  headerSize := sizeofContextHeader
  nodeSize := sizeofContextNode
  regionSize := c.contextRegionSize
  pathOffset := sizeofContextHeader
  pathLength := c.contextPathLen
  nodeCount := c.contextNodeCount
  droppedNodes := c.contextDroppedNodes
  generation := c.contextGeneration
  firstSequence := c.contextFirstSequence
  nextSequence := c.contextNextSequence
  lastResultLen := 0
  lastTimestamp := now
  lastResult := []

/-- `agent_context_write_header`. -/
def writeHeader (m : Memory) (h : AgentContextHeader) : Memory × Bool :=
  if c.contextRegionStart = 0 then (m, false) else m.copyout c.contextRegionStart h.bytes

/-- `agent_context_write_begin`: an odd generation. -/
def writeBegin (m : Memory) (now : ℕ) : ContextState × Memory × Bool :=
  let c' := { c with contextGeneration :=
    if c.contextGeneration % 2 = 0 then (c.contextGeneration + 1) % 2 ^ 64
    else (c.contextGeneration + 2) % 2 ^ 64 }
  (c', c'.writeHeader m (c'.buildHeader now))

/-- `agent_context_fill_last`. -/
def fillLast (m : Memory) (h : AgentContextHeader) : AgentContextHeader :=
  let n := min c.contextPathLen 127
  if 0 < n then
    match m.copyin (c.agentPathBase + c.contextPathLen - n) n with
    | none => h
    | some tmp =>
      let last := safestrcpy tmp agentToolResultMax
      { h with lastResult := last, lastResultLen := strlen last }
  else h

/-- `agent_sync_header`: an even generation. -/
def syncHeader (m : Memory) (now : ℕ) : ContextState × Memory × Bool :=
  let c' := { c with contextGeneration :=
    if c.contextGeneration % 2 = 1 then (c.contextGeneration + 1) % 2 ^ 64
    else (c.contextGeneration + 2) % 2 ^ 64 }
  (c', c'.writeHeader m (c'.fillLast m (c'.buildHeader now)))

/-- The loop of `agent_evict_oldest` over an array: entry `i` moves to `i - 1`, and the last of
`n` entries becomes `z`. -/
def shiftDown {α : Type} (f : ℕ → α) (n : ℕ) (z : α) : ℕ → α :=
  fun i => if i + 1 < n then f (i + 1) else if i + 1 = n then z else f i

/-- `agent_evict_oldest`. -/
def evictOldest (m : Memory) : ContextState × Memory :=
  if c.contextNodeCount = 0 then
    ({ c with contextPathLen := 0, contextDeps := fun _ => AgentContextDep.zero }, m)
  else
    let firstLen := min (c.contextLengths 0) c.contextPathLen
    let remain := c.contextPathLen - firstLen
    let w := m.copyThrough (c.agentPathBase + firstLen) c.agentPathBase remain
    if w.2 = false then
      ({ c with
          contextPathLen := 0
          contextNodeCount := 0
          contextDeps := fun _ => AgentContextDep.zero }, w.1)
    else
      ({ c with
          contextPathLen := remain
          contextOffsets := shiftDown
            (fun i => (c.contextOffsets i + 2 ^ 16 - firstLen % 2 ^ 16) % 2 ^ 16)
            c.contextNodeCount 0
          contextLengths := shiftDown c.contextLengths c.contextNodeCount 0
          contextDeps := shiftDown c.contextDeps c.contextNodeCount AgentContextDep.zero
          contextNodeCount := c.contextNodeCount - 1
          contextDroppedNodes := (c.contextDroppedNodes + 1) % 2 ^ 64
          contextFirstSequence := (c.contextFirstSequence + 1) % 2 ^ 64 }, w.1)

/-- The loop of `agent_context_push_node` that makes room; `none` if `fuel` rounds are not
enough. -/
def evictLoop : ℕ → ContextState → Memory → ℕ → Option (ContextState × Memory)
  | 0, _, _, _ => none
  | fuel + 1, c, m, recLen =>
    if agentContextMaxNodes ≤ c.contextNodeCount ∨
        c.agentPathCapacity < c.contextPathLen + recLen then
      evictLoop fuel (c.evictOldest m).1 (c.evictOldest m).2 recLen
    else some (c, m)

/-- `agent_context_clear`. -/
def agentContextClear (m : Memory) (now : ℕ) : ContextState × Memory :=
  let r := if c.contextRegionStart ≠ 0 then c.writeBegin m now else (c, m, true)
  let c : ContextState := { r.1 with
    contextPathLen := 0
    contextNodeCount := 0
    contextDroppedNodes := 0
    contextFirstSequence := 0
    contextNextSequence := 1
    contextOffsets := fun _ => 0
    contextLengths := fun _ => 0
    contextDeps := fun _ => AgentContextDep.zero
    pendingContextDep := false
    pendingContextDev := 0
    pendingContextInum := 0
    pendingContextVersion := 0 }
  let m := r.2.1
  if c.contextRegionStart = 0 ∨ c.contextRegionSize = 0 then (c, m)
  else
    -- zero the region, until a page is not writable
    let m := (chunks 128 c.contextRegionSize).foldl (fun r x =>
      if r.2 then r.1.copyout (c.contextRegionStart + x.1) (List.replicate x.2 0) else r) (m, true)
    let c : ContextState := { c with
      contextDigests := fun _ => AgentContextDigest.zero
      contextDigestHead := 0
      contextDigestCount := 0 }
    let r := c.syncHeader m.1 now
    (r.1, r.2.1)

/-! ### The digest ring -/

/-- One round of FNV-1a on a word. -/
def mix (h w : UInt64) : UInt64 := (h ^^^ w) * 1099511628211

/-- `agent_hash_bytes` on a string. -/
def agentHashBytes (s : List UInt8) : UInt64 :=
  (cstr s).foldl (fun h b => mix h b.toUInt64) 14695981039346656037

/-- `agent_context_digest_push`. -/
def digestPush (sequence : ℕ) (node : AgentContextNode) : ContextState :=
  let head := Fin.ofNat agentContextDigestMax c.contextDigestHead
  let prevHash := if 0 < c.contextDigestCount then (c.contextDigests (head - 1)).currentHash else 0
  let seq := UInt64.ofNat sequence
  let requestHash := agentHashBytes node.request
  let resultHash := agentHashBytes node.result
  let d : AgentContextDigest :=
    { sequence := seq
      requestId := node.requestId
      requestHash := requestHash
      resultHash := resultHash
      previousHash := prevHash
      currentHash := mix (mix (mix (mix (mix (mix 14695981039346656037 seq) node.requestId)
        requestHash) resultHash) prevHash) (UInt64.ofNat (node.status % 2 ^ 32).toNat)
      status := node.status }
  { c with
    contextDigests := Function.update c.contextDigests head d
    contextDigestHead := (c.contextDigestHead + 1) % agentContextDigestMax
    contextDigestCount :=
      if c.contextDigestCount < agentContextDigestMax then c.contextDigestCount + 1
      else c.contextDigestCount }

/-! ### Push, query and rollback -/

/-- The text of a record. -/
def record (sequence : ℕ) (node : AgentContextNode) : List UInt8 :=
  let out := bufPutu (bufPuts [] (lit "\x7bts=")) node.timestampMs
  let out := bufPutu (bufPuts out (lit ",seq=")) sequence
  let out := bufPutu (bufPuts out (lit ",req_id=")) node.requestId.toNat
  let out := bufPutu (bufPuts out (lit ",span=")) node.spanId
  let out := bufPutu (bufPuts out (lit ",cause=")) node.causeSequence
  let out := bufPutu (bufPuts out (lit ",status=")) (node.status % 2 ^ 64).toNat
  let out := bufPuts (bufPuts out (lit ",req=")) node.request
  let out := bufPuts (bufPuts out (lit ",res=")) node.result
  bufPuts out (lit "\x7d\n")

/-- The dependency that a push attaches to its node. -/
def pendingDep (sequence : ℕ) : AgentContextDep :=
  if c.pendingContextDep then
    { used := true, sequence := sequence, dev := c.pendingContextDev, inum := c.pendingContextInum,
      version := c.pendingContextVersion }
  else { AgentContextDep.zero with sequence := sequence }

/-- Forget the pending dependency. -/
def dropPending : ContextState :=
  { c with
    pendingContextDep := false
    pendingContextDev := 0
    pendingContextInum := 0
    pendingContextVersion := 0 }

/-- The stores of `agent_context_push_node` once the record is in memory. -/
def appendNode (sequence recLen : ℕ) (dep : AgentContextDep) (node : AgentContextNode) :
    ContextState :=
  let c := if c.contextNodeCount = 0 then { c with contextFirstSequence := sequence } else c
  let c := { c with
    contextOffsets := Function.update c.contextOffsets c.contextNodeCount
      (c.contextPathLen % 2 ^ 16)
    contextLengths := Function.update c.contextLengths c.contextNodeCount (recLen % 2 ^ 16)
    contextDeps := Function.update c.contextDeps c.contextNodeCount dep
    contextPathLen := c.contextPathLen + recLen
    contextNodeCount := c.contextNodeCount + 1 }
  { c.digestPush sequence node with lastContextQuery := node.requestId }

/-- `agent_context_push_node`; `none` if it never ends. -/
def agentContextPushNode (m : Memory) (node : AgentContextNode) (now : ℕ) :
    Option (ContextState × Memory × ℤ) :=
  let sequence := c.contextNextSequence
  let dep := c.pendingDep sequence
  let c := c.dropPending
  if c.contextRegionStart = 0 then some (c, m, -1)
  else
    let rec_ := record sequence node
    let recLen := strlen rec_
    if c.agentPathCapacity < recLen then some (c, m, -1)
    else
      let r := c.writeBegin m now
      if r.2.2 = false then some (r.1, r.2.1, -1)
      else
        let next := (r.1.contextNextSequence + 1) % 2 ^ 64
        let c := { r.1 with contextNextSequence := if next = 0 then 1 else next }
        (evictLoop (c.contextNodeCount + 2) c r.2.1 recLen).map fun s =>
          let w := s.2.copyout (s.1.agentPathBase + s.1.contextPathLen) (cstr rec_)
          if w.2 = false then (s.1, w.1, -1)
          else
            let t := (s.1.appendNode sequence recLen dep node).syncHeader w.1 now
            (t.1, t.2.1, if t.2.2 then 0 else -1)

/-- `sys_context_push`, of the node that `copyin` has read: its strings end inside their fields. -/
def sysContextPush (m : Memory) (node : AgentContextNode) (now : ℕ) :
    Option (ContextState × Memory × ℤ) :=
  c.agentContextPushNode m
    { node with
      request := safestrcpy node.request agentContextReqMax
      result := safestrcpy node.result agentContextResMax } now

/-- `agent_context_query`. -/
def agentContextQuery (m : Memory) (dst len : ℕ) : ContextState × Memory × ℤ :=
  let n := min len c.contextPathLen
  let c := { c with contextReuseHit := 1 }
  let w := m.copyThrough c.agentPathBase dst n
  (c, w.1, if w.2 then n else -1)

/-- `agent_context_rollback`, less `p->loop_state = AGENT_LOOP_ROLLED_BACK`. -/
def agentContextRollback (m : Memory) (keepNodes now : ℕ) : ContextState × Memory × ℤ :=
  if c.contextNodeCount < keepNodes then (c, m, -1)
  else if keepNodes = 0 then
    let r := c.agentContextClear m now
    (r.1, r.2, 0)
  else
    let r := c.writeBegin m now
    if r.2.2 = false then (r.1, r.2.1, -1)
    else
      let c := { r.1.dropPending with
        contextPathLen := r.1.contextOffsets (keepNodes - 1) + r.1.contextLengths (keepNodes - 1)
        contextNodeCount := keepNodes
        contextNextSequence := (r.1.contextFirstSequence + keepNodes) % 2 ^ 64
        contextDeps := fun i => if keepNodes ≤ i ∧ i < agentContextMaxNodes then
          AgentContextDep.zero else r.1.contextDeps i
        contextDigests := fun _ => AgentContextDigest.zero
        contextDigestHead := 0
        contextDigestCount := 0 }
      let t := c.syncHeader r.2.1 now
      (t.1, t.2.1, if t.2.2 then 0 else -1)

end ContextState

/-! ### `agent_mark_current` -/

/-- The workflow sections of `agent_mark_current`, on the global state each of them finds; the
second result is false where it returns -1. -/
def markWorkflow (p : Proc) (type : ℤ) (g g' : AgentGlobal) : Membership × Bool :=
  let own (m : Membership) (leader : Bool) : Membership :=
    let m := { m with
      workflowId := p.pid
      workflowLeaderPid := p.pid
      workflowLeaderGeneration := p.ident.identityGeneration
      isWorkflowLeader := leader }
    if m.workflowMemberRegistered then m
    else { m with workflowMemberRegistered := (agentWorkflowCreate g' m).2 == agentToolOk }
  if type = agentTypePrimary then (own (agentWorkflowLeave g p.wf).2 true, true)
  else
    let m := { p.wf with isWorkflowLeader := false }
    if m.outside then (own m false, true)
    else if m.workflowMemberRegistered then (m, true)
    else if (agentWorkflowJoin g' m).2 = agentToolOk then
      ({ m with workflowMemberRegistered := true }, true)
    else (m, false)

/-- What `agent_mark_current` reads besides the process: its arguments, whether `uvmalloc`
succeeds, a new identity generation, the clock, and the workflow table at its two sections. -/
structure MarkArgs where
  type : ℤ
  heartbeatInterval : ℤ
  resourceQuota : ℕ
  uvmalloc : Bool
  generation : ℕ
  now : ℕ
  atLeave : AgentGlobal
  atJoin : AgentGlobal

/-- `agent_mark_current`, less the wheel. -/
def agentMarkCurrent (p : Proc) (m : Memory) (a : MarkArgs) : Proc × Memory × ℤ :=
  if p.ctx.contextRegionStart = 0 ∧ a.uvmalloc = false then (p, m, -1)
  else
    let grown := markRegion p
    let m := if p.ctx.contextRegionStart = 0 then
        (m.uvmalloc p.sz grown.sz).uvmclear
          (grown.ctx.contextRegionStart + agentContextRegionSize)
      else m
    let p := if p.ctx.contextRegionStart = 0 then grown else p
    let p := markStores p (markType a.type) a.heartbeatInterval a.resourceQuota a.generation
      a.now a.now
    let w := markWorkflow p (markType a.type) a.atLeave a.atJoin
    let p := { p with wf := w.1 }
    if w.2 = false then (p, m, -1)
    else
      let p := markContext p
      let r := p.ctx.agentContextClear m a.now
      ({ p with ctx := r.1 }, r.2, r.1.contextRegionStart)

/-! ### The machine -/

/-- A process and its user memory. -/
structure ContextRun where
  proc : Proc
  mem : Memory

inductive ContextLabel
  | mark (a : MarkArgs)
  | push (node : AgentContextNode) (now : ℕ)
  | rollback (keepNodes now : ℕ)
  | clear (now : ℕ)

namespace ContextRun

variable (s : ContextRun)

/-- A call that works on the Context only. -/
def setCtx (c : ContextState) (m : Memory) : ContextRun := ⟨{ s.proc with ctx := c }, m⟩

/-- One call; `none` if it never ends. -/
def next : ContextLabel → Option ContextRun
  | .mark a => some ⟨(agentMarkCurrent s.proc s.mem a).1, (agentMarkCurrent s.proc s.mem a).2.1⟩
  | .push node now =>
    (s.proc.ctx.agentContextPushNode s.mem node now).map fun r => s.setCtx r.1 r.2.1
  | .rollback k now =>
    let r := s.proc.ctx.agentContextRollback s.mem k now
    let t := s.setCtx r.1 r.2.1
    if s.proc.ctx.contextNodeCount < k ∨ k = 0 ∨ (s.proc.ctx.writeBegin s.mem now).2.2 = false then
      some t
    else some { t with proc.loop.loopState := agentLoopRolledBack }
  | .clear now =>
    let r := s.proc.ctx.agentContextClear s.mem now
    some (s.setCtx r.1 r.2)

/-- Both pages of the region are the user's. -/
def RegionMapped (c : ContextState) (m : Memory) : Prop :=
  c.contextRegionStart % pgsize = 0 ∧ c.contextRegionSize = agentContextRegionSize ∧
    ∀ g, c.contextRegionStart / pgsize ≤ g →
      g < c.contextRegionStart / pgsize + agentContextRegionSize / pgsize →
      m.user g = true ∧ m.writable g = true

/-- An empty Context: that of a new process, of a child after `fork`, which has the region of
its parent, or of a process after `exec`. -/
def init : Prop :=
  s.proc.ctx.contextPathLen = 0 ∧ s.proc.ctx.contextNodeCount = 0 ∧
    s.proc.ctx.contextDroppedNodes = 0 ∧ s.proc.ctx.contextFirstSequence = 0 ∧
    s.proc.ctx.contextNextSequence = 1 ∧
    (s.proc.ctx.contextRegionStart ≠ 0 → RegionMapped s.proc.ctx s.mem)

end ContextRun

/-- **The machine of Context calls** of one process. -/
def contextMachine : Machine ContextRun ContextLabel := ⟨ContextRun.init, ContextRun.next⟩

end AgentOS
