import AgentOS.Model.Context

/-!
# The trusted Context

`agent_context_digest_verify`, and a process between its Context calls: it stores where its
pages let it, moves its break, forks and executes programs. Two lists record what the kernel
did, and no call reads them: the text of each live node, and each push whose digest entered
the ring since the ring was last emptied.
-/

namespace AgentOS

open Slice

/-! ### Verification -/

/-- The hash that `agent_context_digest_verify` computes again. -/
def AgentContextDigest.rehash (d : AgentContextDigest) : UInt64 :=
  ContextState.mix (ContextState.mix (ContextState.mix (ContextState.mix (ContextState.mix
    (ContextState.mix 14695981039346656037 d.sequence) d.requestId) d.requestHash)
    d.resultHash) d.previousHash) (UInt64.ofNat (d.status % 2 ^ 32).toNat)

/-- The loop of `agent_context_digest_verify` with `n` rounds to go; false where it returns -1. -/
def digestLoop (digests : Fin agentContextDigestMax → AgentContextDigest) (first : ℕ) :
    ℕ → ℕ → UInt64 → UInt64 → Bool
  | 0, _, _, _ => true
  | n + 1, i, expectedPrev, previousSequence =>
    let d := digests (Fin.ofNat agentContextDigestMax (first + i))
    if 0 < i ∧ d.previousHash ≠ expectedPrev then false
    else if 0 < i ∧ d.sequence ≠ previousSequence + 1 then false
    else if d.rehash ≠ d.currentHash then false
    else digestLoop digests first n (i + 1) d.currentHash d.sequence

/-- `agent_context_digest_verify`. -/
def agentContextDigestVerify (c : ContextState) : ℤ :=
  if agentContextDigestMax < c.contextDigestCount ∨ agentContextDigestMax ≤ c.contextDigestHead then
    -1
  else if c.contextDigestCount = 0 then 0
  else
    let first := if c.contextDigestHead < c.contextDigestCount then
        c.contextDigestHead + agentContextDigestMax - c.contextDigestCount
      else c.contextDigestHead - c.contextDigestCount
    if digestLoop c.contextDigests first c.contextDigestCount 0 0 0 then 0 else -1

/-! ### User memory between the calls -/

namespace Memory

/-- `uvmdealloc` from `oldsz` to `newsz`. -/
def uvmdealloc (m : Memory) (oldsz newsz : ℕ) : Memory :=
  { m with
    user := fun g => m.user g &&
      !(decide (pgroundup newsz ≤ g * pgsize) && decide (g * pgsize < pgroundup oldsz))
    writable := fun g => m.writable g &&
      !(decide (pgroundup newsz ≤ g * pgsize) && decide (g * pgsize < pgroundup oldsz)) }

/-- `growproc` on a process of size `sz`; `uvmalloc` says whether memory is left. -/
def growproc (m : Memory) (sz : ℕ) (n : ℤ) (uvmalloc : Bool) : ℕ × Memory :=
  if 0 < n then
    if uvmalloc then (sz + n.toNat, m.uvmalloc sz (sz + n.toNat)) else (sz, m)
  else
    let newsz := ((sz + n) % 2 ^ 64).toNat
    if sz ≤ newsz then (sz, m) else (newsz, m.uvmdealloc sz newsz)

end Memory

/-! ### A push, up to its digest -/

namespace ContextState

variable (c : ContextState) (m : Memory) (node : AgentContextNode) (now : ℕ)

/-- The push passes its checks and opens the header, so that it takes a sequence number. -/
def takesNumber : Bool :=
  let c := c.dropPending
  decide (c.contextRegionStart ≠ 0) &&
    decide (strlen (record c.contextNextSequence node) ≤ c.agentPathCapacity) &&
    (c.writeBegin m now).2.2

/-- It copies its record out as well, so that it records its digest. -/
def recorded : Bool :=
  let rec_ := record c.contextNextSequence node
  let r := c.dropPending.writeBegin m now
  let next := (r.1.contextNextSequence + 1) % 2 ^ 64
  let c' := { r.1 with contextNextSequence := if next = 0 then 1 else next }
  c.takesNumber m node now &&
    ((evictLoop (c'.contextNodeCount + 2) c' r.2.1 (strlen rec_)).map fun s =>
      (s.2.copyout (s.1.agentPathBase + s.1.contextPathLen) (cstr rec_)).2) == some true

end ContextState

/-! ### The machine -/

/-- A process, its user memory and the two lists: `records` holds the text of the live nodes,
`pushed` the sequence and node of each digest pushed since the ring was last emptied. -/
structure TrustedRun where
  proc : Proc
  mem : Memory
  records : List (List UInt8)
  pushed : List (ℕ × AgentContextNode)

inductive TrustedLabel
  | mark (a : MarkArgs)
  | push (node : AgentContextNode) (now : ℕ)
  | rollback (keepNodes now : ℕ)
  | clear (now : ℕ)
  | query (dst len : ℕ)
  | fork (child : Proc) (generation : ℕ)
  | exec (m : Memory) (sz : ℕ)
  | store (va : ℕ) (bytes : List UInt8)
  | sbrk (n : ℤ) (uvmalloc : Bool)

namespace TrustedRun

variable (s : TrustedRun)

/-- A call that works on the Context: the live nodes are the newest of `records`. -/
def setCtx (c : ContextState) (m : Memory) (records : List (List UInt8))
    (pushed : List (ℕ × AgentContextNode)) : TrustedRun :=
  { proc := { s.proc with ctx := c }
    mem := m
    records := records.drop (records.length - c.contextNodeCount)
    pushed := pushed }

/-- One step; `none` where the process cannot take it, or it never ends. A fork goes on in the
child. A store is a user-mode store or a copy of the kernel into a user buffer. -/
def next : TrustedLabel → Option TrustedRun
  | .mark a =>
    let r := agentMarkCurrent s.proc s.mem a
    if r.2.2 = -1 then some { s with proc := r.1, mem := r.2.1 }
    else some ⟨r.1, r.2.1, [], []⟩
  | .push node now =>
    let sequence := s.proc.ctx.contextNextSequence
    (s.proc.ctx.agentContextPushNode s.mem node now).map fun r =>
      if s.proc.ctx.recorded s.mem node now then
        s.setCtx r.1 r.2.1 (s.records ++ [cstr (ContextState.record sequence node)])
          (s.pushed ++ [(sequence, node)])
      else s.setCtx r.1 r.2.1 s.records s.pushed
  | .rollback k now =>
    let r := s.proc.ctx.agentContextRollback s.mem k now
    if s.proc.ctx.contextNodeCount < k then some (s.setCtx r.1 r.2.1 s.records s.pushed)
    else if k = 0 then some (s.setCtx r.1 r.2.1 [] [])
    else if (s.proc.ctx.writeBegin s.mem now).2.2 = false then
      some (s.setCtx r.1 r.2.1 s.records s.pushed)
    else
      let t := s.setCtx r.1 r.2.1 (s.records.take k) []
      some { t with proc.loop.loopState := agentLoopRolledBack }
  | .clear now =>
    let r := s.proc.ctx.agentContextClear s.mem now
    some (s.setCtx r.1 r.2 [] [])
  | .query dst len =>
    let r := s.proc.ctx.agentContextQuery s.mem dst len
    some (s.setCtx r.1 r.2.1 s.records s.pushed)
  | .fork child generation =>
    some ⟨agentAfterFork { child with sz := s.proc.sz } s.proc generation, s.mem, [], []⟩
  | .exec m sz => some ⟨agentAfterExec { s.proc with sz := sz }, m, [], []⟩
  | .store va bytes =>
    let w := s.mem.copyout va bytes
    if w.2 then some { s with mem := w.1 } else none
  | .sbrk n uvmalloc =>
    let r := s.mem.growproc s.proc.sz n uvmalloc
    some { s with proc.sz := r.1, mem := r.2 }

/-- A new process: no region, an empty ring. -/
def init : Prop :=
  s.proc.ctx = ContextState.init ∧ s.records = [] ∧ s.pushed = []

end TrustedRun

/-- **The machine of a process with its memory.** -/
def trustedMachine : Machine TrustedRun TrustedLabel := ⟨TrustedRun.init, TrustedRun.next⟩

end AgentOS
