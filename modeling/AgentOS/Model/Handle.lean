import AgentOS.Model.Trusted
import AgentOS.Model.Version

/-!
# Context handles

A process that hands out the sequence numbers of its Context nodes: the calls that work on the
Context, those that change the user memory below it, and the file versions, which other
processes change. Two lists record what no call reads: the numbers of the live nodes, oldest
first, and the numbers of the nodes that are gone.
-/

namespace AgentOS

/-- A process, its user memory, the version table, and the numbers of its nodes. -/
structure HandleRun where
  proc : Proc
  mem : Memory
  versions : FileVersions
  live : List ℕ
  removed : List ℕ

inductive HandleLabel
  | mark (a : MarkArgs)
  | push (node : AgentContextNode) (now : ℕ)
  | rollback (keepNodes now : ℕ)
  | clear (now : ℕ)
  | query (dst len : ℕ)
  | depend (dev inum version : ℕ)
  | validate (sequence : ℕ)
  | exec (m : Memory) (sz : ℕ)
  | store (va : ℕ) (bytes : List UInt8)
  | sbrk (n : ℤ) (uvmalloc : Bool)
  | files (t : FileVersions)
  | other (p : Proc)

namespace HandleRun

variable (s : HandleRun)

/-- A call that drops the newest nodes, down to the count it leaves. -/
def keepOldest (p : Proc) (m : Memory) : HandleRun :=
  { s with
    proc := p
    mem := m
    live := s.live.take p.ctx.contextNodeCount
    removed := s.removed ++ s.live.drop p.ctx.contextNodeCount }

/-- A push: of the nodes `nodes` it drops the oldest. -/
def keepNewest (c : ContextState) (m : Memory) (nodes : List ℕ) : HandleRun :=
  { s with
    proc := { s.proc with ctx := c }
    mem := m
    live := nodes.drop (nodes.length - c.contextNodeCount)
    removed := s.removed ++ nodes.take (nodes.length - c.contextNodeCount) }

/-- One step; `none` where the process cannot take it, or it never ends. A store is a user-mode
store or a copy of the kernel into a user buffer; `depend` is `read_file`, which leaves a
dependency for the next node. -/
def next : HandleLabel → Option HandleRun
  | .mark a =>
    let r := agentMarkCurrent s.proc s.mem a
    some (s.keepOldest r.1 r.2.1)
  | .push node now =>
    let sequence := s.proc.ctx.contextNextSequence
    (s.proc.ctx.agentContextPushNode s.mem node now).map fun r =>
      s.keepNewest r.1 r.2.1
        (if s.proc.ctx.recorded s.mem node now then s.live ++ [sequence] else s.live)
  | .rollback k now =>
    let r := s.proc.ctx.agentContextRollback s.mem k now
    let t := s.keepOldest { s.proc with ctx := r.1 } r.2.1
    if s.proc.ctx.contextNodeCount < k ∨ k = 0 ∨ (s.proc.ctx.writeBegin s.mem now).2.2 = false then
      some t
    else some { t with proc.loop.loopState := agentLoopRolledBack }
  | .clear now =>
    let r := s.proc.ctx.agentContextClear s.mem now
    some (s.keepOldest { s.proc with ctx := r.1 } r.2)
  | .query dst len =>
    let r := s.proc.ctx.agentContextQuery s.mem dst len
    some (s.keepOldest { s.proc with ctx := r.1 } r.2.1)
  | .depend dev inum version =>
    some { s with
      proc.ctx.pendingContextDep := true
      proc.ctx.pendingContextDev := dev
      proc.ctx.pendingContextInum := inum
      proc.ctx.pendingContextVersion := version }
  | .validate sequence =>
    some { s with versions := (agentContextValidate s.proc.ctx s.versions sequence).1 }
  | .exec m sz => some (s.keepOldest (agentAfterExec { s.proc with sz := sz }) m)
  | .store va bytes =>
    let w := s.mem.copyout va bytes
    if w.2 then some { s with mem := w.1 } else none
  | .sbrk n uvmalloc =>
    let r := s.mem.growproc s.proc.sz n uvmalloc
    some { s with proc.sz := r.1, mem := r.2 }
  | .files t => some { s with versions := t }
  | .other p => some { s with proc := { p with ctx := s.proc.ctx } }

/-- A process with an empty Context: a new one, or a child after `fork`, which has the region
of its parent. -/
def init : Prop :=
  s.proc.ctx.contextNodeCount = 0 ∧ s.proc.ctx.contextNextSequence = 1 ∧ s.live = [] ∧
    s.removed = []

end HandleRun

/-- **The machine of a process and its handles.** -/
def handleMachine : Machine HandleRun HandleLabel := ⟨HandleRun.init, HandleRun.next⟩

end AgentOS
