import Mathlib.Data.Nat.Digits.Defs
import AgentOS.Model.Context

/-!
# The published header

A family of processes that work on their Contexts, call tools, fork, execute programs and
create themselves as Agents, each with its own user memory; `fork` copies the memory and
resets the PCB. A process is between two calls in every state. `HeaderAgrees` says that the
header in its memory shows what its PCB has.
-/

namespace AgentOS

open Slice

/-- An unsigned integer from its bytes, lowest first. -/
def fromLittleEndian (bytes : List UInt8) : ℕ := Nat.ofDigits 256 (bytes.map UInt8.toNat)

/-- The `i`-th `uint64` of the header that starts at `start`; four `uint32` come before them. -/
def headerField (m : Memory) (start i : ℕ) : ℕ :=
  fromLittleEndian (slice m.byte (start + (4 * 4 + 8 * i)) 8)

/-- **The header agrees with the PCB**: an even generation, and the five counts that
`agent_info` reports. -/
structure HeaderAgrees (c : ContextState) (m : Memory) : Prop where
  generation : headerField m c.contextRegionStart 5 % 2 = 0
  pathLength : headerField m c.contextRegionStart 2 = c.contextPathLen % 2 ^ 64
  nodeCount : headerField m c.contextRegionStart 3 = c.contextNodeCount % 2 ^ 64
  droppedNodes : headerField m c.contextRegionStart 4 = c.contextDroppedNodes % 2 ^ 64
  firstSequence : headerField m c.contextRegionStart 6 = c.contextFirstSequence % 2 ^ 64
  nextSequence : headerField m c.contextRegionStart 7 = c.contextNextSequence % 2 ^ 64

/-! ### The machine -/

/-- The processes; `none` where there is none. -/
abbrev HeaderState := Slot → Option ContextRun

inductive HeaderLabel
  | call (i : Slot) (a : ContextLabel)
  | query (i : Slot) (dst len : ℕ)
  | depend (i : Slot) (dev inum version : ℕ)
  | respond (i : Slot) (va : ℕ) (bytes : List UInt8)
  | fork (i j : Slot) (child : Proc) (generation : ℕ)
  | exec (i : Slot) (m : Memory) (sz : ℕ)
  | exit (i : Slot)
  | other (i : Slot) (p : Proc)

namespace HeaderState

variable (s : HeaderState) (i : Slot)

def set (x : ContextRun) : HeaderState := Function.update s i (some x)

/-- One call. `respond` is a copy of the kernel into a user buffer, such as the response of a
tool; `depend` is `read_file`, which leaves a dependency for the next node. -/
def next : HeaderLabel → Option HeaderState
  | .call i a => (s i).bind fun x => (x.next a).map fun y => s.set i y
  | .query i dst len => (s i).map fun x =>
    let r := x.proc.ctx.agentContextQuery x.mem dst len
    s.set i (x.setCtx r.1 r.2.1)
  | .depend i dev inum version => (s i).map fun x =>
    s.set i { x with
      proc.ctx.pendingContextDep := true
      proc.ctx.pendingContextDev := dev
      proc.ctx.pendingContextInum := inum
      proc.ctx.pendingContextVersion := version }
  | .respond i va bytes => (s i).map fun x => s.set i { x with mem := (x.mem.copyout va bytes).1 }
  | .fork i j child generation =>
    match s i, s j with
    | some x, none =>
      some (s.set j ⟨agentAfterFork { child with sz := x.proc.sz } x.proc generation, x.mem⟩)
    | _, _ => none
  | .exec i m sz => (s i).map fun x => s.set i ⟨agentAfterExec { x.proc with sz := sz }, m⟩
  | .exit i => (s i).map fun _ => Function.update s i none
  | .other i p => (s i).map fun x => s.set i { x with proc := { p with ctx := x.proc.ctx } }

/-- Nobody has a Context region. -/
def init : Prop := ∀ i x, s i = some x → x.proc.ctx.contextRegionStart = 0

end HeaderState

/-- **The machine of processes and their headers.** -/
def headerMachine : Machine HeaderState HeaderLabel := ⟨HeaderState.init, HeaderState.next⟩

end AgentOS
