import AgentOS.Lib.TwoWay
import AgentOS.Lib.Outputs
import AgentOS.Model.Disk
import AgentOS.Model.Param
import Mathlib.Algebra.BigOperators.Fin

/-!
# The buffer cache

`kernel/bio.c` with the sleep locks of its buffers, as a machine of processes. `bget` is one section
under `bcache.lock` and the wait for the lock of the buffer; `brelse` gives the lock back before it
takes `bcache.lock`, so another process may run in between. The disk answers a request in one step.
The links `next` and `prev` are those of `bcache.head` at `none`.

Beside it are the blocks that the processes see: one cell for each block, owned by one process at a
time.
-/

namespace AgentOS

/-- `NBUF`. -/
def nbuf : ℕ := 30

instance : NeZero nbuf := ⟨by decide⟩

abbrev BufIndex := Fin nbuf

/-- A device and a block number. -/
abbrev BlockKey := ℕ × ℕ

/-- `struct buf`, with the process that holds its lock. -/
structure Buf where
  valid : Bool
  dev : ℕ
  blockno : ℕ
  lock : Option Slot
  refcnt : ℕ
  data : Block

def Buf.zero : Buf := ⟨false, 0, 0, none, 0, Block.zero⟩

def Buf.key (b : Buf) : BlockKey := (b.dev, b.blockno)

/-- Where a process is. -/
inductive BufCall
  | kernel
  /-- `bget`, in `acquiresleep`. -/
  | waiting (b : BufIndex)
  /-- `bread`, before the disk answers. -/
  | loading (b : BufIndex)
  /-- `brelse`, behind `releasesleep`. -/
  | releasing (b : BufIndex)
  deriving DecidableEq, Repr

/-- One step of a process. -/
inductive BufOp
  | bread (key : BlockKey)
  | acquired
  | loaded
  | store (b : BufIndex) (x : Block)
  | bwrite (b : BufIndex)
  | brelse (b : BufIndex)
  | released
  | bpin (b : BufIndex)
  | bunpin (b : BufIndex)

structure BufLabel where
  proc : Slot
  op : BufOp

/-- `bcache`, the disk, and where each process is. -/
structure BufCache where
  buf : BufIndex → Buf
  next : Option BufIndex → Option BufIndex
  prev : Option BufIndex → Option BufIndex
  disk : BlockKey → Block
  calls : Slot → BufCall

namespace BufCache

variable (s : BufCache) (j : Slot) (b : BufIndex)

def setBuf (x : Buf) : BufCache := { s with buf := Function.update s.buf b x }

def goto (c : BufCall) : BufCache := { s with calls := Function.update s.calls j c }

/-- `b->next->prev = b->prev; b->prev->next = b->next;`. -/
def unlink : BufCache :=
  { s with
    next := Function.update s.next (s.prev (some b)) (s.next (some b))
    prev := Function.update s.prev (s.next (some b)) (s.prev (some b)) }

/-- `b->next = bcache.head.next; b->prev = &bcache.head; bcache.head.next->prev = b;
bcache.head.next = b;`. -/
def pushFront : BufCache :=
  { s with
    next := Function.update (Function.update s.next (some b) (s.next none)) none (some b)
    prev := Function.update (Function.update s.prev (some b) none) (s.next none) (some b) }

/-- `binit`. -/
def binit (disk : BlockKey → Block) : BufCache :=
  (List.finRange nbuf).foldl pushFront
    { buf := fun _ => Buf.zero
      next := fun _ => none
      prev := fun _ => none
      disk := disk
      calls := fun _ => .kernel }

/-- The buffer of a block, from the most recently used. -/
def cached (key : BlockKey) : Option BufIndex :=
  (Chain.find (fun i => s.next (some i)) (fun i => (s.buf i).key = key) nbuf none (s.next none)).bind
    Prod.snd

/-- The least recently used buffer that is not in use. -/
def unused : Option BufIndex :=
  (Chain.find (fun i => s.prev (some i)) (fun i => (s.buf i).refcnt = 0) nbuf none (s.prev none)).bind
    Prod.snd

/-- `bget`, up to `acquiresleep`; `none` where it panics. -/
def bget (key : BlockKey) : Option (BufCache × BufIndex) :=
  match s.cached key with
  | some b => some (s.setBuf b { s.buf b with refcnt := (s.buf b).refcnt + 1 }, b)
  | none =>
    match s.unused with
    | some b =>
      some (s.setBuf b { s.buf b with
        dev := key.1
        blockno := key.2
        valid := false
        refcnt := 1 }, b)
    | none => none

/-- The last part of `brelse`. -/
def dropRef : BufCache :=
  let t := s.setBuf b { s.buf b with refcnt := (s.buf b).refcnt - 1 }
  if (t.buf b).refcnt = 0 then (t.unlink b).pushFront b else t

/-- One step; `none` where it cannot happen or the kernel panics. -/
def step (a : BufLabel) : Option BufCache :=
  let j := a.proc
  match a.op, s.calls j with
  | .bread key, .kernel => (s.bget key).map fun r => r.1.goto j (.waiting r.2)
  | .acquired, .waiting b =>
    if (s.buf b).lock = none then
      let t := s.setBuf b { s.buf b with lock := some j }
      some (t.goto j (if (s.buf b).valid then .kernel else .loading b))
    else none
  | .loaded, .loading b =>
    some ((s.setBuf b { s.buf b with
      data := s.disk (s.buf b).key
      valid := true }).goto j .kernel)
  | .store b x, .kernel =>
    if (s.buf b).lock = some j then some (s.setBuf b { s.buf b with data := x }) else none
  | .bwrite b, .kernel =>
    if (s.buf b).lock = some j then
      some { s with disk := Function.update s.disk (s.buf b).key (s.buf b).data }
    else none
  | .brelse b, .kernel =>
    if (s.buf b).lock = some j then
      some ((s.setBuf b { s.buf b with lock := none }).goto j (.releasing b))
    else none
  | .released, .releasing b => some ((s.dropRef b).goto j .kernel)
  | .bpin b, .kernel => some (s.setBuf b { s.buf b with refcnt := (s.buf b).refcnt + 1 })
  | .bunpin b, .kernel => some (s.setBuf b { s.buf b with refcnt := (s.buf b).refcnt - 1 })
  | _, _ => none

end BufCache

/-- **The buffer cache.** -/
def bufMachine : Machine BufCache BufLabel where
  init s := ∃ disk, s = .binit disk
  next := BufCache.step

/-! ### How its callers use it -/

/-- A process that waits for the lock of buffer `b`, or has given it back, uses `b`. -/
def BufCall.uses (c : BufCall) (b : BufIndex) : ℕ :=
  if c = .waiting b ∨ c = .releasing b then 1 else 0

namespace BufCache

variable (s : BufCache)

/-- The processes that wait for buffer `b`, hold it, or are about to drop it. -/
def users (b : BufIndex) : ℕ :=
  ∑ j, (s.calls j).uses b + if (s.buf b).lock = none then 0 else 1

/-- A reference of `bpin`. -/
def Pinned (b : BufIndex) : Prop := s.users b < (s.buf b).refcnt

instance (b : BufIndex) : Decidable (s.Pinned b) := inferInstanceAs (Decidable (_ < _))

/-- What the callers keep to: block numbers are of `ROOTDEV`, which is not 0; the holder of a buffer
pins and unpins it; and a buffer is given back pinned (`log_write`) or written. -/
def UsedWell (a : BufLabel) : Prop :=
  match a.op with
  | .bread key => key.1 ≠ 0
  | .bpin b => (s.buf b).lock = some a.proc
  | .bunpin b => (s.buf b).lock = some a.proc ∧ s.Pinned b
  | .brelse b => s.Pinned b ∨ (s.buf b).data = s.disk (s.buf b).key
  | _ => True

instance (a : BufLabel) : Decidable (s.UsedWell a) := by
  obtain ⟨j, op⟩ := a
  cases op <;> unfold UsedWell <;> infer_instance

end BufCache

/-! ### The blocks that the processes see -/

/-- What a process does with a block: it gets it and finds `x`, stores `x`, and gives it back. -/
inductive CellEvent
  | take (j : Slot) (key : BlockKey) (x : Block)
  | put (j : Slot) (key : BlockKey) (x : Block)
  | give (j : Slot) (key : BlockKey)

/-- The blocks, and which process has each. -/
structure Cells where
  current : BlockKey → Block
  owner : BlockKey → Option Slot

/-- **Cells with one owner at a time.** -/
def cellMachine : Machine Cells CellEvent where
  init σ := σ.owner = fun _ => none
  next σ e :=
    match e with
    | .take j key x =>
      if σ.owner key = none ∧ σ.current key = x then
        some { σ with owner := Function.update σ.owner key (some j) }
      else none
    | .put j key x =>
      if σ.owner key = some j then
        some { σ with current := Function.update σ.current key x }
      else none
    | .give j key =>
      if σ.owner key = some j then some { σ with owner := Function.update σ.owner key none }
      else none

/-- What a step shows of the blocks. -/
def BufCache.event (s : BufCache) (a : BufLabel) : List CellEvent :=
  match a.op, s.calls a.proc with
  | .acquired, .waiting b =>
    if (s.buf b).valid then [.take a.proc (s.buf b).key (s.buf b).data] else []
  | .loaded, .loading b => [.take a.proc (s.buf b).key (s.disk (s.buf b).key)]
  | .store b x, _ => [.put a.proc (s.buf b).key x]
  | .brelse b, _ => [.give a.proc (s.buf b).key]
  | _, _ => []

/-- The buffer whose last reference a step drops. -/
def BufCache.idle (s : BufCache) (a : BufLabel) : List BufIndex :=
  match a.op, s.calls a.proc with
  | .released, .releasing b => if (s.buf b).refcnt - 1 = 0 then [b] else []
  | _, _ => []

end AgentOS
