import AgentOS.Lib.Transition
import AgentOS.Model.Disk
import AgentOS.Model.Param

/-!
# The log

`kernel/log.c` over the buffer cache and the disk, with processes that run file system operations
at the same time. The sections between two sleeps of `begin_op`, `log_write` and `end_op` are one
step; the `bwrite`s of `commit` and of `recover_from_log` are two steps each, one a sector, and the
machine may crash before and after every step. Between `bread` and `brelse` an operation holds its
buffer, so that its change of a block, `log_write` included, is one step. Where the kernel panics
there is no step.
-/

namespace AgentOS

/-- `MAXOPBLOCKS`. -/
def maxopblocks : ℕ := 10

/-- `LOGSIZE`. -/
def logsize : ℕ := maxopblocks * 3

/-! ### The header block -/

/-- `n` of `struct logheader`, an `int`. -/
def headN (b : Block) : ℤ := (BitVec.ofNat 32 (Words.get b 0)).toInt

/-- `block[0]` to `block[n - 1]`. -/
def headBlocks (b : Block) : List ℕ :=
  (List.range (headN b).toNat).map fun i => Words.get b (Fin.ofNat 256 (i + 1))

/-- The stores of `write_head` to `block[i]`, `block[i + 1]` and so on. -/
def putBlocks (b : Block) : ℕ → List ℕ → Block
  | _, [] => b
  | i, x :: l => putBlocks (Words.set b (Fin.ofNat 256 (i + 1)) x) (i + 1) l

/-- The header block after the stores of `write_head`. -/
def headBlock (b : Block) (l : List ℕ) : Block := putBlocks (Words.set b 0 l.length) 0 l

/-! ### State -/

/-- The `bwrite`s of `commit`: of `write_log`, `write_head`, `install_trans` and the `write_head`
that erases the transaction. Recovery makes the last two. -/
inductive LogWrite
  | log (tail : ℕ)
  | head
  | install (tail : ℕ)
  | clear
  deriving DecidableEq, Repr

/-- Where a process is. -/
inductive LogCall
  | user
  /-- In `begin_op`, about to look at the log, or asleep on it. -/
  | begin
  | asleep
  /-- Between `begin_op` and `end_op`, with the blocks it has passed to `log_write`. -/
  | op (wrote : List ℕ)
  /-- In `commit`, before the end of a `bwrite`, and behind it. -/
  | commit (w : LogWrite)
  | committed
  deriving DecidableEq, Repr

/-- Is the machine off, in `initlog`, or up? -/
inductive LogPhase
  | off
  | recovering (w : LogWrite)
  | running
  deriving DecidableEq, Repr

/-- The disk, the buffer cache and `struct log`, whose header is the list of its blocks. -/
structure LogState where
  disk : ℕ → Block
  /-- The data of a block that is in the cache. -/
  cache : ℕ → Option Block
  /-- The references by `bpin`. -/
  pins : ℕ → ℕ
  /-- The buffer that `bwrite` holds, with the sector that is already on the disk. -/
  half : Option (ℕ × Sector)
  outstanding : ℕ
  committing : Bool
  blocks : List ℕ
  phase : LogPhase
  calls : Slot → LogCall

inductive LogLabel
  /-- `begin_op`, and a round of its loop. -/
  | begin (j : Slot)
  | look (j : Slot)
  /-- `kill` of a process that sleeps. -/
  | kill (j : Slot)
  /-- A block changed to `d` and passed to `log_write`. -/
  | write (j : Slot) (b : ℕ) (d : Block)
  | endOp (j : Slot)
  /-- A sector reaches the disk, in `commit` and in `initlog`. -/
  | disk (j : Slot) (k : Sector)
  | bootDisk (k : Sector)
  | finish (j : Slot)
  /-- The buffer cache reads a block, and recycles a buffer. -/
  | bread (b : ℕ)
  | recycle (b : ℕ)
  | crash
  | boot

namespace LogState

variable (sb : Superblock) (s : LogState) (j : Slot)

def goto (c : LogCall) : LogState := { s with calls := Function.update s.calls j c }

/-- What `bread` finds. -/
def bread (b : ℕ) : Block := (s.cache b).getD (s.disk b)

def setBuf (b : ℕ) (d : Block) : LogState := { s with cache := Function.update s.cache b (some d) }

def load (b : ℕ) : LogState := s.setBuf b (s.bread b)

/-- One sector of the buffer of block `b` reaches the disk. -/
def putSector (b : ℕ) (k : Sector) : LogState :=
  { s with disk := Function.update s.disk b (Block.sector k (s.bread b) (s.disk b)) }

/-- `wakeup(&log)`. -/
def wakeup : LogState :=
  { s with calls := fun j => if s.calls j = .asleep then .begin else s.calls j }

/-- The block that a `bwrite` is about. -/
def target : LogWrite → ℕ
  | .log tail => sb.logstart + tail + 1
  | .head => sb.logstart
  | .install tail => s.blocks.getD tail 0
  | .clear => sb.logstart

/-- The buffers are read, and the one to write is filled. -/
def fill : LogWrite → LogState
  | .log tail =>
    let src := s.blocks.getD tail 0
    (s.load src).setBuf (sb.logstart + tail + 1) (s.bread src)
  | .head | .clear => s.setBuf sb.logstart (headBlock (s.bread sb.logstart) s.blocks)
  | .install tail =>
    let src := sb.logstart + tail + 1
    (s.load src).setBuf (s.blocks.getD tail 0) (s.bread src)

/-- The next `bwrite` of `install_trans`, or of the `write_head` behind it. -/
def installNext (tail : ℕ) : LogWrite := if tail < s.blocks.length then .install tail else .clear

/-- `log.lh.n = 0` before the last `write_head`. -/
def enter : LogWrite → LogState
  | .clear => { s with blocks := [] }
  | _ => s

/-- `bunpin`. -/
def bunpin (b : ℕ) : LogState := { s with pins := Function.update s.pins b (s.pins b - 1) }

/-- Behind a `bwrite` of `commit`. -/
def advance : LogWrite → LogState
  | .log tail =>
    s.goto j (.commit (if tail + 1 < s.blocks.length then .log (tail + 1) else .head))
  | .head => (s.enter (s.installNext 0)).goto j (.commit (s.installNext 0))
  | .install tail =>
    let t := s.bunpin (s.blocks.getD tail 0)
    (t.enter (s.installNext (tail + 1))).goto j (.commit (s.installNext (tail + 1)))
  | .clear => s.goto j .committed

/-- `recover_from_log`, before entry `tail` of `install_trans`. -/
def recover (tail : ℕ) : LogState :=
  { s.enter (s.installNext tail) with phase := .recovering (s.installNext tail) }

/-- Behind a `bwrite` of `recover_from_log`. -/
def advanceBoot : LogWrite → LogState
  | .install tail => s.recover (tail + 1)
  | _ => { s with phase := .running }

/-- A sector of the `bwrite` `w` reaches the disk; `after` is what follows the second one. -/
def bwrite (w : LogWrite) (k : Sector) (after : LogState → LogState) : Option LogState :=
  match s.half with
  | none => some { (s.fill sb w).putSector (s.target sb w) k with half := some (s.target sb w, k) }
  | some (b, k') => if k' = k then none else some (after { s.putSector b k with half := none })

/-- `log_write`, with the change of the buffer before it. -/
def logWrite (b : ℕ) (d : Block) : Option LogState :=
  if logsize ≤ s.blocks.length ∨ sb.nlog - 1 ≤ s.blocks.length then none
  else if s.outstanding < 1 then none
  else if b ∈ s.blocks then some (s.setBuf b d)
  else
    some { s.setBuf b d with
      blocks := s.blocks ++ [b]
      pins := Function.update s.pins b (s.pins b + 1) }

/-- The memory is lost. -/
def crash : LogState where
  disk := s.disk
  cache := fun _ => none
  pins := fun _ => 0
  half := none
  outstanding := 0
  committing := false
  blocks := []
  phase := .off
  calls := fun _ => .user

/-- `read_head` of `recover_from_log`; `none` where it stores behind `block[]`. -/
def boot : Option LogState :=
  let b := s.bread sb.logstart
  if logsize < headN b then none
  else some ({ s.load sb.logstart with blocks := headBlocks b }.recover 0)

/-- The rounds of a process that is up. -/
def step : LogLabel → Option LogState
  | .begin j => if s.calls j = .user then some (s.goto j .begin) else none
  | .look j =>
    if s.calls j = .begin then
      if s.committing then some (s.goto j .asleep)
      else if logsize < s.blocks.length + (s.outstanding + 1) * maxopblocks then
        some (s.goto j .asleep)
      else some ({ s with outstanding := s.outstanding + 1 }.goto j (.op []))
    else none
  | .kill j => if s.calls j = .asleep then some (s.goto j .begin) else none
  | .write j b d =>
    match s.calls j with
    | .op wrote => (s.logWrite sb b d).map fun t => t.goto j (.op (wrote.insert b))
    | _ => none
  | .endOp j =>
    match s.calls j with
    | .op _ =>
      if s.committing then none
      else if s.outstanding - 1 = 0 then
        some ({ s with outstanding := 0, committing := true }.goto j
          (if 0 < s.blocks.length then .commit (.log 0) else .committed))
      else some ({ s with outstanding := s.outstanding - 1 }.wakeup.goto j .user)
    | _ => none
  | .disk j k =>
    match s.calls j with
    | .commit w => s.bwrite sb w k fun t => t.advance j w
    | _ => none
  | .finish j =>
    if s.calls j = .committed then some ({ s with committing := false }.wakeup.goto j .user)
    else none
  | .bread b => some (s.load b)
  | .recycle b =>
    if s.pins b = 0 ∧ ∀ x ∈ s.half, x.1 ≠ b then
      some { s with cache := Function.update s.cache b none }
    else none
  | _ => none

/-- One step. -/
def next (l : LogLabel) : Option LogState :=
  match s.phase, l with
  | .off, .boot => s.boot sb
  | .off, _ => none
  | _, .crash => some s.crash
  | .recovering w, .bootDisk k => s.bwrite sb w k fun t => t.advanceBoot w
  | .recovering _, _ => none
  | .running, l => s.step sb l

/-- As `mkfs` leaves the disk, with the machine off: the header of the log is zero. -/
def init : Prop := (∃ d, s = crash d) ∧ s.disk sb.logstart = Block.zero

end LogState

/-- **The machine of the log.** -/
def logMachine (sb : Superblock) : Machine LogState LogLabel :=
  ⟨LogState.init sb, LogState.next sb⟩

/-! ### What it is for -/

/-- Block contents that a crash does not touch, and as the processes see them; and which processes
are in an operation. -/
structure Journal where
  stable : ℕ → Block
  current : ℕ → Block
  inOp : Slot → Bool

inductive JournalEvent
  | begin (j : Slot)
  | write (j : Slot) (b : ℕ) (d : Block)
  | endOp (j : Slot)
  /-- What all operations have written becomes stable, at once. -/
  | commit
  /-- The last `end_op` returns. -/
  | finish
  | crash

def JournalEvent.isCommit : JournalEvent → Bool
  | .commit => true
  | _ => false

open Classical in
/-- A step of the journal on the blocks of `home`. Only whole operations are committed, and when
the last `end_op` returns everything is stable. -/
noncomputable def Journal.next (home : ℕ → Prop) (σ : Journal) : JournalEvent → Option Journal
  | .begin j => if σ.inOp j then none else some { σ with inOp := Function.update σ.inOp j true }
  | .write j b d =>
    if σ.inOp j then some { σ with current := Function.update σ.current b d } else none
  | .endOp j => if σ.inOp j then some { σ with inOp := Function.update σ.inOp j false } else none
  | .commit => if ∀ j, σ.inOp j = false then some { σ with stable := σ.current } else none
  | .finish => if ∀ b, home b → σ.current b = σ.stable b then some σ else none
  | .crash => some { σ with current := σ.stable, inOp := fun _ => false }

/-- **The machine of the journal.** -/
noncomputable def journalMachine (home : ℕ → Prop) : Machine Journal JournalEvent :=
  ⟨fun σ => σ.current = σ.stable ∧ ∀ j, σ.inOp j = false, Journal.next home⟩

/-- What the callers of `log_write` promise: the block is not one of the log. -/
def LogState.HomeWrites (sb : Superblock) (_ : LogState) : LogLabel → Prop
  | .write _ b _ => sb.Home b ∧ b < 2 ^ 32
  | _ => True

instance (sb : Superblock) (s : LogState) (a : LogLabel) : Decidable (s.HomeWrites sb a) := by
  cases a <;> unfold LogState.HomeWrites <;> infer_instance

/-- And `MAXOPBLOCKS`: an operation passes no more blocks than that to `log_write`. -/
def LogState.Reserved (sb : Superblock) (s : LogState) (a : LogLabel) : Prop :=
  s.HomeWrites sb a ∧
    match a with
    | .write j b _ =>
      match s.calls j with
      | .op wrote => (wrote.insert b).length ≤ maxopblocks
      | _ => True
    | _ => True

/-- What a step of the log is to the journal, the commit apart. -/
def LogState.event (s : LogState) : LogLabel → Option JournalEvent
  | .look j =>
    if s.committing ∨ logsize < s.blocks.length + (s.outstanding + 1) * maxopblocks then none
    else some (.begin j)
  | .write j b d => some (.write j b d)
  | .endOp j => some (.endOp j)
  | .finish _ => some .finish
  | .crash => some .crash
  | _ => none

/-- The events of a run. -/
def LogState.events (sb : Superblock) (s : LogState) : List LogLabel → List JournalEvent
  | [] => []
  | a :: tr => (s.event a).toList ++ ((s.next sb a).map fun t => t.events sb tr).getD []

end AgentOS
