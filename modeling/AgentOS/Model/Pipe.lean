import AgentOS.Lib.Outputs
import AgentOS.Lib.Ring
import AgentOS.Model.Param

/-!
# Pipes

`pipewrite`, `piperead` and `pipeclose` of `kernel/pipe.c` on one pipe, as a machine of processes. A
round of one of their loops is one step, taken with `pi->lock`; `sleep` gives the lock back, and a
process that is woken takes it again. Whether a process has been killed, and whether a page of its
memory faults, is read off the label of the round.
-/

namespace AgentOS

/-- `PIPESIZE`. -/
def pipesize : ℕ := 512

instance : NeZero pipesize := ⟨by decide⟩

/-- Where a process is. -/
inductive PipeCall
  | out
  /-- `pipewrite`, with `i` bytes written: about to take the lock, in the loop, asleep. -/
  | writeWait (src : List UInt8) (i : ℕ)
  | write (src : List UInt8) (i : ℕ)
  | writeSleep (src : List UInt8) (i : ℕ)
  /-- `piperead`: about to take the lock, in the first loop, asleep, in the second loop. -/
  | readWait (n : ℕ)
  | read (n : ℕ)
  | readSleep (n : ℕ)
  | copy (n i : ℕ)
  deriving DecidableEq, Repr

/-- One step of a process. -/
inductive PipeOp
  | pipewrite (src : List UInt8)
  | piperead (n : ℕ)
  | acquire
  | round (killed fault : Bool)
  | kill
  | pipeclose (writable : Bool)
  deriving DecidableEq, Repr

structure PipeLabel where
  proc : Slot
  op : PipeOp
  deriving DecidableEq, Repr

/-- `struct pipe`, and where each process is. -/
structure Pipe where
  data : Fin pipesize → UInt8
  nread : BitVec 32
  nwrite : BitVec 32
  readopen : Bool
  writeopen : Bool
  lock : Option Slot
  calls : Slot → PipeCall

namespace PipeCall

/-- `wakeup(&pi->nread)`. -/
def wakeReader : PipeCall → PipeCall
  | .readSleep n => .readWait n
  | c => c

/-- `wakeup(&pi->nwrite)`. -/
def wakeWriter : PipeCall → PipeCall
  | .writeSleep src i => .writeWait src i
  | c => c

/-- Asleep on `pi->nread`. -/
def ReaderAsleep : PipeCall → Prop
  | .readSleep _ => True
  | _ => False

/-- Asleep on `pi->nwrite`. -/
def WriterAsleep : PipeCall → Prop
  | .writeSleep _ _ => True
  | _ => False

/-- With the lock. -/
def Inside : PipeCall → Prop
  | .write _ _ | .read _ | .copy _ _ => True
  | _ => False

/-- In the loop of `pipewrite`, with the lock. -/
def Filling : PipeCall → Prop
  | .write _ _ => True
  | _ => False

/-- In the second loop of `piperead`, with the lock. -/
def Draining : PipeCall → Prop
  | .copy _ _ => True
  | _ => False

/-- In `pipewrite`. -/
def Writes : PipeCall → Prop
  | .writeWait _ _ | .write _ _ | .writeSleep _ _ => True
  | _ => False

/-- In `piperead`. -/
def Reads : PipeCall → Prop
  | .readWait _ | .read _ | .readSleep _ | .copy _ _ => True
  | _ => False

instance (c : PipeCall) : Decidable c.ReaderAsleep := by
  cases c <;> unfold ReaderAsleep <;> infer_instance

instance (c : PipeCall) : Decidable c.Writes := by
  cases c <;> unfold Writes <;> infer_instance

instance (c : PipeCall) : Decidable c.Reads := by
  cases c <;> unfold Reads <;> infer_instance

end PipeCall

namespace Pipe

variable (s : Pipe) (j : Slot)

def goto (c : PipeCall) : Pipe := { s with calls := Function.update s.calls j c }

def wakeReaders : Pipe := { s with calls := fun i => (s.calls i).wakeReader }

def wakeWriters : Pipe := { s with calls := fun i => (s.calls i).wakeWriter }

def release : Pipe := { s with lock := none }

/-- `pi->nwrite == pi->nread + PIPESIZE`. -/
def Full : Prop := s.nwrite = s.nread + BitVec.ofNat 32 pipesize

instance : Decidable s.Full := inferInstanceAs (Decidable (_ = _))

/-- `pi->data[pi->nwrite++ % PIPESIZE] = ch`. -/
def put (x : UInt8) : Pipe :=
  { s with
    data := Function.update s.data (Fin.ofNat pipesize s.nwrite.toNat) x
    nwrite := s.nwrite + 1 }

/-- `pi->data[pi->nread % PIPESIZE]`. -/
def front : UInt8 := s.data (Fin.ofNat pipesize s.nread.toNat)

/-- `pi->nread++`. -/
def pop : Pipe := { s with nread := s.nread + 1 }

/-- A round of the loop of `pipewrite`. -/
def writeRound (src : List UInt8) (i : ℕ) (killed fault : Bool) : Pipe :=
  if i < src.length then
    if s.readopen = false ∨ killed = true then s.release.goto j .out
    else if s.Full then s.wakeReaders.release.goto j (.writeSleep src i)
    else if fault then s.wakeReaders.release.goto j .out
    else (s.put (src.getD i 0)).goto j (.write src (i + 1))
  else s.wakeReaders.release.goto j .out

/-- A round of the first loop of `piperead`. -/
def readRound (n : ℕ) (killed : Bool) : Pipe :=
  if s.nread = s.nwrite ∧ s.writeopen = true then
    if killed then s.release.goto j .out else s.release.goto j (.readSleep n)
  else s.goto j (.copy n 0)

/-- A round of the second loop. -/
def copyRound (n i : ℕ) (fault : Bool) : Pipe :=
  if i < n ∧ s.nread ≠ s.nwrite then
    if fault then s.pop.wakeWriters.release.goto j .out else s.pop.goto j (.copy n (i + 1))
  else s.wakeWriters.release.goto j .out

/-- `pipeclose`, before it frees the pipe. -/
def close (writable : Bool) : Pipe :=
  if writable then { s with writeopen := false }.wakeReaders
  else { s with readopen := false }.wakeWriters

/-- One step; `none` where it cannot happen. -/
def step (a : PipeLabel) : Option Pipe :=
  let j := a.proc
  match a.op, s.calls j with
  | .pipewrite src, .out => some (s.goto j (.writeWait src 0))
  | .piperead n, .out => some (s.goto j (.readWait n))
  | .acquire, .writeWait src i =>
    if s.lock = none then some ({ s with lock := some j }.goto j (.write src i)) else none
  | .acquire, .readWait n =>
    if s.lock = none then some ({ s with lock := some j }.goto j (.read n)) else none
  | .round killed fault, .write src i => some (s.writeRound j src i killed fault)
  | .round killed _, .read n => some (s.readRound j n killed)
  | .round _ fault, .copy n i => some (s.copyRound j n i fault)
  | .kill, .writeSleep src i => some (s.goto j (.writeWait src i))
  | .kill, .readSleep n => some (s.goto j (.readWait n))
  | .pipeclose writable, .out => if s.lock = none then some (s.close writable) else none
  | _, _ => none

/-- `pipealloc`. -/
def pipealloc : Pipe where
  data _ := 0
  nread := 0
  nwrite := 0
  readopen := true
  writeopen := true
  lock := none
  calls _ := .out

end Pipe

/-- **A pipe.** -/
def pipeMachine : Machine Pipe PipeLabel where
  init s := s = .pipealloc
  next := Pipe.step

namespace Pipe

variable (s : Pipe)

/-- The bytes in the pipe, oldest first. -/
def contents : List UInt8 :=
  Ring.window s.data (Fin.ofNat pipesize s.nread.toNat) (s.nwrite - s.nread).toNat

/-- The byte that a step puts into the pipe. -/
def stored (a : PipeLabel) : List UInt8 :=
  match a.op, s.calls a.proc with
  | .round killed fault, .write src i =>
    if i < src.length ∧ s.readopen = true ∧ killed = false ∧ ¬s.Full ∧ fault = false then
      [src.getD i 0]
    else []
  | _, _ => []

/-- The byte that a step takes out of it, delivered or not. -/
def taken (a : PipeLabel) : List UInt8 :=
  match a.op, s.calls a.proc with
  | .round _ _, .copy n i => if i < n ∧ s.nread ≠ s.nwrite then [s.front] else []
  | _, _ => []

/-- How the callers use it: a process in a call holds a reference to its end, and the last reference
closes it. -/
def UsedWell (a : PipeLabel) : Prop :=
  match a.op with
  | .pipewrite _ => s.writeopen = true
  | .piperead _ => s.readopen = true
  | .pipeclose true => ∀ i, ¬(s.calls i).Writes
  | .pipeclose false => ∀ i, ¬(s.calls i).Reads
  | _ => True

/-- A writer finds out that it has been killed while the pipe holds bytes and a reader is asleep. -/
def Strands (a : PipeLabel) : Prop :=
  match a.op, s.calls a.proc with
  | .round true _, .write src i =>
    i < src.length ∧ s.nread ≠ s.nwrite ∧ ∃ k, (s.calls k).ReaderAsleep
  | _, _ => False

/-- A process asleep has a reason to be, or a process with the lock is about to wake it. -/
structure Justified : Prop where
  reader : ∀ k, (s.calls k).ReaderAsleep →
    s.nread = s.nwrite ∧ s.writeopen = true ∨ ∃ j, (s.calls j).Filling
  writer : ∀ k, (s.calls k).WriterAsleep →
    s.Full ∧ s.readopen = true ∨ ∃ j, (s.calls j).Draining

instance (a : PipeLabel) : Decidable (s.UsedWell a) := by
  obtain ⟨j, op⟩ := a
  cases op with
  | pipeclose writable => cases writable <;> unfold UsedWell <;> infer_instance
  | _ => unfold UsedWell; infer_instance

instance (a : PipeLabel) : Decidable (s.Strands a) := by
  unfold Strands
  split <;> infer_instance

end Pipe

end AgentOS
