import AgentOS.Model.Lease

/-!
# Leases, pids and exits

The machine of `AgentOS.Model.Lease` with the life of the processes: a process that has run
`agent_proc_exit` makes no call any more, and its slot gets a new pid from `allocpid`. Exit is
reached from user mode only, so no lease call is under way then.
-/

namespace AgentOS

/-- The process that makes the step. -/
def LeaseLabel.slot : LeaseLabel → Option Slot
  | .tick | .reap _ => none
  | .begin i _ | .take i | .commit i _ _ | .release i | .abort i _ | .read i _ | .write i _ _
  | .exit i | .other i _ => some i

/-- The lease machine, the processes that have not exited, and the pids of those that have. -/
structure LeaseTable where
  base : LeaseState
  running : Slot → Bool
  exited : List ℕ

inductive LeaseTableLabel
  | step (l : LeaseLabel)
  | spawn (i : Slot) (p : Proc)

namespace LeaseTable

variable (w : LeaseTable)

def ticks : ℕ := w.base.kernel.ticks

def leases : Fin agentLeaseMax → AgentEditLease := w.base.kernel.agentGlobal.leases

/-- One section of a running process or of the clock. -/
def next : LeaseTableLabel → Option LeaseTable
  -- `agent_proc_exit`
  | .step (.exit i) =>
    if w.running i = true ∧ w.base.calls i = .user then
      (w.base.next (.exit i)).map fun b =>
        { base := b
          running := Function.update w.running i false
          exited := w.exited ++ [(w.base.proc i).pid] }
    else none
  -- the rest of the kernel does not change a pid
  | .step (.other i p) =>
    (w.base.next (.other i { p with pid := (w.base.proc i).pid })).map fun b => { w with base := b }
  | .step l =>
    if (l.slot.elim true w.running) = true then (w.base.next l).map fun b => { w with base := b }
    else none
  -- `allocproc`
  | .spawn i p =>
    if w.running i = false then
      let k := w.base.kernel.setProc i { p with pid := w.base.kernel.nextpid }
      some { w with
        base := { w.base.goto i .user with kernel := { k with nextpid := k.nextpid + 1 } }
        running := Function.update w.running i true }
    else none

/-- At boot the lease table is empty, nobody has exited, and running processes have distinct pids
below `nextpid`. -/
def init : Prop :=
  w.base.init ∧ w.exited = [] ∧
    (∀ i, w.running i = true → (w.base.proc i).pid < w.base.kernel.nextpid) ∧
    ∀ i j, w.running i = true → w.running j = true → (w.base.proc i).pid = (w.base.proc j).pid → i = j

end LeaseTable

/-- **The machine of leases, pids and exits.** -/
def leaseTableMachine : Machine LeaseTable LeaseTableLabel := ⟨LeaseTable.init, LeaseTable.next⟩

end AgentOS
