import AgentOS.Lib.Table
import AgentOS.Lib.Transition
import AgentOS.Model.Create

/-!
# File edit leases

The lease table of `kernel/agent.c` and the machine of agents that take, commit and
abandon leases and write files. A step is one section under `agent_global.lock`; a
call that reads the clock before it takes the lock keeps that reading in its control
point, so the section may run late. Any process may write a file at any time: the
writers (`filewrite`, `tool_patch_file`) never look at the lease table.
-/

namespace AgentOS

/-- An inode: `(dev, inum)`. -/
abbrev Ino := ℕ × ℕ

/-- The process a lease belongs to: pid and identity generation. -/
abbrev Owner := ℕ × ℕ

def Proc.owner (p : Proc) : Owner := (p.pid, p.ident.identityGeneration)

def AgentEditLease.owner (l : AgentEditLease) : Owner := (l.ownerPid, l.ownerGeneration)

def AgentEditLease.ino (l : AgentEditLease) : Ino := (l.dev, l.inum)

/-- The capability check of `agent_proc_lease_begin`. -/
def leaseAllowed (p : Proc) : Prop :=
  p.ident.agentCapabilities &&& agentCapLeaseAcquire ≠ 0 ∨
    p.ident.agentCapabilities &&& agentCapPatchFile ≠ 0

instance (p : Proc) : Decidable (leaseAllowed p) := inferInstanceAs (Decidable (_ ∨ _))

/-- `agent_lease_reap_expired`. -/
def agentLeaseReapExpired (g : AgentGlobal) (now : ℕ) : AgentGlobal :=
  { g with leases :=
      Table.sweep g.leases (fun l => l.used && l.expiryTick ≤ now) AgentEditLease.zero }

/-- `agent_lease_reap_pid`. -/
def agentLeaseReapPid (g : AgentGlobal) (pid : ℕ) : AgentGlobal :=
  { g with leases :=
      Table.sweep g.leases (fun l => l.used && l.ownerPid == pid) AgentEditLease.zero }

/-- `agent_proc_lease_begin` under `agent_global.lock`, on a regular file: the return code,
and on success the lease id and the base version. -/
def agentProcLeaseBegin (g : AgentGlobal) (p : Proc) (ino : Ino) (now : ℕ) :
    AgentGlobal × Except ℤ (ℕ × ℕ) :=
  let g := agentLeaseReapExpired g now
  if (Table.first g.leases fun l => l.used && l.ino == ino && now < l.expiryTick).isSome then
    (g, .error agentToolErrBusy)
  else
    match Table.first g.leases fun l => !l.used with
    | none => (g, .error agentToolErrNoSpace)
    | some slot =>
      let id := (g.nextLeaseId + 1) % 2 ^ 64
      let lease : AgentEditLease :=
        { used := true, dev := ino.1, inum := ino.2, ownerPid := p.pid,
          ownerGeneration := p.ident.identityGeneration, leaseId := id, baseVersion := 0,
          expiryTick := now + agentLeaseExpiryTicks }
      ({ g with nextLeaseId := id, leases := Function.update g.leases slot lease },
        .ok (id, lease.baseVersion))

/-- `agent_proc_lease_commit`; `expectedVersion` is not looked at. -/
def agentProcLeaseCommit (g : AgentGlobal) (p : Proc) (leaseId _expectedVersion now : ℕ) :
    AgentGlobal × ℤ :=
  match Table.first g.leases fun l => l.used && l.leaseId == leaseId with
  | none => (g, agentToolErrPermission)
  | some slot =>
    if (g.leases slot).owner ≠ p.owner then (g, agentToolErrPermission)
    else if (g.leases slot).expiryTick ≤ now then (g, agentToolErrBadParam)
    else ({ g with leases := Function.update g.leases slot AgentEditLease.zero }, agentToolOk)

/-- `agent_proc_lease_abort`. -/
def agentProcLeaseAbort (g : AgentGlobal) (p : Proc) (leaseId : ℕ) : AgentGlobal × ℤ :=
  match Table.first g.leases fun l => l.used && l.leaseId == leaseId && l.owner == p.owner with
  | none => (g, agentToolErrPermission)
  | some slot =>
    ({ g with leases := Function.update g.leases slot AgentEditLease.zero }, agentToolOk)

/-! ### The machine -/

/-- In user mode, or past the reading of the clock. -/
inductive LeaseCall
  | user
  | begin (ino : Ino) (now : ℕ)
  | commit (leaseId expectedVersion now : ℕ)
  deriving DecidableEq, Repr

/-- A lease that was granted. -/
structure Grant where
  leaseId : ℕ
  ino : Ino
  owner : Owner
  deriving DecidableEq, Repr

/-- A write that happened, and whether the writer had a lease on the file. -/
structure Write where
  ino : Ino
  writer : Owner
  leased : Bool
  deriving DecidableEq, Repr

/-- Kernel, control points, file contents and two histories. -/
structure LeaseState where
  kernel : Kernel
  calls : Slot → LeaseCall
  content : Ino → List UInt8
  granted : List Grant
  written : List Write

inductive LeaseLabel
  | tick
  | begin (i : Slot) (file : Option Ino)
  | take (i : Slot)
  | commit (i : Slot) (leaseId expectedVersion : ℕ)
  | release (i : Slot)
  | abort (i : Slot) (leaseId : ℕ)
  | read (i : Slot) (ino : Ino)
  | write (i : Slot) (ino : Ino) (bytes : List UInt8)
  | reap (now : ℕ)
  | exit (i : Slot)
  | other (i : Slot) (p : Proc)

namespace LeaseState

variable (s : LeaseState) (i : Slot)

def proc : Proc := s.kernel.procs i

def goto (c : LeaseCall) : LeaseState := { s with calls := Function.update s.calls i c }

def setGlobal (g : AgentGlobal) : LeaseState :=
  { s with kernel := { s.kernel with agentGlobal := g } }

/-- Does process `i` have a lease on `ino` in the table? -/
def holds (ino : Ino) : Bool :=
  (Table.first s.kernel.agentGlobal.leases
    fun l => l.used && l.ino == ino && l.owner == (s.proc i).owner).isSome

/-- One section. -/
def next : LeaseLabel → Option LeaseState
  | .tick => some { s with kernel := { s.kernel with ticks := s.kernel.ticks + 1 } }
  -- capability check, `namei`, `ilock`; `file` is the regular file found, if any
  | .begin i file =>
    if s.calls i = .user then
      match file with
      | some ino =>
        if leaseAllowed (s.proc i) then some (s.goto i (.begin ino s.kernel.ticks)) else some s
      | none => some s
    else none
  | .take i =>
    match s.calls i with
    | .begin ino now =>
      let r := agentProcLeaseBegin s.kernel.agentGlobal (s.proc i) ino now
      let t := (s.goto i .user).setGlobal r.1
      match r.2 with
      | .ok (id, _) => some { t with granted := t.granted ++ [⟨id, ino, (s.proc i).owner⟩] }
      | .error _ => some t
    | _ => none
  | .commit i leaseId expectedVersion =>
    if s.calls i = .user then some (s.goto i (.commit leaseId expectedVersion s.kernel.ticks))
    else none
  | .release i =>
    match s.calls i with
    | .commit leaseId expectedVersion now =>
      let r := agentProcLeaseCommit s.kernel.agentGlobal (s.proc i) leaseId expectedVersion now
      some ((s.goto i .user).setGlobal r.1)
    | _ => none
  | .abort i leaseId =>
    if s.calls i = .user then
      some (s.setGlobal (agentProcLeaseAbort s.kernel.agentGlobal (s.proc i) leaseId).1)
    else none
  | .read i _ => if s.calls i = .user then some s else none
  | .write i ino bytes =>
    if s.calls i = .user then
      some { s with
        content := Function.update s.content ino bytes
        written := s.written ++ [⟨ino, (s.proc i).owner, s.holds i ino⟩] }
    else none
  -- `agent_tick(now)`, which may run late
  | .reap now =>
    if now ≤ s.kernel.ticks then
      some (s.setGlobal (agentLeaseReapExpired s.kernel.agentGlobal now))
    else none
  -- `agent_proc_exit`
  | .exit i => some (s.setGlobal (agentLeaseReapPid s.kernel.agentGlobal (s.proc i).pid))
  -- the rest of the kernel: any record of the process table may change
  | .other i p => some { s with kernel := s.kernel.setProc i p }

/-- At boot the lease table is empty. -/
def init : Prop :=
  s.kernel.agentGlobal = AgentGlobal.init ∧ (∀ i, s.calls i = .user) ∧ s.granted = [] ∧
    s.written = []

end LeaseState

/-- **The lease machine.** -/
def leaseMachine : Machine LeaseState LeaseLabel := ⟨LeaseState.init, LeaseState.next⟩

end AgentOS
