import AgentOS.Lib.Transition
import AgentOS.Model.Create

/-!
# Runs of the calls that write capabilities

The machine of processes that create themselves as Agents, set roles, cut
capabilities, fork, exec, call tools, exit and are reaped. A step is the section of the
call that writes `struct proc`; what the call does besides (its workflow, wheel and
Context sections, the effects of a tool) writes no field of `Ident` and is a step
`other`, which may change every other field of a live process.
-/

namespace AgentOS

/-- Does the process in this slot run calls? -/
def Proc.live (p : Proc) : Prop := p.state ≠ .unused ∧ p.state ≠ .zombie

instance (p : Proc) : Decidable p.live := inferInstanceAs (Decidable (_ ∧ _))

inductive CallLabel
  | create (i : Slot) (type heartbeatInterval : ℤ) (resourceQuota : ℕ) (uvmalloc : Bool)
      (now now' : ℕ)
  | roleSet (i : Slot) (role : ℤ)
  | capSet (i : Slot) (caps : BitVec 64)
  | fork (i j : Slot) (copied : Bool)
  | exec (i : Slot)
  | exit (i : Slot)
  | reap (i : Slot)
  | other (i : Slot) (p : Proc)

namespace Kernel

/-- `agent_mark_current` up to its stores; `none` if the region cannot be allocated. -/
def markCurrent (k : Kernel) (i : Slot) (type heartbeatInterval : ℤ) (resourceQuota : ℕ)
    (uvmalloc : Bool) (now now' : ℕ) : Option Kernel :=
  let p := k.procs i
  if p.ctx.contextRegionStart = 0 ∧ uvmalloc = false then none
  else
    let p := if p.ctx.contextRegionStart = 0 then markRegion p else p
    if p.ident.identityGeneration = 0 then
      let r := agentNextIdentity k.agentGlobal
      let p := markStores p (markType type) heartbeatInterval resourceQuota r.2 now now'
      some { k.setProc i p with agentGlobal := r.1 }
    else
      some (k.setProc i (markStores p (markType type) heartbeatInterval resourceQuota 0 now now'))

/-- `fork` of process `i` into the `UNUSED` slot `j`; `copied` is the success of the
allocations and of `uvmcopy`. -/
def forkInto (k : Kernel) (i j : Slot) (copied : Bool) : Kernel :=
  let np := allocprocAt (k.procs j) k.nextpid
  let k := { k with nextpid := k.nextpid + 1 }
  if copied then
    let r := agentNextIdentity k.agentGlobal
    let np := agentAfterFork { np with sz := (k.procs i).sz } (k.procs i) r.2
    { k.setProc j { np with state := .runnable, parent := some i } with agentGlobal := r.1 }
  else k.setProc j (freeproc np)

/-- One step of process `i`. -/
def callNext (k : Kernel) : CallLabel → Option Kernel
  | .create i type hb quota uvmalloc now now' =>
    if (k.procs i).live then some ((k.markCurrent i type hb quota uvmalloc now now').getD k)
    else none
  | .roleSet i role =>
    if (k.procs i).live then some (k.setProc i (agentProcRoleSet (k.procs i) role).1) else none
  | .capSet i caps =>
    if (k.procs i).live then some (k.setProc i (agentProcCapSet (k.procs i) caps).1) else none
  | .fork i j copied =>
    if (k.procs i).live ∧ (k.procs j).state = .unused then some (k.forkInto i j copied) else none
  | .exec i =>
    if (k.procs i).live then some (k.setProc i (agentAfterExec (k.procs i))) else none
  | .exit i =>
    if (k.procs i).live then some (k.setProc i { k.procs i with state := .zombie }) else none
  | .reap i =>
    if (k.procs i).state = .zombie then some (k.setProc i (freeproc (k.procs i))) else none
  | .other i p =>
    if (k.procs i).live ∧ p.live then
      some (k.setProc i { p with pid := (k.procs i).pid, ident := (k.procs i).ident })
    else none

end Kernel

/-- **The machine of calls.** At boot the table is empty but for one process, `init`, which
is no Agent. -/
def callMachine : Machine Kernel CallLabel where
  init k := ∃ i, k.nextpid = 2 ∧ (∀ j, j ≠ i → k.procs j = Proc.boot) ∧
    (k.procs i).pid = 1 ∧ (k.procs i).live ∧ (k.procs i).ident = Ident.init
  next := Kernel.callNext

end AgentOS
