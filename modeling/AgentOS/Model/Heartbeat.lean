import AgentOS.Model.Authority
import AgentOS.Model.CreateCall
import AgentOS.Model.Wait

/-!
# The heartbeats of a run

`agent_tick` in one piece, and the machine of the calls that set, stop, use or lose a heartbeat,
each atomic: `agent_create`, the heartbeat, watch and wait calls, `agent_cascade_terminate`, `kill`,
`fork`, `exit` and the reaping of a zombie. `agent_proc_wait` runs up to its return or its sleep, and
a round of it when it has been woken. A process that was killed makes no further call: `usertrap`
sends it to `exit`.

`rest` is the rest of the kernel on one process (messages, notifications, tool and Context calls,
`exec`, the scheduler): `RestKeeps` lists what it leaves alone. A list that no call reads records the
ticks at which `agent_tick` has signalled the heartbeat of each process.
-/

namespace AgentOS

/-- A loop over `proc[]`. -/
def Kernel.each (k : Kernel) (f : Slot → Proc → Proc) : Kernel :=
  { k with procs := fun j => f j (k.procs j) }

/-! ### `agent_tick` -/

/-- `agent_tick` signals the heartbeat of this process, if it visits it. -/
def heartbeatDue (p : Proc) (now : ℕ) : Prop := heartbeatOn p ∧ p.hb.heartbeatDeadline ≤ now

instance (p : Proc) (now : ℕ) : Decidable (heartbeatDue p now) := inferInstanceAs (Decidable (_ ∧ _))

/-- The loop of `agent_tick` over the list that it has taken off the wheel: the kernel it leaves, and
the processes it has signalled, after those in `fired`. -/
def agentTickWalk (now : ℕ) :
    (fuel : ℕ) → Kernel → (current : ℕ) → (fired : List Slot) → Option (Kernel × List Slot)
  | 0, _, _, _ => none
  | fuel + 1, k, current, fired =>
    if current = 0 then some (k, fired)
    else
      match agentWheelProc current with
      | none => agentTickWalk now fuel k 0 fired
      | some j =>
        let g := k.agentGlobal
        let k := k.setGlobal { g with heartbeatTickScanned := g.heartbeatTickScanned + 1 }
        let next := (k.procs j).hb.heartbeatWheelNext
        let fired := if heartbeatDue (k.procs j) now then fired ++ [j] else fired
        (agentTickVisit k j now).bind fun k => agentTickWalk now fuel k next fired

/-- `agent_tick`. -/
def agentTick (k : Kernel) (now : ℕ) : Option (Kernel × List Slot) :=
  let k := k.each fun _ p => agentReplenishBudget p now
  let k := k.setGlobal (agentLeaseReapExpired k.agentGlobal now)
  (agentTickDetach k now).bind fun r =>
    (agentTickWalk now wheelFuel r.1 r.2 []).map fun w =>
      (w.1.each fun j p => agentTickTimeout j p now, w.2)

/-- `clockintr`. -/
def clockintr (k : Kernel) : Option (Kernel × List Slot) :=
  let now := (k.ticks + 1) % 2 ^ 32
  agentTick (({ k with ticks := now } : Kernel).each fun _ p => wakeupAt p .ticks) now

/-! ### Calls on several processes -/

/-- `agent_cascade_terminate` of process `i`. -/
def agentCascadeTerminate (k : Kernel) (i : Slot) (includeLeader : Bool) : Kernel :=
  if agentCascadeCheck (k.procs i) ≠ agentToolOk then k
  else
    let key := (k.procs i).wf.key
    let r := agentWorkflowBeginTerminate k.agentGlobal key k.ticks
    let k := k.setGlobal r.1
    if r.2 ≠ agentToolOk ∧ r.2 ≠ agentToolErrServiceGone then k
    else
      k.each fun j p =>
        if cascadeTarget p key (j == i) includeLeader then cascadeKill p k.ticks else p

/-- `exit`, with `agent_proc_exit`. -/
def agentExit (k : Kernel) (i : Slot) : Option Kernel :=
  let k := if (k.procs i).wf.isWorkflowLeader then agentCascadeTerminate k i false else k
  (agentHeartbeatWheelRemoveLocked k i).map fun k =>
    let p := k.procs i
    let r := agentWorkflowLeave (agentLeaseReapPid k.agentGlobal p.pid) p.wf
    (k.setGlobal r.1).setProc i { p with wf := r.2, state := .zombie }

/-- What the rest of the kernel leaves alone in a process; `waiting` if it is asleep in
`agent_proc_wait`. -/
def RestKeeps (waiting : Bool) (p q : Proc) : Prop :=
  q.hb = p.hb ∧ q.ident.agentType = p.ident.agentType ∧ q.killed = p.killed ∧
    (q.state = .unused ↔ p.state = .unused) ∧ (q.state = .zombie ↔ p.state = .zombie) ∧
    (q.loop.loopState = p.loop.loopState ∨ q.loop.loopState ≠ agentLoopDone) ∧
    q.loop.watchMask = p.loop.watchMask ∧ q.loop.waitDeadline = p.loop.waitDeadline ∧
    q.loop.pendingEvents &&& agentEventParentGone = p.loop.pendingEvents &&& agentEventParentGone ∧
    (0 ≤ p.mailbox.count → 0 ≤ q.mailbox.count) ∧
    (waiting = true → q.state = .sleeping → p.state = .sleeping)

instance (waiting : Bool) (p q : Proc) : Decidable (RestKeeps waiting p q) :=
  inferInstanceAs (Decidable (_ ∧ _))

/-! ### The machine -/

/-- The kernel, the processes inside `agent_proc_wait`, and the ticks at which `agent_tick` has
signalled the heartbeat of each process. -/
structure BeatSystem where
  kernel : Kernel
  waiting : Slot → Bool
  fired : Slot → List ℕ

inductive BeatLabel
  | tick
  | create (i : Slot) (m : Memory) (a : CreateArgs)
  | heartbeatSet (i : Slot) (interval : ℤ)
  | heartbeatStop (i : Slot)
  | watch (i : Slot) (mask : BitVec 32)
  | unwatch (i : Slot) (mask : BitVec 32)
  | watchFile (i : Slot) (dev inum : ℕ) (path : List UInt8)
  | finish (i : Slot)
  | wait (i : Slot) (timeoutTicks : ℤ) (now' : ℕ)
  | round (i : Slot) (now' : ℕ)
  | cascade (i : Slot)
  | kill (j : Slot)
  | fork (i j : Slot) (copied : Bool)
  | exit (i : Slot)
  | reap (j : Slot)
  | rest (j : Slot) (p : Proc)

namespace BeatSystem

variable (s : BeatSystem) (i : Slot)

def proc : Proc := s.kernel.procs i

def setProc (p : Proc) : BeatSystem := { s with kernel := s.kernel.setProc i p }

def setKernel (k : Kernel) : BeatSystem := { s with kernel := k }

/-- Can process `i` make a call? -/
def canCall : Prop := (s.proc i).live ∧ (s.proc i).killed = false ∧ s.waiting i = false

instance : Decidable (s.canCall i) := inferInstanceAs (Decidable (_ ∧ _))

/-- A call of process `i` that stores `p`. -/
def call (p : Proc) : Option BeatSystem := if s.canCall i then some (s.setProc i p) else none

/-- A round of the wait loop of process `i`, with the record `p`. -/
def waitRound (p : Proc) (now' : ℕ) : BeatSystem :=
  let r := agentProcWaitIter i p s.kernel.ticks now'
  { s.setProc i r.1 with waiting := Function.update s.waiting i (r.2 == .asleep) }

/-- One call. -/
def next : BeatLabel → Option BeatSystem
  | .tick =>
    (clockintr s.kernel).map fun r =>
      { s with
        kernel := r.1
        fired := fun j => s.fired j ++ (r.2.filter (· == j)).map fun _ => r.1.ticks }
  | .create i m a =>
    if s.canCall i then
      let now := s.kernel.ticks
      (agentCreate ⟨s.kernel, fun _ => .idle, fun _ => none⟩ m i
        { a with now := now, now' := now, now'' := now }).map fun r => s.setKernel r.1.kernel
    else none
  | .heartbeatSet i interval =>
    if s.canCall i then
      if (s.proc i).ident.agentType = agentTypeNormal ∨ interval ≤ 0 then some s
      else
        (agentHeartbeatWheelInsertLocked
          (s.kernel.setProc i (heartbeatSetStores (s.proc i) interval s.kernel.ticks)) i).map
          s.setKernel
    else none
  | .heartbeatStop i =>
    if s.canCall i then
      if (s.proc i).ident.agentType = agentTypeNormal then some s
      else
        (agentHeartbeatWheelRemoveLocked s.kernel i).map fun k =>
          s.setKernel (k.setProc i (heartbeatStopStores (k.procs i)))
    else none
  | .watch i mask => s.call i (agentProcWatch (s.proc i) mask).1
  | .unwatch i mask => s.call i (agentProcUnwatch (s.proc i) mask).1
  | .watchFile i dev inum path => s.call i (agentProcWatchFile (s.proc i) dev inum path).1
  -- `agent_proc_wait(0)`
  | .finish i =>
    s.call i (if (s.proc i).ident.agentType = agentTypeNormal then s.proc i
      else agentProcWaitDone (s.proc i))
  | .wait i timeoutTicks now' =>
    if s.canCall i then
      if (s.proc i).ident.agentType = agentTypeNormal ∨
          agentProcWaitNoSource (s.proc i) timeoutTicks then some s
      else
        some (s.waitRound i (agentProcWaitBegin (s.proc i) timeoutTicks s.kernel.ticks) now')
    else none
  | .round i now' =>
    if s.waiting i = true ∧ (s.proc i).state ≠ .sleeping then
      some (s.waitRound i (agentProcWaitResume (s.proc i)) now')
    else none
  | .cascade i =>
    if s.canCall i then some (s.setKernel (agentCascadeTerminate s.kernel i false)) else none
  | .kill j => some (s.setProc j (killAt (s.proc j)))
  | .fork i j copied =>
    if s.canCall i ∧ (s.proc j).state = .unused then
      some (s.setKernel (s.kernel.forkInto i j copied))
    else none
  | .exit i =>
    if (s.proc i).live ∧ s.waiting i = false then (agentExit s.kernel i).map s.setKernel else none
  | .reap j =>
    if (s.proc j).state = .zombie then some (s.setProc j (freeproc (s.proc j))) else none
  | .rest j p => if RestKeeps (s.waiting j) (s.proc j) p then some (s.setProc j p) else none

/-- At boot the wheel is empty, nobody is an Agent, and nobody waits. -/
def init : Prop :=
  s.kernel.ticks = 0 ∧ s.kernel.agentGlobal = AgentGlobal.init ∧
    ∀ i, (s.proc i).hb = Heartbeat.init ∧ (s.proc i).ident = Ident.init ∧
      (s.proc i).loop = Loop.init ∧ (s.proc i).mailbox = AgentMailbox.empty ∧
      s.waiting i = false ∧ s.fired i = []

/-- The loop of process `i` is over. -/
def Done : Prop := (s.proc i).loop.loopState = agentLoopDone

instance : Decidable (s.Done i) := inferInstanceAs (Decidable (_ = agentLoopDone))

end BeatSystem

/-- **The machine of heartbeats.** -/
def beatMachine : Machine BeatSystem BeatLabel := ⟨BeatSystem.init, BeatSystem.next⟩

end AgentOS
