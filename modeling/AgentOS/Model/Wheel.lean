import AgentOS.Model.Lease
import AgentOS.Model.Loop

/-!
# The heartbeat wheel and the clock interrupt

`kernel/agent_loop.c`: the timing wheel, the calls that set and stop a heartbeat, and
`agent_tick`; `clockintr` of `kernel/trap.c`, which runs it on one CPU. A bucket is a
list through `heartbeat_wheel_next`, so a function that walks one is a loop; it is given
fuel for every slot, and a walk that runs out of it has met a cycle and never ends.

`clockNext` is one section of the interrupt. The locks that other CPUs hold are its
argument: a section on a slot waits until the slot is free.
-/

namespace AgentOS

/-- `agent_proc_wheel_index`. -/
def agentProcWheelIndex (i : Slot) : ℕ := i + 1

/-- `agent_wheel_proc`. -/
def agentWheelProc (index : ℕ) : Option Slot :=
  if h : 0 < index ∧ index ≤ nproc then some ⟨index - 1, by omega⟩ else none

/-- A walk visits each slot, an index out of range and the end of the list. -/
def wheelFuel : ℕ := nproc + 2

namespace AgentGlobal

def setHead (g : AgentGlobal) (bucket : Fin agentHeartbeatWheelBuckets) (index : ℕ) :
    AgentGlobal :=
  { g with heartbeatWheelHeads := Function.update g.heartbeatWheelHeads bucket index }

/-- `if(agent_global.heartbeat_count > 0) agent_global.heartbeat_count--`. -/
def countDown (g : AgentGlobal) : AgentGlobal := { g with heartbeatCount := g.heartbeatCount - 1 }

end AgentGlobal

namespace Kernel

variable (k : Kernel) (i j : Slot)

def setGlobal (g : AgentGlobal) : Kernel := { k with agentGlobal := g }

/-- Store the heartbeat record of slot `i`. -/
def setHb (hb : Heartbeat) : Kernel := k.setProc i { k.procs i with hb := hb }

/-- `cp ? cp->heartbeat_wheel_next : 0`. -/
def wheelNext (index : ℕ) : ℕ :=
  match agentWheelProc index with
  | some j => (k.procs j).hb.heartbeatWheelNext
  | none => 0

end Kernel

/-- The heartbeat record of a process that is on no list. -/
def Heartbeat.unlink (hb : Heartbeat) : Heartbeat :=
  { hb with heartbeatWheelActive := false, heartbeatWheelNext := 0, heartbeatWheelBucket := -1 }

/-- The loop of `agent_heartbeat_wheel_remove_locked`. -/
def wheelRemoveLoop (k : Kernel) (bucket : Fin agentHeartbeatWheelBuckets) (index : ℕ) :
    (fuel previous current : ℕ) → Option Kernel
  | 0, _, _ => none
  | fuel + 1, previous, current =>
    if current = 0 then some k
    else
      let next := k.wheelNext current
      if current = index then
        if previous = 0 then some (k.setGlobal (k.agentGlobal.setHead bucket next).countDown)
        else
          let k := k.setGlobal k.agentGlobal.countDown
          match agentWheelProc previous with
          | some j => some (k.setHb j { (k.procs j).hb with heartbeatWheelNext := next })
          | none => some k
      else wheelRemoveLoop k bucket index fuel current next

/-- `agent_heartbeat_wheel_remove_locked`. -/
def agentHeartbeatWheelRemoveLocked (k : Kernel) (i : Slot) : Option Kernel :=
  let hb := (k.procs i).hb
  if hb.heartbeatWheelActive = false then some k
  else
    if h : 0 ≤ hb.heartbeatWheelBucket ∧ hb.heartbeatWheelBucket < agentHeartbeatWheelBuckets then
      let bucket : Fin agentHeartbeatWheelBuckets := ⟨hb.heartbeatWheelBucket.toNat, by omega⟩
      (wheelRemoveLoop k bucket (agentProcWheelIndex i) wheelFuel 0
        (k.agentGlobal.heartbeatWheelHeads bucket)).map fun k => k.setHb i (k.procs i).hb.unlink
    else some (k.setHb i hb.unlink)

/-- `bucket = deadline & AGENT_HEARTBEAT_WHEEL_MASK`. -/
def wheelBucket (deadline : ℕ) : Fin agentHeartbeatWheelBuckets :=
  ⟨deadline % agentHeartbeatWheelBuckets, Nat.mod_lt _ (by decide)⟩

/-- The checks of the insertion and of `agent_tick`: an Agent that is not done and has a
heartbeat. -/
def heartbeatOn (p : Proc) : Prop :=
  p.state ≠ .unused ∧ p.ident.agentType ≠ agentTypeNormal ∧ p.loop.loopState ≠ agentLoopDone ∧
    0 < p.hb.heartbeatInterval ∧ 0 < p.hb.heartbeatDeadline

instance (p : Proc) : Decidable (heartbeatOn p) := inferInstanceAs (Decidable (_ ∧ _))

/-- The link of slot `i` at the head of its bucket. -/
def wheelLink (k : Kernel) (i : Slot) : Kernel :=
  let hb := (k.procs i).hb
  let g := k.agentGlobal
  let bucket := wheelBucket hb.heartbeatDeadline
  let hb' := { hb with
    heartbeatWheelBucket := bucket
    heartbeatWheelNext := g.heartbeatWheelHeads bucket
    heartbeatWheelActive := true }
  let g' := { g.setHead bucket (agentProcWheelIndex i) with
    heartbeatCount := g.heartbeatCount + 1
    heartbeatMinDeadline :=
      if g.heartbeatMinDeadline = 0 ∨ hb.heartbeatDeadline < g.heartbeatMinDeadline then
        hb.heartbeatDeadline else g.heartbeatMinDeadline }
  (k.setHb i hb').setGlobal g'

/-- `agent_heartbeat_wheel_insert_locked`. -/
def agentHeartbeatWheelInsertLocked (k : Kernel) (i : Slot) : Option Kernel :=
  (if (k.procs i).hb.heartbeatWheelActive then agentHeartbeatWheelRemoveLocked k i
    else some k).map fun k => if heartbeatOn (k.procs i) then wheelLink k i else k

/-! ### `agent_proc_heartbeat_set` and `agent_proc_heartbeat_stop` -/

/-- What both calls do to the events: no heartbeat is pending. -/
def Loop.dropHeartbeat (l : Loop) : Loop :=
  { l with
    pendingEvents := l.pendingEvents &&& ~~~agentEventHeartbeat
    lastWakeupReason :=
      if l.lastWakeupReason = agentEventHeartbeat then agentEventNone else l.lastWakeupReason }

/-- `if(p->loop_state != AGENT_LOOP_DONE) p->loop_state = AGENT_LOOP_READY`. -/
def Loop.ready (l : Loop) : Loop :=
  { l with loopState := if l.loopState ≠ agentLoopDone then agentLoopReady else l.loopState }

/-- `agent_proc_heartbeat_set` under `p->lock`; the reschedule follows. -/
def heartbeatSetStores (p : Proc) (interval : ℤ) (now : ℕ) : Proc :=
  { p with
    hb.heartbeatInterval := interval
    hb.heartbeatDeadline := now + interval.toNat + 1
    loop := p.loop.dropHeartbeat.ready }

/-- `agent_proc_heartbeat_stop` under `p->lock`, after the removal. -/
def heartbeatStopStores (p : Proc) : Proc :=
  { p with hb.heartbeatInterval := 0, hb.heartbeatDeadline := 0, loop := p.loop.dropHeartbeat }

/-! ### `clockintr` and `agent_tick` -/

/-- `wakeup` at one slot. -/
def wakeupAt (p : Proc) (chan : Chan) : Proc :=
  if p.state = .sleeping ∧ p.chan = some chan then { p with state := .runnable } else p

/-- `agent_replenish_budgets` at one slot. -/
def agentReplenishBudget (p : Proc) (now : ℕ) : Proc :=
  if p.state ≠ .unused ∧ p.ident.agentType ≠ agentTypeNormal ∧ 0 < p.sched.agentSchedQuota ∧
      0 < p.sched.budgetReplenishDeadline ∧ p.sched.budgetReplenishDeadline ≤ now then
    { p with
      sched.agentSchedBudget := p.sched.agentSchedQuota
      sched.budgetReplenishDeadline := now + agentSchedBudgetReplenishInterval }
  else p

/-- The `for(int scan = current; …)` loop of `agent_tick`. -/
def wheelDetachLoop (k : Kernel) : (fuel scan : ℕ) → Option Kernel
  | 0, _ => none
  | fuel + 1, scan =>
    if scan = 0 then some k
    else
      match agentWheelProc scan with
      | none => wheelDetachLoop k fuel 0
      | some j =>
        let hb := (k.procs j).hb
        let k := k.setHb j { hb with heartbeatWheelActive := false, heartbeatWheelBucket := -1 }
        wheelDetachLoop (k.setGlobal k.agentGlobal.countDown) fuel hb.heartbeatWheelNext

/-- `agent_tick` takes a bucket's list off the wheel. The result has the head of the list. -/
def agentTickDetach (k : Kernel) (now : ℕ) : Option (Kernel × ℕ) :=
  let bucket := wheelBucket now
  let current := k.agentGlobal.heartbeatWheelHeads bucket
  let k := k.setGlobal (k.agentGlobal.setHead bucket 0)
  (wheelDetachLoop k wheelFuel current).map fun k => (k, current)

/-- The heartbeat branch of `agent_tick`: is it due? -/
def agentTickHeartbeat (k : Kernel) (j : Slot) (now : ℕ) : Kernel :=
  let p : Proc := { k.procs j with hb.heartbeatWheelNext := 0 }
  if heartbeatOn p ∧ p.hb.heartbeatDeadline ≤ now then
    let g := k.agentGlobal
    let q := agentSignalEventLocked j p agentEventHeartbeat now
    let hb := { q.hb with heartbeatDeadline := now + q.hb.heartbeatInterval.toNat }
    (k.setProc j { q with hb := hb }).setGlobal
      { g with heartbeatTickWakeups := g.heartbeatTickWakeups + 1 }
  else k.setProc j p

/-- `agent_tick` visits a process of the detached list, under its lock. -/
def agentTickVisit (k : Kernel) (j : Slot) (now : ℕ) : Option Kernel :=
  let k := agentTickHeartbeat k j now
  if heartbeatOn (k.procs j) then agentHeartbeatWheelInsertLocked k j else some k

/-- `agent_tick` checks the wait timeout of slot `j`. -/
def agentTickTimeout (j : Slot) (p : Proc) (now : ℕ) : Proc :=
  if p.state = .sleeping ∧ p.chan = some (.proc j) ∧ p.ident.agentType ≠ agentTypeNormal ∧
      p.loop.loopState = agentLoopWaiting ∧ 0 < p.loop.waitDeadline ∧ p.loop.waitDeadline ≤ now then
    { p with loop.wakeupTick := now, state := .runnable }
  else p

/-- Where the clock interrupt is: not running, in `wakeup(&ticks)` with `tickslock` held, or in
`agent_tick(now)`; `next` is the slot a loop looks at, `current` and `next` of the walk are
places of the detached list. -/
inductive ClockPhase
  | idle
  | waking (now next : ℕ)
  | replenish (now next : ℕ)
  | reap (now : ℕ)
  | detach (now : ℕ)
  | walk (now current : ℕ)
  | visit (now : ℕ) (j : Slot) (next : ℕ)
  | timeout (now next : ℕ)
  deriving DecidableEq, Repr

/-- A loop over `proc[]` at slot `n`: store `f` of it if its lock is free, or go on with `done`. -/
def eachSlot (locked : Slot → Bool) (k : Kernel) (n : ℕ) (f : Slot → Proc → Proc)
    (more done : ClockPhase) : Option (Kernel × ClockPhase) :=
  if h : n < nproc then
    let j : Slot := ⟨n, h⟩
    if locked j then none else some (k.setProc j (f j (k.procs j)), more)
  else some (k, done)

/-- One section of `clockintr`; `ticks` is a 32-bit counter. -/
def clockNext (locked : Slot → Bool) (k : Kernel) : ClockPhase → Option (Kernel × ClockPhase)
  | .idle =>
    let now := (k.ticks + 1) % 2 ^ 32
    some ({ k with ticks := now }, .waking now 0)
  | .waking now n =>
    eachSlot locked k n (fun _ p => wakeupAt p .ticks) (.waking now (n + 1)) (.replenish now 0)
  | .replenish now n =>
    eachSlot locked k n (fun _ p => agentReplenishBudget p now) (.replenish now (n + 1)) (.reap now)
  | .reap now => some (k.setGlobal (agentLeaseReapExpired k.agentGlobal now), .detach now)
  | .detach now => (agentTickDetach k now).map fun r => (r.1, .walk now r.2)
  | .walk now current =>
    if current = 0 then some (k, .timeout now 0)
    else
      match agentWheelProc current with
      | none => some (k, .walk now 0)
      | some j =>
        let g := k.agentGlobal
        some (k.setGlobal { g with heartbeatTickScanned := g.heartbeatTickScanned + 1 },
          .visit now j (k.procs j).hb.heartbeatWheelNext)
  | .visit now j next =>
    if locked j then none else (agentTickVisit k j now).map fun k => (k, .walk now next)
  | .timeout now n =>
    eachSlot locked k n (fun j p => agentTickTimeout j p now) (.timeout now (n + 1)) .idle

end AgentOS
