import AgentOS.Model.Message
import AgentOS.Model.Wheel
import AgentOS.Model.Workflow

/-!
# The machine of waiting Agents

`agent_proc_wait` against everything that wakes a waiter: `agent_send_message`, the callers of
`agent_signal_event_locked`, `agent_cascade_terminate`, `kill`, `wakeup`, the clock interrupt
and the Agent's own calls. A step is one section under one lock. The waiter's own sections are
cut at their reads of the clock, so a tick can fall between any two of them: it takes `p->lock`
(`waitLocked`), reads the clock for its deadline (`waitTest`), reads it again in the loop, and
then returns or sleeps. A slot is locked at the first two; a section of another CPU on a locked
slot waits.

`other` is any section of the rest of the kernel on a process that is not inside
`agent_proc_wait`, and `aside` what such sections store in one that is: scheduler bookkeeping,
its parent, its link in the wheel.
-/

namespace AgentOS

def agentWatchMessage : BitVec 32 := agentEventMessage
def agentWatchFilemod : BitVec 32 := agentEventFilemod

/-! ### The Agent's own calls -/

/-- `agent_proc_watch`. -/
def agentProcWatch (p : Proc) (mask : BitVec 32) : Proc × ℤ :=
  if p.ident.agentType = agentTypeNormal then (p, agentToolErrNotAgent)
  else if mask &&& ~~~(agentWatchMessage ||| agentWatchFilemod) ≠ 0 then (p, -1)
  else
    ({ p with loop := { p.loop with watchMask := p.loop.watchMask ||| mask }.ready }, 0)

/-- `agent_proc_unwatch`. -/
def agentProcUnwatch (p : Proc) (mask : BitVec 32) : Proc × ℤ :=
  if p.ident.agentType = agentTypeNormal then (p, agentToolErrNotAgent)
  else
    let watch := if mask = 0 then 0 else p.loop.watchMask &&& ~~~mask
    let l := { p.loop with watchMask := watch }
    let l := if watch &&& agentWatchMessage = 0 then
      { l with pendingEvents := l.pendingEvents &&& ~~~agentEventMessage } else l
    let l := if watch &&& agentWatchFilemod = 0 then
      { l with
        pendingEvents := l.pendingEvents &&& ~~~agentEventFilemod
        agentWatchDev := 0
        agentWatchInum := 0
        agentWatchPath := [] } else l
    ({ p with loop := l }, 0)

/-- `agent_proc_watch_file` once `namei` has found the file. -/
def agentProcWatchFile (p : Proc) (dev inum : ℕ) (path : List UInt8) : Proc × ℤ :=
  if p.ident.agentType = agentTypeNormal then (p, agentToolErrNotAgent)
  else
    let l := { p.loop with
      watchMask := p.loop.watchMask ||| agentWatchFilemod
      agentWatchDev := dev
      agentWatchInum := inum
      agentWatchPath := safestrcpy path agentMessageMax }
    ({ p with loop := l.ready }, 0)

/-! ### Signals from other processes, at one slot -/

/-- `agent_signal_filemod`. -/
def agentSignalFilemodAt (j : Slot) (p : Proc) (now : ℕ) : Proc :=
  if p.state ≠ .unused ∧ p.ident.agentType ≠ agentTypeNormal ∧
      p.loop.loopState ≠ agentLoopDone ∧ p.loop.watchMask &&& agentWatchFilemod ≠ 0 then
    agentSignalEventLocked j p agentEventFilemod now
  else p

/-- `agent_notify_file_modified`. -/
def agentNotifyFileModifiedAt (j : Slot) (p : Proc) (dev inum now : ℕ) : Proc :=
  if p.state ≠ .unused ∧ p.ident.agentType ≠ agentTypeNormal ∧
      p.loop.watchMask &&& agentWatchFilemod ≠ 0 ∧ p.loop.agentWatchInum = inum ∧
      p.loop.agentWatchDev = dev then
    agentSignalEventLocked j p agentEventFilemod now
  else p

/-- `kill`, at the process it is meant for. -/
def killAt (p : Proc) : Proc :=
  { p with killed := true, state := if p.state = .sleeping then .runnable else p.state }

/-! ### The machine -/

/-- Where a process is; `next` is the slot a loop over `proc[]` looks at. -/
inductive LoopCall
  | user
  | sending (a : SendArgs) (next : ℕ)
  | filemod (now next : ℕ)
  | notify (dev inum now next : ℕ)
  | cascade (now : ℕ)
  | sweep (key : WorkflowKey) (now next : ℕ)
  | killing (pid next : ℕ)
  /-- `agent_proc_heartbeat_set` has still to reschedule. -/
  | reschedule
  /-- `agent_proc_heartbeat_stop` has taken the process off the wheel. -/
  | unlinked
  | waitEnter (timeoutTicks : ℤ)
  | waitLocked (timeoutTicks : ℤ)
  | waitTest
  | waiting
  | returned (ret : ℤ)
  deriving DecidableEq, Repr

/-- Does this process hold its own lock? -/
def LoopCall.locks : LoopCall → Bool
  | .waitLocked _ | .waitTest => true
  | _ => false

/-- Is this process inside the loop of `agent_proc_wait`, or about to enter it? -/
def LoopCall.waits : LoopCall → Bool
  | .waitEnter _ | .waitLocked _ | .waitTest | .waiting => true
  | _ => false

/-- Kernel, control points and the clock interrupt. -/
structure LoopSystem where
  kernel : Kernel
  calls : Slot → LoopCall
  clock : ClockPhase

inductive LoopLabel
  | clock
  | send (i : Slot) (targetPid : ℕ) (msgType : ℤ) (payload : Option (List UInt8))
      (requestId : UInt64)
  | signalFilemod (i : Slot)
  | notify (i : Slot) (dev inum : ℕ)
  | cascade (i : Slot)
  | begin (i : Slot)
  | kill (i : Slot) (pid : ℕ)
  | look (i : Slot)
  | wakeup (j : Slot) (chan : Chan)
  | heartbeatSet (i : Slot) (interval : ℤ)
  | reschedule (i : Slot)
  | heartbeatStop (i : Slot)
  | stopStores (i : Slot)
  | watch (i : Slot) (mask : BitVec 32)
  | unwatch (i : Slot) (mask : BitVec 32)
  | watchFile (i : Slot) (dev inum : ℕ) (path : List UInt8)
  | finish (i : Slot)
  | wait (i : Slot) (timeoutTicks : ℤ)
  | run (i : Slot) (on : Bool)
  | acquire (i : Slot)
  | deadline (i : Slot)
  | round (i : Slot) (now' : ℕ)
  | resume (i : Slot)
  | copyoutFail (i : Slot)
  | sysret (i : Slot)
  | other (i : Slot) (p : Proc) (reset : Bool)
  | aside (j : Slot) (sched : Sched) (parent : Option Slot) (next : ℕ)
  | global (g : AgentGlobal)

namespace LoopSystem

variable (s : LoopSystem) (i j : Slot)

def proc : Proc := s.kernel.procs i

def goto (c : LoopCall) : LoopSystem := { s with calls := Function.update s.calls i c }

def setProc (p : Proc) : LoopSystem := { s with kernel := s.kernel.setProc i p }

/-- The slots whose lock a waiter holds. -/
def locked : Bool := (s.calls j).locks

/-- Process `i`, in a loop over `proc[]`, stores `p` in slot `j` if its lock is free. -/
def store (p : Proc) (c : LoopCall) : Option LoopSystem :=
  if s.locked j then none else some ((s.setProc j p).goto i c)

/-- Process `i` looks at slot `j`, the next of its loop. -/
def lookAt : Option LoopSystem :=
  let p := s.proc j
  match s.calls i with
  | .sending a n =>
    if isSendTarget p a.targetPid then
      s.store i j (agentSendMessageDeliver j p (s.proc i).pid a s.kernel.ticks).1 .user
    else s.store i j p (.sending a (n + 1))
  | .filemod now n => s.store i j (agentSignalFilemodAt j p now) (.filemod now (n + 1))
  | .notify dev inum now n =>
    s.store i j (agentNotifyFileModifiedAt j p dev inum now) (.notify dev inum now (n + 1))
  | .sweep key now n =>
    s.store i j (if cascadeTarget p key (j == i) false then cascadeKill p now else p)
      (.sweep key now (n + 1))
  | .killing pid n =>
    if p.pid = pid then s.store i j (killAt p) .user else s.store i j p (.killing pid (n + 1))
  | _ => none

/-- The slot a loop over `proc[]` looks at next. -/
def cursor : Option ℕ :=
  match s.calls i with
  | .sending _ n | .filemod _ n | .notify _ _ _ n | .sweep _ _ n | .killing _ n => some n
  | _ => none

/-- One section. -/
def next : LoopLabel → Option LoopSystem
  | .clock => (clockNext s.locked s.kernel s.clock).map fun r =>
      { s with kernel := r.1, clock := r.2 }
  | .send i targetPid msgType payload requestId =>
    if s.calls i = .user then
      match agentSendMessageArgs targetPid msgType payload requestId with
      | none => some s
      | some a => some (s.goto i (.sending a 0))
    else none
  | .signalFilemod i =>
    if s.calls i = .user then some (s.goto i (.filemod s.kernel.ticks 0)) else none
  | .notify i dev inum =>
    if s.calls i = .user then some (s.goto i (.notify dev inum s.kernel.ticks 0)) else none
  | .cascade i =>
    if s.calls i = .user then
      if agentCascadeCheck (s.proc i) = agentToolOk then some (s.goto i (.cascade s.kernel.ticks))
      else some s
    else none
  | .begin i =>
    match s.calls i with
    | .cascade now =>
      let key := (s.proc i).wf.key
      let r := agentWorkflowBeginTerminate s.kernel.agentGlobal key s.kernel.ticks
      let t := { s with kernel := s.kernel.setGlobal r.1 }
      if r.2 ≠ agentToolOk ∧ r.2 ≠ agentToolErrServiceGone then some (t.goto i .user)
      else some (t.goto i (.sweep key now 0))
    | _ => none
  | .kill i pid => if s.calls i = .user then some (s.goto i (.killing pid 0)) else none
  | .look i =>
    match s.cursor i with
    | some n => if h : n < nproc then s.lookAt i ⟨n, h⟩ else some (s.goto i .user)
    | none => none
  | .wakeup j chan => if s.locked j then none else some (s.setProc j (wakeupAt (s.proc j) chan))
  | .heartbeatSet i interval =>
    if s.calls i = .user then
      if (s.proc i).ident.agentType = agentTypeNormal ∨ interval ≤ 0 then some s
      else
        some ((s.setProc i (heartbeatSetStores (s.proc i) interval s.kernel.ticks)).goto i
          .reschedule)
    else none
  | .reschedule i =>
    if s.calls i = .reschedule then
      (agentHeartbeatWheelInsertLocked s.kernel i).map fun k =>
        { s with kernel := k }.goto i .user
    else none
  | .heartbeatStop i =>
    if s.calls i = .user then
      if (s.proc i).ident.agentType = agentTypeNormal then some s
      else
        (agentHeartbeatWheelRemoveLocked s.kernel i).map fun k =>
          { s with kernel := k }.goto i .unlinked
    else none
  | .stopStores i =>
    if s.calls i = .unlinked then
      some ((s.setProc i (heartbeatStopStores (s.proc i))).goto i .user)
    else none
  | .watch i mask =>
    if s.calls i = .user then some (s.setProc i (agentProcWatch (s.proc i) mask).1) else none
  | .unwatch i mask =>
    if s.calls i = .user then some (s.setProc i (agentProcUnwatch (s.proc i) mask).1) else none
  | .watchFile i dev inum path =>
    if s.calls i = .user then
      some (s.setProc i (agentProcWatchFile (s.proc i) dev inum path).1)
    else none
  -- `agent_proc_wait(0)`
  | .finish i =>
    if s.calls i = .user then
      if (s.proc i).ident.agentType = agentTypeNormal then
        some (s.goto i (.returned agentToolErrNotAgent))
      else some ((s.setProc i (agentProcWaitDone (s.proc i))).goto i (.returned 0))
    else none
  | .wait i timeoutTicks =>
    if s.calls i = .user then
      if (s.proc i).ident.agentType = agentTypeNormal then
        some (s.goto i (.returned agentToolErrNotAgent))
      else if agentProcWaitNoSource (s.proc i) timeoutTicks then
        some (s.goto i (.returned agentWaitNoSource))
      else some (s.goto i (.waitEnter timeoutTicks))
    else none
  -- `yield` and the scheduler, before the waiter has its lock
  | .run i on =>
    match s.calls i with
    | .waitEnter _ =>
      some (s.setProc i { s.proc i with state := if on then .running else .runnable })
    | _ => none
  | .acquire i =>
    match s.calls i with
    | .waitEnter timeoutTicks => some (s.goto i (.waitLocked timeoutTicks))
    | _ => none
  | .deadline i =>
    match s.calls i with
    | .waitLocked timeoutTicks =>
      some ((s.setProc i (agentProcWaitBegin (s.proc i) timeoutTicks s.kernel.ticks)).goto i
        .waitTest)
    | _ => none
  | .round i now' =>
    if s.calls i = .waitTest then
      let r := agentProcWaitIter i (s.proc i) s.kernel.ticks now'
      match r.2 with
      | .asleep => some ((s.setProc i r.1).goto i .waiting)
      | .returned ret _ => some ((s.setProc i r.1).goto i (.returned ret))
    else none
  | .resume i =>
    if s.calls i = .waiting ∧ (s.proc i).state = .runnable then
      some ((s.setProc i (agentProcWaitResume (s.proc i))).goto i .waitTest)
    else none
  | .copyoutFail i =>
    match s.calls i with
    | .returned _ => some (s.goto i (.returned (-1)))
    | _ => none
  | .sysret i =>
    match s.calls i with
    | .returned _ => some (s.goto i .user)
    | _ => none
  | .other i p reset =>
    if (s.calls i).waits then none
    else
      some (s.setProc i
        { p with mailbox := if reset then AgentMailbox.empty else (s.proc i).mailbox })
  | .aside j sched parent next =>
    some (s.setProc j
      { s.proc j with sched := sched, parent := parent, hb.heartbeatWheelNext := next })
  | .global g => some { s with kernel := s.kernel.setGlobal g }

/-- At boot: the clock stands at zero, everybody is in user mode, every mailbox is empty. -/
def init : Prop :=
  s.kernel.ticks = 0 ∧ s.clock = .idle ∧
    ∀ i, s.calls i = .user ∧ (s.proc i).mailbox = AgentMailbox.empty

/-- Is process `i` asleep inside `agent_proc_wait`? -/
def Asleep : Prop := s.calls i = .waiting ∧ (s.proc i).state = .sleeping

end LoopSystem

/-- **The machine of waiting Agents.** -/
def loopMachine : Machine LoopSystem LoopLabel := ⟨LoopSystem.init, LoopSystem.next⟩

end AgentOS
