import AgentOS.Model.Proc

/-!
# The Agent Loop

`kernel/agent_loop.c`: event signalling and `agent_proc_wait`. A section that runs
under `p->lock` is one function on the record of `p`; the values that
`agent_now_safe()` returns inside it are its arguments `now`, `now'`.
`agent_proc_wait` is cut where it gives the lock up: `agentProcWaitBegin` is the code
before the loop, `agentProcWaitIter` one round of the loop, which returns or sleeps.
-/

namespace AgentOS

/-- `agent_signal_event_locked`, for the process in slot `self`. -/
def agentSignalEventLocked (self : Slot) (p : Proc) (event : BitVec 32) (now : ℕ) : Proc :=
  let q : Proc :=
    { p with
      loop.pendingEvents := p.loop.pendingEvents ||| event
      loop.lastWakeupReason := p.loop.pendingEvents ||| event
      loop.wakeupTick := now
      sched.agentSchedBoost :=
        if p.sched.agentSchedBoost < 2 then 2 else p.sched.agentSchedBoost }
  if q.state = .sleeping ∧ q.chan = some (.proc self) then { q with state := .runnable } else q

/-- `struct agent_wait_event`. -/
structure AgentWaitEvent where
  reason : ℤ
  tick : ℕ
  sequence : ℕ
  requestId : UInt64
  fromPid : ℕ
  msgType : ℤ
  msgLength : ℕ
  message : List UInt8
  file : List UInt8
  deriving DecidableEq, Repr

/-- `memset(&event, 0, sizeof(event))`. -/
def AgentWaitEvent.zero : AgentWaitEvent := ⟨0, 0, 0, 0, 0, 0, 0, [], []⟩

/-- How a round of the wait loop ends. -/
inductive WaitOutcome
  | returned (ret : ℤ) (event : AgentWaitEvent)
  | asleep
  deriving DecidableEq, Repr

/-- `agent_proc_wait` with `continue_loop == 0`. -/
def agentProcWaitDone (p : Proc) : Proc :=
  { p with
    loop.loopState := agentLoopDone
    hb.heartbeatInterval := 0
    hb.heartbeatDeadline := 0
    loop.watchMask := 0
    loop.pendingEvents := 0
    loop.lastWakeupReason := agentEventNone
    mailbox := AgentMailbox.empty
    loop.agentWatchDev := 0
    loop.agentWatchInum := 0
    loop.agentWatchPath := []
    sched.agentSchedBoost := 0
    loop.waitGeneration := 0
    loop.waitDeadline := 0 }

/-- The `AGENT_WAIT_NO_SOURCE` check, made without the lock. -/
def agentProcWaitNoSource (p : Proc) (timeoutTicks : ℤ) : Prop :=
  p.hb.heartbeatInterval = 0 ∧ p.loop.watchMask = 0 ∧ p.mailbox.count = 0 ∧ timeoutTicks ≤ 0

instance (p : Proc) (timeoutTicks : ℤ) : Decidable (agentProcWaitNoSource p timeoutTicks) :=
  inferInstanceAs (Decidable (_ ∧ _))

/-- `agent_proc_wait` from `acquire(&p->lock)` to the loop. -/
def agentProcWaitBegin (p : Proc) (timeoutTicks : ℤ) (now : ℕ) : Proc :=
  { p with
    loop.loopState := agentLoopWaiting
    loop.waitGeneration := p.loop.waitGeneration + 1
    loop.waitTimeoutTicks := if 0 < timeoutTicks then timeoutTicks else 0
    loop.waitDeadline := if 0 < timeoutTicks then now + timeoutTicks.toNat else 0 }

/-- `p->wakeup_tick ? p->wakeup_tick : agent_now_safe()`. -/
def waitEventTick (p : Proc) (now : ℕ) : ℕ :=
  if p.loop.wakeupTick ≠ 0 then p.loop.wakeupTick else now

/-- The loop state a finished wait leaves, and the new wait generation. -/
def waitFinish (p : Proc) (loopState : ℤ) : Proc :=
  { p with loop.loopState := loopState, loop.waitGeneration := p.loop.waitGeneration + 1 }

/-- The `PARENT_GONE` branch. -/
def agentProcWaitParentGone (p : Proc) (now : ℕ) : Proc × AgentWaitEvent :=
  (waitFinish { p with
      loop.pendingEvents := p.loop.pendingEvents &&& ~~~agentEventParentGone
      loop.lastWakeupReason := agentEventParentGone } agentLoopDone,
    { AgentWaitEvent.zero with reason := agentWaitParentGone, tick := waitEventTick p now })

/-- The mailbox branch: the event and the mailbox after it. -/
def mailboxTake (mb : AgentMailbox) : AgentMailbox :=
  let msg := mb.queue mb.head
  { mb with
    systemCount :=
      if msg.type = agentMessageTypeSystem then mb.systemCount - 1 else mb.systemCount
    normalCount :=
      if msg.type = agentMessageTypeSystem then mb.normalCount else mb.normalCount - 1
    queue := Function.update mb.queue mb.head AgentMessage.zero
    head := mb.head + 1
    count := mb.count - 1 }

/-- The event that reports message `msg`. -/
def messageEvent (msg : AgentMessage) (tick : ℕ) : AgentWaitEvent :=
  { AgentWaitEvent.zero with
    reason := agentWaitMessage
    tick := tick
    sequence := msg.sequence
    requestId := msg.requestId
    fromPid := msg.fromPid
    msgType := msg.type
    msgLength := msg.length
    message := safestrcpy msg.payload agentMessageMax }

/-- The message branch. -/
def agentProcWaitMessage (p : Proc) (now : ℕ) : Proc × AgentWaitEvent :=
  let mb := mailboxTake p.mailbox
  (waitFinish { p with
      mailbox := mb
      loop.pendingEvents :=
        if 0 < mb.count then p.loop.pendingEvents ||| agentEventMessage
        else p.loop.pendingEvents &&& ~~~agentEventMessage
      loop.lastWakeupReason := agentEventMessage } agentLoopReady,
    messageEvent (p.mailbox.queue p.mailbox.head) (waitEventTick p now))

/-- The `FILEMOD` and `HEARTBEAT` branches: they differ in the bit, the return code and
the file name. -/
def agentProcWaitEvent (p : Proc) (bit : BitVec 32) (reason : ℤ) (file : List UInt8) (now : ℕ) :
    Proc × AgentWaitEvent :=
  (waitFinish { p with
      loop.pendingEvents := p.loop.pendingEvents &&& ~~~bit
      loop.lastWakeupReason := bit } agentLoopReady,
    { AgentWaitEvent.zero with reason := reason, tick := waitEventTick p now, file := file })

/-- One round of the `for(;;)` loop. -/
def agentProcWaitIter (self : Slot) (p : Proc) (now now' : ℕ) : Proc × WaitOutcome :=
  if p.loop.pendingEvents &&& agentEventParentGone ≠ 0 then
    let r := agentProcWaitParentGone p now
    (r.1, .returned agentWaitParentGone r.2)
  else if 0 < p.mailbox.count then
    let r := agentProcWaitMessage p now
    (r.1, .returned agentWaitMessage r.2)
  else if p.loop.pendingEvents &&& agentEventFilemod ≠ 0 then
    let r := agentProcWaitEvent p agentEventFilemod agentWaitFilemod
      (safestrcpy p.loop.agentWatchPath agentMessageMax) now
    (r.1, .returned agentWaitFilemod r.2)
  else if p.loop.pendingEvents &&& agentEventHeartbeat ≠ 0 then
    let r := agentProcWaitEvent p agentEventHeartbeat agentWaitHeartbeat [] now
    (r.1, .returned agentWaitHeartbeat r.2)
  else if 0 < p.loop.waitDeadline ∧ p.loop.waitDeadline ≤ now then
    (waitFinish p agentLoopReady,
      .returned agentWaitTimeout { AgentWaitEvent.zero with reason := agentWaitTimeout, tick := now })
  else if p.killed then
    -- the event says CANCELLED, the call returns -1
    (waitFinish p agentLoopDone,
      .returned (-1) { AgentWaitEvent.zero with reason := agentWaitCancelled, tick := now' })
  else
    ({ p with chan := some (.proc self), state := .sleeping }, .asleep)

/-- What runs after `sched()` returns: the scheduler has set `RUNNING`, then `p->chan = 0`. -/
def agentProcWaitResume (p : Proc) : Proc := { p with state := .running, chan := none }

section

variable (self : Slot) (p : Proc) (event : BitVec 32) (now now' : ℕ) (timeoutTicks : ℤ)

@[simp] theorem agentSignalEventLocked_mailbox :
    (agentSignalEventLocked self p event now).mailbox = p.mailbox := by
  unfold agentSignalEventLocked; dsimp only; split <;> rfl

/-- **What a round does to the mailbox**: it takes the head and returns it as the
event, or it leaves the mailbox alone and reports no message. -/
theorem agentProcWaitIter_mailbox :
    (0 < p.mailbox.count ∧ (agentProcWaitIter self p now now').1.mailbox = mailboxTake p.mailbox ∧
      (agentProcWaitIter self p now now').2 = .returned agentWaitMessage
        (messageEvent (p.mailbox.queue p.mailbox.head) (waitEventTick p now))) ∨
    ((agentProcWaitIter self p now now').1.mailbox = p.mailbox ∧
      ∀ e, (agentProcWaitIter self p now now').2 ≠ .returned agentWaitMessage e) := by
  unfold agentProcWaitIter
  split
  · right; exact ⟨rfl, by simp [agentWaitParentGone, agentWaitMessage]⟩
  split
  · left; exact ⟨‹_›, rfl, rfl⟩
  right
  split
  · exact ⟨rfl, by simp [agentWaitFilemod, agentWaitMessage]⟩
  split
  · exact ⟨rfl, by simp [agentWaitHeartbeat, agentWaitMessage]⟩
  split
  · exact ⟨rfl, by simp [agentWaitTimeout, agentWaitMessage]⟩
  split
  · exact ⟨rfl, by simp [agentWaitMessage]⟩
  · exact ⟨rfl, by simp⟩

end

end AgentOS
