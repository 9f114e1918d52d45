import AgentOS.Lib.Transition
import AgentOS.Model.Loop

/-!
# Messages

`agent_send_message` of `kernel/agent.c` and the machine of senders and receivers.

The send looks at one slot of `proc[]` at a time, each under that slot's lock, and
delivers inside the critical section of the slot it stops at; a receiver runs the
sections of `agent_proc_wait(1)`. One step of `mailMachine` is one such section. A
step `other` is any section of the rest of the kernel: it may change every field of a
process except its mailbox.
-/

namespace AgentOS

/-- The arguments of a send. -/
structure SendArgs where
  targetPid : ℕ
  msgType : ℤ
  payload : List UInt8
  requestId : UInt64
  deriving DecidableEq, Repr

/-- The argument check at the top of `agent_send_message`; `none` is a null payload. -/
def agentSendMessageArgs (targetPid : ℕ) (msgType : ℤ) (payload : Option (List UInt8))
    (requestId : UInt64) : Option SendArgs :=
  match payload with
  | none => none
  | some payload =>
    if msgType ≠ agentMessageTypeNormal ∧ msgType ≠ agentMessageTypeSystem then none
    else some ⟨targetPid, msgType, payload, requestId⟩

/-- Is `p` the target the search looks for? -/
def isSendTarget (p : Proc) (targetPid : ℕ) : Prop :=
  p.pid = targetPid ∧ p.state ≠ .unused ∧ p.ident.agentType ≠ agentTypeNormal

instance (p : Proc) (targetPid : ℕ) : Decidable (isSendTarget p targetPid) :=
  inferInstanceAs (Decidable (_ ∧ _))

/-- The message a sender with pid `srcPid` stores. -/
def sentMessage (srcPid : ℕ) (a : SendArgs) (sequence : ℕ) : AgentMessage where
  fromPid := srcPid
  type := a.msgType
  length := min (strlen a.payload) (agentMessageMax - 1)
  sequence := sequence
  requestId := a.requestId
  payload := safestrcpy a.payload agentMessageMax

/-- Is there no room for a message of this type? -/
def mailboxFull (mb : AgentMailbox) (msgType : ℤ) : Prop :=
  (msgType = agentMessageTypeNormal ∧
    (agentMailboxCap - agentMailboxSystemSlots : ℤ) ≤ mb.normalCount) ∨
  (agentMailboxCap : ℤ) ≤ mb.count

instance (mb : AgentMailbox) (msgType : ℤ) : Decidable (mailboxFull mb msgType) :=
  inferInstanceAs (Decidable (_ ∨ _))

/-- The mailbox after a message is queued. -/
def mailboxPut (mb : AgentMailbox) (srcPid : ℕ) (a : SendArgs) : AgentMailbox :=
  { mb with
    queue := Function.update mb.queue mb.tail (sentMessage srcPid a mb.nextSequence)
    nextSequence := (mb.nextSequence + 1) % 2 ^ 64
    tail := mb.tail + 1
    count := mb.count + 1
    systemCount :=
      if a.msgType = agentMessageTypeSystem then mb.systemCount + 1 else mb.systemCount
    normalCount :=
      if a.msgType = agentMessageTypeSystem then mb.normalCount else mb.normalCount + 1 }

/-- The mailbox after a message is dropped. -/
def mailboxDrop (mb : AgentMailbox) (msgType : ℤ) : AgentMailbox :=
  { mb with
    dropped := mb.dropped + 1
    systemDropped :=
      if msgType = agentMessageTypeSystem then mb.systemDropped + 1 else mb.systemDropped }

/-- `agent_send_message` once the target is found, under `target->lock`. -/
def agentSendMessageDeliver (self : Slot) (target : Proc) (srcPid : ℕ) (a : SendArgs) (now : ℕ) :
    Proc × ℤ :=
  if mailboxFull target.mailbox a.msgType then
    ({ target with mailbox := mailboxDrop target.mailbox a.msgType }, agentToolErrBusy)
  else
    (agentSignalEventLocked self
      { target with mailbox := mailboxPut target.mailbox srcPid a } agentEventMessage now,
      agentToolOk)

/-! ### The machine -/

/-- Where a process is: in user mode, in `agent_send_message` about to look at slot
`next`, before the first section of a wait, or asleep in its loop. -/
inductive MailCall
  | user
  | sending (a : SendArgs) (next : ℕ)
  | waitEnter (timeoutTicks : ℤ)
  | waiting
  deriving DecidableEq, Repr

/-- What a sender asked to deliver: the part of a message that must not change. -/
structure Letter where
  fromPid : ℕ
  type : ℤ
  requestId : UInt64
  payload : List UInt8
  deriving DecidableEq, Repr

/-- The letter of an accepted send. -/
def SendArgs.letter (a : SendArgs) (srcPid : ℕ) : Letter :=
  ⟨srcPid, a.msgType, a.requestId, (cstr a.payload).take (agentMessageMax - 1)⟩

def AgentMessage.letter (m : AgentMessage) : Letter := ⟨m.fromPid, m.type, m.requestId, m.payload⟩

def AgentWaitEvent.letter (e : AgentWaitEvent) : Letter :=
  ⟨e.fromPid, e.msgType, e.requestId, e.message⟩

/-- Kernel, control points, and two histories that no step reads: the letters accepted
for each mailbox and those its owner got back. -/
structure MailState where
  kernel : Kernel
  calls : Slot → MailCall
  accepted : Slot → List Letter
  returned : Slot → List Letter

inductive MailLabel
  | send (i : Slot) (targetPid : ℕ) (msgType : ℤ) (payload : Option (List UInt8))
      (requestId : UInt64)
  | look (i : Slot) (now : ℕ)
  | wait (i : Slot) (timeoutTicks : ℤ)
  | enter (i : Slot) (now now' now'' : ℕ)
  | resume (i : Slot) (now now' : ℕ)
  | other (i : Slot) (p : Proc)

namespace MailState

/-- Process `i` goes to control point `c`. -/
def goto (s : MailState) (i : Slot) (c : MailCall) : MailState :=
  { s with calls := Function.update s.calls i c }

/-- A round of the wait loop of process `i`, which holds record `p` on entry. -/
def waitRound (s : MailState) (i : Slot) (p : Proc) (now now' : ℕ) : MailState :=
  let r := agentProcWaitIter i p now now'
  let s := { s with kernel := s.kernel.setProc i r.1 }
  match r.2 with
  | .asleep => s.goto i .waiting
  | .returned ret e =>
    if ret = agentWaitMessage then
      { s.goto i .user with
        returned := Function.update s.returned i (s.returned i ++ [e.letter]) }
    else s.goto i .user

/-- Process `i` looks at slot `j` for the target of `a`. -/
def lookAt (s : MailState) (i j : Slot) (a : SendArgs) (now : ℕ) : MailState :=
  let target := s.kernel.procs j
  if isSendTarget target a.targetPid then
    let srcPid := (s.kernel.procs i).pid
    let r := agentSendMessageDeliver j target srcPid a now
    let s := { s.goto i .user with kernel := s.kernel.setProc j r.1 }
    if r.2 = agentToolOk then
      { s with accepted := Function.update s.accepted j (s.accepted j ++ [a.letter srcPid]) }
    else s
  else s.goto i (.sending a (j + 1))

/-- One section. -/
def next (s : MailState) : MailLabel → Option MailState
  | .send i targetPid msgType payload requestId =>
    if s.calls i = .user then
      match agentSendMessageArgs targetPid msgType payload requestId with
      | none => some s
      | some a => some (s.goto i (.sending a 0))
    else none
  | .look i now =>
    match s.calls i with
    | .sending a j =>
      if h : j < nproc then some (s.lookAt i ⟨j, h⟩ a now)
      else some (s.goto i .user)
    | _ => none
  | .wait i timeoutTicks =>
    if s.calls i = .user then
      if (s.kernel.procs i).ident.agentType = agentTypeNormal ∨
          agentProcWaitNoSource (s.kernel.procs i) timeoutTicks then some s
      else some (s.goto i (.waitEnter timeoutTicks))
    else none
  | .enter i now now' now'' =>
    match s.calls i with
    | .waitEnter timeoutTicks =>
      some (s.waitRound i (agentProcWaitBegin (s.kernel.procs i) timeoutTicks now) now' now'')
    | _ => none
  | .resume i now now' =>
    if s.calls i = .waiting ∧ (s.kernel.procs i).state = .runnable then
      some (s.waitRound i (agentProcWaitResume (s.kernel.procs i)) now now')
    else none
  | .other i p =>
    some { s with kernel := s.kernel.setProc i { p with mailbox := (s.kernel.procs i).mailbox } }

/-- Every process is in user mode with the mailbox its creation left; the rest of the
kernel is arbitrary. -/
def init (s : MailState) : Prop :=
  (∀ i, s.calls i = .user ∧ (s.kernel.procs i).mailbox = AgentMailbox.empty) ∧
  (∀ i, s.accepted i = [] ∧ s.returned i = [])

end MailState

/-- **The mailbox machine.** -/
def mailMachine : Machine MailState MailLabel := ⟨MailState.init, MailState.next⟩

end AgentOS
