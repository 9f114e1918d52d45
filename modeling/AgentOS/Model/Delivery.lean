import AgentOS.Model.Context
import AgentOS.Model.Loop

/-!
# The copy of a wait event

The end of `agent_proc_wait`: a round of the loop, and the copy of its event to the caller's
memory. The round gives the lock up before the copy; the copy does not touch the PCB.
-/

namespace AgentOS

/-- `struct agent_wait_event` as it lies in memory: `reserved` and the tail are zero. -/
def AgentWaitEvent.bytes (e : AgentWaitEvent) : List UInt8 :=
  [(e.reason % 2 ^ 32).toNat, 0].flatMap (littleEndian 4) ++
    [e.tick, e.sequence, e.requestId.toNat].flatMap (littleEndian 8) ++
    [e.fromPid, (e.msgType % 2 ^ 32).toNat, e.msgLength].flatMap (littleEndian 4) ++
    padded e.message agentMessageMax ++ padded e.file agentMessageMax ++ List.replicate 4 0

/-- `sizeof(struct agent_wait_event)`. -/
def sizeofAgentWaitEvent : ℕ := 304

/-- `uevent != 0 && copyout(p->pagetable, uevent, (char*)&event, sizeof(event)) < 0`. -/
def agentWaitCopyFails (m : Memory) (uevent : ℕ) (e : AgentWaitEvent) : Bool :=
  decide (uevent ≠ 0) && !(m.copyout uevent e.bytes).2

/-- One round of `agent_proc_wait` with the copy of its event: the process, its memory and what
the call returns; `none` where the round goes to sleep. -/
def agentProcWaitRound (self : Slot) (p : Proc) (m : Memory) (uevent now now' : ℕ) :
    Proc × Memory × Option ℤ :=
  match agentProcWaitIter self p now now' with
  | (q, .asleep) => (q, m, none)
  | (q, .returned ret e) =>
    if uevent = 0 then (q, m, some ret)
    else
      let w := m.copyout uevent e.bytes
      (q, w.1, some (if agentWaitCopyFails m uevent e then -1 else ret))

end AgentOS
