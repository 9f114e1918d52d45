import AgentOS.Model.Delivery
import AgentOS.Proof.Region

/-!
# Events are consumed before they are delivered

* `copy_fails_iff`: whether the copy of an event fails depends on the pages of the caller's
  buffer and not on the event.
* `Reports`, `iter_consumes`, `iter_keeps`: a round that has something to report takes it, the
  others leave the mailbox and the events alone.
* `round_fails`, `wait_delivery`: a failed copy leaves the mailbox and the events as they were if and only if
  there was nothing to report.
* `wait_delivery_loses`: a message lost.
-/

namespace AgentOS

/-- **Nothing consumed**: the mailbox, and the pending events that a wait can report. -/
structure Undelivered (p q : Proc) : Prop where
  mailbox : q.mailbox = p.mailbox
  filemod : q.loop.pendingEvents &&& agentEventFilemod = p.loop.pendingEvents &&& agentEventFilemod
  heartbeat :
    q.loop.pendingEvents &&& agentEventHeartbeat = p.loop.pendingEvents &&& agentEventHeartbeat
  parentGone :
    q.loop.pendingEvents &&& agentEventParentGone = p.loop.pendingEvents &&& agentEventParentGone

/-- A message or one of these events waits to be reported. -/
def HasReport (p : Proc) : Prop :=
  p.loop.pendingEvents &&& agentEventParentGone ≠ 0 ∨ 0 < p.mailbox.count ∨
    p.loop.pendingEvents &&& agentEventFilemod ≠ 0 ∨ p.loop.pendingEvents &&& agentEventHeartbeat ≠ 0

/-- All pages of the caller's buffer can be written. -/
def BufferFits (m : Memory) (uevent : ℕ) : Prop :=
  ∀ g ∈ pages uevent sizeofAgentWaitEvent, m.user g = true ∧ m.writable g = true

/-! ### The copy -/

theorem AgentWaitEvent.bytes_length (e : AgentWaitEvent) : e.bytes.length = sizeofAgentWaitEvent := by
  have hle : ∀ w v, (littleEndian w v).length = w := fun w v => by simp [littleEndian]
  simp [AgentWaitEvent.bytes, hle, padded_length, agentMessageMax, sizeofAgentWaitEvent]

/-- **Whether the copy fails** depends on the buffer alone. -/
theorem copy_fails_iff (m : Memory) (uevent : ℕ) (e : AgentWaitEvent) :
    agentWaitCopyFails m uevent e = true ↔ uevent ≠ 0 ∧ ¬ BufferFits m uevent := by
  have hcopy : (m.copyout uevent e.bytes).2 = true ↔ BufferFits m uevent := by
    constructor
    · intro h
      have hw := writable_of_copyout h
      rwa [e.bytes_length] at hw
    · intro h
      rw [copyout_of (by rw [e.bytes_length]; exact h)]
  rw [agentWaitCopyFails, Bool.and_eq_true, decide_eq_true_eq, Bool.not_eq_true', ← hcopy,
    Bool.not_eq_true]

/-! ### The round -/

section

variable {self : Slot} {p q : Proc} {now now' : ℕ} {ret : ℤ} {e : AgentWaitEvent}

/-- A bit that was set and is cleared has changed. -/
theorem bit_cleared {x bit : BitVec 32} (h : x &&& bit ≠ 0) :
    (x &&& ~~~bit) &&& bit ≠ x &&& bit := by
  rw [BitVec.and_assoc, BitVec.and_comm (~~~bit), BitVec.and_not_self]
  simpa using h.symm

/-- A round with something to report takes it. -/
theorem iter_consumes (h : HasReport p) : ¬ Undelivered p (agentProcWaitIter self p now now').1 := by
  intro hu
  unfold agentProcWaitIter at hu
  split at hu
  · exact bit_cleared ‹_› hu.parentGone
  rename_i hgone
  split at hu
  · have hcount := congrArg AgentMailbox.count hu.mailbox
    simp only [agentProcWaitMessage, waitFinish, mailboxTake] at hcount
    omega
  rename_i hcount
  split at hu
  · exact bit_cleared ‹_› hu.filemod
  rename_i hfile
  split at hu
  · exact bit_cleared ‹_› hu.heartbeat
  rename_i hbeat
  rcases h with h | h | h | h
  · exact hgone h
  · exact hcount h
  · exact hfile h
  · exact hbeat h

/-- A round with nothing to report leaves the mailbox and the events alone. -/
theorem iter_keeps (h : ¬ HasReport p) : Undelivered p (agentProcWaitIter self p now now').1 := by
  simp only [HasReport, not_or] at h
  obtain ⟨hgone, hcount, hfile, hbeat⟩ := h
  unfold agentProcWaitIter
  rw [if_neg hgone, if_neg hcount, if_neg hfile, if_neg hbeat]
  split
  · exact ⟨rfl, rfl, rfl, rfl⟩
  · split <;> exact ⟨rfl, rfl, rfl, rfl⟩

/-- A round with something to report returns. -/
theorem iter_returns (h : HasReport p) :
    ∃ ret e, (agentProcWaitIter self p now now').2 = .returned ret e := by
  unfold agentProcWaitIter
  split
  · exact ⟨_, _, rfl⟩
  split
  · exact ⟨_, _, rfl⟩
  split
  · exact ⟨_, _, rfl⟩
  split
  · exact ⟨_, _, rfl⟩
  rcases h with h | h | h | h <;> contradiction

/-- The copy leaves the process as the round does. -/
theorem round_proc (self : Slot) (p : Proc) (m : Memory) (uevent now now' : ℕ) :
    (agentProcWaitRound self p m uevent now now').1 = (agentProcWaitIter self p now now').1 := by
  unfold agentProcWaitRound
  split <;> rename_i hr <;> rw [hr]
  split <;> rfl

end

/-- A wait whose copy fails returns -1. -/
theorem round_fails {self : Slot} {p : Proc} {m : Memory} {uevent now now' : ℕ} {ret : ℤ}
    {e : AgentWaitEvent} (he : (agentProcWaitIter self p now now').2 = .returned ret e)
    (hfail : agentWaitCopyFails m uevent e = true) :
    (agentProcWaitRound self p m uevent now now').2.2 = some (-1) := by
  have hne : uevent ≠ 0 := ((copy_fails_iff ..).1 hfail).1
  unfold agentProcWaitRound
  split <;> rename_i hr <;> rw [hr] at he
  · cases he
  · cases he
    rw [if_neg hne, if_pos hfail]

/-- **Delivery.** A wait whose copy fails, and which returns -1 therefore, leaves the mailbox and
the pending events as they were if and only if there was nothing to report. -/
theorem wait_delivery (self : Slot) (p : Proc) (m : Memory) (uevent now now' : ℕ) :
    ((∀ ret e, (agentProcWaitIter self p now now').2 = .returned ret e →
        agentWaitCopyFails m uevent e = true →
        Undelivered p (agentProcWaitRound self p m uevent now now').1) ↔
      (uevent = 0 ∨ BufferFits m uevent ∨ ¬ HasReport p)) := by
  rw [round_proc]
  constructor
  · intro h
    by_contra hc
    simp only [not_or, not_not] at hc
    obtain ⟨hne, hfits, hrep⟩ := hc
    obtain ⟨ret, e, he⟩ := iter_returns hrep
    exact iter_consumes hrep (h ret e he ((copy_fails_iff ..).2 ⟨hne, hfits⟩))
  · rintro h ret e he hfail
    obtain ⟨hne, hfits⟩ := (copy_fails_iff ..).1 hfail
    rcases h with h | h | h
    · exact absurd h hne
    · exact absurd h hfits
    · exact iter_keeps h

/-- A process with one message. -/
def oneMessage : Proc :=
  { Proc.boot with
    mailbox.queue := Function.update AgentMailbox.empty.queue 0
      { AgentMessage.zero with fromPid := 2, type := agentMessageTypeNormal, sequence := 1 }
    mailbox.tail := 1
    mailbox.count := 1
    mailbox.normalCount := 1
    mailbox.nextSequence := 2
    loop.pendingEvents := agentEventMessage }

/-- No page of its memory can be written at the address it gives: the call returns -1, and the
message is gone. -/
theorem wait_delivery_loses :
    (agentProcWaitRound 0 oneMessage ⟨fun _ => 0, fun _ => false, fun _ => false⟩ 4096 7 7).2.2 =
        some (-1) ∧
      oneMessage.mailbox.count = 1 ∧
      (agentProcWaitRound 0 oneMessage ⟨fun _ => 0, fun _ => false, fun _ => false⟩ 4096 7 7).1.mailbox.count
        = 0 ∧
      ¬ Undelivered oneMessage
        (agentProcWaitRound 0 oneMessage ⟨fun _ => 0, fun _ => false, fun _ => false⟩ 4096 7 7).1 := by
  refine ⟨by decide +kernel, by decide, by decide +kernel, ?_⟩
  rw [round_proc]
  exact iter_consumes (.inr (.inl (by decide)))

end AgentOS
