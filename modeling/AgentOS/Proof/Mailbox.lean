import AgentOS.Lib.Ring
import AgentOS.Model.Message
import Mathlib.Data.List.Pairwise

/-!
# The mailbox is a bounded FIFO

* `MailboxInv`: the invariant of one mailbox against its two histories.
* `MailboxInv.put`, `MailboxInv.take`, `MailboxInv.drop`: the three ways it changes.
* `mailInv_step`, `mailInv_reach`: every section keeps it, so every run does.
* **`mailbox_fifo`**: indices, counters, order, conservation and reserved slots, in every run.
* `mailbox_sequence_wraps`: at `2^64` the sequence numbers wrap.
-/

namespace AgentOS

open Machine

/-- The queued messages, oldest first. -/
def AgentMailbox.queued (mb : AgentMailbox) : List AgentMessage :=
  Ring.window mb.queue mb.head mb.count.toNat

/-- Is this a SYSTEM message? -/
def AgentMessage.isSystem (m : AgentMessage) : Bool := decide (m.type = agentMessageTypeSystem)

theorem sendArgs_type {t : ℕ} {ty : ℤ} {pl : Option (List UInt8)} {r : UInt64} {a : SendArgs}
    (h : agentSendMessageArgs t ty pl r = some a) :
    a.msgType = agentMessageTypeNormal ∨ a.msgType = agentMessageTypeSystem := by
  unfold agentSendMessageArgs at h
  rcases pl with _ | pl
  · simp at h
  · dsimp only at h
    split at h
    · simp at h
    · rename_i hty
      simp only [Option.some.injEq] at h
      subst h
      by_contra hc
      rw [not_or] at hc
      exact hty hc

/-! ### One mailbox -/

/-- **The mailbox invariant**: counters and indices describe the queued messages, whose
letters continue those already returned, numbered in acceptance order modulo `2^64`. -/
structure MailboxInv (mb : AgentMailbox) (returned accepted : List Letter) : Prop where
  count_nonneg : 0 ≤ mb.count
  tail_eq : mb.tail = mb.head + Fin.ofNat agentMailboxCap mb.count.toNat
  normal_eq : mb.normalCount = (mb.queued.countP fun m => !m.isSystem : ℕ)
  system_eq : mb.systemCount = (mb.queued.countP fun m => m.isSystem : ℕ)
  normal_le : mb.normalCount ≤ agentMailboxCap - agentMailboxSystemSlots
  count_le : mb.count ≤ agentMailboxCap
  letters : returned ++ mb.queued.map AgentMessage.letter = accepted
  cut : ∀ m ∈ mb.queued, safestrcpy m.payload agentMessageMax = m.payload
  numbers : mb.queued.map AgentMessage.sequence =
    (List.range' (returned.length + 1) mb.queued.length).map (· % 2 ^ 64)
  next_eq : mb.nextSequence = (accepted.length + 1) % 2 ^ 64

namespace MailboxInv

variable {mb : AgentMailbox} {returned accepted : List Letter}

theorem empty : MailboxInv AgentMailbox.empty [] [] := by
  constructor <;> simp [AgentMailbox.empty, AgentMailbox.queued, agentMailboxCap,
    agentMailboxSystemSlots]

theorem length_queued (h : MailboxInv mb returned accepted) : (mb.queued.length : ℤ) = mb.count := by
  have := h.count_nonneg
  simp only [AgentMailbox.queued, Ring.window_length]
  omega

/-- `count = normal_count + system_count`. -/
theorem count_eq (h : MailboxInv mb returned accepted) :
    mb.count = mb.normalCount + mb.systemCount := by
  have hl := List.length_eq_countP_add_countP (fun m : AgentMessage => m.isSystem) (l := mb.queued)
  have hc := h.length_queued
  have hn := h.normal_eq
  have hs := h.system_eq
  simp only [Bool.not_eq_true, Bool.decide_eq_false] at hl
  omega

theorem accepted_length (h : MailboxInv mb returned accepted) :
    accepted.length = returned.length + mb.queued.length := by
  rw [← h.letters, List.length_append, List.length_map]

/-- Below `2^64` accepted messages the queued sequence numbers strictly increase. -/
theorem increasing (h : MailboxInv mb returned accepted) (hb : accepted.length < 2 ^ 64) :
    (mb.queued.map AgentMessage.sequence).Pairwise (· < ·) := by
  rw [h.numbers]
  have hl := h.accepted_length
  have hm : (List.range' (returned.length + 1) mb.queued.length).map (· % 2 ^ 64) =
      List.range' (returned.length + 1) mb.queued.length := by
    conv_rhs => rw [← List.map_id (List.range' _ _)]
    apply List.map_congr_left
    intro x hx
    rw [List.mem_range'_1] at hx
    exact Nat.mod_eq_of_lt (by omega)
  rw [hm]
  exact List.pairwise_lt_range'

/-- A SYSTEM message fits while fewer than `AGENT_MAILBOX_SYSTEM_SLOTS` are queued. -/
theorem system_fits (h : MailboxInv mb returned accepted)
    (hs : mb.queued.countP (fun m => m.isSystem) < agentMailboxSystemSlots) :
    ¬ mailboxFull mb agentMessageTypeSystem := by
  have hc := h.count_eq
  have hn := h.normal_le
  have he := h.system_eq
  simp only [agentMailboxSystemSlots] at hs hn
  simp only [agentMailboxCap] at hn
  rintro (⟨ht, -⟩ | hf)
  · exact absurd ht (by decide)
  · simp only [agentMailboxCap] at hf
    omega

/-- A message that fits is queued behind the others. -/
theorem queued_put (h : MailboxInv mb returned accepted) (srcPid : ℕ) (a : SendArgs)
    (hf : mb.count < agentMailboxCap) :
    (mailboxPut mb srcPid a).queued = mb.queued ++ [sentMessage srcPid a mb.nextSequence] := by
  have h0 := h.count_nonneg
  have hn : (mb.count + 1).toNat = mb.count.toNat + 1 := by omega
  simp only [AgentMailbox.queued, mailboxPut, hn, h.tail_eq]
  exact Ring.window_push _ _ (by omega) _

/-- **Put**: an accepted message extends the queue and the accepted letters. -/
theorem put (h : MailboxInv mb returned accepted) (srcPid : ℕ) (a : SendArgs)
    (ht : a.msgType = agentMessageTypeNormal ∨ a.msgType = agentMessageTypeSystem)
    (hf : ¬ mailboxFull mb a.msgType) :
    MailboxInv (mailboxPut mb srcPid a) returned (accepted ++ [a.letter srcPid]) := by
  have h0 := h.count_nonneg
  obtain ⟨hnf, hcf⟩ := not_or.1 hf
  rw [not_le] at hcf
  have hq := h.queued_put srcPid a hcf
  have hn := h.normal_eq
  have hs := h.system_eq
  have hletter : (sentMessage srcPid a mb.nextSequence).letter = a.letter srcPid := rfl
  have htail : mb.tail + 1 = mb.head + Fin.ofNat agentMailboxCap (mb.count + 1).toNat := by
    have hc : (mb.count + 1).toNat = mb.count.toNat + 1 := by omega
    rw [hc, Ring.ofNat_succ, h.tail_eq, add_assoc, add_comm 1]
  refine ⟨by simp only [mailboxPut]; omega, htail, ?_, ?_, ?_, by simp only [mailboxPut]; omega,
    ?_, ?_, ?_, ?_⟩
  · rw [hq, List.countP_append, List.countP_singleton]
    rcases ht with ht | ht <;>
      simp [mailboxPut, AgentMessage.isSystem, sentMessage, ht, hn, agentMessageTypeNormal,
        agentMessageTypeSystem]
  · rw [hq, List.countP_append, List.countP_singleton]
    rcases ht with ht | ht <;>
      simp [mailboxPut, AgentMessage.isSystem, sentMessage, ht, hs, agentMessageTypeNormal,
        agentMessageTypeSystem]
  · have hle := h.normal_le
    rcases ht with ht | ht
    · have hlt : mb.normalCount < agentMailboxCap - agentMailboxSystemSlots := by
        by_contra hc
        exact hnf ⟨ht, not_lt.1 hc⟩
      simp only [mailboxPut, ht]
      rw [if_neg (by decide)]
      omega
    · simp only [mailboxPut, ht, if_true]
      exact hle
  · rw [hq, List.map_append, List.map_singleton, hletter, ← List.append_assoc, h.letters]
  · intro m hm
    rw [hq, List.mem_append, List.mem_singleton] at hm
    rcases hm with hm | rfl
    · exact h.cut m hm
    · exact safestrcpy_idem _ _
  · have hnext : mb.nextSequence = (returned.length + 1 + mb.queued.length) % 2 ^ 64 := by
      rw [h.next_eq, h.accepted_length, Nat.add_right_comm]
    rw [hq, List.map_append, h.numbers, List.length_append, List.length_singleton,
      List.range'_1_concat, List.map_append, List.map_singleton, List.map_singleton, ← hnext]
    rfl
  · simp only [mailboxPut, h.next_eq, List.length_append, List.length_singleton]
    omega

/-- **Take**: the head leaves the queue and is the next returned letter. -/
theorem take (h : MailboxInv mb returned accepted) (hc : 0 < mb.count) (tick : ℕ) :
    MailboxInv (mailboxTake mb)
      (returned ++ [(messageEvent (mb.queue mb.head) tick).letter]) accepted := by
  have hle := h.count_le
  obtain ⟨n, hn⟩ : ∃ n : ℕ, mb.count = n + 1 := ⟨(mb.count - 1).toNat, by omega⟩
  have hn' : mb.count.toNat = n + 1 := by omega
  have hq : mb.queued = mb.queue mb.head :: (mailboxTake mb).queued := by
    have hlt : n < agentMailboxCap := by omega
    have hpop := Ring.window_pop mb.queue mb.head hlt AgentMessage.zero
    have hm : (mb.count - 1).toNat = n := by omega
    simp only [AgentMailbox.queued, mailboxTake, hn', hm, hpop]
    rw [Ring.window_cons, List.tail_cons]
  have hcut := h.cut _ (hq ▸ List.mem_cons_self)
  have hletter : (messageEvent (mb.queue mb.head) tick).letter = (mb.queue mb.head).letter := by
    simp only [messageEvent, AgentWaitEvent.letter, AgentMessage.letter, hcut]
  have hnum := h.numbers
  have hlet := h.letters
  have hcn := h.normal_eq
  have hcs := h.system_eq
  rw [hq] at hnum hlet hcn hcs
  rw [List.countP_cons] at hcn hcs
  simp only [List.map_cons, List.length_cons, List.range'_succ, List.cons.injEq] at hnum
  refine ⟨by simp only [mailboxTake]; omega, ?_, ?_, ?_, ?_, by simp only [mailboxTake]; omega,
    ?_, ?_, ?_, ?_⟩
  · have hm : (mb.count - 1).toNat = n := by omega
    simp only [mailboxTake, h.tail_eq, hn', hm, Ring.ofNat_succ, add_assoc]
  · by_cases hsys : (mb.queue mb.head).type = agentMessageTypeSystem
    · simpa [mailboxTake, AgentMessage.isSystem, hsys] using hcn
    · simp only [AgentMessage.isSystem, hsys, decide_false, Bool.not_false, if_true] at hcn
      simp only [mailboxTake, hsys, if_false, AgentMessage.isSystem] at hcn ⊢
      omega
  · by_cases hsys : (mb.queue mb.head).type = agentMessageTypeSystem
    · simp only [AgentMessage.isSystem, hsys, decide_true, if_true] at hcs
      simp only [mailboxTake, hsys, if_true, AgentMessage.isSystem] at hcs ⊢
      omega
    · simpa [mailboxTake, AgentMessage.isSystem, hsys] using hcs
  · have := h.normal_le
    simp only [mailboxTake]
    split <;> omega
  · rw [hletter, List.append_assoc, ← hlet]
    rfl
  · intro m hm
    exact h.cut m (hq ▸ List.mem_cons_of_mem _ hm)
  · rw [List.length_append, List.length_singleton]
    exact hnum.2
  · exact h.next_eq

/-- **Drop**: a refused message changes nothing that is queued. -/
theorem drop (h : MailboxInv mb returned accepted) (msgType : ℤ) :
    MailboxInv (mailboxDrop mb msgType) returned accepted :=
  ⟨h.1, h.2, h.3, h.4, h.5, h.6, h.7, h.8, h.9, h.10⟩

end MailboxInv

/-! ### The machine -/

/-- Every mailbox meets its invariant, and sends in progress have a checked type. -/
structure MailInv (s : MailState) : Prop where
  box : ∀ i, MailboxInv (s.kernel.procs i).mailbox (s.returned i) (s.accepted i)
  type : ∀ i a j, s.calls i = .sending a j →
    a.msgType = agentMessageTypeNormal ∨ a.msgType = agentMessageTypeSystem

namespace MailInv

variable {s : MailState}

/-- Moving a process to a control point other than a send. -/
theorem goto (h : MailInv s) (i : Slot) (c : MailCall) (hc : ∀ a j, c ≠ .sending a j) :
    MailInv (s.goto i c) := by
  refine ⟨h.box, fun i' a j hs => ?_⟩
  simp only [MailState.goto, Function.update_apply] at hs
  split at hs
  · exact absurd hs (hc a j)
  · exact h.type i' a j hs

/-- Moving a process along its search. -/
theorem goto_sending (h : MailInv s) (i : Slot) (a : SendArgs) (j : ℕ)
    (ht : a.msgType = agentMessageTypeNormal ∨ a.msgType = agentMessageTypeSystem) :
    MailInv (s.goto i (.sending a j)) := by
  refine ⟨h.box, fun i' a' j' hs => ?_⟩
  simp only [MailState.goto, Function.update_apply] at hs
  split at hs
  · simp only [MailCall.sending.injEq] at hs
    rw [← hs.1]; exact ht
  · exact h.type i' a' j' hs

/-- A record with the same mailbox may be stored. -/
theorem setProc_same (h : MailInv s) (i : Slot) (p : Proc)
    (hp : p.mailbox = (s.kernel.procs i).mailbox) :
    MailInv { s with kernel := s.kernel.setProc i p } := by
  refine ⟨fun j => ?_, h.type⟩
  rw [Kernel.setProc_procs]
  split
  · rename_i hj
    rw [hj, hp]; exact h.box i
  · exact h.box j

/-- A round of the wait loop. -/
theorem waitRound (h : MailInv s) (i : Slot) (p : Proc) (now now' : ℕ)
    (hp : p.mailbox = (s.kernel.procs i).mailbox) : MailInv (s.waitRound i p now now') := by
  rcases agentProcWaitIter_mailbox i p now now' with ⟨hc, hmb, hret⟩ | ⟨hmb, hret⟩
  · simp only [MailState.waitRound, hret, if_true]
    rw [hp] at hc hmb
    refine ⟨fun j => ?_, (h.goto i .user (by simp)).type⟩
    by_cases hj : j = i
    · subst hj
      simp only [MailState.goto, Kernel.setProc_self, Function.update_self, hmb, hp]
      exact (h.box j).take hc _
    · simp only [MailState.goto, Kernel.setProc_ne _ _ _ _ hj, Function.update_of_ne hj]
      exact h.box j
  · have hset := h.setProc_same i (agentProcWaitIter i p now now').1 (hmb.trans hp)
    unfold MailState.waitRound
    dsimp only
    split
    · exact hset.goto i _ (by simp)
    · rename_i ret e hr
      split
      · rename_i hm
        exact absurd (hm ▸ hr) (hret e)
      · exact hset.goto i _ (by simp)

/-- A look at one slot: deliver, refuse or go on. -/
theorem lookAt (h : MailInv s) (i j : Slot) (a : SendArgs) (now : ℕ)
    (ht : a.msgType = agentMessageTypeNormal ∨ a.msgType = agentMessageTypeSystem) :
    MailInv (s.lookAt i j a now) := by
  unfold MailState.lookAt
  dsimp only
  split
  · unfold agentSendMessageDeliver
    split
    · rw [if_neg (show ¬agentToolErrBusy = agentToolOk by decide)]
      refine ⟨fun j' => ?_, (h.goto i .user (by simp)).type⟩
      by_cases hj : j' = j
      · subst hj
        simp only [MailState.goto, Kernel.setProc_self]
        exact (h.box j').drop _
      · simp only [MailState.goto, Kernel.setProc_ne _ _ _ _ hj]
        exact h.box j'
    · rename_i hfull
      simp only [if_true]
      refine ⟨fun j' => ?_, (h.goto i .user (by simp)).type⟩
      by_cases hj : j' = j
      · subst hj
        simp only [MailState.goto, Kernel.setProc_self, agentSignalEventLocked_mailbox,
          Function.update_self]
        exact (h.box j').put _ a ht hfull
      · simp only [MailState.goto, Kernel.setProc_ne _ _ _ _ hj, Function.update_of_ne hj]
        exact h.box j'
  · exact h.goto_sending i a _ ht

end MailInv

/-- **Step**: every section keeps the invariant. -/
theorem mailInv_step (s : MailState) (l : MailLabel) (t : MailState) (h : MailInv s)
    (_ : always s l) (hn : mailMachine.next s l = some t) : MailInv t := by
  cases l with
  | send i targetPid msgType payload requestId =>
    simp only [mailMachine, MailState.next] at hn
    split at hn
    · split at hn
      · simp only [Option.some.injEq] at hn; exact hn ▸ h
      · rename_i a ha
        simp only [Option.some.injEq] at hn
        exact hn ▸ h.goto_sending i a 0 (sendArgs_type ha)
    · simp at hn
  | look i now =>
    simp only [mailMachine, MailState.next] at hn
    split at hn
    · rename_i a j hc
      split at hn
      · simp only [Option.some.injEq] at hn
        exact hn ▸ h.lookAt i _ a now (h.type i a j hc)
      · simp only [Option.some.injEq] at hn
        exact hn ▸ h.goto i _ (by simp)
    · simp at hn
  | wait i timeoutTicks =>
    simp only [mailMachine, MailState.next] at hn
    split at hn
    · split at hn
      · simp only [Option.some.injEq] at hn; exact hn ▸ h
      · simp only [Option.some.injEq] at hn
        exact hn ▸ h.goto i _ (by simp)
    · simp at hn
  | enter i now now' now'' =>
    simp only [mailMachine, MailState.next] at hn
    split at hn
    · simp only [Option.some.injEq] at hn
      exact hn ▸ h.waitRound i _ _ _ rfl
    · simp at hn
  | resume i now now' =>
    simp only [mailMachine, MailState.next] at hn
    split at hn
    · simp only [Option.some.injEq] at hn
      exact hn ▸ h.waitRound i _ _ _ rfl
    · simp at hn
  | other i p =>
    simp only [mailMachine, MailState.next, Option.some.injEq] at hn
    exact hn ▸ h.setProc_same i _ rfl

theorem mailInv_init (s : MailState) (h : mailMachine.init s) : MailInv s := by
  obtain ⟨hc, hh⟩ := h
  refine ⟨fun i => ?_, fun i a j hs => ?_⟩
  · rw [(hc i).2, (hh i).1, (hh i).2]; exact MailboxInv.empty
  · rw [(hc i).1] at hs; cases hs

/-- **Run**: the invariant holds in every reachable state. -/
theorem mailInv_reach {tr : List MailLabel} {s : MailState} (h : mailMachine.Reach always tr s) :
    MailInv s :=
  h.inv mailInv_init mailInv_step

/-- What a bounded FIFO mailbox does, for the process in slot `i` with record `p`. -/
structure MailboxFifo (i : Slot) (p : Proc) (returned accepted : List Letter) : Prop where
  tail_eq : p.mailbox.tail = p.mailbox.head + Fin.ofNat agentMailboxCap p.mailbox.count.toNat
  count_eq : p.mailbox.count = p.mailbox.normalCount + p.mailbox.systemCount
  queued_count : (p.mailbox.queued.length : ℤ) = p.mailbox.count
  normal_le : p.mailbox.normalCount ≤ agentMailboxCap - agentMailboxSystemSlots
  increasing : accepted.length < 2 ^ 64 →
    (p.mailbox.queued.map AgentMessage.sequence).Pairwise (· < ·)
  exactly_once : returned ++ p.mailbox.queued.map AgentMessage.letter = accepted
  system_accepted : ∀ (srcPid : ℕ) (a : SendArgs) (now : ℕ),
    a.msgType = agentMessageTypeSystem →
    p.mailbox.queued.countP (fun m => m.isSystem) < agentMailboxSystemSlots →
    (agentSendMessageDeliver i p srcPid a now).2 = agentToolOk

/-- **The mailbox is a FIFO that delivers exactly once**, in every state of every
interleaving. Its sequence numbers increase until `2^64` messages are accepted. -/
theorem mailbox_fifo {tr : List MailLabel} {s : MailState} (h : mailMachine.Reach always tr s)
    (i : Slot) : MailboxFifo i (s.kernel.procs i) (s.returned i) (s.accepted i) := by
  have hi := (mailInv_reach h).box i
  refine ⟨hi.tail_eq, hi.count_eq, hi.length_queued, hi.normal_le, hi.increasing, hi.letters,
    fun srcPid a now ha hs => ?_⟩
  unfold agentSendMessageDeliver
  rw [ha, if_neg (hi.system_fits hs)]

/-- A kernel whose slot 0 is a running agent with pid 1. -/
def oneAgent : MailState where
  kernel := Kernel.boot.setProc 0
    { Proc.boot with pid := 1, state := .running, ident.agentType := agentTypePrimary }
  calls := fun _ => .user
  accepted := fun _ => []
  returned := fun _ => []

theorem oneAgent_init : mailMachine.init oneAgent := by
  refine ⟨fun i => ⟨rfl, ?_⟩, fun _ => ⟨rfl, rfl⟩⟩
  simp only [oneAgent, Kernel.setProc_procs]
  split <;> rfl

/-- One message sent and not yet received. -/
theorem mailbox_fifo_one : ∃ (tr : List MailLabel) (s : MailState),
    mailMachine.Reach always tr s ∧ (s.accepted 0).length = 1 ∧
      MailboxFifo 0 (s.kernel.procs 0) (s.returned 0) (s.accepted 0) := by
  let tr : List MailLabel :=
    [.send 0 1 agentMessageTypeNormal (some [104, 105]) 7, .look 0 5]
  have hrun : mailMachine.run oneAgent tr =
      some ((oneAgent.goto 0 (.sending ⟨1, 0, [104, 105], 7⟩ 0)).lookAt 0 0
        ⟨1, 0, [104, 105], 7⟩ 5) := rfl
  have hr : mailMachine.Reach always tr _ := ⟨oneAgent, oneAgent_init, path_of_run hrun⟩
  have hl : (((oneAgent.goto 0 (.sending ⟨1, 0, [104, 105], 7⟩ 0)).lookAt 0 0
      ⟨1, 0, [104, 105], 7⟩ 5).accepted 0).length = 1 := by decide
  exact ⟨tr, _, hr, hl, mailbox_fifo hr 0⟩

/-! ### The sequence counter wraps -/

/-- Agent 1 in slot 0, in user mode with an empty mailbox, after `n` messages. -/
structure Quiet (s : MailState) (n : ℕ) : Prop where
  user : s.calls 0 = .user
  pid : (s.kernel.procs 0).pid = 1
  state : (s.kernel.procs 0).state = .running
  type : (s.kernel.procs 0).ident.agentType = agentTypePrimary
  pending : (s.kernel.procs 0).loop.pendingEvents = 0
  count : (s.kernel.procs 0).mailbox.count = 0
  normal : (s.kernel.procs 0).mailbox.normalCount = 0
  tail : (s.kernel.procs 0).mailbox.tail = (s.kernel.procs 0).mailbox.head
  next : (s.kernel.procs 0).mailbox.nextSequence = (n + 1) % 2 ^ 64

/-- An empty message to oneself. -/
def selfSend : SendArgs := ⟨1, agentMessageTypeNormal, [], 0⟩

/-- `send` then `look`: agent 1 queues a message for itself. -/
theorem selfSend_path {s : MailState} (hu : s.calls 0 = .user)
    (hp : isSendTarget (s.kernel.procs 0) 1)
    (hf : ¬ mailboxFull (s.kernel.procs 0).mailbox agentMessageTypeNormal) :
    ∃ tr t, mailMachine.Path always s tr t ∧ t.calls 0 = .user ∧
      t.kernel.procs 0 = agentSignalEventLocked 0
        { s.kernel.procs 0 with
          mailbox := mailboxPut (s.kernel.procs 0).mailbox (s.kernel.procs 0).pid selfSend }
        agentEventMessage 0 := by
  have h1 : mailMachine.next s (.send 0 1 agentMessageTypeNormal (some []) 0) =
      some (s.goto 0 (.sending selfSend 0)) := by
    simp [mailMachine, MailState.next, hu, agentSendMessageArgs, selfSend]
  have h2 : mailMachine.next (s.goto 0 (.sending selfSend 0)) (.look 0 0) =
      some ((s.goto 0 (.sending selfSend 0)).lookAt 0 0 selfSend 0) := by
    simp [mailMachine, MailState.next, MailState.goto, nproc]
    rfl
  refine ⟨_, _, (Path.single trivial h1).trans (Path.single trivial h2), ?_⟩
  have hp' : isSendTarget ((s.goto 0 (.sending selfSend 0)).kernel.procs 0) selfSend.targetPid := hp
  have hf' : ¬ mailboxFull ((s.goto 0 (.sending selfSend 0)).kernel.procs 0).mailbox
    selfSend.msgType := hf
  simp only [MailState.lookAt, if_pos hp', agentSendMessageDeliver, if_neg hf', if_true]
  simp [MailState.goto]

/-- A send to oneself and the wait that takes it. -/
theorem quiet_succ {s : MailState} {n : ℕ} (h : Quiet s n) :
    ∃ tr t, mailMachine.Path always s tr t ∧ Quiet t (n + 1) := by
  have hp : isSendTarget (s.kernel.procs 0) 1 :=
    ⟨h.pid, by rw [h.state]; decide, by rw [h.type]; decide⟩
  have hf : ¬ mailboxFull (s.kernel.procs 0).mailbox agentMessageTypeNormal := by
    simp [mailboxFull, h.normal, h.count, agentMailboxSystemSlots]
  obtain ⟨tr, t, hpath, hu, ht⟩ := selfSend_path h.user hp hf
  have htype : (t.kernel.procs 0).ident.agentType = agentTypePrimary := by
    rw [ht, agentSignalEventLocked]; simp [h.state, h.type]
  have hcount : (t.kernel.procs 0).mailbox.count = 1 := by
    rw [ht]; simp [mailboxPut, h.count]
  have h1 : mailMachine.next t (.wait 0 0) = some (t.goto 0 (.waitEnter 0)) := by
    simp [mailMachine, MailState.next, hu, htype, agentProcWaitNoSource, hcount,
      agentTypePrimary, agentTypeNormal]
  have h2 : mailMachine.next (t.goto 0 (.waitEnter 0)) (.enter 0 0 0 0) =
      some ((t.goto 0 (.waitEnter 0)).waitRound 0
        (agentProcWaitBegin (t.kernel.procs 0) 0 0) 0 0) := by
    simp [mailMachine, MailState.next, MailState.goto]
  refine ⟨_, _, hpath.trans ((Path.single trivial h1).trans (Path.single trivial h2)), ?_⟩
  have hpend : (t.kernel.procs 0).loop.pendingEvents = agentEventMessage := by
    rw [ht, agentSignalEventLocked]; simp [h.state, h.pending]
  have hmb : (t.kernel.procs 0).mailbox =
      mailboxPut (s.kernel.procs 0).mailbox (s.kernel.procs 0).pid selfSend := by
    rw [ht]; simp
  have hiter : agentProcWaitIter 0 (agentProcWaitBegin (t.kernel.procs 0) 0 0) 0 0 =
      ((agentProcWaitMessage (agentProcWaitBegin (t.kernel.procs 0) 0 0) 0).1,
        .returned agentWaitMessage
          (agentProcWaitMessage (agentProcWaitBegin (t.kernel.procs 0) 0 0) 0).2) := by
    simp [agentProcWaitIter, agentProcWaitBegin, hpend, hcount, agentEventMessage,
      agentEventParentGone]
  have hstate : (t.kernel.procs 0).state = .running := by
    rw [ht, agentSignalEventLocked]; simp [h.state]
  have hpid : (t.kernel.procs 0).pid = 1 := by
    rw [ht, agentSignalEventLocked]; simp [h.state, h.pid]
  have htake : mailboxTake (t.kernel.procs 0).mailbox =
      { (s.kernel.procs 0).mailbox with
        queue := Function.update (Function.update (s.kernel.procs 0).mailbox.queue
          (s.kernel.procs 0).mailbox.head (sentMessage (s.kernel.procs 0).pid selfSend
            (s.kernel.procs 0).mailbox.nextSequence))
          (s.kernel.procs 0).mailbox.head AgentMessage.zero
        head := (s.kernel.procs 0).mailbox.head + 1
        tail := (s.kernel.procs 0).mailbox.head + 1
        nextSequence := ((s.kernel.procs 0).mailbox.nextSequence + 1) % 2 ^ 64 } := by
    rw [hmb]
    simp [mailboxTake, mailboxPut, h.tail, h.count, h.normal, sentMessage, selfSend,
      agentMessageTypeNormal, agentMessageTypeSystem]
  simp only [MailState.waitRound, hiter, if_true]
  constructor
  · simp [MailState.goto]
  all_goals
    simp only [MailState.goto, Kernel.setProc_self, agentProcWaitMessage, waitFinish,
      agentProcWaitBegin, htake]
  · exact hpid
  · exact hstate
  · exact htype
  · rw [h.count, hpend]; decide
  · exact h.count
  · exact h.normal
  · rw [h.next]; omega

/-- After any number of such messages the agent is quiet again. -/
theorem quiet_reach {s : MailState} (hi : mailMachine.init s) (h : Quiet s 0) (n : ℕ) :
    ∃ tr t, mailMachine.Reach always tr t ∧ Quiet t n := by
  induction n with
  | zero => exact ⟨[], s, ⟨s, hi, Path.nil s⟩, h⟩
  | succ n ih =>
    obtain ⟨tr, t, hr, hq⟩ := ih
    obtain ⟨tr', u, hp, hu⟩ := quiet_succ hq
    exact ⟨tr ++ tr', u, hr.trans hp, hu⟩

theorem oneAgent_quiet : Quiet oneAgent 0 := by
  constructor <;> simp [oneAgent, Proc.boot, agentInitProc, Loop.init, AgentMailbox.empty]

/-- After `2^64 - 2` messages the next two are numbered `2^64 - 1` and `0`. -/
theorem mailbox_sequence_wraps :
    ¬ ∀ (tr : List MailLabel) (s : MailState), mailMachine.Reach always tr s →
      ∀ i, ((s.kernel.procs i).mailbox.queued.map AgentMessage.sequence).Pairwise (· < ·) := by
  intro hall
  obtain ⟨tr, s, hr, h⟩ := quiet_reach oneAgent_init oneAgent_quiet (2 ^ 64 - 2)
  obtain ⟨tr₁, t, hp₁, hu₁, ht⟩ := selfSend_path h.user
    ⟨h.pid, by rw [h.state]; decide, by rw [h.type]; decide⟩
    (by simp [mailboxFull, h.normal, h.count, agentMailboxSystemSlots])
  have hmb : (t.kernel.procs 0).mailbox =
      mailboxPut (s.kernel.procs 0).mailbox (s.kernel.procs 0).pid selfSend := by
    rw [ht]; simp
  have hnormal : (t.kernel.procs 0).mailbox.normalCount = 1 := by
    rw [hmb]; simp [mailboxPut, h.normal, selfSend, agentMessageTypeNormal, agentMessageTypeSystem]
  have hcount : (t.kernel.procs 0).mailbox.count = 1 := by
    rw [hmb]; simp [mailboxPut, h.count]
  have htarget : isSendTarget (t.kernel.procs 0) 1 := by
    rw [ht, agentSignalEventLocked]
    simp [isSendTarget, h.state, h.pid, h.type, agentTypePrimary, agentTypeNormal]
  obtain ⟨tr₂, u, hp₂, -, hu⟩ := selfSend_path hu₁ htarget
    (by simp [mailboxFull, hnormal, hcount, agentMailboxSystemSlots])
  have hru := (hr.trans hp₁).trans hp₂
  have hq₀ : (s.kernel.procs 0).mailbox.queued = [] := by
    simp [AgentMailbox.queued, h.count]
  have hq₁ := ((mailInv_reach hr).box 0).queued_put (s.kernel.procs 0).pid selfSend
    (by rw [h.count]; decide)
  have hq₂ := ((mailInv_reach (hr.trans hp₁)).box 0).queued_put (t.kernel.procs 0).pid selfSend
    (by rw [hcount]; decide)
  have hlast := hall _ u hru 0
  -- the two sequence numbers in the queue are 2^64 - 1 and 0
  rw [hu, agentSignalEventLocked_mailbox, hq₂, hmb, hq₁, hq₀] at hlast
  simp [sentMessage, mailboxPut, h.next] at hlast

end AgentOS
