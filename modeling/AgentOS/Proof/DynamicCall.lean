import AgentOS.Model.DynamicCall
import Mathlib.Data.List.Nodup

/-!
# Requests and replies of dynamic tools

* `DynInv`: the invariant: request ids count the calls, slots and callers match one to one,
  every reply in a slot came from the owner of the tool or from its exit.
* `DynInv.enqueue`, `DynInv.finish`, `DynInv.deliver`, `DynInv.reply`, `DynInv.exit`: the sections
  that change a request slot keep it.
* `dynInv_step`, `dynInv_reach`: so does every step and every run.
* **`dynamic_call_protocol`**: distinct ids, at most one receiver, no crossed reply, no leaked
  slot, no call left on an exited service.
-/

namespace AgentOS

open Machine

/-- The request slots of a state. -/
abbrev DynState.reqs (s : DynState) : Fin agentDynamicRequestMax → AgentDynamicRequestSlot :=
  s.runtime.dynamicRequests

/-- What an answer may be: what the owner of the tool replied to this very call, or SERVICE_GONE
for an owner that exited or a caller that was killed. -/
def AnswerOk (s : DynState) (a : Answer) : Prop :=
  ∃ m ∈ s.made, m.id = a.id ∧ m.caller = a.caller ∧
    ((∃ r ∈ s.replies, r.id = a.id ∧ r.service = m.owner ∧
        a.response = toolRespSet r.status r.result ∧ a.response.result = r.result) ∨
      (a.response.status = agentToolErrServiceGone ∧ (m.owner ∈ s.exited ∨ a.killed = true)))

/-- What the reply in a slot may be. -/
def SlotReplied (s : DynState) (q : AgentDynamicRequestSlot) : Prop :=
  (∃ r ∈ s.replies, r.id = q.id ∧ r.service = q.servicePid ∧ r.status = q.status ∧
      r.result = q.result ∧ safestrcpy r.result agentToolResultMax = r.result) ∨
    (q.status = agentToolErrServiceGone ∧ q.servicePid ∈ s.exited)

/-- Pids of processes in use are distinct, below the counter, and not those of exited ones. -/
structure PidsInv (s : DynState) : Prop where
  lt : ∀ i, s.points i ≠ .gone → (s.proc i).pid < s.kernel.nextpid
  inj : ∀ i j, s.points i ≠ .gone → s.points j ≠ .gone → (s.proc i).pid = (s.proc j).pid → i = j
  live : ∀ i, s.points i ≠ .gone → (s.proc i).pid ∉ s.exited
  exited_lt : ∀ p ∈ s.exited, p < s.kernel.nextpid

/-- Below `2^31` calls the ids count them. -/
structure IdsInv (s : DynState) : Prop where
  next_eq : s.made.length < 2 ^ 31 - 1 → s.runtime.agentNextRequestId = s.made.length + 1
  bounds : s.made.length < 2 ^ 31 → ∀ m ∈ s.made, 1 ≤ m.id ∧ m.id ≤ s.made.length
  nodup : s.made.length < 2 ^ 31 → (s.made.map Made.id).Nodup

/-- Used slots and processes inside a call match one to one. -/
structure SlotsInv (s : DynState) : Prop where
  made : ∀ j, (s.reqs j).used = true →
    ⟨(s.reqs j).id, (s.reqs j).callerPid, (s.reqs j).servicePid⟩ ∈ s.made
  inj : s.made.length < 2 ^ 31 → ∀ j j', (s.reqs j).used = true → (s.reqs j').used = true →
    (s.reqs j).id = (s.reqs j').id → j = j'
  call : ∀ j, (s.reqs j).used = true →
    ∃ i, s.points i = .inCall j (s.reqs j).id ∧ (s.proc i).pid = (s.reqs j).callerPid
  slot : ∀ i j id, s.points i = .inCall j id →
    (s.reqs j).used = true ∧ (s.reqs j).id = id ∧ (s.reqs j).callerPid = (s.proc i).pid

/-- Requests are handed out once, to the owner of the tool. -/
structure HandedInv (s : DynState) : Prop where
  made : ∀ h ∈ s.handed, ∃ m ∈ s.made, m.id = h.id ∧ m.owner = h.service
  nodup : s.made.length < 2 ^ 31 → (s.handed.map Handed.id).Nodup
  fresh : s.made.length < 2 ^ 31 → ∀ j, (s.reqs j).used = true → (s.reqs j).delivered = false →
    ∀ h ∈ s.handed, h.id ≠ (s.reqs j).id

/-- Replies in slots are genuine; unreplied slots and tools have a service that has not exited. -/
structure RepliesInv (s : DynState) : Prop where
  replied : ∀ j, (s.reqs j).used = true → (s.reqs j).replied = true → SlotReplied s (s.reqs j)
  waiting : ∀ j, (s.reqs j).used = true → (s.reqs j).replied = false →
    (s.reqs j).servicePid ∉ s.exited
  tool : ∀ t, (s.runtime.dynamicTools t).used = true →
    (s.runtime.dynamicTools t).ownerPid ∉ s.exited

/-- **The invariant.** -/
structure DynInv (s : DynState) : Prop where
  pids : PidsInv s
  ids : IdsInv s
  slots : SlotsInv s
  handed : HandedInv s
  replies : RepliesInv s
  answers : ∀ a ∈ s.answers, AnswerOk s a

/-- An accepted request takes a free slot, has the next id and names the owner of the tool,
which is in the table. -/
theorem dynamicCallAdmit_ok {r r' : Runtime} {p : Proc} {tool params : List UInt8}
    {slot : Fin agentDynamicRequestMax} (h : dynamicCallAdmit r p tool params = .ok (r', slot)) :
    (r.dynamicRequests slot).used = false ∧
      (∃ t, (r.dynamicTools t).used = true ∧ (r.dynamicTools t).ownerPid = toolOwner r tool) ∧
      ∃ q : AgentDynamicRequestSlot, q.used = true ∧ q.delivered = false ∧ q.replied = false ∧
        q.id = r.agentNextRequestId ∧ q.callerPid = p.pid ∧ q.servicePid = toolOwner r tool ∧
        r' = { r.setRequest slot q with
          agentNextRequestId := nextRequestId r.agentNextRequestId } := by
  unfold dynamicCallAdmit at h
  split at h
  · cases h
  rename_i t ht
  dsimp only at h
  split at h
  · cases h
  split at h
  · cases h
  split at h
  · cases h
  rename_i slot' hslot
  simp only [Except.ok.injEq, Prod.mk.injEq] at h
  obtain ⟨rfl, rfl⟩ := h
  have howner : toolOwner r tool = (r.dynamicTools t).ownerPid := by simp [toolOwner, ht]
  have hused := Table.first_some hslot
  have htool := Table.first_some ht
  simp only [Bool.not_eq_true', Bool.and_eq_true] at hused htool
  exact ⟨hused, ⟨t, htool.1, howner.symm⟩, _, rfl, rfl, rfl, rfl, rfl, howner.symm, rfl⟩

/-- A round of `agent_tool_recv` takes an undelivered request of its own, fails or sleeps. -/
theorem agentToolRecvRound_cases (r : Runtime) (pid : ℕ) (killed : Bool) :
    (∃ j, (r.dynamicRequests j).used = true ∧ (r.dynamicRequests j).delivered = false ∧
      (r.dynamicRequests j).servicePid = pid ∧
      agentToolRecvRound r pid killed =
        (r.setRequest j { r.dynamicRequests j with delivered := true },
          .request ⟨(r.dynamicRequests j).id, (r.dynamicRequests j).callerPid,
            (r.dynamicRequests j).spanId, (r.dynamicRequests j).tool,
            (r.dynamicRequests j).params⟩)) ∨
    agentToolRecvRound r pid killed = (r, .failed) ∨
    agentToolRecvRound r pid killed = (r, .asleep) := by
  unfold agentToolRecvRound
  split
  · rename_i j hj
    have hf := Table.first_some hj
    simp only [Bool.and_eq_true, Bool.not_eq_true', beq_iff_eq] at hf
    exact .inl ⟨j, hf.1.1, hf.1.2, hf.2, rfl⟩
  · split
    · exact .inr (.inl rfl)
    · exact .inr (.inr rfl)

/-- An accepted reply is for a request with this id whose service is the replier. -/
theorem agentToolReply_ok {r : Runtime} {p : Proc} {id status : ℤ} {result : List UInt8}
    (h : (agentToolReply r p id result status).2 = 0) :
    ∃ j, (r.dynamicRequests j).used = true ∧ (r.dynamicRequests j).id = id ∧
      (r.dynamicRequests j).servicePid = p.pid ∧
      (agentToolReply r p id result status).1 = r.setRequest j
        { r.dynamicRequests j with
          status := status, result := safestrcpy result agentToolResultMax, replied := true } := by
  unfold agentToolReply at h ⊢
  split at h
  · exact absurd h (show agentToolErrNotAgent ≠ 0 by decide)
  rename_i ht
  rw [if_neg ht]
  split at h
  · rename_i j hj
    have hf := Table.first_some hj
    simp only [Bool.and_eq_true, beq_iff_eq] at hf
    exact ⟨j, hf.1.1, hf.1.2, hf.2, rfl⟩
  · exact absurd h (show agentToolErrBadParam ≠ 0 by decide)

/-- A registration changes the tool table only, by a tool of the caller. -/
theorem agentToolRegister_cases (r : Runtime) (p : Proc) (name : List UInt8) (flags : BitVec 32) :
    ∃ f, (agentToolRegister r p name flags).1 = { r with dynamicTools := f } ∧
      ∀ t, (f t).used = true → f t = r.dynamicTools t ∨ (f t).ownerPid = p.pid := by
  unfold agentToolRegister
  split
  · exact ⟨_, rfl, fun _ _ => .inl rfl⟩
  split
  · exact ⟨_, rfl, fun _ _ => .inl rfl⟩
  split
  · exact ⟨_, rfl, fun _ _ => .inl rfl⟩
  split
  · exact ⟨_, rfl, fun _ _ => .inl rfl⟩
  split
  · exact ⟨_, rfl, fun _ _ => .inl rfl⟩
  · rename_i slot _
    refine ⟨_, rfl, fun t _ => ?_⟩
    by_cases ht : t = slot
    · subst ht; right; rw [Function.update_self]
    · left; rw [Function.update_of_ne ht]

/-- Below `2^31` the id counter counts. -/
theorem nextRequestId_of_lt {n : ℕ} (h : n + 2 < 2 ^ 31) : nextRequestId (n + 1) = n + 2 := by
  have e : toInt32 ((n : ℤ) + 1 + 1) = n + 2 := by
    unfold toInt32
    rw [Int.emod_eq_of_lt (by omega) (by omega)]
    omega
  unfold nextRequestId
  rw [e, if_neg (by omega)]

/-! ### Histories only grow -/

theorem SlotReplied.mono {s t : DynState} {q : AgentDynamicRequestSlot} (h : SlotReplied s q)
    (hr : s.replies ⊆ t.replies) (he : s.exited ⊆ t.exited) : SlotReplied t q := by
  rcases h with ⟨r, hm, hq⟩ | ⟨hq, hx⟩
  · exact .inl ⟨r, hr hm, hq⟩
  · exact .inr ⟨hq, he hx⟩

theorem AnswerOk.mono {s t : DynState} {a : Answer} (h : AnswerOk s a) (hm : s.made ⊆ t.made)
    (hr : s.replies ⊆ t.replies) (he : s.exited ⊆ t.exited) : AnswerOk t a := by
  obtain ⟨m, hmem, hid, hc, ⟨r, hrm, hq⟩ | ⟨hq, hx | hk⟩⟩ := h
  · exact ⟨m, hm hmem, hid, hc, .inl ⟨r, hr hrm, hq⟩⟩
  · exact ⟨m, hm hmem, hid, hc, .inr ⟨hq, .inl (he hx)⟩⟩
  · exact ⟨m, hm hmem, hid, hc, .inr ⟨hq, .inr hk⟩⟩

/-! ### Sections that leave the request slots alone -/

/-- Two slots that agree on who asked whom. -/
structure SameCall (q q' : AgentDynamicRequestSlot) : Prop where
  used : q'.used = q.used
  id : q'.id = q.id
  caller : q'.callerPid = q.callerPid
  service : q'.servicePid = q.servicePid

theorem SameCall.refl (q : AgentDynamicRequestSlot) : SameCall q q := ⟨rfl, rfl, rfl, rfl⟩

/-- A slot that is overwritten by one of the same call stays the same call. -/
theorem sameCall_update {f : Fin agentDynamicRequestMax → AgentDynamicRequestSlot}
    {j : Fin agentDynamicRequestMax} {q : AgentDynamicRequestSlot} (h : SameCall (f j) q)
    (m : Fin agentDynamicRequestMax) : SameCall (f m) (Function.update f j q m) := by
  by_cases hm : m = j
  · subst hm; rw [Function.update_self]; exact h
  · rw [Function.update_of_ne hm]; exact SameCall.refl _

/-- The match of slots and callers depends on the calls in progress only. -/
theorem SlotsInv.frame {s t : DynState} (h : SlotsInv s) (hm : t.made = s.made)
    (hp : ∀ i j id, t.points i = .inCall j id ↔ s.points i = .inCall j id)
    (hk : ∀ i j id, s.points i = .inCall j id → (t.proc i).pid = (s.proc i).pid)
    (hf : ∀ m, SameCall (s.reqs m) (t.reqs m)) : SlotsInv t := by
  refine ⟨fun m hu => ?_, fun hb m m' hu hu' he => ?_, fun m hu => ?_, fun i m id hc => ?_⟩
  · obtain ⟨h1, h2, h3, h4⟩ := hf m
    rw [h2, h3, h4, hm]
    exact h.made m (h1 ▸ hu)
  · rw [(hf m).id, (hf m').id] at he
    rw [hm] at hb
    exact h.inj hb m m' ((hf m).used ▸ hu) ((hf m').used ▸ hu') he
  · obtain ⟨i, hi, hpid⟩ := h.call m ((hf m).used ▸ hu)
    refine ⟨i, ?_, ?_⟩
    · rw [hp, (hf m).id]; exact hi
    · rw [(hf m).caller, ← hpid, hk i m _ hi]
  · rw [hp] at hc
    obtain ⟨h1, h2, h3⟩ := h.slot i m id hc
    rw [(hf m).used, (hf m).id, (hf m).caller, hk i m id hc]
    exact ⟨h1, h2, h3⟩

/-- Moving a process from one control point outside calls to another leaves the calls alone. -/
theorem inCall_goto {s : DynState} {i : Slot} {c : CallPoint}
    (hi : ∀ j id, s.points i ≠ .inCall j id) (hc : ∀ j id, c ≠ .inCall j id) (i' : Slot)
    (j : Fin agentDynamicRequestMax) (id : ℤ) :
    Function.update s.points i c i' = .inCall j id ↔ s.points i' = .inCall j id := by
  by_cases hii : i' = i
  · subst hii; simp [hc, hi]
  · rw [Function.update_of_ne hii]

/-- The match of pids and processes depends on who is alive only. -/
theorem PidsInv.frame {s t : DynState} (h : PidsInv s) (hk : t.kernel = s.kernel)
    (he : t.exited = s.exited) (hp : ∀ m, t.points m ≠ .gone → s.points m ≠ .gone) :
    PidsInv t := by
  have hproc : ∀ m, t.proc m = s.proc m := by
    intro m
    unfold DynState.proc
    rw [hk]
  refine ⟨fun m hm => ?_, fun m m' hm hm' heq => ?_, fun m hm => ?_, ?_⟩
  · rw [hproc, hk]
    exact h.lt m (hp m hm)
  · rw [hproc, hproc] at heq
    exact h.inj m m' (hp m hm) (hp m' hm') heq
  · rw [hproc, he]
    exact h.live m (hp m hm)
  · rw [he, hk]
    exact h.exited_lt

/-- A process that was alive moves: nobody comes to life. -/
theorem alive_update {s : DynState} {i : Slot} {c : CallPoint} (hl : s.points i ≠ .gone) (m : Slot)
    (hm : Function.update s.points i c m ≠ .gone) : s.points m ≠ .gone := by
  by_cases hmi : m = i
  · rwa [hmi]
  · rwa [Function.update_of_ne hmi] at hm

/-! ### A new request -/

/-- Process `i` has put the request `q` into slot `j`. -/
def DynState.enqueued (s : DynState) (i : Slot) (j : Fin agentDynamicRequestMax)
    (q : AgentDynamicRequestSlot) : DynState :=
  { s with
    runtime := { s.runtime.setRequest j q with
      agentNextRequestId := nextRequestId s.runtime.agentNextRequestId }
    points := Function.update s.points i (.inCall j q.id)
    made := s.made ++ [⟨q.id, q.callerPid, q.servicePid⟩] }

/-- A request of process `i` that is new in slot `j`. -/
structure Request (s : DynState) (i : Slot) (j : Fin agentDynamicRequestMax)
    (q : AgentDynamicRequestSlot) : Prop where
  free : (s.reqs j).used = false
  used : q.used = true
  delivered : q.delivered = false
  replied : q.replied = false
  id : q.id = s.runtime.agentNextRequestId
  caller : q.callerPid = (s.proc i).pid

section

variable {s : DynState} {i : Slot} {j : Fin agentDynamicRequestMax} {q : AgentDynamicRequestSlot}

theorem enqueued_reqs (s : DynState) (i : Slot) (j : Fin agentDynamicRequestMax)
    (q : AgentDynamicRequestSlot) (m : Fin agentDynamicRequestMax) :
    (m = j ∧ (s.enqueued i j q).reqs m = q) ∨ (m ≠ j ∧ (s.enqueued i j q).reqs m = s.reqs m) :=
  Table.update_cases ..

theorem enqueued_length : (s.enqueued i j q).made.length = s.made.length + 1 := by
  simp [DynState.enqueued]

theorem made_subset : s.made ⊆ (s.enqueued i j q).made := List.subset_append_left _ _

/-- The new id is the number of the call. -/
theorem Request.id_eq (hq : Request s i j q) (h : IdsInv s)
    (hb : (s.enqueued i j q).made.length < 2 ^ 31) : q.id = s.made.length + 1 := by
  rw [enqueued_length] at hb
  rw [hq.id, h.next_eq (by omega)]

/-- No call before had it. -/
theorem Request.id_ne (hq : Request s i j q) (h : IdsInv s)
    (hb : (s.enqueued i j q).made.length < 2 ^ 31) {m : Made} (hm : m ∈ s.made) : m.id ≠ q.id := by
  have hid := hq.id_eq h hb
  rw [enqueued_length] at hb
  have hle := (h.bounds (by omega) m hm).2
  omega

theorem IdsInv.enqueued (h : IdsInv s) (hq : Request s i j q) : IdsInv (s.enqueued i j q) := by
  refine ⟨fun hb => ?_, fun hb m hm => ?_, fun hb => ?_⟩
  · rw [enqueued_length] at hb ⊢
    change nextRequestId s.runtime.agentNextRequestId = _
    rw [h.next_eq (by omega), nextRequestId_of_lt (by omega)]
    omega
  · have hid := hq.id_eq h hb
    rw [enqueued_length] at hb ⊢
    rcases List.mem_append.1 hm with hm | hm
    · have hold := h.bounds (by omega) m hm
      omega
    · rw [List.mem_singleton.1 hm]
      dsimp only
      omega
  · have hold := h.nodup (by rw [enqueued_length] at hb; omega)
    have hnew : q.id ∉ s.made.map Made.id := by
      intro hmem
      obtain ⟨m, hm, he⟩ := List.mem_map.1 hmem
      exact hq.id_ne h hb hm he
    change ((s.made ++ [_]).map Made.id).Nodup
    rw [List.map_append, List.map_singleton, ← List.concat_eq_append]
    exact List.Nodup.concat hnew hold

theorem SlotsInv.enqueued (h : SlotsInv s) (hids : IdsInv s) (hq : Request s i j q)
    (hi : ∀ m id, s.points i ≠ .inCall m id) : SlotsInv (s.enqueued i j q) := by
  refine ⟨fun m hm => ?_, fun hb m m' hm hm' he => ?_, fun m hm => ?_, fun i' m id hp => ?_⟩
  · rcases enqueued_reqs s i j q m with ⟨-, e⟩ | ⟨-, e⟩
    · rw [e]
      exact List.mem_append_right _ (List.mem_singleton_self _)
    · rw [e] at hm ⊢
      exact made_subset (h.made m hm)
  · -- the new id is in no other used slot
    have hcase := enqueued_reqs s i j q
    rcases hcase m with ⟨rfl, e⟩ | ⟨-, e⟩ <;> rcases hcase m' with ⟨rfl, e'⟩ | ⟨-, e'⟩
    · rfl
    · rw [e, e'] at he
      rw [e'] at hm'
      exact absurd he.symm (hq.id_ne hids hb (h.made m' hm'))
    · rw [e, e'] at he
      rw [e] at hm
      exact absurd he (hq.id_ne hids hb (h.made m hm))
    · rw [e] at hm he
      rw [e'] at hm' he
      rw [enqueued_length] at hb
      exact h.inj (by omega) m m' hm hm' he
  · change ∃ i', Function.update s.points i (.inCall j q.id) i' = _ ∧ _
    rcases enqueued_reqs s i j q m with ⟨rfl, e⟩ | ⟨-, e⟩
    · exact ⟨i, by rw [Function.update_self, e], by rw [e, hq.caller]; rfl⟩
    · rw [e] at hm ⊢
      obtain ⟨i', hi', hpid⟩ := h.call m hm
      refine ⟨i', ?_, hpid⟩
      rw [Function.update_of_ne, hi']
      rintro rfl
      exact hi _ _ hi'
  · change Function.update s.points i (.inCall j q.id) i' = .inCall m id at hp
    by_cases hii : i' = i
    · subst hii
      rw [Function.update_self, CallPoint.inCall.injEq] at hp
      obtain ⟨rfl, rfl⟩ := hp
      rcases enqueued_reqs s i' j q j with ⟨-, e⟩ | ⟨hne, -⟩
      · rw [e]
        exact ⟨hq.used, rfl, hq.caller⟩
      · exact absurd rfl hne
    · rw [Function.update_of_ne hii] at hp
      have hslot := h.slot i' m id hp
      rcases enqueued_reqs s i j q m with ⟨rfl, -⟩ | ⟨-, e⟩
      · exact absurd (hq.free.symm.trans hslot.1) (by decide)
      · rw [e]
        exact hslot

theorem HandedInv.enqueued (h : HandedInv s) (hids : IdsInv s) (hq : Request s i j q) :
    HandedInv (s.enqueued i j q) := by
  refine ⟨fun e he => ?_, fun hb => h.nodup ?_, fun hb m hm hd e he => ?_⟩
  · obtain ⟨m, hm, hsame⟩ := h.made e he
    exact ⟨m, made_subset hm, hsame⟩
  · rw [enqueued_length] at hb
    omega
  · rcases enqueued_reqs s i j q m with ⟨-, hm'⟩ | ⟨-, hm'⟩
    -- a request handed out before is one made before
    · obtain ⟨m', hmade, hid, -⟩ := h.made e he
      rw [hm', ← hid]
      exact hq.id_ne hids hb hmade
    · rw [hm'] at hm hd ⊢
      rw [enqueued_length] at hb
      exact h.fresh (by omega) m hm hd e he

/-- Its service has not exited. -/
theorem RepliesInv.enqueued (h : RepliesInv s) (hq : Request s i j q)
    (hs : q.servicePid ∉ s.exited) : RepliesInv (s.enqueued i j q) := by
  refine ⟨fun m hm hr => ?_, fun m hm hr => ?_, h.tool⟩
  · rcases enqueued_reqs s i j q m with ⟨-, e⟩ | ⟨-, e⟩
    · rw [e, hq.replied] at hr
      cases hr
    · rw [e] at hm hr ⊢
      exact h.replied m hm hr
  · rcases enqueued_reqs s i j q m with ⟨-, e⟩ | ⟨-, e⟩
    · rw [e]
      exact hs
    · rw [e] at hm hr ⊢
      exact h.waiting m hm hr

end

/-! ### A request that is finished -/

/-- Process `i` has cleared slot `j` and is back from its call. -/
def DynState.finished (s : DynState) (i : Slot) (j : Fin agentDynamicRequestMax) : DynState :=
  (s.setRuntime (s.runtime.clearRequest j)).goto i .user

section

variable {s : DynState} {i : Slot} {j m : Fin agentDynamicRequestMax} {id : ℤ}

/-- A used slot is another one. -/
theorem finished_reqs (hm : ((s.finished i j).reqs m).used = true) :
    m ≠ j ∧ (s.finished i j).reqs m = s.reqs m := by
  rcases Table.update_cases s.reqs j AgentDynamicRequestSlot.zero m with ⟨-, e⟩ | h
  · change (Function.update s.reqs j AgentDynamicRequestSlot.zero m).used = true at hm
    rw [e] at hm
    cases hm
  · exact h

theorem SlotsInv.finished (h : SlotsInv s) (hpids : PidsInv s) (hi : s.points i = .inCall j id) :
    SlotsInv (s.finished i j) := by
  refine ⟨fun m hm => ?_, fun hb m m' hm hm' he => ?_, fun m hm => ?_, fun i' m id' hp => ?_⟩
  · obtain ⟨-, e⟩ := finished_reqs hm
    rw [e] at hm ⊢
    exact h.made m hm
  · obtain ⟨-, e⟩ := finished_reqs hm
    obtain ⟨-, e'⟩ := finished_reqs hm'
    rw [e] at hm he
    rw [e'] at hm' he
    exact h.inj hb m m' hm hm' he
  · obtain ⟨hmj, e⟩ := finished_reqs hm
    rw [e] at hm ⊢
    obtain ⟨i', hi', hpid⟩ := h.call m hm
    refine ⟨i', ?_, hpid⟩
    change Function.update s.points i .user i' = _
    rw [Function.update_of_ne, hi']
    rintro rfl
    rw [hi, CallPoint.inCall.injEq] at hi'
    exact hmj hi'.1.symm
  · change Function.update s.points i .user i' = .inCall m id' at hp
    have hii : i' ≠ i := by
      rintro rfl
      rw [Function.update_self] at hp
      cases hp
    rw [Function.update_of_ne hii] at hp
    have hslot := h.slot i' m id' hp
    rcases Table.update_cases s.reqs j AgentDynamicRequestSlot.zero m with ⟨rfl, -⟩ | ⟨-, e⟩
    · -- two callers of one slot would share their pid
      have hpid := hslot.2.2.symm.trans (h.slot i m id hi).2.2
      exact absurd (hpids.inj i' i (by simp [hp]) (by simp [hi]) hpid) hii
    · rw [show (s.finished i j).reqs m = s.reqs m from e]
      exact hslot

theorem HandedInv.finished (h : HandedInv s) : HandedInv (s.finished i j) := by
  refine ⟨h.made, h.nodup, fun hb m hm hd => ?_⟩
  obtain ⟨-, e⟩ := finished_reqs hm
  rw [e] at hm hd ⊢
  exact h.fresh hb m hm hd

theorem RepliesInv.finished (h : RepliesInv s) : RepliesInv (s.finished i j) := by
  refine ⟨fun m hm hr => ?_, fun m hm hr => ?_, h.tool⟩
  · obtain ⟨-, e⟩ := finished_reqs hm
    rw [e] at hm hr ⊢
    exact h.replied m hm hr
  · obtain ⟨-, e⟩ := finished_reqs hm
    rw [e] at hm hr ⊢
    exact h.waiting m hm hr

end

namespace DynInv

variable {s : DynState}

/-- A change of control point that neither enters nor leaves a call or a life. -/
theorem goto (h : DynInv s) {i : Slot} {c : CallPoint} (hi : ∀ j id, s.points i ≠ .inCall j id)
    (hl : s.points i ≠ .gone) (hc : ∀ j id, c ≠ .inCall j id) : DynInv (s.goto i c) :=
  ⟨h.pids.frame rfl rfl (alive_update hl), ⟨h.ids.1, h.ids.2, h.ids.3⟩,
    h.slots.frame rfl (inCall_goto hi hc) (fun _ _ _ _ => rfl) fun _ => SameCall.refl _,
    ⟨h.handed.1, h.handed.2, h.handed.3⟩, ⟨h.replies.1, h.replies.2, h.replies.3⟩, h.answers⟩

/-- A change of a record that keeps its pid. -/
theorem setProc (h : DynInv s) {i : Slot} {p : Proc} (hp : p.pid = (s.proc i).pid) :
    DynInv { s with kernel := s.kernel.setProc i p } := by
  have hpid : ∀ j, ((s.kernel.setProc i p).procs j).pid = (s.proc j).pid := by
    intro j
    by_cases hj : j = i
    · subst hj; rw [Kernel.setProc_self, hp]
    · rw [Kernel.setProc_ne _ _ _ _ hj]; rfl
  refine ⟨⟨fun j hj => ?_, fun j j' hj hj' he => h.pids.inj j j' hj hj' ?_, fun j hj => ?_,
    h.pids.exited_lt⟩, ⟨h.ids.1, h.ids.2, h.ids.3⟩,
    h.slots.frame rfl (fun _ _ _ => Iff.rfl) (fun j _ _ _ => hpid j) fun _ => SameCall.refl _,
    ⟨h.handed.1, h.handed.2, h.handed.3⟩, ⟨h.replies.1, h.replies.2, h.replies.3⟩, h.answers⟩
  · exact (hpid j).symm ▸ h.pids.lt j hj
  · exact ((hpid j).symm.trans he).trans (hpid j')
  · exact (hpid j).symm ▸ h.pids.live j hj

/-- A new tool whose owner is a process in use. -/
theorem tools (h : DynInv s) {f : Fin agentDynamicToolMax → AgentDynamicTool}
    (hf : ∀ t, (f t).used = true → (f t).ownerPid ∉ s.exited) :
    DynInv (s.setRuntime { s.runtime with dynamicTools := f }) :=
  ⟨⟨h.pids.1, h.pids.2, h.pids.3, h.pids.4⟩, ⟨h.ids.1, h.ids.2, h.ids.3⟩,
    ⟨h.slots.1, h.slots.2, h.slots.3, h.slots.4⟩, ⟨h.handed.1, h.handed.2, h.handed.3⟩,
    ⟨h.replies.1, h.replies.2, hf⟩, h.answers⟩

/-! ### Sections that change a request slot -/

/-- `agent_tool_recv` takes a request that was not delivered. -/
theorem deliver (h : DynInv s) {i : Slot} {j : Fin agentDynamicRequestMax}
    (hu : (s.reqs j).used = true) (hd : (s.reqs j).delivered = false)
    (hs : (s.reqs j).servicePid = (s.proc i).pid) :
    DynInv { s.setRuntime (s.runtime.setRequest j { s.reqs j with delivered := true }) with
      handed := s.handed ++ [⟨(s.reqs j).id, (s.proc i).pid⟩] } := by
  set q : AgentDynamicRequestSlot := { s.reqs j with delivered := true } with hq
  have hcase := Table.update_cases s.reqs j q
  refine ⟨⟨h.pids.1, h.pids.2, h.pids.3, h.pids.4⟩, ⟨h.ids.1, h.ids.2, h.ids.3⟩,
    h.slots.frame rfl (fun _ _ _ => Iff.rfl) (fun _ _ _ _ => rfl)
      (sameCall_update ⟨rfl, rfl, rfl, rfl⟩),
    ⟨fun e he => ?_, fun hb => ?_, fun hb m hm hdm e he => ?_⟩,
    ⟨fun m hm hr => ?_, fun m hm hr => ?_, h.replies.3⟩, h.answers⟩
  · rcases List.mem_append.1 he with he | he
    · exact h.handed.made e he
    · rw [List.mem_singleton] at he
      subst he
      exact ⟨_, h.slots.made j hu, rfl, hs⟩
  · have hnew : (s.reqs j).id ∉ s.handed.map Handed.id := by
      intro hmem
      obtain ⟨e, he, heq⟩ := List.mem_map.1 hmem
      exact h.handed.fresh hb j hu hd e he heq
    rw [List.map_append, List.map_singleton, ← List.concat_eq_append]
    exact List.Nodup.concat hnew (h.handed.nodup hb)
  · change (Function.update s.reqs j q m).used = true at hm
    change (Function.update s.reqs j q m).delivered = false at hdm
    change e.id ≠ (Function.update s.reqs j q m).id
    rcases hcase m with ⟨-, hmm⟩ | ⟨hmj, hmm⟩
    · rw [hmm] at hdm; cases hdm
    · rw [hmm] at hm hdm ⊢
      rcases List.mem_append.1 he with he | he
      · exact h.handed.fresh hb m hm hdm e he
      · rw [List.mem_singleton] at he
        subst he
        exact fun heq => hmj (h.slots.inj hb j m hu hm heq).symm
  · change (Function.update s.reqs j q m).used = true at hm
    change (Function.update s.reqs j q m).replied = true at hr
    change SlotReplied _ (Function.update s.reqs j q m)
    rcases hcase m with ⟨rfl, hmm⟩ | ⟨-, hmm⟩ <;> rw [hmm] at hm hr ⊢ <;>
      exact h.replies.replied m hm hr
  · change (Function.update s.reqs j q m).used = true at hm
    change (Function.update s.reqs j q m).replied = false at hr
    change (Function.update s.reqs j q m).servicePid ∉ s.exited
    rcases hcase m with ⟨rfl, hmm⟩ | ⟨-, hmm⟩ <;> rw [hmm] at hm hr ⊢ <;>
      exact h.replies.waiting m hm hr

/-- `agent_tool_reply` by the service of the request. -/
theorem reply (h : DynInv s) {i : Slot} {j : Fin agentDynamicRequestMax} {id status : ℤ}
    {result : List UInt8} (hid : (s.reqs j).id = id)
    (hs : (s.reqs j).servicePid = (s.proc i).pid) (hlen : strlen result < agentToolResultMax) :
    DynInv { s.setRuntime (s.runtime.setRequest j
        { s.reqs j with
          status := status, result := safestrcpy result agentToolResultMax, replied := true }) with
      replies := s.replies ++ [⟨id, (s.proc i).pid, status, cstr result⟩] } := by
  set q : AgentDynamicRequestSlot := { s.reqs j with
    status := status, result := safestrcpy result agentToolResultMax, replied := true } with hq
  have hcase := Table.update_cases s.reqs j q
  have hsub : s.replies ⊆ s.replies ++ [⟨id, (s.proc i).pid, status, cstr result⟩] :=
    List.subset_append_left _ _
  refine ⟨⟨h.pids.1, h.pids.2, h.pids.3, h.pids.4⟩, ⟨h.ids.1, h.ids.2, h.ids.3⟩,
    h.slots.frame rfl (fun _ _ _ => Iff.rfl) (fun _ _ _ _ => rfl)
      (sameCall_update ⟨rfl, rfl, rfl, rfl⟩),
    ⟨h.handed.made, h.handed.nodup, fun hb m hm hdm e he => ?_⟩,
    ⟨fun m hm hr => ?_, fun m hm hr => ?_, h.replies.3⟩, fun a ha => ?_⟩
  · change (Function.update s.reqs j q m).used = true at hm
    change (Function.update s.reqs j q m).delivered = false at hdm
    change e.id ≠ (Function.update s.reqs j q m).id
    rcases hcase m with ⟨rfl, hmm⟩ | ⟨-, hmm⟩ <;> rw [hmm] at hm hdm ⊢ <;>
      exact h.handed.fresh hb m hm hdm e he
  · change (Function.update s.reqs j q m).used = true at hm
    change (Function.update s.reqs j q m).replied = true at hr
    change SlotReplied _ (Function.update s.reqs j q m)
    rcases hcase m with ⟨rfl, hmm⟩ | ⟨-, hmm⟩
    · rw [hmm]
      refine .inl ⟨⟨id, (s.proc i).pid, status, cstr result⟩, by simp, hid.symm, hs.symm, rfl,
        (safestrcpy_of_lt hlen).symm, ?_⟩
      rw [← safestrcpy_of_lt hlen]
      exact safestrcpy_idem _ _
    · rw [hmm] at hm hr ⊢
      exact (h.replies.replied m hm hr).mono hsub (List.Subset.refl _)
  · change (Function.update s.reqs j q m).used = true at hm
    change (Function.update s.reqs j q m).replied = false at hr
    change (Function.update s.reqs j q m).servicePid ∉ s.exited
    rcases hcase m with ⟨-, hmm⟩ | ⟨-, hmm⟩
    · rw [hmm] at hr; cases hr
    · rw [hmm] at hm hr ⊢
      exact h.replies.waiting m hm hr
  · exact (h.answers a ha).mono (List.Subset.refl _) hsub (List.Subset.refl _)

/-- The caller of a request leaves its call with a good answer and clears the slot. -/
theorem finish (h : DynInv s) {i : Slot} {j : Fin agentDynamicRequestMax} {id : ℤ} {a : Answer}
    (hi : s.points i = .inCall j id) (ha : AnswerOk s a) :
    DynInv { (s.setRuntime (s.runtime.clearRequest j)).goto i .user with
      answers := s.answers ++ [a] } := by
  have hslots := h.slots.finished h.pids hi
  have hhanded := h.handed.finished (i := i) (j := j)
  have hreplies := h.replies.finished (i := i) (j := j)
  have hlive : s.points i ≠ .gone := by simp [hi]
  refine ⟨h.pids.frame rfl rfl (alive_update hlive), ⟨h.ids.1, h.ids.2, h.ids.3⟩,
    ⟨hslots.1, hslots.2, hslots.3, hslots.4⟩, ⟨hhanded.1, hhanded.2, hhanded.3⟩,
    ⟨hreplies.1, hreplies.2, hreplies.3⟩, fun b hb => ?_⟩
  rcases List.mem_append.1 hb with hb | hb
  · exact (h.answers b hb).mono (List.Subset.refl _) (List.Subset.refl _) (List.Subset.refl _)
  · rw [List.mem_singleton] at hb
    subst hb
    exact ha.mono (List.Subset.refl _) (List.Subset.refl _) (List.Subset.refl _)

/-- A caller puts a request into a free slot. -/
theorem enqueue (h : DynInv s) {i : Slot} {tool params : List UInt8} {r : Runtime}
    {j : Fin agentDynamicRequestMax} (hi : ∀ m id, s.points i ≠ .inCall m id)
    (hl : s.points i ≠ .gone) (ha : dynamicCallAdmit s.runtime (s.proc i) tool params = .ok (r, j)) :
    DynInv (s.enqueue i tool r j) := by
  obtain ⟨hfree, ⟨t, htu, hto⟩, q, hqu, hqd, hqr, hqid, hqc, hqs, rfl⟩ := dynamicCallAdmit_ok ha
  have hq : Request s i j q := ⟨hfree, hqu, hqd, hqr, hqid, hqc⟩
  have hown : q.servicePid ∉ s.exited := by
    rw [hqs, ← hto]
    exact h.replies.tool t htu
  have henqueue : s.enqueue i tool { s.runtime.setRequest j q with
      agentNextRequestId := nextRequestId s.runtime.agentNextRequestId } j = s.enqueued i j q := by
    simp only [DynState.enqueue, DynState.enqueued, DynState.setRuntime, DynState.goto,
      Runtime.setRequest, Function.update_self, hqc, hqs]
  rw [henqueue]
  exact ⟨h.pids.frame rfl rfl (alive_update hl), h.ids.enqueued hq, h.slots.enqueued h.ids hq hi,
    h.handed.enqueued h.ids hq, h.replies.enqueued hq hown, fun a ha =>
      (h.answers a ha).mono made_subset (List.Subset.refl _) (List.Subset.refl _)⟩

/-- A service or caller exits from user mode. -/
theorem exit (h : DynInv s) {i : Slot} (hi : s.points i = .user) :
    DynInv { (s.setRuntime (agentProcExitRuntime s.runtime (s.proc i).pid)).goto i .gone with
      exited := s.exited ++ [(s.proc i).pid] } := by
  have hlive : s.points i ≠ .gone := by rw [hi]; simp
  set pid := (s.proc i).pid with hpid
  -- no request is its own: its caller would be inside the call
  have hcaller : ∀ m, (s.reqs m).used = true → (s.reqs m).callerPid ≠ pid := by
    intro m hm he
    obtain ⟨i', hi', hp⟩ := h.slots.call m hm
    have := h.pids.inj i' i (by rw [hi']; simp) hlive (hp.trans he)
    rw [this, hi] at hi'
    cases hi'
  have hcase : ∀ m, exitRequest pid (s.reqs m) = s.reqs m ∧
        ((s.reqs m).used = true → (s.reqs m).replied = false → (s.reqs m).servicePid ≠ pid) ∨
      ((s.reqs m).servicePid = pid ∧ exitRequest pid (s.reqs m) = { s.reqs m with
        status := agentToolErrServiceGone
        result := safestrcpy (lit "tool service exited") agentToolResultMax
        replied := true }) := by
    intro m
    unfold exitRequest
    by_cases hu : (s.reqs m).used = true
    · rw [if_neg (by simp [hu]), if_neg (hcaller m hu)]
      split
      · rename_i hs
        exact .inr ⟨hs.1, rfl⟩
      · rename_i hs
        exact .inl ⟨rfl, fun _ hr he => hs ⟨he, by simp [hr]⟩⟩
    · rw [if_pos hu]
      exact .inl ⟨rfl, fun hu' => absurd hu' hu⟩
  have hsame : ∀ m, SameCall (s.reqs m) (exitRequest pid (s.reqs m)) := by
    intro m
    rcases hcase m with ⟨e, -⟩ | ⟨-, e⟩ <;> rw [e] <;> exact ⟨rfl, rfl, rfl, rfl⟩
  have hpt : ∀ m, Function.update s.points i .gone m ≠ .gone → m ≠ i ∧ s.points m ≠ .gone := by
    intro m hm
    have hmi : m ≠ i := by rintro rfl; exact hm (Function.update_self ..)
    rw [Function.update_of_ne hmi] at hm
    exact ⟨hmi, hm⟩
  have hsub : s.exited ⊆ s.exited ++ [pid] := List.subset_append_left _ _
  refine ⟨⟨fun m hm => h.pids.lt m (hpt m hm).2, fun m m' hm hm' => h.pids.inj m m' (hpt m hm).2
    (hpt m' hm').2, fun m hm hx => ?_, fun p hp => ?_⟩, ⟨h.ids.1, h.ids.2, h.ids.3⟩,
    h.slots.frame rfl (inCall_goto (by simp [DynState.setRuntime, hi]) (by simp))
      (fun _ _ _ _ => rfl) hsame,
    ⟨h.handed.made, h.handed.nodup, fun hb m hm hdm => ?_⟩,
    ⟨fun m hm hr => ?_, fun m hm hr => ?_, fun t ht => ?_⟩, fun a ha => ?_⟩
  · rcases List.mem_append.1 hx with hx | hx
    · exact h.pids.live m (hpt m hm).2 hx
    · exact (hpt m hm).1 (h.pids.inj m i (hpt m hm).2 hlive (List.mem_singleton.1 hx))
  · rcases List.mem_append.1 hp with hp | hp
    · exact h.pids.exited_lt p hp
    · rw [List.mem_singleton.1 hp]; exact h.pids.lt i hlive
  · change (exitRequest pid (s.reqs m)).used = true at hm
    change (exitRequest pid (s.reqs m)).delivered = false at hdm
    change ∀ e ∈ s.handed, e.id ≠ (exitRequest pid (s.reqs m)).id
    rcases hcase m with ⟨e, -⟩ | ⟨-, e⟩ <;> rw [e] at hm hdm ⊢ <;>
      exact h.handed.fresh hb m hm hdm
  · change (exitRequest pid (s.reqs m)).used = true at hm
    change (exitRequest pid (s.reqs m)).replied = true at hr
    change SlotReplied _ (exitRequest pid (s.reqs m))
    rcases hcase m with ⟨e, -⟩ | ⟨hs, e⟩
    · rw [e] at hm hr ⊢
      exact (h.replies.replied m hm hr).mono (List.Subset.refl _) hsub
    · rw [e]
      exact .inr ⟨rfl, by simp [hs]⟩
  · change (exitRequest pid (s.reqs m)).used = true at hm
    change (exitRequest pid (s.reqs m)).replied = false at hr
    change (exitRequest pid (s.reqs m)).servicePid ∉ s.exited ++ [pid]
    rcases hcase m with ⟨e, hne⟩ | ⟨-, e⟩
    · rw [e] at hm hr ⊢
      simp only [List.mem_append, List.mem_singleton, not_or]
      exact ⟨h.replies.waiting m hm hr, hne hm hr⟩
    · rw [e] at hr; cases hr
  · change (Table.sweep s.runtime.dynamicTools (fun t => t.used && t.ownerPid == pid)
      AgentDynamicTool.zero t).used = true at ht
    change (Table.sweep s.runtime.dynamicTools (fun t => t.used && t.ownerPid == pid)
      AgentDynamicTool.zero t).ownerPid ∉ s.exited ++ [pid]
    rcases Table.sweep_cases s.runtime.dynamicTools (fun t => t.used && t.ownerPid == pid)
      AgentDynamicTool.zero t with ⟨-, e⟩ | ⟨hne, e⟩
    · rw [e] at ht; cases ht
    · rw [e] at ht ⊢
      simp only [List.mem_append, List.mem_singleton, not_or]
      refine ⟨h.replies.tool t ht, fun he => ?_⟩
      simp [ht, he] at hne
  · exact (h.answers a ha).mono (List.Subset.refl _) (List.Subset.refl _) hsub

/-- A new process with a fresh pid. -/
theorem spawn (h : DynInv s) {i : Slot} {p : Proc} (hi : s.points i = .gone)
    (hp : p.pid = s.kernel.nextpid) :
    DynInv { s.goto i .user with
      kernel := { s.kernel.setProc i p with nextpid := s.kernel.nextpid + 1 } } := by
  have hcase : ∀ m, Function.update s.points i .user m ≠ .gone →
      (m = i ∧ ((s.kernel.setProc i p).procs m).pid = s.kernel.nextpid) ∨
      (m ≠ i ∧ s.points m ≠ .gone ∧ ((s.kernel.setProc i p).procs m).pid = (s.proc m).pid) := by
    intro m hm
    by_cases hmi : m = i
    · subst hmi; exact .inl ⟨rfl, by rw [Kernel.setProc_self, hp]⟩
    · rw [Function.update_of_ne hmi] at hm
      exact .inr ⟨hmi, hm, by rw [Kernel.setProc_ne _ _ _ _ hmi]; rfl⟩
  refine ⟨⟨fun m hm => ?_, fun m m' hm hm' he => ?_, fun m hm hx => ?_, fun q hq => ?_⟩,
    ⟨h.ids.1, h.ids.2, h.ids.3⟩,
    h.slots.frame rfl (inCall_goto (by simp [hi]) (by simp)) (fun m j id hm => ?_)
      fun _ => SameCall.refl _,
    ⟨h.handed.1, h.handed.2, h.handed.3⟩, ⟨h.replies.1, h.replies.2, h.replies.3⟩, h.answers⟩
  · change ((s.kernel.setProc i p).procs m).pid < s.kernel.nextpid + 1
    rcases hcase m hm with ⟨-, e⟩ | ⟨-, hg, e⟩
    · omega
    · have := h.pids.lt m hg
      omega
  · change ((s.kernel.setProc i p).procs m).pid = ((s.kernel.setProc i p).procs m').pid at he
    rcases hcase m hm with ⟨hmi, e⟩ | ⟨-, hg, e⟩ <;>
      rcases hcase m' hm' with ⟨hmi', e'⟩ | ⟨-, hg', e'⟩
    · rw [hmi, hmi']
    · have := h.pids.lt m' hg'
      omega
    · have := h.pids.lt m hg
      omega
    · exact h.pids.inj m m' hg hg' (by rw [← e, ← e', he])
  · change ((s.kernel.setProc i p).procs m).pid ∈ s.exited at hx
    rcases hcase m hm with ⟨-, e⟩ | ⟨-, hg, e⟩
    · have := h.pids.exited_lt _ hx
      omega
    · rw [e] at hx
      exact h.pids.live m hg hx
  · have := h.pids.exited_lt q hq
    change q < s.kernel.nextpid + 1
    omega
  · change ((s.kernel.setProc i p).procs m).pid = (s.proc m).pid
    rw [Kernel.setProc_ne]
    · rfl
    · rintro rfl
      rw [hi] at hm
      cases hm

end DynInv

/-! ### Steps and runs -/

section

variable {s : DynState} {i : Slot}

/-- A round of a caller: it leaves with the reply or because it was killed, or sleeps on. -/
theorem DynInv.callRound (h : DynInv s) {j : Fin agentDynamicRequestMax} {id : ℤ}
    (hi : s.points i = .inCall j id) : DynInv (s.callRound i j id) := by
  obtain ⟨hu, hid, hc⟩ := h.slots.slot i j id hi
  have hmade := h.slots.made j hu
  rw [hid, hc] at hmade
  unfold DynState.callRound dynamicCallRound
  dsimp only
  by_cases hr : (s.reqs j).replied = true
  · rw [if_pos hr]
    refine h.finish hi ⟨_, hmade, rfl, rfl, ?_⟩
    rcases h.replies.replied j hu hr with ⟨r, hm, hrid, hrs, hst, hres, hcut⟩ | ⟨hst, hx⟩
    · refine .inl ⟨r, hm, hrid.trans hid, hrs, by rw [hst, hres], ?_⟩
      change safestrcpy (s.reqs j).result agentToolResultMax = r.result
      rw [← hres, hcut]
    · exact .inr ⟨hst, .inl hx⟩
  rw [if_neg hr]
  by_cases hk : (s.proc i).killed = true
  · rw [if_pos hk]
    exact h.finish hi ⟨_, hmade, rfl, rfl, .inr ⟨rfl, .inr hk⟩⟩
  -- the request is still there: "tool request lost" cannot happen
  rw [if_neg hk, if_neg (by simp [hid, hu])]
  have hsame : (s.setRuntime s.runtime).goto i (.inCall j id) = s := by
    simp only [DynState.goto, DynState.setRuntime, ← hi, Function.update_eq_self]
  change DynInv ((s.setRuntime s.runtime).goto i (.inCall j id))
  rw [hsame]
  exact h

/-- A round of a receiver. -/
theorem DynInv.recvRound (h : DynInv s) (hi : ∀ j id, s.points i ≠ .inCall j id)
    (hl : s.points i ≠ .gone) : DynInv (s.recvRound i) := by
  unfold DynState.recvRound
  rcases agentToolRecvRound_cases s.runtime (s.proc i).pid (s.proc i).killed with
    ⟨j, hu, hd, hs, e⟩ | e | e <;> rw [e]
  · exact (h.deliver hu hd hs).goto hi hl (by simp)
  · exact h.goto hi hl (by simp)
  · exact h.goto hi hl (by simp)

end

/-- **Step**: every section keeps the invariant. -/
theorem dynInv_step (s : DynState) (l : DynLabel) (t : DynState) (h : DynInv s) (_ : always s l)
    (hn : dynamicMachine.next s l = some t) : DynInv t := by
  cases l with
  | register i name flags =>
    simp only [dynamicMachine, DynState.next] at hn
    split at hn
    · rename_i hi
      simp only [Option.some.injEq] at hn
      subst hn
      obtain ⟨f, hf, hown⟩ := agentToolRegister_cases s.runtime (s.proc i) name flags
      rw [hf]
      refine h.tools fun t ht => ?_
      rcases hown t ht with e | e
      · rw [e] at ht ⊢; exact h.replies.tool t ht
      · rw [e]; exact h.pids.live i (by rw [hi]; simp)
    · simp at hn
  | call i tool params =>
    simp only [dynamicMachine, DynState.next] at hn
    split at hn
    · rename_i hi
      split at hn
      · simp only [Option.some.injEq] at hn; exact hn ▸ h
      · simp only [Option.some.injEq] at hn
        exact hn ▸ h.goto (by simp [hi.1]) (by simp [hi.1]) (by simp)
    · simp at hn
  | enter i =>
    simp only [dynamicMachine, DynState.next] at hn
    split at hn
    · rename_i tool params hi
      split at hn
      · simp only [Option.some.injEq] at hn
        exact hn ▸ h.goto (by simp [hi]) (by simp [hi]) (by simp)
      · rename_i r slot ha
        simp only [Option.some.injEq] at hn
        refine hn ▸ (h.enqueue (by simp [hi]) (by simp [hi]) ha).callRound ?_
        simp [DynState.enqueue, DynState.goto]
    · simp at hn
  | resumeCall i =>
    simp only [dynamicMachine, DynState.next] at hn
    split at hn
    · rename_i hi
      simp only [Option.some.injEq] at hn
      exact hn ▸ h.callRound hi
    · simp at hn
  | recv i =>
    simp only [dynamicMachine, DynState.next] at hn
    split at hn
    · rename_i hi
      split at hn
      · simp only [Option.some.injEq] at hn; exact hn ▸ h
      · simp only [Option.some.injEq] at hn
        exact hn ▸ h.recvRound (by simp [hi]) (by simp [hi])
    · simp at hn
  | resumeRecv i =>
    simp only [dynamicMachine, DynState.next] at hn
    split at hn
    · rename_i hi
      simp only [Option.some.injEq] at hn
      exact hn ▸ h.recvRound (by simp [hi]) (by simp [hi])
    · simp at hn
  | reply i id result status =>
    simp only [dynamicMachine, DynState.next] at hn
    split at hn
    · rename_i hi
      split at hn
      · rename_i hok
        simp only [Option.some.injEq] at hn
        obtain ⟨j, -, hid, hs, e⟩ := agentToolReply_ok hok
        rw [e] at hn
        exact hn ▸ h.reply hid hs hi.2
      · simp only [Option.some.injEq] at hn; exact hn ▸ h
    · simp at hn
  | kill i =>
    simp only [dynamicMachine, DynState.next, Option.some.injEq] at hn
    exact hn ▸ h.setProc rfl
  | exit i =>
    simp only [dynamicMachine, DynState.next] at hn
    split at hn
    · rename_i hi
      simp only [Option.some.injEq] at hn
      exact hn ▸ h.exit hi
    · simp at hn
  | spawn i p =>
    simp only [dynamicMachine, DynState.next] at hn
    split at hn
    · rename_i hi
      simp only [Option.some.injEq] at hn
      exact hn ▸ h.spawn hi rfl
    · simp at hn
  | other i p =>
    simp only [dynamicMachine, DynState.next, Option.some.injEq] at hn
    exact hn ▸ h.setProc rfl

theorem dynInv_init (s : DynState) (h : dynamicMachine.init s) : DynInv s := by
  obtain ⟨hr, hp, hlt, hinj, hm, hh, hre, ha, hx⟩ := h
  have hu : ∀ j, (s.reqs j).used = false := fun j => by simp only [DynState.reqs, hr]; rfl
  have hc : ∀ i j id, s.points i ≠ .inCall j id := fun i j id => by
    rcases hp i with e | e <;> simp [e]
  refine ⟨⟨hlt, hinj, by simp [hx], by simp [hx]⟩, ⟨by simp [hm, hr, Runtime.init], by simp [hm],
    by simp [hm]⟩, ⟨by simp [hu], by simp [hu], by simp [hu], fun i j id h => absurd h (hc i j id)⟩,
    ⟨by simp [hh], by simp [hh], by simp [hh]⟩, ⟨by simp [hu], by simp [hu], by simp [hx]⟩,
    by simp [ha]⟩

/-- **Run**: the invariant holds in every reachable state. -/
theorem dynInv_reach {tr : List DynLabel} {s : DynState}
    (h : dynamicMachine.Reach always tr s) : DynInv s :=
  h.inv dynInv_init dynInv_step

/-- What the request protocol guarantees in a state. -/
structure DynamicProtocol (s : DynState) : Prop where
  ids : ∀ j j', (s.reqs j).used = true → (s.reqs j').used = true →
    (s.reqs j).id = (s.reqs j').id → j = j'
  calls : (s.made.map Made.id).Nodup
  handed_once : (s.handed.map Handed.id).Nodup
  handed_owner : ∀ h ∈ s.handed, ∃ m ∈ s.made, m.id = h.id ∧ m.owner = h.service
  answers : ∀ a ∈ s.answers, AnswerOk s a
  in_call : ∀ j, (s.reqs j).used = true →
    ∃ i, s.points i = .inCall j (s.reqs j).id ∧ (s.proc i).pid = (s.reqs j).callerPid
  served : ∀ j, (s.reqs j).used = true → (s.reqs j).replied = false →
    (s.reqs j).servicePid ∉ s.exited

/-- **The request protocol**, in every state of every interleaving with fewer than `2^31` calls:
ids of used slots and of calls are distinct; a request is handed out at most once, to the
process that owned the tool; every answer is a reply of that owner to this call, or
SERVICE_GONE because the owner exited or the caller was killed; a used slot belongs to a
caller inside its call; and no unreplied slot waits for a process that has exited. -/
theorem dynamic_call_protocol {tr : List DynLabel} {s : DynState}
    (h : dynamicMachine.Reach always tr s) (hb : s.made.length < 2 ^ 31) : DynamicProtocol s := by
  have hi := dynInv_reach h
  exact ⟨hi.slots.inj hb, hi.ids.nodup hb, hi.handed.nodup hb, hi.handed.made, hi.answers,
    hi.slots.call, hi.replies.waiting⟩

/-- A service with pid 1 and a caller with pid 2, both Agents of group 1. -/
def serviceAndCaller : DynState where
  kernel := { (Kernel.boot.setProc 0 { Proc.boot with
      pid := 1, state := .running, ident.agentType := agentTypeWorker, ident.agentGroup := 1,
      ident.agentCapabilities := agentCapRegisterTool }).setProc 1
      { Proc.boot with
        pid := 2, state := .running, ident.agentType := agentTypeWorker, ident.agentGroup := 1 } with
    nextpid := 3 }
  runtime := Runtime.init
  points := fun i => if i = 0 ∨ i = 1 then .user else .gone
  made := []
  handed := []
  replies := []
  answers := []
  exited := []

theorem serviceAndCaller_init : dynamicMachine.init serviceAndCaller := by
  refine ⟨rfl, fun i => ?_, ?_, ?_, rfl, rfl, rfl, rfl, rfl⟩
  · simp only [serviceAndCaller]
    split
    · exact .inl rfl
    · exact .inr rfl
  · decide
  · decide

/-- One call, received and replied to. -/
def oneCall : List DynLabel :=
  [.register 0 [116] 0, .call 1 [116] [120], .enter 1, .recv 0, .reply 0 1 [111, 107] 0,
    .resumeCall 1]

theorem dynamic_call_protocol_one :
    DynamicProtocol ((dynamicMachine.run serviceAndCaller oneCall).getD serviceAndCaller) ∧
      ((dynamicMachine.run serviceAndCaller oneCall).getD serviceAndCaller).answers =
        [⟨1, 2, false, toolRespSet 0 [111, 107]⟩] :=
  ⟨dynamic_call_protocol ⟨_, serviceAndCaller_init, path_getD (by decide)⟩ (by decide), by decide⟩

end AgentOS
