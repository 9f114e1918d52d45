import AgentOS.Proof.DynamicCall

/-!
# Replies to one request

* `ReplyInv`: the flags of a slot tell what happened to its request: an undelivered one was handed
  to nobody, one that is not marked as replied has no reply; `replyInv_step`, `replyInv_init`.
* `reply_cases`: a reply stores into the slot that it finds, or changes nothing.
* `one_reply`: a reply does what it should if and only if the slot it finds is delivered and not
  replied, since `agent_tool_reply` looks at neither flag.
* `second_reply_wins`: a caller that receives the second of two replies.
-/

namespace AgentOS

open Machine

/-- **The flags of a slot** tell what has happened to its request. -/
structure ReplyInv (s : DynState) : Prop where
  made : ∀ r ∈ s.replies, ∃ m ∈ s.made, m.id = r.id
  unreplied : s.made.length < 2 ^ 31 → ∀ j, (s.reqs j).used = true → (s.reqs j).replied = false →
    ∀ r ∈ s.replies, r.id ≠ (s.reqs j).id
  delivered : ∀ j, (s.reqs j).used = true → (s.reqs j).delivered = true →
    ∃ h ∈ s.handed, h.id = (s.reqs j).id

/-- A slot of `t` has the request that it has in `s`; what is new about it shows in the lists. -/
structure Onward (s t : DynState) (j : Fin agentDynamicRequestMax) : Prop where
  used : (s.reqs j).used = true
  id : (t.reqs j).id = (s.reqs j).id
  replied : (t.reqs j).replied = false → (s.reqs j).replied = false
  delivered : (t.reqs j).delivered = true →
    (s.reqs j).delivered = true ∨ ∃ h ∈ t.handed, h.id = (t.reqs j).id

section

variable {s t : DynState} {i : Slot} {j : Fin agentDynamicRequestMax} {q : AgentDynamicRequestSlot}

/-- A section that makes no reply and no request. -/
theorem ReplyInv.onward (h : ReplyInv s) (hr : t.replies = s.replies) (hm : t.made = s.made)
    (hh : s.handed ⊆ t.handed) (hslot : ∀ j, (t.reqs j).used = true → Onward s t j) :
    ReplyInv t := by
  refine ⟨?_, ?_, ?_⟩
  · rw [hr, hm]
    exact h.made
  · intro hb j hu hrep r hmem
    have ho := hslot j hu
    rw [hr] at hmem
    rw [hm] at hb
    rw [ho.id]
    exact h.unreplied hb j ho.used (ho.replied hrep) r hmem
  · intro j hu hd
    have ho := hslot j hu
    rcases ho.delivered hd with hold | hnew
    · obtain ⟨x, hx, hid⟩ := h.delivered j ho.used hold
      exact ⟨x, hh hx, hid.trans ho.id.symm⟩
    · exact hnew

theorem Onward.of_eq (he : t.reqs j = s.reqs j) (hu : (t.reqs j).used = true) : Onward s t j := by
  rw [he] at hu
  exact ⟨hu, by rw [he], by rw [he]; exact fun h => h, by rw [he]; exact .inl⟩

/-- A section that leaves the requests alone. -/
theorem ReplyInv.sameRequests (h : ReplyInv s) (hr : t.replies = s.replies) (hm : t.made = s.made)
    (hh : t.handed = s.handed) (hreq : t.reqs = s.reqs) : ReplyInv t := by
  refine h.onward hr hm (by rw [hh]; exact List.Subset.refl _) ?_
  intro j hu
  exact Onward.of_eq (congrFun hreq j) hu

/-- A section that stores into one slot. -/
theorem onward_update (hreq : t.reqs = Function.update s.reqs j q)
    (hj : (t.reqs j).used = true → Onward s t j) (j' : Fin agentDynamicRequestMax)
    (hu : (t.reqs j').used = true) : Onward s t j' := by
  by_cases hjj : j' = j
  · subst hjj
    exact hj hu
  · exact Onward.of_eq (by rw [hreq, Function.update_of_ne hjj]) hu

/-! ### The sections -/

/-- A round of a caller clears its slot or leaves it. -/
theorem ReplyInv.callRound (h : ReplyInv s) (j : Fin agentDynamicRequestMax) (id : ℤ) :
    ReplyInv (s.callRound i j id) := by
  have hclear : ∀ a : Answer, ReplyInv { (s.setRuntime (s.runtime.clearRequest j)).goto i .user with
      answers := s.answers ++ [a] } := by
    intro a
    refine h.onward rfl rfl (List.Subset.refl _) (onward_update rfl fun hu => ?_)
    -- a cleared slot is not used
    have hzero : Function.update s.reqs j AgentDynamicRequestSlot.zero j =
        AgentDynamicRequestSlot.zero := Function.update_self ..
    change (Function.update s.reqs j AgentDynamicRequestSlot.zero j).used = true at hu
    rw [hzero] at hu
    cases hu
  unfold DynState.callRound dynamicCallRound
  dsimp only
  by_cases hr : (s.runtime.dynamicRequests j).replied = true
  · rw [if_pos hr]
    exact hclear _
  rw [if_neg hr]
  by_cases hk : (s.proc i).killed = true
  · rw [if_pos hk]
    exact hclear _
  rw [if_neg hk]
  by_cases hl : (s.runtime.dynamicRequests j).id ≠ id ∨ ¬ (s.runtime.dynamicRequests j).used = true
  · rw [if_pos hl]
    exact h.sameRequests rfl rfl rfl rfl
  · rw [if_neg hl]
    exact h.sameRequests rfl rfl rfl rfl

/-- A round of a receiver delivers a request and hands it over. -/
theorem ReplyInv.recvRound (h : ReplyInv s) : ReplyInv (s.recvRound i) := by
  unfold DynState.recvRound
  rcases agentToolRecvRound_cases s.runtime (s.proc i).pid (s.proc i).killed with
    ⟨j, hu, -, -, e⟩ | e | e <;> rw [e]
  · set q : AgentDynamicRequestSlot := { s.reqs j with delivered := true } with hq
    have hself : Function.update s.reqs j q j = q := Function.update_self ..
    refine h.onward rfl rfl (List.subset_append_left ..) (onward_update (q := q) rfl fun _ => ?_)
    refine ⟨hu, ?_, ?_, ?_⟩
    · change (Function.update s.reqs j q j).id = _
      rw [hself]
    · intro hr
      change (Function.update s.reqs j q j).replied = false at hr
      rwa [hself] at hr
    · intro _
      refine .inr ⟨_, List.mem_append_right _ (List.mem_singleton_self _), ?_⟩
      change _ = (Function.update s.reqs j q j).id
      rw [hself]
  · exact h.sameRequests rfl rfl rfl rfl
  · exact h.sameRequests rfl rfl rfl rfl

/-- A new request has an id that no request had. -/
theorem ReplyInv.enqueue (h : ReplyInv s) (hd : DynInv s) {tool params : List UInt8} {r : Runtime}
    (ha : dynamicCallAdmit s.runtime (s.proc i) tool params = .ok (r, j)) :
    ReplyInv (s.enqueue i tool r j) := by
  obtain ⟨-, -, q, -, hqd, hqr, hqid, -, -, rfl⟩ := dynamicCallAdmit_ok ha
  have hself : (Function.update s.reqs j q) j = q := Function.update_self ..
  have hlen : (s.enqueue i tool { s.runtime.setRequest j q with
      agentNextRequestId := nextRequestId s.runtime.agentNextRequestId } j).made.length =
        s.made.length + 1 := by
    simp [DynState.enqueue]
  refine ⟨?_, ?_, ?_⟩
  · intro x hx
    obtain ⟨m, hm, hid⟩ := h.made x hx
    exact ⟨m, List.mem_append_left _ hm, hid⟩
  · intro hb j' hu hr x hx
    rw [hlen] at hb
    change (Function.update s.reqs j q j').used = true at hu
    change (Function.update s.reqs j q j').replied = false at hr
    change x.id ≠ (Function.update s.reqs j q j').id
    by_cases hjj : j' = j
    · subst hjj
      rw [hself, hqid, hd.ids.next_eq (by omega)]
      obtain ⟨m, hm, hid⟩ := h.made x hx
      obtain ⟨-, hle⟩ := hd.ids.bounds (by omega) m hm
      omega
    · rw [Function.update_of_ne hjj] at hu hr ⊢
      exact h.unreplied (by omega) j' hu hr x hx
  · intro j' hu hdel
    change (Function.update s.reqs j q j').used = true at hu
    change (Function.update s.reqs j q j').delivered = true at hdel
    change ∃ x ∈ s.handed, x.id = (Function.update s.reqs j q j').id
    by_cases hjj : j' = j
    · subst hjj
      rw [hself, hqd] at hdel
      cases hdel
    · rw [Function.update_of_ne hjj] at hu hdel ⊢
      exact h.delivered j' hu hdel

/-- A reply marks its slot. -/
theorem ReplyInv.reply (h : ReplyInv s) (hd : DynInv s) {x : Reply} (hu : (s.reqs j).used = true)
    (hid : (s.reqs j).id = x.id) (hq : SameCall (s.reqs j) q) (hqr : q.replied = true)
    (hqd : q.delivered = (s.reqs j).delivered) :
    ReplyInv { s.setRuntime (s.runtime.setRequest j q) with replies := s.replies ++ [x] } := by
  have hself : (Function.update s.reqs j q) j = q := Function.update_self ..
  refine ⟨?_, ?_, ?_⟩
  · intro y hy
    rcases List.mem_append.1 hy with hy | hy
    · exact h.made y hy
    · rw [List.mem_singleton.1 hy, ← hid]
      exact ⟨_, hd.slots.made j hu, rfl⟩
  · intro hb j' hu' hr y hy
    change (Function.update s.reqs j q j').used = true at hu'
    change (Function.update s.reqs j q j').replied = false at hr
    change y.id ≠ (Function.update s.reqs j q j').id
    by_cases hjj : j' = j
    · subst hjj
      rw [hself, hqr] at hr
      cases hr
    · rw [Function.update_of_ne hjj] at hu' hr ⊢
      rcases List.mem_append.1 hy with hy | hy
      · exact h.unreplied hb j' hu' hr y hy
      · rw [List.mem_singleton.1 hy, ← hid]
        intro he
        exact hjj (hd.slots.inj hb j' j hu' hu he.symm)
  · intro j' hu' hdel
    change (Function.update s.reqs j q j').used = true at hu'
    change (Function.update s.reqs j q j').delivered = true at hdel
    change ∃ x ∈ s.handed, x.id = (Function.update s.reqs j q j').id
    by_cases hjj : j' = j
    · subst hjj
      rw [hself, hqd] at hdel
      rw [hself, hq.id]
      exact h.delivered j' hu hdel
    · rw [Function.update_of_ne hjj] at hu' hdel ⊢
      exact h.delivered j' hu' hdel

/-- What an exit does to a slot that stays in use. -/
theorem exitRequest_used {pid : ℕ} (hu : (exitRequest pid q).used = true) :
    q.used = true ∧ (exitRequest pid q).id = q.id ∧
      (exitRequest pid q).delivered = q.delivered ∧
      ((exitRequest pid q).replied = false → q.replied = false) := by
  unfold exitRequest at hu ⊢
  split at hu
  · rename_i hnot
    rw [if_pos hnot]
    exact ⟨hu, rfl, rfl, id⟩
  · rename_i hused
    rw [if_neg hused]
    split at hu
    · cases hu
    · rename_i hcaller
      rw [if_neg hcaller]
      split at hu
      · rename_i hs
        rw [if_pos hs]
        exact ⟨hu, rfl, rfl, fun hf => by cases hf⟩
      · rename_i hs
        rw [if_neg hs]
        exact ⟨hu, rfl, rfl, id⟩

end

/-- **Step.** -/
theorem replyInv_step (s : DynState) (l : DynLabel) (t : DynState) (h : DynInv s ∧ ReplyInv s)
    (ha : always s l) (hn : dynamicMachine.next s l = some t) : DynInv t ∧ ReplyInv t := by
  refine ⟨dynInv_step s l t h.1 ha hn, ?_⟩
  obtain ⟨hd, h⟩ := h
  cases l with
  | register i name flags =>
    simp only [dynamicMachine, DynState.next] at hn
    split at hn <;> [skip; cases hn]
    obtain rfl := Option.some.inj hn
    obtain ⟨f, hf, -⟩ := agentToolRegister_cases s.runtime (s.proc i) name flags
    refine h.sameRequests rfl rfl rfl ?_
    change (agentToolRegister s.runtime (s.proc i) name flags).1.dynamicRequests = _
    rw [hf]
  | call i tool params =>
    simp only [dynamicMachine, DynState.next] at hn
    split at hn <;> [skip; cases hn]
    split at hn
    · obtain rfl := Option.some.inj hn
      exact h
    · obtain rfl := Option.some.inj hn
      exact h.sameRequests rfl rfl rfl rfl
  | enter i =>
    simp only [dynamicMachine, DynState.next] at hn
    split at hn <;> [skip; cases hn]
    split at hn
    · obtain rfl := Option.some.inj hn
      exact h.sameRequests rfl rfl rfl rfl
    · rename_i hadmit
      obtain rfl := Option.some.inj hn
      exact (h.enqueue hd hadmit).callRound _ _
  | resumeCall i =>
    simp only [dynamicMachine, DynState.next] at hn
    split at hn <;> [skip; cases hn]
    obtain rfl := Option.some.inj hn
    exact h.callRound _ _
  | recv i =>
    simp only [dynamicMachine, DynState.next] at hn
    split at hn <;> [skip; cases hn]
    split at hn
    · obtain rfl := Option.some.inj hn
      exact h
    · obtain rfl := Option.some.inj hn
      exact h.recvRound
  | resumeRecv i =>
    simp only [dynamicMachine, DynState.next] at hn
    split at hn <;> [skip; cases hn]
    obtain rfl := Option.some.inj hn
    exact h.recvRound
  | reply i id result status =>
    simp only [dynamicMachine, DynState.next] at hn
    split at hn <;> [skip; cases hn]
    split at hn
    · rename_i hok
      obtain ⟨j, hu, hid, -, e⟩ := agentToolReply_ok hok
      rw [e] at hn
      obtain rfl := Option.some.inj hn
      exact h.reply hd hu hid ⟨rfl, rfl, rfl, rfl⟩ rfl rfl
    · obtain rfl := Option.some.inj hn
      exact h
  | exit i =>
    simp only [dynamicMachine, DynState.next] at hn
    split at hn <;> [skip; cases hn]
    obtain rfl := Option.some.inj hn
    refine h.onward rfl rfl (List.Subset.refl _) fun j hu => ?_
    obtain ⟨hused, hid, hdel, hrep⟩ := exitRequest_used (q := s.reqs j) hu
    exact ⟨hused, hid, hrep, fun hdt => .inl (hdel.symm.trans hdt)⟩
  | spawn i p =>
    simp only [dynamicMachine, DynState.next] at hn
    split at hn <;> [skip; cases hn]
    obtain rfl := Option.some.inj hn
    exact h.sameRequests rfl rfl rfl rfl
  | kill i | other i p =>
    obtain rfl := Option.some.inj hn
    exact h.sameRequests rfl rfl rfl rfl

theorem replyInv_init (s : DynState) (h : dynamicMachine.init s) : DynInv s ∧ ReplyInv s := by
  refine ⟨dynInv_init s h, ?_⟩
  obtain ⟨hr, -, -, -, -, -, hre, -⟩ := h
  have hu : ∀ j, (s.reqs j).used = false := fun j => by simp only [DynState.reqs, hr]; rfl
  exact ⟨by simp [hre], by simp [hu], by simp [hu]⟩

/-! ### Replies -/

/-- A refused reply returns a code other than 0 and leaves every slot as it was. -/
def ReplyRefused (r : Runtime) (p : Proc) (id : ℤ) (result : List UInt8) (status : ℤ) : Prop :=
  agentToolReply r p id result status =
    (r, if p.ident.agentType = agentTypeNormal then agentToolErrNotAgent else agentToolErrBadParam)

/-- What a reply should do: after a reply to this request, or before its delivery, be refused. -/
def ReplyRight (s : DynState) : DynLabel → Prop
  | .reply i id result status =>
    ((∃ r ∈ s.replies, r.id = id) → ReplyRefused s.runtime (s.proc i) id result status) ∧
      ((∀ h ∈ s.handed, h.id ≠ id) → ReplyRefused s.runtime (s.proc i) id result status)
  | _ => True

/-- The slot that a reply of `i` to `id` finds, if any, is delivered and not replied. -/
def ReplyTimely (s : DynState) : DynLabel → Prop
  | .reply i id _ _ =>
    (s.proc i).ident.agentType ≠ agentTypeNormal →
      ∀ j, (s.reqs j).used = true → (s.reqs j).id = id → (s.reqs j).servicePid = (s.proc i).pid →
        (s.reqs j).delivered = true ∧ (s.reqs j).replied = false
  | _ => True

/-- Fewer than `2^31` requests so far: their ids are distinct. -/
def FewCalls (s : DynState) (_ : DynLabel) : Prop := s.made.length < 2 ^ 31

/-- A reply is refused or finds a slot. -/
theorem reply_cases (r : Runtime) (p : Proc) (id : ℤ) (result : List UInt8) (status : ℤ) :
    ReplyRefused r p id result status ∨
      (p.ident.agentType ≠ agentTypeNormal ∧ ∃ j, (r.dynamicRequests j).used = true ∧
        (r.dynamicRequests j).id = id ∧ (r.dynamicRequests j).servicePid = p.pid) := by
  unfold ReplyRefused agentToolReply
  by_cases ht : p.ident.agentType = agentTypeNormal
  · left
    rw [if_pos ht, if_pos ht]
  rw [if_neg ht, if_neg ht]
  split
  · rename_i j hj
    have hf := Table.first_some hj
    simp only [Bool.and_eq_true, beq_iff_eq] at hf
    exact .inr ⟨ht, j, hf.1.1, hf.1.2, hf.2⟩
  · exact .inl rfl

/-- An Agent whose reply finds a slot is not refused. -/
theorem reply_accepted {r : Runtime} {p : Proc} (ht : p.ident.agentType ≠ agentTypeNormal)
    {j : Fin agentDynamicRequestMax} (hu : (r.dynamicRequests j).used = true)
    (hs : (r.dynamicRequests j).servicePid = p.pid) (result : List UInt8) (status : ℤ) :
    ¬ ReplyRefused r p (r.dynamicRequests j).id result status := by
  unfold ReplyRefused agentToolReply
  rw [if_neg ht, if_neg ht]
  split
  · intro he
    exact absurd (congrArg Prod.snd he) (show (0 : ℤ) ≠ agentToolErrBadParam by decide)
  · rename_i hnone
    have hno := Table.first_none.1 hnone j
    simp [hu, hs] at hno

/-- In a state of a run, a reply does what it should exactly when it is timely. -/
theorem right_iff_timely {s : DynState} (hd : DynInv s) (h : ReplyInv s) (l : DynLabel)
    (hb : FewCalls s l) {t : DynState} (hn : dynamicMachine.next s l = some t) :
    ReplyRight s l ↔ ReplyTimely s l := by
  cases l with
  | reply i id result status =>
    have hi : s.points i = .user := by
      simp only [dynamicMachine, DynState.next] at hn
      split at hn <;> [skip; cases hn]
      rename_i hcond
      exact hcond.1
    constructor
    · rintro ⟨hagain, hearly⟩ ht j hu rfl hs
      have hok := reply_accepted ht hu hs result status
      constructor
      · by_contra hdel
        -- an undelivered request was handed to nobody
        exact hok (hearly (hd.handed.fresh hb j hu (by simpa using hdel)))
      · by_contra hrep
        rcases hd.replies.replied j hu (by simpa using hrep) with ⟨r, hr, hid, -⟩ | ⟨-, hx⟩
        · exact hok (hagain ⟨r, hr, hid⟩)
        · rw [hs] at hx
          exact hd.pids.live i (by rw [hi]; simp) hx
    · intro ht
      rcases reply_cases s.runtime (s.proc i) id result status with hr | ⟨hagent, j, hu, rfl, hs⟩
      · exact ⟨fun _ => hr, fun _ => hr⟩
      obtain ⟨hdel, hrep⟩ := ht hagent j hu rfl hs
      constructor
      · rintro ⟨r, hr, hid⟩
        exact absurd hid (h.unreplied hb j hu hrep r hr)
      · intro hnone
        obtain ⟨x, hx, hid⟩ := h.delivered j hu hdel
        exact absurd hid (hnone x hx)
  | register | call | enter | resumeCall | recv | resumeRecv | kill | exit | spawn | other =>
    exact Iff.rfl

/-- **One reply per request**, in a run with fewer than `2^31` requests, if and only if every
reply that finds its slot comes after the delivery of the request and before any other reply. -/
theorem one_reply {tr : List DynLabel} {s₀ s : DynState} (h₀ : dynamicMachine.init s₀)
    (h : dynamicMachine.Path FewCalls s₀ tr s) :
    dynamicMachine.Path ReplyRight s₀ tr s ↔ dynamicMachine.Path ReplyTimely s₀ tr s := by
  have hinit := replyInv_init s₀ h₀
  constructor
  · exact h.congr (fun s l t hs _ _ hn => replyInv_step s l t hs trivial hn)
      (fun s l t hs hb hn => (right_iff_timely hs.1 hs.2 l hb hn).1) hinit
  · exact h.congr (fun s l t hs _ _ hn => replyInv_step s l t hs trivial hn)
      (fun s l t hs hb hn => (right_iff_timely hs.1 hs.2 l hb hn).2) hinit

instance (s : DynState) : ∀ l, Decidable (ReplyTimely s l)
  | .reply i id _ _ => inferInstanceAs (Decidable ((s.proc i).ident.agentType ≠ agentTypeNormal →
      ∀ j, (s.reqs j).used = true → (s.reqs j).id = id → (s.reqs j).servicePid = (s.proc i).pid →
        (s.reqs j).delivered = true ∧ (s.reqs j).replied = false))
  | .register .. | .call .. | .enter _ | .resumeCall _ | .recv _ | .resumeRecv _ | .kill _
  | .exit _ | .spawn .. | .other .. => .isTrue trivial

instance (s : DynState) (l : DynLabel) : Decidable (FewCalls s l) :=
  inferInstanceAs (Decidable (s.made.length < 2 ^ 31))

/-- The state after a run of the service and its caller. -/
def served (tr : List DynLabel) : DynState :=
  (dynamicMachine.run serviceAndCaller tr).getD serviceAndCaller

/-- One call, replied to once. -/
theorem one_reply_call : dynamicMachine.Path ReplyRight serviceAndCaller oneCall (served oneCall) :=
  (one_reply serviceAndCaller_init (pathOk_run_getD (by decide +kernel))).2
    (pathOk_run_getD (by decide +kernel))

/-- A call, received, and replied to before the caller runs. -/
def repliedCall : List DynLabel :=
  [.register 0 [116] 0, .call 1 [116] [120], .enter 1, .recv 0, .reply 0 1 [111, 107] 0]

/-- **A second reply** returns 0, and it is the one that the caller receives; a reply before any
`agent_tool_recv` returns 0 as well. -/
theorem second_reply_wins :
    dynamicMachine.Reach always repliedCall (served repliedCall) ∧
      (served repliedCall).replies = [⟨1, 1, 0, [111, 107]⟩] ∧
      (agentToolReply (served repliedCall).runtime ((served repliedCall).proc 0) 1 [110, 111] 5).2 = 0 ∧
      (served (repliedCall ++ [.reply 0 1 [110, 111] 5, .resumeCall 1])).answers =
        [⟨1, 2, false, toolRespSet 5 [110, 111]⟩] ∧
      (served (repliedCall.take 3)).handed = [] ∧
      (agentToolReply (served (repliedCall.take 3)).runtime
        ((served (repliedCall.take 3)).proc 0) 1 [111, 107] 0).2 = 0 :=
  ⟨⟨_, serviceAndCaller_init, path_getD (by decide +kernel)⟩, by decide +kernel⟩

end AgentOS
