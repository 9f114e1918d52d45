import AgentOS.Model.Batch

/-!
# A batch overruns its page

* `sizeofBatchResponse_gt`: the response struct does not fit into the page allocated for it.
* **`batch_eq_singles_iff`**: so a batch does what its single calls do, with every write inside the
  page, if and only if there is no page or no request to read: then neither does anything.
* `batchLoop_eq_singles`: on requests that end in NUL the loop itself makes the single calls.
-/

namespace AgentOS

/-- What a batch should be: the responses and the kernel of the single calls where the same fails,
with every write to the response struct inside the page `kalloc` returned. -/
structure BatchIsSingles {K : Type*} (call : K → List UInt8 → K × AgentToolResponse)
    (agentType : K → ℤ) (k : K) (env : CallEnv) (breq : AgentToolBatchRequest)
    (stack junk : List UInt8) : Prop where
  responses : (sysToolCallBatch call agentType k env breq stack).responses =
    (singleCalls call k env junk (breq.requests.take breq.count.toNat)).2
  kernel : (sysToolCallBatch call agentType k env breq stack).kernel =
    (singleCalls call k env junk (breq.requests.take breq.count.toNat)).1
  inPage : InPage (sysToolCallBatch call agentType k env breq stack).writes

section

variable {K : Type*} {call : K → List UInt8 → K × AgentToolResponse} {agentType : K → ℤ} {k : K}
  {env : CallEnv} {breq : AgentToolBatchRequest} {stack junk : List UInt8}

/-- The response struct is larger than a page. -/
theorem sizeofBatchResponse_gt : pgsize < sizeofBatchResponse := by decide

/-- A batch that has its page and its requests clears the whole struct. -/
theorem batch_clears (he : ¬(env.kalloc = false ∨ env.copyin = false)) :
    (0, sizeofBatchResponse) ∈ (sysToolCallBatch call agentType k env breq stack).writes := by
  unfold sysToolCallBatch
  rw [if_neg he]
  dsimp only
  split
  · exact List.mem_cons_self
  · exact List.mem_cons_self

/-- Without a page or a request a single call does nothing. -/
theorem sysToolCall_failed (he : env.kalloc = false ∨ env.copyin = false) (req : AgentToolRequest) :
    sysToolCall call k env req junk = ⟨k, -1, none, []⟩ := if_pos he

theorem singleCalls_failed (he : env.kalloc = false ∨ env.copyin = false)
    (reqs : List AgentToolRequest) : (singleCalls call k env junk reqs).1 = k := by
  induction reqs with
  | nil => rfl
  | cons req rest ih =>
    unfold singleCalls
    rw [sysToolCall_failed he]
    exact ih

theorem sysToolCallBatch_failed (he : env.kalloc = false ∨ env.copyin = false) :
    sysToolCallBatch call agentType k env breq stack = ⟨k, -1, none, []⟩ := if_pos he

/-- **When a batch is its single calls inside its page**: exactly when it gets no page or cannot read
its requests. Otherwise the `memset` of the response runs over the page. -/
theorem batch_eq_singles_iff (call : K → List UInt8 → K × AgentToolResponse) (agentType : K → ℤ)
    (k : K) (env : CallEnv) (breq : AgentToolBatchRequest) (stack junk : List UInt8)
    (hcount : 1 ≤ breq.count) :
    BatchIsSingles call agentType k env breq stack junk ↔
      env.kalloc = false ∨ env.copyin = false := by
  constructor
  · intro h
    by_contra he
    have hw := h.inPage _ (batch_clears he)
    have hs := sizeofBatchResponse_gt
    dsimp only at hw
    omega
  · intro he
    have hne : breq.requests.take breq.count.toNat ≠ [] := by
      intro hnil
      have hlen := congrArg List.length hnil
      rw [List.length_take, breq.requests_length, List.length_nil] at hlen
      have hmax : agentToolBatchMax = 8 := rfl
      omega
    refine ⟨?_, ?_, ?_⟩
    · rw [sysToolCallBatch_failed he]
      cases hr : breq.requests.take breq.count.toNat with
      | nil => exact absurd hr hne
      | cons req rest =>
        unfold singleCalls
        rw [sysToolCall_failed he]
        rfl
    · rw [sysToolCallBatch_failed he, singleCalls_failed he]
    · rw [sysToolCallBatch_failed he]
      exact List.forall_mem_nil _

end

/-- A batch of eight requests for `get_system_status`, of which the first is made. -/
def statusBatch : AgentToolBatchRequest where
  count := 1
  requests := List.replicate agentToolBatchMax
    { tool := padded (lit "get_system_status") agentToolNameMax
      params := padded [] agentToolParamMax
      tool_length := padded_length _ _
      params_length := padded_length _ _ }
  requests_length := by simp

/-- No page: neither the batch nor its one call does anything. -/
theorem batch_eq_singles_noPage :
    BatchIsSingles (K := Unit) (fun _ _ => ((), toolRespSet agentToolOk (lit "{status=ok}")))
      (fun _ => agentTypePrimary) () ⟨false, true, true⟩ statusBatch [] [] :=
  (batch_eq_singles_iff _ _ () ⟨false, true, true⟩ statusBatch [] [] (by decide)).2
    (.inl rfl)

theorem batch_overruns_status :
    ¬ BatchIsSingles (K := Unit) (fun _ _ => ((), toolRespSet agentToolOk (lit "{status=ok}")))
      (fun _ => agentTypePrimary) () ⟨true, true, true⟩ statusBatch [] [] := by
  intro h
  have hw := h.inPage (0, sizeofBatchResponse) List.mem_cons_self
  exact absurd hw (by decide)

/-! ### The loop by itself -/

/-- Terminating a terminated request changes nothing. -/
theorem terminate_of_terminated {req : AgentToolRequest} (h : req.Terminated) :
    req.terminate = req := by
  obtain ⟨tool, params, ht, hp⟩ := req
  obtain ⟨h1, h2⟩ := h
  have e : ∀ (l : List UInt8) (i : ℕ), l[i]? = some 0 → l.set i 0 = l := by
    intro l i hi
    apply List.ext_getElem?
    intro j
    rw [List.getElem?_set]
    split
    · rename_i hj
      subst hj
      have : i < l.length := by
        by_contra hc
        rw [List.getElem?_eq_none (by omega)] at hi
        cases hi
      rw [if_pos this, hi]
    · rfl
  simp only [AgentToolRequest.terminate, AgentToolRequest.mk.injEq]
  exact ⟨e _ _ h1, e _ _ h2⟩

/-- **On terminated requests the loop makes the single calls**, for an `agent_tool_call` that
reads no further than the NULs at the end of the request. -/
theorem batchLoop_eq_singles {K : Type*} {call : K → List UInt8 → K × AgentToolResponse}
    (hcall : ∀ k req m m', AgentToolRequest.Terminated req →
      call k (req.bytes ++ m) = call k (req.bytes ++ m'))
    (stack junk : List UInt8) (reqs : List AgentToolRequest)
    (hreqs : ∀ req ∈ reqs, req.Terminated) (n : ℕ) (k : K) :
    singleCalls call k ⟨true, true, true⟩ junk (reqs.take n) =
      ((batchLoop call k stack n reqs).1, some (batchLoop call k stack n reqs).2) := by
  induction reqs generalizing n k with
  | nil => cases n <;> rfl
  | cons req rest ih =>
    cases n with
    | zero => rfl
    | succ n =>
      have ht := hreqs req List.mem_cons_self
      have hc : call k ((req :: rest).flatMap AgentToolRequest.bytes ++ stack) =
          call k (req.terminate.bytes ++ junk) := by
        rw [terminate_of_terminated ht, List.flatMap_cons, List.append_assoc]
        exact hcall k req _ _ ht
      have hrest := ih (fun r hr => hreqs r (List.mem_cons_of_mem _ hr)) n
      simp only [batchLoop, List.take_succ_cons, singleCalls, sysToolCall, hc, hrest]
      rfl

end AgentOS
