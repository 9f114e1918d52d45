import AgentOS.Proof.Branches

/-!
# The dependencies of the live nodes

* `liveDeps`: the entries of the dependency array that belong to live nodes, oldest first.
* `liveDeps_evictLoop`, `liveDeps_appendNode`, `liveDeps_keepNodes`: what the parts of the calls
  make of them.
* `push_liveDeps`, `rollback_liveDeps`, `clear_liveDeps`, `mark_liveDeps`: what the calls make of
  them.
-/

namespace AgentOS

/-- The dependencies of the live nodes, oldest first. -/
def liveDeps (c : ContextState) : List AgentContextDep :=
  (List.range c.contextNodeCount).map c.contextDeps

section

variable {c c' c₂ : ContextState} {m m' m₂ : Memory} {node : AgentContextNode} {now k n : ℕ}

@[simp] theorem liveDeps_length (c : ContextState) : (liveDeps c).length = c.contextNodeCount := by
  simp [liveDeps]

theorem liveDeps_nil (h : c.contextNodeCount = 0) : liveDeps c = [] := by
  simp [liveDeps, h]

theorem liveDeps_congr (hc : c'.contextNodeCount = c.contextNodeCount)
    (hd : c'.contextDeps = c.contextDeps) : liveDeps c' = liveDeps c := by
  unfold liveDeps
  rw [hc, hd]

theorem Synced.liveDeps (h : Synced c c' m m') : liveDeps c' = liveDeps c := by
  obtain ⟨⟨g, rfl⟩, -, -, -⟩ := h
  exact liveDeps_congr rfl rfl

theorem getElem_liveDeps {i : ℕ} (h : i < (liveDeps c).length) :
    (liveDeps c)[i] = c.contextDeps i := by
  simp [liveDeps]

/-! ### The parts of the calls -/

/-- **An eviction** drops the oldest dependency, or all of them. -/
theorem liveDeps_evictOldest (c : ContextState) (m : Memory) :
    ∃ j, liveDeps (c.evictOldest m).1 = (liveDeps c).drop j := by
  unfold ContextState.evictOldest
  split
  · rename_i h0
    refine ⟨0, ?_⟩
    rw [List.drop_zero, liveDeps_nil h0]
    exact liveDeps_nil h0
  rename_i h0
  dsimp only
  split
  · refine ⟨c.contextNodeCount, ?_⟩
    rw [List.drop_of_length_le (by simp)]
    exact liveDeps_nil rfl
  · refine ⟨1, List.ext_getElem (by simp) fun i hi hi' => ?_⟩
    have hlt : i + 1 < c.contextNodeCount := by
      rw [List.length_drop, liveDeps_length] at hi'
      omega
    rw [getElem_liveDeps, List.getElem_drop, getElem_liveDeps]
    dsimp only
    rw [shiftDown_of hlt, Nat.add_comm]

theorem liveDeps_evictLoop {fuel recLen : ℕ}
    (h : ContextState.evictLoop fuel c m recLen = some (c', m')) :
    ∃ j, liveDeps c' = (liveDeps c).drop j := by
  induction fuel generalizing c m with
  | zero => simp [ContextState.evictLoop] at h
  | succ fuel ih =>
    simp only [ContextState.evictLoop] at h
    split at h
    · obtain ⟨i, hi⟩ := liveDeps_evictOldest c m
      obtain ⟨j, hj⟩ := ih h
      rw [hi, List.drop_drop] at hj
      exact ⟨_, hj⟩
    · simp only [Option.some.injEq, Prod.mk.injEq] at h
      obtain ⟨rfl, rfl⟩ := h
      exact ⟨0, rfl⟩

/-- **A node** enters with its dependency. -/
theorem liveDeps_appendNode (c : ContextState) (sequence recLen : ℕ) (dep : AgentContextDep)
    (node : AgentContextNode) :
    liveDeps (c.appendNode sequence recLen dep node) = liveDeps c ++ [dep] := by
  obtain ⟨hcount, -, -, -, hdeps, -⟩ := appendNode_fields c sequence recLen dep node
  unfold liveDeps
  rw [hcount, hdeps, List.range_succ, List.map_append]
  congr 1
  · refine List.map_congr_left fun i hi => ?_
    rw [Function.update_of_ne (by rw [List.mem_range] at hi; omega)]
  · simp

theorem pendingDep_sequence (c : ContextState) (n : ℕ) : (c.pendingDep n).sequence = n := by
  unfold ContextState.pendingDep
  split <;> rfl

/-- A rollback keeps the oldest dependencies. -/
theorem liveDeps_keepNodes (hk : k ≤ c.contextNodeCount) :
    liveDeps (c.keepNodes k) = (liveDeps c).take k := by
  refine List.ext_getElem ?_ fun i hi hi' => ?_
  · rw [liveDeps_length, List.length_take, liveDeps_length, Nat.min_eq_left hk]
    rfl
  · have hik : i < k := by
      rw [liveDeps_length] at hi
      exact hi
    rw [getElem_liveDeps, List.getElem_take, getElem_liveDeps]
    exact if_neg (by omega)

/-! ### The calls -/

/-- **A push** drops the oldest dependencies; a node that is recorded gets the pending one. -/
theorem push_liveDeps {r : ℤ} (h : c.agentContextPushNode m node now = some (c', m', r)) :
    ∃ j, liveDeps c' = (if c.recorded m node now then
      liveDeps c ++ [c.pendingDep c.contextNextSequence] else liveDeps c).drop j := by
  have hnumbered : liveDeps (numbered c m now).1 = liveDeps c := by
    have hsync := (synced_writeBegin c.dropPending m now).liveDeps
    exact (liveDeps_congr rfl rfl).trans (hsync.trans (liveDeps_congr rfl rfl))
  cases push_cases h with
  | refused htakes hrec hsync =>
    refine ⟨0, ?_⟩
    rw [hrec, if_neg (by decide), List.drop_zero, hsync.liveDeps]
    exact liveDeps_congr rfl rfl
  | lost htakes hrec hloop =>
    obtain ⟨j, hj⟩ := liveDeps_evictLoop hloop
    refine ⟨j, ?_⟩
    rw [hrec, if_neg (by decide), hj, hnumbered]
  | @recorded c₂ m₂ htakes hrec hloop =>
    obtain ⟨j, hj⟩ := liveDeps_evictLoop hloop
    have hsync := (synced_syncHeader (c₂.appendNode c.contextNextSequence (pushText c node).length
      (c.pendingDep c.contextNextSequence) node) (recordCopy c node c₂ m₂).1 now).liveDeps
    have hdeps : liveDeps (recordedPush c node now c₂ m₂).1 =
        (liveDeps c).drop j ++ [c.pendingDep c.contextNextSequence] := by
      refine hsync.trans ?_
      rw [liveDeps_appendNode, hj, hnumbered]
    -- the new node itself is never evicted
    have hdrop : (liveDeps c).drop (min j (liveDeps c).length) = (liveDeps c).drop j := by
      rcases Nat.le_total j (liveDeps c).length with hle | hle
      · rw [Nat.min_eq_left hle]
      · rw [Nat.min_eq_right hle, List.drop_of_length_le hle, List.drop_length]
    refine ⟨min j (liveDeps c).length, ?_⟩
    rw [hrec, if_pos rfl, hdeps, List.drop_append_of_le_length (Nat.min_le_right _ _), hdrop]

/-- A node that is recorded is live after its push. -/
theorem push_last {r : ℤ} (h : c.agentContextPushNode m node now = some (c', m', r))
    (hrec : c.recorded m node now = true) :
    (liveDeps c').getLast? = some (c.pendingDep c.contextNextSequence) := by
  cases push_cases h with
  | refused _ hno => rw [hno] at hrec; cases hrec
  | lost _ hno => rw [hno] at hrec; cases hrec
  | @recorded c₂ m₂ =>
    have hsync := (synced_syncHeader (c₂.appendNode c.contextNextSequence (pushText c node).length
      (c.pendingDep c.contextNextSequence) node) (recordCopy c node c₂ m₂).1 now).liveDeps
    have hdeps : liveDeps (recordedPush c node now c₂ m₂).1 =
        liveDeps c₂ ++ [c.pendingDep c.contextNextSequence] := by
      refine hsync.trans ?_
      rw [liveDeps_appendNode]
    rw [hdeps, List.getLast?_concat]

/-- A rollback drops the newest dependencies, down to the count it leaves. -/
theorem rollback_liveDeps (c : ContextState) (m : Memory) (k now : ℕ) :
    liveDeps (c.agentContextRollback m k now).1 =
      (liveDeps c).take (c.agentContextRollback m k now).1.contextNodeCount := by
  have hsame : ∀ d : ContextState, liveDeps d = liveDeps c →
      liveDeps d = (liveDeps c).take d.contextNodeCount := by
    intro d hd
    rw [← liveDeps_length, hd, List.take_length]
  by_cases hk : c.contextNodeCount < k
  · rw [rollback_refused hk]
    exact hsame c rfl
  by_cases h0 : k = 0
  · subst h0
    obtain ⟨-, hcount, -⟩ := clear_spec c m now
    rw [rollback_zero]
    dsimp only
    rw [hcount, List.take_zero, liveDeps_nil hcount]
  have hbegin := synced_writeBegin c m now
  by_cases hopen : (c.writeBegin m now).2.2 = false
  · rw [rollback_unopened hk h0 hopen]
    exact hsame _ hbegin.liveDeps
  · have hopen' : (c.writeBegin m now).2.2 = true := by simpa using hopen
    obtain ⟨t, ht⟩ : ∃ t, t = ((c.writeBegin m now).1.keepNodes k).syncHeader
      (c.writeBegin m now).2.1 now := ⟨_, rfl⟩
    have hc : (c.agentContextRollback m k now).1 = t.1 := by
      rw [ht]
      exact congrArg Prod.fst (rollback_kept hk h0 hopen')
    have hsync : Synced ((c.writeBegin m now).1.keepNodes k) t.1 (c.writeBegin m now).2.1 t.2.1 := by
      rw [ht]
      exact synced_syncHeader _ _ _
    have hcount : (c.writeBegin m now).1.contextNodeCount = c.contextNodeCount := rfl
    have hdeps : liveDeps t.1 = (liveDeps c).take k := by
      rw [hsync.liveDeps, liveDeps_keepNodes (by rw [hcount]; omega), hbegin.liveDeps]
    have hlen : t.1.contextNodeCount = k := by
      rw [← liveDeps_length, hdeps, List.length_take, liveDeps_length]
      omega
    rw [hc, hlen, hdeps]

theorem clear_liveDeps (c : ContextState) (m : Memory) (now : ℕ) :
    liveDeps (c.agentContextClear m now).1 = [] := by
  obtain ⟨-, hcount, -⟩ := clear_spec c m now
  exact liveDeps_nil hcount

/-- A call to `agent_create` that fails keeps the nodes; one that succeeds clears them. -/
theorem mark_liveDeps (p : Proc) (m : Memory) (a : MarkArgs) :
    let q := (agentMarkCurrent p m a).1
    liveDeps q.ctx = liveDeps p.ctx ∨ liveDeps q.ctx = [] := by
  intro q
  have hcase := mark_cases p m a
  obtain ⟨x, y, r, hr⟩ : ∃ x y r, agentMarkCurrent p m a = (x, y, r) := ⟨_, _, _, rfl⟩
  have hq : q = x := congrArg Prod.fst hr
  rw [hr] at hcase
  rw [hq]
  cases hcase with
  | refused => exact .inl rfl
  | unjoined w =>
    have hctx := marking_ctx p m a
    obtain ⟨hkeep, hnew⟩ := withRegion_ctx p m
    refine .inl ?_
    by_cases h0 : p.ctx.contextRegionStart = 0
    · rw [hnew h0] at hctx
      exact liveDeps_congr (by rw [hctx]) (by rw [hctx])
    · rw [hkeep h0] at hctx
      exact liveDeps_congr (by rw [hctx]) (by rw [hctx])
  | @marked q' w hq' => exact .inr (clear_liveDeps _ _ _)

end

end AgentOS
