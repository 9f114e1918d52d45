import AgentOS.Proof.Path

/-!
# The Context Path is a bounded FIFO list

* `QuotaHolds`: the condition on a run.
* `PathInv.step`: the list that the path represents after each call.
* `context_path_refines`: over whole runs, the path is a list that each call changes as it
  should.
* `quota_breaks_path`: a run against the condition.
-/

namespace AgentOS

open Fifo Slice Machine

/-! ### The condition -/

/-- `agent_mark_current` of this process returns -1 at the workflow: it is to join the workflow
it is in, and may not. -/
def joinRefused (p : Proc) (a : MarkArgs) : Prop :=
  markType a.type ≠ agentTypePrimary ∧ ¬ p.wf.outside ∧ p.wf.workflowMemberRegistered = false ∧
    (agentWorkflowJoin a.atJoin p.wf).2 ≠ agentToolOk

/-- The capacity of the path under a new quota. -/
def capacityUnder (c : ContextState) (quota : ℕ) : ℕ :=
  ContextState.agentPathCapacity { c with resourceQuota := quota }

/-- The condition on a step: an `agent_mark_current` that is refused at the workflow, after it
stored its quota, leaves a path that fits the quota. -/
def QuotaHolds (s : ContextRun) : ContextLabel → Prop
  | .mark a => joinRefused s.proc a →
      s.proc.ctx.contextPathLen ≤ capacityUnder s.proc.ctx a.resourceQuota
  | _ => True

/-- The pushes of a run. -/
def pushes (tr : List ContextLabel) : ℕ :=
  tr.countP fun l => match l with
    | .push _ _ => true
    | _ => false

/-- **The invariant** of a run with `n` pushes. -/
structure PathInv (n : ℕ) (s : ContextRun) (l : List Entry) : Prop where
  repr : Represents s.proc.ctx s.mem l
  region : s.proc.ctx.contextRegionStart ≠ 0 → ContextRun.RegionMapped s.proc.ctx s.mem
  empty : s.proc.ctx.contextRegionStart = 0 → l = []
  next : s.proc.ctx.contextNextSequence ≤ n + 1
  first : s.proc.ctx.contextFirstSequence + l.length ≤ n + 1
  dropped : s.proc.ctx.contextDroppedNodes + l.length ≤ n

section

variable {s t : ContextRun} {l : List Entry} {n : ℕ}

theorem PathInv.inRegion (h : PathInv n s l) (hl : l ≠ []) : InRegion s.proc.ctx s.mem := by
  have hs : s.proc.ctx.contextRegionStart ≠ 0 := fun h0 => hl (h.empty h0)
  exact ⟨hs, h.region hs⟩

/-- A call that leaves an empty path. -/
theorem PathInv.cleared (hr : t.proc.ctx.contextRegionStart ≠ 0 →
      ContextRun.RegionMapped t.proc.ctx t.mem)
    (hc : t.proc.ctx.contextNodeCount = 0) (hp : t.proc.ctx.contextPathLen = 0)
    (hf : t.proc.ctx.contextFirstSequence = 0) (hn : t.proc.ctx.contextNextSequence = 1)
    (hd : t.proc.ctx.contextDroppedNodes = 0) : PathInv n t [] :=
  ⟨represents_nil hc hp, hr, fun _ => rfl, by omega, by simp [hf], by simp [hd]⟩

/-- `agent_mark_current` maps the region it allocates. -/
theorem markRegion_mapped (p : Proc) (m : Memory) :
    ContextRun.RegionMapped (markRegion p).ctx ((m.uvmalloc p.sz (markRegion p).sz).uvmclear
      ((markRegion p).ctx.contextRegionStart + agentContextRegionSize)) := by
  have hround : pgroundup p.sz = (p.sz + pgsize - 1) / pgsize * pgsize := rfl
  refine ⟨by rw [show (markRegion p).ctx.contextRegionStart = pgroundup p.sz from rfl, hround,
    Nat.mul_mod_left], rfl, fun g hg hg' => ?_⟩
  change pgroundup p.sz / pgsize ≤ g at hg
  change g < pgroundup p.sz / pgsize + agentContextRegionSize / pgsize at hg'
  have hnew : (pgroundup p.sz ≤ g * pgsize && g * pgsize <
      pgroundup p.sz + agentContextRegionSize + agentGuardPageSize) = true := by
    rw [Bool.and_eq_true, decide_eq_true_eq, decide_eq_true_eq]
    unfold agentContextRegionSize agentGuardPageSize at *
    rw [hround] at *
    unfold pgsize at *
    omega
  have hguard : g ≠ (pgroundup p.sz + agentContextRegionSize) / pgsize := by
    unfold agentContextRegionSize at *
    rw [hround] at *
    unfold pgsize at *
    omega
  have huser : (m.uvmalloc p.sz (markRegion p).sz).user g = true := Bool.or_eq_true_iff.2 (.inr hnew)
  refine ⟨?_, Bool.or_eq_true_iff.2 (.inr hnew)⟩
  unfold Memory.uvmclear
  exact (Function.update_of_ne hguard _ _).trans huser

/-- The region is mapped, and the workflow of the process is as it was. -/
theorem withRegion_spec (h : PathInv n s l) :
    ContextRun.RegionMapped (withRegion s.proc s.mem).1.ctx (withRegion s.proc s.mem).2 ∧
      (withRegion s.proc s.mem).1.wf = s.proc.wf := by
  unfold withRegion
  split
  · exact ⟨markRegion_mapped _ _, rfl⟩
  · rename_i hs
    exact ⟨h.region hs, rfl⟩

/-- The workflow sections fail exactly where the join is refused. -/
theorem markWorkflow_refused {p q : Proc} {a : MarkArgs} (hwf : q.wf = p.wf) :
    (markWorkflow q (markType a.type) a.atLeave a.atJoin).2 = false ↔ joinRefused p a := by
  have hjoin : agentWorkflowJoin a.atJoin { p.wf with isWorkflowLeader := false } =
      agentWorkflowJoin a.atJoin p.wf := rfl
  have hno : ∀ {P : Prop}, true = false → P := fun h => absurd h (by decide)
  unfold markWorkflow joinRefused
  rw [hwf]
  dsimp only
  split
  · rename_i ht
    exact ⟨fun h => hno h, fun h => absurd ht h.1⟩
  · rename_i ht
    split
    · rename_i ho
      exact ⟨fun h => hno h, fun h => absurd ho h.2.1⟩
    · rename_i ho
      split
      · rename_i hreg
        exact ⟨fun h => hno h, fun h => hno (hreg.symm.trans h.2.2.1)⟩
      · rename_i hreg
        split
        · rename_i hj
          exact ⟨fun h => hno h, fun h => absurd hj h.2.2.2⟩
        · rename_i hj
          exact ⟨fun _ => ⟨ht, ho, eq_false_of_ne_true hreg, hj⟩, fun _ => rfl⟩

/-- **`agent_mark_current`** leaves an empty path or, where it fails, the path it found. -/
theorem PathInv.mark (h : PathInv n s l) (a : MarkArgs) (hok : QuotaHolds s (.mark a)) :
    ∃ l', PathInv n ⟨(agentMarkCurrent s.proc s.mem a).1, (agentMarkCurrent s.proc s.mem a).2.1⟩
      l' := by
  obtain ⟨hmap, hwf⟩ := withRegion_spec h
  obtain ⟨q, hq⟩ : ∃ q, q = marking s.proc s.mem a := ⟨_, rfl⟩
  obtain ⟨w, hw⟩ : ∃ w, w = markWorkflow q (markType a.type) a.atLeave a.atJoin := ⟨_, rfl⟩
  have hqwf : q.wf = s.proc.wf := by rw [hq]; exact hwf
  rw [mark_eq, ← hq, ← hw]
  dsimp only
  split
  · exact ⟨l, h⟩
  split
  · rename_i hfail
    rw [hw] at hfail
    have hcap := hok ((markWorkflow_refused hqwf).1 hfail)
    -- only the quota is new
    have hctx : q.ctx = { (withRegion s.proc s.mem).1.ctx with resourceQuota := a.resourceQuota } := by
      rw [hq]; rfl
    refine ⟨l, ?_⟩
    by_cases h0 : s.proc.ctx.contextRegionStart = 0
    · have hl := h.empty h0
      subst hl
      have hgrown : (withRegion s.proc s.mem).1.ctx = (markRegion s.proc).ctx := by
        unfold withRegion
        rw [if_pos h0]
      refine ⟨represents_nil ?_ ?_, fun _ => ?_, fun _ => rfl, ?_, ?_, ?_⟩ <;>
        dsimp only <;> rw [hctx]
      · rw [hgrown]; exact h.repr.lists.count
      · rw [hgrown]; exact h.repr.lists.pathLen
      · exact hmap
      · rw [hgrown]; exact h.next
      · rw [hgrown]; exact h.first
      · rw [hgrown]; exact h.dropped
    · have hsame : withRegion s.proc s.mem = (s.proc, s.mem) := by
        unfold withRegion
        rw [if_neg h0]
      rw [hsame] at hctx hmap ⊢
      have hr := h.repr
      refine ⟨⟨?_, hr.nodes, ?_, ?_⟩, fun _ => ?_, fun hz => absurd ?_ h0, ?_, ?_, ?_⟩ <;>
        dsimp only at * <;> rw [hctx] at *
      · exact ⟨hr.lists.count, hr.lists.pathLen, hr.lists.bytes, hr.lists.offset, hr.lists.length,
          hr.lists.dep, hr.lists.sequence⟩
      · rw [← hr.lists.pathLen]; exact hcap
      · exact hr.next
      · exact hmap
      · exact hz
      · exact h.next
      · exact h.first
      · exact h.dropped
  · dsimp only
    obtain ⟨hsame, hn, hp, hf, hx, hd⟩ := clear_spec (markContext { q with wf := w.1 }).ctx
      (withRegion s.proc s.mem).2 a.now
    refine ⟨[], PathInv.cleared (fun _ => hsame.mapped ?_) hn hp hf hx hd⟩
    rw [hq]
    exact hmap

/-- **A push** in a run: it adds an entry and drops the shortest prefix that makes room. -/
theorem PathInv.pushed (h : PathInv n s l) (node : AgentContextNode) (now : ℕ)
    (hn : n + 1 < 2 ^ 64 - 1) (hs : s.proc.ctx.contextRegionStart ≠ 0)
    (hrec : (newEntry s.proc.ctx node).record.length ≤ s.proc.ctx.agentPathCapacity) :
    ∃ c' m' k, s.proc.ctx.agentContextPushNode s.mem node now = some (c', m', 0) ∧ k ≤ l.length ∧
      PathInv (n + 1) (s.setCtx c' m') (l.drop k ++ [newEntry s.proc.ctx node]) ∧
      c'.contextDroppedNodes = s.proc.ctx.contextDroppedNodes + k ∧
      leavesRoom s.proc.ctx.agentPathCapacity (newEntry s.proc.ctx node).record.length
        (l.drop k) = true ∧
      ∀ j < k, leavesRoom s.proc.ctx.agentPathCapacity (newEntry s.proc.ctx node).record.length
        (l.drop j) = false := by
  have hnext := h.next
  have hfirst := h.first
  have hdropped := h.dropped
  obtain ⟨c', m', k, hpush, hk, hrepr, hsame, hn', hd', hfit, hmin⟩ := push_spec
    ⟨hs, h.region hs⟩ h.repr node now hrec (by omega) (by omega) (by omega)
  have hlen : (l.drop k ++ [newEntry s.proc.ctx node]).length = l.length - k + 1 := by simp
  have hlast := hrepr.next (by simp)
  refine ⟨c', m', k, hpush, hk, ⟨hrepr, fun _ => hsame.mapped (h.region hs), fun h0 => ?_, ?_, ?_,
    ?_⟩, hd', hfit, hmin⟩
  · exact absurd (hsame.start.symm.trans h0) hs
  · dsimp only [ContextRun.setCtx]; omega
  · dsimp only [ContextRun.setCtx]; omega
  · dsimp only [ContextRun.setCtx]; omega

/-- A push without a region, or of a record that is too large, only forgets the pending
dependency. -/
theorem push_refused (c : ContextState) (m : Memory) (node : AgentContextNode) (now : ℕ)
    (h : c.contextRegionStart = 0 ∨
      c.agentPathCapacity < (newEntry c node).record.length) :
    c.agentContextPushNode m node now = some (c.dropPending, m, -1) := by
  unfold ContextState.agentContextPushNode
  dsimp only
  by_cases h0 : c.dropPending.contextRegionStart = 0
  · rw [if_pos h0]
  · rw [if_neg h0]
    exact if_pos (h.resolve_left h0)

theorem PathInv.weaken (h : PathInv n s l) : PathInv (n + 1) s l :=
  ⟨h.repr, h.region, h.empty, h.next.trans (by omega), h.first.trans (by omega),
    h.dropped.trans (by omega)⟩

theorem PathInv.dropPending (h : PathInv n s l) : PathInv n (s.setCtx s.proc.ctx.dropPending s.mem) l :=
  ⟨⟨⟨h.repr.lists.count, h.repr.lists.pathLen, h.repr.lists.bytes, h.repr.lists.offset,
    h.repr.lists.length, h.repr.lists.dep, h.repr.lists.sequence⟩, h.repr.nodes, h.repr.capacity,
    h.repr.next⟩, h.region, h.empty, h.next, h.first, h.dropped⟩

/-- The invariant does not look at the loop state. -/
theorem PathInv.setLoop (h : PathInv n s l) (x : ℤ) :
    PathInv n { s with proc.loop.loopState := x } l :=
  ⟨h.repr, h.region, h.empty, h.next, h.first, h.dropped⟩

/-- **A rollback** in a run. -/
theorem PathInv.rolledBack (h : PathInv n s l) {k : ℕ} (now : ℕ) (hk : k ≤ l.length)
    (hn : n + 1 < 2 ^ 64) :
    ∃ c' m', s.proc.ctx.agentContextRollback s.mem k now = (c', m', 0) ∧
      PathInv n (s.setCtx c' m') (l.take k) := by
  have hfirst := h.first
  have hdropped := h.dropped
  obtain ⟨c', m', hroll, hrepr, hsame, h0, hpos⟩ := rollback_spec h.inRegion h.repr hk (by omega) now
  have hlen : (l.take k).length = k := by rw [List.length_take, Nat.min_eq_left hk]
  have hregion : (s.setCtx c' m').proc.ctx.contextRegionStart ≠ 0 →
      ContextRun.RegionMapped (s.setCtx c' m').proc.ctx (s.setCtx c' m').mem := fun hs =>
    hsame.mapped (h.region (by rw [← hsame.start]; exact hs))
  refine ⟨c', m', hroll, hrepr, hregion, fun hs => ?_, ?_, ?_, ?_⟩
  · rw [h.empty (hsame.start.symm.trans hs), List.take_nil]
  all_goals
    rcases Nat.eq_zero_or_pos k with hz | hp
    · obtain ⟨hf, hx, hd⟩ := h0 hz
      dsimp only [ContextRun.setCtx]
      omega
    · obtain ⟨hf, hx, hd⟩ := hpos (by omega)
      dsimp only [ContextRun.setCtx]
      omega

/-- **The step lemma.** -/
theorem PathInv.step (h : PathInv n s l) {a : ContextLabel} (hn : n + pushes [a] < 2 ^ 64 - 1)
    (hok : QuotaHolds s a) (hstep : s.next a = some t) : ∃ l', PathInv (n + pushes [a]) t l' := by
  cases a with
  | mark a =>
    obtain ⟨l', h'⟩ := h.mark a hok
    obtain rfl : _ = t := Option.some.inj hstep
    exact ⟨l', h'⟩
  | push node now =>
    change n + 1 < 2 ^ 64 - 1 at hn
    by_cases hs : s.proc.ctx.contextRegionStart = 0
    · have hrefused := push_refused s.proc.ctx s.mem node now (.inl hs)
      simp only [ContextRun.next, hrefused, Option.map_some] at hstep
      obtain rfl : _ = t := Option.some.inj hstep
      exact ⟨l, h.dropPending.weaken⟩
    by_cases hrec : (newEntry s.proc.ctx node).record.length ≤ s.proc.ctx.agentPathCapacity
    · obtain ⟨c', m', k, hpush, -, h', -⟩ := h.pushed node now hn hs hrec
      simp only [ContextRun.next, hpush, Option.map_some] at hstep
      obtain rfl : _ = t := Option.some.inj hstep
      exact ⟨_, h'⟩
    · have hrefused := push_refused s.proc.ctx s.mem node now (.inr (not_le.1 hrec))
      simp only [ContextRun.next, hrefused, Option.map_some] at hstep
      obtain rfl : _ = t := Option.some.inj hstep
      exact ⟨l, h.dropPending.weaken⟩
  | rollback k now =>
    change n + 0 < 2 ^ 64 - 1 at hn
    by_cases hk : k ≤ l.length
    · obtain ⟨c', m', hroll, h'⟩ := h.rolledBack now hk (by omega)
      simp only [ContextRun.next, hroll] at hstep
      refine ⟨l.take k, ?_⟩
      split at hstep
      · obtain rfl : _ = t := Option.some.inj hstep
        exact h'
      · obtain rfl : _ = t := Option.some.inj hstep
        exact h'.setLoop _
    · have hlt : s.proc.ctx.contextNodeCount < k := by rw [h.repr.lists.count]; omega
      have hroll : s.proc.ctx.agentContextRollback s.mem k now = (s.proc.ctx, s.mem, -1) :=
        rollback_refused hlt
      simp only [ContextRun.next, hroll, if_pos (Or.inl hlt : _ ∨ _)] at hstep
      obtain rfl : _ = t := Option.some.inj hstep
      exact ⟨l, h⟩
  | clear now =>
    obtain ⟨hsame, hc, hp, hf, hx, hd⟩ := clear_spec s.proc.ctx s.mem now
    obtain rfl : _ = t := Option.some.inj hstep
    refine ⟨[], PathInv.cleared (fun hs => hsame.mapped (h.region ?_)) hc hp hf hx hd⟩
    rw [← hsame.start]
    exact hs

theorem pushes_append (tr tr' : List ContextLabel) : pushes (tr ++ tr') = pushes tr + pushes tr' :=
  List.countP_append ..

/-- **The run lemma.** -/
theorem pathInv_of_reach {tr : List ContextLabel} (h : contextMachine.Reach QuotaHolds tr s)
    (hn : pushes tr < 2 ^ 64 - 1) : ∃ l, PathInv (pushes tr) s l := by
  obtain ⟨s₀, ⟨hp, hc, hd, hf, hx, hr⟩, hpath⟩ := h
  refine Path.inv_tr (P := fun tr s => pushes tr < 2 ^ 64 - 1 → ∃ l, PathInv (pushes tr) s l)
    (fun tr s a t ih hok hstep hn => ?_) hpath
    (fun _ => ⟨[], PathInv.cleared hr hc hp hf hx hd⟩) hn
  rw [pushes_append] at hn ⊢
  obtain ⟨l, h⟩ := ih (by omega)
  exact h.step hn hok hstep

end

/-! ### The theorem -/

/-- What a push of a record that fits does to the list: it drops the shortest prefix that
makes room, counts it, and appends the new entry. -/
def Appends (c : ContextState) (m : Memory) (l : List Entry) (node : AgentContextNode) (now : ℕ) :
    Prop :=
  ∃ c' m' k, c.agentContextPushNode m node now = some (c', m', 0) ∧ k ≤ l.length ∧
    Represents c' m' (l.drop k ++ [newEntry c node]) ∧
    c'.contextDroppedNodes = c.contextDroppedNodes + k ∧
    leavesRoom c.agentPathCapacity (newEntry c node).record.length (l.drop k) = true ∧
    ∀ j < k, leavesRoom c.agentPathCapacity (newEntry c node).record.length (l.drop j) = false

/-- **In every run that meets the condition** the Context Path is a bounded list of entries:
a push of a record that fits appends to it, a rollback to `k` nodes keeps the first `k`
entries, a clear empties it, and a query returns a prefix of its text. -/
theorem context_path_refines {tr : List ContextLabel} {s : ContextRun}
    (h : contextMachine.Reach QuotaHolds tr s) (hn : pushes tr < 2 ^ 64 - 1) :
    ∃ l, Represents s.proc.ctx s.mem l ∧
      (∀ node now, pushes tr + 1 < 2 ^ 64 - 1 → s.proc.ctx.contextRegionStart ≠ 0 →
        (newEntry s.proc.ctx node).record.length ≤ s.proc.ctx.agentPathCapacity →
        Appends s.proc.ctx s.mem l node now) ∧
      (∀ k now, k ≤ l.length → ∃ c' m',
        s.proc.ctx.agentContextRollback s.mem k now = (c', m', 0) ∧ Represents c' m' (l.take k)) ∧
      (∀ now, Represents (s.proc.ctx.agentContextClear s.mem now).1
        (s.proc.ctx.agentContextClear s.mem now).2 []) ∧
      ∀ dst len, Writable s.mem dst (min len s.proc.ctx.contextPathLen) →
        (dst ≤ s.proc.ctx.agentPathBase ∨
          s.proc.ctx.agentPathBase + min len s.proc.ctx.contextPathLen ≤ dst ∨
          min len s.proc.ctx.contextPathLen ≤ 128) →
        (s.proc.ctx.agentContextQuery s.mem dst len).2.2 =
            (min len s.proc.ctx.contextPathLen : ℕ) ∧
          slice (s.proc.ctx.agentContextQuery s.mem dst len).2.1.byte dst
            (min len s.proc.ctx.contextPathLen) = (text l).take len := by
  obtain ⟨l, hl⟩ := pathInv_of_reach h hn
  refine ⟨l, hl.repr, fun node now hn' hs hrec => ?_, fun k now hk => ?_, fun now => ?_,
    fun dst len hd ho => query_spec hl.inRegion hl.repr hd ho⟩
  · obtain ⟨c', m', k, hpush, hk, h', hd, hfit, hmin⟩ := hl.pushed node now hn' hs hrec
    exact ⟨c', m', k, hpush, hk, h'.repr, hd, hfit, hmin⟩
  · obtain ⟨c', m', hroll, h'⟩ := hl.rolledBack now hk (by omega)
    exact ⟨c', m', hroll, h'.repr⟩
  · obtain ⟨-, hc, hp, -⟩ := clear_spec s.proc.ctx s.mem now
    exact represents_nil hc hp

/-! ### Two runs -/

/-- A workflow table that 16 other workflows fill. -/
def fullTable : AgentGlobal :=
  { AgentGlobal.init with workflows := fun i =>
      { AgentWorkflow.zero with
        used := true
        workflowId := 100 + i
        leaderGeneration := 100 + i
        memberCount := 1 } }

/-- A new process of one page. -/
def newcomer : ContextRun :=
  ⟨{ Proc.boot with pid := 1, sz := pgsize }, ⟨fun _ => 0, fun _ => false, fun _ => false⟩⟩

/-- `agent_create(type, 0, quota)` while the table is full. -/
def crowdedMark (type : ℤ) (quota : ℕ) : MarkArgs where
  type := type
  heartbeatInterval := 0
  resourceQuota := quota
  uvmalloc := true
  generation := 1
  now := 1
  atLeave := fullTable
  atJoin := fullTable

/-- The process becomes an Agent outside the table and pushes one node. -/
def firstPush : List ContextLabel :=
  [.mark (crowdedMark agentTypePrimary 0), .push ⟨0, 1, 0, 0, 0, [], []⟩ 1]

/-- Then it creates itself again with a quota of one byte, and is refused. -/
def secondMark : List ContextLabel := firstPush ++ [.mark (crowdedMark agentTypeWorker 1)]

/-- The state a run of the process ends in. -/
def newcomerRuns (tr : List ContextLabel) : ContextRun :=
  (contextMachine.run newcomer tr).getD newcomer

theorem newcomer_init : contextMachine.init newcomer :=
  ⟨rfl, rfl, rfl, rfl, rfl, fun h => absurd rfl h⟩

set_option maxRecDepth 100000 in
theorem firstPush_reach : contextMachine.Reach QuotaHolds firstPush (newcomerRuns firstPush) := by
  refine ⟨newcomer, newcomer_init, (path_getD (by decide +kernel)).of_labels fun a ha s => ?_⟩
  simp only [firstPush, List.mem_cons, List.not_mem_nil, or_false] at ha
  rcases ha with rfl | rfl
  · exact fun hjoin => absurd rfl hjoin.1
  · trivial

theorem context_path_refines_push :
    pushes firstPush < 2 ^ 64 - 1 ∧
      ∃ l, Represents (newcomerRuns firstPush).proc.ctx (newcomerRuns firstPush).mem l := by
  have hn : pushes firstPush < 2 ^ 64 - 1 := by decide
  obtain ⟨l, hl, -⟩ := context_path_refines firstPush_reach hn
  exact ⟨hn, l, hl⟩

set_option maxRecDepth 100000 in
/-- **The list is lost**: the refused call leaves a quota of one byte and the old path. -/
theorem quota_breaks_path :
    ∃ tr s, contextMachine.Reach always tr s ∧ pushes tr < 2 ^ 64 - 1 ∧
      ¬ ∃ l, Represents s.proc.ctx s.mem l := by
  refine ⟨secondMark, newcomerRuns secondMark,
    ⟨newcomer, newcomer_init, path_getD (by decide +kernel)⟩, by decide, ?_⟩
  rintro ⟨l, hl⟩
  have hover : (newcomerRuns secondMark).proc.ctx.agentPathCapacity <
      (newcomerRuns secondMark).proc.ctx.contextPathLen := by decide +kernel
  have hfit := hl.capacity
  rw [← hl.lists.pathLen] at hfit
  exact absurd hover (not_lt.2 hfit)

end AgentOS
