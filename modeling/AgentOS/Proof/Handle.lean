import AgentOS.Model.Handle
import AgentOS.Proof.Deps

/-!
# Context handles keep their meaning

* `numbers`: the sequence numbers of the live nodes, as the dependency array has them;
  `push_numbers`, `rollback_numbers`, `mark_numbers`: what the calls make of them.
* `HandleInv`: no number is given twice.
* **`handle_not_found`**: as long as no push gives a node a number that a node has had,
  `context_validate` does not find a node that is gone; `handle_reused`: after a rollback it does.
-/

namespace AgentOS

open Machine

/-! ### The numbers of the live nodes -/

/-- The sequence numbers that `agent_context_validate` compares with. -/
def numbers (c : ContextState) : List ℕ :=
  (List.range c.contextNodeCount).map fun i => (c.contextDeps i).sequence

section

variable {c c' c₂ : ContextState} {m m' m₂ : Memory} {node : AgentContextNode} {now k n : ℕ}

@[simp] theorem numbers_length (c : ContextState) : (numbers c).length = c.contextNodeCount := by
  simp [numbers]

theorem numbers_nil (h : c.contextNodeCount = 0) : numbers c = [] := by
  simp [numbers, h]

/-- They are those of the live dependencies. -/
theorem numbers_eq (c : ContextState) : numbers c = (liveDeps c).map (·.sequence) := by
  unfold numbers liveDeps
  rw [List.map_map]
  rfl

theorem numbers_congr (hc : c'.contextNodeCount = c.contextNodeCount)
    (hd : c'.contextDeps = c.contextDeps) : numbers c' = numbers c := by
  unfold numbers
  rw [hc, hd]

end

/-! ### The calls -/

section

variable {c c' c₂ : ContextState} {m m' m₂ : Memory} {node : AgentContextNode} {now k n : ℕ}

/-- **A push** drops the oldest numbers, and a node that is recorded gets the number that was
next. -/
theorem push_numbers {r : ℤ} (h : c.agentContextPushNode m node now = some (c', m', r)) :
    ∃ j, numbers c' = ((if c.recorded m node now then numbers c ++ [c.contextNextSequence]
      else numbers c).drop j) := by
  obtain ⟨j, hj⟩ := push_liveDeps h
  refine ⟨j, ?_⟩
  rw [numbers_eq, numbers_eq, hj, List.map_drop]
  congr 1
  split
  · rw [List.map_append, List.map_singleton, pendingDep_sequence]
  · rfl

theorem rollback_numbers (c : ContextState) (m : Memory) (k now : ℕ) :
    let c' := (c.agentContextRollback m k now).1
    numbers c' = (numbers c).take c'.contextNodeCount := by
  intro c'
  rw [numbers_eq, numbers_eq, rollback_liveDeps, List.map_take]

/-- A call to `agent_create` that fails keeps the nodes; one that succeeds clears them. -/
theorem mark_numbers (p : Proc) (m : Memory) (a : MarkArgs) :
    let q := (agentMarkCurrent p m a).1
    numbers q.ctx = (numbers p.ctx).take q.ctx.contextNodeCount := by
  intro q
  have hcase := mark_cases p m a
  obtain ⟨x, y, r, hr⟩ : ∃ x y r, agentMarkCurrent p m a = (x, y, r) := ⟨_, _, _, rfl⟩
  have hq : q = x := congrArg Prod.fst hr
  rw [hr] at hcase
  rw [hq]
  have hkeeps : ∀ c : ContextState, c.contextDeps = p.ctx.contextDeps →
      c.contextNodeCount = p.ctx.contextNodeCount →
      numbers c = (numbers p.ctx).take c.contextNodeCount := by
    intro c hd hc
    rw [numbers_congr hc hd, hc, ← numbers_length p.ctx, List.take_length]
  cases hcase with
  | refused => exact hkeeps _ rfl rfl
  | unjoined w =>
    obtain ⟨hkeep, hnew⟩ := withRegion_ctx p m
    have hctx := marking_ctx p m a
    by_cases h0 : p.ctx.contextRegionStart = 0
    · rw [hnew h0] at hctx
      exact hkeeps _ (by rw [hctx]) (by rw [hctx])
    · rw [hkeep h0] at hctx
      exact hkeeps _ (by rw [hctx]) (by rw [hctx])
  | @marked q' w hq' =>
    obtain ⟨-, hcount, -⟩ := clear_spec q'.ctx (withRegion p m).2 a.now
    rw [numbers_nil hcount, hcount, List.take_zero]

end

/-! ### The invariant -/

/-- **The condition on a step**: the number of a new node is not one that a node has had, live or
gone; nor 0, which asks for the last node. -/
def KeepsNumbers (s : HandleRun) : HandleLabel → Prop
  | .push node now => s.proc.ctx.recorded s.mem node now = true →
      s.proc.ctx.contextNextSequence ≠ 0 ∧ s.proc.ctx.contextNextSequence ∉ s.removed ++ s.live
  | _ => True

/-- **The invariant**: the dependency array has the numbers of the live nodes; no number was given
twice; each is positive. -/
structure HandleInv (s : HandleRun) : Prop where
  live : numbers s.proc.ctx = s.live
  nodup : (s.removed ++ s.live).Nodup
  pos : ∀ n ∈ s.removed ++ s.live, n ≠ 0

section

variable {s t : HandleRun} {p : Proc} {m : Memory} {c : ContextState} {nodes : List ℕ} {n : ℕ}

/-- A call that drops newest nodes. -/
theorem HandleInv.keepOldest (h : HandleInv s)
    (hnum : numbers p.ctx = s.live.take p.ctx.contextNodeCount) : HandleInv (s.keepOldest p m) := by
  have hperm : (s.removed ++ s.live.drop p.ctx.contextNodeCount ++
      s.live.take p.ctx.contextNodeCount).Perm (s.removed ++ s.live) := by
    rw [List.append_assoc]
    refine List.Perm.append_left _ (List.perm_append_comm.trans ?_)
    rw [List.take_append_drop]
  exact ⟨hnum, hperm.nodup_iff.2 h.nodup, fun n hn => h.pos n (hperm.mem_iff.1 hn)⟩

/-- A push of the nodes `nodes`. -/
theorem handleInv_keepNewest {j : ℕ} (hnum : numbers c = nodes.drop j)
    (hnodup : (s.removed ++ nodes).Nodup) (hpos : ∀ n ∈ s.removed ++ nodes, n ≠ 0) :
    HandleInv (s.keepNewest c m nodes) := by
  have hcount : c.contextNodeCount = nodes.length - j := by
    rw [← numbers_length, hnum, List.length_drop]
  have hlive : nodes.drop j = nodes.drop (nodes.length - c.contextNodeCount) := by
    rw [hcount]
    rcases Nat.le_total j nodes.length with hle | hle
    · congr 1
      omega
    · rw [List.drop_of_length_le hle, List.drop_of_length_le (by omega)]
  have hall : s.removed ++ nodes.take (nodes.length - c.contextNodeCount) ++
      nodes.drop (nodes.length - c.contextNodeCount) = s.removed ++ nodes := by
    rw [List.append_assoc, List.take_append_drop]
  refine ⟨hnum.trans hlive, ?_, fun n hn => ?_⟩
  · exact hall ▸ hnodup
  · exact hpos n (hall ▸ hn)

/-- A state with the same nodes. -/
theorem HandleInv.congr (h : HandleInv s) (hn : numbers t.proc.ctx = numbers s.proc.ctx)
    (hl : t.live = s.live) (hr : t.removed = s.removed) : HandleInv t := by
  refine ⟨by rw [hn, hl]; exact h.live, by rw [hl, hr]; exact h.nodup, ?_⟩
  rw [hl, hr]
  exact h.pos

/-- **One step.** -/
theorem HandleInv.step {l : HandleLabel} (h : HandleInv s) (hok : KeepsNumbers s l)
    (hn : s.next l = some t) : HandleInv t := by
  have hlen : s.live.length = s.proc.ctx.contextNodeCount := by
    rw [← h.live, numbers_length]
  cases l with
  | mark a =>
    obtain rfl := Option.some.inj hn
    exact h.keepOldest (h.live ▸ mark_numbers s.proc s.mem a)
  | push node now =>
    obtain ⟨⟨c', m', r⟩, hpush, rfl⟩ := Option.map_eq_some_iff.1 hn
    obtain ⟨j, hj⟩ := push_numbers hpush
    rw [h.live] at hj
    dsimp only
    by_cases hrec : s.proc.ctx.recorded s.mem node now = true
    · obtain ⟨hpos, hnew⟩ := hok hrec
      rw [if_pos hrec] at hj ⊢
      refine handleInv_keepNewest hj ?_ fun n hm => ?_
      · rw [← List.append_assoc]
        exact List.nodup_append'.2 ⟨h.nodup, List.nodup_singleton _, by simpa using hnew⟩
      · rw [← List.append_assoc, List.mem_append, List.mem_singleton] at hm
        rcases hm with hm | rfl
        · exact h.pos n hm
        · exact hpos
    · rw [if_neg hrec] at hj ⊢
      exact handleInv_keepNewest hj h.nodup h.pos
  | rollback k now =>
    have hnum := rollback_numbers s.proc.ctx s.mem k now
    have hkept : HandleInv (s.keepOldest { s.proc with ctx := (s.proc.ctx.agentContextRollback s.mem k
        now).1 } (s.proc.ctx.agentContextRollback s.mem k now).2.1) := by
      rw [h.live] at hnum
      exact h.keepOldest hnum
    simp only [HandleRun.next] at hn
    split at hn
    · exact Option.some.inj hn ▸ hkept
    · exact Option.some.inj hn ▸ hkept.congr rfl rfl rfl
  | clear now =>
    obtain rfl := Option.some.inj hn
    obtain ⟨-, hcount, -⟩ := clear_spec s.proc.ctx s.mem now
    refine h.keepOldest ?_
    dsimp only
    rw [numbers_nil hcount, hcount, List.take_zero]
  | query dst len =>
    obtain rfl := Option.some.inj hn
    refine h.keepOldest ?_
    have hcount : numbers { s.proc.ctx with contextReuseHit := 1 } = numbers s.proc.ctx :=
      numbers_congr rfl rfl
    exact (hcount.trans h.live).trans (hlen ▸ List.take_length).symm
  | exec m sz =>
    obtain rfl := Option.some.inj hn
    exact h.keepOldest (List.take_zero ..).symm
  | depend dev inum version => exact Option.some.inj hn ▸ h.congr rfl rfl rfl
  | validate sequence => exact Option.some.inj hn ▸ h.congr rfl rfl rfl
  | store va bytes =>
    simp only [HandleRun.next] at hn
    split at hn <;> [skip; cases hn]
    exact Option.some.inj hn ▸ h.congr rfl rfl rfl
  | sbrk n uvmalloc => exact Option.some.inj hn ▸ h.congr rfl rfl rfl
  | files t => exact Option.some.inj hn ▸ h.congr rfl rfl rfl
  | other p => exact Option.some.inj hn ▸ h.congr rfl rfl rfl

theorem handleInv_of_reach {tr : List HandleLabel} (h : handleMachine.Reach KeepsNumbers tr s) :
    HandleInv s := by
  refine h.inv (P := HandleInv) (fun s₀ hi => ?_) fun s l t hs hok hn => hs.step hok hn
  obtain ⟨hcount, -, hlive, hremoved⟩ := hi
  refine ⟨by rw [numbers_nil hcount, hlive], by rw [hlive, hremoved]; exact List.nodup_nil, ?_⟩
  rw [hlive, hremoved]
  intro n hn
  cases hn

/-- A number that no live node has is not found. -/
theorem validate_notFound (h0 : n ≠ 0) (hn : n ∉ numbers c) (t : FileVersions) :
    (agentContextValidate c t n).2.state = .notFound := by
  have hseq : validateSequence c n = n := if_neg fun h => absurd h.1 h0
  have hnone : (List.range c.contextNodeCount).find? (fun i => (c.contextDeps i).sequence == n) =
      none := by
    rw [List.find?_eq_none]
    intro i hi
    rw [beq_iff_eq]
    exact fun he => hn (List.mem_map.2 ⟨i, hi, he⟩)
  simp only [agentContextValidate, hseq, hnone]

/-- **A handle keeps its meaning**: in every run that gives no node a number that a node has had,
`context_validate` reports NOT_FOUND for each node that is gone, from then on and whatever is
pushed. -/
theorem handle_not_found {tr : List HandleLabel} (h : handleMachine.Reach KeepsNumbers tr s)
    (hn : n ∈ s.removed) (t : FileVersions) :
    (agentContextValidate s.proc.ctx t n).2.state = .notFound := by
  have hinv := handleInv_of_reach h
  refine validate_notFound (hinv.pos n (List.mem_append_left _ hn)) ?_ t
  rw [hinv.live]
  exact fun hl => List.disjoint_of_nodup_append hinv.nodup hn hl

end

/-! ### Two runs -/

/-- A child of an Agent, with the region of its parent and a quota of `quota` bytes. -/
def childRun (quota : ℕ) : HandleRun where
  proc := { Proc.boot with
    ctx.resourceQuota := quota
    ctx.contextRegionStart := pgsize
    ctx.contextRegionSize := agentContextRegionSize }
  mem := ⟨fun _ => 0, fun _ => true, fun _ => true⟩
  versions := FileVersions.init
  live := []
  removed := []

/-- A push of an empty node. -/
def pushLabel : HandleLabel := .push ⟨0, 0, 0, 0, 0, [], []⟩ 0

def HandleRun.after (s : HandleRun) (tr : List HandleLabel) : HandleRun :=
  (handleMachine.run s tr).getD s

/-- With room for one record the second push evicts the first node. -/
def childPushed : HandleRun := (handleMachine.next (childRun 100) pushLabel).getD (childRun 100)

def childEvicted : HandleRun := (handleMachine.next childPushed pushLabel).getD childPushed

theorem handle_not_found_evicted :
    handleMachine.Reach KeepsNumbers [pushLabel, pushLabel] childEvicted ∧ 1 ∈ childEvicted.removed ∧
      (agentContextValidate childEvicted.proc.ctx FileVersions.init 1).2.state = .notFound := by
  have hfirst : (handleMachine.next (childRun 100) pushLabel).isSome = true ∧
      childPushed.proc.ctx.contextNextSequence = 2 ∧ childPushed.removed ++ childPushed.live = [1] ∧
      (handleMachine.next childPushed pushLabel).isSome = true ∧ 1 ∈ childEvicted.removed := by
    decide +kernel
  obtain ⟨hpush, hnext, hnumbers, hagain, hgone⟩ := hfirst
  have hreach : handleMachine.Reach KeepsNumbers [pushLabel, pushLabel] childEvicted := by
    refine ⟨childRun 100, ⟨rfl, rfl, rfl, rfl⟩, Path.cons (t := childPushed) ?_ (next_getD hpush)
      (Path.single ?_ (next_getD hagain))⟩
    · intro _
      decide
    · intro _
      rw [hnext, hnumbers]
      decide
  exact ⟨hreach, hgone, handle_not_found hreach hgone FileVersions.init⟩

/-- The second node is rolled back, and its number goes to a read of another file. -/
def reusing : List HandleLabel :=
  [pushLabel, .depend 1 5 1, pushLabel, .rollback 1 0, .depend 1 6 1, pushLabel]

/-- **A handle changes its meaning**: it was a read of inode 5, and is valid for inode 6. -/
theorem handle_reused :
    handleMachine.Reach always reusing ((childRun 7552).after reusing) ∧
      ((childRun 7552).after (reusing.take 3)).live = [1, 2] ∧
      ((childRun 7552).after (reusing.take 4)).removed = [2] ∧
      ((childRun 7552).after (reusing.take 3)).proc.ctx.contextDeps 1 = ⟨true, 2, 1, 5, 1⟩ ∧
      2 ∈ ((childRun 7552).after reusing).removed ∧
      (agentContextValidate ((childRun 7552).after reusing).proc.ctx FileVersions.init 2).2 =
        ⟨2, 1, 6, 1, 1, .valid⟩ := by
  have hrun : (handleMachine.run (childRun 7552) reusing).isSome = true ∧
      ((childRun 7552).after (reusing.take 3)).live = [1, 2] ∧
      ((childRun 7552).after (reusing.take 4)).removed = [2] ∧
      ((childRun 7552).after (reusing.take 3)).proc.ctx.contextDeps 1 = ⟨true, 2, 1, 5, 1⟩ ∧
      2 ∈ ((childRun 7552).after reusing).removed ∧
      (agentContextValidate ((childRun 7552).after reusing).proc.ctx FileVersions.init 2).2 =
        ⟨2, 1, 6, 1, 1, .valid⟩ := by decide +kernel
  exact ⟨⟨childRun 7552, ⟨rfl, rfl, rfl, rfl⟩, path_getD hrun.1⟩, hrun.2⟩

end AgentOS
