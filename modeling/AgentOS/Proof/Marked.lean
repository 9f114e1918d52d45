import AgentOS.Proof.CreateCall

/-!
# What `agent_mark_current` stores in a heartbeat

* `MarkKeeps`: the workflow and Context sections leave the heartbeat, the loop and the mailbox of the
  process alone.
* `Marked`, **`mark_spec`**: the fields of the caller once the region is there.
-/

namespace AgentOS

/-- The fields that the workflow and Context sections of `agent_mark_current` leave alone. -/
structure SameMark (p q : Proc) : Prop where
  hb : q.hb = p.hb
  type : q.ident.agentType = p.ident.agentType
  state : q.state = p.state
  killed : q.killed = p.killed
  loopState : q.loop.loopState = p.loop.loopState
  pending : q.loop.pendingEvents = p.loop.pendingEvents
  mailbox : q.mailbox = p.mailbox

/-- Such a section, on process `i`. -/
structure MarkKeeps (s t : CascadeState) (i : Slot) : Prop where
  others : ∀ j, j ≠ i → t.proc j = s.proc j
  heads : t.kernel.agentGlobal.heartbeatWheelHeads = s.kernel.agentGlobal.heartbeatWheelHeads
  ticks : t.kernel.ticks = s.kernel.ticks
  proc : SameMark (s.proc i) (t.proc i)

/-- **What `agent_mark_current` stores** once the region is there. -/
structure Marked (s t : CascadeState) (i : Slot) (a : CreateArgs) : Prop where
  others : ∀ j, j ≠ i → t.proc j = s.proc j
  heads : t.kernel.agentGlobal.heartbeatWheelHeads = s.kernel.agentGlobal.heartbeatWheelHeads
  ticks : t.kernel.ticks = s.kernel.ticks
  hb : (t.proc i).hb = markHeartbeat (s.proc i).hb a.heartbeatInterval a.now
  type : (t.proc i).ident.agentType = markType a.type
  state : (t.proc i).state = (s.proc i).state
  killed : (t.proc i).killed = (s.proc i).killed
  loopState : (t.proc i).loop.loopState = agentLoopReady
  gone : ¬ Gone (t.proc i)
  count : (t.proc i).mailbox.count = 0

section

variable {s t u : CascadeState} {i j : Slot} {a : CreateArgs} {g : AgentGlobal} {m : Membership}

theorem SameMark.refl (p : Proc) : SameMark p p := ⟨rfl, rfl, rfl, rfl, rfl, rfl, rfl⟩

theorem SameMark.trans {p q r : Proc} (h : SameMark p q) (h' : SameMark q r) : SameMark p r where
  hb := h'.hb.trans h.hb
  type := h'.type.trans h.type
  state := h'.state.trans h.state
  killed := h'.killed.trans h.killed
  loopState := h'.loopState.trans h.loopState
  pending := h'.pending.trans h.pending
  mailbox := h'.mailbox.trans h.mailbox

theorem MarkKeeps.refl (s : CascadeState) (i : Slot) : MarkKeeps s s i :=
  ⟨fun _ _ => rfl, rfl, rfl, SameMark.refl _⟩

theorem MarkKeeps.trans (h : MarkKeeps s t i) (h' : MarkKeeps t u i) : MarkKeeps s u i where
  others j hj := (h'.others j hj).trans (h.others j hj)
  heads := h'.heads.trans h.heads
  ticks := h'.ticks.trans h.ticks
  proc := h.proc.trans h'.proc

theorem markKeeps_global (hg : g.heartbeatWheelHeads = s.kernel.agentGlobal.heartbeatWheelHeads) :
    MarkKeeps s (s.setGlobal g) i :=
  ⟨fun _ _ => rfl, hg, rfl, SameMark.refl _⟩

theorem markKeeps_setProc {p : Proc} (hp : SameMark (s.proc i) p) :
    MarkKeeps s (s.setProc i p) i := by
  refine ⟨fun j hj => CascadeState.setProc_ne _ _ _ _ hj, rfl, rfl, ?_⟩
  rw [CascadeState.setProc_self]
  exact hp

theorem markKeeps_setWf : MarkKeeps s (s.setWf i m) i :=
  markKeeps_setProc ⟨rfl, rfl, rfl, rfl, rfl, rfl, rfl⟩

theorem leave_heads :
    (agentWorkflowLeave g m).1.heartbeatWheelHeads = g.heartbeatWheelHeads := by
  unfold agentWorkflowLeave
  split_ifs
  · rfl
  cases agentWorkflowFind g m.key with
  | none => rfl
  | some r =>
    dsimp only
    split_ifs <;> rfl

theorem workflowCreate_heads :
    (agentWorkflowCreate g m).1.heartbeatWheelHeads = g.heartbeatWheelHeads := by
  unfold agentWorkflowCreate
  split
  · dsimp only
    split_ifs <;> rfl
  · split <;> rfl

theorem join_heads :
    (agentWorkflowJoin g m).1.heartbeatWheelHeads = g.heartbeatWheelHeads := by
  unfold agentWorkflowJoin
  split_ifs
  · rfl
  split
  · rfl
  · dsimp only
    split_ifs <;> rfl

theorem markKeeps_own (leader : Bool) : MarkKeeps s (s.agentMarkOwn i leader) i := by
  unfold CascadeState.agentMarkOwn
  dsimp only
  split
  · exact markKeeps_setProc ⟨rfl, rfl, rfl, rfl, rfl, rfl, rfl⟩
  · refine ((markKeeps_setProc ?_).trans (markKeeps_global workflowCreate_heads)).trans
      markKeeps_setWf
    exact ⟨rfl, rfl, rfl, rfl, rfl, rfl, rfl⟩

theorem markKeeps_done : MarkKeeps s (s.markDone i) i := by
  have h : MarkKeeps s (s.setProc i (markContext (s.proc i))) i :=
    markKeeps_setProc ⟨rfl, rfl, rfl, rfl, rfl, rfl, rfl⟩
  exact ⟨h.others, h.heads, h.ticks, h.proc⟩

theorem markCurrent_ticks {k k' : Kernel} {type interval : ℤ} {quota now now' : ℕ} {uvm : Bool}
    (h : k.markCurrent i type interval quota uvm now now' = some k') : k'.ticks = k.ticks := by
  unfold Kernel.markCurrent at h
  dsimp only at h
  generalize (if (k.procs i).ctx.contextRegionStart = 0 then markRegion (k.procs i)
    else k.procs i) = p at h
  split at h
  · cases h
  split at h <;>
  · obtain rfl := Option.some.inj h
    rfl

/-- The stores before the workflow sections. -/
theorem marked_stores {k : Kernel} {generation : ℕ}
    (h : Stores s.kernel k i (markStores (markPlaced (s.proc i)) (markType a.type)
      a.heartbeatInterval a.resourceQuota generation a.now a.now')) (ht : k.ticks = s.kernel.ticks) :
    Marked s { s with kernel := k } i a := by
  have hproc : ({ s with kernel := k } : CascadeState).proc i = _ := h.proc
  have hplaced : (markPlaced (s.proc i)).hb = (s.proc i).hb ∧
      (markPlaced (s.proc i)).state = (s.proc i).state ∧
      (markPlaced (s.proc i)).killed = (s.proc i).killed := by
    unfold markPlaced
    split
    · exact ⟨rfl, rfl, rfl⟩
    · exact ⟨rfl, rfl, rfl⟩
  refine ⟨h.others, h.heads, ht, ?_, ?_, ?_, ?_, ?_, ?_, ?_⟩ <;> rw [hproc]
  · rw [← hplaced.1]
    rfl
  · rfl
  · exact hplaced.2.1
  · exact hplaced.2.2
  · rfl
  · have hzero : ¬ ((0 : BitVec 32) &&& agentEventParentGone ≠ 0) := by decide
    exact hzero
  · rfl

theorem Marked.keeps (h : Marked s t i a) (h' : MarkKeeps t u i) : Marked s u i a where
  others j hj := (h'.others j hj).trans (h.others j hj)
  heads := h'.heads.trans h.heads
  ticks := h'.ticks.trans h.ticks
  hb := h'.proc.hb.trans h.hb
  type := h'.proc.type.trans h.type
  state := h'.proc.state.trans h.state
  killed := h'.proc.killed.trans h.killed
  loopState := h'.proc.loopState.trans h.loopState
  gone := by
    unfold Gone
    rw [h'.proc.pending]
    exact h.gone
  count := by
    rw [h'.proc.mailbox]
    exact h.count

/-- **`agent_mark_current`** stores nothing without memory for the region, and everything where it
goes on; it returns -1 where the join is refused. -/
theorem mark_spec (s : CascadeState) (i : Slot) (a : CreateArgs) :
    let r := s.agentMarkCurrent i a.type a.heartbeatInterval a.resourceQuota a.uvmalloc a.now a.now'
    (RegionFails (s.proc i) a ∧ r = (s, -1)) ∨
      (¬ RegionFails (s.proc i) a ∧ Marked s r.1 i a ∧
        (r.2 = -1 ↔ JoinRefused s.workflows (s.proc i).wf a.type)) := by
  intro r
  have ho := markCurrent_outcome s i a
  have hr : r = s.agentMarkCurrent i a.type a.heartbeatInterval a.resourceQuota a.uvmalloc a.now
    a.now' := rfl
  cases hk : s.kernel.markCurrent i a.type a.heartbeatInterval a.resourceQuota a.uvmalloc a.now
      a.now' with
  | none =>
    left
    unfold CascadeState.agentMarkCurrent at hr
    rw [hk] at hr
    exact ⟨markCurrent_none.1 hk, hr⟩
  | some k =>
    have hfail : ¬ RegionFails (s.proc i) a := by
      intro hf
      rw [markCurrent_none.2 hf] at hk
      cases hk
    refine .inr ⟨hfail, ?_, ?_⟩
    · obtain ⟨generation, hst⟩ := markCurrent_stores hk
      have hmark : Marked s { s with kernel := k } i a := marked_stores hst (markCurrent_ticks hk)
      rw [hr]
      unfold CascadeState.agentMarkCurrent
      rw [hk]
      dsimp only
      split
      · exact ((hmark.keeps (markKeeps_global leave_heads)).keeps markKeeps_setWf).keeps
          ((markKeeps_own true).trans markKeeps_done)
      have hset := hmark.keeps (markKeeps_setWf (m := { (({ s with kernel := k } :
        CascadeState).proc i).wf with isWorkflowLeader := false }))
      split
      · exact hset.keeps ((markKeeps_own false).trans markKeeps_done)
      split
      · split
        · exact hset.keeps (((markKeeps_global join_heads).trans markKeeps_setWf).trans
            markKeeps_done)
        · exact ⟨hset.others, join_heads.trans hset.heads, hset.ticks, hset.hb, hset.type,
            hset.state, hset.killed, hset.loopState, hset.gone, hset.count⟩
      · exact hset.keeps markKeeps_done
    · constructor
      · intro hret
        rcases ho.failed hret with ⟨hf, -⟩ | ⟨-, hj, -⟩
        · exact absurd hf hfail
        · exact hj
      · intro hj
        exact ho.fails (.inr hj)

end

end AgentOS
