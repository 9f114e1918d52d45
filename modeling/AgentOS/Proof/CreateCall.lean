import AgentOS.Model.CreateCall
import AgentOS.Proof.Cascade
import AgentOS.Proof.Wheel
import Mathlib.Order.Interval.Finset.Nat

/-!
# What a failed `agent_create` leaves behind

* `remove_none`: the removal from the wheel never ends exactly on a circle.
* `markCurrent_stores`, `markCurrent_refused`: what the call has stored where it fails.
* **`agent_create_atomic`**: exactly which failed calls leave the Agent as it was;
  `agent_create_tears`: a call without memory stops the heartbeat, a refused one replaces the Agent.
-/

namespace AgentOS

/-! ### The walk along a list -/

section

variable {α : Type*} {f : α → α} {x : α}

/-- An orbit that comes back has no element but the first ones. -/
theorem iterate_earlier {a b : ℕ} (hab : a < b) (he : f^[a] x = f^[b] x) (n : ℕ) :
    ∃ m < b, f^[n] x = f^[m] x := by
  induction n with
  | zero => exact ⟨0, by omega, rfl⟩
  | succ n ih =>
    obtain ⟨m, hm, hn⟩ := ih
    by_cases hb : m + 1 = b
    · refine ⟨a, hab, ?_⟩
      rw [Function.iterate_succ_apply', hn, he, ← hb, Function.iterate_succ_apply']
    · refine ⟨m + 1, by omega, ?_⟩
      rw [Function.iterate_succ_apply', hn, Function.iterate_succ_apply']

end

section

variable {k k' : Kernel} {i : Slot} {bucket : Fin agentHeartbeatWheelBuckets} {index : ℕ}

theorem wheelNext_out {x : ℕ} (h : nproc < x) : k.wheelNext x = 0 := by
  have hx : agentWheelProc x = none := by
    unfold agentWheelProc
    exact dif_neg (by omega)
  unfold Kernel.wheelNext
  rw [hx]

/-- A walk that has neither ended nor met `index` within its fuel never does: two of its places
are the same. -/
theorem circle_of_long {x : ℕ}
    (h : ∀ n < wheelFuel, k.wheelNext^[n] x ≠ 0 ∧ k.wheelNext^[n] x ≠ index) (n : ℕ) :
    k.wheelNext^[n] x ≠ 0 ∧ k.wheelNext^[n] x ≠ index := by
  have hfuel : wheelFuel = nproc + 2 := rfl
  have hin : ∀ m < nproc + 1, k.wheelNext^[m] x ∈ Finset.Icc 1 nproc := by
    intro m hm
    have h0 := (h m (by omega)).1
    have h1 := (h (m + 1) (by omega)).1
    rw [Function.iterate_succ_apply'] at h1
    rw [Finset.mem_Icc]
    refine ⟨by omega, ?_⟩
    by_contra hlt
    exact h1 (wheelNext_out (by omega))
  obtain ⟨a, ha, b, hb, hne, he⟩ :=
    Finset.exists_ne_map_eq_of_card_lt_of_maps_to (s := Finset.range (nproc + 1))
      (t := Finset.Icc 1 nproc) (f := fun m => k.wheelNext^[m] x) (by simp)
      (fun m hm => hin m (by simpa using hm))
  simp only [Finset.mem_range] at ha hb
  obtain ⟨m, hm, hn⟩ : ∃ m < nproc + 1, k.wheelNext^[n] x = k.wheelNext^[m] x := by
    rcases Nat.lt_or_gt_of_ne hne with hlt | hlt
    · obtain ⟨m, hm, hn⟩ := iterate_earlier hlt he n
      exact ⟨m, by omega, hn⟩
    · obtain ⟨m, hm, hn⟩ := iterate_earlier hlt he.symm n
      exact ⟨m, by omega, hn⟩
  rw [hn]
  exact h m (by omega)

/-- The loop runs out of fuel if no place within it is the end or the process. -/
theorem removeLoop_none {fuel : ℕ} : ∀ {previous current : ℕ},
    wheelRemoveLoop k bucket index fuel previous current = none ↔
      ∀ n < fuel, k.wheelNext^[n] current ≠ 0 ∧ k.wheelNext^[n] current ≠ index := by
  induction fuel with
  | zero => intro previous current; simp [wheelRemoveLoop]
  | succ fuel ih =>
    intro previous current
    unfold wheelRemoveLoop
    dsimp only
    split
    · rename_i h0
      simp only [reduceCtorEq, false_iff]
      intro h
      exact (h 0 (by omega)).1 h0
    rename_i h0
    split
    · rename_i hi
      have hlast : ¬ ∀ n < fuel + 1, k.wheelNext^[n] current ≠ 0 ∧ k.wheelNext^[n] current ≠ index :=
        fun h => (h 0 (by omega)).2 hi
      split
      · simpa using hlast
      · split <;> simpa using hlast
    rename_i hi
    rw [ih]
    constructor
    · intro h n hn
      cases n with
      | zero => exact ⟨h0, hi⟩
      | succ n => exact h n (by omega)
    · intro h n hn
      exact h (n + 1) (by omega)

/-- **The removal never ends exactly on a circle** without the process. -/
theorem remove_none : agentHeartbeatWheelRemoveLocked k i = none ↔ Circular k i := by
  unfold agentHeartbeatWheelRemoveLocked Circular
  dsimp only
  split
  · rename_i ha
    simp [ha]
  rename_i ha
  have hact : (k.procs i).hb.heartbeatWheelActive = true := by simpa using ha
  split
  · rename_i hb
    rw [Option.map_eq_none_iff, removeLoop_none]
    constructor
    · intro h
      exact ⟨hact, _, (Int.toNat_of_nonneg hb.1).symm, circle_of_long h⟩
    · rintro ⟨-, bucket, he, h⟩ n -
      have hbucket : bucket = ⟨(k.procs i).hb.heartbeatWheelBucket.toNat, by omega⟩ := by
        ext
        simp [he]
      rw [← hbucket]
      exact h n
  · rename_i hb
    simp only [reduceCtorEq, false_iff]
    rintro ⟨-, bucket, he, -⟩
    exact hb ⟨by omega, by omega⟩

theorem remove_inactive (h : (k.procs i).hb.heartbeatWheelActive = false) :
    agentHeartbeatWheelRemoveLocked k i = some k := by
  unfold agentHeartbeatWheelRemoveLocked
  exact if_pos h

/-- A removal that ends leaves the process off the wheel. -/
theorem remove_active (h : agentHeartbeatWheelRemoveLocked k i = some k') :
    (k'.procs i).hb.heartbeatWheelActive = false := by
  unfold agentHeartbeatWheelRemoveLocked at h
  dsimp only at h
  split at h
  · rename_i ha
    cases h
    exact ha
  split at h
  · obtain ⟨k₁, -, rfl⟩ := Option.map_eq_some_iff.1 h
    simp [Kernel.setHb, Heartbeat.unlink]
  · cases h
    simp [Kernel.setHb, Heartbeat.unlink]

theorem removeLoop_workflows {fuel : ℕ} : ∀ {previous current : ℕ},
    wheelRemoveLoop k bucket index fuel previous current = some k' →
      k'.agentGlobal.workflows = k.agentGlobal.workflows := by
  induction fuel with
  | zero => intro previous current h; exact absurd h (by simp [wheelRemoveLoop])
  | succ fuel ih =>
    intro previous current h
    unfold wheelRemoveLoop at h
    split at h
    · cases h
      rfl
    dsimp only at h
    split at h
    · split at h
      · cases h
        rfl
      · split at h <;> (cases h; rfl)
    · exact ih h

theorem remove_workflows (h : agentHeartbeatWheelRemoveLocked k i = some k') :
    k'.agentGlobal.workflows = k.agentGlobal.workflows := by
  unfold agentHeartbeatWheelRemoveLocked at h
  dsimp only at h
  split at h
  · cases h
    rfl
  split at h
  · obtain ⟨k₁, hk₁, rfl⟩ := Option.map_eq_some_iff.1 h
    have hw := removeLoop_workflows hk₁
    exact hw
  · cases h
    rfl

end

/-! ### The stores, and the two places where the call fails -/

section

variable {s t : CascadeState} {i : Slot} {a : CreateArgs} {k : Kernel} {m m' : Memory}

/-- The process with its Context region in place. -/
def markPlaced (p : Proc) : Proc := if p.ctx.contextRegionStart = 0 then markRegion p else p

/-- A kernel with `p` in slot `i`, the other processes, the workflows and the wheel as they were. -/
structure Stores (k k' : Kernel) (i : Slot) (p : Proc) : Prop where
  proc : k'.procs i = p
  others : ∀ j, j ≠ i → k'.procs j = k.procs j
  workflows : k'.agentGlobal.workflows = k.agentGlobal.workflows
  heads : k'.agentGlobal.heartbeatWheelHeads = k.agentGlobal.heartbeatWheelHeads

theorem markCurrent_none :
    k.markCurrent i a.type a.heartbeatInterval a.resourceQuota a.uvmalloc a.now a.now' = none ↔
      RegionFails (k.procs i) a := by
  unfold Kernel.markCurrent RegionFails
  dsimp only
  generalize (if (k.procs i).ctx.contextRegionStart = 0 then markRegion (k.procs i)
    else k.procs i) = p
  split
  · rename_i h
    exact iff_of_true rfl h
  · rename_i h
    split <;> exact iff_of_false (by simp) h

theorem markCurrent_stores (h : k.markCurrent i a.type a.heartbeatInterval a.resourceQuota
      a.uvmalloc a.now a.now' = some k') :
    ∃ generation, Stores k k' i (markStores (markPlaced (k.procs i)) (markType a.type)
      a.heartbeatInterval a.resourceQuota generation a.now a.now') := by
  unfold Kernel.markCurrent at h
  dsimp only at h
  unfold markPlaced
  generalize (if (k.procs i).ctx.contextRegionStart = 0 then markRegion (k.procs i)
    else k.procs i) = p at h ⊢
  split at h
  · cases h
  split at h <;>
  · obtain rfl := Option.some.inj h
    exact ⟨_, Kernel.setProc_self _ _ _, fun j hj => Kernel.setProc_ne _ _ _ _ hj, rfl, rfl⟩

/-- The join fails exactly on a record that is missing, TERMINATING or full. -/
theorem join_refused {g : AgentGlobal} {w : Membership} (hw : ¬ w.outside) :
    (agentWorkflowJoin g w).2 ≠ agentToolOk ↔
      ∀ r, Table.first g.workflows (fun v => v.used && v.key == w.key) = some r →
        (g.workflows r).state = agentWorkflowTerminating ∨
          agentWorkflowMemberMax ≤ (g.workflows r).memberCount := by
  unfold agentWorkflowJoin agentWorkflowFind
  rw [if_neg hw]
  cases Table.first g.workflows (fun v => v.used && v.key == w.key) with
  | none =>
    have hgone : agentToolErrServiceGone ≠ agentToolOk := by decide
    simpa using hgone
  | some r =>
    have hbusy : agentToolErrBusy ≠ agentToolOk := by decide
    have hspace : agentToolErrNoSpace ≠ agentToolOk := by decide
    simp only [Option.some.injEq, forall_eq']
    split
    · rename_i ht
      simpa [ht] using hbusy
    split
    · rename_i hmax
      simpa [hmax] using hspace
    · rename_i ht hmax
      simp [ht, hmax]

/-- A join that fails stores nothing. -/
theorem join_fails {g : AgentGlobal} {w : Membership}
    (h : (agentWorkflowJoin g w).2 ≠ agentToolOk) : (agentWorkflowJoin g w).1 = g := by
  unfold agentWorkflowJoin at h ⊢
  split at h
  · exact absurd rfl h
  rename_i ho
  rw [if_neg ho]
  cases hf : agentWorkflowFind g w.key with
  | none => rfl
  | some r =>
    rw [hf] at h
    dsimp only at h ⊢
    split
    · rfl
    rename_i ht
    rw [if_neg ht] at h
    split
    · rfl
    rename_i hmax
    rw [if_neg hmax] at h
    exact absurd rfl h

/-- What the stores leave of the process where the join is refused. -/
def refusedProc (p : Proc) (a : CreateArgs) (generation : ℕ) : Proc :=
  let q := markStores (markPlaced p) (markType a.type) a.heartbeatInterval a.resourceQuota
    generation a.now a.now'
  { q with wf := { p.wf with isWorkflowLeader := false } }

/-- How `agent_mark_current` ends: -1 without memory for the region, with nothing stored; -1 on a
join that is refused, with all its stores done; or the start of the region. -/
inductive MarkOutcome (s : CascadeState) (i : Slot) (a : CreateArgs) : CascadeState × ℤ → Prop
  | noMemory (hf : RegionFails (s.proc i) a) : MarkOutcome s i a (s, -1)
  | refused {t : CascadeState} (generation : ℕ) (hf : ¬ RegionFails (s.proc i) a)
      (hj : JoinRefused s.workflows (s.proc i).wf a.type)
      (hs : Stores s.kernel t.kernel i (refusedProc (s.proc i) a generation)) :
      MarkOutcome s i a (t, -1)
  | done {r : CascadeState × ℤ} (hf : ¬ RegionFails (s.proc i) a)
      (hj : ¬ JoinRefused s.workflows (s.proc i).wf a.type) (hr : r.2 ≠ -1) : MarkOutcome s i a r

theorem MarkOutcome.fails {r : CascadeState × ℤ} (h : MarkOutcome s i a r)
    (hfail : RegionFails (s.proc i) a ∨ JoinRefused s.workflows (s.proc i).wf a.type) : r.2 = -1 := by
  cases h with
  | noMemory => rfl
  | refused => rfl
  | done hf hj =>
    rcases hfail with h | h
    · exact absurd h hf
    · exact absurd h hj

theorem MarkOutcome.failed {r : CascadeState × ℤ} (h : MarkOutcome s i a r) (hr : r.2 = -1) :
    RegionFails (s.proc i) a ∧ r.1 = s ∨
      ¬ RegionFails (s.proc i) a ∧ JoinRefused s.workflows (s.proc i).wf a.type ∧
        ∃ generation, Stores s.kernel r.1.kernel i (refusedProc (s.proc i) a generation) := by
  cases h with
  | noMemory hf => exact .inl ⟨hf, rfl⟩
  | refused generation hf hj hs => exact .inr ⟨hf, hj, generation, hs⟩
  | done hf hj hne => exact absurd hr hne

theorem markCurrent_outcome (s : CascadeState) (i : Slot) (a : CreateArgs) :
    MarkOutcome s i a (s.agentMarkCurrent i a.type a.heartbeatInterval a.resourceQuota a.uvmalloc
      a.now a.now') := by
  unfold CascadeState.agentMarkCurrent
  cases hk : s.kernel.markCurrent i a.type a.heartbeatInterval a.resourceQuota a.uvmalloc a.now
      a.now' with
  | none => exact .noMemory (markCurrent_none.1 hk)
  | some k =>
    obtain ⟨generation, hst⟩ := markCurrent_stores hk
    have hfail : ¬ RegionFails (s.proc i) a := by
      intro hf
      rw [markCurrent_none.2 hf] at hk
      cases hk
    have hproc : ({ s with kernel := k } : CascadeState).proc i = markStores
        (markPlaced (s.proc i)) (markType a.type) a.heartbeatInterval a.resourceQuota generation
        a.now a.now' := hst.proc
    have hwf : (({ s with kernel := k } : CascadeState).proc i).wf = (s.proc i).wf := by
      rw [hproc]
      unfold markStores markPlaced
      dsimp only
      split <;> rfl
    have hstart : ∀ n : ℕ, (n : ℤ) ≠ -1 := by omega
    dsimp only
    split
    · rename_i ht
      exact .done hfail (fun hj => hj.1 ht) (hstart _)
    rename_i ht
    split
    · rename_i ho
      rw [hwf] at ho
      exact .done hfail (fun hj => hj.2.1 ho) (hstart _)
    rename_i ho
    split
    · rename_i hr
      set w : Membership := { (s.proc i).wf with isWorkflowLeader := false } with hw
      have hset : (({ s with kernel := k } : CascadeState).setWf i
          { (({ s with kernel := k } : CascadeState).proc i).wf with isWorkflowLeader := false }).proc i =
          refusedProc (s.proc i) a generation := by
        unfold CascadeState.setWf refusedProc
        rw [CascadeState.setProc_self, hwf, hproc]
      have hkey : JoinRefused s.workflows (s.proc i).wf a.type ↔
          (agentWorkflowJoin k.agentGlobal w).2 ≠ agentToolOk := by
        rw [join_refused (show ¬ w.outside by rw [hwf] at ho; exact ho), hst.workflows]
        rw [hwf] at ho hr
        constructor
        · intro hj
          exact hj.2.2.2
        · intro hj
          exact ⟨ht, ho, hr, hj⟩
      rw [hset]
      split
      · rename_i hok
        exact .done hfail (fun hj => hkey.1 hj hok) (hstart _)
      · rename_i hno
        have hg : (agentWorkflowJoin k.agentGlobal (refusedProc (s.proc i) a generation).wf).1 =
            k.agentGlobal := join_fails hno
        refine .refused generation hfail (hkey.2 hno) ⟨hset, fun j hj => ?_, ?_, ?_⟩
        · exact (CascadeState.setProc_ne _ _ _ _ hj).trans (hst.others j hj)
        · exact (congrArg AgentGlobal.workflows hg).trans hst.workflows
        · exact (congrArg AgentGlobal.heartbeatWheelHeads hg).trans hst.heads
    · rename_i hr
      rw [hwf] at hr
      exact .done hfail (fun hj => hr hj.2.2.1) (hstart _)

/-- **A call that fails** without memory, or on a join that is refused. -/
theorem agentCreate_fails {t : CascadeState} :
    agentCreate s m i a = some (t, m', -1) →
      ∃ k, agentHeartbeatWheelRemoveLocked s.kernel i = some k ∧
        m' = markMemory (s.proc i) m a.uvmalloc ∧
        MarkOutcome { s with kernel := k } i a (t, -1) := by
  intro h
  unfold agentCreate at h
  obtain ⟨k, hk, h⟩ := Option.bind_eq_some_iff.1 h
  have ho := markCurrent_outcome { s with kernel := k } i a
  dsimp only at h
  split at h
  · rename_i hr
    obtain ⟨rfl, rfl, -⟩ : _ ∧ _ ∧ True := by simpa using h
    refine ⟨k, hk, rfl, ?_⟩
    rw [← hr]
    exact ho
  · rename_i hr
    exfalso
    split at h
    · obtain ⟨k', -, he⟩ := Option.map_eq_some_iff.1 h
      exact hr (congrArg (fun r => r.2.2) he)
    · exact hr (congrArg (fun r => r.2.2) (Option.some.inj h))

theorem SameAgent.refl (s : CascadeState) (i : Slot) : SameAgent s s i :=
  ⟨rfl, rfl, rfl, rfl, rfl, rfl, rfl, fun _ => rfl, rfl, rfl, rfl, rfl, rfl⟩

/-- The refused join leaves the Agent as it was exactly if it was there already. -/
theorem refused_same {generation : ℕ}
    (h : Stores s.kernel t.kernel i (refusedProc (s.proc i) a generation))
    (hp : markType a.type ≠ agentTypePrimary) :
    SameAgent s t i ↔ Stored (s.proc i) a := by
  have hproc : t.proc i = refusedProc (s.proc i) a generation := h.proc
  have hregion : (s.proc i).ctx.contextRegionStart ≠ 0 → markPlaced (s.proc i) = s.proc i :=
    fun h0 => if_neg h0
  have hrole : (if markType a.type = agentTypePrimary then agentRolePlanner else agentRoleUnset) =
      agentRoleUnset := if_neg hp
  have hlock : decide (markType a.type = agentTypePrimary) = false := decide_eq_false hp
  constructor
  · intro hs
    have h0 : (s.proc i).ctx.contextRegionStart ≠ 0 := by
      intro h0
      have hsz := hs.sz
      have hle := le_pgroundup (s.proc i).sz
      have hpos : 0 < agentContextRegionSize := by decide
      rw [hproc, refusedProc, markStores, markPlaced, if_pos h0] at hsz
      simp only [markRegion] at hsz
      omega
    rw [refusedProc, hregion h0] at hproc
    obtain ⟨htype, hr, hl, hcaps, hbox, hhb, -, -, hsched, hwf, hctx, -, -⟩ := hs
    rw [hproc] at htype hr hl hcaps hbox hhb hsched hwf hctx
    exact
      { region := h0
        quota := (congrArg ContextState.resourceQuota hctx).symm
        type := htype.symm
        role := hr.symm.trans hrole
        locked := hl.symm.trans hlock
        caps := hcaps.symm
        interval := (congrArg Heartbeat.heartbeatInterval hhb).symm
        deadline := (congrArg Heartbeat.heartbeatDeadline hhb).symm
        sched := hsched.symm
        mailbox := hbox.symm
        leader := (congrArg Membership.isWorkflowLeader hwf).symm }
  · intro hs
    rw [refusedProc, hregion hs.region] at hproc
    have hctx : ({ (s.proc i).ctx with resourceQuota := a.resourceQuota } : ContextState) =
        (s.proc i).ctx := by rw [← hs.quota]
    have hwf : ({ (s.proc i).wf with isWorkflowLeader := false } : Membership) = (s.proc i).wf := by
      rw [← hs.leader]
    have hhb : markHeartbeat (s.proc i).hb a.heartbeatInterval a.now = (s.proc i).hb := by
      unfold markHeartbeat
      rw [← hs.deadline, ← hs.interval]
    refine ⟨?_, ?_, ?_, ?_, ?_, ?_, h.heads, ?_, ?_, ?_, ?_, ?_, h.workflows⟩
    · rw [hproc]
      exact hs.type.symm
    · rw [hproc]
      exact hrole.trans hs.role.symm
    · rw [hproc]
      exact hlock.trans hs.locked.symm
    · rw [hproc]
      exact hs.caps.symm
    · rw [hproc]
      exact hs.mailbox.symm
    · rw [hproc]
      exact hhb
    · intro j
      by_cases hj : j = i
      · subst hj
        rw [hproc]
        rfl
      · rw [show t.proc j = s.proc j from h.others j hj]
    · rw [hproc]
      exact hs.sched.symm
    · rw [hproc]
      exact hwf
    · rw [hproc]
      exact hctx
    · rw [hproc]
      rfl

/-- Off the wheel the call finds the process as it was, but for its heartbeat record. -/
theorem remove_found (hk : agentHeartbeatWheelRemoveLocked s.kernel i = some k) :
    (RegionFails (k.procs i) a ↔ RegionFails (s.proc i) a) ∧
      (JoinRefused k.agentGlobal.workflows (k.procs i).wf a.type ↔
        JoinRefused s.workflows (s.proc i).wf a.type) := by
  obtain ⟨-, hframe⟩ := wheelFrame_remove hk
  obtain ⟨hb, hp⟩ := hframe i
  rw [hp, remove_workflows hk]
  exact ⟨Iff.rfl, Iff.rfl⟩

/-- A call that finds no memory or is refused comes to its end. -/
theorem agentCreate_outcome (hk : agentHeartbeatWheelRemoveLocked s.kernel i = some k)
    (hfail : RegionFails (s.proc i) a ∨ JoinRefused s.workflows (s.proc i).wf a.type) :
    ∃ t, agentCreate s m i a = some (t, markMemory (s.proc i) m a.uvmalloc, -1) ∧
      MarkOutcome { s with kernel := k } i a (t, -1) := by
  have ho := markCurrent_outcome { s with kernel := k } i a
  obtain ⟨hfR, hfJ⟩ := remove_found (a := a) hk
  have hr := ho.fails (hfail.imp hfR.2 hfJ.2)
  generalize hv : ({ s with kernel := k } : CascadeState).agentMarkCurrent i a.type
    a.heartbeatInterval a.resourceQuota a.uvmalloc a.now a.now' = r at ho hr
  obtain ⟨t, v⟩ := r
  obtain rfl : v = -1 := hr
  refine ⟨t, ?_, ho⟩
  unfold agentCreate
  rw [hk, Option.bind_some]
  dsimp only
  rw [hv, if_pos rfl]

/-- **A failed `agent_create`** leaves type, role, capabilities, mailbox, heartbeat, scheduling,
workflow, Context and the workflow table as they were exactly in these cases: the process was on
no list of the wheel, and there was no memory for its region, or it had already all that the call
stores before it comes to the workflow. -/
theorem agent_create_atomic (s : CascadeState) (m : Memory) (i : Slot) (a : CreateArgs) :
    (∀ t m', agentCreate s m i a = some (t, m', -1) → SameAgent s t i ∧ m' = m) ↔
      (RegionFails (s.proc i) a ∨ JoinRefused s.workflows (s.proc i).wf a.type →
        Circular s.kernel i ∨
          (s.proc i).hb.heartbeatWheelActive = false ∧
            (RegionFails (s.proc i) a ∨ Stored (s.proc i) a)) := by
  constructor
  · intro hsame hfail
    by_cases hcirc : Circular s.kernel i
    · exact .inl hcirc
    right
    obtain ⟨k, hk⟩ : ∃ k, agentHeartbeatWheelRemoveLocked s.kernel i = some k :=
      Option.ne_none_iff_exists'.1 (mt remove_none.1 hcirc)
    have hoff : (k.procs i).hb.heartbeatWheelActive = false := remove_active hk
    obtain ⟨t, hrun, ho⟩ := agentCreate_outcome (m := m) hk hfail
    obtain ⟨hst, -⟩ := hsame t _ hrun
    have hwas : (s.proc i).hb.heartbeatWheelActive = false := by
      have hhb := congrArg Heartbeat.heartbeatWheelActive hst.hb
      rw [← hhb]
      rcases ho.failed rfl with ⟨-, rfl⟩ | ⟨-, -, generation, hs⟩
      · exact hoff
      · rw [show t.proc i = _ from hs.proc]
        unfold refusedProc markStores markPlaced
        dsimp only
        split <;> exact hoff
    obtain rfl : s.kernel = k := Option.some.inj ((remove_inactive hwas).symm.trans hk)
    refine ⟨hwas, ?_⟩
    rcases ho.failed rfl with ⟨hf, -⟩ | ⟨-, hj, generation, hs⟩
    · exact .inl hf
    · exact .inr ((refused_same hs hj.1).1 hst)
  · intro hcond t m' hrun
    obtain ⟨k, hk, rfl, ho⟩ := agentCreate_fails hrun
    obtain ⟨hfR, hfJ⟩ := remove_found (a := a) hk
    have hfail : RegionFails (s.proc i) a ∨ JoinRefused s.workflows (s.proc i).wf a.type := by
      rcases ho.failed rfl with ⟨hf, -⟩ | ⟨-, hj, -⟩
      · exact .inl (hfR.1 hf)
      · exact .inr (hfJ.1 hj)
    rcases hcond hfail with hcirc | ⟨hwas, hcase⟩
    · rw [remove_none.2 hcirc] at hk
      cases hk
    obtain rfl : s.kernel = k := Option.some.inj ((remove_inactive hwas).symm.trans hk)
    rcases ho.failed rfl with ⟨hf, rfl⟩ | ⟨hf, hj, generation, hs⟩
    · have hno : a.uvmalloc = false := hf.2
      have hmem : markMemory (s.proc i) m a.uvmalloc = m := by simp [markMemory, hno]
      exact ⟨SameAgent.refl s i, hmem⟩
    · have hstored : Stored (s.proc i) a := hcase.resolve_left hf
      have hmem : markMemory (s.proc i) m a.uvmalloc = m := by
        simp [markMemory, hstored.region]
      exact ⟨(refused_same hs hj.1).2 hstored, hmem⟩

/-! ### Two calls that fail -/

/-- A Planner after `exec`: it has no region, and its heartbeat is on the wheel. -/
def plannerExeced : CascadeState :=
  let p := initOnly.procs 0
  let k := initOnly.setProc 0
    { p with
      ident.agentType := agentTypePrimary
      ident.agentCapabilities := agentCapAll
      hb := ⟨100, 100, 0, 36, true⟩ }
  { initRuns with
    kernel := k.setGlobal { k.agentGlobal.setHead 36 1 with heartbeatCount := 1 } }

/-- A Planner that found the workflow table full. -/
def plannerOutside : CascadeState :=
  initRuns.setProc 0
    { initOnly.procs 0 with
      ident.agentType := agentTypePrimary
      ident.agentCapabilities := agentCapAll
      wf := ⟨1, 1, 1, true, false⟩
      ctx.contextRegionStart := pgsize
      ctx.contextRegionSize := agentContextRegionSize }

/-- Two pages of user memory. -/
def twoPages : Memory := ⟨fun _ => 0, fun g => decide (g < 2), fun g => decide (g < 2)⟩

/-- Without memory the Planner loses its heartbeat. As a worker it is refused, and is no Planner
any more: it has lost capabilities, and its workflow a leader. -/
theorem agent_create_tears :
    (∃ t m', agentCreate plannerExeced twoPages 0 ⟨1, 100, 0, false, 0, 0, 0⟩ = some (t, m', -1) ∧
      (plannerExeced.proc 0).hb.heartbeatWheelActive = true ∧
      (t.proc 0).hb.heartbeatWheelActive = false ∧ (t.proc 0).hb.heartbeatInterval = 100) ∧
    ∃ t m', agentCreate plannerOutside twoPages 0 ⟨2, 0, 0, true, 0, 0, 0⟩ = some (t, m', -1) ∧
      (plannerOutside.proc 0).ident.agentType = agentTypePrimary ∧
      (t.proc 0).ident.agentType = agentTypeWorker ∧
      (plannerOutside.proc 0).ident.agentCapabilities = agentCapAll ∧
      (t.proc 0).ident.agentCapabilities ≠ agentCapAll ∧
      (plannerOutside.proc 0).wf.isWorkflowLeader = true ∧ (t.proc 0).wf.isWorkflowLeader = false := by
  have hcaps : markCapabilities agentTypeWorker ≠ agentCapAll := by decide
  exact ⟨⟨_, _, rfl, rfl, rfl, rfl⟩, _, _, rfl, rfl, rfl, rfl, hcaps, rfl, rfl⟩

end

end AgentOS
