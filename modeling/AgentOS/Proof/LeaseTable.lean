import AgentOS.Model.LeaseTable
import AgentOS.Proof.Lease
import Mathlib.Data.Nat.ModEq

/-!
# The lease table

* `leaseCommit_cases`, `leaseAbort_cases`, `leaseBegin_refused`: the calls in closed form.
* `tableNext_cases`: a step of this machine as one of `leaseMachine`, an exit or a new process.
* `LeaseTableInv`, `leaseTableInv_step`: pids, owners, readings of the clock and ids.
* **`lease_table`**: what holds in every reachable state.
* `lease_table_limits`: a commit can come after the expiry, and ids come again.
-/

namespace AgentOS

open Machine

/-! ### The calls -/

section

variable {g : AgentGlobal} {p : Proc} {ino : Ino} {now id v : ℕ}

/-- The table without the lease in `slot`. -/
def releaseSlot (g : AgentGlobal) (slot : Fin agentLeaseMax) : AgentGlobal :=
  { g with leases := Function.update g.leases slot AgentEditLease.zero }

/-- A commit is refused and changes nothing, or it releases a lease of the caller with this id
that has not expired by the reading of the clock. -/
theorem leaseCommit_cases (g : AgentGlobal) (p : Proc) (id v now : ℕ) :
    ((agentProcLeaseCommit g p id v now).2 ≠ agentToolOk ∧
      (agentProcLeaseCommit g p id v now).1 = g) ∨
    ∃ slot, (g.leases slot).used = true ∧ (g.leases slot).leaseId = id ∧
      (g.leases slot).owner = p.owner ∧ now < (g.leases slot).expiryTick ∧
      agentProcLeaseCommit g p id v now = (releaseSlot g slot, agentToolOk) := by
  unfold agentProcLeaseCommit
  split
  · exact .inl ⟨by show agentToolErrPermission ≠ agentToolOk; decide, rfl⟩
  rename_i slot hslot
  have hf := Table.first_some hslot
  simp only [Bool.and_eq_true, beq_iff_eq] at hf
  split
  · exact .inl ⟨by show agentToolErrPermission ≠ agentToolOk; decide, rfl⟩
  rename_i ho
  split
  · exact .inl ⟨by show agentToolErrBadParam ≠ agentToolOk; decide, rfl⟩
  rename_i he
  exact .inr ⟨slot, hf.1, hf.2, not_not.1 ho, not_le.1 he, rfl⟩

/-- The same for an abort, at any time. -/
theorem leaseAbort_cases (g : AgentGlobal) (p : Proc) (id : ℕ) :
    ((agentProcLeaseAbort g p id).2 ≠ agentToolOk ∧ (agentProcLeaseAbort g p id).1 = g) ∨
    ∃ slot, (g.leases slot).used = true ∧ (g.leases slot).leaseId = id ∧
      (g.leases slot).owner = p.owner ∧
      agentProcLeaseAbort g p id = (releaseSlot g slot, agentToolOk) := by
  unfold agentProcLeaseAbort
  split
  · exact .inl ⟨by show agentToolErrPermission ≠ agentToolOk; decide, rfl⟩
  rename_i slot hslot
  have hf := Table.first_some hslot
  simp only [Bool.and_eq_true, beq_iff_eq] at hf
  exact .inr ⟨slot, hf.1.1, hf.1.2, hf.2, rfl⟩

/-- A refused `agent_proc_lease_begin` has dropped expired leases only. -/
theorem leaseBegin_refused {e : ℤ} (h : (agentProcLeaseBegin g p ino now).2 = .error e) :
    (agentProcLeaseBegin g p ino now).1 = agentLeaseReapExpired g now := by
  unfold agentProcLeaseBegin at h ⊢
  dsimp only at h ⊢
  split
  · rfl
  · rename_i hbusy
    rw [if_neg hbusy] at h
    split at h
    · rfl
    · cases h

end

/-! ### One step -/

/-- A step of this machine: one of `leaseMachine`, by a process that runs; an exit; or a new
process. -/
inductive LeaseStep (w t : LeaseTable) : Prop
  | base (l : LeaseLabel) (hl : w.base.next l = some t.base) (hr : t.running = w.running)
      (hx : t.exited = w.exited) (hrun : ∀ i, l.slot = some i → (∀ p, l ≠ .other i p) →
        w.running i = true)
      (hpid : ∀ i, (t.base.proc i).pid = (w.base.proc i).pid)
      (hnp : t.base.kernel.nextpid = w.base.kernel.nextpid)
  | exit (i : Slot) (hi : w.running i = true) (hu : w.base.calls i = .user)
      (hl : w.base.next (.exit i) = some t.base)
      (hr : t.running = Function.update w.running i false)
      (hx : t.exited = w.exited ++ [(w.base.proc i).pid])
  | spawn (i : Slot) (p : Proc) (hi : w.running i = false)
      (ht : t = { w with
        base := { w.base.goto i .user with
          kernel :=
            { w.base.kernel.setProc i { p with pid := w.base.kernel.nextpid } with
              nextpid := w.base.kernel.nextpid + 1 } }
        running := Function.update w.running i true })

/-- Only `other` writes the process table. -/
theorem leaseNext_procs {s t : LeaseState} {l : LeaseLabel} (h : s.next l = some t)
    (hl : ∀ i p, l ≠ .other i p) :
    t.kernel.procs = s.kernel.procs ∧ t.kernel.nextpid = s.kernel.nextpid := by
  cases l with
  | other i p => exact absurd rfl (hl i p)
  | tick => obtain rfl := Option.some.inj h; exact ⟨rfl, rfl⟩
  | exit i => obtain rfl := Option.some.inj h; exact ⟨rfl, rfl⟩
  | begin i file =>
    simp only [LeaseState.next] at h
    split at h <;> [skip; cases h]
    rcases file with _ | ino
    · obtain rfl := Option.some.inj h; exact ⟨rfl, rfl⟩
    · dsimp only at h
      split at h <;> (obtain rfl := Option.some.inj h; exact ⟨rfl, rfl⟩)
  | take i =>
    simp only [LeaseState.next] at h
    split at h <;> [skip; cases h]
    split at h <;> (obtain rfl := Option.some.inj h; exact ⟨rfl, rfl⟩)
  | release i =>
    simp only [LeaseState.next] at h
    split at h <;> [skip; cases h]
    obtain rfl := Option.some.inj h
    exact ⟨rfl, rfl⟩
  | commit i id v | abort i id | read i ino | write i ino bytes | reap now =>
    simp only [LeaseState.next] at h
    split at h <;> [skip; cases h]
    obtain rfl := Option.some.inj h
    exact ⟨rfl, rfl⟩

theorem tableNext_cases {w t : LeaseTable} {l : LeaseTableLabel} (h : w.next l = some t) :
    LeaseStep w t := by
  have plain : ∀ a : LeaseLabel, (∀ i p, a ≠ .other i p) →
      (if (a.slot.elim true w.running) = true then
        (w.base.next a).map fun b => { w with base := b } else none) = some t → LeaseStep w t := by
    intro a hother ha
    split at ha <;> [skip; cases ha]
    rename_i hrun
    rw [Option.map_eq_some_iff] at ha
    obtain ⟨b, hb, rfl⟩ := ha
    obtain ⟨hp, hn⟩ := leaseNext_procs hb hother
    refine .base a hb rfl rfl (fun i hs _ => by simpa [hs] using hrun) (fun i => ?_) hn
    simp only [LeaseState.proc, hp]
  cases l with
  | spawn i p =>
    simp only [LeaseTable.next] at h
    split at h <;> [skip; cases h]
    rename_i hi
    obtain rfl := Option.some.inj h
    exact .spawn i p hi rfl
  | step a =>
    cases a with
    | exit i =>
      simp only [LeaseTable.next] at h
      split at h <;> [skip; cases h]
      rename_i hi
      rw [Option.map_eq_some_iff] at h
      obtain ⟨b, hb, rfl⟩ := h
      exact .exit i hi.1 hi.2 hb rfl rfl
    | other i p =>
      simp only [LeaseTable.next, LeaseState.next, Option.map_some, Option.some.injEq] at h
      subst h
      refine .base (.other i { p with pid := (w.base.proc i).pid }) rfl rfl rfl
        (fun j hj hp => ?_) (fun j => ?_) rfl
      · cases hj
        exact absurd rfl (hp _)
      · simp only [LeaseState.proc, Kernel.setProc_procs]
        split
        · rename_i hj
          rw [hj]
        · rfl
    | tick => exact plain .tick (by simp) h
    | reap now => exact plain (.reap now) (by simp) h
    | _ => exact plain _ (by simp) h

/-! ### What a step of `leaseMachine` keeps -/

/-- A lease in the table was there before, or this step granted it to its process. -/
theorem leaseNext_owner {s t : LeaseState} {l : LeaseLabel} (h : s.next l = some t)
    {j : Fin agentLeaseMax} (hu : (t.leases j).used = true) :
    t.leases j = s.leases j ∨ ∃ i, l.slot = some i ∧ (∀ p, l ≠ .other i p) ∧
      (t.leases j).ownerPid = (s.proc i).pid := by
  have kept : Shrinks s.leases t.leases → t.leases j = s.leases j := fun hs => hs.used hu
  cases l with
  | take i =>
    simp only [LeaseState.next] at h
    split at h <;> [skip; cases h]
    rename_i ino now hc
    rcases leaseBegin_cases s.kernel.agentGlobal (s.proc i) ino now with
      ⟨e, he, hs, -⟩ | ⟨f, slot, hf, -, -, hl, -, hr⟩
    · rw [he] at h
      obtain rfl := Option.some.inj h
      exact .inl (kept hs)
    · rw [hr] at h
      obtain rfl := Option.some.inj h
      have hl' : ∀ k, LeaseState.leases { (s.goto i .user).setGlobal
          (agentProcLeaseBegin s.kernel.agentGlobal (s.proc i) ino now).1 with
            granted := s.granted ++ [⟨(s.kernel.agentGlobal.nextLeaseId + 1) % 2 ^ 64, ino,
              (s.proc i).owner⟩] } k = Function.update f slot (newLease (s.proc i) ino
            ((s.kernel.agentGlobal.nextLeaseId + 1) % 2 ^ 64) now) k := fun k => congrFun hl k
      by_cases hj : j = slot
      · refine .inr ⟨i, rfl, by simp, ?_⟩
        refine (congrArg AgentEditLease.ownerPid (hl' j)).trans ?_
        rw [hj, Function.update_self]
        rfl
      · refine .inl ((hl' j).trans ?_)
        have hu' := (congrArg AgentEditLease.used (hl' j)).symm.trans hu
        rw [Function.update_of_ne hj] at hu' ⊢
        exact hf.used hu'
  | tick => obtain rfl := Option.some.inj h; exact .inl rfl
  | other i p => obtain rfl := Option.some.inj h; exact .inl rfl
  | exit i => obtain rfl := Option.some.inj h; exact .inl (kept (reapPid_shrinks _ _))
  | begin i file =>
    simp only [LeaseState.next] at h
    split at h <;> [skip; cases h]
    rcases file with _ | ino
    · obtain rfl := Option.some.inj h; exact .inl rfl
    · dsimp only at h
      split at h <;> (obtain rfl := Option.some.inj h; exact .inl rfl)
  | release i =>
    simp only [LeaseState.next] at h
    split at h <;> [skip; cases h]
    obtain rfl := Option.some.inj h
    exact .inl (kept (leaseCommit_shrinks ..).1)
  | abort i id =>
    simp only [LeaseState.next] at h
    split at h <;> [skip; cases h]
    obtain rfl := Option.some.inj h
    exact .inl (kept (leaseAbort_shrinks ..).1)
  | reap now =>
    simp only [LeaseState.next] at h
    split at h <;> [skip; cases h]
    obtain rfl := Option.some.inj h
    exact .inl (kept (reapExpired_shrinks _ _))
  | commit i id v | read i ino | write i ino bytes =>
    simp only [LeaseState.next] at h
    split at h <;> [skip; cases h]
    obtain rfl := Option.some.inj h
    exact .inl rfl

/-- `agent_lease_reap_pid` leaves no lease of the process. -/
theorem leaseNext_exit {s t : LeaseState} {i : Slot} (h : s.next (.exit i) = some t)
    {j : Fin agentLeaseMax} (hu : (t.leases j).used = true) :
    (t.leases j).ownerPid ≠ (s.proc i).pid := by
  obtain rfl := Option.some.inj h
  intro he
  rcases Table.sweep_cases s.leases (fun l => l.used && l.ownerPid == (s.proc i).pid)
    AgentEditLease.zero j with ⟨-, e⟩ | ⟨hf, e⟩
  · have hz : (agentLeaseReapPid s.kernel.agentGlobal (s.proc i).pid).leases j =
        AgentEditLease.zero := e
    simp only [LeaseState.setGlobal, LeaseState.leases, hz] at hu
    cases hu
  · have hz : (agentLeaseReapPid s.kernel.agentGlobal (s.proc i).pid).leases j = s.leases j := e
    simp only [LeaseState.setGlobal, LeaseState.leases] at hu he
    rw [hz] at hu he
    simp [hu, he] at hf

/-- A reading of the clock is not in the future. -/
def LeaseCall.ReadBy (ticks : ℕ) : LeaseCall → Prop
  | .user => True
  | .begin _ now | .commit _ _ now => now ≤ ticks

theorem LeaseCall.ReadBy.mono {c : LeaseCall} {a b : ℕ} (h : c.ReadBy a) (hab : a ≤ b) :
    c.ReadBy b := by
  cases c with
  | user => trivial
  | begin ino now => exact le_trans h hab
  | commit id v now => exact le_trans h hab

theorem leaseNext_clock {s t : LeaseState} {l : LeaseLabel} (h : s.next l = some t)
    (hs : ∀ i, (s.calls i).ReadBy s.kernel.ticks) : ∀ i, (t.calls i).ReadBy t.kernel.ticks := by
  have goes : ∀ i c, c.ReadBy s.kernel.ticks →
      ∀ k, (Function.update s.calls i c k).ReadBy s.kernel.ticks := by
    intro i c hc k
    by_cases hk : k = i
    · rw [hk, Function.update_self]; exact hc
    · rw [Function.update_of_ne hk]; exact hs k
  cases l with
  | tick => obtain rfl := Option.some.inj h; exact fun i => (hs i).mono (Nat.le_succ _)
  | other i p => obtain rfl := Option.some.inj h; exact hs
  | exit i => obtain rfl := Option.some.inj h; exact hs
  | begin i file =>
    simp only [LeaseState.next] at h
    split at h <;> [skip; cases h]
    rcases file with _ | ino
    · obtain rfl := Option.some.inj h; exact hs
    · dsimp only at h
      split at h <;> obtain rfl := Option.some.inj h
      · exact goes i _ (Nat.le_refl _)
      · exact hs
  | take i =>
    simp only [LeaseState.next] at h
    split at h <;> [skip; cases h]
    split at h <;> (obtain rfl := Option.some.inj h; exact goes i _ trivial)
  | commit i id v =>
    simp only [LeaseState.next] at h
    split at h <;> [skip; cases h]
    obtain rfl := Option.some.inj h
    exact goes i _ (Nat.le_refl _)
  | release i =>
    simp only [LeaseState.next] at h
    split at h <;> [skip; cases h]
    obtain rfl := Option.some.inj h
    exact goes i _ trivial
  | abort i id | read i ino | write i ino bytes | reap now =>
    simp only [LeaseState.next] at h
    split at h <;> [skip; cases h]
    obtain rfl := Option.some.inj h
    exact hs

/-- Grant `k` has the id `k + 1`, as a `uint64`. -/
def IdsCount (s : LeaseState) : Prop :=
  ∀ k g, s.granted[k]? = some g → g.leaseId = (k + 1) % 2 ^ 64

theorem leaseNext_ids {s t : LeaseState} {l : LeaseLabel} (h : s.next l = some t)
    (hi : LeaseInv s) (hs : IdsCount s) : IdsCount t := by
  have kept : t.granted = s.granted → IdsCount t := fun e => by rw [IdsCount, e]; exact hs
  cases leaseNext_cases h with
  | shrink _ _ hg _ => exact kept hg
  | write _ _ _ _ hg _ => exact kept hg
  | grant i ino now f slot _ _ _ _ _ hg _ =>
    intro k g hk
    rw [hg] at hk
    rcases Nat.lt_or_ge k s.granted.length with hlt | hge
    · rw [List.getElem?_append_left hlt] at hk
      exact hs k g hk
    · rw [List.getElem?_append_right hge] at hk
      have hkeq : k = s.granted.length := by
        by_contra hne
        have hz : k - s.granted.length ≠ 0 := by omega
        obtain ⟨m, hm⟩ := Nat.exists_eq_succ_of_ne_zero hz
        rw [hm] at hk
        cases hk
      subst hkeq
      rw [Nat.sub_self] at hk
      obtain rfl := Option.some.inj hk
      rw [hi.next_eq]
      simp only
      omega

/-! ### The invariant -/

/-- **The invariant**: pids, owners, readings of the clock and ids. -/
structure LeaseTableInv (w : LeaseTable) : Prop where
  lease : LeaseInv w.base
  pid_lt : ∀ i, w.running i = true → (w.base.proc i).pid < w.base.kernel.nextpid
  pid_inj : ∀ i j, w.running i = true → w.running j = true →
    (w.base.proc i).pid = (w.base.proc j).pid → i = j
  live : ∀ i, w.running i = true → (w.base.proc i).pid ∉ w.exited
  exited_lt : ∀ q ∈ w.exited, q < w.base.kernel.nextpid
  owner : ∀ j, (w.leases j).used = true → (w.leases j).ownerPid ∉ w.exited
  clock : ∀ i, (w.base.calls i).ReadBy w.ticks
  ids : IdsCount w.base

theorem leaseTableInv_step (w : LeaseTable) (l : LeaseTableLabel) (t : LeaseTable)
    (h : LeaseTableInv w) (_ : always w l) (hn : leaseTableMachine.next w l = some t) :
    LeaseTableInv t := by
  cases tableNext_cases hn with
  | base a hl hr hx hrun hpid hnp =>
    refine ⟨leaseInv_step w.base a t.base h.lease trivial hl, fun i hi => ?_, fun i j hi hj he => ?_,
      fun i hi => ?_, fun q hq => ?_, fun j hu => ?_, leaseNext_clock hl h.clock,
      leaseNext_ids hl h.lease h.ids⟩
    · rw [hpid, hnp]
      exact h.pid_lt i (hr ▸ hi)
    · rw [hpid, hpid] at he
      exact h.pid_inj i j (hr ▸ hi) (hr ▸ hj) he
    · rw [hpid, hx]
      exact h.live i (hr ▸ hi)
    · rw [hnp]
      exact h.exited_lt q (hx ▸ hq)
    · rw [hx]
      rcases leaseNext_owner hl hu with e | ⟨i, hslot, hother, e⟩
      · have hold : t.leases j = w.leases j := e
        rw [hold] at hu ⊢
        exact h.owner j hu
      · -- the new owner is running
        show (t.base.leases j).ownerPid ∉ w.exited
        rw [e]
        exact h.live i (hrun i hslot hother)
  | exit i hi hu hl hr hx =>
    obtain ⟨hp, hnp⟩ := leaseNext_procs hl (by simp)
    have hpid : ∀ k, (t.base.proc k).pid = (w.base.proc k).pid := fun k => by
      simp only [LeaseState.proc, hp]
    have hrun : ∀ k, t.running k = true → k ≠ i ∧ w.running k = true := by
      intro k hk
      rw [hr] at hk
      by_cases hki : k = i
      · rw [hki, Function.update_self] at hk
        cases hk
      · rw [Function.update_of_ne hki] at hk
        exact ⟨hki, hk⟩
    refine ⟨leaseInv_step w.base (.exit i) t.base h.lease trivial hl, fun k hk => ?_,
      fun a b ha hb he => ?_, fun k hk => ?_, fun q hq => ?_, fun j hj => ?_,
      leaseNext_clock hl h.clock, leaseNext_ids hl h.lease h.ids⟩
    · rw [hpid, hnp]
      exact h.pid_lt k (hrun k hk).2
    · rw [hpid, hpid] at he
      exact h.pid_inj a b (hrun a ha).2 (hrun b hb).2 he
    · rw [hpid, hx, List.mem_append, List.mem_singleton]
      rintro (hold | he)
      · exact h.live k (hrun k hk).2 hold
      · exact (hrun k hk).1 (h.pid_inj k i (hrun k hk).2 hi he)
    · rw [hnp]
      rw [hx, List.mem_append, List.mem_singleton] at hq
      rcases hq with hq | rfl
      · exact h.exited_lt q hq
      · exact h.pid_lt i hi
    · rw [hx, List.mem_append, List.mem_singleton]
      rintro (hold | he)
      · rcases leaseNext_owner hl hj with e | ⟨k, hk, -, e⟩
        · have e' : t.leases j = w.leases j := e
          rw [e'] at hj hold
          exact h.owner j hj hold
        · have hold' : (t.base.leases j).ownerPid ∈ w.exited := hold
          cases hk
          rw [e] at hold'
          exact h.live i hi hold'
      · exact leaseNext_exit hl hj he
  | spawn i p hi ht =>
    subst ht
    have hpid : ∀ k, k ≠ i → (LeaseState.proc { w.base.goto i .user with
        kernel := { w.base.kernel.setProc i { p with pid := w.base.kernel.nextpid } with
          nextpid := w.base.kernel.nextpid + 1 } } k).pid = (w.base.proc k).pid := by
      intro k hk
      simp [LeaseState.proc, Kernel.setProc_procs, hk]
    have hpidi : (LeaseState.proc { w.base.goto i .user with
        kernel := { w.base.kernel.setProc i { p with pid := w.base.kernel.nextpid } with
          nextpid := w.base.kernel.nextpid + 1 } } i).pid = w.base.kernel.nextpid := by
      simp [LeaseState.proc]
    have hrun : ∀ k, k ≠ i → Function.update w.running i true k = true → w.running k = true := by
      intro k hk hr
      rwa [Function.update_of_ne hk] at hr
    refine ⟨⟨h.lease.ino_inj, h.lease.next_eq, h.lease.id_le, h.lease.id_inj⟩, fun k hk => ?_,
      fun a b ha hb he => ?_, fun k hk => ?_, fun q hq => Nat.lt_succ_of_lt (h.exited_lt q hq),
      h.owner, fun k => ?_, h.ids⟩
    · by_cases hki : k = i
      · subst hki
        rw [hpidi]
        exact Nat.lt_succ_self _
      · rw [hpid k hki]
        exact Nat.lt_succ_of_lt (h.pid_lt k (hrun k hki hk))
    · by_cases hai : a = i <;> by_cases hbi : b = i
      · rw [hai, hbi]
      · subst hai
        rw [hpidi, hpid b hbi] at he
        have hlt := h.pid_lt b (hrun b hbi hb)
        omega
      · subst hbi
        rw [hpidi, hpid a hai] at he
        have hlt := h.pid_lt a (hrun a hai ha)
        omega
      · rw [hpid a hai, hpid b hbi] at he
        exact h.pid_inj a b (hrun a hai ha) (hrun b hbi hb) he
    · by_cases hki : k = i
      · subst hki
        rw [hpidi]
        exact fun hmem => absurd (h.exited_lt _ hmem) (lt_irrefl _)
      · rw [hpid k hki]
        exact h.live k (hrun k hki hk)
    · by_cases hki : k = i
      · subst hki
        simp [LeaseState.goto, LeaseCall.ReadBy]
      · have hold := h.clock k
        simpa [LeaseState.goto, LeaseTable.ticks, Function.update_of_ne hki] using hold

theorem leaseTableInv_init (w : LeaseTable) (h : leaseTableMachine.init w) : LeaseTableInv w := by
  obtain ⟨hb, hx, hlt, hinj⟩ := h
  refine ⟨leaseInv_init w.base hb, hlt, hinj, by simp [hx], by simp [hx], by simp [hx],
    fun i => ?_, fun k g hk => ?_⟩
  · rw [hb.2.1 i]
    trivial
  · rw [hb.2.2.1] at hk
    cases hk

theorem leaseTableInv_reach {tr : List LeaseTableLabel} {w : LeaseTable}
    (h : leaseTableMachine.Reach always tr w) : LeaseTableInv w :=
  h.inv leaseTableInv_init leaseTableInv_step

/-! ### The lease table in every reachable state -/

/-- What the lease table and the calls on it guarantee. -/
structure LeaseTableOk (w : LeaseTable) : Prop where
  exclusive : ∀ j k, (w.leases j).used = true → (w.leases k).used = true →
    w.ticks < (w.leases j).expiryTick → w.ticks < (w.leases k).expiryTick →
    (w.leases j).ino = (w.leases k).ino → j = k
  ids : ∀ a b (x y : Grant), w.base.granted[a]? = some x → w.base.granted[b]? = some y →
    x.leaseId = y.leaseId → a ≡ b [MOD 2 ^ 64]
  /-- A refused `lease_begin` drops leases that had expired by its reading of the clock. -/
  begun : ∀ i ino now, w.base.calls i = .begin ino now → now ≤ w.ticks ∧
    ∀ e, (agentProcLeaseBegin w.base.kernel.agentGlobal (w.base.proc i) ino now).2 = .error e →
      (agentProcLeaseBegin w.base.kernel.agentGlobal (w.base.proc i) ino now).1 =
        agentLeaseReapExpired w.base.kernel.agentGlobal now
  committed : ∀ i id v now, w.base.calls i = .commit id v now → now ≤ w.ticks ∧
    (((agentProcLeaseCommit w.base.kernel.agentGlobal (w.base.proc i) id v now).2 ≠ agentToolOk ∧
        (agentProcLeaseCommit w.base.kernel.agentGlobal (w.base.proc i) id v now).1 =
          w.base.kernel.agentGlobal) ∨
      ∃ slot, (w.leases slot).used = true ∧ (w.leases slot).leaseId = id ∧
        (w.leases slot).owner = (w.base.proc i).owner ∧ now < (w.leases slot).expiryTick ∧
        agentProcLeaseCommit w.base.kernel.agentGlobal (w.base.proc i) id v now =
          (releaseSlot w.base.kernel.agentGlobal slot, agentToolOk))
  aborted : ∀ i id,
    ((agentProcLeaseAbort w.base.kernel.agentGlobal (w.base.proc i) id).2 ≠ agentToolOk ∧
        (agentProcLeaseAbort w.base.kernel.agentGlobal (w.base.proc i) id).1 =
          w.base.kernel.agentGlobal) ∨
      ∃ slot, (w.leases slot).used = true ∧ (w.leases slot).leaseId = id ∧
        (w.leases slot).owner = (w.base.proc i).owner ∧
        agentProcLeaseAbort w.base.kernel.agentGlobal (w.base.proc i) id =
          (releaseSlot w.base.kernel.agentGlobal slot, agentToolOk)
  exited : ∀ j, (w.leases j).used = true → (w.leases j).ownerPid ∉ w.exited

/-- **The lease table**, in every state of every interleaving: one unexpired lease per file; ids
come again only after `2^64` grants; a commit or an abort releases exactly the caller's lease with
this id, a commit only one that had not expired when it read the clock; a refused call changes
nothing but that a `lease_begin` drops expired leases; and no lease names a pid that has exited. -/
theorem lease_table {tr : List LeaseTableLabel} {w : LeaseTable}
    (h : leaseTableMachine.Reach always tr w) : LeaseTableOk w := by
  have hi := leaseTableInv_reach h
  refine ⟨fun j k hj hk _ _ he => hi.lease.ino_inj j k hj hk he, fun a b x y hx hy he => ?_,
    fun i ino now hc => ⟨?_, fun e he => leaseBegin_refused he⟩,
    fun i id v now hc => ⟨?_, leaseCommit_cases ..⟩, fun i id => leaseAbort_cases .., hi.owner⟩
  · have hmod : (a + 1) % 2 ^ 64 = (b + 1) % 2 ^ 64 := by rw [← hi.ids a x hx, ← hi.ids b y hy, he]
    exact Nat.ModEq.add_right_cancel' 1 hmod
  · have hread := hi.clock i
    rwa [hc] at hread
  · have hread := hi.clock i
    rwa [hc] at hread

/-- Two agents that may patch files, both running. -/
def twoRunning : LeaseTable where
  base := { twoPatchers with kernel := { twoPatchers.kernel with nextpid := 3 } }
  running := fun i => i = 0 ∨ i = 1
  exited := []

theorem twoRunning_init : leaseTableMachine.init twoRunning :=
  ⟨⟨rfl, fun _ => rfl, rfl, rfl⟩, rfl, by decide, by decide⟩

theorem lease_table_two :
    LeaseTableOk ((leaseTableMachine.run twoRunning [.step (.begin 0 (some (1, 5))), .step (.take 0),
      .step (.begin 1 (some (1, 5))), .step .tick, .step (.exit 0), .step (.take 1)]).getD
        twoRunning) :=
  lease_table ⟨twoRunning, twoRunning_init, path_getD (by decide)⟩

/-! ### What does not hold -/

/-- After `n` grants to agent 1, each abandoned at once. -/
def abandoned (n : ℕ) : LeaseTable :=
  { twoRunning with
    base := { twoRunning.base with
      kernel := { twoRunning.base.kernel with
        agentGlobal := { AgentGlobal.init with nextLeaseId := n % 2 ^ 64 } }
      granted := (List.range n).map fun k => ⟨(k + 1) % 2 ^ 64, (1, 5), (1, 1)⟩ } }

/-- The lease of agent 1 in the first slot. -/
def firstSlot (id : ℕ) : Fin agentLeaseMax → AgentEditLease :=
  Function.update (fun _ => AgentEditLease.zero) 0 (newLease (twoPatchers.proc 0) (1, 5) id 3)

theorem abandon_begin (id : ℕ) :
    agentProcLeaseBegin { AgentGlobal.init with nextLeaseId := id } (twoPatchers.proc 0) (1, 5) 3 =
      ({ AgentGlobal.init with
          nextLeaseId := (id + 1) % 2 ^ 64, leases := firstSlot ((id + 1) % 2 ^ 64) },
        .ok ((id + 1) % 2 ^ 64, 0)) := rfl

theorem abandon_abort (g : AgentGlobal) (id : ℕ) (hg : g.leases = firstSlot id) :
    (agentProcLeaseAbort g (twoPatchers.proc 0) id).1 =
      { g with leases := fun _ => AgentEditLease.zero } := by
  have hself : g.leases 0 = newLease (twoPatchers.proc 0) (1, 5) id 3 := by
    rw [hg, firstSlot, Function.update_self]
  have hfirst : Table.first g.leases (fun l => l.used && l.leaseId == id &&
      l.owner == (twoPatchers.proc 0).owner) = some 0 := by
    refine Table.first_eq_of_least ?_ fun j hj => absurd hj (Fin.not_lt_zero j)
    rw [hself]
    simp [newLease, AgentEditLease.owner, Proc.owner]
  have hclear : Function.update g.leases 0 AgentEditLease.zero = fun _ => AgentEditLease.zero := by
    rw [hg, firstSlot, Function.update_idem]
    exact Function.update_eq_self (0 : Fin agentLeaseMax) (fun _ => AgentEditLease.zero)
  unfold agentProcLeaseAbort
  simp only [hfirst, hclear]

/-- Agent 1 with lease `n + 1`. -/
def abandonTaken (n : ℕ) : LeaseTable :=
  { abandoned (n + 1) with
    base := (abandoned (n + 1)).base.setGlobal
      { AgentGlobal.init with
        nextLeaseId := (n + 1) % 2 ^ 64, leases := firstSlot ((n + 1) % 2 ^ 64) } }

/-- Agent 1 past the check of its capabilities. -/
def abandonAsked (n : ℕ) : LeaseTable :=
  { abandoned n with base := (abandoned n).base.goto 0 (.begin (1, 5) 3) }

theorem abandoned_begin (n : ℕ) :
    leaseTableMachine.next (abandoned n) (.step (.begin 0 (some (1, 5)))) =
      some (abandonAsked n) := by
  have hallow : leaseAllowed (twoPatchers.proc 0) := by decide
  have hp : (abandoned n).base.proc 0 = twoPatchers.proc 0 := rfl
  have hu : (abandoned n).base.calls 0 = .user := rfl
  have hb : (abandoned n).base.next (.begin 0 (some (1, 5))) =
      some ((abandoned n).base.goto 0 (.begin (1, 5) 3)) := by
    simp only [LeaseState.next, hu, if_true, hp, if_pos hallow]
    rfl
  have hr : (LeaseLabel.begin 0 (some (1, 5))).slot.elim true (abandoned n).running = true := rfl
  simp only [leaseTableMachine, LeaseTable.next]
  rw [if_pos hr, hb]
  rfl

theorem abandoned_take (n : ℕ) :
    leaseTableMachine.next (abandonAsked n) (.step (.take 0)) = some (abandonTaken n) := by
  have hid : (n % 2 ^ 64 + 1) % 2 ^ 64 = (n + 1) % 2 ^ 64 := by omega
  have hcalls : Function.update (Function.update (abandoned n).base.calls 0 (.begin (1, 5) 3)) 0
      .user = (abandoned n).base.calls := by
    rw [Function.update_idem]
    exact Function.update_eq_self (0 : Slot) (fun _ => LeaseCall.user)
  have hrange : (List.range (n + 1)).map (fun k => (⟨(k + 1) % 2 ^ 64, (1, 5), (1, 1)⟩ : Grant)) =
      (List.range n).map (fun k => (⟨(k + 1) % 2 ^ 64, (1, 5), (1, 1)⟩ : Grant)) ++
        [⟨(n + 1) % 2 ^ 64, (1, 5), (1, 1)⟩] := by
    rw [List.range_succ, List.map_append, List.map_singleton]
  have hbegin : agentProcLeaseBegin (abandonAsked n).base.kernel.agentGlobal
      ((abandonAsked n).base.proc 0) (1, 5) 3 =
        ({ AgentGlobal.init with
            nextLeaseId := (n + 1) % 2 ^ 64, leases := firstSlot ((n + 1) % 2 ^ 64) },
          .ok ((n + 1) % 2 ^ 64, 0)) := by
    rw [← hid]
    exact abandon_begin (n % 2 ^ 64)
  have hc : (abandonAsked n).base.calls 0 = .begin (1, 5) 3 := rfl
  have hb : (abandonAsked n).base.next (.take 0) = some (abandonTaken n).base := by
    simp only [LeaseState.next, hc, hbegin]
    simp only [abandonAsked, abandonTaken, abandoned, LeaseState.goto, LeaseState.setGlobal,
      Option.some.injEq, LeaseState.mk.injEq]
    exact ⟨trivial, hcalls, trivial, hrange.symm, trivial⟩
  have hr : (LeaseLabel.take 0).slot.elim true (abandonAsked n).running = true := rfl
  simp only [leaseTableMachine, LeaseTable.next]
  rw [if_pos hr, hb]
  rfl

theorem abandoned_abort (n : ℕ) :
    leaseTableMachine.next (abandonTaken n) (.step (.abort 0 ((n + 1) % 2 ^ 64))) =
      some (abandoned (n + 1)) := by
  have habort := abandon_abort (abandonTaken n).base.kernel.agentGlobal ((n + 1) % 2 ^ 64) rfl
  have hu : (abandonTaken n).base.calls 0 = .user := rfl
  have hp : (abandonTaken n).base.proc 0 = twoPatchers.proc 0 := rfl
  have hb : (abandonTaken n).base.next (.abort 0 ((n + 1) % 2 ^ 64)) =
      some (abandoned (n + 1)).base := by
    simp only [LeaseState.next, hu, if_true, hp, habort]
    rfl
  have hr : (LeaseLabel.abort 0 ((n + 1) % 2 ^ 64)).slot.elim true (abandonTaken n).running = true := rfl
  simp only [leaseTableMachine, LeaseTable.next]
  rw [if_pos hr, hb]
  rfl

theorem abandoned_step (n : ℕ) :
    ∃ tr, leaseTableMachine.Path always (abandoned n) tr (abandoned (n + 1)) :=
  ⟨_, Path.cons trivial (abandoned_begin n) (Path.cons trivial (abandoned_take n)
    (Path.single trivial (abandoned_abort n)))⟩

theorem abandoned_reach (n : ℕ) : ∃ tr, leaseTableMachine.Reach always tr (abandoned n) := by
  induction n with
  | zero => exact ⟨[], twoRunning, twoRunning_init, Path.nil _⟩
  | succ n ih =>
    obtain ⟨tr, h⟩ := ih
    obtain ⟨tr', h'⟩ := abandoned_step n
    exact ⟨tr ++ tr', h.trans h'⟩

/-- A commit that read the clock at tick `n`. -/
def lateCommit (n : ℕ) : LeaseTable :=
  { twoRunning with
    base := { (abandonTaken 0).base with
      kernel := { (abandonTaken 0).base.kernel with ticks := 3 + n } } }

theorem lateCommit_reach (n : ℕ) : ∃ tr, leaseTableMachine.Reach always tr (lateCommit n) := by
  induction n with
  | zero =>
    refine ⟨_, twoRunning, twoRunning_init, Path.cons trivial (abandoned_begin 0)
      (Path.single trivial (abandoned_take 0))⟩
  | succ n ih =>
    obtain ⟨tr, h⟩ := ih
    exact ⟨_, h.snoc (a := .step .tick) trivial rfl⟩

/-- The commit of lease 1, which expires at tick 203, reads the clock at 202. -/
def lateRelease : LeaseTable :=
  { lateCommit 200 with base := (lateCommit 200).base.goto 0 (.commit 1 0 202) }

theorem lateRelease_reach : ∃ tr, leaseTableMachine.Reach always tr lateRelease := by
  obtain ⟨tr, h⟩ := lateCommit_reach 199
  have hcommit : leaseTableMachine.next (lateCommit 199) (.step (.commit 0 1 0)) =
      some { lateCommit 199 with base := (lateCommit 199).base.goto 0 (.commit 1 0 202) } := rfl
  exact ⟨_, (h.snoc trivial hcommit).snoc (a := .step .tick) trivial rfl⟩

/-- **Two limits.** A commit succeeds at tick 203 on the lease that expires at tick 203, because it
read the clock before it took the lock; and after `2^64` grants the first id comes again. -/
theorem lease_table_limits :
    (∃ tr w, leaseTableMachine.Reach always tr w ∧ w.base.calls 0 = .commit 1 0 202 ∧
      (w.leases 0).leaseId = 1 ∧ (w.leases 0).expiryTick ≤ w.ticks ∧
      agentProcLeaseCommit w.base.kernel.agentGlobal (w.base.proc 0) 1 0 202 =
        (releaseSlot w.base.kernel.agentGlobal 0, agentToolOk)) ∧
    ∃ tr w, leaseTableMachine.Reach always tr w ∧ ¬ (w.base.granted.map Grant.leaseId).Nodup := by
  constructor
  · obtain ⟨tr, h⟩ := lateRelease_reach
    exact ⟨tr, lateRelease, h, rfl, rfl, by decide, rfl⟩
  · obtain ⟨tr, h⟩ := abandoned_reach (2 ^ 64 + 1)
    refine ⟨tr, _, h, fun hnd => ?_⟩
    have hid : ∀ k, k < 2 ^ 64 + 1 →
        ((abandoned (2 ^ 64 + 1)).base.granted.map Grant.leaseId)[k]? = some ((k + 1) % 2 ^ 64) := by
      intro k hk
      simp only [abandoned, List.map_map, List.getElem?_map, List.getElem?_range hk, Option.map_some,
        Function.comp_apply]
    have h0 := hid 0 (by omega)
    have h1 := hid (2 ^ 64) (by omega)
    have hsame : ((abandoned (2 ^ 64 + 1)).base.granted.map Grant.leaseId)[0]? =
        ((abandoned (2 ^ 64 + 1)).base.granted.map Grant.leaseId)[2 ^ 64]? := by
      rw [h0, h1]
      exact congrArg some (by omega)
    have hlt : 0 < ((abandoned (2 ^ 64 + 1)).base.granted.map Grant.leaseId).length := by
      simp only [abandoned, List.length_map, List.length_range]
      omega
    exact absurd ((List.getElem?_inj hlt hnd).1 hsame) (by omega)

end AgentOS
