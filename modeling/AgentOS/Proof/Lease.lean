import AgentOS.Model.Lease

/-!
# A lease keeps the other lease holders away

* `LeaseInv`: used slots have distinct inodes and, below `2^64` grants, distinct ids.
* `next_cases`: a step clears slots, records a write or grants one lease.
* `Since`: what is known of a lease after it was granted, until it is gone for good.
* **`lease_excludes`**: between a grant and its commit no other lease was granted on the
  file, and no other process wrote it under a lease.
* `lease_is_advisory`: a process without a lease may write the file in between.
-/

namespace AgentOS

open Machine

/-- The lease table of a state. -/
abbrev LeaseState.leases (s : LeaseState) : Fin agentLeaseMax → AgentEditLease :=
  s.kernel.agentGlobal.leases

/-- Every slot is as before or cleared. -/
def Shrinks (f f' : Fin agentLeaseMax → AgentEditLease) : Prop :=
  ∀ i, f' i = f i ∨ f' i = AgentEditLease.zero

theorem Shrinks.refl (f : Fin agentLeaseMax → AgentEditLease) : Shrinks f f := fun _ => .inl rfl

theorem shrinks_sweep (f : Fin agentLeaseMax → AgentEditLease) (p : AgentEditLease → Bool) :
    Shrinks f (Table.sweep f p AgentEditLease.zero) := by
  intro i
  rcases Table.sweep_cases f p AgentEditLease.zero i with ⟨-, h⟩ | ⟨-, h⟩
  · exact .inr h
  · exact .inl h

theorem shrinks_update (f : Fin agentLeaseMax → AgentEditLease) (i : Fin agentLeaseMax) :
    Shrinks f (Function.update f i AgentEditLease.zero) := by
  intro j
  by_cases hj : j = i
  · subst hj; exact .inr (Function.update_self ..)
  · exact .inl (Function.update_of_ne hj ..)

/-- A used slot of a shrunk table was there before. -/
theorem Shrinks.used {f f' : Fin agentLeaseMax → AgentEditLease} (h : Shrinks f f')
    {i : Fin agentLeaseMax} (hu : (f' i).used = true) : f' i = f i := by
  rcases h i with hi | hi
  · exact hi
  · rw [hi] at hu; cases hu

theorem reapExpired_shrinks (g : AgentGlobal) (now : ℕ) :
    Shrinks g.leases (agentLeaseReapExpired g now).leases :=
  shrinks_sweep g.leases fun l => l.used && l.expiryTick ≤ now

theorem reapPid_shrinks (g : AgentGlobal) (pid : ℕ) :
    Shrinks g.leases (agentLeaseReapPid g pid).leases :=
  shrinks_sweep g.leases fun l => l.used && l.ownerPid == pid

/-- What reaping leaves is unexpired. -/
theorem reapExpired_unexpired {g : AgentGlobal} {now : ℕ} {j : Fin agentLeaseMax}
    (hu : ((agentLeaseReapExpired g now).leases j).used = true) :
    now < ((agentLeaseReapExpired g now).leases j).expiryTick := by
  rcases Table.sweep_cases g.leases (fun l => l.used && l.expiryTick ≤ now)
    AgentEditLease.zero j with ⟨-, h⟩ | ⟨hp, h⟩
  · simp only [agentLeaseReapExpired, h] at hu
    cases hu
  · simp only [agentLeaseReapExpired, h] at hu ⊢
    simpa [hu] using hp

/-! ### The lease calls -/

section

variable {g : AgentGlobal} {p : Proc} {ino : Ino} {now id : ℕ}

/-- The lease that `agent_proc_lease_begin` writes. -/
def newLease (p : Proc) (ino : Ino) (id now : ℕ) : AgentEditLease :=
  { used := true, dev := ino.1, inum := ino.2, ownerPid := p.pid,
    ownerGeneration := p.ident.identityGeneration, leaseId := id, baseVersion := 0,
    expiryTick := now + agentLeaseExpiryTicks }

/-- `agent_proc_lease_begin` only reaps, or it puts a new lease with the next id into a free
slot of a reaped table that has none on the file; the base version it returns is 0. -/
theorem leaseBegin_cases (g : AgentGlobal) (p : Proc) (ino : Ino) (now : ℕ) :
    (∃ e, (agentProcLeaseBegin g p ino now).2 = .error e ∧
      Shrinks g.leases (agentProcLeaseBegin g p ino now).1.leases ∧
      (agentProcLeaseBegin g p ino now).1.nextLeaseId = g.nextLeaseId) ∨
    ∃ f slot, Shrinks g.leases f ∧ (∀ j, (f j).used = true → (f j).ino ≠ ino) ∧
      (f slot).used = false ∧
      (agentProcLeaseBegin g p ino now).1.leases =
        Function.update f slot (newLease p ino ((g.nextLeaseId + 1) % 2 ^ 64) now) ∧
      (agentProcLeaseBegin g p ino now).1.nextLeaseId = (g.nextLeaseId + 1) % 2 ^ 64 ∧
      (agentProcLeaseBegin g p ino now).2 = .ok ((g.nextLeaseId + 1) % 2 ^ 64, 0) := by
  have hs := reapExpired_shrinks g now
  unfold agentProcLeaseBegin
  dsimp only
  split
  · exact .inl ⟨_, rfl, hs, rfl⟩
  rename_i hbusy
  split
  · exact .inl ⟨_, rfl, hs, rfl⟩
  rename_i slot hslot
  refine .inr ⟨_, slot, hs, fun j hu hj => ?_, ?_, rfl, rfl, rfl⟩
  · -- a used lease that survived the reaping is unexpired, so the BUSY test saw it
    have hnone : Table.first (agentLeaseReapExpired g now).leases
        (fun l => l.used && l.ino == ino && now < l.expiryTick) = none := by
      simpa using hbusy
    have hj' := Table.first_none.1 hnone j
    simp [hu, hj, reapExpired_unexpired hu] at hj'
  · simpa using Table.first_some hslot

/-- A commit that answers OK found the lease in the table, unexpired and its own. -/
theorem leaseCommit_ok {v : ℕ} (h : (agentProcLeaseCommit g p id v now).2 = agentToolOk) :
    ∃ i, (g.leases i).used = true ∧ (g.leases i).leaseId = id ∧ (g.leases i).owner = p.owner ∧
      now < (g.leases i).expiryTick := by
  unfold agentProcLeaseCommit at h
  split at h
  · exact absurd h (show agentToolErrPermission ≠ agentToolOk by decide)
  · rename_i slot hslot
    have hf := Table.first_some hslot
    simp only [Bool.and_eq_true, beq_iff_eq] at hf
    split at h
    · exact absurd h (show agentToolErrPermission ≠ agentToolOk by decide)
    split at h
    · exact absurd h (show agentToolErrBadParam ≠ agentToolOk by decide)
    · rename_i ho he
      exact ⟨slot, hf.1, hf.2, not_not.1 ho, not_le.1 he⟩

theorem leaseCommit_shrinks (g : AgentGlobal) (p : Proc) (id v now : ℕ) :
    Shrinks g.leases (agentProcLeaseCommit g p id v now).1.leases ∧
      (agentProcLeaseCommit g p id v now).1.nextLeaseId = g.nextLeaseId := by
  unfold agentProcLeaseCommit
  split
  · exact ⟨Shrinks.refl _, rfl⟩
  split
  · exact ⟨Shrinks.refl _, rfl⟩
  split
  · exact ⟨Shrinks.refl _, rfl⟩
  · exact ⟨shrinks_update _ _, rfl⟩

theorem leaseAbort_shrinks (g : AgentGlobal) (p : Proc) (id : ℕ) :
    Shrinks g.leases (agentProcLeaseAbort g p id).1.leases ∧
      (agentProcLeaseAbort g p id).1.nextLeaseId = g.nextLeaseId := by
  unfold agentProcLeaseAbort
  split
  · exact ⟨Shrinks.refl _, rfl⟩
  · exact ⟨shrinks_update _ _, rfl⟩

end

/-! ### One step -/

/-- What a step may do to the leases and the histories. -/
inductive LeaseChange (s t : LeaseState) : Prop
  | shrink (hl : Shrinks s.leases t.leases)
      (hn : t.kernel.agentGlobal.nextLeaseId = s.kernel.agentGlobal.nextLeaseId)
      (hg : t.granted = s.granted) (hw : t.written = s.written)
  | write (i : Slot) (ino : Ino) (hl : t.leases = s.leases)
      (hn : t.kernel.agentGlobal.nextLeaseId = s.kernel.agentGlobal.nextLeaseId)
      (hg : t.granted = s.granted)
      (hw : t.written = s.written ++ [⟨ino, (s.proc i).owner, s.holds i ino⟩])
  | grant (i : Slot) (ino : Ino) (now : ℕ) (f : Fin agentLeaseMax → AgentEditLease)
      (slot : Fin agentLeaseMax) (hf : Shrinks s.leases f)
      (hino : ∀ j, (f j).used = true → (f j).ino ≠ ino) (hslot : (f slot).used = false)
      (hl : t.leases = Function.update f slot
        (newLease (s.proc i) ino ((s.kernel.agentGlobal.nextLeaseId + 1) % 2 ^ 64) now))
      (hn : t.kernel.agentGlobal.nextLeaseId = (s.kernel.agentGlobal.nextLeaseId + 1) % 2 ^ 64)
      (hg : t.granted = s.granted ++
        [⟨(s.kernel.agentGlobal.nextLeaseId + 1) % 2 ^ 64, ino, (s.proc i).owner⟩])
      (hw : t.written = s.written)

/-- **All a step can do.** -/
theorem leaseNext_cases {s t : LeaseState} {l : LeaseLabel} (h : s.next l = some t) :
    LeaseChange s t := by
  have same : ∀ u : LeaseState, u.kernel.agentGlobal = s.kernel.agentGlobal →
      u.granted = s.granted → u.written = s.written → LeaseChange s u := fun u hk hg hw =>
    .shrink (by simp only [LeaseState.leases, hk]; exact Shrinks.refl _) (by rw [hk]) hg hw
  cases l with
  | tick | other _ _ =>
    simp only [LeaseState.next, Option.some.injEq] at h
    subst h; exact same _ rfl rfl rfl
  | begin i file =>
    simp only [LeaseState.next] at h
    split at h
    · rcases file with _ | ino
      · simp only [Option.some.injEq] at h; subst h; exact same _ rfl rfl rfl
      · dsimp only at h
        split at h <;> simp only [Option.some.injEq] at h <;> subst h <;> exact same _ rfl rfl rfl
    · simp at h
  | take i =>
    simp only [LeaseState.next] at h
    split at h
    · rename_i ino now hc
      rcases leaseBegin_cases s.kernel.agentGlobal (s.proc i) ino now with
        ⟨e, he, hs, hn⟩ | ⟨f, slot, hf, hino, hslot, hl, hn, hr⟩
      · rw [he] at h
        simp only [Option.some.injEq] at h
        subst h
        exact .shrink hs hn rfl rfl
      · rw [hr] at h
        simp only [Option.some.injEq] at h
        subst h
        exact .grant i ino now f slot hf hino hslot hl hn rfl rfl
    · simp at h
  | commit i id v =>
    simp only [LeaseState.next] at h
    split at h
    · simp only [Option.some.injEq] at h; subst h; exact same _ rfl rfl rfl
    · simp at h
  | release i =>
    simp only [LeaseState.next] at h
    split at h
    · rename_i id v now hc
      simp only [Option.some.injEq] at h
      subst h
      obtain ⟨hs, hn⟩ := leaseCommit_shrinks s.kernel.agentGlobal (s.proc i) id v now
      exact .shrink hs hn rfl rfl
    · simp at h
  | abort i id =>
    simp only [LeaseState.next] at h
    split at h
    · simp only [Option.some.injEq] at h
      subst h
      obtain ⟨hs, hn⟩ := leaseAbort_shrinks s.kernel.agentGlobal (s.proc i) id
      exact .shrink hs hn rfl rfl
    · simp at h
  | read i ino =>
    simp only [LeaseState.next] at h
    split at h
    · simp only [Option.some.injEq] at h; subst h; exact same _ rfl rfl rfl
    · simp at h
  | write i ino bytes =>
    simp only [LeaseState.next] at h
    split at h
    · simp only [Option.some.injEq] at h
      subst h
      exact .write i ino rfl rfl rfl rfl
    · simp at h
  | reap now =>
    simp only [LeaseState.next] at h
    split at h
    · simp only [Option.some.injEq] at h
      subst h
      exact .shrink (reapExpired_shrinks _ _) rfl rfl rfl
    · simp at h
  | exit i =>
    simp only [LeaseState.next, Option.some.injEq] at h
    subst h
    exact .shrink (reapPid_shrinks _ _) rfl rfl rfl

/-! ### Runs -/

/-- **The table invariant**: one lease per file; the ids count the grants, so below `2^64`
grants they are fresh and distinct. -/
structure LeaseInv (s : LeaseState) : Prop where
  ino_inj : ∀ i j, (s.leases i).used = true → (s.leases j).used = true →
    (s.leases i).ino = (s.leases j).ino → i = j
  next_eq : s.kernel.agentGlobal.nextLeaseId = s.granted.length % 2 ^ 64
  id_le : s.granted.length < 2 ^ 64 → ∀ i, (s.leases i).used = true →
    (s.leases i).leaseId ≤ s.granted.length
  id_inj : s.granted.length < 2 ^ 64 → ∀ i j, (s.leases i).used = true →
    (s.leases j).used = true → (s.leases i).leaseId = (s.leases j).leaseId → i = j

theorem leaseInv_init (s : LeaseState) (h : leaseMachine.init s) : LeaseInv s := by
  obtain ⟨hg, -, hgr, -⟩ := h
  have hu : ∀ i, (s.leases i).used = false := fun i => by
    simp only [LeaseState.leases, hg]; rfl
  refine ⟨fun i j hi => ?_, by rw [hg, hgr]; rfl, fun _ i hi => ?_, fun _ i j hi => ?_⟩ <;>
    rw [hu i] at hi <;> cases hi

/-- A table that only loses slots keeps the invariant. -/
theorem LeaseInv.shrink {s t : LeaseState} (h : LeaseInv s) (hl : Shrinks s.leases t.leases)
    (hn : t.kernel.agentGlobal.nextLeaseId = s.kernel.agentGlobal.nextLeaseId)
    (hg : t.granted = s.granted) : LeaseInv t := by
  refine ⟨fun i j hi hj he => ?_, by rw [hn, hg, h.next_eq], fun hb i hi => ?_,
    fun hb i j hi hj he => ?_⟩
  · have ei := hl.used hi
    have ej := hl.used hj
    rw [ei] at hi he; rw [ej] at hj he
    exact h.ino_inj i j hi hj he
  · have ei := hl.used hi
    rw [hg] at hb ⊢
    rw [ei] at hi ⊢
    exact h.id_le hb i hi
  · have ei := hl.used hi
    have ej := hl.used hj
    rw [hg] at hb
    rw [ei] at hi he; rw [ej] at hj he
    exact h.id_inj hb i j hi hj he

/-- A used slot of the table after a grant is the granted one or an old lease on another file. -/
theorem granted_cases {s t : LeaseState} {ino : Ino} {f : Fin agentLeaseMax → AgentEditLease}
    {slot j : Fin agentLeaseMax} {new : AgentEditLease} (hf : Shrinks s.leases f)
    (hino : ∀ j, (f j).used = true → (f j).ino ≠ ino) (hl : t.leases = Function.update f slot new)
    (hu : (t.leases j).used = true) :
    (j = slot ∧ t.leases j = new) ∨
      (j ≠ slot ∧ t.leases j = s.leases j ∧ f j = s.leases j ∧ (s.leases j).used = true ∧
        (s.leases j).ino ≠ ino) := by
  rw [hl] at hu ⊢
  rcases Table.update_cases f slot new j with ⟨hj, e⟩ | ⟨hj, e⟩
  · exact .inl ⟨hj, e⟩
  · rw [e] at hu ⊢
    have he := hf.used hu
    exact .inr ⟨hj, he, he, he ▸ hu, he ▸ hino j hu⟩

/-- The id of a grant is its number. -/
theorem LeaseInv.next_id {s : LeaseState} (h : LeaseInv s) (hb : s.granted.length + 1 < 2 ^ 64) :
    (s.kernel.agentGlobal.nextLeaseId + 1) % 2 ^ 64 = s.granted.length + 1 := by
  rw [h.next_eq]
  omega

/-- **A grant** on a file without a lease. -/
theorem LeaseInv.grant {s t : LeaseState} (h : LeaseInv s) {i : Slot} {ino : Ino} {now : ℕ}
    {f : Fin agentLeaseMax → AgentEditLease} {slot : Fin agentLeaseMax} (hf : Shrinks s.leases f)
    (hino : ∀ j, (f j).used = true → (f j).ino ≠ ino)
    (hl : t.leases = Function.update f slot
      (newLease (s.proc i) ino ((s.kernel.agentGlobal.nextLeaseId + 1) % 2 ^ 64) now))
    (hid : t.kernel.agentGlobal.nextLeaseId = (s.kernel.agentGlobal.nextLeaseId + 1) % 2 ^ 64)
    (hlen : t.granted.length = s.granted.length + 1) : LeaseInv t := by
  have hnew : ∀ a, (newLease (s.proc i) ino a now).ino = ino := fun _ => rfl
  have hnewId : ∀ a, (newLease (s.proc i) ino a now).leaseId = a := fun _ => rfl
  refine ⟨fun a b ha hb he => ?_, by rw [hid, h.next_eq, hlen]; omega, fun hb a ha => ?_,
    fun hb a b ha hb' he => ?_⟩
  · rcases granted_cases hf hino hl ha with ⟨ha', hae⟩ | ⟨-, hae, -, hau, hai⟩ <;>
      rcases granted_cases hf hino hl hb with ⟨hb', hbe⟩ | ⟨-, hbe, -, hbu, hbi⟩
    · rw [ha', hb']
    · rw [hae, hbe, hnew] at he
      exact absurd he.symm hbi
    · rw [hae, hbe, hnew] at he
      exact absurd he hai
    · rw [hae, hbe] at he
      exact h.ino_inj a b hau hbu he
  · rw [hlen] at hb ⊢
    rcases granted_cases hf hino hl ha with ⟨-, hae⟩ | ⟨-, hae, -, hau, -⟩
    · rw [hae, hnewId, h.next_id hb]
    · rw [hae]
      exact (h.id_le (by omega) a hau).trans (Nat.le_succ _)
  · rw [hlen] at hb
    -- the new id is above every id in the table
    have hfresh : ∀ c, (s.leases c).used = true →
        (s.leases c).leaseId ≠ (s.kernel.agentGlobal.nextLeaseId + 1) % 2 ^ 64 := by
      intro c hc
      have hle := h.id_le (by omega) c hc
      rw [h.next_id hb]
      omega
    rcases granted_cases hf hino hl ha with ⟨ha', hae⟩ | ⟨-, hae, -, hau, -⟩ <;>
      rcases granted_cases hf hino hl hb' with ⟨hb', hbe⟩ | ⟨-, hbe, -, hbu, -⟩
    · rw [ha', hb']
    · rw [hae, hbe, hnewId] at he
      exact absurd he.symm (hfresh b hbu)
    · rw [hae, hbe, hnewId] at he
      exact absurd he (hfresh a hau)
    · rw [hae, hbe] at he
      exact h.id_inj (by omega) a b hau hbu he

theorem leaseInv_step (s : LeaseState) (l : LeaseLabel) (t : LeaseState) (h : LeaseInv s)
    (_ : always s l) (hn : leaseMachine.next s l = some t) : LeaseInv t := by
  cases leaseNext_cases hn with
  | shrink hl hid hg _ => exact h.shrink hl hid hg
  | write i ino hl hid hg _ => exact h.shrink (by rw [hl]; exact Shrinks.refl _) hid hg
  | grant i ino now f slot hf hino hslot hl hid hg _ =>
    exact h.grant hf hino hl hid (by rw [hg]; simp)

theorem leaseInv_reach {tr : List LeaseLabel} {s : LeaseState}
    (h : leaseMachine.Reach always tr s) : LeaseInv s :=
  h.inv leaseInv_init leaseInv_step

/-- What happened to the file of lease `L` since state `s₀`: no other lease on it, and no write
by another lease holder. -/
structure Undisturbed (s₀ : LeaseState) (L : AgentEditLease) (t : LeaseState) : Prop where
  grants : ∃ gs, t.granted = s₀.granted ++ gs ∧ ∀ g ∈ gs, g.ino ≠ L.ino
  writes : ∃ ws, t.written = s₀.written ++ ws ∧
    ∀ w ∈ ws, w.ino = L.ino → w.leased = true → w.writer = L.owner

/-- **Since its grant** a lease is gone for good, or in the table and its file undisturbed. -/
def Since (s₀ : LeaseState) (L : AgentEditLease) (t : LeaseState) : Prop :=
  t.granted.length < 2 ^ 64 → L.leaseId ≤ t.granted.length ∧
    ((∀ i, (t.leases i).used = true → (t.leases i).leaseId ≠ L.leaseId) ∨
      ((∃ i, t.leases i = L) ∧ Undisturbed s₀ L t))

/-- A process that holds a lease on `ino` has it in the table. -/
theorem holds_iff {s : LeaseState} {i : Slot} {ino : Ino} (h : s.holds i ino = true) :
    ∃ j, (s.leases j).used = true ∧ (s.leases j).ino = ino ∧
      (s.leases j).owner = (s.proc i).owner := by
  unfold LeaseState.holds at h
  obtain ⟨j, hj⟩ := Option.isSome_iff_exists.1 h
  have hf := Table.first_some hj
  simp only [Bool.and_eq_true, beq_iff_eq] at hf
  exact ⟨j, hf.1.1, hf.1.2, hf.2⟩

section

variable {s₀ s t : LeaseState} {L : AgentEditLease} {i : Slot} {ino : Ino}

/-- Leases are dropped. -/
theorem Since.shrink (h : Since s₀ L s) (hL : L.used = true) (hi : LeaseInv s)
    (hl : Shrinks s.leases t.leases) (hg : t.granted = s.granted) (hw : t.written = s.written) :
    Since s₀ L t := by
  intro hb
  rw [hg] at hb
  obtain ⟨hle, hgone | ⟨⟨i, hslot⟩, hq⟩⟩ := h hb
  · refine ⟨hg ▸ hle, .inl fun i hu => ?_⟩
    have e := hl.used hu
    rw [e] at hu ⊢
    exact hgone i hu
  · refine ⟨hg ▸ hle, ?_⟩
    rcases hl i with hs | hz
    · exact .inr ⟨⟨i, hs.trans hslot⟩, ⟨hg ▸ hq.grants, hw ▸ hq.writes⟩⟩
    · -- the slot was cleared: the id was there only once
      refine .inl fun j hu he => ?_
      have e := hl.used hu
      rw [e] at he
      have hji : j = i := hi.id_inj hb j i (e ▸ hu) (hslot ▸ hL) (by rw [he, hslot])
      rw [hji, hz] at hu
      cases hu

/-- A file is written. -/
theorem Since.write (h : Since s₀ L s) (hL : L.used = true) (hi : LeaseInv s)
    (hl : t.leases = s.leases) (hg : t.granted = s.granted)
    (hw : t.written = s.written ++ [⟨ino, (s.proc i).owner, s.holds i ino⟩]) : Since s₀ L t := by
  intro hb
  rw [hg] at hb
  obtain ⟨hle, hgone | ⟨⟨j, hslot⟩, hq⟩⟩ := h hb
  · exact ⟨hg ▸ hle, .inl fun j hu => by rw [hl] at hu ⊢; exact hgone j hu⟩
  · refine ⟨hg ▸ hle, .inr ⟨⟨j, by rw [hl, hslot]⟩, hg ▸ hq.grants, ?_⟩⟩
    obtain ⟨ws, hws, hall⟩ := hq.writes
    refine ⟨ws ++ [⟨ino, (s.proc i).owner, s.holds i ino⟩], by rw [hw, hws, List.append_assoc],
      fun w hw' hino hle' => ?_⟩
    rcases List.mem_append.1 hw' with hw' | hw'
    · exact hall w hw' hino hle'
    · -- a lease on the same file is the lease `L`
      rw [List.mem_singleton] at hw'
      subst hw'
      obtain ⟨m, hu, hm, ho⟩ := holds_iff hle'
      have hmj : m = j := hi.ino_inj m j hu (hslot ▸ hL) (by rw [hm, hslot]; exact hino)
      rw [← ho, hmj, hslot]

/-- A lease is granted. -/
theorem Since.grant (h : Since s₀ L s) (hL : L.used = true) (hi : LeaseInv s) {now : ℕ}
    {f : Fin agentLeaseMax → AgentEditLease} {slot : Fin agentLeaseMax} (hf : Shrinks s.leases f)
    (hino : ∀ j, (f j).used = true → (f j).ino ≠ ino) (hslot : (f slot).used = false)
    (hl : t.leases = Function.update f slot
      (newLease (s.proc i) ino ((s.kernel.agentGlobal.nextLeaseId + 1) % 2 ^ 64) now))
    (hg : t.granted = s.granted ++
      [⟨(s.kernel.agentGlobal.nextLeaseId + 1) % 2 ^ 64, ino, (s.proc i).owner⟩])
    (hw : t.written = s.written) : Since s₀ L t := by
  intro hb
  have hlen : t.granted.length = s.granted.length + 1 := by rw [hg]; simp
  rw [hlen] at hb
  have hb₀ : s.granted.length < 2 ^ 64 := by omega
  obtain ⟨hle, hrest⟩ := h hb₀
  -- a lease with the id of `L` is an old one
  have hold : ∀ m, (t.leases m).used = true → (t.leases m).leaseId = L.leaseId →
      f m = s.leases m ∧ (s.leases m).used = true ∧ (s.leases m).leaseId = L.leaseId := by
    intro m hu he
    rcases granted_cases hf hino hl hu with ⟨-, e⟩ | ⟨-, e, hfm, hum, -⟩
    · rw [e] at he
      change (s.kernel.agentGlobal.nextLeaseId + 1) % 2 ^ 64 = L.leaseId at he
      rw [hi.next_id hb] at he
      omega
    · exact ⟨hfm, hum, e ▸ he⟩
  refine ⟨by omega, ?_⟩
  rcases hrest with hgone | ⟨⟨j, hj⟩, hq⟩
  · refine .inl fun m hu he => ?_
    obtain ⟨-, hum, hem⟩ := hold m hu he
    exact hgone m hum hem
  · rcases hf j with hs | hz
    · -- the lease survived the reaping, so the new one is on another file
      have hne : j ≠ slot := by
        rintro rfl
        rw [hs, hj, hL] at hslot
        cases hslot
      have hLino : L.ino ≠ ino := by
        have hother := hino j (by rw [hs, hj, hL])
        rwa [hs, hj] at hother
      refine .inr ⟨⟨j, by rw [hl, Function.update_of_ne hne, hs, hj]⟩, ?_, hw ▸ hq.writes⟩
      obtain ⟨gs, hgs, hall⟩ := hq.grants
      refine ⟨gs ++ [⟨_, ino, (s.proc i).owner⟩], by rw [hg, hgs, List.append_assoc],
        fun g hg' => ?_⟩
      rcases List.mem_append.1 hg' with hg' | hg'
      · exact hall g hg'
      · rw [List.mem_singleton] at hg'
        subst hg'
        exact hLino.symm
    · refine .inl fun m hu he => ?_
      obtain ⟨hfm, hum, hem⟩ := hold m hu he
      have hmj : m = j := hi.id_inj hb₀ m j hum (hj ▸ hL) (by rw [hem, hj])
      rw [← hfm, hmj, hz] at hum
      cases hum

theorem since_step {l : LeaseLabel} (hL : L.used = true) (hi : LeaseInv s) (h : Since s₀ L s)
    (hn : leaseMachine.next s l = some t) : Since s₀ L t := by
  cases leaseNext_cases hn with
  | shrink hl _ hg hw => exact h.shrink hL hi hl hg hw
  | write i ino hl _ hg hw => exact h.write hL hi hl hg hw
  | grant i ino now f slot hf hino hslot hl _ hg hw => exact h.grant hL hi hf hino hslot hl hg hw

end

theorem since_path {s₀ s t : LeaseState} {L : AgentEditLease} {tr : List LeaseLabel}
    (hL : L.used = true) (hi : LeaseInv s) (h : Since s₀ L s)
    (hp : leaseMachine.Path always s tr t) : LeaseInv t ∧ Since s₀ L t :=
  hp.inv (P := fun u => LeaseInv u ∧ Since s₀ L u)
    (fun _ _ _ hu ha hn => ⟨leaseInv_step _ _ _ hu.1 ha hn, since_step hL hu.1 hu.2 hn⟩) ⟨hi, h⟩

/-- **A committed lease excluded every other lease holder.** If `lease_begin` of process `i` on
file `ino` answered `(id, base)` and a later `lease_commit(id, version)` answers OK, with
fewer than `2^64` leases granted so far, then the committer is that process, the commit
read the clock before the lease expired, no other lease on the file was granted in
between, and every write to the file in between under a lease was its own. The base version
is 0, and the answer of a commit never depends on the expected version. -/
theorem lease_excludes {tr tr' : List LeaseLabel} {s t u : LeaseState} {i j : Slot} {ino : Ino}
    {now now' id base version : ℕ} (h : leaseMachine.Reach always tr s)
    (hcall : s.calls i = .begin ino now)
    (hbegin : (agentProcLeaseBegin s.kernel.agentGlobal (s.proc i) ino now).2 = .ok (id, base))
    (hn : leaseMachine.next s (.take i) = some t) (hp : leaseMachine.Path always t tr' u)
    (hok : (agentProcLeaseCommit u.kernel.agentGlobal (u.proc j) id version now').2 = agentToolOk)
    (hb : u.granted.length < 2 ^ 64) :
    (u.proc j).owner = (s.proc i).owner ∧ now' < now + agentLeaseExpiryTicks ∧ base = 0 ∧
      (∃ gs, u.granted = t.granted ++ gs ∧ ∀ g ∈ gs, g.ino ≠ ino) ∧
      (∃ ws, u.written = t.written ++ ws ∧
        ∀ w ∈ ws, w.ino = ino → w.leased = true → w.writer = (s.proc i).owner) ∧
      ∀ version', agentProcLeaseCommit u.kernel.agentGlobal (u.proc j) id version' now' =
        agentProcLeaseCommit u.kernel.agentGlobal (u.proc j) id version now' := by
  have hi := leaseInv_reach h
  have hi' := leaseInv_step _ _ _ hi trivial hn
  rcases leaseBegin_cases s.kernel.agentGlobal (s.proc i) ino now with
    ⟨e, he, -⟩ | ⟨f, slot, hf, hino, hslot, hl, hnext, hr⟩
  · rw [he] at hbegin; cases hbegin
  have hret := hr.symm.trans hbegin
  simp only [Except.ok.injEq, Prod.mk.injEq] at hret
  obtain ⟨hid, hbase⟩ := hret
  have ht : t.leases slot = newLease (s.proc i) ino id now ∧ t.granted = s.granted ++
      [⟨id, ino, (s.proc i).owner⟩] := by
    simp only [leaseMachine, LeaseState.next, hcall, hr, Option.some.injEq] at hn
    subst hn
    refine ⟨?_, by simp only [LeaseState.setGlobal, LeaseState.goto, hid]⟩
    simp only [LeaseState.leases, LeaseState.setGlobal, hl, Function.update_self, hid]
  have hsince : Since t (newLease (s.proc i) ino id now) t := by
    intro hbt
    have hlen : t.granted.length = s.granted.length + 1 := by rw [ht.2]; simp
    refine ⟨?_, .inr ⟨⟨slot, ht.1⟩, ⟨[], by simp, by simp⟩, ⟨[], by simp, by simp⟩⟩⟩
    change id ≤ _
    rw [← hid, hi.next_eq, hlen]
    omega
  obtain ⟨hiu, hsu⟩ := since_path rfl hi' hsince hp
  obtain ⟨m, hmu, hmid, hmo, hme⟩ := leaseCommit_ok hok
  obtain ⟨-, hgone | ⟨⟨q, hq⟩, hun⟩⟩ := hsu hb
  · exact absurd hmid (hgone m hmu)
  · have hmq : m = q := hiu.id_inj hb m q hmu (by rw [hq]; rfl) (by rw [hmid, hq]; rfl)
    rw [hmq] at hmo hme
    have hq' : u.kernel.agentGlobal.leases q = newLease (s.proc i) ino id now := hq
    rw [hq'] at hmo hme
    exact ⟨hmo.symm, hme, hbase.symm, hun.grants, hun.writes, fun _ => rfl⟩

/-- Two agents that may patch files, at tick 3. -/
def twoPatchers : LeaseState where
  kernel := { (Kernel.boot.setProc 0 { Proc.boot with
      pid := 1, ident.identityGeneration := 1, ident.agentCapabilities := agentCapPatchFile }).setProc 1
      { Proc.boot with
        pid := 2, ident.identityGeneration := 2, ident.agentCapabilities := agentCapPatchFile } with
    ticks := 3 }
  calls := fun _ => .user
  content := fun _ => []
  granted := []
  written := []

/-- Agent 1 about to take a lease on inode `(1, 5)`. -/
def patcherAsks : LeaseState := twoPatchers.goto 0 (.begin (1, 5) 3)

/-- Agent 1 with lease 1. -/
def patcherHolds : LeaseState := (patcherAsks.next (.take 0)).getD twoPatchers

theorem patcherAsks_reach : leaseMachine.Reach always [.begin 0 (some (1, 5))] patcherAsks :=
  ⟨twoPatchers, ⟨rfl, fun _ => rfl, rfl, rfl⟩, path_of_run rfl⟩

/-- Agent 2 asks for the same file in vain, and for another; both write. -/
def patchersWrite : List LeaseLabel :=
  [.begin 1 (some (1, 5)), .take 1, .begin 1 (some (1, 6)), .take 1, .write 1 (1, 6) [104],
    .tick, .write 0 (1, 5) [105], .commit 1 2 0, .release 1, .tick]

def patchersWrote : LeaseState := (leaseMachine.run patcherHolds patchersWrite).getD twoPatchers

theorem lease_excludes_patcher :
    (patchersWrote.proc 0).owner = (patcherAsks.proc 0).owner ∧ 5 < 3 + agentLeaseExpiryTicks ∧
      0 = 0 ∧
      (∃ gs, patchersWrote.granted = patcherHolds.granted ++ gs ∧ ∀ g ∈ gs, g.ino ≠ (1, 5)) ∧
      (∃ ws, patchersWrote.written = patcherHolds.written ++ ws ∧
        ∀ w ∈ ws, w.ino = (1, 5) → w.leased = true → w.writer = (patcherAsks.proc 0).owner) ∧
      ∀ version', agentProcLeaseCommit patchersWrote.kernel.agentGlobal (patchersWrote.proc 0) 1
          version' 5 =
        agentProcLeaseCommit patchersWrote.kernel.agentGlobal (patchersWrote.proc 0) 1 0 5 :=
  lease_excludes patcherAsks_reach rfl rfl rfl (path_getD (by decide)) (by decide) (by decide)

/-- **Leases are advisory**: agent 2 writes the file that agent 1 has a lease on, and the commit
still answers OK. -/
theorem lease_is_advisory :
    ¬ ∀ (tr tr' : List LeaseLabel) (s t u : LeaseState) (i : Slot) (ino : Ino)
      (now now' id base : ℕ), leaseMachine.Reach always tr s → s.calls i = .begin ino now →
      (agentProcLeaseBegin s.kernel.agentGlobal (s.proc i) ino now).2 = .ok (id, base) →
      leaseMachine.next s (.take i) = some t → leaseMachine.Path always t tr' u →
      (agentProcLeaseCommit u.kernel.agentGlobal (u.proc i) id base now').2 = agentToolOk →
      ∃ ws, u.written = t.written ++ ws ∧
        ∀ w ∈ ws, w.ino = ino → w.writer = (s.proc i).owner := by
  intro h
  obtain ⟨ws, hws, hall⟩ := h _ [.write 1 (1, 5) [104, 105]] patcherAsks patcherHolds _ 0 (1, 5) 3 5
    1 0 patcherAsks_reach rfl rfl rfl (path_of_run rfl) (by decide)
  have hw : ws = [⟨(1, 5), (2, 2), false⟩] := by
    have : patcherHolds.written ++ ws = patcherHolds.written ++ [⟨(1, 5), (2, 2), false⟩] :=
      hws.symm.trans rfl
    exact List.append_cancel_left this
  have := hall ⟨(1, 5), (2, 2), false⟩ (by rw [hw]; simp) rfl
  exact absurd this (by decide)

end AgentOS
