import AgentOS.Model.Access
import AgentOS.Proof.Authority
import AgentOS.Proof.Lease
import AgentOS.Proof.Registry

/-!
# Which door asks for a capability

* `Paired`: no call gives `PATCH_FILE` to a process that never had `LEASE_ACQUIRE`.
* `callKernel_cases`: all that a call of `AgentOS.Model.Authority` does here.
* `useTool_keeps`: the Tool Router changes no process record.
* `AccessInv`, `accessInv_step`: what each process has had covers what it owns and was told.
* **`access_mediated`**: leases by both doors, listings by the Router, and who may set parameters
  and watches.
* `unguarded_child`: an Agent that never had a capability lists, schedules and watches.
-/

namespace AgentOS

open Machine

variable {s s' t : AccessState} {i : Slot}

/-! ### Masks -/

section

variable {a b c : BitVec 64}

theorem or_has : (a ||| b) &&& c ≠ 0 ↔ a &&& c ≠ 0 ∨ b &&& c ≠ 0 := by
  have h : (a ||| b) &&& c = (a &&& c) ||| (b &&& c) := by
    apply BitVec.eq_of_getLsbD_eq
    intro i _
    simp [Bool.and_or_distrib_right]
  rw [h]
  show ¬ ((a &&& c) ||| (b &&& c) = 0#64) ↔ _
  rw [BitVec.or_eq_zero_iff, not_and_or]
  rfl

theorem within_has (h : Mask.Within a b) (hc : a &&& c ≠ 0) : b &&& c ≠ 0 := by
  have hab : a ||| b = b := by
    apply BitVec.eq_of_getLsbD_eq
    intro i hi
    have hbit := Mask.within_iff.1 h i hi
    cases ha : a.getLsbD i
    · simp [ha]
    · simp [ha, hbit ha]
  rw [← hab]
  exact or_has.2 (.inl hc)

/-- A mask with `PATCH_FILE` has `LEASE_ACQUIRE`. -/
def Paired (a : BitVec 64) : Prop := a &&& agentCapPatchFile ≠ 0 → a &&& agentCapLeaseAcquire ≠ 0

theorem Paired.or (ha : Paired a) (hb : Paired b) : Paired (a ||| b) := by
  intro h
  rcases or_has.1 h with h | h
  · exact or_has.2 (.inl (ha h))
  · exact or_has.2 (.inr (hb h))

/-- Bits that `a` has already keep `a` paired. -/
theorem Paired.or_within (ha : Paired a) (hb : Mask.Within b a) : Paired (a ||| b) := by
  intro h
  rcases or_has.1 h with h | h
  · exact or_has.2 (.inl (ha h))
  · exact or_has.2 (.inl (ha (within_has hb h)))

theorem paired_zero : Paired 0 := fun h => absurd (by simp) h

theorem paired_mark (type : ℤ) : Paired (markCapabilities type) := by
  unfold markCapabilities Paired
  split <;> decide

theorem paired_role (role : ℤ) : Paired (agentRoleDefaultCaps role) := by
  unfold agentRoleDefaultCaps Paired
  split <;> decide

end

/-! ### One call -/

/-- What a call may do to slot `i`: the process stays, with a mask that was cut or that was given
to it; `agent_create`; a birth; a death. -/
inductive Fate (k : Kernel) (l : CallLabel) (i : Slot) (k' : Kernel) : Prop
  | kept (hb : l.born ≠ some i)
      (hs : (k'.procs i).state ≠ .unused → (k.procs i).state ≠ .unused)
      (hp : (k'.procs i).pid = (k.procs i).pid)
      (hm : Mask.Within (k'.procs i).ident.agentCapabilities (k.procs i).ident.agentCapabilities ∨
        Paired (k'.procs i).ident.agentCapabilities)
      (hq : (k'.procs i).schedParams = (k.procs i).schedParams)
      (hw : (k'.procs i).fileWatch = none ∨ (k'.procs i).fileWatch = (k.procs i).fileWatch)
  | made (hb : l.born ≠ some i) (hl : l.creator = some i)
      (hs : (k'.procs i).state ≠ .unused → (k.procs i).state ≠ .unused)
      (hp : (k'.procs i).pid = (k.procs i).pid)
      (hm : Paired (k'.procs i).ident.agentCapabilities)
      (hw : (k'.procs i).fileWatch = none)
  | born (hb : l.born = some i) (hs : (k.procs i).state = .unused)
      (hp : (k'.procs i).pid = k.nextpid) (hn : k.nextpid < k'.nextpid)
      (hm : (k'.procs i).ident.agentCapabilities = 0)
  | freed (hb : l.born ≠ some i) (hs : (k'.procs i).state = .unused)
      (hp : (k'.procs i).pid = 0) (hm : (k'.procs i).ident.agentCapabilities = 0)

variable {k k' : Kernel} {l : CallLabel}

theorem Fate.of_eq (hb : l.born ≠ some i) (h : k'.procs i = k.procs i) : Fate k l i k' :=
  .kept hb (by rw [h]; exact id) (by rw [h]) (.inl (by rw [h])) (by rw [h]) (.inr (by rw [h]))

/-- A store into the record of process `j` that keeps its parameters and its watch. -/
theorem Fate.of_setProc {j : Slot} {p : Proc} (hb : ∀ i, l.born ≠ some i)
    (hs : (k.procs j).state ≠ .unused) (hp : p.pid = (k.procs j).pid)
    (hm : Mask.Within p.ident.agentCapabilities (k.procs j).ident.agentCapabilities ∨
      Paired p.ident.agentCapabilities)
    (hq : p.schedParams = (k.procs j).schedParams)
    (hw : p.fileWatch = none ∨ p.fileWatch = (k.procs j).fileWatch) (i : Slot) :
    Fate k l i (k.setProc j p) := by
  by_cases hi : i = j
  · subst hi
    refine .kept (hb i) (fun _ => hs) ?_ ?_ ?_ ?_ <;> rwa [Kernel.setProc_self]
  · exact .of_eq (hb i) (Kernel.setProc_ne _ _ _ _ hi)

theorem markCurrent_store {j : Slot} {ty hb : ℤ} {q a b : ℕ} {u : Bool}
    (h : k.markCurrent j ty hb q u a b = some k') :
    (k'.procs j).ident.agentCapabilities = markCapabilities (markType ty) ∧
      (k'.procs j).fileWatch = none ∧ k'.agentGlobal.leases = k.agentGlobal.leases := by
  unfold Kernel.markCurrent at h
  dsimp only at h
  split at h <;> [cases h; skip]
  generalize (if (k.procs j).ctx.contextRegionStart = 0 then markRegion (k.procs j)
      else k.procs j) = p at h
  split at h <;> obtain rfl := Option.some.inj h
  · refine ⟨by simp [markStores, markIdent], by simp [markStores, markLoop, Proc.fileWatch], rfl⟩
  · refine ⟨by simp [markStores, markIdent], by simp [markStores, markLoop, Proc.fileWatch], rfl⟩

theorem capSet_effects (p : Proc) (caps : BitVec 64) :
    (agentProcCapSet p caps).1.schedParams = p.schedParams ∧
      (agentProcCapSet p caps).1.fileWatch = p.fileWatch := by
  unfold agentProcCapSet
  split
  · exact ⟨rfl, rfl⟩
  split
  · exact ⟨rfl, rfl⟩
  split <;> exact ⟨rfl, rfl⟩

/-- `agent_role_set` gives the capabilities of the role or changes nothing. -/
theorem roleSet_effects (p : Proc) (role : ℤ) :
    ((agentProcRoleSet p role).1.ident.agentCapabilities = p.ident.agentCapabilities ∨
        Paired (agentProcRoleSet p role).1.ident.agentCapabilities) ∧
      (agentProcRoleSet p role).1.schedParams = p.schedParams ∧
      (agentProcRoleSet p role).1.fileWatch = p.fileWatch := by
  unfold agentProcRoleSet
  split
  · exact ⟨.inl rfl, rfl, rfl⟩
  split
  · exact ⟨.inl rfl, rfl, rfl⟩
  split
  · exact ⟨.inl rfl, rfl, rfl⟩
  · exact ⟨.inr (paired_role role), rfl, rfl⟩

theorem keeping_effects (q p : Proc) (hi : q.ident = p.ident) :
    (q.keeping p).schedParams = p.schedParams ∧
      ((q.keeping p).fileWatch = none ∨ (q.keeping p).fileWatch = p.fileWatch) := by
  refine ⟨by simp [Proc.schedParams, Proc.keeping, hi], ?_⟩
  by_cases h : q.loop.watchMask &&& agentWatchFilemod = 0
  · left
    simp only [Proc.keeping, Proc.fileWatch, if_pos h]
  · right
    simp only [Proc.keeping, Proc.fileWatch, if_neg h]

/-- **All that a call does here**, at every slot, to the leases and to the pid counter. -/
theorem callKernel_cases (h : s.callKernel l = some k') (i : Slot) :
    s.kernel.nextpid ≤ k'.nextpid ∧ Shrinks s.leases k'.agentGlobal.leases ∧
      Fate s.kernel l i k' := by
  have hrefl := Shrinks.refl s.leases
  cases l with
  | create j ty hb q u a b =>
    simp only [AccessState.callKernel, Kernel.callNext] at h
    split at h <;> [skip; cases h]
    obtain rfl := Option.some.inj h
    cases hm : s.kernel.markCurrent j ty hb q u a b with
    | none => exact ⟨le_rfl, hrefl, .of_eq (by simp [CallLabel.born]) rfl⟩
    | some k₁ =>
      obtain ⟨hn, hp, hs, hne⟩ := markCurrent_frame j hm
      obtain ⟨hc, hw, hl⟩ := markCurrent_store hm
      refine ⟨hn.ge, ?_, ?_⟩
      · intro slot
        exact .inl (congrFun hl slot)
      by_cases hi : i = j
      · subst hi
        refine .made (by simp [CallLabel.born]) rfl ?_ hp ?_ hw
        · intro hu
          rwa [Option.getD_some, hs] at hu
        · rw [Option.getD_some, hc]
          exact paired_mark _
      · exact .of_eq (by simp [CallLabel.born]) (hne i hi)
  | roleSet j role =>
    simp only [AccessState.callKernel, Kernel.callNext] at h
    split at h <;> [skip; cases h]
    rename_i hlive
    obtain rfl := Option.some.inj h
    obtain ⟨hm, hq, hw⟩ := roleSet_effects (s.kernel.procs j) role
    refine ⟨le_rfl, hrefl, .of_setProc (by simp [CallLabel.born]) hlive.1
      (roleSet_frame _ _).1 ?_ hq (.inr hw) i⟩
    rcases hm with hm | hm
    · left
      rw [hm]
    · exact .inr hm
  | capSet j caps =>
    simp only [AccessState.callKernel, Kernel.callNext] at h
    split at h <;> [skip; cases h]
    rename_i hlive
    obtain rfl := Option.some.inj h
    obtain ⟨hq, hw⟩ := capSet_effects (s.kernel.procs j) caps
    exact ⟨le_rfl, hrefl, .of_setProc (by simp [CallLabel.born]) hlive.1
      (capSet_frame _ _).2.1 (.inl (capSet_within _ _)) hq (.inr hw) i⟩
  | fork m j copied =>
    simp only [AccessState.callKernel, Kernel.callNext] at h
    split at h <;> [skip; cases h]
    rename_i hlive
    obtain rfl := Option.some.inj h
    unfold Kernel.forkInto
    dsimp only
    split
    · rename_i hc
      refine ⟨Nat.le_succ _, hrefl, ?_⟩
      by_cases hi : i = j
      · subst hi
        exact .born (by rw [hc]; rfl) hlive.2 (by simp [agentAfterFork, allocprocAt, agentInitProc])
          (Nat.lt_succ_self _) (by simp [agentAfterFork, forkIdent])
      · have hb : (CallLabel.fork m j copied).born ≠ some i := by
          rw [hc]
          exact fun he => hi (Option.some.inj he).symm
        exact .of_eq hb (Kernel.setProc_ne _ _ _ _ hi)
    · rename_i hc
      have hb : ∀ i, (CallLabel.fork m j copied).born ≠ some i := by
        rw [Bool.not_eq_true] at hc
        simp [hc, CallLabel.born]
      refine ⟨Nat.le_succ _, hrefl, ?_⟩
      by_cases hi : i = j
      · subst hi
        exact .freed (hb i) (by simp [freeproc]) (by simp [freeproc, agentInitProc])
          (by simp [freeproc, agentInitProc, Ident.init])
      · exact .of_eq (hb i) (Kernel.setProc_ne _ _ _ _ hi)
  | exec j =>
    simp only [AccessState.callKernel, Kernel.callNext] at h
    split at h <;> [skip; cases h]
    rename_i hlive
    obtain rfl := Option.some.inj h
    have hb : ∀ i, (CallLabel.exec j).born ≠ some i := by simp [CallLabel.born]
    refine ⟨le_rfl, hrefl, Fate.of_setProc hb hlive.1 ?_ (.inl ?_) ?_ (.inr ?_) i⟩
    · rfl
    · exact Mask.Within.refl _
    · rfl
    · rfl
  | exit j =>
    simp only [AccessState.callKernel, Kernel.callNext] at h
    split at h <;> [skip; cases h]
    rename_i hlive
    obtain rfl := Option.some.inj h
    refine ⟨le_rfl, reapPid_shrinks _ _, ?_⟩
    by_cases hi : i = j
    · subst hi
      refine .kept (by simp [CallLabel.born]) (fun _ => hlive.1) ?_ (.inl ?_) ?_ (.inr ?_) <;>
        simp [Kernel.setProc, Mask.Within.refl, Proc.schedParams, Proc.fileWatch]
    · exact .of_eq (by simp [CallLabel.born]) (Kernel.setProc_ne _ _ _ _ hi)
  | reap j =>
    simp only [AccessState.callKernel, Kernel.callNext] at h
    split at h <;> [skip; cases h]
    obtain rfl := Option.some.inj h
    refine ⟨le_rfl, hrefl, ?_⟩
    by_cases hi : i = j
    · subst hi
      exact .freed (by simp [CallLabel.born]) (by simp [freeproc])
        (by simp [freeproc, agentInitProc]) (by simp [freeproc, agentInitProc, Ident.init])
    · exact .of_eq (by simp [CallLabel.born]) (Kernel.setProc_ne _ _ _ _ hi)
  | other j q =>
    simp only [AccessState.callKernel, Kernel.callNext] at h
    split at h <;> [skip; cases h]
    rename_i hlive
    obtain rfl := Option.some.inj h
    have hb : ∀ i, (CallLabel.other j q).born ≠ some i := by simp [CallLabel.born]
    obtain ⟨hq, hw⟩ := keeping_effects
      { q with pid := (s.kernel.procs j).pid, ident := (s.kernel.procs j).ident }
      (s.kernel.procs j) rfl
    refine ⟨le_rfl, hrefl, Fate.of_setProc hb hlive.1.1 ?_ (.inl ?_) ?_ ?_ i⟩
    · rfl
    · exact Mask.Within.refl _
    · exact hq
    · exact hw

/-! ### The other steps -/

/-- A step that creates, forks and frees nobody: what it may add to the leases and to the
listings. -/
structure Served (s t : AccessState) : Prop where
  nextpid : t.kernel.nextpid = s.kernel.nextpid
  had : t.had = s.had
  state : ∀ j, (t.proc j).state = (s.proc j).state
  pid : ∀ j, (t.proc j).pid = (s.proc j).pid
  caps : ∀ j, (t.proc j).ident.agentCapabilities = (s.proc j).ident.agentCapabilities
  leases : ∀ slot, (t.leases slot).used = true → t.leases slot = s.leases slot ∨
    ∃ j, (s.proc j).live ∧ leaseAllowed (s.proc j) ∧ (t.leases slot).ownerPid = (s.proc j).pid
  told : ∀ j, ∀ x ∈ t.told j, x ∈ s.told j ∨
    (x.door = .router → (s.proc j).ident.agentCapabilities &&& agentCapQueryProcess ≠ 0)

theorem Served.refl (s : AccessState) : Served s s :=
  ⟨rfl, rfl, fun _ => rfl, fun _ => rfl, fun _ => rfl, fun _ _ => .inl rfl, fun _ _ h => .inl h⟩

theorem served_shrink {g : AgentGlobal} (h : Shrinks s.leases g.leases) :
    Served s (s.setGlobal g) :=
  { Served.refl s with leases := fun _ hu => .inl (h.used hu) }

theorem served_leaseTake (hlive : (s.proc i).live) (file : Option Ino) (now : ℕ) :
    Served s (s.leaseTake i file now) := by
  unfold AccessState.leaseTake
  cases file with
  | none => exact Served.refl s
  | some ino =>
    dsimp only
    split <;> [skip; exact Served.refl s]
    rename_i hall
    rcases leaseBegin_cases s.kernel.agentGlobal (s.proc i) ino now with
      ⟨e, -, hs, -⟩ | ⟨f, slot, hs, -, -, hl, -⟩
    · exact served_shrink hs
    · refine { Served.refl s with leases := fun x hu => ?_ }
      have hx : (s.setGlobal (agentProcLeaseBegin s.kernel.agentGlobal (s.proc i) ino now).1).leases x =
          Function.update f slot
            (newLease (s.proc i) ino ((s.kernel.agentGlobal.nextLeaseId + 1) % 2 ^ 64) now) x :=
        congrFun hl x
      rw [hx] at hu ⊢
      by_cases hxs : x = slot
      · subst hxs
        right
        rw [Function.update_self]
        exact ⟨i, hlive, hall, rfl⟩
      · rw [Function.update_of_ne hxs] at hu ⊢
        exact .inl (hs.used hu)

theorem served_leaseDrop (i : Slot) (leaseId expectedVersion now : ℕ) :
    Served s (s.leaseDrop i leaseId expectedVersion now) :=
  served_shrink (leaseCommit_shrinks ..).1

theorem served_leaseQuit (i : Slot) (leaseId : ℕ) : Served s (s.leaseQuit i leaseId) :=
  served_shrink (leaseAbort_shrinks ..).1

theorem served_tell (i : Slot) {door : Door} (text : List UInt8)
    (h : door = .router → (s.proc i).ident.agentCapabilities &&& agentCapQueryProcess ≠ 0) :
    Served s (s.tell i door text) := by
  refine { Served.refl s with told := fun j x hx => ?_ }
  by_cases hj : j = i
  · subst hj
    simp only [AccessState.tell, Function.update_self, List.mem_append, List.mem_singleton] at hx
    rcases hx with hx | rfl
    · exact .inl hx
    · exact .inr h
  · simp only [AccessState.tell, Function.update_of_ne hj] at hx
    exact .inl hx

theorem served_setProc {i : Slot} {p : Proc} (hs : p.state = (s.proc i).state)
    (hp : p.pid = (s.proc i).pid)
    (hc : p.ident.agentCapabilities = (s.proc i).ident.agentCapabilities) :
    Served s (s.setProc i p) := by
  have hproc : ∀ j, (s.setProc i p).proc j = if j = i then p else s.proc j :=
    fun j => s.kernel.setProc_procs i j p
  refine { Served.refl s with state := fun j => ?_, pid := fun j => ?_, caps := fun j => ?_ }
  all_goals
    rw [hproc]
    split
    · rename_i hj
      subst hj
      assumption
    · rfl

/-- A built-in tool runs for an Agent that has its capability. -/
theorem route_allowed {r : Runtime} {p : Proc} {name : List UInt8} {t : BuiltinTool}
    (h : agentToolRoute r p name = .builtin t) :
    t.requiredCap = 0 ∨ p.ident.agentCapabilities &&& t.requiredCap ≠ 0 := by
  by_cases hp : p.ident.agentType = agentTypeNormal
  · unfold agentToolRoute at h
    rw [if_pos hp] at h
    cases h
  by_cases hb : toolIsBuiltin name = true
  · obtain ⟨t', ht'⟩ := builtin_of_toolIsBuiltin hb
    rw [route_builtin hp ht'] at h
    split at h <;> cases h
    assumption
  · rw [route_dynamic hp (Bool.not_eq_true _ ▸ hb)] at h
    split at h <;> cases h

/-- **A handler that the Router reaches** takes leases and tells listings as far as the
capabilities of the caller go. -/
theorem served_useTool {r : Runtime} {name params : List UInt8} {env : ToolEnv} {t : BuiltinTool}
    (hlive : (s.proc i).live) (h : agentToolRoute r (s.proc i) name = .builtin t) :
    Served s (s.useTool i params env t) := by
  have hcap := route_allowed h
  cases t
  case queryProcess =>
    simp only [AccessState.useTool]
    split <;> [skip; exact Served.refl s]
    exact served_tell i _ fun _ => hcap.resolve_left (by decide)
  case queryAgent =>
    simp only [AccessState.useTool]
    split <;> [skip; exact Served.refl s]
    exact served_tell i _ fun _ => hcap.resolve_left (by decide)
  case leaseBegin =>
    simp only [AccessState.useTool]
    split
    · exact Served.refl s
    · exact served_leaseTake hlive _ _
  case leaseCommit =>
    simp only [AccessState.useTool]
    split
    · exact served_leaseDrop i _ _ _
    · exact Served.refl s
  case leaseAbort =>
    simp only [AccessState.useTool]
    split
    · exact served_leaseQuit i _
    · exact Served.refl s
  all_goals exact Served.refl s

theorem prioritySet_frame (p : Proc) (priority : ℤ) :
    (agentProcPrioritySet p priority).1.state = p.state ∧
      (agentProcPrioritySet p priority).1.pid = p.pid ∧
      (agentProcPrioritySet p priority).1.ident.agentCapabilities = p.ident.agentCapabilities ∧
      (agentProcPrioritySet p priority).1.fileWatch = p.fileWatch := by
  unfold agentProcPrioritySet
  split
  · exact ⟨rfl, rfl, rfl, rfl⟩
  split <;> exact ⟨rfl, rfl, rfl, rfl⟩

theorem schedSet_frame (p : Proc) (priority quota : ℤ) (now : ℕ) :
    (agentProcSchedSet p priority quota now).1.state = p.state ∧
      (agentProcSchedSet p priority quota now).1.pid = p.pid ∧
      (agentProcSchedSet p priority quota now).1.ident.agentCapabilities =
        p.ident.agentCapabilities ∧
      (agentProcSchedSet p priority quota now).1.fileWatch = p.fileWatch := by
  unfold agentProcSchedSet
  split
  · exact ⟨rfl, rfl, rfl, rfl⟩
  split
  · exact ⟨rfl, rfl, rfl, rfl⟩
  split <;> exact ⟨rfl, rfl, rfl, rfl⟩

/-- The calls that set or clear a watch write the Agent Loop only. -/
structure LoopOnly (p q : Proc) : Prop where
  state : q.state = p.state
  pid : q.pid = p.pid
  ident : q.ident = p.ident
  sched : q.sched = p.sched

theorem watch_loopOnly (p : Proc) (mask : BitVec 32) : LoopOnly p (agentProcWatch p mask).1 := by
  unfold agentProcWatch
  split
  · exact ⟨rfl, rfl, rfl, rfl⟩
  split <;> exact ⟨rfl, rfl, rfl, rfl⟩

theorem watchFile_loopOnly (p : Proc) (dev inum : ℕ) (path : List UInt8) :
    LoopOnly p (agentProcWatchFile p dev inum path).1 := by
  unfold agentProcWatchFile
  split <;> exact ⟨rfl, rfl, rfl, rfl⟩

theorem unwatch_loopOnly (p : Proc) (mask : BitVec 32) :
    LoopOnly p (agentProcUnwatch p mask).1 := by
  unfold agentProcUnwatch
  split <;> exact ⟨rfl, rfl, rfl, rfl⟩

theorem LoopOnly.served {p : Proc} (h : LoopOnly (s.proc i) p) : Served s (s.setProc i p) :=
  served_setProc h.state h.pid (by rw [h.ident])

/-- `agent_unwatch` clears the watch or leaves it. -/
theorem unwatch_fileWatch (p : Proc) (mask : BitVec 32) :
    (agentProcUnwatch p mask).1.fileWatch = none ∨
      (agentProcUnwatch p mask).1.fileWatch = p.fileWatch := by
  unfold agentProcUnwatch
  split
  · exact .inr rfl
  dsimp only
  generalize hw : (if mask = 0 then 0 else p.loop.watchMask &&& ~~~mask) = w
  by_cases h : w &&& agentWatchFilemod = 0
  · left
    rw [if_pos h]
    unfold Proc.fileWatch
    exact if_pos (by split <;> exact h)
  · right
    rw [if_neg h]
    have hold : p.loop.watchMask &&& agentWatchFilemod ≠ 0 := by
      intro hz
      apply h
      rw [← hw]
      split
      · simp
      · rw [BitVec.and_assoc, BitVec.and_comm (~~~mask), ← BitVec.and_assoc, hz]
        exact BitVec.zero_and
    unfold Proc.fileWatch
    rw [if_neg hold]
    by_cases hm : w &&& agentWatchMessage = 0
    · rw [if_pos hm, if_neg h]
    · rw [if_neg hm, if_neg h]

theorem guarded_some (h : s.guarded i t = some s') : (s.proc i).live ∧ t = s' := by
  unfold AccessState.guarded at h
  split at h <;> [skip; cases h]
  rename_i hlive
  exact ⟨hlive, Option.some.inj h⟩

/-- **Every step that is no call of `AgentOS.Model.Authority`.** -/
theorem accessNext_served {a : AccessLabel} (h : accessMachine.next s a = some t)
    (ha : ∀ l, a ≠ .call l) : Served s t := by
  cases a with
  | call l => exact absurd rfl (ha l)
  | tool i name params env =>
    obtain ⟨hlive, rfl⟩ := guarded_some h
    split
    · rename_i hroute
      exact served_useTool hlive hroute
    · exact Served.refl s
  | leaseBegin i file now =>
    obtain ⟨hlive, rfl⟩ := guarded_some h
    exact served_leaseTake hlive file now
  | leaseCommit i leaseId expectedVersion now =>
    obtain ⟨-, rfl⟩ := guarded_some h
    exact served_leaseDrop i _ _ _
  | leaseAbort i leaseId =>
    obtain ⟨-, rfl⟩ := guarded_some h
    exact served_leaseQuit i _
  | queryAgent i role capability group len =>
    obtain ⟨-, rfl⟩ := guarded_some h
    refine served_tell i _ ?_
    intro hd
    cases hd
  | prioritySet i priority =>
    obtain ⟨-, rfl⟩ := guarded_some h
    obtain ⟨hs, hp, hc, -⟩ := prioritySet_frame (s.proc i) priority
    exact served_setProc hs hp hc
  | schedSet i priority quota now =>
    obtain ⟨-, rfl⟩ := guarded_some h
    obtain ⟨hs, hp, hc, -⟩ := schedSet_frame (s.proc i) priority quota now
    exact served_setProc hs hp hc
  | watch i mask =>
    obtain ⟨-, rfl⟩ := guarded_some h
    exact (watch_loopOnly _ mask).served
  | watchFile i file path =>
    obtain ⟨-, rfl⟩ := guarded_some h
    cases file with
    | none => exact Served.refl s
    | some ino => exact (watchFile_loopOnly _ ino.1 ino.2 path).served
  | unwatch i mask =>
    obtain ⟨-, rfl⟩ := guarded_some h
    exact (unwatch_loopOnly _ mask).served
  | leaseReap now =>
    obtain rfl := Option.some.inj h
    exact served_shrink (reapExpired_shrinks _ _)

/-! ### The invariant -/

/-- Pids are distinct and below the counter; a mask lies within what its process has had, which
is paired; the owners of leases and the receivers of listings had the capability. -/
structure AccessInv (s : AccessState) : Prop where
  pos : 0 < s.kernel.nextpid
  lt : ∀ i, (s.proc i).pid < s.kernel.nextpid
  distinct : ∀ i j, (s.proc i).state ≠ .unused → (s.proc j).state ≠ .unused →
    (s.proc i).pid = (s.proc j).pid → i = j
  within : ∀ i, Mask.Within (s.proc i).ident.agentCapabilities (s.had i)
  paired : ∀ i, Paired (s.had i)
  bound : ∀ slot, (s.leases slot).used = true → (s.leases slot).ownerPid < s.kernel.nextpid
  owners : ∀ slot, (s.leases slot).used = true → ∀ i, (s.proc i).state ≠ .unused →
    (s.proc i).pid = (s.leases slot).ownerPid → s.had i &&& agentCapLeaseAcquire ≠ 0
  told : ∀ i, ∀ x ∈ s.told i, x.door = .router → s.had i &&& agentCapQueryProcess ≠ 0

theorem AccessInv.served (h : AccessInv s) (hs : Served s t) : AccessInv t where
  pos := by rw [hs.nextpid]; exact h.pos
  lt i := by rw [hs.pid, hs.nextpid]; exact h.lt i
  distinct i j := by rw [hs.state, hs.state, hs.pid, hs.pid]; exact h.distinct i j
  within i := by rw [hs.caps, hs.had]; exact h.within i
  paired i := by rw [hs.had]; exact h.paired i
  bound slot hu := by
    rw [hs.nextpid]
    rcases hs.leases slot hu with hl | ⟨j, -, -, hp⟩
    · rw [hl] at hu ⊢
      exact h.bound slot hu
    · rw [hp]
      exact h.lt j
  owners slot hu i hi hp := by
    rw [hs.had]
    rw [hs.state] at hi
    rw [hs.pid] at hp
    rcases hs.leases slot hu with hl | ⟨j, hlive, hall, hj⟩
    · rw [hl] at hu hp
      exact h.owners slot hu i hi hp
    · -- the new owner is the caller, which has one of the two capabilities
      have hij : i = j := h.distinct i j hi hlive.1 (hp.trans hj)
      subst hij
      rcases hall with hc | hc
      · exact within_has (h.within i) hc
      · exact h.paired i (within_has (h.within i) hc)
  told i x hx hd := by
    rw [hs.had]
    rcases hs.told i x hx with hx | hc
    · exact h.told i x hx hd
    · exact within_has (h.within i) (hc hd)

/-- What a process has had, after a call. -/
theorem follow_had (h : AccessInv s) (hk : s.callKernel l = some k') (i : Slot) :
    Mask.Within (k'.procs i).ident.agentCapabilities ((s.follow l.born k').had i) ∧
      Paired ((s.follow l.born k').had i) := by
  have hf := (callKernel_cases hk i).2.2
  have hw : ∀ a b : BitVec 64, Mask.Within a (b ||| a) := by
    intro a b
    rw [Mask.within_iff]
    intro n _ hn
    simp [hn]
  simp only [AccessState.follow]
  cases hf with
  | kept hb _ _ hm _ _ =>
    rw [if_neg hb]
    refine ⟨hw _ _, ?_⟩
    rcases hm with hm | hm
    · exact (h.paired i).or_within (hm.trans (h.within i))
    · exact (h.paired i).or hm
  | made hb _ _ _ hm _ =>
    rw [if_neg hb]
    exact ⟨hw _ _, (h.paired i).or hm⟩
  | born hb _ _ _ hm =>
    rw [if_pos hb, hm]
    exact ⟨Mask.zero_within _, paired_zero⟩
  | freed hb _ _ hm =>
    rw [if_neg hb, hm]
    exact ⟨Mask.zero_within _, (h.paired i).or paired_zero⟩

/-- A process that is there after a call was there before with its pid, and has had what it had;
or the call is the fork that made it. -/
theorem follow_slot (hk : s.callKernel l = some k') (hi : (k'.procs i).state ≠ .unused) :
    (l.born ≠ some i ∧ (s.proc i).state ≠ .unused ∧ (k'.procs i).pid = (s.proc i).pid ∧
      ∀ c, s.had i &&& c ≠ 0 → (s.follow l.born k').had i &&& c ≠ 0) ∨
    (l.born = some i ∧ (k'.procs i).pid = s.kernel.nextpid) := by
  cases (callKernel_cases hk i).2.2 with
  | kept hb hs hp _ _ _ | made hb _ hs hp _ _ =>
    refine .inl ⟨hb, hs hi, hp, fun c hc => ?_⟩
    simp only [AccessState.follow, if_neg hb]
    exact or_has.2 (.inl hc)
  | born hb _ hp _ _ => exact .inr ⟨hb, hp⟩
  | freed _ hs _ _ => exact absurd hs hi

theorem AccessInv.call (h : AccessInv s) (hk : s.callKernel l = some k') :
    AccessInv (s.follow l.born k') := by
  have hle := (callKernel_cases hk 0).1
  have hsh := (callKernel_cases hk 0).2.1
  have hpos := h.pos
  refine ⟨?_, fun i => ?_, fun i j hi hj hp => ?_, fun i => (follow_had h hk i).1,
    fun i => (follow_had h hk i).2, fun slot hu => ?_, fun slot hu i hi hp => ?_,
    fun i x hx hd => ?_⟩
  · show 0 < k'.nextpid
    omega
  · show (k'.procs i).pid < k'.nextpid
    have hlt := h.lt i
    cases (callKernel_cases hk i).2.2 with
    | kept _ _ hp _ _ _ | made _ _ _ hp _ _ =>
      rw [hp]
      exact lt_of_lt_of_le hlt hle
    | born _ _ hp hn _ => rw [hp]; exact hn
    | freed _ _ hp _ => rw [hp]; omega
  · change (k'.procs i).pid = (k'.procs j).pid at hp
    have hli := h.lt i
    have hlj := h.lt j
    rcases follow_slot hk hi with ⟨-, hsi, hpi, -⟩ | ⟨hbi, hpi⟩ <;>
      rcases follow_slot hk hj with ⟨-, hsj, hpj, -⟩ | ⟨hbj, hpj⟩
    · exact h.distinct i j hsi hsj (by rw [← hpi, ← hpj, hp])
    · omega
    · omega
    · exact Option.some.inj (hbi.symm.trans hbj)
  · change (k'.agentGlobal.leases slot).used = true at hu
    show (k'.agentGlobal.leases slot).ownerPid < k'.nextpid
    have hl := hsh.used hu
    rw [hl] at hu ⊢
    exact lt_of_lt_of_le (h.bound slot hu) hle
  · change (k'.agentGlobal.leases slot).used = true at hu
    change (k'.procs i).pid = (k'.agentGlobal.leases slot).ownerPid at hp
    have hl := hsh.used hu
    rw [hl] at hu hp
    have hlt := h.bound slot hu
    rcases follow_slot hk hi with ⟨-, hsi, hpi, hc⟩ | ⟨-, hpi⟩
    · exact hc _ (h.owners slot hu i hsi (hpi ▸ hp))
    · omega
  · simp only [AccessState.follow] at hx ⊢
    split at hx
    · cases hx
    · rename_i hb
      rw [if_neg hb]
      exact or_has.2 (.inl (h.told i x hx hd))

theorem accessInv_step (s : AccessState) (a : AccessLabel) (t : AccessState) (h : AccessInv s)
    (_ : always s a) (hn : accessMachine.next s a = some t) : AccessInv t := by
  by_cases ha : ∃ l, a = .call l
  · obtain ⟨l, rfl⟩ := ha
    obtain ⟨k', hk, rfl⟩ := Option.map_eq_some_iff.1 hn
    exact h.call hk
  · exact h.served (accessNext_served hn fun l hl => ha ⟨l, hl⟩)

theorem accessInv_init (s : AccessState) (h : accessMachine.init s) : AccessInv s := by
  obtain ⟨⟨i, hn, hboot, hp, -, hi⟩, hg, hhad, htold⟩ := h
  have hslot : ∀ j, (s.proc j).pid < s.kernel.nextpid ∧
      (s.proc j).ident.agentCapabilities = 0 ∧ ((s.proc j).state ≠ .unused → j = i) := by
    intro j
    rw [hn]
    by_cases hj : j = i
    · subst hj
      refine ⟨?_, ?_, fun _ => rfl⟩
      · show (s.kernel.procs j).pid < 2
        omega
      · show (s.kernel.procs j).ident.agentCapabilities = 0
        rw [hi]
        rfl
    · have hbj : s.proc j = Proc.boot := hboot j hj
      rw [hbj]
      exact ⟨by decide, rfl, fun hu => absurd rfl hu⟩
  have hfree : ∀ slot, (s.leases slot).used = false := by
    intro slot
    show (s.kernel.agentGlobal.leases slot).used = false
    rw [hg]
    rfl
  refine ⟨by omega, fun j => (hslot j).1, fun j j' hj hj' _ => ?_, fun j => ?_, fun j => ?_,
    fun slot hu => ?_, fun slot hu => ?_, fun j x hx => ?_⟩
  · rw [(hslot j).2.2 hj, (hslot j').2.2 hj']
  · rw [(hslot j).2.1]
    exact Mask.zero_within _
  · rw [hhad]
    exact paired_zero
  · rw [hfree] at hu
    cases hu
  · rw [hfree] at hu
    cases hu
  · rw [htold] at hx
    cases hx

theorem accessInv_reach {tr : List AccessLabel} (h : accessMachine.Reach always tr s) :
    AccessInv s :=
  h.inv accessInv_init accessInv_step

/-! ### Parameters and watches -/

/-- What a step that is no call stores in the record of process `i`: nothing, or what one of five
system calls of `i` stores. -/
inductive RecordChange (s : AccessState) (a : AccessLabel) (i : Slot) (t : AccessState) : Prop
  | same (ht : t.proc i = s.proc i)
  | prioritySet (priority : ℤ) (ha : a = .prioritySet i priority)
      (ht : t.proc i = (agentProcPrioritySet (s.proc i) priority).1)
  | schedSet (priority quota : ℤ) (now : ℕ) (ha : a = .schedSet i priority quota now)
      (ht : t.proc i = (agentProcSchedSet (s.proc i) priority quota now).1)
  | watch (mask : BitVec 32) (ha : a = .watch i mask)
      (ht : t.proc i = (agentProcWatch (s.proc i) mask).1)
  | watchFile (ino : Ino) (path : List UInt8) (ha : a = .watchFile i (some ino) path)
      (ht : t.proc i = (agentProcWatchFile (s.proc i) ino.1 ino.2 path).1)
  | unwatch (mask : BitVec 32) (ha : a = .unwatch i mask)
      (ht : t.proc i = (agentProcUnwatch (s.proc i) mask).1)

theorem setProc_proc (s : AccessState) (j : Slot) (p : Proc) (i : Slot) :
    (i = j ∧ (s.setProc j p).proc i = p) ∨ (s.setProc j p).proc i = s.proc i := by
  by_cases hi : i = j
  · subst hi
    exact .inl ⟨rfl, s.kernel.setProc_self i p⟩
  · exact .inr (s.kernel.setProc_ne j i p hi)

theorem leaseTake_procs (s : AccessState) (j : Slot) (file : Option Ino) (now : ℕ) :
    (s.leaseTake j file now).kernel.procs = s.kernel.procs := by
  unfold AccessState.leaseTake
  split
  · rfl
  split <;> rfl

/-- **No handler of the Router** writes the record of a process. -/
theorem useTool_procs (s : AccessState) (j : Slot) (params : List UInt8) (env : ToolEnv)
    (b : BuiltinTool) : (s.useTool j params env b).kernel.procs = s.kernel.procs := by
  cases b
  case leaseBegin =>
    simp only [AccessState.useTool]
    split
    · rfl
    · exact leaseTake_procs s j _ _
  case queryProcess | queryAgent | leaseCommit | leaseAbort =>
    simp only [AccessState.useTool]
    split <;> rfl
  all_goals rfl

theorem accessNext_stored {a : AccessLabel} (h : accessMachine.next s a = some t)
    (ha : ∀ l, a ≠ .call l) (i : Slot) : RecordChange s a i t := by
  have hsame : ∀ {u : AccessState}, u.kernel.procs = s.kernel.procs → RecordChange s a i u :=
    fun hu => .same (congrFun hu i)
  cases a with
  | call l => exact absurd rfl (ha l)
  | tool j name params env =>
    obtain ⟨-, rfl⟩ := guarded_some h
    split
    · exact hsame (useTool_procs s j params env _)
    · exact hsame rfl
  | leaseBegin j file now =>
    obtain ⟨-, rfl⟩ := guarded_some h
    exact hsame (leaseTake_procs s j file now)
  | leaseCommit | leaseAbort | queryAgent =>
    obtain ⟨-, rfl⟩ := guarded_some h
    exact hsame rfl
  | leaseReap now =>
    obtain rfl := Option.some.inj h
    exact hsame rfl
  | prioritySet j priority =>
    obtain ⟨-, rfl⟩ := guarded_some h
    rcases setProc_proc s j (agentProcPrioritySet (s.proc j) priority).1 i with ⟨rfl, hp⟩ | hp
    · exact .prioritySet priority rfl hp
    · exact .same hp
  | schedSet j priority quota now =>
    obtain ⟨-, rfl⟩ := guarded_some h
    rcases setProc_proc s j (agentProcSchedSet (s.proc j) priority quota now).1 i with ⟨rfl, hp⟩ | hp
    · exact .schedSet priority quota now rfl hp
    · exact .same hp
  | watch j mask =>
    obtain ⟨-, rfl⟩ := guarded_some h
    rcases setProc_proc s j (agentProcWatch (s.proc j) mask).1 i with ⟨rfl, hp⟩ | hp
    · exact .watch mask rfl hp
    · exact .same hp
  | watchFile j file path =>
    obtain ⟨-, rfl⟩ := guarded_some h
    cases file with
    | none => exact hsame rfl
    | some ino =>
      rcases setProc_proc s j (agentProcWatchFile (s.proc j) ino.1 ino.2 path).1 i with ⟨rfl, hp⟩ | hp
      · exact .watchFile ino path rfl hp
      · exact .same hp
  | unwatch j mask =>
    obtain ⟨-, rfl⟩ := guarded_some h
    rcases setProc_proc s j (agentProcUnwatch (s.proc j) mask).1 i with ⟨rfl, hp⟩ | hp
    · exact .unwatch mask rfl hp
    · exact .same hp

/-- **Who changes the scheduling parameters of a process**: itself, by `agent_create`, or as an
Agent by `agent_priority_set` or `agent_sched_set`. -/
theorem accessNext_params {a : AccessLabel} (h : accessMachine.next s a = some t)
    (hs : (s.proc i).live) (ht : (t.proc i).live)
    (hne : (t.proc i).schedParams ≠ (s.proc i).schedParams) :
    (∃ l, a = .call l ∧ l.creator = some i) ∨
      ((s.proc i).ident.agentType ≠ agentTypeNormal ∧
        ((∃ priority, a = .prioritySet i priority) ∨
          ∃ priority quota now, a = .schedSet i priority quota now)) := by
  by_cases ha : ∃ l, a = .call l
  · obtain ⟨l, rfl⟩ := ha
    obtain ⟨k', hk, rfl⟩ := Option.map_eq_some_iff.1 h
    cases (callKernel_cases hk i).2.2 with
    | kept _ _ _ _ hq _ => exact absurd hq hne
    | made _ hl _ _ _ _ => exact .inl ⟨l, rfl, hl⟩
    | born _ hu _ _ _ => exact absurd hu hs.1
    | freed _ hu _ _ => exact absurd hu ht.1
  right
  cases accessNext_stored h (fun l hl => ha ⟨l, hl⟩) i with
  | same hp => exact absurd (by rw [hp]) hne
  | prioritySet priority hl hp =>
    refine ⟨fun htype => hne ?_, .inl ⟨priority, hl⟩⟩
    rw [hp]
    unfold agentProcPrioritySet
    rw [if_pos htype]
  | schedSet priority quota now hl hp =>
    refine ⟨fun htype => hne ?_, .inr ⟨priority, quota, now, hl⟩⟩
    rw [hp]
    unfold agentProcSchedSet
    rw [if_pos htype]
  | watch mask _ hp =>
    have hf := watch_loopOnly (s.proc i) mask
    exact absurd (by rw [hp]; simp only [Proc.schedParams, hf.ident, hf.sched]) hne
  | watchFile ino path _ hp =>
    have hf := watchFile_loopOnly (s.proc i) ino.1 ino.2 path
    exact absurd (by rw [hp]; simp only [Proc.schedParams, hf.ident, hf.sched]) hne
  | unwatch mask _ hp =>
    have hf := unwatch_loopOnly (s.proc i) mask
    exact absurd (by rw [hp]; simp only [Proc.schedParams, hf.ident, hf.sched]) hne

/-- **Who gives a process a file watch**: itself, as an Agent, by `agent_watch` or
`agent_watch_file`. -/
theorem accessNext_watch {a : AccessLabel} (h : accessMachine.next s a = some t)
    (hs : (s.proc i).live) (ht : (t.proc i).live) (hsome : (t.proc i).fileWatch ≠ none)
    (hne : (t.proc i).fileWatch ≠ (s.proc i).fileWatch) :
    (s.proc i).ident.agentType ≠ agentTypeNormal ∧
      ((∃ mask, a = .watch i mask) ∨ ∃ ino path, a = .watchFile i (some ino) path) := by
  by_cases ha : ∃ l, a = .call l
  · obtain ⟨l, rfl⟩ := ha
    obtain ⟨k', hk, rfl⟩ := Option.map_eq_some_iff.1 h
    cases (callKernel_cases hk i).2.2 with
    | kept _ _ _ _ _ hw =>
      rcases hw with hw | hw
      · exact absurd hw hsome
      · exact absurd hw hne
    | made _ _ _ _ _ hw => exact absurd hw hsome
    | born _ hu _ _ _ => exact absurd hu hs.1
    | freed _ hu _ _ => exact absurd hu ht.1
  cases accessNext_stored h (fun l hl => ha ⟨l, hl⟩) i with
  | same hp => exact absurd (by rw [hp]) hne
  | prioritySet priority _ hp => exact absurd (hp ▸ (prioritySet_frame _ _).2.2.2) hne
  | schedSet priority quota now _ hp => exact absurd (hp ▸ (schedSet_frame _ _ _ _).2.2.2) hne
  | watch mask hl hp =>
    refine ⟨fun htype => hne ?_, .inl ⟨mask, hl⟩⟩
    rw [hp]
    unfold agentProcWatch
    rw [if_pos htype]
  | watchFile ino path hl hp =>
    refine ⟨fun htype => hne ?_, .inr ⟨ino, path, hl⟩⟩
    rw [hp]
    unfold agentProcWatchFile
    rw [if_pos htype]
  | unwatch mask _ hp =>
    rcases unwatch_fileWatch (s.proc i) mask with hw | hw
    · exact absurd (hp ▸ hw) hsome
    · exact absurd (hp ▸ hw) hne

/-- An Agent sets its priority and quota, whatever its mask. -/
theorem schedSet_agent (hlive : (s.proc i).live)
    (hp : (s.proc i).ident.agentType ≠ agentTypeNormal) {priority quota : ℤ}
    (hpr : agentSchedPriorityMin ≤ priority ∧ priority ≤ agentSchedPriorityMax)
    (hq : agentSchedQuotaMin ≤ quota ∧ quota ≤ agentSchedQuotaMax) (now : ℕ) :
    ∃ t, accessMachine.next s (.schedSet i priority quota now) = some t ∧
      (t.proc i).schedParams = ((s.proc i).ident.agentPriority, priority, quota) := by
  refine ⟨_, if_pos hlive, ?_⟩
  show (((s.kernel.setProc i _).procs i)).schedParams = _
  rw [Kernel.setProc_self]
  unfold agentProcSchedSet
  rw [if_neg hp, if_neg (by omega), if_neg (by omega)]
  rfl

/-- An Agent watches any file, whatever its mask. -/
theorem watchFile_agent (hlive : (s.proc i).live)
    (hp : (s.proc i).ident.agentType ≠ agentTypeNormal) (ino : Ino) (path : List UInt8) :
    ∃ t, accessMachine.next s (.watchFile i (some ino) path) = some t ∧
      (t.proc i).fileWatch = some ino := by
  refine ⟨_, if_pos hlive, ?_⟩
  show (((s.kernel.setProc i _).procs i)).fileWatch = _
  rw [Kernel.setProc_self]
  have hbit : ∀ w : BitVec 32, (w ||| agentWatchFilemod) &&& agentWatchFilemod ≠ 0 := by
    intro w hz
    have h2 := congrArg (fun x => BitVec.getLsbD x 2) hz
    simp [agentWatchFilemod, agentEventFilemod] at h2
  have hready : ∀ l : Loop, l.ready.watchMask = l.watchMask ∧
      l.ready.agentWatchDev = l.agentWatchDev ∧ l.ready.agentWatchInum = l.agentWatchInum := by
    intro l
    unfold Loop.ready
    split <;> exact ⟨rfl, rfl, rfl⟩
  unfold agentProcWatchFile
  rw [if_neg hp]
  simp only [Proc.fileWatch, hready]
  rw [if_neg (hbit _)]

/-! ### Runs -/

/-- What a process has had, its mask contained at some point of the run. -/
theorem had_held {tr : List AccessLabel} (h : accessMachine.Reach always tr s) {c : BitVec 64}
    (hi : (s.proc i).state ≠ .unused) (hc : s.had i &&& c ≠ 0) :
    ∃ tr₁ tr₂ u, tr = tr₁ ++ tr₂ ∧ accessMachine.Reach always tr₁ u ∧
      accessMachine.Path always u tr₂ s ∧ (u.proc i).pid = (s.proc i).pid ∧
      (u.proc i).ident.agentCapabilities &&& c ≠ 0 := by
  obtain ⟨s₀, hinit, hp⟩ := h
  induction hp with
  | nil =>
    rw [hinit.2.2.1 i] at hc
    exact absurd (by simp) hc
  | @snoc t u tr a hp ha hn ih =>
    have hreach : accessMachine.Reach always (tr ++ [a]) u := ⟨s₀, hinit, hp.snoc ha hn⟩
    -- either the new mask has the bit, or the process had it before
    by_cases hm : (u.proc i).ident.agentCapabilities &&& c ≠ 0
    · exact ⟨tr ++ [a], [], u, by simp, hreach, Path.nil u, rfl, hm⟩
    have hold : (t.proc i).state ≠ .unused ∧ (u.proc i).pid = (t.proc i).pid ∧
        t.had i &&& c ≠ 0 := by
      by_cases hcall : ∃ l, a = .call l
      · obtain ⟨l, rfl⟩ := hcall
        obtain ⟨k', hk, rfl⟩ := Option.map_eq_some_iff.1 hn
        simp only [AccessState.follow] at hc
        rcases follow_slot hk hi with ⟨hb, hs, hpid, -⟩ | ⟨hb, -⟩
        · rw [if_neg hb] at hc
          exact ⟨hs, hpid, (or_has.1 hc).resolve_right hm⟩
        · rw [if_pos hb] at hc
          exact absurd hc hm
      · have hs := accessNext_served hn fun l hl => hcall ⟨l, hl⟩
        rw [hs.had] at hc
        rw [hs.state] at hi
        exact ⟨hi, hs.pid i, hc⟩
    obtain ⟨tr₁, tr₂, v, rfl, hv, hpath, hpid, hcap⟩ := ih hold.1 hold.2.2
    exact ⟨tr₁, tr₂ ++ [a], v, by simp, hv, hpath.snoc ha hn, hpid.trans hold.2.1.symm, hcap⟩

/-- **What capabilities guard.** In every state of every run, the owner of a lease has had
`LEASE_ACQUIRE`, whichever door it took, and who received a listing from the Tool Router has had
`QUERY_PROCESS`. No step but its own `agent_create`, or as an Agent its own
`agent_priority_set` and `agent_sched_set`, changes the scheduling parameters of a process; none but
its own `agent_watch` and `agent_watch_file`, as an Agent, gives it a file watch. Of these,
`agent_sched_set` and `agent_watch_file` serve every Agent, whatever its mask. -/
theorem access_mediated {tr : List AccessLabel} (h : accessMachine.Reach always tr s) :
    (∀ i, s.OwnsLease i → s.had i &&& agentCapLeaseAcquire ≠ 0) ∧
    (∀ i, ∀ x ∈ s.told i, x.door = .router → s.had i &&& agentCapQueryProcess ≠ 0) ∧
    (∀ a t i, accessMachine.next s a = some t → (s.proc i).live → (t.proc i).live →
      ((t.proc i).schedParams ≠ (s.proc i).schedParams →
        (∃ l, a = .call l ∧ l.creator = some i) ∨
        ((s.proc i).ident.agentType ≠ agentTypeNormal ∧
          ((∃ priority, a = .prioritySet i priority) ∨
            ∃ priority quota now, a = .schedSet i priority quota now))) ∧
      ((t.proc i).fileWatch ≠ none → (t.proc i).fileWatch ≠ (s.proc i).fileWatch →
        (s.proc i).ident.agentType ≠ agentTypeNormal ∧
        ((∃ mask, a = .watch i mask) ∨ ∃ ino path, a = .watchFile i (some ino) path))) ∧
    ∀ i, (s.proc i).live → (s.proc i).ident.agentType ≠ agentTypeNormal →
      (∀ priority quota now, agentSchedPriorityMin ≤ priority ∧ priority ≤ agentSchedPriorityMax →
        agentSchedQuotaMin ≤ quota ∧ quota ≤ agentSchedQuotaMax →
        ∃ t, accessMachine.next s (.schedSet i priority quota now) = some t ∧
          (t.proc i).schedParams = ((s.proc i).ident.agentPriority, priority, quota)) ∧
      ∀ ino path, ∃ t, accessMachine.next s (.watchFile i (some ino) path) = some t ∧
        (t.proc i).fileWatch = some ino := by
  have hinv := accessInv_reach h
  refine ⟨fun i hown => ?_, hinv.told, fun a t i hn hs ht => ?_, fun i hlive hp => ?_⟩
  · obtain ⟨hlive, slot, hu, ho⟩ := hown
    have hpid : (s.leases slot).ownerPid = (s.proc i).pid := congrArg Prod.fst ho
    exact hinv.owners slot hu i hlive.1 hpid.symm
  · exact ⟨accessNext_params hn hs ht, accessNext_watch hn hs ht⟩
  · exact ⟨fun _ _ now hpr hq => schedSet_agent hlive hp hpr hq now, watchFile_agent hlive hp⟩

/-- At boot, with `init` alone. -/
def bootedAccess : AccessState := ⟨initOnly, fun _ => 0, fun _ => []⟩

theorem bootedAccess_init : accessMachine.init bootedAccess := by
  refine ⟨⟨0, rfl, fun j hj => ?_, rfl, by decide, rfl⟩, rfl, fun _ => rfl, fun _ => rfl⟩
  simp [bootedAccess, initOnly, Kernel.setProc_procs, hj, Kernel.boot]

/-- `init` makes itself a Primary, forks into slot 1, takes a lease and asks for the Agents. -/
def planning : List AccessLabel :=
  [.call (.create 0 agentTypePrimary 0 0 true 0 0), .call (.fork 0 1 true),
    .leaseBegin 0 (some (1, 5)) 0,
    .tool 0 (lit "query_agent") [] ⟨Runtime.init, fun _ => [], none, true, 0⟩]

def planned : AccessState := (accessMachine.run bootedAccess planning).getD bootedAccess

theorem planned_reach : accessMachine.Reach always planning planned :=
  ⟨_, bootedAccess_init, path_getD (by decide +kernel)⟩

theorem access_mediated_planned :
    (planned.OwnsLease 0 ∧ planned.had 0 &&& agentCapLeaseAcquire ≠ 0) ∧
    ∃ x ∈ planned.told 0, x.door = .router ∧ planned.had 0 &&& agentCapQueryProcess ≠ 0 :=
  have hend : planned.OwnsLease 0 ∧ ∃ x ∈ planned.told 0, x.door = .router := by decide +kernel
  ⟨⟨hend.1, (access_mediated planned_reach).1 0 hend.1⟩,
    hend.2.imp fun x hx => ⟨hx.1, hx.2, (access_mediated planned_reach).2.1 0 x hx.1 hx.2⟩⟩

/-- What the child in slot 1 then does. -/
def childActs : List AccessLabel :=
  [.schedSet 1 8 8 0, .watchFile 1 (some (1, 7)) (lit "log"), .queryAgent 1 (-1) (-1) (-1) 512]

/-- What it is told. -/
def childTold : List UInt8 :=
  lit ("\x7bagents=[\x7bpid=1,type=1,role=0,caps=2047,group=1,state=1\x7d," ++
    "\x7bpid=2,type=1,role=18446744073709551615,caps=0,group=1,state=1\x7d],count=2\x7d")

/-- **An Agent that never had a capability** sets its scheduling parameters, watches a file and
receives the list of Agents, each by a system call. -/
theorem unguarded_child : ∃ s tr t, accessMachine.Reach always planning s ∧
    accessMachine.Path always s tr t ∧
    t.had 1 = 0 ∧ (s.proc 1).live ∧ (t.proc 1).live ∧ (t.proc 1).pid = (s.proc 1).pid ∧
    (s.proc 1).ident.agentType ≠ agentTypeNormal ∧
    (t.proc 1).schedParams ≠ (s.proc 1).schedParams ∧
    (s.proc 1).fileWatch = none ∧ (t.proc 1).fileWatch = some (1, 7) ∧
    s.told 1 = [] ∧ t.told 1 = [⟨.direct, childTold⟩] :=
  ⟨planned, childActs, (accessMachine.run planned childActs).getD planned, planned_reach,
    path_getD (by decide +kernel), by decide +kernel⟩

end AgentOS
