import AgentOS.Lib.Mask
import AgentOS.Model.Authority

/-!
# Capabilities do not grow behind the back of a role

* `callNext_cases`: all a step can do to the identity of a slot.
* `capSet_within`: `agent_cap_set` never adds a bit.
* `Bound`, `bound_path`: a bound on the identity of one process is kept until a call that
  may break it.
* **`no_escalation`**: a set role bounds the capabilities of a process until it calls
  `agent_create` again, and a forked process holds none until it creates itself or sets a
  role.
* `recreate_escalates`: a second `agent_create` lifts the bound.
-/

namespace AgentOS

open Machine

variable {k k' t : Kernel} {l : CallLabel} {i : Slot} {n : ℕ}

/-- The process that a label makes an Agent. -/
def CallLabel.creator : CallLabel → Option Slot
  | .create i .. => some i
  | _ => none

/-- The process whose capabilities a label grants anew. -/
def CallLabel.grantee : CallLabel → Option Slot
  | .create i .. => some i
  | .roleSet i _ => some i
  | _ => none

/-! ### One call -/

/-- **`agent_cap_set` never adds a bit.** -/
theorem capSet_within (p : Proc) (caps : BitVec 64) :
    Mask.Within (agentProcCapSet p caps).1.ident.agentCapabilities p.ident.agentCapabilities := by
  unfold agentProcCapSet
  split
  · exact Mask.Within.refl _
  split
  · exact Mask.Within.refl _
  split
  · exact Mask.Within.refl _
  · rename_i h
    simpa [Mask.Within] using h

theorem capSet_frame (p : Proc) (caps : BitVec 64) :
    (agentProcCapSet p caps).1.ident.agentRoleLocked = p.ident.agentRoleLocked ∧
      (agentProcCapSet p caps).1.pid = p.pid ∧ (agentProcCapSet p caps).1.state = p.state := by
  unfold agentProcCapSet
  split
  · exact ⟨rfl, rfl, rfl⟩
  split
  · exact ⟨rfl, rfl, rfl⟩
  split <;> exact ⟨rfl, rfl, rfl⟩

theorem roleSet_frame (p : Proc) (role : ℤ) :
    (agentProcRoleSet p role).1.pid = p.pid ∧ (agentProcRoleSet p role).1.state = p.state := by
  unfold agentProcRoleSet
  split
  · exact ⟨rfl, rfl⟩
  split
  · exact ⟨rfl, rfl⟩
  split <;> exact ⟨rfl, rfl⟩

/-- A locked role refuses every `agent_role_set`, which then changes nothing. -/
theorem roleSet_of_locked {p : Proc} (h : p.ident.agentRoleLocked = true) (role : ℤ) :
    (agentProcRoleSet p role).1 = p ∧ (agentProcRoleSet p role).2 ≠ agentToolOk := by
  unfold agentProcRoleSet
  split
  · exact ⟨rfl, show agentToolErrNotAgent ≠ agentToolOk by decide⟩
  split
  · exact ⟨rfl, show agentToolErrBadParam ≠ agentToolOk by decide⟩
  · exact ⟨rfl, show agentToolErrPermission ≠ agentToolOk by decide⟩

/-- An accepted `agent_role_set` locks the role and gives exactly its capabilities. -/
theorem roleSet_ok {p : Proc} {role : ℤ} (h : (agentProcRoleSet p role).2 = agentToolOk) :
    (agentProcRoleSet p role).1.ident.agentCapabilities = agentRoleDefaultCaps role ∧
      (agentProcRoleSet p role).1.ident.agentRoleLocked = true := by
  unfold agentProcRoleSet at h ⊢
  split at h
  · exact absurd h (show agentToolErrNotAgent ≠ agentToolOk by decide)
  split at h
  · exact absurd h (show agentToolErrBadParam ≠ agentToolOk by decide)
  split at h
  · exact absurd h (show agentToolErrPermission ≠ agentToolOk by decide)
  · rename_i h₁ h₂ h₃
    rw [if_neg h₁, if_neg h₂, if_neg h₃]
    exact ⟨rfl, rfl⟩

/-! ### One step -/

/-- What a step may do to slot `i`: nothing to its identity, one of the three calls, a
birth or a death. -/
inductive SlotChange (k : Kernel) (l : CallLabel) (i : Slot) (k' : Kernel) : Prop
  | same (hs : (k.procs i).state = .unused → (k'.procs i).state = .unused)
      (hp : (k'.procs i).pid = (k.procs i).pid) (hi : (k'.procs i).ident = (k.procs i).ident)
  | create (hl : l.creator = some i) (hs : (k'.procs i).state = (k.procs i).state)
      (hp : (k'.procs i).pid = (k.procs i).pid)
  | roleSet (role : ℤ) (hl : l = .roleSet i role)
      (hk : k'.procs i = (agentProcRoleSet (k.procs i) role).1)
  | capSet (caps : BitVec 64) (hk : k'.procs i = (agentProcCapSet (k.procs i) caps).1)
  | born (hp : (k'.procs i).pid = k.nextpid) (hn : k.nextpid < k'.nextpid)
      (hc : (k'.procs i).ident.agentCapabilities = 0)
  | freed (hs : (k'.procs i).state = .unused) (hp : (k'.procs i).pid = 0)

theorem SlotChange.of_eq (h : k'.procs i = k.procs i) : SlotChange k l i k' :=
  .same (by rw [h]; exact id) (by rw [h]) (by rw [h])

theorem markCurrent_frame {ty hb : ℤ} {q a b : ℕ} {u : Bool} (j : Slot)
    (h : k.markCurrent j ty hb q u a b = some k') :
    k'.nextpid = k.nextpid ∧ (k'.procs j).pid = (k.procs j).pid ∧
      (k'.procs j).state = (k.procs j).state ∧ ∀ i, i ≠ j → k'.procs i = k.procs i := by
  unfold Kernel.markCurrent at h
  dsimp only at h
  have hpid : (if (k.procs j).ctx.contextRegionStart = 0 then markRegion (k.procs j)
      else k.procs j).pid = (k.procs j).pid ∧
      (if (k.procs j).ctx.contextRegionStart = 0 then markRegion (k.procs j)
      else k.procs j).state = (k.procs j).state := by
    split <;> exact ⟨rfl, rfl⟩
  split at h
  · simp at h
  generalize (if (k.procs j).ctx.contextRegionStart = 0 then markRegion (k.procs j)
      else k.procs j) = p at h hpid
  split at h
  all_goals
    simp only [Option.some.injEq] at h
    subst h
    refine ⟨rfl, ?_, ?_, fun i hi => Kernel.setProc_ne _ _ _ _ hi⟩
    · simpa only [Kernel.setProc_self, markStores] using hpid.1
    · simpa only [Kernel.setProc_self, markStores] using hpid.2

/-- **All a step can do** to the identity of a slot. -/
theorem callNext_cases (h : k.callNext l = some k') (i : Slot) :
    k.nextpid ≤ k'.nextpid ∧ SlotChange k l i k' := by
  cases l with
  | create j ty hb q u a b =>
    simp only [Kernel.callNext] at h
    split at h
    · simp only [Option.some.injEq] at h
      cases hm : k.markCurrent j ty hb q u a b with
      | none =>
        rw [hm, Option.getD_none] at h
        subst h
        exact ⟨le_rfl, .same id rfl rfl⟩
      | some k₁ =>
        rw [hm, Option.getD_some] at h
        subst h
        obtain ⟨hn, hp, hs, hne⟩ := markCurrent_frame j hm
        refine ⟨hn.ge, ?_⟩
        by_cases hi : i = j
        · subst hi; exact .create rfl hs hp
        · exact .of_eq (hne i hi)
    · simp at h
  | roleSet j role =>
    simp only [Kernel.callNext] at h
    split at h
    · simp only [Option.some.injEq] at h
      subst h
      refine ⟨le_rfl, ?_⟩
      by_cases hi : i = j
      · subst hi; exact .roleSet role rfl (by simp)
      · exact .of_eq (Kernel.setProc_ne _ _ _ _ hi)
    · simp at h
  | capSet j caps =>
    simp only [Kernel.callNext] at h
    split at h
    · simp only [Option.some.injEq] at h
      subst h
      refine ⟨le_rfl, ?_⟩
      by_cases hi : i = j
      · subst hi; exact .capSet caps (by simp)
      · exact .of_eq (Kernel.setProc_ne _ _ _ _ hi)
    · simp at h
  | fork m j copied =>
    simp only [Kernel.callNext] at h
    split at h
    · simp only [Option.some.injEq] at h
      subst h
      unfold Kernel.forkInto
      dsimp only
      split
      · refine ⟨Nat.le_succ _, ?_⟩
        by_cases hi : i = j
        · subst hi
          exact .born (by simp [agentAfterFork, allocprocAt, agentInitProc]) (Nat.lt_succ_self _)
            (by simp [agentAfterFork, forkIdent])
        · exact .of_eq (Kernel.setProc_ne _ _ _ _ hi)
      · refine ⟨Nat.le_succ _, ?_⟩
        by_cases hi : i = j
        · subst hi; exact .freed (by simp [freeproc]) (by simp [freeproc, agentInitProc])
        · exact .of_eq (Kernel.setProc_ne _ _ _ _ hi)
    · simp at h
  | exec j | exit j =>
    simp only [Kernel.callNext] at h
    split at h
    · rename_i hlive
      simp only [Option.some.injEq] at h
      subst h
      refine ⟨le_rfl, ?_⟩
      by_cases hi : i = j
      · subst hi
        exact .same (fun hu => absurd hu hlive.1) (by simp [agentAfterExec])
          (by simp [agentAfterExec])
      · exact .of_eq (Kernel.setProc_ne _ _ _ _ hi)
    · simp at h
  | reap j =>
    simp only [Kernel.callNext] at h
    split at h
    · simp only [Option.some.injEq] at h
      subst h
      refine ⟨le_rfl, ?_⟩
      by_cases hi : i = j
      · subst hi; exact .freed (by simp [freeproc]) (by simp [freeproc, agentInitProc])
      · exact .of_eq (Kernel.setProc_ne _ _ _ _ hi)
    · simp at h
  | other j p =>
    simp only [Kernel.callNext] at h
    split at h
    · rename_i hlive
      simp only [Option.some.injEq] at h
      subst h
      refine ⟨le_rfl, ?_⟩
      by_cases hi : i = j
      · subst hi
        exact .same (fun hu => absurd hu hlive.1.1) (by simp) (by simp)
      · exact .of_eq (Kernel.setProc_ne _ _ _ _ hi)
    · simp at h

/-! ### Runs -/

/-- Pids lie below the counter, and a slot in use has one. -/
structure PidInv (k : Kernel) : Prop where
  pos : 0 < k.nextpid
  lt : ∀ i, (k.procs i).pid < k.nextpid
  used : ∀ i, (k.procs i).state ≠ .unused → 0 < (k.procs i).pid

theorem pidInv_step (k : Kernel) (l : CallLabel) (k' : Kernel) (h : PidInv k)
    (_ : always k l) (hn : callMachine.next k l = some k') : PidInv k' := by
  have hle := (callNext_cases hn 0).1
  have hpos := h.pos
  have hslot : ∀ i, (k'.procs i).pid < k'.nextpid ∧
      ((k'.procs i).state ≠ .unused → 0 < (k'.procs i).pid) := by
    intro i
    have hlt := h.lt i
    have hused := h.used i
    cases (callNext_cases hn i).2 with
    | same hs hp _ => rw [hp]; exact ⟨by omega, fun hu => hused fun hc => hu (hs hc)⟩
    | create _ hs hp => rw [hp, hs]; exact ⟨by omega, hused⟩
    | roleSet role _ hk =>
      rw [hk, (roleSet_frame _ _).1, (roleSet_frame _ _).2]; exact ⟨by omega, hused⟩
    | capSet caps hk =>
      rw [hk, (capSet_frame _ _).2.1, (capSet_frame _ _).2.2]; exact ⟨by omega, hused⟩
    | born hp hn' _ => rw [hp]; exact ⟨hn', fun _ => hpos⟩
    | freed hs hp => rw [hp]; exact ⟨by omega, fun hu => absurd hs hu⟩
  exact ⟨by omega, fun i => (hslot i).1, fun i => (hslot i).2⟩

theorem pidInv_reach {tr : List CallLabel} (h : callMachine.Reach always tr k) : PidInv k := by
  refine h.inv (fun k hi => ?_) pidInv_step
  obtain ⟨i, hn, hj, hp, -⟩ := hi
  refine ⟨by omega, fun j => ?_, fun j hu => ?_⟩
  · by_cases hji : j = i
    · subst hji; omega
    · rw [hj j hji, hn]; decide
  · by_cases hji : j = i
    · subst hji; omega
    · rw [hj j hji] at hu; exact absurd rfl hu

/-- The process with pid `n`, while it has slot `i`, has an identity in `Q`. -/
structure Bound (n : ℕ) (i : Slot) (Q : Ident → Prop) (k : Kernel) : Prop where
  pos : 0 < n
  lt : n < k.nextpid
  ident : (k.procs i).pid = n → Q (k.procs i).ident

/-- **A bound is kept along a path** if `agent_cap_set` keeps it and every step either keeps
it on a role call or makes no such call for the process. -/
theorem bound_path {Q : Ident → Prop} {ok : Kernel → CallLabel → Prop}
    (hcap : ∀ p caps, Q p.ident → Q (agentProcCapSet p caps).1.ident)
    (hcreate : ∀ u l, ok u l → l.creator = some i → (u.procs i).pid ≠ n)
    (hrole : ∀ u role, ok u (.roleSet i role) → (u.procs i).pid = n → Q (u.procs i).ident →
      Q (agentProcRoleSet (u.procs i) role).1.ident)
    {tr : List CallLabel} (h : callMachine.Path ok k tr t) (hb : Bound n i Q k) :
    Bound n i Q t := by
  refine h.inv (fun u l v hu hok hn => ?_) hb
  obtain ⟨hle, hc⟩ := callNext_cases hn i
  have hlt := hu.lt
  have hpos := hu.pos
  refine ⟨hpos, by omega, fun hv => ?_⟩
  cases hc with
  | same _ hp hi => rw [hi]; exact hu.ident (by omega)
  | create hl _ hp => exact absurd (hp ▸ hv) (hcreate u l hok hl)
  | roleSet role hl hk =>
    subst hl
    rw [hk, (roleSet_frame _ _).1] at hv
    rw [hk]; exact hrole u role hok hv (hu.ident hv)
  | capSet caps hk =>
    rw [hk, (capSet_frame _ _).2.1] at hv
    rw [hk]; exact hcap _ caps (hu.ident hv)
  | born hp _ _ => omega
  | freed _ hp => omega

/-- A successful `agent_role_set` bounds its caller. -/
theorem bound_of_roleSet {tr : List CallLabel} {role : ℤ} (h : callMachine.Reach always tr k)
    (hn : callMachine.next k (.roleSet i role) = some k')
    (hok : (agentProcRoleSet (k.procs i) role).2 = agentToolOk) :
    Bound (k.procs i).pid i (fun d => Mask.Within d.agentCapabilities (agentRoleDefaultCaps role) ∧
      d.agentRoleLocked = true) k' := by
  have hinv := pidInv_reach h
  have hinv' := pidInv_step _ _ _ hinv trivial hn
  simp only [callMachine, Kernel.callNext] at hn
  split at hn
  · rename_i hlive
    simp only [Option.some.injEq] at hn
    subst hn
    obtain ⟨hc, hl⟩ := roleSet_ok hok
    refine ⟨hinv.used i hlive.1, hinv.lt i, fun _ => ?_⟩
    rw [Kernel.setProc_self, hc]
    exact ⟨Mask.Within.refl _, hl⟩
  · simp at hn

/-- A fork gives its child no capability. -/
theorem bound_of_fork {tr : List CallLabel} {j : Slot} (h : callMachine.Reach always tr k)
    (hn : callMachine.next k (.fork i j true) = some k') :
    Bound (k'.procs j).pid j (fun d => d.agentCapabilities = 0) k' := by
  have hinv' := pidInv_step _ _ _ (pidInv_reach h) trivial hn
  simp only [callMachine, Kernel.callNext] at hn
  split at hn
  · simp only [Option.some.injEq] at hn
    subst hn
    refine ⟨hinv'.used j ?_, hinv'.lt j, fun _ => ?_⟩ <;>
      simp [Kernel.forkInto, agentAfterFork, forkIdent]
  · simp at hn

/-- **No escalation.** In every run, after `agent_role_set(role)` has answered OK for the process
in slot `i`, no state before its next `agent_create` gives it a bit outside the role's
default capabilities or lets it set a role again; a forked process holds no capability
before its own `agent_create` or `agent_role_set`; and `agent_cap_set` never adds a bit. -/
theorem no_escalation :
    (∀ tr k i role k', callMachine.Reach always tr k →
      callMachine.next k (.roleSet i role) = some k' →
      (agentProcRoleSet (k.procs i) role).2 = agentToolOk →
      ∀ tr' t, callMachine.Path (fun u l => l.creator = some i → (u.procs i).pid ≠ (k.procs i).pid)
        k' tr' t → (t.procs i).pid = (k.procs i).pid →
        Mask.Within (t.procs i).ident.agentCapabilities (agentRoleDefaultCaps role) ∧
        ∀ role', (agentProcRoleSet (t.procs i) role').2 ≠ agentToolOk) ∧
    (∀ tr k i j k', callMachine.Reach always tr k →
      callMachine.next k (.fork i j true) = some k' →
      ∀ tr' t, callMachine.Path (fun u l => l.grantee = some j → (u.procs j).pid ≠ (k'.procs j).pid)
        k' tr' t → (t.procs j).pid = (k'.procs j).pid →
        (t.procs j).ident.agentCapabilities = 0) ∧
    ∀ p caps, Mask.Within (agentProcCapSet p caps).1.ident.agentCapabilities
      p.ident.agentCapabilities := by
  refine ⟨fun tr k i role k' hr hn hok tr' t hp hpid => ?_,
    fun tr k i j k' hr hn tr' t hp hpid => ?_, capSet_within⟩
  · have hb := bound_path ?_ (fun u l hok => hok) ?_ hp (bound_of_roleSet hr hn hok)
    · obtain ⟨hw, hl⟩ := hb.ident hpid
      exact ⟨hw, fun role' => (roleSet_of_locked hl role').2⟩
    · rintro p caps ⟨hw, hl⟩
      exact ⟨(capSet_within p caps).trans hw, by rw [(capSet_frame p caps).1]; exact hl⟩
    · rintro u role' - - ⟨hw, hl⟩
      rw [(roleSet_of_locked hl role').1]
      exact ⟨hw, hl⟩
  · have hb := bound_path ?_ ?_ ?_ hp (bound_of_fork hr hn)
    · exact hb.ident hpid
    · intro p caps h0
      have hw := capSet_within p caps
      rw [h0] at hw
      exact Mask.within_zero.1 hw
    · intro u l hok hl
      refine hok ?_
      cases l <;> simp_all [CallLabel.creator, CallLabel.grantee]
    · intro u role hok hpid' _
      exact absurd hpid' (hok rfl)

/-- A table with `init` alone. -/
def initOnly : Kernel :=
  { Kernel.boot.setProc 0 { Proc.boot with pid := 1, state := .running } with nextpid := 2 }

/-- `init` after `agent_create(WORKER, 0, 0)`. -/
def workerOnly : Kernel :=
  (initOnly.callNext (.create 0 agentTypeWorker 0 0 true 0 0)).getD initOnly

/-- Then `agent_role_set(TOOL_SERVICE)`. -/
def serviceOnly : Kernel :=
  (workerOnly.callNext (.roleSet 0 agentRoleToolService)).getD initOnly

theorem workerOnly_reach :
    callMachine.Reach always [.create 0 agentTypeWorker 0 0 true 0 0] workerOnly := by
  refine ⟨initOnly, ⟨0, rfl, fun j hj => ?_, rfl, by decide, rfl⟩, path_of_run rfl⟩
  simp [initOnly, Kernel.setProc_procs, hj, Kernel.boot]

theorem serviceOnly_next :
    callMachine.next workerOnly (.roleSet 0 agentRoleToolService) = some serviceOnly := rfl

theorem serviceOnly_reach : callMachine.Reach always
    [.create 0 agentTypeWorker 0 0 true 0 0, .roleSet 0 agentRoleToolService] serviceOnly :=
  workerOnly_reach.snoc trivial serviceOnly_next

/-- Then `fork()` into slot 1. -/
def forkedService : Kernel := (serviceOnly.callNext (.fork 0 1 true)).getD serviceOnly

/-- The Tool-Service gives up all but messages, asks for another role and forks; the child makes
itself an Agent. -/
def serviceCalls : List CallLabel :=
  [.capSet 0 agentCapSendMessage, .roleSet 0 agentRolePlanner, .fork 0 1 true,
    .create 1 agentTypeWorker 0 0 true 0 0]

def serviceEnd : Kernel := (callMachine.run serviceOnly serviceCalls).getD serviceOnly

/-- A child asks for every capability, and executes a program. -/
def childCalls : List CallLabel := [.capSet 1 (-1), .roleSet 0 agentRolePlanner, .exec 1]

def childEnd : Kernel := (callMachine.run forkedService childCalls).getD forkedService

theorem no_escalation_service :
    (Mask.Within (serviceEnd.procs 0).ident.agentCapabilities
      (agentRoleDefaultCaps agentRoleToolService) ∧
    ∀ role', (agentProcRoleSet (serviceEnd.procs 0) role').2 ≠ agentToolOk) ∧
    (childEnd.procs 1).ident.agentCapabilities = 0 := by
  have hp : callMachine.Path
      (fun u l => l.creator = some 0 → (u.procs 0).pid ≠ (workerOnly.procs 0).pid) serviceOnly
      serviceCalls serviceEnd := pathOk_run_getD (by decide)
  have hp' : callMachine.Path
      (fun u l => l.grantee = some 1 → (u.procs 1).pid ≠ (forkedService.procs 1).pid) forkedService
      childCalls childEnd := pathOk_run_getD (by decide)
  exact ⟨no_escalation.1 _ workerOnly 0 agentRoleToolService serviceOnly workerOnly_reach
    serviceOnly_next (by decide) _ _ hp rfl,
    no_escalation.2.1 _ serviceOnly 0 1 forkedService serviceOnly_reach rfl _ _ hp' rfl⟩

/-- **A second `agent_create` escalates**: a worker that fixed its role as Tool-Service becomes
a Primary with every capability. -/
theorem recreate_escalates :
    ¬ ∀ tr k i role k', callMachine.Reach always tr k →
      callMachine.next k (.roleSet i role) = some k' →
      (agentProcRoleSet (k.procs i) role).2 = agentToolOk →
      ∀ tr' t, callMachine.Path always k' tr' t → (t.procs i).pid = (k.procs i).pid →
        Mask.Within (t.procs i).ident.agentCapabilities (agentRoleDefaultCaps role) := by
  intro h
  have hw := h _ workerOnly 0 agentRoleToolService serviceOnly workerOnly_reach serviceOnly_next
    (by decide) [.create 0 agentTypePrimary 0 0 true 0 0] _ (path_of_run rfl) (by decide)
  exact absurd hw (by decide)

end AgentOS
