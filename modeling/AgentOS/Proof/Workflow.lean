import AgentOS.Lib.RefCount
import AgentOS.Model.Workflow

/-!
# The workflow table counts its members

* `Registry`: used records have distinct keys and are Active or Terminating; each counts
  the processes registered with its key, and each registered process has a record.
* `Registry.join`, `Registry.create`, `Registry.leave`, `Registry.beginTerminate`: the
  sections keep it.
* `Active`: an Active record exists. Only `agent_workflow_create_locked` makes one, where
  there was no record at all; `join_active`: a join succeeds on an Active record only.
-/

namespace AgentOS

open RefCount

/-- A table of workflows. -/
abbrev Workflows := Fin agentWorkflowMax → AgentWorkflow

/-- The workflow a process is registered with. -/
def Membership.held (m : Membership) : Option WorkflowKey :=
  if m.workflowMemberRegistered then some m.key else none

/-- **The table counts its members.** -/
structure Registry (f : Workflows) (held : Slot → Option WorkflowKey) : Prop where
  count : ∀ r, (f r).used = true → (f r).memberCount = holders held (f r).key
  state : ∀ r, (f r).used = true →
    (f r).state = agentWorkflowActive ∨ (f r).state = agentWorkflowTerminating
  inj : ∀ r r', (f r).used = true → (f r').used = true → (f r).key = (f r').key → r = r'
  found : ∀ j k, held j = some k → ∃ r, (f r).used = true ∧ (f r).key = k

/-- There is a record of the workflow. -/
def Recorded (f : Workflows) (k : WorkflowKey) : Prop := ∃ r, (f r).used = true ∧ (f r).key = k

/-- Its record is Active. -/
def Active (f : Workflows) (k : WorkflowKey) : Prop :=
  ∃ r, (f r).used = true ∧ (f r).key = k ∧ (f r).state = agentWorkflowActive

theorem terminating_ne_active : agentWorkflowTerminating ≠ agentWorkflowActive := by decide

section

variable {f : Workflows} {g : AgentGlobal} {held held' : Slot → Option WorkflowKey} {i : Slot}
  {r : Fin agentWorkflowMax} {w : AgentWorkflow} {k : WorkflowKey} {m : Membership}

theorem find_some (h : agentWorkflowFind g k = some r) :
    (g.workflows r).used = true ∧ (g.workflows r).key = k := by
  have hf := Table.first_some h
  simpa using hf

theorem find_none (h : agentWorkflowFind g k = none) : ¬ Recorded g.workflows k := by
  rintro ⟨r, hu, hk⟩
  have hf := Table.first_none.1 h r
  simp [hu, hk] at hf

/-- A registered party's record is counted. -/
theorem Registry.pos (h : Registry f held) (hi : held i = some k) (hu : (f r).used = true)
    (hk : (f r).key = k) : 0 < (f r).memberCount := by
  have hp := holders_pos hi
  rw [h.count r hu, hk]
  omega

/-! ### Writing one record -/

/-- A record is rewritten with the same key and the new count. -/
theorem Registry.rewrite (h : Registry f held) (hu : (f r).used = true) (hwu : w.used = true)
    (hwk : w.key = (f r).key)
    (hws : w.state = agentWorkflowActive ∨ w.state = agentWorkflowTerminating)
    (hc : w.memberCount = holders held' w.key)
    (hother : ∀ k, k ≠ w.key → holders held' k = holders held k)
    (hfound : ∀ j k, held' j = some k → k = w.key ∨ held j = some k) :
    Registry (Function.update f r w) held' := by
  have hslot : ∀ r', (Function.update f r w r').used = (f r').used ∧
      (Function.update f r w r').key = (f r').key := by
    intro r'
    by_cases hr : r' = r
    · subst hr; rw [Function.update_self]; exact ⟨hwu.trans hu.symm, hwk⟩
    · rw [Function.update_of_ne hr]; exact ⟨rfl, rfl⟩
  refine ⟨fun r' hu' => ?_, fun r' hu' => ?_, fun r₁ r₂ h₁ h₂ hk => ?_, fun j k hj => ?_⟩
  · by_cases hr : r' = r
    · subst hr; rw [Function.update_self]; exact hc
    · rw [Function.update_of_ne hr] at hu' ⊢
      rw [hother _ fun he => hr (h.inj _ _ hu' hu (he.trans hwk))]
      exact h.count r' hu'
  · by_cases hr : r' = r
    · subst hr; rw [Function.update_self]; exact hws
    · rw [Function.update_of_ne hr] at hu' ⊢; exact h.state r' hu'
  · rw [(hslot r₁).1] at h₁
    rw [(hslot r₂).1] at h₂
    rw [(hslot r₁).2, (hslot r₂).2] at hk
    exact h.inj _ _ h₁ h₂ hk
  · rcases hfound j k hj with rfl | hj
    · exact ⟨r, by rw [(hslot r).1]; exact hu, by rw [(hslot r).2, hwk]⟩
    · obtain ⟨r', hu', hk'⟩ := h.found j k hj
      exact ⟨r', by rw [(hslot r').1]; exact hu', by rw [(hslot r').2]; exact hk'⟩

/-- A first member's record is put in a free slot. -/
theorem Registry.insert (h : Registry f held) (hu : (f r).used = false) (hwu : w.used = true)
    (hn : ¬ Recorded f w.key) (hws : w.state = agentWorkflowActive) (hc : w.memberCount = 1)
    (hi : held i = none) :
    Registry (Function.update f r w) (Function.update held i (some w.key)) := by
  have hne : ∀ r', (f r').used = true → r' ≠ r ∧ (f r').key ≠ w.key := by
    intro r' hu'
    refine ⟨?_, fun hk => hn ⟨r', hu', hk⟩⟩
    rintro rfl
    rw [hu] at hu'; cases hu'
  have h0 : holders held w.key = 0 := by
    rw [holders_eq_zero]
    intro j hj
    exact hn (h.found j _ hj)
  refine ⟨fun r' hu' => ?_, fun r' hu' => ?_, fun r₁ r₂ h₁ h₂ hk => ?_, fun j k hj => ?_⟩
  · rw [holders_take hi]
    by_cases hr : r' = r
    · subst hr; rw [Function.update_self, h0, hc]; simp
    · rw [Function.update_of_ne hr] at hu' ⊢
      rw [if_neg (hne r' hu').2.symm, Nat.add_zero]
      exact h.count r' hu'
  · by_cases hr : r' = r
    · subst hr; rw [Function.update_self]; exact .inl hws
    · rw [Function.update_of_ne hr] at hu' ⊢; exact h.state r' hu'
  · by_cases hr₁ : r₁ = r <;> by_cases hr₂ : r₂ = r
    · rw [hr₁, hr₂]
    · subst hr₁
      rw [Function.update_self, Function.update_of_ne hr₂] at hk
      rw [Function.update_of_ne hr₂] at h₂
      exact absurd hk.symm (hne r₂ h₂).2
    · subst hr₂
      rw [Function.update_self, Function.update_of_ne hr₁] at hk
      rw [Function.update_of_ne hr₁] at h₁
      exact absurd hk (hne r₁ h₁).2
    · rw [Function.update_of_ne hr₁] at h₁ hk
      rw [Function.update_of_ne hr₂] at h₂ hk
      exact h.inj _ _ h₁ h₂ hk
  · by_cases hji : j = i
    · subst hji
      rw [Function.update_self, Option.some.injEq] at hj
      exact ⟨r, by rw [Function.update_self]; exact ⟨hwu, hj⟩⟩
    · rw [Function.update_of_ne hji] at hj
      obtain ⟨r', hu', hk'⟩ := h.found j k hj
      exact ⟨r', by rw [Function.update_of_ne (hne r' hu').1]; exact ⟨hu', hk'⟩⟩

/-- The record of the last member is cleared. -/
theorem Registry.erase (h : Registry f held) (hu : (f r).used = true) (hi : held i = some (f r).key)
    (hc : (f r).memberCount = 1) :
    Registry (Function.update f r AgentWorkflow.zero) (Function.update held i none) := by
  have h1 : holders held (f r).key = 1 := by
    have := h.count r hu
    omega
  have hne : ∀ r', (Function.update f r AgentWorkflow.zero r').used = true → r' ≠ r := by
    rintro r' hu' rfl
    rw [Function.update_self] at hu'; cases hu'
  have hother : ∀ k, k ≠ (f r).key → holders (Function.update held i none) k = holders held k := by
    intro k hk
    have hd : holders (Function.update held i none) k + _ = _ := holders_drop hi
    rwa [if_neg (Ne.symm hk), Nat.add_zero] at hd
  refine ⟨fun r' hu' => ?_, fun r' hu' => ?_, fun r₁ r₂ h₁ h₂ hk => ?_, fun j k hj => ?_⟩
  · have hr := hne r' hu'
    rw [Function.update_of_ne hr] at hu' ⊢
    rw [hother _ fun he => hr (h.inj _ _ hu' hu he)]
    exact h.count r' hu'
  · have hr := hne r' hu'
    rw [Function.update_of_ne hr] at hu' ⊢
    exact h.state r' hu'
  · have hr₁ := hne r₁ h₁
    have hr₂ := hne r₂ h₂
    rw [Function.update_of_ne hr₁] at h₁ hk
    rw [Function.update_of_ne hr₂] at h₂ hk
    exact h.inj _ _ h₁ h₂ hk
  · have hji : j ≠ i := by
      rintro rfl
      rw [Function.update_self] at hj; cases hj
    rw [Function.update_of_ne hji] at hj
    obtain ⟨r', hu', hk'⟩ := h.found j k hj
    have hr : r' ≠ r := by
      rintro rfl
      exact hji (holders_eq_one hi h1 (hk' ▸ hj))
    exact ⟨r', by rw [Function.update_of_ne hr]; exact ⟨hu', hk'⟩⟩

/-- One more member of a record. -/
theorem Registry.more (h : Registry f held) (hi : held i = none) (hu : (f r).used = true)
    (hwu : w.used = true) (hwk : w.key = (f r).key) (hws : w.state = (f r).state)
    (hc : w.memberCount = (f r).memberCount + 1) :
    Registry (Function.update f r w) (Function.update held i (some (f r).key)) := by
  refine h.rewrite hu hwu hwk (by rw [hws]; exact h.state r hu) ?_ ?_ ?_
  · rw [holders_take hi, hwk, if_pos rfl, hc, h.count r hu]
    push_cast; rfl
  · intro k hk
    rw [holders_take hi, if_neg (by rw [← hwk]; exact hk.symm), Nat.add_zero]
  · intro j k hj
    by_cases hji : j = i
    · subst hji
      rw [Function.update_self, Option.some.injEq] at hj
      exact .inl (hj.symm.trans hwk.symm)
    · rw [Function.update_of_ne hji] at hj; exact .inr hj

/-! ### The sections -/

/-- A join either changes nothing or finds an Active record and is counted in it. -/
theorem join_cases (h : Registry g.workflows held) (ho : ¬ m.outside) (hi : held i = none) :
    ((agentWorkflowJoin g m).2 ≠ agentToolOk ∧ (agentWorkflowJoin g m).1 = g) ∨
    ((agentWorkflowJoin g m).2 = agentToolOk ∧ Active g.workflows m.key ∧
      (∀ k, Active (agentWorkflowJoin g m).1.workflows k → Active g.workflows k) ∧
      Registry (agentWorkflowJoin g m).1.workflows (Function.update held i (some m.key))) := by
  unfold agentWorkflowJoin
  rw [if_neg ho]
  cases hf : agentWorkflowFind g m.key with
  | none => exact .inl ⟨show agentToolErrServiceGone ≠ agentToolOk by decide, rfl⟩
  | some r =>
    obtain ⟨hu, hk⟩ := find_some hf
    dsimp only
    split
    · exact .inl ⟨show agentToolErrBusy ≠ agentToolOk by decide, rfl⟩
    rename_i hs
    split
    · exact .inl ⟨show agentToolErrNoSpace ≠ agentToolOk by decide, rfl⟩
    have ha : (g.workflows r).state = agentWorkflowActive := (h.state r hu).resolve_right hs
    refine .inr ⟨rfl, ⟨r, hu, hk, ha⟩, ?_, ?_⟩
    · rintro k ⟨r', hu', hk', ha'⟩
      rw [AgentGlobal.setWorkflow_workflows] at hu' hk' ha'
      by_cases hr : r' = r
      · subst hr
        rw [Function.update_self] at hk'
        exact ⟨r', hu, hk', ha⟩
      · rw [Function.update_of_ne hr] at hu' hk' ha'
        exact ⟨r', hu', hk', ha'⟩
    · rw [← hk]
      exact h.more hi hu hu rfl rfl rfl

/-- A create either changes nothing, or is counted in an Active record, new only where there
was none. -/
theorem create_cases (h : Registry g.workflows held) (hi : held i = none) :
    ((agentWorkflowCreate g m).2 ≠ agentToolOk ∧ (agentWorkflowCreate g m).1 = g) ∨
    ((agentWorkflowCreate g m).2 = agentToolOk ∧
      (∀ k, Active (agentWorkflowCreate g m).1.workflows k → Active g.workflows k ∨
        (k = m.key ∧ ¬ Recorded g.workflows k)) ∧
      Registry (agentWorkflowCreate g m).1.workflows (Function.update held i (some m.key))) := by
  unfold agentWorkflowCreate
  cases hf : agentWorkflowFind g m.key with
  | some r =>
    obtain ⟨hu, hk⟩ := find_some hf
    dsimp only
    split
    · exact .inl ⟨show agentToolErrBusy ≠ agentToolOk by decide, rfl⟩
    rename_i hs
    have ha : (g.workflows r).state = agentWorkflowActive := (h.state r hu).resolve_right hs
    refine .inr ⟨rfl, ?_, ?_⟩
    · rintro k ⟨r', hu', hk', ha'⟩
      rw [AgentGlobal.setWorkflow_workflows] at hu' hk' ha'
      by_cases hr : r' = r
      · subst hr
        rw [Function.update_self] at hk'
        exact .inl ⟨r', hu, hk', ha⟩
      · rw [Function.update_of_ne hr] at hu' hk' ha'
        exact .inl ⟨r', hu', hk', ha'⟩
    · rw [← hk]
      exact h.more hi hu hu rfl rfl rfl
  | none =>
    dsimp only
    cases hs : Table.first g.workflows fun w => !w.used with
    | none => exact .inl ⟨show agentToolErrNoSpace ≠ agentToolOk by decide, rfl⟩
    | some r =>
      have hu : (g.workflows r).used = false := by simpa using Table.first_some hs
      refine .inr ⟨rfl, ?_, ?_⟩
      · rintro k ⟨r', hu', hk', ha'⟩
        rw [AgentGlobal.setWorkflow_workflows] at hu' hk' ha'
        by_cases hr : r' = r
        · subst hr
          rw [Function.update_self] at hk'
          have hkm : k = m.key := hk'.symm
          exact .inr ⟨hkm, by rw [hkm]; exact find_none hf⟩
        · rw [Function.update_of_ne hr] at hu' hk' ha'
          exact .inl ⟨r', hu', hk', ha'⟩
      · exact h.insert hu rfl (find_none hf) rfl rfl hi

/-- A leave takes the process out of the count of its record, and makes no record Active. -/
theorem leave_cases (h : Registry g.workflows held) (hm : held i = m.held)
    (ho : m.workflowMemberRegistered = true → ¬ m.outside) :
    (agentWorkflowLeave g m).2 = { m with workflowMemberRegistered := false } ∧
      (∀ k, Active (agentWorkflowLeave g m).1.workflows k → Active g.workflows k) ∧
      Registry (agentWorkflowLeave g m).1.workflows (Function.update held i none) := by
  unfold agentWorkflowLeave
  by_cases hreg : m.workflowMemberRegistered = false
  · rw [if_pos (.inl hreg)]
    have hnone : held i = none := by rw [hm, Membership.held, hreg]; rfl
    refine ⟨?_, fun k hk => hk, ?_⟩
    · rw [← hreg]
    · rw [← hnone, Function.update_eq_self]; exact h
  have hreg' : m.workflowMemberRegistered = true := by simpa using hreg
  rw [if_neg (by rintro (hc | hc); exacts [hreg hc, ho hreg' hc])]
  have hk : held i = some m.key := by rw [hm, Membership.held, hreg']; rfl
  obtain ⟨r₀, hu₀, hk₀⟩ := h.found i _ hk
  cases hf : agentWorkflowFind g m.key with
  | none => exact absurd ⟨r₀, hu₀, hk₀⟩ (find_none hf)
  | some r =>
    obtain ⟨hu, hkr⟩ := find_some hf
    have hpos := h.pos hk hu hkr
    have hact : ∀ w : AgentWorkflow, (w.used = true → w.key = (g.workflows r).key ∧
        w.state = (g.workflows r).state) → ∀ k, Active (Function.update g.workflows r w) k →
        Active g.workflows k := by
      rintro w hw k ⟨r', hu', hk', ha'⟩
      by_cases hr : r' = r
      · subst hr
        rw [Function.update_self] at hu' hk' ha'
        exact ⟨r', hu, (hw hu').1 ▸ hk', (hw hu').2 ▸ ha'⟩
      · rw [Function.update_of_ne hr] at hu' hk' ha'
        exact ⟨r', hu', hk', ha'⟩
    dsimp only
    rw [if_pos hpos]
    split
    · rename_i hn
      refine ⟨rfl, hact _ (fun hu' => absurd hu' (by simp [AgentWorkflow.zero])), ?_⟩
      rw [AgentGlobal.setWorkflow_workflows]
      exact h.erase hu (hkr ▸ hk) (by omega)
    · refine ⟨rfl, hact _ fun _ => ⟨rfl, rfl⟩, ?_⟩
      rw [AgentGlobal.setWorkflow_workflows]
      have hd : ∀ k, holders (Function.update held i none) k + _ = holders held k := fun k =>
        holders_drop hk
      refine h.rewrite hu hu rfl (h.state r hu) ?_ ?_ ?_
      · have hdk := hd (g.workflows r).key
        rw [if_pos hkr.symm] at hdk
        have hcount := h.count r hu
        change (g.workflows r).memberCount - 1 = holders _ (g.workflows r).key
        omega
      · intro k hne
        have hdk := hd k
        rwa [if_neg (fun he => hne (he.symm.trans hkr.symm)), Nat.add_zero] at hdk
      · intro j k hj
        by_cases hji : j = i
        · subst hji; rw [Function.update_self] at hj; cases hj
        · rw [Function.update_of_ne hji] at hj; exact .inr hj

/-- After `agent_workflow_begin_terminate_locked` the workflow has no Active record, and it
always answers OK or SERVICE_GONE. -/
theorem beginTerminate_spec (h : Registry g.workflows held) (k : WorkflowKey) (now : ℕ) :
    ((agentWorkflowBeginTerminate g k now).2 = agentToolOk ∨
      (agentWorkflowBeginTerminate g k now).2 = agentToolErrServiceGone) ∧
      ¬ Active (agentWorkflowBeginTerminate g k now).1.workflows k ∧
      (∀ k', Active (agentWorkflowBeginTerminate g k now).1.workflows k' →
        Active g.workflows k') ∧
      Registry (agentWorkflowBeginTerminate g k now).1.workflows held := by
  unfold agentWorkflowBeginTerminate
  cases hf : agentWorkflowFind g k with
  | none =>
    refine ⟨.inr rfl, ?_, fun k' hk' => hk', h⟩
    rintro ⟨r, hu, hk, -⟩
    exact find_none hf ⟨r, hu, hk⟩
  | some r =>
    obtain ⟨hu, hk⟩ := find_some hf
    have honly : ∀ r', (g.workflows r').used = true → (g.workflows r').key = k → r' = r :=
      fun r' hu' hk' => h.inj _ _ hu' hu (hk'.trans hk.symm)
    dsimp only
    split
    · rename_i hs
      refine ⟨.inl rfl, ?_, fun k' hk' => hk', h⟩
      rintro ⟨r', hu', hk', ha'⟩
      rw [honly r' hu' hk', hs] at ha'
      exact terminating_ne_active ha'
    rename_i hs
    have ha := (h.state r hu).resolve_right hs
    rw [if_neg (not_not.2 ha)]
    refine ⟨.inl rfl, ?_, ?_, ?_⟩
    · rintro ⟨r', hu', hk', ha'⟩
      rw [AgentGlobal.setWorkflow_workflows] at hu' hk' ha'
      by_cases hr : r' = r
      · subst hr
        rw [Function.update_self] at ha'
        exact terminating_ne_active ha'
      · rw [Function.update_of_ne hr] at hu' hk'
        exact hr (honly r' hu' hk')
    · rintro k' ⟨r', hu', hk', ha'⟩
      rw [AgentGlobal.setWorkflow_workflows] at hu' hk' ha'
      by_cases hr : r' = r
      · subst hr
        rw [Function.update_self] at ha'
        exact absurd ha' terminating_ne_active
      · rw [Function.update_of_ne hr] at hu' hk' ha'
        exact ⟨r', hu', hk', ha'⟩
    · exact h.rewrite hu hu rfl (.inr rfl) (h.count r hu) (fun _ _ => rfl) fun _ _ hj => .inr hj

end

end AgentOS
