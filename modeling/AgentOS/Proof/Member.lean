import AgentOS.Model.Member
import AgentOS.Proof.Cascade

/-!
# The workflow table follows its members

* `Manned`: a used record has a member; `recorded_kept`: only a leave frees a record.
* `MemberInv`: the count of a record is that of its members, who are the registered
  processes but for those that are about to clear their flag.
* **`members_counted`**; `flag_outlives_record`: a state between a leave and its store.
-/

namespace AgentOS

open Machine RefCount

/-! ### The table -/

/-- No used record is empty. -/
def Manned (f : Workflows) : Prop := ∀ r, (f r).used = true → 0 < (f r).memberCount

section

variable {f : Workflows} {g : AgentGlobal} {r : Fin agentWorkflowMax} {w : AgentWorkflow}
  {k : WorkflowKey} {m : Membership}

theorem Manned.update (h : Manned f) (hw : w.used = true → 0 < w.memberCount) :
    Manned (Function.update f r w) := by
  intro r' hu
  by_cases hr : r' = r
  · subst hr
    rw [Function.update_self] at hu ⊢
    exact hw hu
  · rw [Function.update_of_ne hr] at hu ⊢
    exact h r' hu

theorem Manned.create (h : Manned g.workflows) : Manned (agentWorkflowCreate g m).1.workflows := by
  unfold agentWorkflowCreate
  cases hf : agentWorkflowFind g m.key with
  | some i =>
    dsimp only
    split
    · exact h
    · have hpos := h i (find_some hf).1
      exact h.update fun _ => show 0 < (g.workflows i).memberCount + 1 by omega
  | none =>
    dsimp only
    split
    · exact h
    · exact h.update fun _ => show (0 : ℤ) < 1 by decide

theorem Manned.join (h : Manned g.workflows) : Manned (agentWorkflowJoin g m).1.workflows := by
  unfold agentWorkflowJoin
  split
  · exact h
  cases hf : agentWorkflowFind g m.key with
  | none => exact h
  | some i =>
    dsimp only
    split
    · exact h
    split
    · exact h
    · have hpos := h i (find_some hf).1
      exact h.update fun _ => show 0 < (g.workflows i).memberCount + 1 by omega

theorem Manned.beginTerminate (h : Manned g.workflows) (now : ℕ) :
    Manned (agentWorkflowBeginTerminate g k now).1.workflows := by
  unfold agentWorkflowBeginTerminate
  cases hf : agentWorkflowFind g k with
  | none => exact h
  | some i =>
    dsimp only
    split
    · exact h
    split
    · exact h
    · exact h.update fun hu => h i hu

theorem Manned.leave (h : Manned g.workflows) : Manned (agentWorkflowLeave g m).1.workflows := by
  unfold agentWorkflowLeave
  split
  · exact h
  cases hf : agentWorkflowFind g m.key with
  | none => exact h
  | some i =>
    have hpos := h i (find_some hf).1
    dsimp only
    rw [if_pos hpos]
    split
    · exact h.update fun hu => absurd hu (by simp [AgentWorkflow.zero])
    · rename_i hn
      exact h.update fun _ => not_le.1 hn

/-- A record is stored over one of the same workflow. -/
theorem recorded_update (h : Recorded f k) (hu : w.used = true)
    (hk : (f r).used = true → w.key = (f r).key) : Recorded (Function.update f r w) k := by
  obtain ⟨r', hu', hk'⟩ := h
  by_cases hr : r' = r
  · subst hr
    exact ⟨r', by rw [Function.update_self]; exact ⟨hu, (hk hu').trans hk'⟩⟩
  · exact ⟨r', by rw [Function.update_of_ne hr]; exact ⟨hu', hk'⟩⟩

theorem recorded_create (h : Recorded g.workflows k) :
    Recorded (agentWorkflowCreate g m).1.workflows k := by
  unfold agentWorkflowCreate
  cases hf : agentWorkflowFind g m.key with
  | some i =>
    dsimp only
    split
    · exact h
    · exact recorded_update h (find_some hf).1 fun _ => rfl
  | none =>
    dsimp only
    split
    · exact h
    · rename_i i hi
      have hfree : (g.workflows i).used = false := by simpa using Table.first_some hi
      exact recorded_update h rfl fun hu => absurd (hfree.symm.trans hu) (by decide)

theorem recorded_join (h : Recorded g.workflows k) :
    Recorded (agentWorkflowJoin g m).1.workflows k := by
  unfold agentWorkflowJoin
  split
  · exact h
  cases hf : agentWorkflowFind g m.key with
  | none => exact h
  | some i =>
    dsimp only
    split
    · exact h
    split
    · exact h
    · exact recorded_update h (find_some hf).1 fun _ => rfl

theorem recorded_beginTerminate {k' : WorkflowKey} (h : Recorded g.workflows k) (now : ℕ) :
    Recorded (agentWorkflowBeginTerminate g k' now).1.workflows k := by
  unfold agentWorkflowBeginTerminate
  cases hf : agentWorkflowFind g k' with
  | none => exact h
  | some i =>
    dsimp only
    split
    · exact h
    split
    · exact h
    · exact recorded_update h (find_some hf).1 fun _ => rfl

end

/-! ### The steps of the machine of workflows -/

section

variable {s t : CascadeState} {i j : Slot} {l : CascadeLabel} {k : WorkflowKey}

/-- What a step does to the workflow table: one of the four sections. -/
inductive TableStep (s t : CascadeState) (l : CascadeLabel) : Prop
  | same (h : t.workflows = s.workflows)
  | create (m : Membership)
      (h : t.workflows = (agentWorkflowCreate s.kernel.agentGlobal m).1.workflows)
  | join (m : Membership)
      (h : t.workflows = (agentWorkflowJoin s.kernel.agentGlobal m).1.workflows)
  | begin (k : WorkflowKey) (now : ℕ)
      (h : t.workflows = (agentWorkflowBeginTerminate s.kernel.agentGlobal k now).1.workflows)
  | leave (i : Slot) (m : Membership) (hl : l = .leave i)
      (h : t.workflows = (agentWorkflowLeave s.kernel.agentGlobal m).1.workflows)

theorem TableStep.manned (h : TableStep s t l) (hs : Manned s.workflows) : Manned t.workflows := by
  cases h with
  | same h => rw [h]; exact hs
  | create m h => rw [h]; exact hs.create
  | join m h => rw [h]; exact hs.join
  | begin k now h => rw [h]; exact hs.beginTerminate now
  | leave i m _ h => rw [h]; exact hs.leave

theorem TableStep.recorded (h : TableStep s t l) (hl : ∀ i, l ≠ .leave i)
    (hs : Recorded s.workflows k) : Recorded t.workflows k := by
  cases h with
  | same h => rw [h]; exact hs
  | create m h => rw [h]; exact recorded_create hs
  | join m h => rw [h]; exact recorded_join hs
  | begin k now h => rw [h]; exact recorded_beginTerminate hs now
  | leave i m hi => exact absurd hi (hl i)

theorem tableStep_of_next (hn : s.next l = some t) : TableStep s t l := by
  cases l with
  | mark i type hb quota u now now' =>
    simp only [CascadeState.next] at hn
    split at hn
    · split at hn
      · simp only [Option.some.injEq] at hn
        subst hn
        exact .same rfl
      · rename_i k hk
        simp only [Option.some.injEq] at hn
        subst hn
        exact .same (markCurrent_ident hk).1
    · cases hn
  | leave i =>
    simp only [CascadeState.next] at hn
    (repeat' split at hn) <;> simp only [Option.some.injEq, reduceCtorEq] at hn <;> subst hn
    · exact .leave i _ rfl rfl
    · exact .same rfl
    · exact .same rfl
    · exact .same rfl
    · exact .leave i _ rfl rfl
  | create i =>
    simp only [CascadeState.next] at hn
    (repeat' split at hn) <;> simp only [Option.some.injEq, reduceCtorEq] at hn <;> subst hn
    · exact .same rfl
    · exact .create _ rfl
  | join i =>
    simp only [CascadeState.next] at hn
    (repeat' split at hn) <;> simp only [Option.some.injEq, reduceCtorEq] at hn <;> subst hn
    · exact .join _ rfl
    · exact .join _ rfl
  | forkJoin i =>
    simp only [CascadeState.next] at hn
    split at hn
    · split at hn <;> simp only [Option.some.injEq] at hn <;> subst hn
      · exact .same rfl
      · exact .join _ rfl
    · cases hn
  | begin i =>
    simp only [CascadeState.next] at hn
    (repeat' split at hn) <;> simp only [Option.some.injEq, reduceCtorEq] at hn <;> subst hn <;>
      exact .begin _ _ rfl
  | _ =>
    simp only [CascadeState.next] at hn
    (repeat' split at hn) <;> simp only [Option.some.injEq, reduceCtorEq] at hn <;> subst hn <;>
      exact .same rfl

/-- A leave touches the record of its own process only. -/
theorem leave_proc (hn : s.next (.leave i) = some t) (hj : j ≠ i) : t.proc j = s.proc j := by
  simp only [CascadeState.next] at hn
  (repeat' split at hn) <;> simp only [Option.some.injEq, reduceCtorEq] at hn <;> subst hn <;>
    simp [CascadeState.setWf, CascadeState.markDone, CascadeState.setProc_ne, hj]

/-- A leave that takes the process out of the table is that of a Primary or of an exit. -/
theorem leave_calls (hn : s.next (.leave i) = some t)
    (hs : (s.proc i).wf.workflowMemberRegistered = true)
    (ht : (t.proc i).wf.workflowMemberRegistered = false) :
    (∃ type, t.calls i = .markId type) ∨ t.calls i = .exitZombie := by
  simp only [CascadeState.next] at hn
  split at hn
  · rename_i type hc
    split at hn
    · simp only [Option.some.injEq] at hn
      subst hn
      exact .inl ⟨type, Function.update_self ..⟩
    split at hn
    · simp only [Option.some.injEq] at hn
      subst hn
      exact .inl ⟨type, Function.update_self ..⟩
    split at hn
    · rename_i h0
      exact absurd (hs.symm.trans h0) (by decide)
    · simp only [Option.some.injEq] at hn
      subst hn
      simp [CascadeState.markDone, CascadeState.setWf, markContext, hs] at ht
  · simp only [Option.some.injEq] at hn
    subst hn
    exact .inr (Function.update_self ..)
  · cases hn

/-- A thread stands still while others run. -/
theorem calls_other (hI : ThreadInv s) (hn : s.next l = some t) (hl : l.thread ≠ some j)
    (hj : s.calls j ≠ .idle) : t.calls j = s.calls j := by
  have hgoto : ∀ (i : Slot) (c : Call), some i ≠ some j → Function.update s.calls i c j = s.calls j :=
    fun i c hi => Function.update_of_ne (fun he => hi (by rw [he])) ..
  cases l with
  | forkRun i =>
    simp only [CascadeState.next] at hn
    split at hn
    · rename_i k hc
      have hkj : j ≠ k := by
        rintro rfl
        exact hj (hI.idle i j (by rw [hc]; rfl))
      simp only [Option.some.injEq] at hn
      subst hn
      exact (Function.update_of_ne hkj ..).trans (hgoto _ _ hl)
    · cases hn
  | _ =>
    simp only [CascadeState.next] at hn
    (repeat' split at hn) <;> simp only [Option.some.injEq, reduceCtorEq] at hn <;> subst hn <;>
      first | rfl | exact hgoto _ _ hl

end

/-! ### The members -/

/-- **The invariant of the members.** -/
structure MemberInv (s : MemberState) : Prop where
  cascade : CascadeInv s.cascade
  manned : Manned s.cascade.workflows
  leaving : ∀ i, s.leaving i = true →
    (∃ type, s.cascade.calls i = .markId type) ∨ s.cascade.calls i = .exitZombie

section

variable {s t : MemberState} {i j : Slot} {l : MemberLabel} {k : WorkflowKey}
  {tr : List MemberLabel}

/-- The members are the processes registered in the table. -/
theorem MemberInv.member (h : MemberInv s) : s.Member j k ↔ s.cascade.held j = some k := by
  have hth := h.cascade.thread.thread j
  unfold MemberState.Member MemberState.registered CascadeState.held Membership.held
  cases hl : s.leaving j with
  | false => cases hr : (s.cascade.proc j).wf.workflowMemberRegistered <;> simp
  | true =>
    -- the flag of the model is cleared with the record
    have hr : (s.cascade.proc j).wf.workflowMemberRegistered = false := by
      rcases h.leaving j hl with ⟨type, hc⟩ | hc <;> rw [hc] at hth
      · exact hth.2.1
      · exact hth.2
    simp [hr]

theorem MemberInv.recorded (h : MemberInv s) :
    Recorded s.cascade.workflows k ↔ ∃ j, s.Member j k := by
  constructor
  · rintro ⟨r, hu, rfl⟩
    by_contra hno
    rw [not_exists] at hno
    have hcount := h.cascade.registry.count r hu
    have hpos := h.manned r hu
    have hzero : holders s.cascade.held (s.cascade.workflows r).key = 0 :=
      holders_eq_zero.2 fun j hj => hno j (h.member.2 hj)
    omega
  · rintro ⟨j, hj⟩
    exact h.cascade.registry.found j k (h.member.1 hj)

theorem memberInv_init (s : MemberState) (h : memberMachine.init s) : MemberInv s := by
  obtain ⟨hc, hl⟩ := h
  refine ⟨cascadeInv_init _ hc, fun r hu => ?_, fun i hi => ?_⟩
  · have hw : s.cascade.workflows r = AgentWorkflow.zero := by
      unfold CascadeState.workflows
      rw [hc.1]; rfl
    rw [hw] at hu
    cases hu
  · rw [hl i] at hi
    cases hi

theorem memberInv_step (s : MemberState) (l : MemberLabel) (t : MemberState) (h : MemberInv s)
    (_ : always s l) (hn : memberMachine.next s l = some t) : MemberInv t := by
  cases l with
  | clear i =>
    simp only [memberMachine, MemberState.next] at hn
    split at hn
    swap
    · cases hn
    simp only [Option.some.injEq] at hn
    subst hn
    refine ⟨h.cascade, h.manned, fun j hj => ?_⟩
    by_cases hji : j = i
    · subst hji
      simp at hj
    · exact h.leaving j (by simpa [Function.update_of_ne hji] using hj)
  | step l =>
    simp only [memberMachine, MemberState.next] at hn
    split at hn
    · cases hn
    rename_i hblock
    obtain ⟨v, hv, rfl⟩ := Option.map_eq_some_iff.1 hn
    refine ⟨cascadeInv_step _ _ _ h.cascade trivial hv, (tableStep_of_next hv).manned h.manned,
      fun j hj => ?_⟩
    -- who was leaving before has not moved
    have hold : s.leaving j = true →
        (∃ type, v.calls j = .markId type) ∨ v.calls j = .exitZombie := by
      intro hlj
      have hcall := h.leaving j hlj
      have hthread : l.thread ≠ some j := by
        intro he
        rw [he] at hblock
        exact hblock (by simpa using hlj)
      rw [calls_other h.cascade.thread hv hthread]
      · exact hcall
      · rcases hcall with ⟨type, hc⟩ | hc <;> rw [hc] <;> simp
    by_cases hl : l = .leave j
    · subst hl
      have hlj : s.leaving j = false := by simpa [CascadeLabel.thread] using hblock
      simp only [MemberState.leavingNext, Function.update_self, MemberState.registered, hlj,
        Bool.or_false, Bool.and_eq_true, Bool.not_eq_true'] at hj
      exact leave_calls hv hj.1 hj.2
    · refine hold ?_
      cases l with
      | leave i =>
        have hji : j ≠ i := by
          rintro rfl
          exact hl rfl
        simpa [MemberState.leavingNext, Function.update_of_ne hji] using hj
      | _ => exact hj

theorem memberInv_reach (h : memberMachine.Reach always tr s) : MemberInv s :=
  h.inv memberInv_init memberInv_step

/-- A record is freed by a leave, and that is the leave of its last member. -/
theorem freed_iff (h : MemberInv s) (hn : memberMachine.next s l = some t) :
    (Recorded s.cascade.workflows k ∧ ¬ Recorded t.cascade.workflows k) ↔
      ∃ i, l = .step (.leave i) ∧ s.Member i k ∧ (∀ j, s.Member j k → j = i) ∧
        ¬ t.Member i k := by
  have ht := memberInv_step s l t h trivial hn
  -- the leave of one process leaves the others members
  have hothers : ∀ i j, l = .step (.leave i) → j ≠ i → (t.Member j k ↔ s.Member j k) := by
    rintro i j rfl hji
    rw [ht.member, h.member]
    simp only [memberMachine, MemberState.next] at hn
    split at hn
    · cases hn
    obtain ⟨v, hv, rfl⟩ := Option.map_eq_some_iff.1 hn
    simp only [CascadeState.held, leave_proc hv hji]
  constructor
  · rintro ⟨hs, hgone⟩
    obtain ⟨i, rfl⟩ : ∃ i, l = .step (.leave i) := by
      by_contra hno
      rw [not_exists] at hno
      cases l with
      | clear i =>
        simp only [memberMachine, MemberState.next] at hn
        split at hn
        · simp only [Option.some.injEq] at hn
          subst hn
          exact hgone hs
        · cases hn
      | step l =>
        simp only [memberMachine, MemberState.next] at hn
        split at hn
        · cases hn
        obtain ⟨v, hv, rfl⟩ := Option.map_eq_some_iff.1 hn
        exact hgone ((tableStep_of_next hv).recorded (fun i he => hno i (by rw [he])) hs)
    have honly : ∀ j, s.Member j k → j = i := by
      intro j hj
      by_contra hji
      exact hgone (ht.recorded.2 ⟨j, (hothers i j rfl hji).2 hj⟩)
    obtain ⟨j, hj⟩ := h.recorded.1 hs
    obtain rfl := honly j hj
    exact ⟨j, rfl, hj, honly, fun hj' => hgone (ht.recorded.2 ⟨j, hj'⟩)⟩
  · rintro ⟨i, hl, hi, honly, hleft⟩
    refine ⟨h.recorded.2 ⟨i, hi⟩, fun hrec => ?_⟩
    obtain ⟨j, hj⟩ := ht.recorded.1 hrec
    by_cases hji : j = i
    · exact hleft (hji ▸ hj)
    · exact hji (honly j ((hothers i j hl hji).1 hj))

/-- **The workflow table follows its members**: records have distinct keys; each counts its
members, of whom there is one; each member has its record; and a record is freed by the
leave of its last member and by nothing else. -/
theorem members_counted (hr : memberMachine.Reach always tr s) :
    (∀ r r', (s.cascade.workflows r).used = true → (s.cascade.workflows r').used = true →
      (s.cascade.workflows r).key = (s.cascade.workflows r').key → r = r') ∧
    (∀ r, (s.cascade.workflows r).used = true →
      (s.cascade.workflows r).memberCount =
        (Finset.univ.filter fun j => s.Member j (s.cascade.workflows r).key).card ∧
      1 ≤ (s.cascade.workflows r).memberCount) ∧
    (∀ j k, s.Member j k → Recorded s.cascade.workflows k) ∧
    ∀ l t k, memberMachine.next s l = some t →
      ((Recorded s.cascade.workflows k ∧ ¬ Recorded t.cascade.workflows k) ↔
        ∃ i, l = .step (.leave i) ∧ s.Member i k ∧ (∀ j, s.Member j k → j = i) ∧
          ¬ t.Member i k) := by
  have h := memberInv_reach hr
  refine ⟨h.cascade.registry.inj, fun r hu => ⟨?_, ?_⟩, fun j k hj => h.recorded.2 ⟨j, hj⟩,
    fun l t k hn => freed_iff h hn⟩
  · rw [h.cascade.registry.count r hu]
    unfold holders
    simp only [← h.member]
  · have hpos := h.manned r hu
    omega

end

/-! ### Before the store -/

/-- `init` makes itself a worker, then a Primary, up to the end of the section of
`agent_workflow_leave`. -/
def workerLeaves : List MemberLabel :=
  [.step (.trap 0), .step (.mark 0 agentTypeWorker 0 0 true 0 0), .step (.leave 0),
    .step (.storeId 0), .step (.storeOwn 0), .step (.create 0),
    .step (.mark 0 agentTypePrimary 0 0 true 0 0), .step (.leave 0)]

def memberRuns : MemberState := ⟨initRuns, fun _ => false⟩

def memberAfter (l : List MemberLabel) : MemberState :=
  (memberMachine.run memberRuns l).getD memberRuns

theorem memberAfter_reach {l : List MemberLabel}
    (h : (memberMachine.run memberRuns l).isSome = true) :
    memberMachine.Reach always l (memberAfter l) :=
  ⟨memberRuns, ⟨initRuns_init, fun _ => rfl⟩, path_getD h⟩

/-- A Planner forks a worker, and the worker leaves; the store is still to come. -/
def workerGone : List MemberLabel :=
  (plannerSweeps.take 11).map .step ++ [.step (.trap 1), .step (.exit 1), .step (.leave 1)]

/-- The leave of the Planner frees the record: it is the last member. -/
theorem members_counted_worker :
    let s := memberAfter workerGone
    let t := memberAfter (workerGone ++ [.clear 1, .step (.exit 0), .step (.begin 0)])
    ((s.cascade.workflows 0).memberCount =
        (Finset.univ.filter fun j => s.Member j (s.cascade.workflows 0).key).card ∧
      1 ≤ (s.cascade.workflows 0).memberCount) ∧
    ∀ l u k, memberMachine.next t l = some u →
      ((Recorded t.cascade.workflows k ∧ ¬ Recorded u.cascade.workflows k) ↔
        ∃ i, l = .step (.leave i) ∧ t.Member i k ∧ (∀ j, t.Member j k → j = i) ∧
          ¬ u.Member i k) :=
  ⟨(members_counted (memberAfter_reach (by decide))).2.1 0 (by decide),
    (members_counted (memberAfter_reach (by decide))).2.2.2⟩

/-- **The flag outlives the record**: the record of the last member is freed while its process
is still flagged as registered. -/
theorem flag_outlives_record :
    ¬ ∀ tr s, memberMachine.Reach always tr s → ∀ j, s.registered j = true →
      Recorded s.cascade.workflows (s.cascade.proc j).wf.key := by
  intro h
  obtain ⟨r, hu, -⟩ := h _ _ (memberAfter_reach (l := workerLeaves) (by decide)) 0 (by decide)
  have hfree : ∀ r, ((memberAfter workerLeaves).cascade.workflows r).used = false := by decide
  exact absurd ((hfree r).symm.trans hu) (by decide)

end AgentOS
