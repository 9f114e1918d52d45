import AgentOS.Model.Access
import AgentOS.Model.Create
import AgentOS.Model.Sched

/-!
# Which process runs next

The score of a runnable process is what its fields give (`scoreFields`) plus its aging, from 0 to 20,
while that is an `int` (`ScoreFits`, `agentScheduleInt_eq`). `scheduler` picks a process whose score
nobody exceeds (`schedulerPick_max`).

The priority of `agent_sched_set` counts only above the older `agent_priority`, which
`agent_create` leaves at its default (`schedSet_raises_score`). Waiting adds at most 20, so it
decides between two processes only if their fields lie closer than that (`aging_overcomes`).
-/

namespace AgentOS

/-- The score without its aging. -/
def scoreFields (p : Proc) (now : ℕ) : ℤ :=
  scorePriority p * 10 +
    if p.ident.agentType = agentTypeNormal then 0
    else
      agentEventWeight p.loop.pendingEvents + p.sched.agentSchedBoost * 10 -
        vruntimePenalty p.sched - (if p.sched.agentSchedBudget ≤ 0 then agentBudgetPenaltyScore else 0) +
        deadlineBonus p.loop now

theorem agentScheduleScore_of_not_runnable {p : Proc} (hp : p.state ≠ .runnable) (now : ℕ) :
    agentScheduleScore p now = (p, -1) := by
  unfold agentScheduleScore
  rw [if_pos hp]

/-- **The score of a runnable process.** -/
theorem agentScheduleScore_eq {p : Proc} (hp : p.state = .runnable) (now : ℕ) :
    (agentScheduleScore p now).2 = scoreFields p now + scoreAging p.sched now := by
  unfold agentScheduleScore scoreFields
  rw [if_neg (not_not.mpr hp)]
  by_cases ht : p.ident.agentType = agentTypeNormal
  · simp only [if_pos ht]
    omega
  · simp only [if_neg ht]
    split <;> omega

/-! ### Aging -/

theorem scoreAging_nonneg (s : Sched) (now : ℕ) : 0 ≤ scoreAging s now := by
  unfold scoreAging agentAgingMax agentAgingDivisor
  dsimp only
  split <;> split <;> omega

theorem scoreAging_le (s : Sched) (now : ℕ) : scoreAging s now ≤ agentAgingMax := by
  unfold scoreAging
  dsimp only
  split <;> omega

/-- A process that has just become runnable has not aged, whether the scheduler has seen it or
not. -/
theorem scoreAging_now {s : Sched} {now : ℕ} (h : s.runnableSince = now ∨ s.runnableSince = 0) :
    scoreAging s now = 0 := by
  have hs : ¬ scoreSince s now < now := by
    unfold scoreSince
    split <;> [split <;> omega; omega]
  unfold scoreAging
  rw [if_neg hs]
  rfl

/-- A process that has waited a hundred ticks has aged as far as it can. -/
theorem scoreAging_full {s : Sched} {now w : ℕ} (hs : s.runnableSince = now - w) (hw : w < now)
    (h : 100 ≤ w) : scoreAging s now = agentAgingMax := by
  have hn : scoreSince s now = now - w := by
    unfold scoreSince
    rw [if_neg (by omega), hs]
  have hlt : now - w < now := by omega
  have h20 : agentAgingMax ≤ ((now - (now - w)) / agentAgingDivisor : ℕ) := by
    unfold agentAgingMax agentAgingDivisor
    omega
  unfold scoreAging
  simp only [hn, if_pos hlt]
  split <;> omega

/-! ### The loop of `scheduler` -/

/-- What the loop has found among the slots it has visited: the best of them, in the kernel `k` it
started from. -/
def BestOf (k : Kernel) (now : ℕ) (seen : List Slot) : Best → Prop
  | none => ∀ i ∈ seen, (k.procs i).state ≠ .runnable
  | some (best, score) =>
    (k.procs best).state = .runnable ∧ score = (agentScheduleScore (k.procs best) now).2 ∧
      best ∈ seen ∧
      ∀ i ∈ seen, (k.procs i).state = .runnable → (agentScheduleScore (k.procs i) now).2 ≤ score

/-- A turn at a slot that the loop has not visited. -/
theorem BestOf.visit {k : Kernel} {now : ℕ} {seen : List Slot} {s : Kernel × Best} {i : Slot}
    (h : BestOf k now seen s.2) (hk : s.1.procs i = k.procs i) :
    BestOf k now (seen ++ [i]) (schedulerVisit now s i).2 := by
  obtain ⟨k', best⟩ := s
  unfold schedulerVisit
  simp only at hk h ⊢
  rw [hk]
  by_cases hr : (k.procs i).state = .runnable
  · rw [if_pos hr]
    rcases best with _ | ⟨best, score⟩
    · refine ⟨hr, rfl, by simp, fun j hj hjr => ?_⟩
      rcases List.mem_append.mp hj with hj | hj
      · exact absurd hjr (h j hj)
      · rw [List.mem_singleton.mp hj]
    · obtain ⟨hbr, hs, hb, hmax⟩ := h
      dsimp only
      split
      · rename_i hlt
        refine ⟨hr, rfl, by simp, fun j hj hjr => ?_⟩
        rcases List.mem_append.mp hj with hj | hj
        · exact le_of_lt (lt_of_le_of_lt (hmax j hj hjr) hlt)
        · rw [List.mem_singleton.mp hj]
      · rename_i hle
        refine ⟨hbr, hs, by simp [hb], fun j hj hjr => ?_⟩
        rcases List.mem_append.mp hj with hj | hj
        · exact hmax j hj hjr
        · rw [List.mem_singleton.mp hj]
          exact not_lt.mp hle
  · rw [if_neg hr]
    rcases best with _ | ⟨best, score⟩
    · intro j hj
      rcases List.mem_append.mp hj with hj | hj
      · exact h j hj
      · rwa [List.mem_singleton.mp hj]
    · obtain ⟨hbr, hs, hb, hmax⟩ := h
      refine ⟨hbr, hs, by simp [hb], fun j hj hjr => ?_⟩
      rcases List.mem_append.mp hj with hj | hj
      · exact hmax j hj hjr
      · rw [List.mem_singleton.mp hj] at hjr
        exact absurd hjr hr

theorem schedulerVisit_procs (now : ℕ) (s : Kernel × Best) {i j : Slot} (h : j ≠ i) :
    (schedulerVisit now s i).1.procs j = s.1.procs j := by
  unfold schedulerVisit
  split
  · exact Kernel.setProc_ne _ _ _ _ h
  · rfl

/-- The loop over slots that it visits once each. -/
theorem BestOf.loop {k : Kernel} {now : ℕ} (todo : List Slot) {seen : List Slot} {s : Kernel × Best}
    (h : BestOf k now seen s.2) (hk : ∀ i ∈ todo, s.1.procs i = k.procs i) (hd : todo.Nodup) :
    BestOf k now (seen ++ todo) (todo.foldl (schedulerVisit now) s).2 := by
  induction todo generalizing seen s with
  | nil => simpa using h
  | cons i todo ih =>
    have hi : i ∉ todo := (List.nodup_cons.mp hd).1
    have hk' : ∀ j ∈ todo, (schedulerVisit now s i).1.procs j = k.procs j := by
      intro j hj
      have hne : j ≠ i := fun e => hi (e ▸ hj)
      rw [schedulerVisit_procs now s hne]
      exact hk j (List.mem_cons_of_mem _ hj)
    simpa using ih (h.visit (hk i (by simp))) hk' (List.nodup_cons.mp hd).2

/-- The loop from the start. -/
theorem exists_bestOf (k : Kernel) (now : ℕ) {todo : List Slot} (hd : todo.Nodup) :
    ∃ r, BestOf k now todo r ∧ (todo.foldl (schedulerVisit now) (k, none)).2 = r := by
  have h0 : BestOf k now [] (k, (none : Best)).2 := fun _ hi => absurd hi List.not_mem_nil
  have h := h0.loop todo (fun _ _ => rfl) hd
  rw [List.nil_append] at h
  exact ⟨_, h, rfl⟩

/-- What `schedulerPick` has found. -/
theorem bestOf_schedulerPick (k : Kernel) (now : ℕ) :
    ∃ r, BestOf k now (List.finRange nproc) r ∧ (schedulerPick k now).2 = r.map Prod.fst := by
  obtain ⟨r, hr, he⟩ := exists_bestOf k now (List.nodup_finRange nproc)
  refine ⟨r, hr, ?_⟩
  simp only [schedulerPick, he]

/-- **`scheduler` picks a runnable process whose score no other exceeds.** -/
theorem schedulerPick_max {k : Kernel} {now : ℕ} {best : Slot}
    (h : (schedulerPick k now).2 = some best) :
    (k.procs best).state = .runnable ∧
      ∀ i, (k.procs i).state = .runnable →
        (agentScheduleScore (k.procs i) now).2 ≤ (agentScheduleScore (k.procs best) now).2 := by
  obtain ⟨r, hr, he⟩ := bestOf_schedulerPick k now
  rw [he] at h
  obtain ⟨⟨i, score⟩, rfl, rfl⟩ := Option.map_eq_some_iff.mp h
  obtain ⟨hi, rfl, -, hmax⟩ := hr
  exact ⟨hi, fun j => hmax j (List.mem_finRange j)⟩

/-- It picks one whenever a process is runnable. -/
theorem schedulerPick_isSome {k : Kernel} {now : ℕ} {i : Slot}
    (hi : (k.procs i).state = .runnable) : (schedulerPick k now).2.isSome := by
  obtain ⟨r, hr, he⟩ := bestOf_schedulerPick k now
  rw [he]
  rcases r with _ | b
  · exact absurd hi (hr i (List.mem_finRange i))
  · rfl

/-- A process that some runnable process outscores does not run next. -/
theorem schedulerPick_ne {k : Kernel} {now : ℕ} {i j : Slot} (hi : (k.procs i).state = .runnable)
    (h : (agentScheduleScore (k.procs j) now).2 < (agentScheduleScore (k.procs i) now).2) :
    (schedulerPick k now).2 ≠ some j :=
  fun hj => absurd ((schedulerPick_max hj).2 i hi) (not_le.mpr h)

/-! ### The range of the score -/

theorem agentEventWeight_range (pending : BitVec 32) :
    0 ≤ agentEventWeight pending ∧ agentEventWeight pending ≤ 30 := by
  unfold agentEventWeight
  split_ifs <;> decide

theorem deadlineBonus_range (l : Loop) (now : ℕ) :
    0 ≤ deadlineBonus l now ∧ deadlineBonus l now ≤ 15 := by
  unfold deadlineBonus
  split <;> decide

theorem vruntimePenalty_range {s : Sched} (h : s.agentSchedVruntime < 2 ^ 33) :
    0 ≤ vruntimePenalty s ∧ vruntimePenalty s < 2 ^ 31 := by
  unfold vruntimePenalty agentVruntimeDivisor toInt32
  split <;> omega

/-- No signed addition of `agent_schedule_score` overflows, at any tick and for any aging. -/
def ScoreFits (p : Proc) : Prop :=
  ∀ now, -2 ^ 31 ≤ scoreFields p now ∧ scoreFields p now + agentAgingMax < 2 ^ 31

/-- The score is then the exact sum of the terms. -/
theorem agentScheduleInt_eq {p : Proc} (h : ScoreFits p) (now : ℕ) :
    agentScheduleInt p now = agentScheduleScore p now := by
  have hwhole : toInt32 (agentScheduleScore p now).2 = (agentScheduleScore p now).2 := by
    by_cases hr : p.state = .runnable
    · obtain ⟨hlow, hhigh⟩ := h now
      have h0 := scoreAging_nonneg p.sched now
      have h1 := scoreAging_le p.sched now
      rw [agentScheduleScore_eq hr]
      unfold toInt32
      omega
    · rw [agentScheduleScore_of_not_runnable hr]
      rfl
  unfold agentScheduleInt
  rw [hwhole]

/-- With the priorities and the boost that the kernel stores, nothing overflows before the virtual
runtime comes to `2 ^ 33`. -/
theorem scoreFits_of_fields {p : Proc} (hl : 0 ≤ p.ident.agentPriority)
    (hh : p.ident.agentPriority ≤ agentMaxPriority)
    (hs : agentSchedPriorityMin ≤ p.sched.agentSchedPriority)
    (hs' : p.sched.agentSchedPriority ≤ agentSchedPriorityMax)
    (hb : 0 ≤ p.sched.agentSchedBoost) (hb' : p.sched.agentSchedBoost ≤ 2)
    (hv : p.sched.agentSchedVruntime < 2 ^ 33) : ScoreFits p := by
  intro now
  have h2 := agentEventWeight_range p.loop.pendingEvents
  have h3 := deadlineBonus_range p.loop now
  have h4 := vruntimePenalty_range hv
  have h5 : 1 ≤ scorePriority p ∧ scorePriority p ≤ 10 := by
    unfold scorePriority agentDefaultPriority
    unfold agentMaxPriority at hh
    unfold agentSchedPriorityMin at hs
    unfold agentSchedPriorityMax at hs'
    split_ifs <;> omega
  unfold scoreFields agentBudgetPenaltyScore agentAgingMax
  split_ifs <;> omega

/-- At `2 ^ 33` the subtraction is one of `-2 ^ 31`, and the sum overflows. -/
example : ¬ ScoreFits { Proc.boot with
    ident.agentType := agentTypeWorker
    sched.agentSchedVruntime := 2 ^ 33 } := by
  intro h
  exact absurd (h 0).2 (by decide)

/-! ### The priority of `agent_sched_set` -/

/-- The same process with another scheduling priority. -/
def Proc.withSchedPriority (p : Proc) (priority : ℤ) : Proc :=
  { p with sched.agentSchedPriority := priority }

/-- `agent_proc_sched_set` accepts the priority for this process, which has it. -/
def SchedGiven (p : Proc) (priority : ℤ) : Prop :=
  p.sched.agentSchedPriority = priority ∧ ∃ quota now, (agentProcSchedSet p priority quota now).2 = 0

/-- What the call accepts. -/
theorem agentProcSchedSet_eq_zero {p : Proc} {priority quota : ℤ} {now : ℕ} :
    (agentProcSchedSet p priority quota now).2 = 0 ↔
      p.ident.agentType ≠ agentTypeNormal ∧
        (agentSchedPriorityMin ≤ priority ∧ priority ≤ agentSchedPriorityMax) ∧
          agentSchedQuotaMin ≤ quota ∧ quota ≤ agentSchedQuotaMax := by
  unfold agentProcSchedSet agentToolErrNotAgent
  split_ifs with ht hr hq
  · simp [ht]
  · simp only [reduceCtorEq, false_iff]
    omega
  · simp only [reduceCtorEq, false_iff]
    omega
  -- the budget is cut to the quota, or not
  · exact iff_of_true rfl ⟨ht, by omega, by omega⟩
  · exact iff_of_true rfl ⟨ht, by omega, by omega⟩

/-- The process has the priority that the call has accepted. -/
theorem agentProcSchedSet_given {p : Proc} {priority quota : ℤ} {now : ℕ}
    (h : (agentProcSchedSet p priority quota now).2 = 0) :
    SchedGiven (agentProcSchedSet p priority quota now).1 priority := by
  obtain ⟨ht, hr, hq⟩ := agentProcSchedSet_eq_zero.mp h
  have hr' : ¬ (priority < agentSchedPriorityMin ∨ agentSchedPriorityMax < priority) := by omega
  have hq' : ¬ (quota < agentSchedQuotaMin ∨ agentSchedQuotaMax < quota) := by omega
  unfold SchedGiven
  simp only [agentProcSchedSet_eq_zero]
  unfold agentProcSchedSet
  rw [if_neg ht, if_neg hr', if_neg hq']
  exact ⟨rfl, quota, now, ht, hr, hq⟩

theorem SchedGiven.agent {p : Proc} {priority : ℤ} (h : SchedGiven p priority) :
    p.ident.agentType ≠ agentTypeNormal := by
  obtain ⟨-, quota, now, h⟩ := h
  exact (agentProcSchedSet_eq_zero.mp h).1

/-- The priority that counts is the greater of the two. -/
theorem scorePriority_eq_max {p : Proc} (ht : p.ident.agentType ≠ agentTypeNormal) :
    scorePriority p = max p.ident.agentPriority p.sched.agentSchedPriority := by
  unfold scorePriority
  rw [if_neg ht]
  split <;> omega

/-- A new scheduling priority moves the score by what it changes in that maximum. -/
theorem score_withSchedPriority {p : Proc} (hr : p.state = .runnable)
    (ht : p.ident.agentType ≠ agentTypeNormal) (priority : ℤ) (now : ℕ) :
    (agentScheduleScore (p.withSchedPriority priority) now).2 =
      (agentScheduleScore p now).2 +
        (max p.ident.agentPriority priority -
          max p.ident.agentPriority p.sched.agentSchedPriority) * 10 := by
  have ht' : (p.withSchedPriority priority).ident.agentType ≠ agentTypeNormal := ht
  rw [agentScheduleScore_eq hr, agentScheduleScore_eq (p := p.withSchedPriority priority) hr]
  unfold scoreFields
  rw [scorePriority_eq_max ht, scorePriority_eq_max ht', if_neg ht, if_neg ht']
  simp only [Proc.withSchedPriority]
  unfold scoreAging scoreSince vruntimePenalty
  dsimp only
  omega

/-- **A greater scheduling priority raises the score exactly when it is above `agent_priority`**,
the older field that `agent_create` leaves at its default. -/
theorem schedSet_raises_score {p q : Proc} {a b : ℤ} (hr : p.state = .runnable)
    (hp : SchedGiven p a) (hq : q = p.withSchedPriority b) (hab : a < b) (hfits : ScoreFits p)
    (hfits' : ScoreFits q) (now : ℕ) :
    (agentScheduleInt p now).2 < (agentScheduleInt q now).2 ↔ p.ident.agentPriority < b := by
  rw [agentScheduleInt_eq hfits, agentScheduleInt_eq hfits', hq,
    score_withSchedPriority hr hp.agent b now, hp.1]
  omega

/-- A Worker that `agent_create` has just made, once it is runnable. -/
def createdWorker : Proc :=
  { Proc.boot with
    state := .runnable
    ident := markIdent Proc.boot agentTypeWorker 1
    sched := markSched Sched.init agentTypeWorker 0 }

/-- Its score does not overflow, whichever priority `agent_sched_set` gives it. -/
theorem scoreFits_createdWorker {priority : ℤ} (h : agentSchedPriorityMin ≤ priority)
    (h' : priority ≤ agentSchedPriorityMax) : ScoreFits (createdWorker.withSchedPriority priority) :=
  scoreFits_of_fields (show (0 : ℤ) ≤ 5 by decide) (show (5 : ℤ) ≤ 10 by decide) h h'
    (show (0 : ℤ) ≤ 0 by decide) (show (0 : ℤ) ≤ 2 by decide) (show 0 < 2 ^ 33 by decide)

/-- Two Workers with the priorities 2 and 4 have one score. -/
theorem schedSet_masked :
    ∃ p q : Proc, p.state = .runnable ∧ SchedGiven p 2 ∧ SchedGiven q 4 ∧
      q = p.withSchedPriority 4 ∧
      p.ident.agentPriority = (markIdent Proc.boot agentTypeWorker 1).agentPriority ∧
      ¬ (agentScheduleInt p 1).2 < (agentScheduleInt q 1).2 :=
  ⟨createdWorker.withSchedPriority 2, createdWorker.withSchedPriority 4, rfl,
    ⟨rfl, 1, 0, by decide⟩, ⟨rfl, 1, 0, by decide⟩, rfl, rfl, by decide⟩

/-- With 2 and 6 the second one is ahead. -/
theorem schedSet_raises_score_six :
    (agentScheduleInt (createdWorker.withSchedPriority 2) 1).2 <
      (agentScheduleInt (createdWorker.withSchedPriority 6) 1).2 :=
  (schedSet_raises_score (p := createdWorker.withSchedPriority 2) rfl ⟨rfl, 1, 0, by decide⟩ rfl
    (by decide) (scoreFits_createdWorker (by decide) (by decide))
    (scoreFits_createdWorker (by decide) (by decide)) 1).mpr (by decide)

/-! ### Waiting -/

/-- The process, runnable since `t`. -/
def Proc.runnableAt (p : Proc) (t : ℕ) : Proc := { p with sched.runnableSince := t }

/-- Since when it is runnable does not matter. -/
theorem ScoreFits.runnableAt {p : Proc} (h : ScoreFits p) (t : ℕ) : ScoreFits (p.runnableAt t) := h

/-- The score without aging, once the deadline has come. -/
def finalFields (p : Proc) : ℤ := scoreFields p p.loop.waitDeadline

theorem scoreFields_of_le {p : Proc} {now : ℕ} (h : p.loop.waitDeadline ≤ now) :
    scoreFields p now = finalFields p := by
  have hb : deadlineBonus p.loop now = deadlineBonus p.loop p.loop.waitDeadline := by
    unfold deadlineBonus
    have h1 : p.loop.waitDeadline ≤ now + 5 := by omega
    have h2 : p.loop.waitDeadline ≤ p.loop.waitDeadline + 5 := by omega
    simp only [h1, h2]
  unfold finalFields scoreFields
  rw [hb]

/-- A process that has just become runnable has the score of its fields. -/
theorem score_runnableAt_now {p : Proc} (hp : p.state = .runnable) (now : ℕ) :
    (agentScheduleScore (p.runnableAt now) now).2 = scoreFields p now := by
  have ha : scoreAging (p.runnableAt now).sched now = 0 := scoreAging_now (Or.inl rfl)
  rw [agentScheduleScore_eq (p := p.runnableAt now) hp, ha, Int.add_zero]
  rfl

/-- However long it has waited, it is at most 20 ahead of them. -/
theorem score_runnableAt_le {p : Proc} (hp : p.state = .runnable) (t now : ℕ) :
    (agentScheduleScore (p.runnableAt t) now).2 ≤ scoreFields p now + agentAgingMax := by
  rw [agentScheduleScore_eq (p := p.runnableAt t) hp]
  exact Int.add_le_add_left (scoreAging_le (p.runnableAt t).sched now) _

/-- After a hundred ticks it is. -/
theorem score_runnableAt_waited {p : Proc} (hp : p.state = .runnable) {now w : ℕ} (hw : w < now)
    (h : 100 ≤ w) :
    (agentScheduleScore (p.runnableAt (now - w)) now).2 = scoreFields p now + agentAgingMax := by
  have ha : scoreAging (p.runnableAt (now - w)).sched now = agentAgingMax :=
    scoreAging_full rfl hw h
  rw [agentScheduleScore_eq (p := p.runnableAt (now - w)) hp, ha]
  rfl

/-- **There is a waiting time after which `q` is ahead of a competitor that has just become runnable
exactly when the fields of `q` are less than 20 behind.** -/
theorem aging_overcomes {p q : Proc} (hp : p.state = .runnable) (hq : q.state = .runnable)
    (hfits : ScoreFits p) (hfits' : ScoreFits q) :
    (∃ w, ∀ now, w < now →
      (agentScheduleInt (p.runnableAt now) now).2 <
        (agentScheduleInt (q.runnableAt (now - w)) now).2) ↔
      finalFields p < finalFields q + agentAgingMax := by
  simp only [agentScheduleInt_eq (hfits.runnableAt _), agentScheduleInt_eq (hfits'.runnableAt _)]
  constructor
  · rintro ⟨w, hw⟩
    -- a tick at which both deadlines have come
    obtain ⟨now, hnow, hpd, hqd⟩ : ∃ now, w < now ∧ p.loop.waitDeadline ≤ now ∧
        q.loop.waitDeadline ≤ now :=
      ⟨w + p.loop.waitDeadline + q.loop.waitDeadline + 1, by omega, by omega, by omega⟩
    have hlt := hw now hnow
    have hle := score_runnableAt_le hq (now - w) now
    rw [score_runnableAt_now hp, scoreFields_of_le hpd] at hlt
    rw [scoreFields_of_le hqd] at hle
    exact lt_of_lt_of_le hlt hle
  · intro h
    refine ⟨100 + p.loop.waitDeadline + q.loop.waitDeadline, fun now hnow => ?_⟩
    rw [score_runnableAt_now hp, score_runnableAt_waited hq hnow (by omega),
      scoreFields_of_le (by omega), scoreFields_of_le (by omega)]
    exact h

/-- The same Worker after so many turns on the processor. -/
def workerAfter (turns : ℕ) : Proc := { createdWorker with sched.agentSchedVruntime := turns }

theorem scoreFits_workerAfter {turns : ℕ} (h : turns < 2 ^ 33) : ScoreFits (workerAfter turns) :=
  scoreFits_of_fields (show (0 : ℤ) ≤ 5 by decide) (show (5 : ℤ) ≤ 10 by decide)
    (show (1 : ℤ) ≤ 3 by decide) (show (3 : ℤ) ≤ 8 by decide) (show (0 : ℤ) ≤ 0 by decide)
    (show (0 : ℤ) ≤ 2 by decide) h

/-- A Worker that has run for a thousand turns never gets ahead of a new one. -/
theorem aging_capped :
    ∃ p q : Proc, p.state = .runnable ∧ q.state = .runnable ∧
      ¬ ∃ w, ∀ now, w < now →
        (agentScheduleInt (p.runnableAt now) now).2 <
          (agentScheduleInt (q.runnableAt (now - w)) now).2 := by
  refine ⟨workerAfter 0, workerAfter 1000, rfl, rfl, ?_⟩
  rintro ⟨w, hw⟩
  have hlt := hw (w + 1) (by omega)
  rw [agentScheduleInt_eq ((scoreFits_workerAfter (by decide)).runnableAt _),
    agentScheduleInt_eq ((scoreFits_workerAfter (by decide)).runnableAt _)] at hlt
  have hle := score_runnableAt_le (p := workerAfter 1000) rfl (w + 1 - w) (w + 1)
  rw [score_runnableAt_now rfl] at hlt
  have hp : scoreFields (workerAfter 0) (w + 1) = 50 := rfl
  have hq : scoreFields (workerAfter 1000) (w + 1) + agentAgingMax = -180 := rfl
  omega

/-- One that has run for ten turns does. -/
theorem aging_overcomes_worker :
    ∃ w, ∀ now, w < now →
      (agentScheduleInt ((workerAfter 0).runnableAt now) now).2 <
        (agentScheduleInt ((workerAfter 10).runnableAt (now - w)) now).2 :=
  (aging_overcomes (p := workerAfter 0) (q := workerAfter 10) rfl rfl
    (scoreFits_workerAfter (by decide)) (scoreFits_workerAfter (by decide))).mpr (by decide)

end AgentOS
