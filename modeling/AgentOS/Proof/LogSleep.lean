import AgentOS.Proof.LogRoom

/-!
# Sleeping in `begin_op`

* `Awake`, `awake_step`: a process that sleeps has found the log in `commit` or short of room, and
  the log is empty when nobody uses it.
* **`log_sleepers`**: a process asleep in `begin_op` waits for another one that is in an operation
  or in `commit`, and that calls `wakeup` when it leaves.
-/

namespace AgentOS

open LogState Machine

variable {sb : Superblock} {s t : LogState} {σ : Journal} {w : LogWrite} {i j : Slot}
  {a : LogLabel}

/-- Process `j` is in the last write of `commit`, or behind it. -/
def LogState.Cleared (s : LogState) (j : Slot) : Prop :=
  s.calls j = .commit .clear ∨ s.calls j = .committed

/-- **Why processes sleep.** -/
structure Awake (s : LogState) : Prop where
  asleep : ∀ j, s.calls j = .asleep → s.committing = true ∨
    logsize < s.blocks.length + (s.outstanding + 1) * maxopblocks
  idle : s.committing = false → s.outstanding = 0 → s.blocks = []
  cleared : ∀ j, s.Cleared j → s.blocks = []

/-- A process moves outside of `commit`, without going to sleep. -/
theorem Awake.goto (h : Awake s) {c : LogCall} (hc : c.Quiet) (hs : c ≠ .asleep) :
    Awake (s.goto j c) := by
  refine ⟨fun i hi => ?_, h.idle, fun i hi => ?_⟩
  · by_cases hij : i = j
    · rw [hij, goto_calls] at hi
      exact (hs hi).elim
    · rw [goto_calls_ne _ hij] at hi
      exact h.asleep i hi
  · unfold Cleared at hi
    by_cases hij : i = j
    · rw [hij, goto_calls] at hi
      rcases hi with hi | hi
      · rw [hi] at hc
        exact hc.elim
      · rw [hi] at hc
        exact hc.elim
    · rw [goto_calls_ne _ hij] at hi
      exact h.cleared i hi

/-- No process is in `commit` while there is an operation. -/
theorem Refines.not_cleared (h : Refines sb s σ) (hr : s.phase = .running)
    (hj : (s.calls j).isOp = true) (i : Slot) : ¬ s.Cleared i := by
  intro hi
  have hno := h.not_op hr (j := i) (hi.imp_left fun hc => ⟨_, hc⟩) j
  rw [hj] at hno
  cases hno

theorem wakeup_not_asleep (i : Slot) : s.wakeup.calls i ≠ .asleep := by
  change (if s.calls i = .asleep then LogCall.begin else s.calls i) ≠ .asleep
  split
  · exact fun h => by cases h
  · exact ‹_›

theorem wakeup_cleared (hi : s.wakeup.Cleared i) : s.Cleared i := by
  unfold Cleared at hi ⊢
  change (if s.calls i = .asleep then LogCall.begin else s.calls i) = _ ∨
    (if s.calls i = .asleep then LogCall.begin else s.calls i) = _ at hi
  split at hi
  · rcases hi with hi | hi <;> cases hi
  · exact hi

/-- After `wakeup` nobody sleeps. -/
theorem Awake.of_wakeup (hidle : s.committing = false → s.outstanding = 0 → s.blocks = [])
    (hclear : ∀ i, i ≠ j → ¬ s.Cleared i) : Awake (s.wakeup.goto j .user) := by
  refine ⟨fun i hi => ?_, hidle, fun i hi => ?_⟩
  · by_cases hij : i = j
    · rw [hij, goto_calls] at hi
      cases hi
    · rw [goto_calls_ne _ hij] at hi
      exact (wakeup_not_asleep i hi).elim
  · unfold Cleared at hi
    by_cases hij : i = j
    · rw [hij, goto_calls] at hi
      rcases hi with hi | hi <;> cases hi
    · rw [goto_calls_ne _ hij] at hi
      exact (hclear i hij (wakeup_cleared hi)).elim

theorem enter_clear_blocks {tail : ℕ} (h : s.installNext tail = .clear) :
    (s.enter (s.installNext tail)).blocks = [] := by
  rw [h]
  rfl

theorem enter_committing : (s.enter w).committing = s.committing := by cases w <;> rfl

theorem advance_committing : (s.advance j w).committing = s.committing := by
  cases w with
  | log tail => rfl
  | head => exact enter_committing
  | install tail => exact enter_committing
  | clear => rfl

/-- At the last write of `commit` the log is empty. -/
theorem advance_cleared (hs : w = .clear → s.blocks = []) (h : (s.advance j w).Cleared j) :
    (s.advance j w).blocks = [] := by
  unfold Cleared at h
  cases w with
  | log tail =>
    simp only [advance, goto_calls] at h
    rcases h with h | h
    · by_cases hm : tail + 1 < s.blocks.length
      · rw [if_pos hm] at h
        cases h
      · rw [if_neg hm] at h
        cases h
    · cases h
  | head =>
    simp only [advance, goto_calls] at h
    rcases h with h | h
    · exact enter_clear_blocks (LogCall.commit.inj h)
    · cases h
  | install tail =>
    simp only [advance, goto_calls] at h
    rcases h with h | h
    · have hn := LogCall.commit.inj h
      simp only [advance, hn]
      rfl
    · cases h
  | clear => exact hs rfl

/-- A sector of a write of `commit`. -/
theorem Awake.disk (h : Awake s) (hc : Committing s j) (hj : s.calls j = .commit w) {k : Sector}
    (hb : s.bwrite sb w k (fun t => t.advance j w) = some t) : Awake t := by
  have hcom : t.committing = true → (∀ i, i ≠ j → t.calls i = s.calls i) →
      (t.Cleared j → t.blocks = []) → Awake t := by
    intro ht hcalls hclear
    refine ⟨fun _ _ => .inl ht, fun hf => ?_, fun i hi => ?_⟩
    · rw [ht] at hf
      cases hf
    · by_cases hij : i = j
      · rw [hij] at hi
        exact hclear hi
      · have hq := hc.calls i hij
        unfold Cleared at hi
        rw [hcalls i hij] at hi
        rcases hi with hi | hi
        · rw [hi] at hq
          exact hq.elim
        · rw [hi] at hq
          exact hq.elim
  cases hh : s.half with
  | none =>
    have hs := bwrite_first hh hb
    have hcalls : t.calls = s.calls := by rw [hs.eq]
    refine hcom ?_ (fun i _ => by rw [hcalls]) fun hcl => ?_
    · rw [hs.eq]
      exact hc.committing
    · unfold Cleared at hcl
      rw [hcalls] at hcl
      rw [hs.blocks]
      exact h.cleared j hcl
  | some x =>
    simp only [bwrite, hh] at hb
    split at hb
    · cases hb
    · obtain rfl := Option.some.inj hb
      refine hcom ?_ (fun i hij => ?_) (advance_cleared fun hw => ?_)
      · rw [advance_committing]
        exact hc.committing
      · cases w with
        | log tail => exact goto_calls_ne _ hij
        | head =>
          simp only [advance]
          rw [goto_calls_ne _ hij, enter_calls]
          rfl
        | install tail =>
          simp only [advance]
          rw [goto_calls_ne _ hij, enter_calls]
          rfl
        | clear => exact goto_calls_ne _ hij
      · rw [hw] at hj
        exact h.cleared j (.inl hj)

/-- **A step keeps this.** -/
theorem awake_step (hr : Refines sb s σ) (h : s.phase = .running → Awake s)
    (hn : s.next sb a = some t) (ht : t.phase = .running) : Awake t := by
  have hcrash : t = s.crash → Awake t := by
    rintro rfl
    cases ht
  cases hp : s.phase with
  | off =>
    obtain ⟨-, hb⟩ := next_off hp hn
    simp only [boot] at hb
    split at hb
    · cases hb
    · obtain rfl := Option.some.inj hb
      cases ht
  | recovering w =>
    rcases next_recovering hp hn with ⟨-, hc⟩ | ⟨k, -, hb⟩
    · exact hcrash hc
    · have hcalls : ∀ i, t.calls i = .user := by
        intro i
        rw [bwriteBoot_calls hb]
        cases hr with
        | off phase => rw [hp] at phase; cases phase
        | recovering w phase down => exact down.calls i
        | idle up => cases up.phase.symm.trans hp
        | commit j w up => cases up.phase.symm.trans hp
        | ended j up => cases up.phase.symm.trans hp
      have hblocks : t.blocks = [] := by
        cases hr with
        | off phase => rw [hp] at phase; cases phase
        | idle up => cases up.phase.symm.trans hp
        | commit j w up => cases up.phase.symm.trans hp
        | ended j up => cases up.phase.symm.trans hp
        | recovering w' phase down clean work =>
          rw [hp] at phase
          obtain rfl := LogPhase.recovering.inj phase
          cases hh : s.half with
          | none =>
            have hs := bwrite_first hh hb
            have hpt : t.phase = s.phase := by rw [hs.eq]
            rw [hpt, hp] at ht
            cases ht
          | some x =>
            simp only [bwrite, hh] at hb
            split at hb
            · cases hb
            · obtain rfl := Option.some.inj hb
              cases w with
              | install tail => cases ht
              | clear =>
                have here : Clear sb s σ.stable := work
                exact here.empty
              | log tail => exact work.elim
              | head => exact work.elim
      refine ⟨fun i hi => ?_, fun _ _ => hblocks, fun i hi => ?_⟩
      · rw [hcalls i] at hi
        cases hi
      · unfold Cleared at hi
        rw [hcalls i] at hi
        rcases hi with hi | hi <;> cases hi
  | running =>
    have hs := h hp
    rcases next_running hp hn with ⟨-, hc⟩ | hstep
    · exact hcrash hc
    cases step_inv hstep with
    | begin hj => exact hs.goto trivial (by simp)
    | @sleep j hj hfull =>
      refine ⟨fun i hi => ?_, hs.idle, fun i hi => ?_⟩
      · by_cases hij : i = j
        · exact hfull
        · rw [goto_calls_ne _ hij] at hi
          exact hs.asleep i hi
      · unfold Cleared at hi
        by_cases hij : i = j
        · rw [hij, goto_calls] at hi
          rcases hi with hi | hi <;> cases hi
        · rw [goto_calls_ne _ hij] at hi
          exact hs.cleared i hi
    | @enter j hj hc hfit =>
      refine ⟨fun i hi => ?_, fun _ ho => ?_, fun i hi => ?_⟩
      · by_cases hij : i = j
        · rw [hij, goto_calls] at hi
          cases hi
        · rw [goto_calls_ne _ hij] at hi
          rcases hs.asleep i hi with hcm | hfull
          · exact .inl hcm
          · exact (hfit hfull).elim
      · change s.outstanding + 1 = 0 at ho
        omega
      · unfold Cleared at hi
        by_cases hij : i = j
        · rw [hij, goto_calls] at hi
          rcases hi with hi | hi <;> cases hi
        · rw [goto_calls_ne _ hij] at hi
          exact hs.cleared i hi
    | kill hj => exact hs.goto trivial (by simp)
    | @write j b d wrote u hj hu =>
      have hw := logWrite_spec hu
      have hop : (s.calls j).isOp = true := by rw [hj]; rfl
      have hlen : s.blocks.length ≤ u.blocks.length := by
        rw [hw.blocks]
        split
        · exact le_rfl
        · rw [List.length_append]
          omega
      refine ⟨fun i hi => ?_, fun _ ho => ?_, fun i hi => ?_⟩
      · by_cases hij : i = j
        · rw [hij, goto_calls] at hi
          cases hi
        · rw [goto_calls_ne _ hij, hw.calls] at hi
          rcases hs.asleep i hi with hcm | hfull
          · exact .inl (hw.committing.trans hcm)
          · right
            change logsize < u.blocks.length + (u.outstanding + 1) * maxopblocks
            rw [hw.outstanding]
            omega
      · have hin := hw.inTrans
        rw [← hw.outstanding] at hin
        change u.outstanding = 0 at ho
        omega
      · unfold Cleared at hi
        by_cases hij : i = j
        · rw [hij, goto_calls] at hi
          rcases hi with hi | hi <;> cases hi
        · rw [goto_calls_ne _ hij, hw.calls] at hi
          exact (hr.not_cleared hp hop i hi).elim
    | @endOp j wrote hj ho =>
      have hop : (s.calls j).isOp = true := by rw [hj]; rfl
      exact Awake.of_wakeup (fun _ h0 => (ho h0).elim) fun i _ => hr.not_cleared hp hop i
    | @endLast j wrote hj ho =>
      have hop : (s.calls j).isOp = true := by rw [hj]; rfl
      refine ⟨fun _ _ => .inl rfl, fun hf => ?_, fun i hi => ?_⟩
      · cases hf
      unfold Cleared at hi
      by_cases hij : i = j
      · rw [hij, goto_calls] at hi
        change s.blocks = []
        by_contra hne
        have hpos : 0 < s.blocks.length := List.length_pos_iff.2 hne
        rw [if_pos hpos] at hi
        rcases hi with hi | hi <;> cases hi
      · rw [goto_calls_ne _ hij] at hi
        exact (hr.not_cleared hp hop i hi).elim
    | disk hj hb => exact hs.disk (hr.commit_of hp hj).2.1 hj hb
    | @finish j hj =>
      obtain ⟨-, hc, ended⟩ := hr.ended_of hp hj
      refine Awake.of_wakeup (fun _ _ => ended.blocks) fun i hij hi => ?_
      have hq := hc.calls i hij
      rcases hi with hi | hi
      · rw [show s.calls i = _ from hi] at hq
        exact hq
      · rw [show s.calls i = _ from hi] at hq
        exact hq
    | bread b => exact ⟨hs.asleep, hs.idle, hs.cleared⟩
    | recycle => exact ⟨hs.asleep, hs.idle, hs.cleared⟩

/-- **Sleepers have somebody to wait for.** -/
theorem log_sleepers (hlog : 0 < sb.nlog) {tr : List LogLabel}
    (h : (logMachine sb).Reach (HomeWrites sb) tr s) (hp : s.phase = .running)
    (hj : s.calls j = .asleep) :
    ∃ i, (s.calls i).isOp = true ∨ (∃ w, s.calls i = .commit w) ∨ s.calls i = .committed := by
  have key : (∃ σ, Refines sb s σ) ∧ (s.phase = .running → Awake s) := by
    refine h.inv (P := fun s => (∃ σ, Refines sb s σ) ∧ (s.phase = .running → Awake s)) ?_ ?_
    · intro s hs
      refine ⟨⟨_, refines_init hs hlog⟩, fun hp => ?_⟩
      obtain ⟨⟨d, rfl⟩, -⟩ := hs
      cases hp
    · intro s a t hs ha hn
      obtain ⟨⟨σ, hr⟩, haw⟩ := hs
      obtain ⟨-, σ', -, -, hr'⟩ := refines_step hr ha hn
      exact ⟨⟨σ', hr'⟩, fun hp => awake_step hr haw hn hp⟩
  obtain ⟨⟨σ, hr⟩, haw⟩ := key
  have hs := haw hp
  have hup := hr.up hp
  cases hr with
  | off phase => rw [hp] at phase; cases phase
  | recovering w phase => rw [hp] at phase; cases phase
  | commit i w up committing call => exact ⟨i, .inr (.inl ⟨w, call⟩)⟩
  | ended i up committing call => exact ⟨i, .inr (.inr call)⟩
  | idle up idle =>
    -- without operations the log is empty, and there is room for this process
    by_contra hno
    push Not at hno
    have ho : s.outstanding = 0 := by
      rw [hup.count, RefCount.holders_eq_zero]
      intro i hi
      unfold opKey at hi
      rw [if_neg (hno i).1] at hi
      cases hi
    rcases hs.asleep j hj with hc | hfull
    · rw [idle.committing] at hc
      cases hc
    · rw [hs.idle idle.committing ho, ho] at hfull
      have h10 : maxopblocks = 10 := rfl
      have h30 : logsize = 30 := rfl
      simp only [List.length_nil] at hfull
      omega

/-- A fourth operation, while three are in progress. -/
def fourOps : List LogLabel :=
  [.boot, .bootDisk 0, .bootDisk 1, .begin 0, .look 0, .begin 1, .look 1, .begin 2, .look 2,
    .begin 3, .look 3]

theorem log_sleepers_fourOps :
    let t := ((logMachine .mkfs).runOk (HomeWrites .mkfs) .blank fourOps).getD .blank
    ∃ i, (t.calls i).isOp = true ∨ (∃ w, t.calls i = .commit w) ∨ t.calls i = .committed :=
  log_sleepers (by decide)
    ⟨.blank, blank_init, pathOk_getD (by decide +kernel)⟩ (by decide +kernel)
    (show LogState.calls _ 3 = .asleep by decide +kernel)

end AgentOS
