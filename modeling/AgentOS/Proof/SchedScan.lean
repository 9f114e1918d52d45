import Mathlib
import AgentOS.Proof.Sched

/-!
# The scan of `scheduler` with its locks

The loop moves the lock of the best process so far: it takes the lock of every process, keeps it if
the process is the best so far, and then gives up the lock of the one before.

* `Scanned`: what holds between two turns. `best` is the first maximum (`List.argmax`) of the
  runnable processes seen, and its lock is the only one held.
* **`schedulerScan_max`**: the scan never panics, and this is what it ends with.
* `schedulerScan_pick`: it is the loop without locks, while the scores are within an `int`.

The invariant does not read `-1`: `best_score` counts only once there is a `best`.
-/

namespace AgentOS

namespace SchedulerScan

variable {score : Proc → ℕ → Proc × ℤ} {now : ℕ} {k : Kernel} {seen : List Slot} {i : Slot}

/-- The runnable processes among those seen. -/
def runnable (k : Kernel) (seen : List Slot) : List Slot :=
  seen.filter fun i => decide ((k.procs i).state = .runnable)

theorem mem_runnable : i ∈ runnable k seen ↔ i ∈ seen ∧ (k.procs i).state = .runnable := by
  unfold runnable
  rw [List.mem_filter, decide_eq_true_iff]

/-- The score of the process in slot `i` before the scan. -/
def scoreOf (score : Proc → ℕ → Proc × ℤ) (now : ℕ) (k : Kernel) (i : Slot) : ℤ :=
  (score (k.procs i) now).2

/-- **Between two turns**: the slots of `seen` are done. -/
structure Scanned (score : Proc → ℕ → Proc × ℤ) (now : ℕ) (k : Kernel) (seen : List Slot)
    (s : SchedulerScan) : Prop where
  best : s.best = (runnable k seen).argmax (scoreOf score now k)
  bestScore : ∀ b, s.best = some b → s.bestScore = scoreOf score now k b
  held : ∀ i, s.held i = true ↔ s.best = some i
  unseen : ∀ i, i ∉ seen → s.kernel.procs i = k.procs i

variable {s : SchedulerScan}

theorem start_scanned : Scanned score now k [] (start k) where
  best := rfl
  bestScore := by
    intro b hb
    cases hb
  held := by
    intro i
    unfold start
    simp
  unseen := fun _ _ => rfl

/-- The best is one of those seen. -/
theorem Scanned.best_mem (h : Scanned score now k seen s) {b : Slot} (hb : s.best = some b) :
    b ∈ seen := by
  rw [h.best] at hb
  exact (mem_runnable.1 (List.argmax_mem hb)).1

/-- The lock of a slot not seen yet is free. -/
theorem Scanned.free (h : Scanned score now k seen s) (hi : i ∉ seen) : s.held i = false := by
  by_contra hheld
  exact hi (h.best_mem ((h.held i).1 (by simpa using hheld)))

/-! ### One turn -/

theorem acquire_free (hi : s.held i = false) :
    s.acquire i = some { s with held := Function.update s.held i true } := by
  unfold acquire
  rw [if_neg (by simp [hi])]

theorem release_held (hi : s.held i = true) :
    s.release i = some { s with held := Function.update s.held i false } := by
  unfold release
  rw [if_pos hi]

/-- A lock that was free is free again. -/
theorem update_release (hi : s.held i = false) :
    Function.update (Function.update s.held i true) i false = s.held := by
  rw [Function.update_idem, ← hi, Function.update_eq_self]

/-- A process that is not runnable. -/
theorem turn_skip (hi : s.held i = false) (hr : (s.kernel.procs i).state ≠ .runnable) :
    s.turn score now i = some s := by
  unfold SchedulerScan.turn
  rw [acquire_free hi, Option.bind_eq_bind, Option.bind_some]
  dsimp only
  rw [if_neg hr, release_held (by simp), update_release hi]

variable {best : Slot} (score now)

/-- The first runnable process, whatever its score. -/
theorem turn_first (hi : s.held i = false) (hr : (s.kernel.procs i).state = .runnable)
    (hbest : s.best = none) :
    s.turn score now i = some
      ⟨s.kernel.setProc i (score (s.kernel.procs i) now).1, Function.update s.held i true, some i,
        (score (s.kernel.procs i) now).2⟩ := by
  unfold SchedulerScan.turn
  rw [acquire_free hi, Option.bind_eq_bind, Option.bind_some]
  dsimp only
  rw [if_pos hr, hbest, if_pos (Or.inl rfl)]
  rfl

/-- A better process: the lock of the old best is released. -/
theorem turn_better (hi : s.held i = false) (hr : (s.kernel.procs i).state = .runnable)
    (hbest : s.best = some best) (hheld : s.held best = true) (hne : best ≠ i)
    (hlt : s.bestScore < (score (s.kernel.procs i) now).2) :
    s.turn score now i = some
      ⟨s.kernel.setProc i (score (s.kernel.procs i) now).1,
        Function.update (Function.update s.held i true) best false, some i,
        (score (s.kernel.procs i) now).2⟩ := by
  unfold SchedulerScan.turn
  rw [acquire_free hi, Option.bind_eq_bind, Option.bind_some]
  dsimp only
  rw [if_pos hr, hbest, if_pos (Or.inr hlt)]
  dsimp only
  rw [release_held (by simp [Function.update_of_ne hne, hheld])]
  rfl

/-- A process that is not better. -/
theorem turn_keep (hi : s.held i = false) (hr : (s.kernel.procs i).state = .runnable)
    (hbest : s.best = some best) (hle : (score (s.kernel.procs i) now).2 ≤ s.bestScore) :
    s.turn score now i =
      some { s with kernel := s.kernel.setProc i (score (s.kernel.procs i) now).1 } := by
  unfold SchedulerScan.turn
  rw [acquire_free hi, Option.bind_eq_bind, Option.bind_some]
  dsimp only
  rw [if_pos hr, if_neg (by simp [hbest, hle]), release_held (by simp)]
  dsimp only
  rw [update_release hi]

variable {score now}

theorem runnable_append_of_pos (hr : (k.procs i).state = .runnable) :
    runnable k (seen ++ [i]) = runnable k seen ++ [i] := by
  simp [runnable, hr]

theorem runnable_append_of_neg (hr : (k.procs i).state ≠ .runnable) :
    runnable k (seen ++ [i]) = runnable k seen := by
  simp [runnable, hr]

/-- **A turn at a slot not seen yet.** -/
theorem Scanned.turn (h : Scanned score now k seen s) (hi : i ∉ seen) :
    ∃ s', s.turn score now i = some s' ∧ Scanned score now k (seen ++ [i]) s' := by
  have hfree := h.free hi
  have hproc := h.unseen i hi
  -- the turn at `i` leaves the processes still to come
  have hunseen : ∀ q j, j ∉ seen ++ [i] → (s.kernel.setProc i q).procs j = k.procs j := by
    intro q j hj
    rw [List.mem_append, List.mem_singleton, not_or] at hj
    rw [Kernel.setProc_ne _ _ _ _ hj.2, h.unseen j hj.1]
  by_cases hr : (k.procs i).state = .runnable
  -- the best of one process more is the best so far or the new one
  · have hargmax := List.argmax_concat (scoreOf score now k) i (runnable k seen)
    rw [← runnable_append_of_pos hr, ← h.best] at hargmax
    rw [← hproc] at hr
    have hown : scoreOf score now k i = (score (s.kernel.procs i) now).2 := by
      unfold scoreOf
      rw [hproc]
    cases hbest : s.best with
    | none =>
      rw [hbest] at hargmax
      refine ⟨_, turn_first score now hfree hr hbest, hargmax.symm, ?_, fun j => ?_, hunseen _⟩
      · intro b hb
        cases hb
        exact hown.symm
      · have hnone : s.held j ≠ true := fun hheld => by simpa [hbest] using (h.held j).1 hheld
        by_cases hj : j = i
        · simp [hj]
        · simp [hj, hnone, Ne.symm hj]
    | some best =>
      have hne : best ≠ i := fun he => hi (he ▸ h.best_mem hbest)
      have hscore := h.bestScore best hbest
      rw [hbest] at hargmax
      dsimp only at hargmax
      rw [← hscore, hown] at hargmax
      by_cases hlt : s.bestScore < (score (s.kernel.procs i) now).2
      · rw [if_pos hlt] at hargmax
        refine ⟨_, turn_better score now hfree hr hbest ((h.held best).2 hbest) hne hlt,
          hargmax.symm, ?_, fun j => ?_, hunseen _⟩
        · intro b hb
          cases hb
          exact hown.symm
        · -- of the two locks only the new one stays
          by_cases hj : j = best
          · simp [hj, Ne.symm hne]
          · by_cases hji : j = i
            · simp [hji, Ne.symm hne]
            · have hfreej : s.held j ≠ true := fun hheld => by
                have hsome := (h.held j).1 hheld
                rw [hbest] at hsome
                exact hj (Option.some.inj hsome).symm
              simp [hj, hji, hfreej, Ne.symm hji]
      · rw [if_neg hlt, ← hbest] at hargmax
        exact ⟨_, turn_keep score now hfree hr hbest (not_lt.1 hlt), hargmax.symm, h.bestScore,
          h.held, hunseen _⟩
  · refine ⟨s, turn_skip hfree (by rwa [hproc]), ?_, h.bestScore, h.held, fun j hj => ?_⟩
    · rw [runnable_append_of_neg hr]
      exact h.best
    · exact h.unseen j fun hmem => hj (List.mem_append_left _ hmem)

/-- **The loop** over slots that it sees once each. -/
theorem Scanned.loop (todo : List Slot) (h : Scanned score now k seen s)
    (hd : (seen ++ todo).Nodup) :
    ∃ s', s.loop score now todo = some s' ∧ Scanned score now k (seen ++ todo) s' := by
  induction todo generalizing seen s with
  | nil =>
    rw [List.append_nil]
    exact ⟨s, rfl, h⟩
  | cons i todo ih =>
    have hi : i ∉ seen := fun hmem =>
      List.disjoint_of_nodup_append hd hmem List.mem_cons_self
    obtain ⟨s₁, hturn, h₁⟩ := h.turn hi
    rw [List.append_cons] at hd ⊢
    obtain ⟨s', hloop, h'⟩ := ih h₁ hd
    refine ⟨s', ?_, h'⟩
    unfold SchedulerScan.loop
    rw [List.foldlM_cons, hturn]
    exact hloop

/-- The first maximum of the runnable processes, in the order of the table. -/
theorem argmax_first {b : Slot}
    (hb : (runnable k (List.finRange nproc)).argmax (scoreOf score now k) = some b) :
    (k.procs b).state = .runnable ∧ ∀ i, (k.procs i).state = .runnable →
      scoreOf score now k i ≤ scoreOf score now k b ∧
        (i < b → scoreOf score now k i < scoreOf score now k b) := by
  refine ⟨(mem_runnable.1 (List.argmax_mem hb)).2, fun i hi => ?_⟩
  have hmem : i ∈ runnable k (List.finRange nproc) := mem_runnable.2 ⟨List.mem_finRange i, hi⟩
  have hle := List.le_of_mem_argmax hmem hb
  refine ⟨hle, fun hlt => lt_of_le_of_ne hle fun heq => ?_⟩
  -- of two equal scores the list has the slot further up first
  have hsorted : (runnable k (List.finRange nproc)).Pairwise (· < ·) :=
    (List.pairwise_lt_finRange nproc).filter _
  have hidx := List.index_of_argmax hb hmem (le_of_eq heq.symm)
  rcases Nat.eq_or_lt_of_le hidx with h | h
  · exact hlt.ne' ((List.idxOf_inj (List.argmax_mem hb)).1 h)
  · have hgt := List.pairwise_iff_getElem.1 hsorted _ _ (List.idxOf_lt_length_of_mem
      (List.argmax_mem hb)) (List.idxOf_lt_length_of_mem hmem) h
    rw [List.getElem_idxOf, List.getElem_idxOf] at hgt
    exact lt_asymm hlt hgt

/-! ### The loop without locks -/

/-- The loop of `schedulerPick` is at the same place. -/
def Agrees (s : SchedulerScan) (r : Kernel × Best) : Prop :=
  s.kernel = r.1 ∧ s.best = r.2.map Prod.fst ∧ ∀ b, r.2 = some b → s.bestScore = b.2

/-- A turn of both. -/
theorem Agrees.turn {r : Kernel × Best} {s' : SchedulerScan} (h : Agrees s r)
    (hscore : score (s.kernel.procs i) now = agentScheduleScore (s.kernel.procs i) now)
    (hi : s.held i = false) (hheld : ∀ b, s.best = some b → s.held b = true)
    (hturn : s.turn score now i = some s') : Agrees s' (schedulerVisit now r i) := by
  obtain ⟨k', best⟩ := r
  obtain ⟨hk, hbest, hbs⟩ := h
  dsimp only at hk hbest hbs
  subst hk
  unfold schedulerVisit
  dsimp only
  -- in each of the four kinds of turn both loops take the same branch
  by_cases hr : (s.kernel.procs i).state = .runnable
  · rw [if_pos hr, ← hscore]
    cases best with
    | none =>
      rw [turn_first score now hi hr hbest] at hturn
      obtain rfl := Option.some.inj hturn
      refine ⟨rfl, rfl, fun b hb => ?_⟩
      cases hb
      rfl
    | some b =>
      have hown := hheld b.1 hbest
      have hne : b.1 ≠ i := by
        intro he
        rw [he, hi] at hown
        cases hown
      have hlast := hbs b rfl
      dsimp only
      rw [← hlast]
      by_cases hlt : s.bestScore < (score (s.kernel.procs i) now).2
      · rw [turn_better score now hi hr hbest hown hne hlt] at hturn
        obtain rfl := Option.some.inj hturn
        rw [if_pos hlt]
        refine ⟨rfl, rfl, fun b hb => ?_⟩
        cases hb
        rfl
      · rw [turn_keep score now hi hr hbest (not_lt.1 hlt)] at hturn
        obtain rfl := Option.some.inj hturn
        rw [if_neg hlt]
        refine ⟨rfl, hbest, fun c hc => ?_⟩
        cases hc
        rfl
  · rw [turn_skip hi hr] at hturn
    obtain rfl := Option.some.inj hturn
    rw [if_neg hr]
    exact ⟨rfl, hbest, hbs⟩

/-- The loop of both. -/
theorem Agrees.loop (todo : List Slot) {r : Kernel × Best} {s' : SchedulerScan}
    (h : Agrees s r) (hs : Scanned score now k seen s) (hd : (seen ++ todo).Nodup)
    (hscore : ∀ i, score (k.procs i) now = agentScheduleScore (k.procs i) now)
    (hloop : s.loop score now todo = some s') :
    Agrees s' (todo.foldl (schedulerVisit now) r) := by
  induction todo generalizing seen s r with
  | nil =>
    obtain rfl := Option.some.inj hloop
    exact h
  | cons i todo ih =>
    have hi : i ∉ seen := fun hmem =>
      List.disjoint_of_nodup_append hd hmem List.mem_cons_self
    obtain ⟨s₁, hturn, h₁⟩ := hs.turn hi
    unfold SchedulerScan.loop at hloop
    rw [List.foldlM_cons, hturn] at hloop
    have hown : score (s.kernel.procs i) now = agentScheduleScore (s.kernel.procs i) now := by
      rw [hs.unseen i hi]
      exact hscore i
    have hagree := h.turn hown (hs.free hi) (fun b hb => (hs.held b).2 hb) hturn
    rw [List.append_cons] at hd
    exact ih hagree h₁ hd hloop

end SchedulerScan

open SchedulerScan

/-- The scan ends with all slots seen. -/
theorem schedulerScan_scanned (k : Kernel) (now : ℕ) : ∃ s, schedulerScan k now = some s ∧
    Scanned agentScheduleInt now k (List.finRange nproc) s :=
  start_scanned.loop (List.finRange nproc) (List.nodup_finRange nproc)

/-- **The scan picks the maximum** and holds its lock alone. -/
theorem schedulerScan_max (k : Kernel) (now : ℕ) : ∃ s, schedulerScan k now = some s ∧
    (s.best = none ↔ ∀ i, (k.procs i).state ≠ .runnable) ∧
    (∀ b, s.best = some b → (k.procs b).state = .runnable ∧
      ∀ i, (k.procs i).state = .runnable →
        (agentScheduleInt (k.procs i) now).2 ≤ (agentScheduleInt (k.procs b) now).2 ∧
          (i < b → (agentScheduleInt (k.procs i) now).2 < (agentScheduleInt (k.procs b) now).2)) ∧
    ∀ i, s.held i = true ↔ s.best = some i := by
  obtain ⟨s, hscan, h⟩ := schedulerScan_scanned k now
  refine ⟨s, hscan, ?_, fun b hb => argmax_first (h.best.symm.trans hb), h.held⟩
  rw [h.best, List.argmax_eq_none, List.eq_nil_iff_forall_not_mem]
  constructor
  · intro hnone i hi
    exact hnone i (mem_runnable.2 ⟨List.mem_finRange i, hi⟩)
  · intro hnone i hi
    exact hnone i (mem_runnable.1 hi).2

/-- **The loop without locks** is this one, while the scores are within an `int`. -/
theorem schedulerScan_pick {k : Kernel} {now : ℕ} {s : SchedulerScan}
    (hfits : ∀ i, ScoreFits (k.procs i)) (h : schedulerScan k now = some s) :
    schedulerPick k now = (s.kernel, s.best) := by
  have hscore : ∀ i, agentScheduleInt (k.procs i) now = agentScheduleScore (k.procs i) now :=
    fun i => agentScheduleInt_eq (hfits i) now
  have hstart : Agrees (start k) (k, none) := ⟨rfl, rfl, fun b hb => by cases hb⟩
  obtain ⟨hk, hbest, -⟩ := hstart.loop (List.finRange nproc) start_scanned
    (List.nodup_finRange nproc) hscore h
  unfold schedulerPick
  rw [hk, hbest]

end AgentOS
