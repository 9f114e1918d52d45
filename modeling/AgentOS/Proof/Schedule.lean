import AgentOS.Proof.Heartbeat

/-!
# Heartbeats fire on schedule

* `Wheeled`: the lists of the wheel are lists, and whoever is dead is on none of them. Every tick and
  every call keeps it (`wheeled_tick`, `wheeled_call`).
* `BeatInv`: also, a process with a heartbeat waits in the bucket of its deadline, which is ahead
  (`beatInv_tick`, `beatInv_call`).
* `Beating`: a process whose heartbeat of interval `k` was set at tick `t`, after `n` signals.
* **`heartbeat_schedule`**: the signals of a run in which the heartbeat is left alone.
-/

namespace AgentOS

open Machine

/-- The clock does not wrap. -/
def InTime (s : BeatSystem) : BeatLabel → Prop
  | .tick => s.kernel.ticks + 1 < 2 ^ 32
  | _ => True

instance (s : BeatSystem) (l : BeatLabel) : Decidable (InTime s l) := by
  apply @BeatLabel.casesOn fun l => Decidable (InTime s l)
  all_goals
    intros
    dsimp only [InTime]
    infer_instance

/-- The call changes or stops the heartbeat of process `i`. `agent_create` has a heartbeat argument,
and takes its caller off the wheel in any case. -/
def BeatLabel.changes (i : Slot) : BeatLabel → Prop
  | .create j _ _ | .heartbeatStop j | .exit j => j = i
  | .heartbeatSet j n => j = i ∧ 0 < n
  | _ => False

instance (i : Slot) (l : BeatLabel) : Decidable (l.changes i) := by
  apply @BeatLabel.casesOn fun l => Decidable (l.changes i)
  all_goals
    intros
    dsimp only [BeatLabel.changes]
    infer_instance

/-- Process `i` is not DONE, and nobody changes or stops its heartbeat. -/
def Steady (i : Slot) (s : BeatSystem) (l : BeatLabel) : Prop :=
  InTime s l ∧ ¬ l.changes i ∧ ¬ s.Done i

instance (i : Slot) (s : BeatSystem) (l : BeatLabel) : Decidable (Steady i s l) :=
  inferInstanceAs (Decidable (_ ∧ _))

structure Wheeled (s : BeatSystem) : Prop where
  lists : ∃ f, WheelLists s.kernel f
  idle : ∀ x, ¬ (s.proc x).live → (s.proc x).hb.heartbeatWheelActive = false

structure BeatInv (s : BeatSystem) : Prop extends Wheeled s where
  ahead : ∀ x, (s.proc x).hb.heartbeatWheelActive = true → 0 < (s.proc x).hb.heartbeatInterval →
    s.kernel.ticks < (s.proc x).hb.heartbeatDeadline ∧
      (s.proc x).hb.heartbeatWheelBucket = (wheelBucket (s.proc x).hb.heartbeatDeadline : ℕ)

/-- Process `i` has set a heartbeat of interval `k` at tick `t`, and has been signalled `n` times. -/
structure Beating (i : Slot) (t k n : ℕ) (s : BeatSystem) : Prop where
  live : (s.proc i).live
  type : (s.proc i).ident.agentType ≠ agentTypeNormal
  interval : (s.proc i).hb.heartbeatInterval = k
  deadline : (s.proc i).hb.heartbeatDeadline = t + (n + 1) * k + 1
  active : (s.proc i).hb.heartbeatWheelActive = true

/-- The first `n` ticks of such a heartbeat. -/
def beatTicks (t k n : ℕ) : List ℕ := (List.range n).map fun m => t + (m + 1) * k + 1

section

variable {s t : BeatSystem} {l : BeatLabel} {x i : Slot} {p q : Proc} {now now' k n m : ℕ}

/-! ### Who is alive -/

theorem live_congr (hu : q.state = .unused ↔ p.state = .unused)
    (hz : q.state = .zombie ↔ p.state = .zombie) : q.live ↔ p.live := by
  unfold Proc.live
  rw [Ne, Ne, hu, hz]

theorem Beside.live (h : Beside p q) : q.live ↔ p.live := live_congr h.unused h.zombie

theorem Aside.live {w : Bool} (h : Aside w p q) : q.live ↔ p.live := live_congr h.unused h.zombie

theorem cascadeKill_live : (cascadeKill p now).live ↔ p.live := by
  unfold Proc.live cascadeKill
  dsimp only
  split
  · rename_i hs
    simp [hs]
  · exact Iff.rfl

theorem iter_live (h : p.live) : (agentProcWaitIter i p now now').1.live := by
  unfold agentProcWaitIter Proc.live
  split_ifs <;> first | exact h | exact ⟨by simp, by simp⟩

theorem iter_type : (agentProcWaitIter i p now now').1.ident = p.ident := by
  unfold agentProcWaitIter
  split_ifs <;> rfl

theorem waitRound_proc : (s.waitRound i p now').proc i =
    (agentProcWaitIter i p s.kernel.ticks now').1 := Kernel.setProc_self _ _ _

theorem Prepared.live {a : CreateArgs} {k : Kernel} (h : Prepared k i a q)
    (hlive : (k.procs i).live) : q.live := by
  unfold Proc.live
  rw [h.state]
  exact hlive

/-- Whoever waits and has been woken is alive once it runs. -/
theorem resume_live (p : Proc) : (agentProcWaitResume p).live := ⟨by simp [agentProcWaitResume],
  by simp [agentProcWaitResume]⟩

/-! ### The invariant -/

theorem wheeled_init (h : beatMachine.init s) : Wheeled s := by
  obtain ⟨-, hg, hi⟩ := h
  refine ⟨⟨fun _ => [], fun b => ?_, fun b x => ?_⟩, fun x _ => ?_⟩
  · rw [hg]
    exact .nil
  · have hb : (s.kernel.procs x).hb = Heartbeat.init := (hi x).1
    rw [hb]
    exact iff_of_false (by simp) fun hc => absurd hc.1 (by decide)
  · rw [(hi x).1]
    rfl

/-- A tick keeps the lists. -/
theorem wheeled_tick (h : Wheeled s) (ht : beatMachine.next s .tick = some t) : Wheeled t := by
  obtain ⟨f, hf⟩ := h.lists
  have hb := beat_tick hf ht
  refine ⟨hb.lists, fun x hdead => ?_⟩
  obtain ⟨fired, hx, -⟩ := hb.each x
  by_cases hin : (s.proc x).hb.heartbeatWheelActive = true ∧
      (s.proc x).hb.heartbeatWheelBucket = (wheelBucket t.kernel.ticks : ℕ)
  · obtain ⟨hv, -⟩ := hx.visited hin.1 hin.2
    have hoff := h.idle x fun hlive => hdead (hv.beside.live.2 hlive)
    rw [hin.1] at hoff
    cases hoff
  · obtain ⟨hbeside, hs, -⟩ := hx.left hin
    rw [hs.active]
    exact h.idle x fun hlive => hdead (hbeside.live.2 hlive)

/-- A call keeps the lists. -/
theorem wheeled_call (h : Wheeled s) (hl : l ≠ .tick) (ht : beatMachine.next s l = some t) :
    Wheeled t := by
  obtain ⟨f, hf⟩ := h.lists
  have hb := beat_step hf h.idle hl ht
  refine ⟨hb.lists, fun x hdead => ?_⟩
  cases hb.each x with
  | aside ha => rw [ha.active]; exact h.idle x fun hlive => hdead (ha.live.2 hlive)
  | killed ha => rw [ha.active]; exact h.idle x fun hlive => hdead (ha.live.2 hlive)
  | swept hbeside hs =>
    rw [hs.active]
    exact h.idle x fun hlive => hdead (hbeside.live.2 (cascadeKill_live.2 hlive))
  | finished _ hc hp => exact absurd (hp ▸ hc.1) hdead
  | set _ hc _ _ hq => exact absurd (hq.beside.live.2 hc.1) hdead
  | stopped _ hc hu hp => rw [hp]; exact hu.active
  | unlinked _ _ _ hu => exact hu.active
  | created _ hc _ hq => exact absurd (hq.toPrepared.live hc.1) hdead
  | fresh _ _ hhb => rw [hhb]; rfl
  | exited _ _ hoff => exact hoff
  | @begins timeoutTicks _ _ hc _ _ hround =>
    rw [hround, waitRound_proc] at hdead
    have hlive : (agentProcWaitBegin (s.proc x) timeoutTicks s.kernel.ticks).live := hc.1
    exact absurd (iter_live hlive) hdead
  | round _ _ _ hround =>
    rw [hround, waitRound_proc] at hdead
    exact absurd (iter_live (resume_live _)) hdead

theorem beatInv_init (h : beatMachine.init s) : BeatInv s := by
  refine ⟨wheeled_init h, fun x hact => ?_⟩
  rw [(h.2.2 x).1] at hact
  exact absurd hact (by decide)

/-- The deadlines after a tick: those of the bucket of the new time are due or kept, the others are
in another bucket. -/
theorem Ticked.ahead {fired : List ℕ} (h : Ticked (now + 1) p q fired)
    (hp : p.hb.heartbeatWheelActive = true → 0 < p.hb.heartbeatInterval →
      now < p.hb.heartbeatDeadline ∧
        p.hb.heartbeatWheelBucket = (wheelBucket p.hb.heartbeatDeadline : ℕ))
    (hact : q.hb.heartbeatWheelActive = true) (hpos : 0 < q.hb.heartbeatInterval) :
    now + 1 < q.hb.heartbeatDeadline ∧
      q.hb.heartbeatWheelBucket = (wheelBucket q.hb.heartbeatDeadline : ℕ) := by
  by_cases hin : p.hb.heartbeatWheelActive = true ∧
      p.hb.heartbeatWheelBucket = (wheelBucket (now + 1) : ℕ)
  · obtain ⟨hv, -⟩ := h.visited hin.1 hin.2
    refine ⟨?_, hv.bucket hact⟩
    have hon : heartbeatOn p := hv.active.1 hact
    rw [hv.deadline]
    split
    · have hint := hon.2.2.2.1
      omega
    · rename_i hno
      have hlate : ¬ p.hb.heartbeatDeadline ≤ now + 1 := fun hle => hno ⟨hon, hle⟩
      omega
  · obtain ⟨-, hs, -⟩ := h.left hin
    rw [hs.active] at hact
    rw [hs.interval] at hpos
    rw [hs.deadline, hs.bucket]
    obtain ⟨hlt, hb⟩ := hp hact hpos
    refine ⟨?_, hb⟩
    have hne : p.hb.heartbeatDeadline ≠ now + 1 := by
      intro e
      rw [e] at hb
      exact hin ⟨hact, hb⟩
    omega

/-- **A tick keeps the invariant.** -/
theorem beatInv_tick (h : BeatInv s) (hlt : s.kernel.ticks + 1 < 2 ^ 32)
    (ht : beatMachine.next s .tick = some t) : BeatInv t := by
  obtain ⟨f, hf⟩ := h.lists
  have hb := beat_tick hf ht
  have htick : t.kernel.ticks = s.kernel.ticks + 1 := hb.ticks.trans (Nat.mod_eq_of_lt hlt)
  refine ⟨wheeled_tick h.toWheeled ht, fun x hact hpos => ?_⟩
  obtain ⟨fired, hx, -⟩ := hb.each x
  rw [htick] at hx ⊢
  exact hx.ahead (h.ahead x) hact hpos

/-- **A call keeps the invariant.** -/
theorem beatInv_call (h : BeatInv s) (hl : l ≠ .tick) (ht : beatMachine.next s l = some t) :
    BeatInv t := by
  obtain ⟨f, hf⟩ := h.lists
  have hb := beat_step hf h.idle hl ht
  refine ⟨wheeled_call h.toWheeled hl ht, fun x hact hpos => ?_⟩
  rw [hb.ticks]
  cases hb.each x with
  | aside ha =>
    rw [ha.active] at hact
    rw [ha.interval] at hpos
    rw [ha.deadline, ha.bucket]
    exact h.ahead x hact hpos
  | killed ha =>
    rw [ha.active] at hact
    rw [ha.interval] at hpos
    rw [ha.deadline, ha.bucket]
    exact h.ahead x hact hpos
  | swept _ hs =>
    rw [hs.interval] at hpos
    exact absurd hpos (by simp [cascadeKill])
  | finished _ _ hp =>
    rw [hp] at hpos
    exact absurd hpos (by simp [agentProcWaitDone])
  | set _ _ _ _ hq =>
    refine ⟨?_, hq.bucket hact⟩
    rw [hq.deadline]
    omega
  | stopped _ _ _ hp =>
    rw [hp] at hpos
    exact absurd hpos (by simp [heartbeatStopStores])
  | unlinked _ _ _ hu =>
    rw [hu.active] at hact
    cases hact
  | created _ _ _ hq =>
    refine ⟨?_, hq.bucket hact⟩
    rw [hq.interval] at hpos
    rw [hq.deadline, if_pos hpos]
    change s.kernel.ticks < s.kernel.ticks + _
    omega
  | fresh _ _ hhb =>
    rw [hhb] at hact
    exact absurd hact (by decide)
  | exited _ _ hoff =>
    rw [hoff] at hact
    cases hact
  | begins _ _ _ _ hround =>
    rw [hround, waitRound_proc, iter_hb] at hact hpos ⊢
    exact h.ahead x hact hpos
  | round _ _ _ hround =>
    rw [hround, waitRound_proc, iter_hb] at hact hpos ⊢
    exact h.ahead x hact hpos

theorem beatInv_step (h : BeatInv s) (hok : InTime s l) (ht : beatMachine.next s l = some t) :
    BeatInv t := by
  cases l with
  | tick => exact beatInv_tick h hok ht
  | _ => exact beatInv_call h (by simp) ht

theorem beatInv_reach {tr : List BeatLabel} (h : beatMachine.Reach InTime tr s) : BeatInv s :=
  h.inv (fun _ => beatInv_init) fun _ _ _ hs hok ht => beatInv_step hs hok ht

/-! ### The signals of one process -/

theorem beatTicks_succ : beatTicks m k (n + 1) = beatTicks m k n ++ [m + (n + 1) * k + 1] := by
  unfold beatTicks
  rw [List.range_succ, List.map_append]
  rfl

theorem beatTicks_nodup (hk : 0 < k) (n : ℕ) : (beatTicks m k n).Nodup := by
  refine List.Nodup.map (fun a b hab => ?_) List.nodup_range
  have hmul : (a + 1) * k = (b + 1) * k := by omega
  have hsucc := Nat.eq_of_mul_eq_mul_right hk hmul
  omega

/-- While the next signal is ahead and the last one past, these are the ticks of the schedule. -/
theorem mem_beatTicks {τ : ℕ} (hpast : n = 0 ∨ m + n * k + 1 ≤ now)
    (hnext : now < m + (n + 1) * k + 1) :
    τ ∈ beatTicks m k n ↔ τ ≤ now ∧ ∃ j, 1 ≤ j ∧ τ = m + j * k + 1 := by
  unfold beatTicks
  rw [List.mem_map]
  constructor
  · rintro ⟨a, ha, rfl⟩
    rw [List.mem_range] at ha
    have hle : (a + 1) * k ≤ n * k := Nat.mul_le_mul_right k ha
    exact ⟨by omega, a + 1, by omega, rfl⟩
  · rintro ⟨hle, j, hj, rfl⟩
    have hlt : j * k < (n + 1) * k := by omega
    have hjn : j < n + 1 := Nat.lt_of_mul_lt_mul_right hlt
    refine ⟨j - 1, List.mem_range.2 (by omega), ?_⟩
    rw [Nat.sub_add_cancel hj]

/-- A call signals no heartbeat. -/
theorem BeatStep.fired_eq (h : BeatStep s l t x) : t.fired x = s.fired x := by
  cases h with
  | begins _ _ _ _ ht => rw [ht]; rfl
  | round _ _ _ ht => rw [ht]; rfl
  | _ => assumption

/-- **A call that does not change the heartbeat** leaves it as it is, or ends the loop. -/
theorem beating_call (h : Beating i m k n s) (hl : ¬ l.changes i) (hs : BeatStep s l t i)
    (hdone : ¬ t.Done i) : Beating i m k n t := by
  have hround : ∀ p : Proc, p.live → p.ident = (s.proc i).ident → p.hb = (s.proc i).hb →
      ∀ now', t = s.waitRound i p now' → Beating i m k n t := by
    rintro p hlive hid hhb now' rfl
    refine ⟨?_, ?_, ?_, ?_, ?_⟩ <;> rw [waitRound_proc]
    · exact iter_live hlive
    · rw [iter_type, hid]
      exact h.type
    · rw [iter_hb, hhb]
      exact h.interval
    · rw [iter_hb, hhb]
      exact h.deadline
    · rw [iter_hb, hhb]
      exact h.active
  cases hs with
  | aside ha =>
    exact ⟨ha.live.2 h.live, by rw [ha.type]; exact h.type, ha.interval.trans h.interval,
      ha.deadline.trans h.deadline, ha.active.trans h.active⟩
  | killed ha =>
    exact ⟨ha.live.2 h.live, by rw [ha.type]; exact h.type, ha.interval.trans h.interval,
      ha.deadline.trans h.deadline, ha.active.trans h.active⟩
  | swept hb => exact absurd hb.loopState hdone
  | finished _ _ hp =>
    refine absurd ?_ hdone
    unfold BeatSystem.Done
    rw [hp]
    rfl
  | set hl' _ _ hpos =>
    rw [hl'] at hl
    exact absurd ⟨rfl, hpos⟩ hl
  | stopped hl' => rw [hl'] at hl; exact absurd rfl hl
  | unlinked hl' => rw [hl'] at hl; exact absurd rfl hl
  | created hl' => rw [hl'] at hl; exact absurd rfl hl
  | fresh hdead => exact absurd h.live hdead
  | exited hl' => rw [hl'] at hl; exact absurd rfl hl
  | @begins timeoutTicks now' _ hc _ _ ht =>
    exact hround (agentProcWaitBegin (s.proc i) timeoutTicks s.kernel.ticks) hc.1 rfl rfl now' ht
  | round _ _ _ ht => exact hround _ (resume_live _) rfl rfl _ ht

/-- **A tick**: it signals the process at its deadline and at no other time. -/
theorem beating_tick {fired : List ℕ} (h : Beating i m k n s) (hdone : ¬ s.Done i) (hk : 0 < k)
    (hahead : s.kernel.ticks < m + (n + 1) * k + 1)
    (hbucket : (s.proc i).hb.heartbeatWheelBucket =
      (wheelBucket (s.proc i).hb.heartbeatDeadline : ℕ))
    (ht : Ticked (s.kernel.ticks + 1) (s.proc i) (t.proc i) fired) :
    (s.kernel.ticks + 1 = m + (n + 1) * k + 1 ∧ fired = [s.kernel.ticks + 1] ∧
        Beating i m k (n + 1) t) ∨
      (s.kernel.ticks + 1 < m + (n + 1) * k + 1 ∧ fired = [] ∧ Beating i m k n t) := by
  have hon : heartbeatOn (s.proc i) := by
    refine ⟨h.live.1, h.type, hdone, ?_, ?_⟩
    · rw [h.interval]
      exact_mod_cast hk
    · rw [h.deadline]
      omega
  -- the deadline is due at this tick exactly if it is this tick
  have hdue : heartbeatDue (s.proc i) (s.kernel.ticks + 1) ↔
      s.kernel.ticks + 1 = m + (n + 1) * k + 1 := by
    unfold heartbeatDue
    rw [h.deadline]
    constructor
    · intro hd
      omega
    · intro he
      exact ⟨hon, by omega⟩
  by_cases hin : (s.proc i).hb.heartbeatWheelBucket = (wheelBucket (s.kernel.ticks + 1) : ℕ)
  · -- in the bucket of the new time: the process is visited
    obtain ⟨hv, hfired⟩ := ht.visited h.active hin
    have hlive : (t.proc i).live := hv.beside.live.2 h.live
    have htype : (t.proc i).ident.agentType ≠ agentTypeNormal := by
      rw [hv.beside.type]
      exact h.type
    have hint := hv.interval.trans h.interval
    have hact := hv.active.2 hon
    by_cases hd : s.kernel.ticks + 1 = m + (n + 1) * k + 1
    · left
      rw [if_pos (hdue.2 hd)] at hfired
      refine ⟨hd, hfired, hlive, htype, hint, ?_, hact⟩
      rw [hv.deadline, if_pos (hdue.2 hd), h.interval, hd, Int.toNat_natCast]
      have hmul : (n + 1 + 1) * k = (n + 1) * k + k := Nat.succ_mul _ _
      omega
    · right
      rw [if_neg fun hc => hd (hdue.1 hc)] at hfired
      refine ⟨by omega, hfired, hlive, htype, hint, ?_, hact⟩
      rw [hv.deadline, if_neg fun hc => hd (hdue.1 hc)]
      exact h.deadline
  · -- in another bucket: its deadline is not the new time
    obtain ⟨hbeside, hs, hfired⟩ := ht.left fun hc => hin hc.2
    have hne : s.kernel.ticks + 1 ≠ m + (n + 1) * k + 1 := by
      intro e
      rw [h.deadline, ← e] at hbucket
      exact hin hbucket
    right
    refine ⟨by omega, hfired, hbeside.live.2 h.live, ?_, hs.interval.trans h.interval,
      hs.deadline.trans h.deadline, hs.active.trans h.active⟩
    rw [hbeside.type]
    exact h.type

/-- The run since the heartbeat was set. -/
structure Scheduled (i : Slot) (m k : ℕ) (before : List ℕ) (s : BeatSystem) : Prop where
  inv : BeatInv s
  signals : ∃ n, s.fired i = before ++ beatTicks m k n ∧
    (n = 0 ∨ m + n * k + 1 ≤ s.kernel.ticks) ∧ s.kernel.ticks < m + (n + 1) * k + 1 ∧
    (¬ s.Done i → Beating i m k n s)

/-- **One step of such a run.** -/
theorem scheduled_step {before : List ℕ} (hk : 0 < k) (h : Scheduled i m k before s)
    (hok : Steady i s l) (ht : beatMachine.next s l = some t) : Scheduled i m k before t := by
  obtain ⟨hin, hchange, hdone⟩ := hok
  obtain ⟨n, hfired, hpast, hnext, hbeat⟩ := h.signals
  have hb := hbeat hdone
  refine ⟨beatInv_step h.inv hin ht, ?_⟩
  obtain ⟨f, hf⟩ := h.inv.lists
  by_cases hl : l = .tick
  · subst hl
    have htick := beat_tick hf ht
    have htime : t.kernel.ticks = s.kernel.ticks + 1 := htick.ticks.trans (Nat.mod_eq_of_lt hin)
    obtain ⟨fired, hx, hf'⟩ := htick.each i
    rw [htime] at hx
    have hpos : 0 < (s.proc i).hb.heartbeatInterval := by
      rw [hb.interval]
      exact_mod_cast hk
    have hbucket := (h.inv.ahead i hb.active hpos).2
    obtain ⟨hd, rfl, hb'⟩ | ⟨hd, rfl, hb'⟩ := beating_tick hb hdone hk hnext hbucket hx
    · refine ⟨n + 1, ?_, .inr ?_, ?_, fun _ => hb'⟩
      · rw [hf', hfired, beatTicks_succ, hd, List.append_assoc]
      · rw [htime]
        omega
      · rw [htime, hd]
        have hmul : (n + 1 + 1) * k = (n + 1) * k + k := Nat.succ_mul _ _
        omega
    · refine ⟨n, ?_, ?_, ?_, fun _ => hb'⟩
      · rw [hf', hfired, List.append_nil]
      · rw [htime]
        omega
      · rw [htime]
        exact hd
  · have hstep := beat_step hf h.inv.idle hl ht
    refine ⟨n, ?_, ?_, ?_, fun hdone' => beating_call hb hchange (hstep.each i) hdone'⟩
    · rw [(hstep.each i).fired_eq, hfired]
    · rw [hstep.ticks]
      exact hpast
    · rw [hstep.ticks]
      exact hnext

/-- The call that sets the heartbeat starts such a run. -/
theorem scheduled_set {k : ℤ} (h : BeatInv s) (hk : 0 < k)
    (htype : (s.proc i).ident.agentType ≠ agentTypeNormal)
    (ht : beatMachine.next s (.heartbeatSet i k) = some t) :
    Scheduled i s.kernel.ticks k.toNat (s.fired i) t := by
  obtain ⟨f, hf⟩ := h.lists
  have hinv : BeatInv t := beatInv_call h (by simp) ht
  have hc : s.canCall i := by
    by_contra hno
    have ht' : s.next (.heartbeatSet i k) = some t := ht
    unfold BeatSystem.next at ht'
    dsimp only at ht'
    rw [if_neg hno] at ht'
    cases ht'
  obtain ⟨k', f', hnext, hl', htick, hq, -⟩ := next_heartbeatSet hf hc htype hk
  obtain rfl := Option.some.inj (hnext.symm.trans ht)
  have hpi : (s.setKernel k').proc i = k'.procs i := rfl
  refine ⟨hinv, 0, ?_, .inl rfl, ?_, fun hdone => ?_⟩
  · exact (List.append_nil _).symm
  · change k'.ticks < _
    rw [htick]
    omega
  · have hready : ¬ (s.kernel.procs i).loop.loopState = agentLoopDone := by
      intro hd
      refine hdone ?_
      unfold BeatSystem.Done
      rw [hpi, hq.beside.loopState]
      exact (loop_ready_done _).2 hd
    refine ⟨?_, ?_, ?_, ?_, ?_⟩ <;> rw [hpi]
    · exact hq.beside.live.2 hc.1
    · rw [hq.beside.type]
      exact htype
    · rw [hq.interval]
      omega
    · rw [hq.deadline, Nat.zero_add, Nat.one_mul]
    · exact hq.active.2 hready

/-- **Heartbeats fire on schedule.** Process `i` sets a heartbeat of interval `k`, and nobody changes
or stops it while it is not DONE: `agent_tick` has signalled it at the ticks `t + n * k + 1` that
have come, once each, and the next `agent_tick` ends. -/
theorem heartbeat_schedule {s s₁ s₂ : BeatSystem} {tr tr' : List BeatLabel} {i : Slot} {k : ℤ}
    (hreach : beatMachine.Reach InTime tr s)
    (htype : (s.proc i).ident.agentType ≠ agentTypeNormal) (hk : 0 < k)
    (hset : beatMachine.next s (.heartbeatSet i k) = some s₁)
    (hpath : beatMachine.Path (Steady i) s₁ tr' s₂) :
    (∃ signals, s₂.fired i = s.fired i ++ signals ∧ signals.Nodup ∧
      ∀ τ, τ ∈ signals ↔
        τ ≤ s₂.kernel.ticks ∧ ∃ n, 1 ≤ n ∧ τ = s.kernel.ticks + n * k.toNat + 1) ∧
      (beatMachine.next s₂ .tick).isSome := by
  have hpos : 0 < k.toNat := by omega
  have hstart := scheduled_set (beatInv_reach hreach) hk htype hset
  have hend : Scheduled i s.kernel.ticks k.toNat (s.fired i) s₂ :=
    hpath.inv (fun _ _ _ hs hok ht => scheduled_step hpos hs hok ht) hstart
  obtain ⟨n, hfired, hpast, hnext, -⟩ := hend.signals
  refine ⟨⟨_, hfired, beatTicks_nodup hpos n, fun τ => mem_beatTicks hpast hnext⟩, ?_⟩
  obtain ⟨f, hf⟩ := hend.inv.lists
  obtain ⟨k', -, fired, hc, -⟩ := tick_spec hf
  change ((clockintr s₂.kernel).map _).isSome
  rw [hc]
  rfl

end

/-! ### A run with a heartbeat -/

/-- At boot, with `init` alone. -/
def bootBeats : BeatSystem := ⟨initOnly, fun _ => false, fun _ => []⟩

theorem bootBeats_init : beatMachine.init bootBeats := by
  refine ⟨rfl, rfl, fun i => ?_⟩
  change (initOnly.procs i).hb = _ ∧ (initOnly.procs i).ident = _ ∧ (initOnly.procs i).loop = _ ∧
    (initOnly.procs i).mailbox = _ ∧ _
  unfold initOnly
  rw [Kernel.setProc_procs]
  split <;> exact ⟨rfl, rfl, rfl, rfl, rfl, rfl⟩

/-- `init` makes itself a worker. -/
def becomesWorker : List BeatLabel := [.create 0 twoPages ⟨agentTypeWorker, 0, 0, true, 0, 0, 0⟩]

def workerBeats : BeatSystem := (beatMachine.run bootBeats becomesWorker).getD bootBeats

def setsBeat : BeatSystem := (beatMachine.next workerBeats (.heartbeatSet 0 2)).getD workerBeats

def fiveTicks : List BeatLabel := [.tick, .tick, .watch 0 2, .tick, .tick, .tick]

set_option maxRecDepth 100000 in
theorem heartbeat_schedule_five :
    (∃ signals, ((beatMachine.run setsBeat fiveTicks).getD setsBeat).fired 0 =
        workerBeats.fired 0 ++ signals ∧ signals.Nodup ∧ ∀ τ, τ ∈ signals ↔
          τ ≤ ((beatMachine.run setsBeat fiveTicks).getD setsBeat).kernel.ticks ∧
            ∃ n, 1 ≤ n ∧ τ = workerBeats.kernel.ticks + n * (2 : ℤ).toNat + 1) ∧
      (beatMachine.next ((beatMachine.run setsBeat fiveTicks).getD setsBeat) .tick).isSome :=
  heartbeat_schedule ⟨_, bootBeats_init, pathOk_run_getD (by decide +kernel)⟩ (by decide +kernel)
    (by decide) (next_getD (by decide +kernel)) (pathOk_run_getD (by decide +kernel))

set_option maxRecDepth 100000 in
example : ((beatMachine.run setsBeat fiveTicks).getD setsBeat).fired 0 = [3, 5] := by decide +kernel

end AgentOS
