import AgentOS.Proof.Schedule
import AgentOS.Proof.Wait

/-!
# A sleeper has a wake source

* `Sound`: no call leaves a heartbeat that is not on the wheel. `agent_create` does so with a negative
  argument, where its workflow refuses it, and where it fails for want of memory;
  `agent_proc_heartbeat_set` does so once the loop is DONE.
* `Wakeable`: what then holds of every process; `wakeable_call`, `wakeable_tick`.
* **`sleeper_armed`**: whoever sleeps in `agent_proc_wait` has a timeout, a heartbeat or a watch.
* `sleeper_unarmed`: without the condition one sleeps for ever.
-/

namespace AgentOS

open Machine

/-- Process `i` is linked in the heartbeat wheel. -/
def Kernel.linkedInWheel (k : Kernel) (i : Slot) : Prop :=
  ∃ b l, Chain.Linked k.wheelLinks (agentWheelProc (k.agentGlobal.heartbeatWheelHeads b)) l ∧ i ∈ l

/-- Process `i` has a wake source. -/
def BeatSystem.Armed (s : BeatSystem) (i : Slot) : Prop :=
  0 < (s.proc i).loop.waitDeadline ∨
    (s.kernel.linkedInWheel i ∧ 0 < (s.proc i).hb.heartbeatInterval) ∨
    (s.proc i).loop.watchMask ≠ 0

instance (p : Proc) (a : CreateArgs) : Decidable (RegionFails p a) :=
  inferInstanceAs (Decidable (_ ∧ _))

instance (f : Fin agentWorkflowMax → AgentWorkflow) (m : Membership) (type : ℤ) :
    Decidable (JoinRefused f m type) := inferInstanceAs (Decidable (_ ∧ _))

/-- The call leaves no heartbeat that is not on the wheel. -/
def Sound (s : BeatSystem) : BeatLabel → Prop
  | .create i _ a =>
    if RegionFails (s.proc i) a then (s.proc i).hb.heartbeatInterval = 0
    else 0 ≤ a.heartbeatInterval ∧
      (JoinRefused s.kernel.agentGlobal.workflows (s.proc i).wf a.type → a.heartbeatInterval = 0)
  | .heartbeatSet i n =>
    (s.proc i).ident.agentType = agentTypeNormal ∨ n ≤ 0 ∨ ¬ s.Done i
  | _ => True

instance (s : BeatSystem) (l : BeatLabel) : Decidable (Sound s l) := by
  apply @BeatLabel.casesOn fun l => Decidable (Sound s l)
  all_goals
    intros
    dsimp only [Sound]
    infer_instance

/-- A heartbeat that `agent_tick` signals. -/
structure Beats (p : Proc) : Prop where
  on : heartbeatOn p
  active : p.hb.heartbeatWheelActive = true
  bucket : p.hb.heartbeatWheelBucket = (wheelBucket p.hb.heartbeatDeadline : ℕ)

/-- **The invariant of one process**, which is inside `agent_proc_wait` if `waiting`. -/
structure Wakeable (waiting : Bool) (p : Proc) : Prop where
  beats : p.live → p.killed = false → p.hb.heartbeatInterval = 0 ∨ Beats p
  gone : p.live → Gone p → p.killed = true
  count : 0 ≤ p.mailbox.count
  waits : waiting = true → p.live ∧
    (p.killed = true ∨ 0 < p.loop.waitDeadline ∨ Beats p ∨ p.loop.watchMask ≠ 0)
  awake : waiting = true → p.state = .sleeping → p.killed = false

structure WakeInv (s : BeatSystem) : Prop where
  wheel : Wheeled s
  each : ∀ i, Wakeable (s.waiting i) (s.proc i)

section

variable {s t : BeatSystem} {l : BeatLabel} {x i : Slot} {p q : Proc} {now now' : ℕ} {w : Bool}

/-! ### A round of the wait loop -/

/-- Fields that a round leaves alone. -/
theorem round_keeps : (agentProcWaitIter i p now now').1.killed = p.killed ∧
    (agentProcWaitIter i p now now').1.loop.waitDeadline = p.loop.waitDeadline ∧
    (agentProcWaitIter i p now now').1.loop.watchMask = p.loop.watchMask := by
  unfold agentProcWaitIter
  split_ifs <;> exact ⟨rfl, rfl, rfl⟩

theorem iter_count (hc : 0 ≤ p.mailbox.count) :
    0 ≤ (agentProcWaitIter i p now now').1.mailbox.count := by
  unfold agentProcWaitIter
  split_ifs with hgone hcount
  · exact hc
  · change 0 ≤ p.mailbox.count - 1
    omega
  all_goals exact hc

/-- It raises no PARENT_GONE, and without one an Agent that is not killed is not DONE after it. -/
theorem iter_gone (hgone : ¬ Gone p) : ¬ Gone (agentProcWaitIter i p now now').1 := by
  have hmsg : ∀ v : BitVec 32, v &&& agentEventParentGone = 0 →
      (v ||| agentEventMessage) &&& agentEventParentGone = 0 := by
    intro v hv
    have h0 : agentEventMessage &&& agentEventParentGone = 0 := by decide
    rw [BitVec.and_or_distrib_right, hv, h0]
    rfl
  have hzero : p.loop.pendingEvents &&& agentEventParentGone = 0 := not_not.1 hgone
  unfold agentProcWaitIter
  rw [if_neg (not_not.2 hzero)]
  split_ifs
  · intro hc
    unfold Gone agentProcWaitMessage waitFinish at hc
    dsimp only at hc
    split_ifs at hc
    · exact hc (hmsg _ hzero)
    · exact hgone (Mask.of_clear hc)
  · exact fun hc => hgone (Mask.of_clear hc)
  · exact fun hc => hgone (Mask.of_clear hc)
  · exact hgone
  · exact hgone
  · exact hgone

theorem iter_notDone (hgone : ¬ Gone p) (hk : p.killed = false)
    (hdone : p.loop.loopState ≠ agentLoopDone) :
    (agentProcWaitIter i p now now').1.loop.loopState ≠ agentLoopDone := by
  have hzero : p.loop.pendingEvents &&& agentEventParentGone = 0 := not_not.1 hgone
  unfold agentProcWaitIter
  rw [if_neg (not_not.2 hzero)]
  split_ifs with _ _ _ _ hkilled
  · exact show agentLoopReady ≠ agentLoopDone by decide
  · exact show agentLoopReady ≠ agentLoopDone by decide
  · exact show agentLoopReady ≠ agentLoopDone by decide
  · exact show agentLoopReady ≠ agentLoopDone by decide
  · rw [hk] at hkilled
    cases hkilled
  · exact hdone

/-- A heartbeat stays on while the fields it depends on do. -/
theorem Beats.keep (h : Beats p) (hb : SameBeat p q) (hlive : q.live)
    (ht : q.ident.agentType = p.ident.agentType) (hdone : q.loop.loopState ≠ agentLoopDone) :
    Beats q := by
  refine ⟨⟨hlive.1, ?_, hdone, ?_, ?_⟩, hb.active.trans h.active, ?_⟩
  · rw [ht]
    exact h.on.2.1
  · rw [hb.interval]
    exact h.on.2.2.2.1
  · rw [hb.deadline]
    exact h.on.2.2.2.2
  · rw [hb.bucket, hb.deadline]
    exact h.bucket

/-- **A round of the wait loop**, of a process that is not killed or has a wake source. -/
theorem wakeable_round (hlive : p.live)
    (hbeats : p.killed = false → p.hb.heartbeatInterval = 0 ∨ Beats p)
    (hgone : Gone p → p.killed = true) (hcount : 0 ≤ p.mailbox.count)
    (hsource : (agentProcWaitIter i p now now').2 = .asleep → p.killed = true ∨
      0 < p.loop.waitDeadline ∨ Beats p ∨ p.loop.watchMask ≠ 0) :
    Wakeable ((agentProcWaitIter i p now now').2 == .asleep) (agentProcWaitIter i p now now').1 := by
  obtain ⟨hk, hd, hwatch⟩ := round_keeps (i := i) (p := p)
  have hl : (agentProcWaitIter i p now now').1.live := iter_live hlive
  have hsame : SameBeat p (agentProcWaitIter i p now now').1 := SameBeat.of_hb (iter_hb now')
  have htype : (agentProcWaitIter i p now now').1.ident.agentType = p.ident.agentType := by
    rw [iter_type]
  have hkeep : p.killed = false → Beats p → Beats (agentProcWaitIter i p now now').1 := by
    intro hnk hb
    refine hb.keep hsame hl htype (iter_notDone (fun hg => ?_) hnk hb.on.2.2.1)
    rw [hgone hg] at hnk
    cases hnk
  refine ⟨fun _ hnk => ?_, fun _ hg => ?_, iter_count hcount, fun hw => ⟨hl, ?_⟩, fun hw hs => ?_⟩
  · rw [hk] at hnk
    rcases hbeats hnk with h0 | hb
    · exact .inl (hsame.interval.trans h0)
    · exact .inr (hkeep hnk hb)
  · rw [hk]
    by_contra hnk
    exact iter_gone (fun hg' => hnk (hgone hg')) hg
  · have hasleep : (agentProcWaitIter i p now now').2 = .asleep := by simpa using hw
    rw [hk, hd, hwatch]
    rcases hsource hasleep with h | h | h | h
    · exact .inl h
    · exact .inr (.inl h)
    · by_cases hnk : p.killed = true
      · exact .inl hnk
      · exact .inr (.inr (.inl (hkeep (by simpa using hnk) h)))
    · exact .inr (.inr (.inr h))
  · have hasleep : (agentProcWaitIter i p now now').2 = .asleep := by simpa using hw
    have he : agentProcWaitIter i p now now' = (_, .asleep) := Prod.ext rfl hasleep
    rw [hk]
    exact (iter_asleep hcount he).2.1

/-! ### The calls -/

theorem not_gone_of_zero (h : p.loop.pendingEvents = 0) : ¬ Gone p := by
  unfold Gone
  rw [h]
  decide

/-- A process outside `agent_proc_wait`. -/
theorem wakeable_outside (hbeats : p.live → p.killed = false → p.hb.heartbeatInterval = 0 ∨ Beats p)
    (hgone : p.live → Gone p → p.killed = true) (hcount : 0 ≤ p.mailbox.count)
    (hw : w = false) : Wakeable w p := by
  subst hw
  exact ⟨hbeats, hgone, hcount, fun e => absurd e (by simp), fun e => absurd e (by simp)⟩

/-- What others do. -/
theorem Wakeable.aside (h : Wakeable w p) (ha : Aside w p q)
    (hk : q.killed = p.killed ∨ q.killed = true ∧ q.state ≠ .sleeping) : Wakeable w q := by
  have hkilled : q.killed = false → p.killed = false := by
    intro hq
    rcases hk with hk | hk
    · rw [← hk]
      exact hq
    · rw [hk.1] at hq
      cases hq
  have hkeep : p.live → Beats p → Beats q := by
    intro hl hb
    refine hb.keep ha.toSameBeat (ha.live.2 hl) ha.type ?_
    rcases ha.done with hd | hd
    · rw [hd]
      exact hb.on.2.2.1
    · exact hd
  have hup : p.killed = true → q.killed = true := by
    intro hp
    rcases hk with hk | hk
    · rw [hk]
      exact hp
    · exact hk.1
  refine ⟨fun hl hq => ?_, fun hl hg => ?_, ha.count h.count, fun hw => ?_, fun hw hs => ?_⟩
  · rcases h.beats (ha.live.1 hl) (hkilled hq) with h0 | hb
    · exact .inl (ha.interval.trans h0)
    · exact .inr (hkeep (ha.live.1 hl) hb)
  · exact hup (h.gone (ha.live.1 hl) (ha.gone hg))
  · obtain ⟨hl, hsource⟩ := h.waits hw
    obtain ⟨hwatch, hdeadline, -⟩ := ha.still hw
    refine ⟨ha.live.2 hl, ?_⟩
    rw [hwatch, hdeadline]
    rcases hsource with hs | hs | hs | hs
    · exact .inl (hup hs)
    · exact .inr (.inl hs)
    · exact .inr (.inr (.inl (hkeep hl hs)))
    · exact .inr (.inr (.inr hs))
  · rcases hk with hk | hk
    · rw [hk]
      exact h.awake hw ((ha.still hw).2.2 hs)
    · exact absurd hs hk.2

/-- The sweep kills and wakes. -/
theorem Wakeable.swept (h : Wakeable w p) (hb : Beside (cascadeKill p now) q) : Wakeable w q := by
  have hkilled : q.killed = true := hb.killed
  refine ⟨fun _ hq => ?_, fun _ _ => hkilled, ?_, fun hw => ⟨?_, .inl hkilled⟩, fun hw hs => ?_⟩
  · rw [hkilled] at hq
    cases hq
  · rw [hb.count]
    exact h.count
  · exact hb.live.2 (cascadeKill_live.2 (h.waits hw).1)
  · have hsleeps := hb.sleeps hs
    unfold cascadeKill at hsleeps
    dsimp only at hsleeps
    split at hsleeps
    · cases hsleeps
    · contradiction

/-- A process that takes its heartbeat off the wheel has none after it. -/
theorem Wakeable.unlinked (h : Wakeable w p) (hw : w = false) (hu : Unlinked p q)
    (h0 : p.hb.heartbeatInterval = 0) : Wakeable w q := by
  refine wakeable_outside (fun _ _ => .inl (hu.interval.trans h0)) (fun hl hg => ?_) ?_ hw
  · rw [hu.beside.killed]
    exact h.gone (hu.beside.live.1 hl) (hu.beside.gone.1 hg)
  · rw [hu.beside.count]
    exact h.count

/-- **A call keeps the invariant of a process.** -/
theorem wakeable_call (h : Wakeable (s.waiting x) (s.proc x)) (hok : Sound s l)
    (hs : BeatStep s l t x) : Wakeable (t.waiting x) (t.proc x) := by
  have hround : ∀ (p : Proc) (now' : ℕ), t = s.waitRound x p now' →
      Wakeable ((agentProcWaitIter x p s.kernel.ticks now').2 == .asleep)
        (agentProcWaitIter x p s.kernel.ticks now').1 → Wakeable (t.waiting x) (t.proc x) := by
    rintro p now' rfl hp
    have hw : (s.waitRound x p now').waiting x =
        ((agentProcWaitIter x p s.kernel.ticks now').2 == .asleep) := Function.update_self ..
    rw [hw, waitRound_proc]
    exact hp
  cases hs with
  | aside ha hk hw => rw [hw]; exact h.aside ha (.inl hk)
  | killed ha hk hs hw => rw [hw]; exact h.aside ha (.inr ⟨hk, hs⟩)
  | swept hb _ hw => rw [hw]; exact h.swept hb
  | finished _ hc hp hw =>
    rw [hw, hp]
    refine wakeable_outside (fun _ _ => .inl rfl) (fun _ hg => ?_) le_rfl hc.2.2
    exact absurd hg (not_gone_of_zero rfl)
  | set hl hc htype hpos hq hw =>
    subst hl
    rw [hw]
    have hdone : ¬ s.Done x := by
      rcases hok with hok | hok | hok
      · exact absurd hok htype
      · omega
      · exact hok
    refine wakeable_outside (fun _ _ => .inr ?_) (fun _ hg => ?_) ?_ hc.2.2
    · have hact := hq.active.2 hdone
      refine ⟨⟨(hq.beside.live.2 hc.1).1, ?_, ?_, ?_, ?_⟩, hact, hq.bucket hact⟩
      · rw [hq.beside.type]
        exact htype
      · rw [hq.beside.loopState]
        exact fun hd => hdone ((loop_ready_done _).1 hd)
      · rw [hq.interval]
        exact hpos
      · rw [hq.deadline]
        omega
    · rw [hq.beside.killed]
      exact h.gone hc.1 (Mask.of_clear (hq.beside.gone.1 hg))
    · rw [hq.beside.count]
      exact h.count
  | @stopped p _ hc hu hp hw =>
    rw [hw, hp]
    refine wakeable_outside (fun _ _ => .inl rfl) (fun hl hg => ?_) ?_ hc.2.2
    · have hpk : p.killed = true := by
        rw [hu.beside.killed]
        exact h.gone (hu.beside.live.1 hl) (hu.beside.gone.1 (Mask.of_clear hg))
      exact hpk
    · change 0 ≤ p.mailbox.count
      rw [hu.beside.count]
      exact h.count
  | unlinked hl hc hfail hu hw =>
    subst hl
    unfold Sound at hok
    dsimp only at hok
    rw [if_pos hfail] at hok
    rw [hw]
    exact h.unlinked hc.2.2 hu hok
  | created hl hc hroom hq hw =>
    subst hl
    unfold Sound at hok
    dsimp only at hok
    rw [if_neg hroom] at hok
    rw [hw]
    refine wakeable_outside (fun _ _ => ?_) (fun _ hg => absurd hg hq.gone) hq.count.ge hc.2.2
    rcases hok.1.lt_or_eq with hpos | h0
    · have hon : heartbeatOn (t.proc x) := (hq.toPrepared.on hc.1).2 hpos
      have hact : (t.proc x).hb.heartbeatWheelActive = true := by
        refine hq.active.2 ⟨hpos, fun hj => ?_⟩
        have h0 := hok.2 hj
        omega
      exact .inr ⟨hon, hact, hq.bucket hact⟩
    · exact .inl (hq.interval.trans h0.symm)
  | fresh hdead _ hhb hloop hbox hw =>
    have hno : s.waiting x = false := by
      by_contra hc
      exact hdead (h.waits (by simpa using hc)).1
    rw [hw]
    refine wakeable_outside (fun _ _ => .inl ?_) (fun _ hg => ?_) ?_ hno
    · rw [hhb]
      rfl
    · refine absurd hg (not_gone_of_zero ?_)
      rw [hloop]
      rfl
    · rw [hbox]
      rfl
  | exited _ hs _ hno hcount hw =>
    rw [hw]
    refine wakeable_outside (fun hl => absurd hs hl.2) (fun hl => absurd hs hl.2) ?_ hno
    rw [hcount]
    exact h.count
  | @begins n now' _ hc htype hsrc ht =>
    refine hround _ now' ht ?_
    set p := agentProcWaitBegin (s.proc x) n s.kernel.ticks with hp
    have hkeep : Beats (s.proc x) → Beats p := fun hb =>
      ⟨⟨hc.1.1, htype, show agentLoopWaiting ≠ agentLoopDone by decide, hb.on.2.2.2⟩,
        hb.active, hb.bucket⟩
    refine wakeable_round hc.1 (fun _ => ?_) (h.gone hc.1) h.count fun hasleep => .inr ?_
    · rcases h.beats hc.1 hc.2.1 with h0 | hb
      · exact .inl h0
      · exact .inr (hkeep hb)
    · -- asleep, so the mailbox is empty: some other source has passed the test
      have hcount : 0 ≤ p.mailbox.count := h.count
      have hempty : p.mailbox.count = 0 := (iter_asleep (i := x) hcount (Prod.ext rfl hasleep)).1.mailbox
      by_cases hn : 0 < n
      · left
        change 0 < if 0 < n then s.kernel.ticks + n.toNat else 0
        rw [if_pos hn]
        omega
      by_cases hwatch : (s.proc x).loop.watchMask = 0
      · have hint : (s.proc x).hb.heartbeatInterval ≠ 0 := fun h0 =>
          hsrc ⟨h0, hwatch, hempty, by omega⟩
        exact .inr (.inl (hkeep ((h.beats hc.1 hc.2.1).resolve_left hint)))
      · exact .inr (.inr hwatch)
  | @round now' _ hw _ ht =>
    refine hround _ now' ht ?_
    obtain ⟨hl, hsource⟩ := h.waits hw
    have hkeep : Beats (s.proc x) → Beats (agentProcWaitResume (s.proc x)) := fun hb =>
      ⟨⟨by simp [agentProcWaitResume], hb.on.2⟩, hb.active, hb.bucket⟩
    refine wakeable_round (resume_live _) (fun hk => ?_) (h.gone hl) h.count fun _ => ?_
    · rcases h.beats hl hk with h0 | hb
      · exact .inl h0
      · exact .inr (hkeep hb)
    · rcases hsource with hs | hs | hs | hs
      · exact .inl hs
      · exact .inr (.inl hs)
      · exact .inr (.inr (.inl (hkeep hs)))
      · exact .inr (.inr (.inr hs))

/-- **A tick keeps it**: a heartbeat that is signalled goes back on the wheel. -/
theorem wakeable_tick {fired : List ℕ} (h : Wakeable w p) (ht : Ticked now p q fired) :
    Wakeable w q := by
  have hspec : Beside p q ∧ q.hb.heartbeatInterval = p.hb.heartbeatInterval ∧
      (p.live → Beats p → Beats q) := by
    by_cases hin : p.hb.heartbeatWheelActive = true ∧
        p.hb.heartbeatWheelBucket = (wheelBucket now : ℕ)
    · obtain ⟨hv, -⟩ := ht.visited hin.1 hin.2
      refine ⟨hv.beside, hv.interval, fun _ hb => ?_⟩
      have hact := hv.active.2 hb.on
      refine ⟨(hv.beside.on hv.interval ?_).2 hb.on, hact, hv.bucket hact⟩
      have hpos := hb.on.2.2.2.1
      have hdead := hb.on.2.2.2.2
      rw [hv.deadline]
      split
      · exact iff_of_true (by omega) hdead
      · exact Iff.rfl
    · obtain ⟨hbeside, hs, -⟩ := ht.left hin
      refine ⟨hbeside, hs.interval, fun hl hb => hb.keep hs (hbeside.live.2 hl) hbeside.type ?_⟩
      rw [hbeside.loopState]
      exact hb.on.2.2.1
  obtain ⟨hb, hint, hkeep⟩ := hspec
  refine ⟨fun hl hk => ?_, fun hl hg => ?_, ?_, fun hw => ?_, fun hw hs => ?_⟩
  · rw [hb.killed] at hk
    rcases h.beats (hb.live.1 hl) hk with h0 | hbe
    · exact .inl (hint.trans h0)
    · exact .inr (hkeep (hb.live.1 hl) hbe)
  · rw [hb.killed]
    exact h.gone (hb.live.1 hl) (hb.gone.1 hg)
  · rw [hb.count]
    exact h.count
  · obtain ⟨hl, hsource⟩ := h.waits hw
    refine ⟨hb.live.2 hl, ?_⟩
    rw [hb.killed, hb.waitDeadline, hb.watch]
    rcases hsource with hs | hs | hs | hs
    · exact .inl hs
    · exact .inr (.inl hs)
    · exact .inr (.inr (.inl (hkeep hl hs)))
    · exact .inr (.inr (.inr hs))
  · rw [hb.killed]
    exact h.awake hw (hb.sleeps hs)

/-! ### Runs -/

theorem wakeInv_init (h : beatMachine.init s) : WakeInv s := by
  refine ⟨wheeled_init h, fun i => ?_⟩
  obtain ⟨hhb, -, hloop, hbox, hw, -⟩ := h.2.2 i
  refine wakeable_outside (fun _ _ => .inl ?_) (fun _ hg => ?_) ?_ hw
  · rw [hhb]
    rfl
  · refine absurd hg (not_gone_of_zero ?_)
    rw [hloop]
    rfl
  · rw [hbox]
    rfl

theorem wakeInv_step (h : WakeInv s) (hok : Sound s l) (ht : beatMachine.next s l = some t) :
    WakeInv t := by
  obtain ⟨f, hf⟩ := h.wheel.lists
  by_cases hl : l = .tick
  · subst hl
    have hb := beat_tick hf ht
    refine ⟨wheeled_tick h.wheel ht, fun i => ?_⟩
    obtain ⟨fired, hx, -⟩ := hb.each i
    rw [hb.waiting]
    exact wakeable_tick (h.each i) hx
  · have hb := beat_step hf h.wheel.idle hl ht
    exact ⟨wheeled_call h.wheel hl ht, fun i => wakeable_call (h.each i) hok (hb.each i)⟩

/-- A heartbeat that `agent_tick` signals is on a list of the wheel. -/
theorem Beats.linked (h : Wheeled s) (hb : Beats (s.proc i)) : s.kernel.linkedInWheel i := by
  obtain ⟨f, hf⟩ := h.lists
  exact ⟨_, _, hf.linked (wheelBucket (s.proc i).hb.heartbeatDeadline),
    (hf.mem _ i).2 ⟨hb.active, hb.bucket⟩⟩

/-- **Nobody sleeps in `agent_proc_wait` without a wake source**, in a run in which no call leaves a
heartbeat that is not on the wheel. -/
theorem sleeper_armed {tr : List BeatLabel} (h : beatMachine.Reach Sound tr s)
    (hw : s.waiting i = true) (hs : (s.proc i).state = .sleeping) : s.Armed i := by
  have hinv : WakeInv s :=
    h.inv (fun _ => wakeInv_init) fun _ _ _ hi hok ht => wakeInv_step hi hok ht
  have hk := (hinv.each i).awake hw hs
  obtain ⟨-, hkilled | hdeadline | hb | hwatch⟩ := (hinv.each i).waits hw
  · rw [hk] at hkilled
    cases hkilled
  · exact .inl hdeadline
  · exact .inr (.inl ⟨hb.linked hinv.wheel, hb.on.2.2.2.1⟩)
  · exact .inr (.inr hwatch)

end

/-- A worker with a heartbeat waits; the clock ticks while it sleeps. -/
def waitsForBeat : List BeatLabel :=
  [.create 0 twoPages ⟨agentTypeWorker, 100, 0, true, 0, 0, 0⟩, .tick, .wait 0 0 1, .tick]

set_option maxRecDepth 100000 in
theorem sleeper_armed_beat :
    ((beatMachine.run bootBeats waitsForBeat).getD bootBeats).Armed 0 :=
  sleeper_armed ⟨_, bootBeats_init, pathOk_run_getD (by decide +kernel)⟩ (by decide +kernel)
    (by decide +kernel)

/-! ### Sleepers that nothing wakes -/

/-- Its heartbeat is negative. -/
def waitsNegative : List BeatLabel :=
  [.create 0 twoPages ⟨agentTypeWorker, -1, 0, true, 0, 0, 0⟩, .wait 0 0 0]

/-- It has ended its loop before it sets its heartbeat. -/
def waitsAfterDone : List BeatLabel :=
  [.create 0 twoPages ⟨agentTypeWorker, 0, 0, true, 0, 0, 0⟩, .finish 0, .heartbeatSet 0 5,
    .wait 0 0 0]

def afterRun (tr : List BeatLabel) : BeatSystem := (beatMachine.run bootBeats tr).getD bootBeats

theorem unlinked_of_empty {k : Kernel} {i : Slot}
    (h : ∀ b, k.agentGlobal.heartbeatWheelHeads b = 0) : ¬ k.linkedInWheel i := by
  rintro ⟨b, l, hl, hi⟩
  rw [h b] at hl
  cases hl
  cases hi

set_option maxRecDepth 100000 in
/-- **The Agent sleeps, and nothing is armed.** -/
theorem sleeper_unarmed :
    (beatMachine.Reach always waitsNegative (afterRun waitsNegative) ∧
      (afterRun waitsNegative).waiting 0 = true ∧
      ((afterRun waitsNegative).proc 0).state = .sleeping ∧ ¬ (afterRun waitsNegative).Armed 0) ∧
    beatMachine.Reach always waitsAfterDone (afterRun waitsAfterDone) ∧
      (afterRun waitsAfterDone).waiting 0 = true ∧
      ((afterRun waitsAfterDone).proc 0).state = .sleeping ∧
      ¬ (afterRun waitsAfterDone).Armed 0 := by
  refine ⟨⟨⟨_, bootBeats_init, path_getD (by decide +kernel)⟩, by decide +kernel,
    by decide +kernel, ?_⟩, ⟨_, bootBeats_init, path_getD (by decide +kernel)⟩, by decide +kernel,
    by decide +kernel, ?_⟩
  · rintro (hd | ⟨hl, -⟩ | hw)
    · exact absurd hd (by decide +kernel)
    · exact unlinked_of_empty (by decide +kernel) hl
    · exact hw (by decide +kernel)
  · rintro (hd | ⟨hl, -⟩ | hw)
    · exact absurd hd (by decide +kernel)
    · exact unlinked_of_empty (by decide +kernel) hl
    · exact hw (by decide +kernel)

end AgentOS
