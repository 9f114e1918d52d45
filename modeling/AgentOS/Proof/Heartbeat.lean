import AgentOS.Proof.Marked
import AgentOS.Proof.WheelTick

/-!
# What a call does to a heartbeat

* `BeatStep`: what one step of the machine of heartbeats makes of one process; its own calls are
  named, those of others leave it `aside`, kill it, or sweep it.
* **`beat_step`**, **`beat_tick`**: one call, and one clock interrupt, for every process; the lists of
  the wheel stay lists.
-/

namespace AgentOS

open Machine

/-- What others do to a process, or it does itself, and its heartbeat stays as it is; `waiting` if
it is inside `agent_proc_wait`. -/
structure Aside (waiting : Bool) (p q : Proc) : Prop extends SameBeat p q where
  type : q.ident.agentType = p.ident.agentType
  unused : q.state = .unused ↔ p.state = .unused
  zombie : q.state = .zombie ↔ p.state = .zombie
  done : q.loop.loopState = p.loop.loopState ∨ q.loop.loopState ≠ agentLoopDone
  gone : Gone q → Gone p
  count : 0 ≤ p.mailbox.count → 0 ≤ q.mailbox.count
  still : waiting = true → q.loop.watchMask = p.loop.watchMask ∧
    q.loop.waitDeadline = p.loop.waitDeadline ∧ (q.state = .sleeping → p.state = .sleeping)

/-- The heartbeat of `q` is off the wheel, with the interval and the deadline of `p`. -/
structure Unlinked (p q : Proc) : Prop where
  beside : Beside p q
  interval : q.hb.heartbeatInterval = p.hb.heartbeatInterval
  deadline : q.hb.heartbeatDeadline = p.hb.heartbeatDeadline
  active : q.hb.heartbeatWheelActive = false

/-- What `agent_create` makes of its caller once the region is there, the wheel apart. -/
structure Prepared (k : Kernel) (i : Slot) (a : CreateArgs) (q : Proc) : Prop where
  interval : q.hb.heartbeatInterval = a.heartbeatInterval
  deadline : q.hb.heartbeatDeadline =
    if 0 < a.heartbeatInterval then a.now + a.heartbeatInterval.toNat else 0
  type : q.ident.agentType ≠ agentTypeNormal
  state : q.state = (k.procs i).state
  killed : q.killed = (k.procs i).killed
  loopState : q.loop.loopState = agentLoopReady
  gone : ¬ Gone q
  count : q.mailbox.count = 0

/-- The same, the wheel included. -/
structure Created (k : Kernel) (i : Slot) (a : CreateArgs) (q : Proc) : Prop
    extends Prepared k i a q where
  active : q.hb.heartbeatWheelActive = true ↔
    0 < a.heartbeatInterval ∧ ¬ JoinRefused k.agentGlobal.workflows (k.procs i).wf a.type
  bucket : q.hb.heartbeatWheelActive = true →
    q.hb.heartbeatWheelBucket = (wheelBucket q.hb.heartbeatDeadline : ℕ)

/-- What `agent_proc_heartbeat_set` at tick `now` makes of its caller. -/
structure BeatSet (now : ℕ) (n : ℤ) (p q : Proc) : Prop where
  beside : Beside (heartbeatSetStores p n now) q
  interval : q.hb.heartbeatInterval = n
  deadline : q.hb.heartbeatDeadline = now + n.toNat + 1
  active : q.hb.heartbeatWheelActive = true ↔ p.loop.loopState ≠ agentLoopDone
  bucket : q.hb.heartbeatWheelActive = true →
    q.hb.heartbeatWheelBucket = (wheelBucket q.hb.heartbeatDeadline : ℕ)

/-- **What a step makes of process `x`.** -/
inductive BeatStep (s : BeatSystem) (l : BeatLabel) (t : BeatSystem) (x : Slot) : Prop
  | aside (ha : Aside (s.waiting x) (s.proc x) (t.proc x))
      (hk : (t.proc x).killed = (s.proc x).killed) (hw : t.waiting x = s.waiting x)
      (hf : t.fired x = s.fired x)
  | killed (ha : Aside (s.waiting x) (s.proc x) (t.proc x)) (hk : (t.proc x).killed = true)
      (hs : (t.proc x).state ≠ .sleeping) (hw : t.waiting x = s.waiting x)
      (hf : t.fired x = s.fired x)
  | swept {now : ℕ} (hb : Beside (cascadeKill (s.proc x) now) (t.proc x))
      (hs : SameBeat (cascadeKill (s.proc x) now) (t.proc x)) (hw : t.waiting x = s.waiting x)
      (hf : t.fired x = s.fired x)
  | finished (hl : l = .finish x) (hc : s.canCall x) (hp : t.proc x = agentProcWaitDone (s.proc x))
      (hw : t.waiting x = s.waiting x) (hf : t.fired x = s.fired x)
  | set {interval : ℤ} (hl : l = .heartbeatSet x interval) (hc : s.canCall x)
      (htype : (s.proc x).ident.agentType ≠ agentTypeNormal) (hpos : 0 < interval)
      (hq : BeatSet s.kernel.ticks interval (s.proc x) (t.proc x))
      (hw : t.waiting x = s.waiting x) (hf : t.fired x = s.fired x)
  | stopped {p : Proc} (hl : l = .heartbeatStop x) (hc : s.canCall x) (hb : Unlinked (s.proc x) p)
      (hp : t.proc x = heartbeatStopStores p) (hw : t.waiting x = s.waiting x)
      (hf : t.fired x = s.fired x)
  | unlinked {m : Memory} {a : CreateArgs} (hl : l = .create x m a) (hc : s.canCall x)
      (hfail : RegionFails (s.proc x) a) (hu : Unlinked (s.proc x) (t.proc x))
      (hw : t.waiting x = s.waiting x) (hf : t.fired x = s.fired x)
  | created {m : Memory} {a : CreateArgs} (hl : l = .create x m a) (hc : s.canCall x)
      (hroom : ¬ RegionFails (s.proc x) a)
      (hq : Created s.kernel x { a with now := s.kernel.ticks } (t.proc x))
      (hw : t.waiting x = s.waiting x) (hf : t.fired x = s.fired x)
  | fresh (hs : ¬ (s.proc x).live) (hl : ∀ i, l ≠ .heartbeatSet x i)
      (hb : (t.proc x).hb = Heartbeat.init) (hloop : (t.proc x).loop = Loop.init)
      (hbox : (t.proc x).mailbox = AgentMailbox.empty) (hw : t.waiting x = s.waiting x)
      (hf : t.fired x = s.fired x)
  | exited (hl : l = .exit x) (hs : (t.proc x).state = .zombie)
      (hoff : (t.proc x).hb.heartbeatWheelActive = false) (hwait : s.waiting x = false)
      (hcount : (t.proc x).mailbox.count = (s.proc x).mailbox.count)
      (hw : t.waiting x = s.waiting x) (hf : t.fired x = s.fired x)
  | begins {timeoutTicks : ℤ} {now' : ℕ} (hl : l = .wait x timeoutTicks now') (hc : s.canCall x)
      (htype : (s.proc x).ident.agentType ≠ agentTypeNormal)
      (hsrc : ¬ agentProcWaitNoSource (s.proc x) timeoutTicks)
      (ht : t = s.waitRound x (agentProcWaitBegin (s.proc x) timeoutTicks s.kernel.ticks) now')
  | round {now' : ℕ} (hl : l = .round x now') (hw : s.waiting x = true)
      (hs : (s.proc x).state ≠ .sleeping)
      (ht : t = s.waitRound x (agentProcWaitResume (s.proc x)) now')

/-- A call keeps the lists of the wheel and the time. -/
structure BeatStepped (s : BeatSystem) (l : BeatLabel) (t : BeatSystem) : Prop where
  lists : ∃ f, WheelLists t.kernel f
  ticks : t.kernel.ticks = s.kernel.ticks
  each : ∀ x, BeatStep s l t x

/-- **What the clock interrupt makes of the system.** -/
structure BeatTicked (s t : BeatSystem) : Prop where
  lists : ∃ f, WheelLists t.kernel f
  ticks : t.kernel.ticks = (s.kernel.ticks + 1) % 2 ^ 32
  waiting : t.waiting = s.waiting
  each : ∀ x, ∃ fired, Ticked t.kernel.ticks (s.proc x) (t.proc x) fired ∧
    t.fired x = s.fired x ++ fired

section

variable {s t : BeatSystem} {l : BeatLabel} {x i j : Slot} {p q r : Proc} {k : Kernel}
  {f : Fin agentHeartbeatWheelBuckets → List Slot} {w : Bool} {now : ℕ}

theorem BeatSystem.setProc_self : (s.setProc i p).proc i = p := Kernel.setProc_self _ _ _

theorem BeatSystem.setProc_ne (h : j ≠ i) : (s.setProc i p).proc j = s.proc j :=
  Kernel.setProc_ne _ _ _ _ h

/-! ### What others do -/

theorem aside_of_beside (h : Beside p q) (hb : SameBeat p q) : Aside w p q where
  toSameBeat := hb
  type := h.type
  unused := h.unused
  zombie := h.zombie
  done := .inl h.loopState
  gone := h.gone.1
  count hc := by rw [h.count]; exact hc
  still _ := ⟨h.watch, h.waitDeadline, h.sleeps⟩

theorem Aside.refl (w : Bool) (p : Proc) : Aside w p p :=
  aside_of_beside (Beside.refl p) (SameBeat.refl p)

theorem beatStep_beside (h : Beside (s.proc x) (t.proc x)) (hb : SameBeat (s.proc x) (t.proc x))
    (hw : t.waiting x = s.waiting x) (hf : t.fired x = s.fired x) : BeatStep s l t x :=
  .aside (aside_of_beside h hb) h.killed hw hf

/-- A step that leaves the record of process `x` alone. -/
theorem beatStep_same (hp : t.proc x = s.proc x) (hw : t.waiting x = s.waiting x)
    (hf : t.fired x = s.fired x) : BeatStep s l t x := by
  refine beatStep_beside ?_ ?_ hw hf
  · rw [hp]
    exact Beside.refl _
  · rw [hp]
    exact SameBeat.refl _

/-- A step that leaves the system alone. -/
theorem beatStepped_same (h : WheelLists s.kernel f) : BeatStepped s l s :=
  ⟨⟨f, h⟩, rfl, fun _ => beatStep_same rfl rfl rfl⟩

/-- A store in the record of one process. -/
theorem beatStepped_setProc (h : WheelLists (s.kernel.setProc i p) f)
    (hi : BeatStep s l (s.setProc i p) i) : BeatStepped s l (s.setProc i p) := by
  refine ⟨⟨f, h⟩, rfl, fun x => ?_⟩
  by_cases hx : x = i
  · subst hx
    exact hi
  · exact beatStep_same (BeatSystem.setProc_ne hx) rfl rfl

/-- A store that leaves the heartbeat alone. -/
theorem beatStepped_keep (h : WheelLists s.kernel f) (hp : p.hb = (s.proc i).hb)
    (hi : BeatStep s l (s.setProc i p) i) : BeatStepped s l (s.setProc i p) :=
  beatStepped_setProc (h.keep (congrArg Heartbeat.heartbeatWheelNext hp)
    (congrArg Heartbeat.heartbeatWheelActive hp) (congrArg Heartbeat.heartbeatWheelBucket hp)) hi

/-- A section on the wheel for process `i`. -/
theorem beatStepped_kernel (h : WheelLists k f) (ht : k.ticks = s.kernel.ticks)
    (hothers : ∀ x, x ≠ i → Beside (s.proc x) (k.procs x) ∧ SameBeat (s.proc x) (k.procs x))
    (hi : BeatStep s l (s.setKernel k) i) : BeatStepped s l (s.setKernel k) := by
  refine ⟨⟨f, h⟩, ht, fun x => ?_⟩
  by_cases hx : x = i
  · subst hx
    exact hi
  · exact beatStep_beside (hothers x hx).1 (hothers x hx).2 rfl rfl

/-! ### `agent_create` -/

/-- The stores of `agent_mark_current` keep the lists: its caller is off the wheel. -/
theorem Marked.lists {s t : CascadeState} {a : CreateArgs} (hm : Marked s t i a)
    (h : WheelLists s.kernel f) (hoff : (s.proc i).hb.heartbeatWheelActive = false) :
    WheelLists t.kernel f := by
  have hi : (t.proc i).hb.heartbeatWheelActive = false := by
    rw [hm.hb]
    exact hoff
  have hset : WheelLists (s.kernel.setProc i (t.proc i)) f := h.store hoff hi
  have hprocs : ∀ j, t.kernel.procs j = (s.kernel.setProc i (t.proc i)).procs j := by
    intro j
    rw [Kernel.setProc_procs]
    split
    · rename_i hj
      subst hj
      rfl
    · rename_i hj
      exact hm.others j hj
  refine hset.congr hm.heads (fun j => ?_) fun j => ?_
  · rw [hprocs]
  · unfold SameLink
    rw [hprocs]
    exact ⟨rfl, rfl⟩

/-- The insertion at the end of `agent_create` and of `agent_proc_heartbeat_set`. -/
theorem insert_beside (h : WheelLists k f) (i : Slot) :
    ∃ k' f', agentHeartbeatWheelInsertLocked k i = some k' ∧ WheelLists k' f' ∧
      Relinks k k' ∧ ((k'.procs i).hb.heartbeatWheelActive = true ↔ heartbeatOn (k.procs i)) ∧
      ((k'.procs i).hb.heartbeatWheelActive = true → (k'.procs i).hb.heartbeatWheelBucket =
        (wheelBucket (k'.procs i).hb.heartbeatDeadline : ℕ)) ∧
      ∀ j, j ≠ i → Beside (k.procs j) (k'.procs j) ∧ SameBeat (k.procs j) (k'.procs j) := by
  obtain ⟨k', f', hk, hl, hr, hon, hbucket, hsame⟩ := insert_spec h i
  refine ⟨k', f', hk, hl, hr, hon, fun hact => ?_, fun j hj => ?_⟩
  · rw [hr.deadline]
    exact hbucket hact
  · exact ⟨hr.beside j, hr.sameBeat (hsame j hj)⟩

/-- The fields that the Context and the lists of the wheel leave alone. -/
theorem Prepared.keep {a : CreateArgs} {k₀ : Kernel} (h : Prepared k₀ i a p)
    (hi : q.hb.heartbeatInterval = p.hb.heartbeatInterval)
    (hd : q.hb.heartbeatDeadline = p.hb.heartbeatDeadline)
    (hq : ∃ hb ctx, q = { p with hb := hb, ctx := ctx }) : Prepared k₀ i a q := by
  obtain ⟨hb, ctx, rfl⟩ := hq
  exact ⟨hi.trans h.interval, hd.trans h.deadline, h.type, h.state, h.killed, h.loopState, h.gone,
    h.count⟩

/-- An Agent that is alive goes on the wheel if it has a heartbeat. -/
theorem Prepared.on {a : CreateArgs} (h : Prepared k i a p) (hlive : (k.procs i).live) :
    heartbeatOn p ↔ 0 < a.heartbeatInterval := by
  unfold heartbeatOn
  rw [h.state, h.loopState, h.interval, h.deadline]
  constructor
  · intro hon
    exact hon.2.2.2.1
  · intro hpos
    refine ⟨hlive.1, h.type, by decide, hpos, ?_⟩
    rw [if_pos hpos]
    omega

/-- The call up to the Context: what it has prepared, off the wheel. -/
theorem Marked.prepared {s t : CascadeState} {a : CreateArgs} (h : Marked s t i a)
    (hr : Relinks k s.kernel) : Prepared k i a (t.proc i) := by
  obtain ⟨hb, hp⟩ := hr.frame.2 i
  have hp' : s.proc i = { k.procs i with hb := hb } := hp
  refine ⟨?_, ?_, ?_, ?_, ?_, h.loopState, h.gone, h.count⟩
  · rw [h.hb]
    rfl
  · rw [h.hb]
    rfl
  · rw [h.type]
    exact markType_ne a.type
  · rw [h.state, hp']
  · rw [h.killed, hp']

/-- The end of the call: the Context is cleared, and the process goes on the wheel. -/
theorem created_of_prepared {t : CascadeState} {a : CreateArgs} {k₀ : Kernel}
    (h : WheelLists t.kernel f) (hp : Prepared k₀ i a (t.proc i)) (hlive : (k₀.procs i).live)
    (hjoin : ¬ JoinRefused k₀.agentGlobal.workflows (k₀.procs i).wf a.type)
    (hoff : (t.proc i).hb.heartbeatWheelActive = false) (m : Memory) (ret : ℤ) :
    ∃ t' f', (if 0 < (t.proc i).hb.heartbeatInterval then
        (agentHeartbeatWheelInsertLocked t.kernel i).map fun k => ({ t with kernel := k }, m, ret)
      else some (t, m, ret)) = some (t', m, ret) ∧ WheelLists t'.kernel f' ∧
      t'.kernel.ticks = t.kernel.ticks ∧ Created k₀ i a (t'.proc i) ∧
      ∀ j, j ≠ i → Beside (t.proc j) (t'.proc j) ∧ SameBeat (t.proc j) (t'.proc j) := by
  by_cases hpos : 0 < (t.proc i).hb.heartbeatInterval
  · rw [if_pos hpos]
    rw [hp.interval] at hpos
    obtain ⟨k', f', hk', hl', hr', hon, hbucket, hsame⟩ := insert_beside h i
    rw [hk']
    obtain ⟨hb, hproc⟩ := hr'.frame.2 i
    have hprep : Prepared k₀ i a (k'.procs i) :=
      hp.keep (hr'.interval i) (hr'.deadline i) ⟨hb, (t.proc i).ctx, hproc⟩
    have hactive : (k'.procs i).hb.heartbeatWheelActive = true := hon.2 ((hp.on hlive).2 hpos)
    exact ⟨{ t with kernel := k' }, f', rfl, hl', hr'.frame.1,
      ⟨hprep, iff_of_true hactive ⟨hpos, hjoin⟩, hbucket⟩, hsame⟩
  · rw [if_neg hpos]
    rw [hp.interval] at hpos
    have hne : (t.proc i).hb.heartbeatWheelActive ≠ true := by simp [hoff]
    exact ⟨t, f, rfl, h, rfl, ⟨hp, iff_of_false hne fun hc => hpos hc.1, fun e => absurd e hne⟩,
      fun j _ => ⟨Beside.refl _, SameBeat.refl _⟩⟩

/-- **`agent_create` ends**; it touches the heartbeat of its caller only, and where it fails for
want of memory it has taken it off the wheel. -/
theorem create_spec (h : WheelLists k f) (hlive : (k.procs i).live) (m : Memory) (a : CreateArgs) :
    ∃ r f', agentCreate ⟨k, fun _ => .idle, fun _ => none⟩ m i a = some r ∧
      WheelLists r.1.kernel f' ∧ r.1.kernel.ticks = k.ticks ∧
      (∀ j, j ≠ i → Beside (k.procs j) (r.1.proc j) ∧ SameBeat (k.procs j) (r.1.proc j)) ∧
      ((RegionFails (k.procs i) a ∧ Unlinked (k.procs i) (r.1.proc i)) ∨
        (¬ RegionFails (k.procs i) a ∧ Created k i a (r.1.proc i))) := by
  obtain ⟨k₁, hrem, hl₁, hr₁, hoff₁, hsame₁⟩ := remove_spec h i
  have hwork : k₁.agentGlobal.workflows = k.agentGlobal.workflows := remove_workflows hrem
  have hothers₁ : ∀ j, j ≠ i → Beside (k.procs j) (k₁.procs j) ∧
      SameBeat (k.procs j) (k₁.procs j) := fun j hj =>
    ⟨hr₁.beside j, hr₁.sameBeat (hsame₁ j hj)⟩
  unfold agentCreate
  rw [hrem, Option.bind_some]
  dsimp only
  set mem := markMemory (CascadeState.proc ⟨k, fun _ => .idle, fun _ => none⟩ i) m a.uvmalloc
  set s₁ : CascadeState := ⟨k₁, fun _ => .idle, fun _ => none⟩
  obtain ⟨hb₁, hp₁⟩ := hr₁.frame.2 i
  have hproc₁ : s₁.proc i = { k.procs i with hb := hb₁ } := hp₁
  have hspec := mark_spec s₁ i a
  dsimp only at hspec
  set r := s₁.agentMarkCurrent i a.type a.heartbeatInterval a.resourceQuota a.uvmalloc a.now a.now'
  rw [hproc₁] at hspec
  obtain ⟨hfail, hres⟩ | ⟨hroom, hmark, hret⟩ := hspec
  · -- no memory for the region
    rw [hres, if_pos rfl]
    exact ⟨_, _, rfl, hl₁, hr₁.frame.1, hothers₁,
      .inl ⟨hfail, hr₁.beside i, hr₁.interval i, hr₁.deadline i, hoff₁⟩⟩
  have hret' : r.2 = -1 ↔ JoinRefused k.agentGlobal.workflows (k.procs i).wf a.type := by
    rw [← hwork]
    exact hret
  have hprep : Prepared k i a (r.1.proc i) := hmark.prepared hr₁
  have hoff₂ : (r.1.proc i).hb.heartbeatWheelActive = false := by
    rw [hmark.hb]
    exact hoff₁
  have hl₂ : WheelLists r.1.kernel _ := hmark.lists hl₁ hoff₁
  have hticks : r.1.kernel.ticks = k.ticks := hmark.ticks.trans hr₁.frame.1
  have hothers₂ : ∀ j, j ≠ i → Beside (k.procs j) (r.1.proc j) ∧
      SameBeat (k.procs j) (r.1.proc j) := by
    intro j hj
    rw [hmark.others j hj]
    exact hothers₁ j hj
  by_cases hneg : r.2 = -1
  · -- the workflow refuses the process
    rw [if_pos hneg]
    have hne : (r.1.proc i).hb.heartbeatWheelActive ≠ true := by simp [hoff₂]
    exact ⟨_, _, rfl, hl₂, hticks, hothers₂, .inr ⟨hroom, hprep,
      iff_of_false hne fun hc => hc.2 (hret'.1 hneg), fun e => absurd e hne⟩⟩
  · rw [if_neg hneg]
    set c := (r.1.proc i).ctx.agentContextClear mem a.now''
    set t := r.1.setProc i { r.1.proc i with ctx := c.1 }
    have hti : t.proc i = { r.1.proc i with ctx := c.1 } := CascadeState.setProc_self _ _ _
    have hprep' : Prepared k i a (t.proc i) :=
      hprep.keep (by rw [hti]) (by rw [hti]) ⟨_, c.1, hti⟩
    have hl₃ : WheelLists t.kernel _ := hl₂.keep rfl rfl rfl
    obtain ⟨t', f', ht', hl', htick', hcreated, hsame'⟩ := created_of_prepared hl₃ hprep' hlive
      (fun hj => hneg (hret'.2 hj)) (by rw [hti]; exact hoff₂) c.2 r.2
    refine ⟨_, f', ht', hl', htick'.trans hticks, fun j hj => ?_, .inr ⟨hroom, hcreated⟩⟩
    have hj' := hsame' j hj
    have htj : t.proc j = r.1.proc j := CascadeState.setProc_ne _ _ _ _ hj
    rw [htj] at hj'
    exact ⟨(hothers₂ j hj).1.trans hj'.1, (hothers₂ j hj).2.trans hj'.2⟩

/-! ### The cascade and `exit` -/

/-- What `agent_cascade_terminate` does to a process. -/
theorem cascade_spec (h : WheelLists k f) (i : Slot) :
    WheelLists (agentCascadeTerminate k i false) f ∧
      (agentCascadeTerminate k i false).ticks = k.ticks ∧
      (agentCascadeTerminate k i false).procs i = k.procs i ∧
      ∀ x, (agentCascadeTerminate k i false).procs x = k.procs x ∨
        ∃ now, (agentCascadeTerminate k i false).procs x = cascadeKill (k.procs x) now := by
  unfold agentCascadeTerminate
  dsimp only
  split
  · exact ⟨h, rfl, rfl, fun x => .inl rfl⟩
  set g := agentWorkflowBeginTerminate k.agentGlobal (k.procs i).wf.key k.ticks
  have hg : g.1.heartbeatWheelHeads = k.agentGlobal.heartbeatWheelHeads := by
    change (agentWorkflowBeginTerminate k.agentGlobal _ _).1.heartbeatWheelHeads = _
    unfold agentWorkflowBeginTerminate
    split
    · rfl
    · dsimp only
      split_ifs <;> rfl
  have hl : WheelLists (k.setGlobal g.1) f := h.global hg
  split
  · exact ⟨hl, rfl, rfl, fun x => .inl rfl⟩
  refine ⟨hl.each fun j => ?_, rfl, ?_, fun x => ?_⟩
  · split <;> exact ⟨rfl, rfl, rfl⟩
  · -- the leader is spared
    refine if_neg fun hc => ?_
    have hself := hc.2.2.2
    simp at hself
  · unfold Kernel.each
    dsimp only
    split
    · exact .inr ⟨_, rfl⟩
    · exact .inl rfl

/-- **`exit` ends**: its caller is a zombie off the wheel, others are swept or left alone. -/
theorem exit_spec (h : WheelLists k f) (i : Slot) :
    ∃ k' f', agentExit k i = some k' ∧ WheelLists k' f' ∧ k'.ticks = k.ticks ∧
      (k'.procs i).state = .zombie ∧ (k'.procs i).hb.heartbeatWheelActive = false ∧
      (k'.procs i).mailbox.count = (k.procs i).mailbox.count ∧
      ∀ x, x ≠ i → ∃ p, (p = k.procs x ∨ ∃ now, p = cascadeKill (k.procs x) now) ∧
        Beside p (k'.procs x) ∧ SameBeat p (k'.procs x) := by
  unfold agentExit
  dsimp only
  set k₁ := if (k.procs i).wf.isWorkflowLeader then agentCascadeTerminate k i false else k with hk₁
  have hsweep : WheelLists k₁ f ∧ k₁.ticks = k.ticks ∧ k₁.procs i = k.procs i ∧
      ∀ x, k₁.procs x = k.procs x ∨ ∃ now, k₁.procs x = cascadeKill (k.procs x) now := by
    rw [hk₁]
    split
    · exact cascade_spec h i
    · exact ⟨h, rfl, rfl, fun x => .inl rfl⟩
  obtain ⟨hl₁, ht₁, hi₁, hx₁⟩ := hsweep
  obtain ⟨k₂, hrem, hl₂, hr₂, hoff₂, hsame₂⟩ := remove_spec hl₁ i
  rw [hrem, Option.map_some]
  set g := agentWorkflowLeave (agentLeaseReapPid k₂.agentGlobal (k₂.procs i).pid) (k₂.procs i).wf
  have hg : g.1.heartbeatWheelHeads = k₂.agentGlobal.heartbeatWheelHeads := leave_heads
  have hl₃ := (hl₂.global hg).keep (i := i)
    (p := { k₂.procs i with wf := g.2, state := .zombie }) rfl rfl rfl
  refine ⟨_, _, rfl, hl₃, hr₂.frame.1.trans ht₁, ?_, ?_, ?_, fun x hx => ?_⟩
  · rw [Kernel.setProc_self]
  · rw [Kernel.setProc_self]
    exact hoff₂
  · rw [Kernel.setProc_self, ← hi₁]
    exact (hr₂.beside i).count
  · rw [Kernel.setProc_ne _ _ _ _ hx]
    exact ⟨k₁.procs x, hx₁ x, hr₂.beside x, hr₂.sameBeat (hsame₂ x hx)⟩

/-! ### The calls -/

/-- **The clock.** -/
theorem beat_tick (h : WheelLists s.kernel f) (ht : beatMachine.next s .tick = some t) :
    BeatTicked s t := by
  obtain ⟨k', f', fired, hc, hl, htick, hx⟩ := tick_spec h
  have ht' : (clockintr s.kernel).map _ = some t := ht
  rw [hc] at ht'
  obtain rfl := Option.some.inj ht'
  refine ⟨⟨f', hl⟩, htick, rfl, fun x => ⟨_, ?_, rfl⟩⟩
  rw [htick]
  exact hx x

theorem step_create {m : Memory} {a : CreateArgs} (h : WheelLists s.kernel f)
    (ht : s.next (.create i m a) = some t) : BeatStepped s (.create i m a) t := by
  unfold BeatSystem.next at ht
  dsimp only at ht
  split at ht <;> [skip; cases ht]
  rename_i hc
  obtain ⟨r, f', hr, hl, htick, hothers, hi⟩ := create_spec h hc.1 m
    { a with now := s.kernel.ticks, now' := s.kernel.ticks, now'' := s.kernel.ticks }
  rw [hr] at ht
  obtain rfl := Option.some.inj ht
  refine beatStepped_kernel hl htick hothers ?_
  obtain ⟨hfail, hu⟩ | ⟨hroom, hq⟩ := hi
  · exact .unlinked rfl hc hfail hu rfl rfl
  · exact .created rfl hc hroom
      ⟨⟨hq.interval, hq.deadline, hq.type, hq.state, hq.killed, hq.loopState, hq.gone, hq.count⟩,
        hq.active, hq.bucket⟩ rfl rfl

/-- A process that sets its loop READY is DONE if it was. -/
theorem loop_ready_done (loop : Loop) : loop.ready.loopState = agentLoopDone ↔
    loop.loopState = agentLoopDone := by
  unfold Loop.ready
  dsimp only
  split
  · rename_i hno
    exact iff_of_false (by decide) hno
  · exact Iff.rfl

/-- **`agent_proc_heartbeat_set` ends**; an Agent that is not DONE is on the wheel after it. -/
theorem heartbeatSet_spec {n : ℤ} (h : WheelLists k f) (hlive : (k.procs i).live)
    (htype : (k.procs i).ident.agentType ≠ agentTypeNormal) (hn : 0 < n) :
    ∃ k' f', agentHeartbeatWheelInsertLocked
        (k.setProc i (heartbeatSetStores (k.procs i) n k.ticks)) i = some k' ∧
      WheelLists k' f' ∧ k'.ticks = k.ticks ∧ BeatSet k.ticks n (k.procs i) (k'.procs i) ∧
      ∀ x, x ≠ i → Beside (k.procs x) (k'.procs x) ∧ SameBeat (k.procs x) (k'.procs x) := by
  set p := heartbeatSetStores (k.procs i) n k.ticks with hp
  have hl₁ : WheelLists (k.setProc i p) f := h.keep rfl rfl rfl
  have hpi : (k.setProc i p).procs i = p := Kernel.setProc_self _ _ _
  obtain ⟨k', f', hk', hl', hr', hon, hbucket, hsame⟩ := insert_beside hl₁ i
  have hstate : p.loop.loopState = agentLoopDone ↔ (k.procs i).loop.loopState = agentLoopDone :=
    loop_ready_done _
  refine ⟨k', f', hk', hl', hr'.frame.1, ⟨?_, ?_, ?_, ?_, hbucket⟩, fun x hx => ?_⟩
  · have hb := hr'.beside i
    rwa [hpi] at hb
  · have hi := hr'.interval i
    rwa [hpi] at hi
  · have hd := hr'.deadline i
    rwa [hpi] at hd
  · refine hon.trans ?_
    rw [hpi]
    constructor
    · intro hb hdone
      exact hb.2.2.1 (hstate.2 hdone)
    · intro hdone
      refine ⟨hlive.1, htype, fun hd => hdone (hstate.1 hd), hn, ?_⟩
      change 0 < k.ticks + n.toNat + 1
      omega
  · have hx' := hsame x hx
    rwa [Kernel.setProc_ne _ _ _ _ hx] at hx'

theorem next_heartbeatSet {n : ℤ} (h : WheelLists s.kernel f) (hc : s.canCall i)
    (htype : (s.proc i).ident.agentType ≠ agentTypeNormal) (hn : 0 < n) :
    ∃ k' f', s.next (.heartbeatSet i n) = some (s.setKernel k') ∧ WheelLists k' f' ∧
      k'.ticks = s.kernel.ticks ∧ BeatSet s.kernel.ticks n (s.proc i) (k'.procs i) ∧
      ∀ x, x ≠ i → Beside (s.proc x) (k'.procs x) ∧ SameBeat (s.proc x) (k'.procs x) := by
  obtain ⟨k', f', hk', hl', htick, hq, hothers⟩ := heartbeatSet_spec h hc.1 htype hn
  refine ⟨k', f', ?_, hl', htick, hq, hothers⟩
  have hno : ¬ ((s.proc i).ident.agentType = agentTypeNormal ∨ n ≤ 0) := by
    rw [not_or, Int.not_le]
    exact ⟨htype, hn⟩
  unfold BeatSystem.next
  dsimp only
  rw [if_pos hc, if_neg hno]
  exact congrArg (Option.map s.setKernel) hk'

theorem step_heartbeatSet {n : ℤ} (h : WheelLists s.kernel f)
    (ht : s.next (.heartbeatSet i n) = some t) : BeatStepped s (.heartbeatSet i n) t := by
  by_cases hno : s.canCall i ∧ (s.proc i).ident.agentType ≠ agentTypeNormal ∧ 0 < n
  · obtain ⟨hc, htype, hn⟩ := hno
    obtain ⟨k', f', hnext, hl', htick, hq, hothers⟩ := next_heartbeatSet h hc htype hn
    obtain rfl := Option.some.inj (hnext.symm.trans ht)
    exact beatStepped_kernel hl' htick hothers (.set rfl hc htype hn hq rfl rfl)
  · unfold BeatSystem.next at ht
    dsimp only at ht
    split at ht <;> [skip; cases ht]
    rename_i hc
    have hrefused : (s.proc i).ident.agentType = agentTypeNormal ∨ n ≤ 0 := by
      by_contra hcon
      rw [not_or, Int.not_le] at hcon
      exact hno ⟨hc, hcon⟩
    rw [if_pos hrefused] at ht
    obtain rfl := Option.some.inj ht
    exact beatStepped_same h

theorem step_heartbeatStop (h : WheelLists s.kernel f) (ht : s.next (.heartbeatStop i) = some t) :
    BeatStepped s (.heartbeatStop i) t := by
  unfold BeatSystem.next at ht
  dsimp only at ht
  split at ht <;> [skip; cases ht]
  rename_i hc
  split at ht
  · obtain rfl := Option.some.inj ht
    exact beatStepped_same h
  obtain ⟨k', hk', hl', hr', hoff, hsame⟩ := remove_spec h i
  rw [hk'] at ht
  obtain rfl := Option.some.inj ht
  refine beatStepped_kernel (i := i) (hl'.keep rfl rfl rfl) hr'.frame.1
    (fun x hx => ?_) ?_
  · rw [Kernel.setProc_ne _ _ _ _ hx]
    exact ⟨hr'.beside x, hr'.sameBeat (hsame x hx)⟩
  · exact .stopped rfl hc ⟨hr'.beside i, hr'.interval i, hr'.deadline i, hoff⟩
      (Kernel.setProc_self _ _ _) rfl rfl

/-- The watch calls store fields of the loop. -/
theorem step_call (h : WheelLists s.kernel f) (ht : s.call i p = some t)
    (hp : (∃ loop, p = { s.proc i with loop := loop }))
    (hdone : p.loop.loopState = (s.proc i).loop.loopState ∨ p.loop.loopState ≠ agentLoopDone)
    (hgone : Gone p → Gone (s.proc i)) : BeatStepped s l t := by
  unfold BeatSystem.call at ht
  split at ht <;> [skip; cases ht]
  rename_i hc
  obtain rfl := Option.some.inj ht
  obtain ⟨loop, rfl⟩ := hp
  refine beatStepped_keep h rfl (.aside ?_ ?_ rfl rfl)
  · rw [BeatSystem.setProc_self]
    refine ⟨SameBeat.of_hb rfl, rfl, Iff.rfl, Iff.rfl, hdone, hgone, id, fun hw => ?_⟩
    rw [hc.2.2] at hw
    cases hw
  · rw [BeatSystem.setProc_self]

theorem ready_state (loop : Loop) :
    loop.ready.loopState = loop.loopState ∨ loop.ready.loopState ≠ agentLoopDone := by
  by_cases hdone : loop.loopState = agentLoopDone
  · exact .inl (((loop_ready_done loop).2 hdone).trans hdone.symm)
  · exact .inr fun hc => hdone ((loop_ready_done loop).1 hc)

theorem step_watch {mask : BitVec 32} (h : WheelLists s.kernel f)
    (ht : s.next (.watch i mask) = some t) : BeatStepped s (.watch i mask) t := by
  refine step_call h ht ?_ ?_ ?_ <;> unfold agentProcWatch <;> split_ifs
  · exact ⟨_, rfl⟩
  · exact ⟨_, rfl⟩
  · exact ⟨_, rfl⟩
  · exact .inl rfl
  · exact .inl rfl
  · exact ready_state _
  · exact id
  · exact id
  · exact id

theorem step_watchFile {dev inum : ℕ} {path : List UInt8} (h : WheelLists s.kernel f)
    (ht : s.next (.watchFile i dev inum path) = some t) :
    BeatStepped s (.watchFile i dev inum path) t := by
  refine step_call h ht ?_ ?_ ?_ <;> unfold agentProcWatchFile <;> split_ifs
  · exact ⟨_, rfl⟩
  · exact ⟨_, rfl⟩
  · exact .inl rfl
  · exact ready_state _
  · exact id
  · exact id

theorem step_unwatch {mask : BitVec 32} (h : WheelLists s.kernel f)
    (ht : s.next (.unwatch i mask) = some t) : BeatStepped s (.unwatch i mask) t := by
  refine step_call h ht ?_ ?_ ?_ <;> unfold agentProcUnwatch <;> split
  · exact ⟨_, rfl⟩
  · exact ⟨_, rfl⟩
  · exact .inl rfl
  · dsimp only
    split_ifs <;> exact .inl rfl
  · exact id
  · intro hg
    unfold Gone at hg
    dsimp only at hg
    generalize (if mask = 0 then 0 else (s.proc i).loop.watchMask &&& ~~~mask) = watch at hg
    split_ifs at hg
    · exact Mask.of_clear (Mask.of_clear hg)
    · exact Mask.of_clear hg
    · exact Mask.of_clear hg
    · exact hg

theorem step_finish (h : WheelLists s.kernel f) (ht : s.next (.finish i) = some t) :
    BeatStepped s (.finish i) t := by
  unfold BeatSystem.next BeatSystem.call at ht
  dsimp only at ht
  split at ht <;> [skip; cases ht]
  rename_i hc
  obtain rfl := Option.some.inj ht
  split
  · refine beatStepped_keep h rfl (beatStep_same BeatSystem.setProc_self rfl rfl)
  · refine beatStepped_setProc (h.keep rfl rfl rfl) ?_
    exact .finished rfl hc BeatSystem.setProc_self rfl rfl

/-- A round of the wait loop leaves the heartbeat alone. -/
theorem iter_hb (now' : ℕ) : (agentProcWaitIter i p now now').1.hb = p.hb := by
  unfold agentProcWaitIter
  split_ifs <;> rfl

theorem stepped_waitRound {now' : ℕ} (h : WheelLists s.kernel f) (hp : p.hb = (s.proc i).hb)
    (hi : BeatStep s l (s.waitRound i p now') i) :
    BeatStepped s l (s.waitRound i p now') := by
  set r := agentProcWaitIter i p s.kernel.ticks now' with hr
  have hhb : r.1.hb = (s.proc i).hb := (iter_hb now').trans hp
  refine ⟨⟨f, h.keep (congrArg Heartbeat.heartbeatWheelNext hhb)
    (congrArg Heartbeat.heartbeatWheelActive hhb) (congrArg Heartbeat.heartbeatWheelBucket hhb)⟩,
    rfl, fun x => ?_⟩
  by_cases hx : x = i
  · subst hx
    exact hi
  · exact beatStep_same (Kernel.setProc_ne _ _ _ _ hx) (Function.update_of_ne hx _ _) rfl

theorem step_wait {n : ℤ} {now' : ℕ} (h : WheelLists s.kernel f)
    (ht : s.next (.wait i n now') = some t) : BeatStepped s (.wait i n now') t := by
  unfold BeatSystem.next at ht
  dsimp only at ht
  split at ht <;> [skip; cases ht]
  rename_i hc
  split at ht <;> obtain rfl := Option.some.inj ht
  · exact beatStepped_same h
  · rename_i hno
    rw [not_or] at hno
    exact stepped_waitRound h rfl (.begins rfl hc hno.1 hno.2 rfl)

theorem step_round {now' : ℕ} (h : WheelLists s.kernel f) (ht : s.next (.round i now') = some t) :
    BeatStepped s (.round i now') t := by
  unfold BeatSystem.next at ht
  dsimp only at ht
  split at ht <;> [skip; cases ht]
  rename_i hc
  obtain rfl := Option.some.inj ht
  exact stepped_waitRound h rfl (.round rfl hc.1 hc.2 rfl)

theorem step_cascade (h : WheelLists s.kernel f) (ht : s.next (.cascade i) = some t) :
    BeatStepped s (.cascade i) t := by
  unfold BeatSystem.next at ht
  dsimp only at ht
  split at ht <;> [skip; cases ht]
  obtain rfl := Option.some.inj ht
  obtain ⟨hl, htick, -, hx⟩ := cascade_spec h i
  refine ⟨⟨f, hl⟩, htick, fun x => ?_⟩
  obtain hsame | ⟨now, hswept⟩ := hx x
  · exact beatStep_same hsame rfl rfl
  · have hp : (s.setKernel (agentCascadeTerminate s.kernel i false)).proc x =
        cascadeKill (s.proc x) now := hswept
    refine .swept (?_ : Beside (cascadeKill _ now) _) ?_ rfl rfl <;> rw [hp]
    · exact Beside.refl _
    · exact SameBeat.refl _

theorem step_kill (h : WheelLists s.kernel f) (ht : s.next (.kill j) = some t) :
    BeatStepped s (.kill j) t := by
  obtain rfl := Option.some.inj ht
  have hawake : (killAt (s.proc j)).state ≠ .sleeping := by
    unfold killAt
    dsimp only
    split
    · simp
    · assumption
  refine beatStepped_keep h rfl (.killed ?_ ?_ ?_ rfl rfl) <;>
    rw [BeatSystem.setProc_self]
  · refine ⟨SameBeat.of_hb rfl, rfl, ?_, ?_, .inl rfl, id, id, fun _ =>
      ⟨rfl, rfl, fun hs => absurd hs hawake⟩⟩
    all_goals
      unfold killAt
      dsimp only
      split
      · rename_i hs
        simp [hs]
      · exact Iff.rfl
  · rfl
  · exact hawake

theorem step_fork {copied : Bool} (h : WheelLists s.kernel f)
    (hidle : ∀ x, ¬ (s.proc x).live → (s.proc x).hb.heartbeatWheelActive = false)
    (ht : s.next (.fork i j copied) = some t) : BeatStepped s (.fork i j copied) t := by
  unfold BeatSystem.next at ht
  dsimp only at ht
  split at ht <;> [skip; cases ht]
  rename_i hc
  obtain rfl := Option.some.inj ht
  have hdead : ¬ (s.proc j).live := fun hlive => hlive.1 hc.2
  have hfresh : ∀ k' : Kernel, k' = s.kernel.forkInto i j copied → ∃ q, k'.procs j = q ∧
      q.hb = Heartbeat.init ∧ q.loop = Loop.init ∧ q.mailbox = AgentMailbox.empty ∧
      k'.ticks = s.kernel.ticks ∧ (∀ x, x ≠ j → k'.procs x = s.kernel.procs x) ∧
      k'.agentGlobal.heartbeatWheelHeads = s.kernel.agentGlobal.heartbeatWheelHeads := by
    rintro k' rfl
    unfold Kernel.forkInto
    dsimp only
    split
    · refine ⟨_, Kernel.setProc_self _ _ _, rfl, rfl, rfl, rfl, fun x hx => ?_, rfl⟩
      exact Kernel.setProc_ne _ _ _ _ hx
    · refine ⟨_, Kernel.setProc_self _ _ _, rfl, rfl, rfl, rfl, fun x hx => ?_, rfl⟩
      exact Kernel.setProc_ne _ _ _ _ hx
  obtain ⟨q, hq, hhb, hloop, hbox, htick, hothers, hheads⟩ := hfresh _ rfl
  set k' := s.kernel.forkInto i j copied
  have hset : WheelLists (s.kernel.setProc j q) f := by
    refine h.store (hidle j hdead) ?_
    rw [hhb]
    rfl
  have hprocs : ∀ x, k'.procs x = (s.kernel.setProc j q).procs x := by
    intro x
    by_cases hx : x = j
    · rw [hx, hq, Kernel.setProc_self]
    · rw [hothers x hx, Kernel.setProc_ne _ _ _ _ hx]
  have hl : WheelLists k' f := by
    refine hset.congr hheads (fun x => by rw [hprocs]) fun x => ?_
    unfold SameLink
    rw [hprocs]
    exact ⟨rfl, rfl⟩
  refine ⟨⟨f, hl⟩, htick, fun x => ?_⟩
  by_cases hx : x = j
  · subst hx
    have hq' : (s.setKernel k').proc x = q := hq
    refine .fresh hdead (by simp) ?_ ?_ ?_ rfl rfl <;> rw [hq']
    · exact hhb
    · exact hloop
    · exact hbox
  · exact beatStep_same (hothers x hx) rfl rfl

theorem step_exit (h : WheelLists s.kernel f) (ht : s.next (.exit i) = some t) :
    BeatStepped s (.exit i) t := by
  unfold BeatSystem.next at ht
  dsimp only at ht
  split at ht <;> [skip; cases ht]
  rename_i hc
  obtain ⟨k', f', hk', hl, htick, hzombie, hoff, hcount, hx⟩ := exit_spec h i
  rw [hk'] at ht
  obtain rfl := Option.some.inj ht
  refine ⟨⟨f', hl⟩, htick, fun x => ?_⟩
  by_cases he : x = i
  · subst he
    exact .exited rfl hzombie hoff hc.2 hcount rfl rfl
  obtain ⟨p, rfl | ⟨now, rfl⟩, hb, hs⟩ := hx x he
  · exact beatStep_beside hb hs rfl rfl
  · exact .swept hb hs rfl rfl

theorem step_reap (h : WheelLists s.kernel f)
    (hidle : ∀ x, ¬ (s.proc x).live → (s.proc x).hb.heartbeatWheelActive = false)
    (ht : s.next (.reap j) = some t) : BeatStepped s (.reap j) t := by
  unfold BeatSystem.next at ht
  dsimp only at ht
  split at ht <;> [skip; cases ht]
  rename_i hzombie
  obtain rfl := Option.some.inj ht
  have hdead : ¬ (s.proc j).live := fun hlive => hlive.2 hzombie
  refine beatStepped_setProc (h.store (hidle j hdead) rfl) ?_
  refine .fresh hdead (by simp) ?_ ?_ ?_ rfl rfl <;> rw [BeatSystem.setProc_self] <;> rfl

theorem step_rest (h : WheelLists s.kernel f) (ht : s.next (.rest j p) = some t) :
    BeatStepped s (.rest j p) t := by
  unfold BeatSystem.next at ht
  dsimp only at ht
  split at ht <;> [skip; cases ht]
  rename_i hkeeps
  obtain rfl := Option.some.inj ht
  obtain ⟨hhb, htype, hkilled, hunused, hzombie, hdone, hwatch, hdeadline, hgone, hcount, hsleep⟩ :=
    hkeeps
  refine beatStepped_keep h hhb (.aside ?_ ?_ rfl rfl) <;> rw [BeatSystem.setProc_self]
  · refine ⟨SameBeat.of_hb hhb, htype, hunused, hzombie, hdone, ?_, hcount, fun hw =>
      ⟨hwatch, hdeadline, hsleep hw⟩⟩
    unfold Gone
    rw [hgone]
    exact id
  · exact hkilled

/-- **One call, every process.** -/
theorem beat_step (h : WheelLists s.kernel f)
    (hidle : ∀ x, ¬ (s.proc x).live → (s.proc x).hb.heartbeatWheelActive = false)
    (hl : l ≠ .tick) (ht : beatMachine.next s l = some t) : BeatStepped s l t := by
  cases l with
  | tick => exact absurd rfl hl
  | create i m a => exact step_create h ht
  | heartbeatSet i n => exact step_heartbeatSet h ht
  | heartbeatStop i => exact step_heartbeatStop h ht
  | watch i mask => exact step_watch h ht
  | unwatch i mask => exact step_unwatch h ht
  | watchFile i dev inum path => exact step_watchFile h ht
  | finish i => exact step_finish h ht
  | wait i n now' => exact step_wait h ht
  | round i now' => exact step_round h ht
  | cascade i => exact step_cascade h ht
  | kill j => exact step_kill h ht
  | fork i j copied => exact step_fork h hidle ht
  | exit i => exact step_exit h ht
  | reap j => exact step_reap h hidle ht
  | rest j p => exact step_rest h ht

end

end AgentOS
