import AgentOS.Model.Wait
import AgentOS.Proof.Wheel

/-!
# No lost wakeup and no missed timeout

* `WaitStep`: what one step of the machine of waiting Agents does to one process. Its own
  sections are named; a section of anybody else only disturbs it (`step_slot`).
* `WaitInv`: an Agent sleeps in `agent_proc_wait` only while nothing is pending for it, and
  `agent_tick` has passed only sleepers whose deadline is still to come.
* **`no_lost_wakeup`**; `wrap_missed`: `ticks` is a 32-bit counter and starts again at zero.
-/

namespace AgentOS

open Machine

/-- Nothing is pending that ends a wait. -/
structure NothingPending (p : Proc) : Prop where
  mailbox : p.mailbox.count = 0
  gone : p.loop.pendingEvents &&& agentEventParentGone = 0
  filemod : p.loop.pendingEvents &&& agentEventFilemod = 0
  heartbeat : p.loop.pendingEvents &&& agentEventHeartbeat = 0

/-- A control point outside `agent_proc_wait`, and not behind a timeout. -/
def LoopCall.outside : LoopCall → Bool
  | .waitEnter _ | .waitLocked _ | .waitTest | .waiting => false
  | .returned ret => ret != agentWaitTimeout
  | _ => true

/-- What a step makes of process `i`. -/
inductive WaitStep (s : LoopSystem) (i : Slot) (t : LoopSystem) : Prop
  | kept (hc : t.calls i = s.calls i) (hd : Disturbs i (s.proc i) (t.proc i))
  | outside (hs : (s.calls i).waits = false) (ht : (t.calls i).waits = false)
      (hr : t.calls i = .returned agentWaitTimeout → s.calls i = .returned agentWaitTimeout)
      (hc : 0 ≤ (s.proc i).mailbox.count → 0 ≤ (t.proc i).mailbox.count)
  | enter {timeoutTicks : ℤ} (hs : (s.calls i).waits = false)
      (ht : t.calls i = .waitEnter timeoutTicks)
      (htype : (s.proc i).ident.agentType ≠ agentTypeNormal) (hp : t.proc i = s.proc i)
  | acquire {timeoutTicks : ℤ} (hs : s.calls i = .waitEnter timeoutTicks)
      (ht : t.calls i = .waitLocked timeoutTicks) (hp : t.proc i = s.proc i)
  | deadline {timeoutTicks : ℤ} (hs : s.calls i = .waitLocked timeoutTicks)
      (ht : t.calls i = .waitTest)
      (hp : t.proc i = agentProcWaitBegin (s.proc i) timeoutTicks s.kernel.ticks)
  | sleep {now' : ℕ} (hs : s.calls i = .waitTest) (ht : t.calls i = .waiting)
      (hk : t.kernel.ticks = s.kernel.ticks)
      (hp : agentProcWaitIter i (s.proc i) s.kernel.ticks now' = (t.proc i, .asleep))
  | back {now' : ℕ} {ret : ℤ} {e : AgentWaitEvent} (hs : s.calls i = .waitTest)
      (ht : t.calls i = .returned ret)
      (hp : agentProcWaitIter i (s.proc i) s.kernel.ticks now' = (t.proc i, .returned ret e))
  | resume (hs : s.calls i = .waiting) (ht : t.calls i = .waitTest)
      (hp : t.proc i = agentProcWaitResume (s.proc i))

/-- **The invariant of waiters.** -/
structure WaitInv (s : LoopSystem) : Prop where
  count : ∀ i, 0 ≤ (s.proc i).mailbox.count
  type : ∀ i, (s.calls i).waits = true → (s.proc i).ident.agentType ≠ agentTypeNormal
  loop : ∀ i, s.calls i = .waitTest ∨ s.calls i = .waiting →
    (s.proc i).loop.loopState = agentLoopWaiting ∨ Gone (s.proc i)
  chan : ∀ i, s.Asleep i → (s.proc i).chan = some (.proc i)
  pending : ∀ i, s.Asleep i → NothingPending (s.proc i)
  killed : ∀ i, s.Asleep i → (s.proc i).killed = false
  onTime : OnTime s.kernel s.clock
  /-- The timeout loop has left nobody behind. -/
  visited : ∀ n m, s.clock = .timeout n m → ∀ j : Slot, (j : ℕ) < m → s.Asleep j →
    0 < (s.proc j).loop.waitDeadline → n < (s.proc j).loop.waitDeadline

/-- The clock does not start again at zero. -/
def NoWrap (s : LoopSystem) (a : LoopLabel) : Prop :=
  a = .clock → s.clock = .idle → s.kernel.ticks + 1 < 2 ^ 32

section

variable {s t u : LoopSystem} {i j : Slot} {a : LoopLabel} {p : Proc} {c : LoopCall}
  {now now' : ℕ} {tr tr' : List LoopLabel}

/-! ### What a step does to a process -/

@[simp] theorem LoopSystem.goto_calls :
    (s.goto i c).calls = Function.update s.calls i c := rfl

@[simp] theorem LoopSystem.goto_proc : (s.goto i c).proc j = s.proc j := rfl

@[simp] theorem LoopSystem.goto_kernel : (s.goto i c).kernel = s.kernel := rfl

@[simp] theorem LoopSystem.setProc_calls : (s.setProc i p).calls = s.calls := rfl

@[simp] theorem LoopSystem.setProc_ticks :
    (s.setProc i p).kernel.ticks = s.kernel.ticks := rfl

@[simp] theorem LoopSystem.setProc_self : (s.setProc i p).proc i = p := by
  simp [LoopSystem.proc, LoopSystem.setProc]

theorem LoopSystem.setProc_ne (h : j ≠ i) : (s.setProc i p).proc j = s.proc j := by
  simp [LoopSystem.proc, LoopSystem.setProc, Kernel.setProc_procs, h]

theorem LoopCall.outside_waits (h : c.outside = true) : c.waits = false := by
  cases c <;> first | rfl | cases h

theorem LoopCall.outside_ne (h : c.outside = true) : c ≠ .returned agentWaitTimeout := by
  rintro rfl
  cases h

/-- A process that goes to a control point outside `agent_proc_wait`. -/
theorem WaitStep.goes_to (hs : (s.calls i).waits = false) (hc : c.outside = true)
    (ht : t.calls i = c) (hm : 0 ≤ (s.proc i).mailbox.count → 0 ≤ (t.proc i).mailbox.count) :
    WaitStep s i t := by
  refine .outside hs ?_ ?_ hm
  · rw [ht]
    exact c.outside_waits hc
  · intro hr
    exact absurd (ht.symm.trans hr) (c.outside_ne hc)

/-- A process that the step leaves alone. -/
theorem WaitStep.same (hc : t.calls i = s.calls i) (hp : t.proc i = s.proc i) : WaitStep s i t :=
  .kept hc (Disturbs.of_eq hp)

/-- A step of process `i` that changes its own record and control point only. -/
theorem step_own (h : WaitStep s i ((s.setProc i p).goto i c)) (j : Slot) :
    WaitStep s j ((s.setProc i p).goto i c) := by
  by_cases hj : j = i
  · subst hj
    exact h
  · refine WaitStep.same ?_ ?_
    · rw [LoopSystem.goto_calls, LoopSystem.setProc_calls, Function.update_of_ne hj]
    · rw [LoopSystem.goto_proc, LoopSystem.setProc_ne hj]

/-- A step of process `i` that changes its control point only. -/
theorem step_goto (h : WaitStep s i (s.goto i c)) (j : Slot) : WaitStep s j (s.goto i c) := by
  by_cases hj : j = i
  · subst hj
    exact h
  · exact WaitStep.same (by rw [LoopSystem.goto_calls, Function.update_of_ne hj]) rfl

/-- A section on slot `j` that leaves the control points alone. -/
theorem step_disturbs (h : Disturbs j (s.proc j) p) (i : Slot) : WaitStep s i (s.setProc j p) := by
  by_cases hi : i = j
  · subst hi
    exact .kept rfl (by rwa [LoopSystem.setProc_self])
  · exact WaitStep.same rfl (LoopSystem.setProc_ne hi)

/-- Process `i`, which is not waiting, stores in slot `j` and goes on. -/
theorem step_store (hs : (s.calls i).waits = false) (hc : c.outside = true)
    (h : Disturbs j (s.proc j) p) (ht : s.store i j p c = some t) (m : Slot) : WaitStep s m t := by
  unfold LoopSystem.store at ht
  split at ht
  · cases ht
  cases ht
  have hd : ∀ m, Disturbs m (s.proc m) (((s.setProc j p).goto i c).proc m) := setProc_disturbs h
  by_cases hm : m = i
  · subst hm
    exact .goes_to hs hc (Function.update_self ..) (hd m).count
  · refine .kept ?_ (hd m)
    rw [LoopSystem.goto_calls, LoopSystem.setProc_calls, Function.update_of_ne hm]

/-! ### What others do to a process -/

theorem deliver_disturbs (srcPid : ℕ) (b : SendArgs) :
    Disturbs j p (agentSendMessageDeliver j p srcPid b now).1 := by
  unfold agentSendMessageDeliver
  split
  · exact Disturbs.of_fields rfl rfl rfl rfl rfl id
  · -- the message is stored before the signal, which wakes the sleeper
    rename_i hroom
    have hd : Disturbs j { p with mailbox := mailboxPut p.mailbox srcPid b }
        (agentSignalEventLocked j { p with mailbox := mailboxPut p.mailbox srcPid b }
          agentEventMessage now) := signal_disturbs _
    refine ⟨hd.type, hd.gone, hd.loop, ?_, hd.wakes, ?_⟩
    · intro hc
      rw [agentSignalEventLocked_mailbox]
      show 0 ≤ p.mailbox.count + 1
      omega
    · intro hc hs
      exfalso
      have hsleep := hd.wakes hs
      unfold agentSignalEventLocked at hs
      dsimp only at hs hsleep
      rw [if_pos ⟨hsleep, hc⟩] at hs
      cases hs

theorem filemod_disturbs : Disturbs j p (agentSignalFilemodAt j p now) := by
  unfold agentSignalFilemodAt
  split
  · exact signal_disturbs _
  · exact Disturbs.refl j p

theorem notify_disturbs (dev inum : ℕ) :
    Disturbs j p (agentNotifyFileModifiedAt j p dev inum now) := by
  unfold agentNotifyFileModifiedAt
  split
  · exact signal_disturbs _
  · exact Disturbs.refl j p

/-- Both ways to kill wake whatever sleep the process is in. -/
theorem woken_ne {st : ProcState} : (if st = .sleeping then ProcState.runnable else st) ≠ .sleeping := by
  split
  · decide
  · assumption

theorem killAt_disturbs : Disturbs j p (killAt p) where
  type := rfl
  gone := id
  loop := .inl rfl
  count := id
  wakes := fun h => absurd h woken_ne
  still := fun _ h => absurd h woken_ne

theorem cascade_disturbs : Disturbs j p (cascadeKill p now) where
  type := rfl
  gone := fun h => gone_or _ h
  loop := by
    right
    show (p.loop.pendingEvents ||| agentEventParentGone) &&& agentEventParentGone ≠ 0
    rw [BitVec.and_or_distrib_right]
    intro h
    exact absurd (BitVec.or_eq_zero_iff.1 h).2 (by decide)
  count := id
  wakes := fun h => absurd h woken_ne
  still := fun _ h => absurd h woken_ne

theorem look_slot (h : s.lookAt i j = some t) (m : Slot) : WaitStep s m t := by
  unfold LoopSystem.lookAt at h
  dsimp only at h
  split at h
  · rename_i b n hcall
    have hs : (s.calls i).waits = false := by rw [hcall]; rfl
    split at h
    · exact step_store hs rfl (deliver_disturbs _ _) h m
    · exact step_store hs rfl (Disturbs.refl _ _) h m
  · rename_i now n hcall
    exact step_store (by rw [hcall]; rfl) rfl filemod_disturbs h m
  · rename_i dev inum now n hcall
    exact step_store (by rw [hcall]; rfl) rfl (notify_disturbs dev inum) h m
  · rename_i key now n hcall
    refine step_store (by rw [hcall]; rfl) rfl ?_ h m
    split
    · exact cascade_disturbs
    · exact Disturbs.refl _ _
  · rename_i pid n hcall
    have hs : (s.calls i).waits = false := by rw [hcall]; rfl
    split at h
    · exact step_store hs rfl killAt_disturbs h m
    · exact step_store hs rfl (Disturbs.refl _ _) h m
  · cases h

theorem wheel_slot {k : Kernel} (hs : (s.calls i).waits = false) (hc : c.outside = true)
    (hw : WheelFrame s.kernel k) (m : Slot) : WaitStep s m ({ s with kernel := k }.goto i c) := by
  by_cases hm : m = i
  · subst hm
    exact .goes_to hs hc (Function.update_self ..) (hw.disturbs m).count
  · refine .kept ?_ (hw.disturbs m)
    rw [LoopSystem.goto_calls, Function.update_of_ne hm]

/-- A section of the process itself, outside `agent_proc_wait`. -/
theorem WaitStep.own (hs : (s.calls i).waits = false) (hc : c.outside = true)
    (hm : 0 ≤ (s.proc i).mailbox.count → 0 ≤ p.mailbox.count) :
    WaitStep s i ((s.setProc i p).goto i c) := by
  refine .goes_to hs hc (Function.update_self ..) ?_
  rwa [LoopSystem.goto_proc, LoopSystem.setProc_self]

/-- As `WaitStep.own`, for a section that changes the control point only. -/
theorem WaitStep.goes (hs : (s.calls i).waits = false) (hc : c.outside = true) :
    WaitStep s i (s.goto i c) :=
  .goes_to hs hc (Function.update_self ..) id

/-- As `WaitStep.own`, for a section that changes the record only. -/
theorem store_slot (hs : (s.calls i).waits = false)
    (hm : 0 ≤ (s.proc i).mailbox.count → 0 ≤ p.mailbox.count) (j : Slot) :
    WaitStep s j (s.setProc i p) := by
  by_cases hj : j = i
  · subst hj
    exact .outside hs hs id (by rwa [LoopSystem.setProc_self])
  · exact WaitStep.same rfl (LoopSystem.setProc_ne hj)

theorem not_waits (h : s.calls i = c) (hc : c.waits = false) : (s.calls i).waits = false := by
  rwa [h]

/-- **One step, one process.** -/
theorem step_slot (h : loopMachine.next s a = some t) (j : Slot) : WaitStep s j t := by
  cases a <;> simp only [loopMachine, LoopSystem.next] at h
  case clock =>
    obtain ⟨r, hr, rfl⟩ := Option.map_eq_some_iff.1 h
    exact .kept rfl ((clock_disturbs hr).2 j)
  case send i targetPid msgType payload requestId =>
    split at h <;> [skip; cases h]
    rename_i hc
    split at h <;> cases h
    · exact WaitStep.same rfl rfl
    · exact step_goto (.goes (not_waits hc rfl) rfl) j
  case signalFilemod i =>
    split at h <;> cases h
    exact step_goto (.goes (not_waits ‹_› rfl) rfl) j
  case notify i dev inum =>
    split at h <;> cases h
    exact step_goto (.goes (not_waits ‹_› rfl) rfl) j
  case cascade i =>
    split at h <;> [skip; cases h]
    rename_i hc
    split at h <;> cases h
    · exact step_goto (.goes (not_waits hc rfl) rfl) j
    · exact WaitStep.same rfl rfl
  case begin i =>
    split at h <;> [skip; cases h]
    rename_i now hc
    split at h <;> cases h
    · exact wheel_slot (not_waits hc rfl) rfl (wheelFrame_setGlobal _ _) j
    · exact wheel_slot (not_waits hc rfl) rfl (wheelFrame_setGlobal _ _) j
  case kill i pid =>
    split at h <;> cases h
    exact step_goto (.goes (not_waits ‹_› rfl) rfl) j
  case look i =>
    split at h <;> [skip; cases h]
    rename_i n hn
    split at h
    · exact look_slot h j
    · cases h
      refine step_goto (.goes ?_ rfl) j
      unfold LoopSystem.cursor at hn
      split at hn <;> first
        | exact not_waits ‹_› rfl
        | cases hn
  case wakeup i chan =>
    split at h <;> cases h
    exact step_disturbs (wakeupAt_disturbs chan) j
  case heartbeatSet i interval =>
    split at h <;> [skip; cases h]
    rename_i hc
    split at h <;> cases h
    · exact WaitStep.same rfl rfl
    · refine step_own (.own (not_waits hc rfl) rfl ?_) j
      exact id
  case reschedule i =>
    split at h <;> [skip; cases h]
    obtain ⟨k, hk, rfl⟩ := Option.map_eq_some_iff.1 h
    exact wheel_slot (not_waits ‹_› rfl) rfl (wheelFrame_insert hk) j
  case heartbeatStop i =>
    split at h <;> [skip; cases h]
    rename_i hc
    split at h
    · cases h
      exact WaitStep.same rfl rfl
    · obtain ⟨k, hk, rfl⟩ := Option.map_eq_some_iff.1 h
      exact wheel_slot (not_waits hc rfl) rfl (wheelFrame_remove hk) j
  case stopStores i =>
    split at h <;> cases h
    refine step_own (.own (not_waits ‹_› rfl) rfl ?_) j
    exact id
  case watch i mask =>
    split at h <;> cases h
    refine store_slot (not_waits ‹_› rfl) ?_ j
    unfold agentProcWatch
    split <;> [exact id; (split <;> exact id)]
  case unwatch i mask =>
    split at h <;> cases h
    refine store_slot (not_waits ‹_› rfl) ?_ j
    unfold agentProcUnwatch
    split <;> exact id
  case watchFile i dev inum path =>
    split at h <;> cases h
    refine store_slot (not_waits ‹_› rfl) ?_ j
    unfold agentProcWatchFile
    split <;> exact id
  case finish i =>
    split at h <;> [skip; cases h]
    rename_i hc
    split at h <;> cases h
    · exact step_goto (.goes (not_waits hc rfl) rfl) j
    · exact step_own (.own (not_waits hc rfl) rfl fun _ => le_refl (0 : ℤ)) j
  case wait i timeoutTicks =>
    split at h <;> [skip; cases h]
    rename_i hc
    split at h <;> [cases h; (split at h <;> cases h)]
    · exact step_goto (.goes (not_waits hc rfl) rfl) j
    · exact step_goto (.goes (not_waits hc rfl) rfl) j
    · have ht : (s.goto i (.waitEnter timeoutTicks)).calls i = .waitEnter timeoutTicks := by
        rw [LoopSystem.goto_calls, Function.update_self]
      exact step_goto (.enter (not_waits hc rfl) ht ‹_› rfl) j
  case run i on =>
    split at h <;> cases h
    refine step_disturbs ?_ j
    refine Disturbs.of_fields rfl rfl rfl rfl rfl ?_
    intro hs
    cases on <;> cases hs
  case acquire i =>
    split at h <;> cases h
    refine step_goto (.acquire ‹_› ?_ rfl) j
    rw [LoopSystem.goto_calls, Function.update_self]
  case deadline i =>
    split at h <;> cases h
    refine step_own (.deadline ‹_› ?_ ?_) j
    · rw [LoopSystem.goto_calls, Function.update_self]
    · rw [LoopSystem.goto_proc, LoopSystem.setProc_self]
  case round i now' =>
    split at h <;> [skip; cases h]
    rename_i hc
    split at h <;> cases h
    · rename_i hr
      generalize hq : (agentProcWaitIter i (s.proc i) s.kernel.ticks now').1 = q
      have hp : agentProcWaitIter i (s.proc i) s.kernel.ticks now' =
          (((s.setProc i q).goto i .waiting).proc i, .asleep) := by
        rw [LoopSystem.goto_proc, LoopSystem.setProc_self]
        exact Prod.ext hq hr
      exact step_own (.sleep hc (Function.update_self ..) rfl hp) j
    · rename_i ret e hr
      generalize hq : (agentProcWaitIter i (s.proc i) s.kernel.ticks now').1 = q
      have hp : agentProcWaitIter i (s.proc i) s.kernel.ticks now' =
          (((s.setProc i q).goto i (.returned ret)).proc i, .returned ret e) := by
        rw [LoopSystem.goto_proc, LoopSystem.setProc_self]
        exact Prod.ext hq hr
      exact step_own (.back hc (Function.update_self ..) hp) j
  case resume i =>
    split at h <;> cases h
    rename_i hc
    refine step_own (.resume hc.1 ?_ ?_) j
    · rw [LoopSystem.goto_calls, Function.update_self]
    · rw [LoopSystem.goto_proc, LoopSystem.setProc_self]
  case copyoutFail i =>
    split at h <;> cases h
    exact step_goto (.goes (not_waits ‹_› rfl) rfl) j
  case sysret i =>
    split at h <;> cases h
    exact step_goto (.goes (not_waits ‹_› rfl) rfl) j
  case other i p reset =>
    split at h <;> cases h
    rename_i hc
    refine store_slot (by simpa using hc) ?_ j
    cases reset
    · exact id
    · exact fun _ => le_refl (0 : ℤ)
  case aside i sched parent next =>
    cases h
    refine step_disturbs ?_ j
    exact Disturbs.of_fields rfl rfl rfl rfl rfl id
  case global g =>
    cases h
    exact WaitStep.same rfl rfl

/-- Only the clock interrupt advances the time. -/
theorem step_time (ha : a ≠ .clock) (h : loopMachine.next s a = some t) :
    t.kernel.ticks = s.kernel.ticks ∧ t.clock = s.clock := by
  have hstore : ∀ {i j : Slot} {p : Proc} {c : LoopCall}, s.store i j p c = some t →
      t.kernel.ticks = s.kernel.ticks ∧ t.clock = s.clock := by
    intro i j p c hs
    unfold LoopSystem.store at hs
    split at hs <;> cases hs
    exact ⟨rfl, rfl⟩
  have hlook : ∀ {i j : Slot}, s.lookAt i j = some t →
      t.kernel.ticks = s.kernel.ticks ∧ t.clock = s.clock := by
    intro i j hl
    unfold LoopSystem.lookAt at hl
    dsimp only at hl
    split at hl
    all_goals first | exact hstore hl | cases hl | (split at hl <;> exact hstore hl)
  cases a <;> simp only [loopMachine, LoopSystem.next] at h
  case clock => exact absurd rfl ha
  case look i =>
    split at h <;> [skip; cases h]
    split at h
    · exact hlook h
    · cases h
      exact ⟨rfl, rfl⟩
  case reschedule i =>
    split at h <;> [skip; cases h]
    obtain ⟨k, hk, rfl⟩ := Option.map_eq_some_iff.1 h
    exact ⟨(wheelFrame_insert hk).1, rfl⟩
  case heartbeatStop i =>
    split at h <;> [skip; cases h]
    split at h
    · cases h
      exact ⟨rfl, rfl⟩
    · obtain ⟨k, hk, rfl⟩ := Option.map_eq_some_iff.1 h
      exact ⟨(wheelFrame_remove hk).1, rfl⟩
  all_goals
    (repeat' split at h) <;> cases h <;> exact ⟨rfl, rfl⟩

/-! ### A round of the wait loop -/

/-- The loop sleeps when it has found nothing, and its deadline is not there yet. -/
theorem iter_asleep {q : Proc} (hc : 0 ≤ p.mailbox.count)
    (h : agentProcWaitIter i p now now' = (q, .asleep)) :
    NothingPending p ∧ p.killed = false ∧ (0 < p.loop.waitDeadline → now < p.loop.waitDeadline) ∧
      q = { p with chan := some (.proc i), state := .sleeping } := by
  unfold agentProcWaitIter at h
  split at h
  · cases h
  rename_i hgone
  split at h
  · cases h
  rename_i hcount
  split at h
  · cases h
  rename_i hfile
  split at h
  · cases h
  rename_i hbeat
  split at h
  · cases h
  rename_i hdead
  split at h
  · cases h
  rename_i hkilled
  cases h
  refine ⟨⟨by omega, ?_, ?_, ?_⟩, by simpa using hkilled, ?_, rfl⟩
  · exact not_not.1 hgone
  · exact not_not.1 hfile
  · exact not_not.1 hbeat
  · intro hd
    by_contra hle
    exact hdead ⟨hd, by omega⟩

/-- The loop times out when it has found nothing and its deadline is there. -/
theorem iter_timeout {q : Proc} {e : AgentWaitEvent} (hc : 0 ≤ p.mailbox.count)
    (h : agentProcWaitIter i p now now' = (q, .returned agentWaitTimeout e)) :
    NothingPending p ∧ 0 < p.loop.waitDeadline ∧ p.loop.waitDeadline ≤ now := by
  have no : ∀ {r : Proc} {ret : ℤ} {e' : AgentWaitEvent}, ret ≠ agentWaitTimeout →
      (r, WaitOutcome.returned ret e') ≠ (q, .returned agentWaitTimeout e) := by
    intro r ret e' hne he
    exact hne (WaitOutcome.returned.inj (Prod.ext_iff.1 he).2).1
  unfold agentProcWaitIter at h
  split at h
  · exact absurd h (no (by decide))
  rename_i hgone
  split at h
  · exact absurd h (no (by decide))
  rename_i hcount
  split at h
  · exact absurd h (no (by decide))
  rename_i hfile
  split at h
  · exact absurd h (no (by decide))
  rename_i hbeat
  split at h
  · rename_i hdead
    exact ⟨⟨by omega, not_not.1 hgone, not_not.1 hfile, not_not.1 hbeat⟩, hdead⟩
  split at h
  · exact absurd h (no (by decide))
  · cases h

/-! ### The invariant -/

/-- How a process is asleep after a step: it was, and the step left what it looks at alone, or
it has just found nothing. -/
theorem asleep_cases (hinv : WaitInv s) (hs : WaitStep s i t) (h : t.Asleep i) :
    (s.Asleep i ∧ (t.proc i).chan = (s.proc i).chan ∧
      (t.proc i).mailbox.count = (s.proc i).mailbox.count ∧ (t.proc i).loop = (s.proc i).loop ∧
      (t.proc i).killed = (s.proc i).killed) ∨
    ∃ now', s.calls i = .waitTest ∧ t.kernel.ticks = s.kernel.ticks ∧
      agentProcWaitIter i (s.proc i) s.kernel.ticks now' = (t.proc i, .asleep) := by
  obtain ⟨hw, hst⟩ := h
  cases hs with
  | kept hc hd =>
    have ha : s.Asleep i := ⟨hc ▸ hw, hd.wakes hst⟩
    exact .inl ⟨ha, hd.still (hinv.chan i ha) hst⟩
  | outside hs ht hr hc => rw [hw] at ht; cases ht
  | enter hs ht htype hp => rw [hw] at ht; cases ht
  | acquire hs ht hp => rw [hw] at ht; cases ht
  | deadline hs ht hp => rw [hw] at ht; cases ht
  | sleep hs ht hk hp => exact .inr ⟨_, hs, hk, hp⟩
  | back hs ht hp => rw [hw] at ht; cases ht
  | resume hs ht hp => rw [hw] at ht; cases ht

theorem waitInv_init (h : loopMachine.init s) : WaitInv s := by
  obtain ⟨-, hclock, hi⟩ := h
  have hwaits : ∀ i, (s.calls i).waits = false := fun i => by rw [(hi i).1]; rfl
  have hasleep : ∀ i, ¬ s.Asleep i := by
    intro i ha
    have hw := ha.1
    rw [(hi i).1] at hw
    cases hw
  refine ⟨?_, ?_, ?_, fun i ha => absurd ha (hasleep i), fun i ha => absurd ha (hasleep i),
    fun i ha => absurd ha (hasleep i), ?_, fun n m _ j _ ha => absurd ha (hasleep j)⟩
  · intro i
    rw [(hi i).2]
    exact le_refl (0 : ℤ)
  · intro i hw
    rw [hwaits i] at hw
    cases hw
  · intro i hw
    rw [(hi i).1] at hw
    rcases hw with hw | hw <;> cases hw
  · intro n hn
    rw [hclock] at hn
    cases hn

/-- A step keeps a mailbox from counting below zero. -/
theorem count_step (h : WaitStep s i t) (hc : 0 ≤ (s.proc i).mailbox.count) :
    0 ≤ (t.proc i).mailbox.count := by
  cases h with
  | kept _ hd => exact hd.count hc
  | outside _ _ _ hm => exact hm hc
  | enter _ _ _ hp => rwa [hp]
  | acquire _ _ hp => rwa [hp]
  | deadline _ _ hp => rwa [hp]
  | sleep _ _ _ hp =>
    rw [(iter_asleep hc hp).2.2.2]
    exact hc
  | @back now' ret e _ _ hp =>
    rcases agentProcWaitIter_mailbox i (s.proc i) s.kernel.ticks now' with ⟨hpos, hm, -⟩ | ⟨hm, -⟩
    · rw [hp] at hm
      rw [hm]
      show 0 ≤ (s.proc i).mailbox.count - 1
      omega
    · rw [hp] at hm
      rwa [hm]
  | resume _ _ hp => rwa [hp]

/-- A process that waits is an Agent. -/
theorem type_step (h : WaitStep s i t)
    (ht : (s.calls i).waits = true → (s.proc i).ident.agentType ≠ agentTypeNormal)
    (hc : 0 ≤ (s.proc i).mailbox.count) (hw : (t.calls i).waits = true) :
    (t.proc i).ident.agentType ≠ agentTypeNormal := by
  cases h with
  | kept hc hd =>
    rw [hd.type]
    exact ht (hc ▸ hw)
  | outside _ hn _ _ =>
    rw [hn] at hw
    cases hw
  | enter _ _ htype hp => rwa [hp]
  | acquire hs _ hp =>
    rw [hp]
    exact ht (by rw [hs]; rfl)
  | deadline hs _ hp =>
    rw [hp]
    exact ht (by rw [hs]; rfl)
  | sleep hs _ _ hp =>
    rw [(iter_asleep hc hp).2.2.2]
    exact ht (by rw [hs]; rfl)
  | back _ hn _ =>
    rw [hn] at hw
    cases hw
  | resume hs _ hp =>
    rw [hp]
    exact ht (by rw [hs]; rfl)

/-- The loop state of a waiter is `WAITING` until its workflow is gone. -/
theorem loop_step (h : WaitStep s i t) (hc : 0 ≤ (s.proc i).mailbox.count)
    (hl : s.calls i = .waitTest ∨ s.calls i = .waiting →
      (s.proc i).loop.loopState = agentLoopWaiting ∨ Gone (s.proc i))
    (hw : t.calls i = .waitTest ∨ t.calls i = .waiting) :
    (t.proc i).loop.loopState = agentLoopWaiting ∨ Gone (t.proc i) := by
  have no : ∀ {c : LoopCall}, t.calls i = c → c ≠ .waitTest → c ≠ .waiting → False := by
    intro c e h₁ h₂
    rw [e] at hw
    exact hw.elim h₁ h₂
  cases h with
  | kept hcalls hd =>
    rw [hcalls] at hw
    rcases hl hw with hl | hg
    · rcases hd.loop with he | hg
      · exact .inl (he.trans hl)
      · exact .inr hg
    · exact .inr (hd.gone hg)
  | outside _ hn _ _ =>
    rcases hw with hw | hw <;> rw [hw] at hn <;> cases hn
  | enter _ hn _ _ => exact (no hn (by simp) (by simp)).elim
  | acquire _ hn _ => exact (no hn (by simp) (by simp)).elim
  | deadline _ _ hp =>
    rw [hp]
    exact .inl rfl
  | sleep hs _ _ hp =>
    rw [(iter_asleep hc hp).2.2.2]
    exact hl (.inl hs)
  | back _ hn _ => exact (no hn (by simp) (by simp)).elim
  | resume hs _ hp =>
    rw [hp]
    exact hl (.inr hs)

/-- After a step that leaves a sleeper asleep, or puts it to sleep, its deadline is later than
every time `ticks` showed. -/
theorem deadline_step {n : ℕ} (hinv : WaitInv s) (h : WaitStep s i t) (ha : t.Asleep i)
    (hd : 0 < (t.proc i).loop.waitDeadline) (hn : n ≤ s.kernel.ticks)
    (hold : s.Asleep i → 0 < (s.proc i).loop.waitDeadline → n < (s.proc i).loop.waitDeadline) :
    n < (t.proc i).loop.waitDeadline := by
  rcases asleep_cases hinv h ha with ⟨hs, -, -, hl, -⟩ | ⟨now', -, -, hp⟩
  · rw [hl] at hd ⊢
    exact hold hs hd
  · obtain ⟨-, -, hlate, hq⟩ := iter_asleep (hinv.count i) hp
    rw [hq] at hd ⊢
    have := hlate hd
    dsimp only
    omega

/-- **Every step keeps the invariant.** -/
theorem waitInv_step (hinv : WaitInv s) (h : loopMachine.next s a = some t) : WaitInv t := by
  have hslot := step_slot h
  refine ⟨fun i => count_step (hslot i) (hinv.count i),
    fun i => type_step (hslot i) (hinv.type i) (hinv.count i),
    fun i => loop_step (hslot i) (hinv.count i) (hinv.loop i), ?_, ?_, ?_, ?_, ?_⟩
  · intro i ha
    rcases asleep_cases hinv (hslot i) ha with ⟨hs, hc, -⟩ | ⟨now', -, -, hp⟩
    · exact hc.trans (hinv.chan i hs)
    · rw [(iter_asleep (hinv.count i) hp).2.2.2]
  · intro i ha
    rcases asleep_cases hinv (hslot i) ha with ⟨hs, -, hm, hl, -⟩ | ⟨now', -, -, hp⟩
    · obtain ⟨a, b, c, d⟩ := hinv.pending i hs
      exact ⟨hm.trans a, by rw [hl]; exact b, by rw [hl]; exact c, by rw [hl]; exact d⟩
    · obtain ⟨hnone, -, -, hq⟩ := iter_asleep (hinv.count i) hp
      rw [hq]
      exact ⟨hnone.mailbox, hnone.gone, hnone.filemod, hnone.heartbeat⟩
  · intro i ha
    rcases asleep_cases hinv (hslot i) ha with ⟨hs, -, -, -, hk⟩ | ⟨now', -, -, hp⟩
    · exact hk.trans (hinv.killed i hs)
    · obtain ⟨-, hk, -, hq⟩ := iter_asleep (hinv.count i) hp
      rw [hq]
      exact hk
  · by_cases hc : a = .clock
    · subst hc
      obtain ⟨r, hr, rfl⟩ := Option.map_eq_some_iff.1 h
      exact clock_onTime hinv.onTime hr
    · obtain ⟨hk, hclock⟩ := step_time hc h
      unfold OnTime
      rw [hk, hclock]
      exact hinv.onTime
  · intro n m hm j hj ha hd
    by_cases hc : a = .clock
    · subst hc
      obtain ⟨r, hr, rfl⟩ := Option.map_eq_some_iff.1 h
      obtain ⟨k', c'⟩ := r
      dsimp only at hm
      subst hm
      rcases clock_timeout hr with rfl | ⟨m', hm', rfl, hclock, rfl⟩
      · exact absurd hj (Nat.not_lt_zero _)
      have hn : n = s.kernel.ticks := hinv.onTime n (by rw [hclock]; rfl)
      refine deadline_step hinv (hslot j) ha hd (le_of_eq hn) fun hs hd' => ?_
      by_cases hjm : (j : ℕ) < m'
      · exact hinv.visited n m' hclock j hjm hs hd'
      · -- the slot the loop has just seen
        obtain rfl : j = ⟨m', hm'⟩ := Fin.ext (by simp; omega)
        have hst : (agentTickTimeout ⟨m', hm'⟩ (s.proc ⟨m', hm'⟩) n).state = .sleeping := by
          simpa only [LoopSystem.proc, Kernel.setProc_self] using ha.2
        have hl : (s.proc ⟨m', hm'⟩).loop.loopState = agentLoopWaiting := by
          rcases hinv.loop _ (.inr hs.1) with hl | hg
          · exact hl
          · exact absurd (hinv.pending _ hs).gone hg
        exact timeout_wakes (hinv.type _ (by rw [hs.1]; rfl)) (hinv.chan _ hs) hl hd' hst
    · obtain ⟨hk, hclock⟩ := step_time hc h
      rw [hclock] at hm
      have hn : n = s.kernel.ticks := hinv.onTime n (by rw [hm]; rfl)
      exact deadline_step hinv (hslot j) ha hd (le_of_eq hn) (hinv.visited n m hm j hj)

theorem waitInv_reach {ok : LoopSystem → LoopLabel → Prop} (h : loopMachine.Reach ok tr s) :
    WaitInv s :=
  h.inv (fun _ hi => waitInv_init hi) fun _ _ _ hinv _ hn => waitInv_step hinv hn

/-! ### Runs -/

/-- While the clock does not start again, nobody falls asleep, or stays asleep, past a deadline
that `ticks` has reached. -/
theorem late_path {n : ℕ} (hp : loopMachine.Path NoWrap s tr t) (hinv : WaitInv s)
    (hn : n ≤ s.kernel.ticks)
    (hs : ∀ i, s.Asleep i → 0 < (s.proc i).loop.waitDeadline → n < (s.proc i).loop.waitDeadline) :
    ∀ i, t.Asleep i → 0 < (t.proc i).loop.waitDeadline → n < (t.proc i).loop.waitDeadline := by
  have hall := hp.inv (P := fun s => WaitInv s ∧ n ≤ s.kernel.ticks ∧ ∀ i, s.Asleep i →
    0 < (s.proc i).loop.waitDeadline → n < (s.proc i).loop.waitDeadline) ?_ ⟨hinv, hn, hs⟩
  · exact hall.2.2
  rintro s a t ⟨hinv, hn, hs⟩ hok h
  refine ⟨waitInv_step hinv h, ?_, fun i ha hd => deadline_step hinv (step_slot h i) ha hd hn (hs i)⟩
  by_cases ha : a = .clock
  · subst ha
    obtain ⟨r, hr, rfl⟩ := Option.map_eq_some_iff.1 h
    obtain ⟨k', c'⟩ := r
    by_cases hc : s.clock = .idle
    · have hlt := hok rfl hc
      rw [hc] at hr
      simp only [clockNext, Option.some.injEq, Prod.mk.injEq] at hr
      obtain ⟨rfl, -⟩ := hr
      show n ≤ (s.kernel.ticks + 1) % 2 ^ 32
      rw [Nat.mod_eq_of_lt hlt]
      omega
    · show n ≤ k'.ticks
      rw [(clock_disturbs hr).1 hc]
      exact hn
  · rw [(step_time ha h).1]
    exact hn

/-- **No lost wakeup and no missed timeout.** In every reachable state an Agent that sleeps in
`agent_proc_wait` has nothing pending and is not killed; once `agent_tick(n)` is over, and until
`ticks` starts again at zero, none sleeps with a deadline of at most `n`; and a wait times out
only at its deadline and with nothing pending. -/
theorem no_lost_wakeup (h : loopMachine.Reach always tr s) :
    (∀ i, s.Asleep i → NothingPending (s.proc i) ∧ (s.proc i).killed = false) ∧
    (∀ n t tr' u, s.clock = .timeout n nproc → loopMachine.next s .clock = some t →
      loopMachine.Path NoWrap t tr' u → ∀ i, u.Asleep i →
        ¬ (0 < (u.proc i).loop.waitDeadline ∧ (u.proc i).loop.waitDeadline ≤ n)) ∧
    ∀ a t i, loopMachine.next s a = some t → t.calls i = .returned agentWaitTimeout →
      s.calls i ≠ .returned agentWaitTimeout →
        s.calls i = .waitTest ∧ (s.proc i).loop.waitDeadline ≤ s.kernel.ticks ∧
          NothingPending (s.proc i) := by
  have hinv := waitInv_reach h
  refine ⟨fun i ha => ⟨hinv.pending i ha, hinv.killed i ha⟩, ?_, ?_⟩
  · rintro n t tr' u hclock hn hp i ha ⟨hd, hle⟩
    have hnow : n = s.kernel.ticks := hinv.onTime n (by rw [hclock]; rfl)
    have hinv' := waitInv_step hinv hn
    have hslot := step_slot hn
    obtain ⟨r, hr, rfl⟩ := Option.map_eq_some_iff.1 hn
    rw [hclock] at hr
    have hk := (clock_disturbs hr).1 (by simp)
    have hlate := late_path hp hinv' (hnow.trans hk.symm).le fun j hj hdj =>
      deadline_step hinv (hslot j) hj hdj hnow.le (hinv.visited n nproc hclock j j.isLt)
    exact absurd (hlate i ha hd) (by omega)
  · intro a t i hn hret hne
    have h := step_slot hn i
    cases h with
    | kept hc _ => exact absurd (hc.symm.trans hret) hne
    | outside _ _ hr _ => exact absurd (hr hret) hne
    | enter _ ht _ _ => rw [ht] at hret; cases hret
    | acquire _ ht _ => rw [ht] at hret; cases hret
    | deadline _ ht _ => rw [ht] at hret; cases hret
    | sleep _ ht _ _ => rw [ht] at hret; cases hret
    | back hs ht hp =>
      obtain rfl := LoopCall.returned.inj (ht.symm.trans hret)
      obtain ⟨hnone, -, hle⟩ := iter_timeout (hinv.count i) hp
      exact ⟨hs, hle, hnone⟩
    | resume _ ht _ => rw [ht] at hret; cases hret

/-! ### Idle ticks -/

/-- The clock interrupt at time `n` finds nothing to do. -/
structure NothingDue (k : Kernel) (n : ℕ) : Prop where
  waking : ∀ j, wakeupAt (k.procs j) .ticks = k.procs j
  replenish : ∀ j, agentReplenishBudget (k.procs j) n = k.procs j
  reap : agentLeaseReapExpired k.agentGlobal n = k.agentGlobal
  wheel : k.agentGlobal.heartbeatWheelHeads (wheelBucket n) = 0
  timeout : ∀ j, agentTickTimeout j (k.procs j) n = k.procs j

theorem detach_empty {k : Kernel} {n : ℕ}
    (h : k.agentGlobal.heartbeatWheelHeads (wheelBucket n) = 0) :
    agentTickDetach k n = some (k, 0) := by
  have hg : k.agentGlobal.setHead (wheelBucket n) 0 = k.agentGlobal := by
    unfold AgentGlobal.setHead
    rw [← h, Function.update_eq_self]
  unfold agentTickDetach
  dsimp only
  rw [hg, h]
  rfl

/-- A loop over `proc[]` that changes nothing, to its last slot. -/
theorem slots_path {f : Slot → Proc → Proc} {l : ℕ → ClockPhase} {fin : ClockPhase}
    (hfree : ∀ j, s.locked j = false) (hf : ∀ j, f j (s.kernel.procs j) = s.kernel.procs j)
    (hnext : ∀ m, clockNext s.locked s.kernel (l m) =
      eachSlot s.locked s.kernel m f (l (m + 1)) fin) :
    ∀ m ≤ nproc,
      ∃ tr, loopMachine.Path always { s with clock := l 0 } tr { s with clock := l m } := by
  intro m
  induction m with
  | zero => exact fun _ => ⟨[], .nil _⟩
  | succ m ih =>
    intro hm
    obtain ⟨tr, htr⟩ := ih (by omega)
    refine ⟨_, htr.snoc (a := .clock) trivial ?_⟩
    show (clockNext s.locked s.kernel (l m)).map _ = _
    rw [hnext, eachSlot, dif_pos (by omega)]
    dsimp only
    rw [hfree, if_neg (by simp), hf, Kernel.setProc, Function.update_eq_self]
    rfl

/-- As `slots_path`, to its end. -/
theorem eachSlot_path {f : Slot → Proc → Proc} {l : ℕ → ClockPhase} {fin : ClockPhase}
    (hfree : ∀ j, s.locked j = false) (hf : ∀ j, f j (s.kernel.procs j) = s.kernel.procs j)
    (hnext : ∀ m, clockNext s.locked s.kernel (l m) =
      eachSlot s.locked s.kernel m f (l (m + 1)) fin) :
    ∃ tr, loopMachine.Path always { s with clock := l 0 } tr { s with clock := fin } := by
  obtain ⟨tr, htr⟩ := slots_path hfree hf hnext nproc le_rfl
  refine ⟨_, htr.snoc (a := .clock) trivial ?_⟩
  show (clockNext s.locked s.kernel (l nproc)).map _ = _
  rw [hnext, eachSlot, dif_neg (by omega)]
  rfl

/-- **An idle tick**, to the last slot of the timeout loop. -/
theorem tick_path (hclock : s.clock = .idle) (hfree : ∀ j, s.locked j = false)
    (hn : now = (s.kernel.ticks + 1) % 2 ^ 32) (hdue : NothingDue s.kernel now) :
    ∃ tr, loopMachine.Path always s tr
      { s with kernel := { s.kernel with ticks := now }, clock := .timeout now nproc } := by
  generalize hs : ({ s with kernel := { s.kernel with ticks := now } } : LoopSystem) = s'
  have hprocs : s'.kernel.procs = s.kernel.procs := by rw [← hs]
  have hglobal : s'.kernel.agentGlobal = s.kernel.agentGlobal := by rw [← hs]
  have hfree' : ∀ j, s'.locked j = false := by rw [← hs]; exact hfree
  have h₁ : loopMachine.next s .clock = some { s' with clock := .waking now 0 } := by
    show (clockNext s.locked s.kernel s.clock).map _ = _
    rw [hclock, ← hs, hn]
    rfl
  obtain ⟨tr₁, p₁⟩ := eachSlot_path (s := s') (f := fun _ p => wakeupAt p .ticks)
    (l := .waking now) hfree' (fun j => by rw [hprocs]; exact hdue.waking j) fun m => rfl
  obtain ⟨tr₂, p₂⟩ := eachSlot_path (s := s') (f := fun _ p => agentReplenishBudget p now)
    (l := .replenish now) hfree' (fun j => by rw [hprocs]; exact hdue.replenish j) fun m => rfl
  have h₂ : loopMachine.next { s' with clock := .reap now } .clock =
      some { s' with clock := .detach now } := by
    show some _ = _
    dsimp only
    rw [hglobal, hdue.reap, ← hglobal]
    rfl
  have h₃ : loopMachine.next { s' with clock := .detach now } .clock =
      some { s' with clock := .walk now 0 } := by
    show ((agentTickDetach s'.kernel now).map _).map _ = _
    rw [detach_empty (by rw [hglobal]; exact hdue.wheel)]
    rfl
  have h₄ : loopMachine.next { s' with clock := .walk now 0 } .clock =
      some { s' with clock := .timeout now 0 } := rfl
  obtain ⟨tr₅, p₅⟩ := slots_path (s := s') (f := fun j p => agentTickTimeout j p now)
    (l := .timeout now) hfree' (fun j => by rw [hprocs]; exact hdue.timeout j) (fun m => rfl)
    nproc le_rfl
  have path := ((((((Path.single trivial h₁).trans p₁).trans p₂).snoc trivial h₂).snoc trivial
    h₃).snoc trivial h₄).trans p₅
  rw [← hs] at path
  exact ⟨_, path⟩

end

/-! ### Runs -/

/-- An Agent that nobody has signalled, on its own. -/
def waiterSystem (ticks : ℕ) : LoopSystem where
  kernel :=
    { procs := fun j =>
        if j = 0 then
          { Proc.boot with
            state := .running, pid := 1, ident := { Ident.init with agentType := agentTypePrimary } }
        else Proc.boot
      ticks := ticks
      nextpid := 2
      agentGlobal := AgentGlobal.init }
  calls := fun _ => .user
  clock := .idle

theorem waiter_due (n m : ℕ) : NothingDue (waiterSystem n).kernel m := by
  have hproc : ∀ j, (waiterSystem n).kernel.procs j =
      { Proc.boot with
        state := .running, pid := 1, ident := { Ident.init with agentType := agentTypePrimary } } ∨
      (waiterSystem n).kernel.procs j = Proc.boot := by
    intro j
    by_cases hj : j = 0
    · exact .inl (if_pos hj)
    · exact .inr (if_neg hj)
  refine ⟨fun j => ?_, fun j => ?_, ?_, rfl, fun j => ?_⟩
  · rcases hproc j with h | h <;> rw [h] <;> rfl
  · rcases hproc j with h | h <;> rw [h] <;> rfl
  · unfold agentLeaseReapExpired
    rfl
  · rcases hproc j with h | h <;> rw [h] <;> rfl

/-- One tick of that system. -/
theorem waiter_tick {n : ℕ} : ∃ tr, loopMachine.Path always (waiterSystem n) tr
    { waiterSystem ((n + 1) % 2 ^ 32) with clock := .timeout ((n + 1) % 2 ^ 32) nproc } :=
  tick_path rfl (fun _ => rfl) rfl (waiter_due _ _)

/-- The last section of a tick. -/
theorem waiter_done {n : ℕ} :
    loopMachine.next { waiterSystem n with clock := .timeout n nproc } .clock =
      some (waiterSystem n) := rfl

/-- The clock runs up to every value it can show. -/
theorem waiter_reach {n : ℕ} (hn : n < 2 ^ 32) :
    ∃ tr, loopMachine.Reach always tr (waiterSystem n) := by
  induction n with
  | zero =>
    refine ⟨[], waiterSystem 0, ⟨rfl, rfl, fun i => ⟨rfl, ?_⟩⟩, .nil _⟩
    by_cases hi : i = 0
    · subst hi
      rfl
    · show (if i = 0 then _ else Proc.boot).mailbox = _
      rw [if_neg hi]
      rfl
  | succ n ih =>
    obtain ⟨tr, h⟩ := ih (by omega)
    obtain ⟨tr', h'⟩ := waiter_tick (n := n)
    rw [Nat.mod_eq_of_lt hn] at h'
    exact ⟨_, (h.trans h').snoc trivial waiter_done⟩

/-- The Agent waits with a timeout, and falls asleep. -/
def sleepLabels (timeoutTicks : ℤ) : List LoopLabel :=
  [.wait 0 timeoutTicks, .acquire 0, .deadline 0, .round 0 0]

/-- The Agent waits for one tick; the tick falls between the deadline and the test. -/
def timeoutLabels : List LoopLabel := [.wait 0 1, .acquire 0, .deadline 0, .clock]

def asleepRun : LoopSystem :=
  (loopMachine.run (waiterSystem 1) (sleepLabels 5)).getD (waiterSystem 0)

def timeoutRun : LoopSystem :=
  (loopMachine.run (waiterSystem 0) timeoutLabels).getD (waiterSystem 0)

def timeoutReturned : LoopSystem :=
  (loopMachine.next timeoutRun (.round 0 0)).getD (waiterSystem 0)

/-- An Agent waits for five ticks after the first one; another times out after one. -/
theorem no_lost_wakeup_runs :
    (NothingPending (asleepRun.proc 0) ∧ (asleepRun.proc 0).killed = false) ∧
      ¬ (0 < (asleepRun.proc 0).loop.waitDeadline ∧ (asleepRun.proc 0).loop.waitDeadline ≤ 1) ∧
      timeoutRun.calls 0 = .waitTest ∧
      (timeoutRun.proc 0).loop.waitDeadline ≤ timeoutRun.kernel.ticks ∧
      NothingPending (timeoutRun.proc 0) := by
  obtain ⟨tr₀, h₀⟩ := waiter_reach (n := 0) (by decide)
  obtain ⟨tr₁, h₁⟩ := waiter_tick (n := 0)
  have hsleep : loopMachine.Path always (waiterSystem 1) (sleepLabels 5) asleepRun :=
    path_getD (by decide +kernel)
  have hasleep : asleepRun.Asleep 0 := ⟨by decide +kernel, by decide +kernel⟩
  have hnowrap : loopMachine.Path NoWrap (waiterSystem 1) (sleepLabels 5) asleepRun := by
    refine hsleep.of_labels fun a ha s hc => ?_
    subst hc
    simp [sleepLabels] at ha
  have htimeout : loopMachine.Path always (waiterSystem 0) timeoutLabels timeoutRun :=
    path_getD (by decide +kernel)
  refine ⟨(no_lost_wakeup (((h₀.trans h₁).snoc trivial waiter_done).trans hsleep)).1 0 hasleep,
    (no_lost_wakeup (h₀.trans h₁)).2.1 1 _ _ _ rfl waiter_done hnowrap 0 hasleep, ?_⟩
  exact (no_lost_wakeup (h₀.trans htimeout)).2.2 (.round 0 0) timeoutReturned 0
    (next_getD (by decide +kernel)) (by decide +kernel) (by decide +kernel)

/-- **`ticks` starts again at zero**: `agent_tick(2^32 - 1)` is over, the clock wraps, and an
Agent that then waits for five ticks sleeps with deadline 5. -/
theorem wrap_missed : ∃ tr s t tr' u, loopMachine.Reach always tr s ∧
    s.clock = .timeout (2 ^ 32 - 1) nproc ∧ loopMachine.next s .clock = some t ∧
    loopMachine.Path always t tr' u ∧ u.Asleep 0 ∧ 0 < (u.proc 0).loop.waitDeadline ∧
    (u.proc 0).loop.waitDeadline ≤ 2 ^ 32 - 1 := by
  obtain ⟨tr, h⟩ := waiter_reach (n := 2 ^ 32 - 2) (by decide)
  obtain ⟨tr', h'⟩ := waiter_tick (n := 2 ^ 32 - 2)
  have hn : (2 ^ 32 - 2 + 1) % 2 ^ 32 = 2 ^ 32 - 1 := by decide
  rw [hn] at h'
  have hp : loopMachine.Path always (waiterSystem (2 ^ 32 - 1)) (.clock :: sleepLabels 5)
      ((loopMachine.run (waiterSystem (2 ^ 32 - 1)) (.clock :: sleepLabels 5)).getD
        (waiterSystem 0)) := path_getD (by decide +kernel)
  exact ⟨_, _, _, _, _, h.trans h', rfl, waiter_done, hp,
    ⟨by decide +kernel, by decide +kernel⟩, by decide +kernel, by decide +kernel⟩

end AgentOS
