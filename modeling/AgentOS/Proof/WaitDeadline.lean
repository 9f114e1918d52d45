import AgentOS.Model.Sched
import AgentOS.Proof.Schedule

/-!
# The deadline of a wait

`agent_proc_wait` sets `wait_deadline` as it begins and no exit of it takes the field back: the
sweep of a workflow, `agent_proc_wait(0)` and the next wait do. So the field outlives the wait exactly
when a wait with a timeout returns to its caller (`EndsTimedWait`).

* `DeadlineKept`: a step that keeps or clears every deadline; every step but a wait is one
  (`kept_step`).
* **`deadline_rests`**: in a run in which no wait with a timeout returns, only those inside
  `agent_proc_wait` have a deadline, and the bonus that goes with it.
* `endsTimedWait_breaks`: where such a wait returns, its deadline stays.
-/

namespace AgentOS

open Machine

/-- A round of the wait loop returns to its caller. -/
def Rouses (p : Proc) (now : ℕ) : Prop :=
  p.loop.pendingEvents &&& agentEventParentGone ≠ 0 ∨ 0 < p.mailbox.count ∨
    p.loop.pendingEvents &&& agentEventFilemod ≠ 0 ∨
    p.loop.pendingEvents &&& agentEventHeartbeat ≠ 0 ∨
    (0 < p.loop.waitDeadline ∧ p.loop.waitDeadline ≤ now) ∨ p.killed = true

instance (p : Proc) (now : ℕ) : Decidable (Rouses p now) := inferInstanceAs (Decidable (_ ∨ _))

/-- The step is the end of a wait that has a deadline: one that does not go to sleep at all, or one
that has been woken. -/
def EndsTimedWait (s : BeatSystem) : BeatLabel → Prop
  | .wait i n _ =>
    0 < n ∧ s.canCall i ∧ (s.proc i).ident.agentType ≠ agentTypeNormal ∧
      Rouses (agentProcWaitBegin (s.proc i) n s.kernel.ticks) s.kernel.ticks
  | .round i _ =>
    (s.proc i).loop.waitDeadline ≠ 0 ∧ Rouses (s.proc i) s.kernel.ticks
  | _ => False

instance (s : BeatSystem) (l : BeatLabel) : Decidable (EndsTimedWait s l) := by
  apply @BeatLabel.casesOn fun l => Decidable (EndsTimedWait s l)
  all_goals
    intros
    dsimp only [EndsTimedWait]
    infer_instance

/-- Whoever is not inside `agent_proc_wait` has no deadline. -/
def Rested (s : BeatSystem) : Prop :=
  ∀ x, s.waiting x = false → (s.proc x).loop.waitDeadline = 0

/-- The deadline is as it was, or cleared. -/
def KeepsDeadline (p q : Proc) : Prop :=
  q.loop.waitDeadline = p.loop.waitDeadline ∨ q.loop.waitDeadline = 0

/-- A step that keeps or clears every deadline and ends nobody's wait. -/
structure DeadlineKept (s t : BeatSystem) : Prop where
  each : ∀ x, KeepsDeadline (s.proc x) (t.proc x)
  waiting : t.waiting = s.waiting

section

variable {s t : BeatSystem} {l : BeatLabel} {i j x : Slot} {p q r : Proc} {k k' : Kernel}
  {f : Fin agentHeartbeatWheelBuckets → List Slot} {now now' : ℕ}

theorem KeepsDeadline.refl (p : Proc) : KeepsDeadline p p := .inl rfl

theorem KeepsDeadline.of_loop (h : q.loop = p.loop) : KeepsDeadline p q :=
  .inl (congrArg Loop.waitDeadline h)

theorem KeepsDeadline.trans (h : KeepsDeadline p q) (h' : KeepsDeadline q r) :
    KeepsDeadline p r := by
  rcases h' with h' | h'
  · rcases h with h | h
    · exact .inl (h'.trans h)
    · exact .inr (h'.trans h)
  · exact .inr h'

theorem Beside.keepsDeadline (h : Beside p q) : KeepsDeadline p q := .inl h.waitDeadline

/-- The lists of the wheel are no part of the Agent Loop. -/
theorem WheelFrame.loop (h : WheelFrame k k') (x : Slot) :
    (k'.procs x).loop = (k.procs x).loop := by
  obtain ⟨hb, hx⟩ := h.2 x
  rw [hx]

theorem DeadlineKept.rested (h : DeadlineKept s t) (hs : Rested s) : Rested t := by
  intro x hw
  rw [h.waiting] at hw
  rcases h.each x with hx | hx
  · rw [hx]
    exact hs x hw
  · exact hx

theorem setProc_keeps (h : KeepsDeadline (k.procs i) p) (x : Slot) :
    KeepsDeadline (k.procs x) ((k.setProc i p).procs x) := by
  rw [Kernel.setProc_procs]
  split
  · rename_i hx
    rw [hx]
    exact h
  · exact .refl _

theorem kept_setProc (h : KeepsDeadline (s.proc i) p) : DeadlineKept s (s.setProc i p) :=
  ⟨setProc_keeps h, rfl⟩

/-! ### The calls -/

theorem kept_call (h : KeepsDeadline (s.proc i) p) (ht : s.call i p = some t) :
    DeadlineKept s t := by
  unfold BeatSystem.call at ht
  split at ht <;> [skip; cases ht]
  obtain rfl := Option.some.inj ht
  exact kept_setProc h

theorem ready_waitDeadline (loop : Loop) : loop.ready.waitDeadline = loop.waitDeadline := by
  unfold Loop.ready
  split <;> rfl

theorem keeps_watch (p : Proc) (mask : BitVec 32) : KeepsDeadline p (agentProcWatch p mask).1 := by
  unfold agentProcWatch
  split_ifs
  · exact .refl _
  · exact .refl _
  · exact .inl (ready_waitDeadline _)

theorem keeps_unwatch (p : Proc) (mask : BitVec 32) :
    KeepsDeadline p (agentProcUnwatch p mask).1 := by
  unfold agentProcUnwatch
  split
  · exact .refl _
  · dsimp only
    split_ifs <;> exact .inl rfl

theorem keeps_watchFile (p : Proc) (dev inum : ℕ) (path : List UInt8) :
    KeepsDeadline p (agentProcWatchFile p dev inum path).1 := by
  unfold agentProcWatchFile
  split
  · exact .refl _
  · exact .inl (ready_waitDeadline _)

theorem kept_heartbeatSet {n : ℤ} (ht : s.next (.heartbeatSet i n) = some t) :
    DeadlineKept s t := by
  unfold BeatSystem.next at ht
  dsimp only at ht
  split at ht <;> [skip; cases ht]
  split at ht
  · obtain rfl := Option.some.inj ht
    exact ⟨fun x => .refl _, rfl⟩
  obtain ⟨k', hk', rfl⟩ := Option.map_eq_some_iff.mp ht
  refine ⟨fun x => (setProc_keeps ?_ x).trans (.of_loop ((wheelFrame_insert hk').loop x)), rfl⟩
  exact .inl (ready_waitDeadline _)

theorem kept_heartbeatStop (ht : s.next (.heartbeatStop i) = some t) : DeadlineKept s t := by
  unfold BeatSystem.next at ht
  dsimp only at ht
  split at ht <;> [skip; cases ht]
  split at ht
  · obtain rfl := Option.some.inj ht
    exact ⟨fun x => .refl _, rfl⟩
  obtain ⟨k', hk', rfl⟩ := Option.map_eq_some_iff.mp ht
  refine ⟨fun x => ?_, rfl⟩
  refine KeepsDeadline.trans (.of_loop ((wheelFrame_remove hk').loop x)) (setProc_keeps ?_ x)
  exact .inl rfl

theorem cascade_keeps (h : WheelLists k f) (i x : Slot) :
    KeepsDeadline (k.procs x) ((agentCascadeTerminate k i false).procs x) := by
  obtain ⟨-, -, -, hx⟩ := cascade_spec h i
  rcases hx x with hsame | ⟨now, hswept⟩
  · exact .of_loop (congrArg Proc.loop hsame)
  · rw [hswept]
    exact .inr rfl

theorem kept_cascade (h : WheelLists s.kernel f) (ht : s.next (.cascade i) = some t) :
    DeadlineKept s t := by
  unfold BeatSystem.next at ht
  dsimp only at ht
  split at ht <;> [skip; cases ht]
  obtain rfl := Option.some.inj ht
  exact ⟨cascade_keeps h i, rfl⟩

theorem kept_reap (ht : s.next (.reap j) = some t) : DeadlineKept s t := by
  unfold BeatSystem.next at ht
  dsimp only at ht
  split at ht <;> [skip; cases ht]
  obtain rfl := Option.some.inj ht
  exact kept_setProc (.inr rfl)

theorem kept_rest (ht : s.next (.rest j p) = some t) : DeadlineKept s t := by
  unfold BeatSystem.next at ht
  dsimp only at ht
  split at ht <;> [skip; cases ht]
  rename_i hkeeps
  obtain rfl := Option.some.inj ht
  obtain ⟨-, -, -, -, -, -, -, hdeadline, -⟩ := hkeeps
  exact kept_setProc (.inl hdeadline)

theorem kept_exit (h : WheelLists s.kernel f) (ht : s.next (.exit i) = some t) :
    DeadlineKept s t := by
  unfold BeatSystem.next at ht
  dsimp only at ht
  split at ht <;> [skip; cases ht]
  unfold agentExit at ht
  dsimp only at ht
  set k₁ := if (s.kernel.procs i).wf.isWorkflowLeader then agentCascadeTerminate s.kernel i false
    else s.kernel with hk₁
  have hsweep : ∀ x, KeepsDeadline (s.kernel.procs x) (k₁.procs x) := by
    rw [hk₁]
    split
    · exact cascade_keeps h i
    · exact fun x => .refl _
  rw [Option.map_map] at ht
  obtain ⟨k₂, hrem, rfl⟩ := Option.map_eq_some_iff.mp ht
  refine ⟨fun x => ((hsweep x).trans (.of_loop ((wheelFrame_remove hrem).loop x))).trans ?_, rfl⟩
  refine setProc_keeps (k := k₂.setGlobal _) ?_ x
  exact .inl rfl

theorem kept_fork {copied : Bool} (ht : s.next (.fork i j copied) = some t) : DeadlineKept s t := by
  unfold BeatSystem.next at ht
  dsimp only at ht
  split at ht <;> [skip; cases ht]
  obtain rfl := Option.some.inj ht
  have hchild : ∃ p, p.loop.waitDeadline = 0 ∧
      (s.kernel.forkInto i j copied).procs = (s.kernel.setProc j p).procs := by
    unfold Kernel.forkInto
    dsimp only
    split
    · exact ⟨_, rfl, rfl⟩
    · exact ⟨_, rfl, rfl⟩
  obtain ⟨p, hp, hprocs⟩ := hchild
  have hstored : DeadlineKept s (s.setProc j p) := kept_setProc (.inr hp)
  refine ⟨fun x => ?_, rfl⟩
  have hx : (s.setKernel (s.kernel.forkInto i j copied)).proc x = (s.setProc j p).proc x :=
    congrFun hprocs x
  rw [hx]
  exact hstored.each x

/-- **The clock** touches no deadline. -/
theorem kept_tick (h : WheelLists s.kernel f) (ht : beatMachine.next s .tick = some t) :
    DeadlineKept s t := by
  have hb := beat_tick h ht
  refine ⟨fun x => ?_, hb.waiting⟩
  obtain ⟨fired, hx, -⟩ := hb.each x
  by_cases hin : (s.proc x).hb.heartbeatWheelActive = true ∧
      (s.proc x).hb.heartbeatWheelBucket = (wheelBucket t.kernel.ticks : ℕ)
  · exact (hx.visited hin.1 hin.2).1.beside.keepsDeadline
  · exact (hx.left hin).1.keepsDeadline

/-! ### `agent_create` -/

theorem setWf_loop {s : CascadeState} {m : Membership} :
    ((s.setWf i m).proc i).loop = (s.proc i).loop := by
  unfold CascadeState.setWf
  rw [CascadeState.setProc_self]

theorem markDone_waitDeadline {s : CascadeState} :
    ((s.markDone i).proc i).loop.waitDeadline = 0 := by
  unfold CascadeState.markDone
  rw [CascadeState.goto_proc, CascadeState.setProc_self]
  rfl

/-- `agent_mark_current` clears the deadline unless it fails. -/
theorem mark_keeps (s : CascadeState) (i : Slot) (a : CreateArgs) :
    KeepsDeadline (s.proc i) ((s.agentMarkCurrent i a.type a.heartbeatInterval a.resourceQuota
      a.uvmalloc a.now a.now').1.proc i) := by
  unfold CascadeState.agentMarkCurrent
  split
  · exact .refl _
  · rename_i k hk
    obtain ⟨generation, hst⟩ := markCurrent_stores hk
    have hloop : (k.procs i).loop.waitDeadline = (s.proc i).loop.waitDeadline := by
      rw [hst.proc]
      unfold markPlaced
      split <;> rfl
    dsimp only
    split_ifs
    · exact .inr markDone_waitDeadline
    · exact .inr markDone_waitDeadline
    · exact .inr markDone_waitDeadline
    · -- the workflow refuses the process
      rw [CascadeState.goto_proc, CascadeState.setGlobal_proc]
      exact .inl ((congrArg Loop.waitDeadline setWf_loop).trans hloop)
    · exact .inr markDone_waitDeadline

/-- So does the whole call. -/
theorem create_keeps {m : Memory} {a : CreateArgs} {w : CascadeState × Memory × ℤ}
    (h : agentCreate ⟨k, fun _ => .idle, fun _ => none⟩ m i a = some w) :
    KeepsDeadline (k.procs i) (w.1.proc i) := by
  obtain ⟨k₁, hrem, h⟩ := Option.bind_eq_some_iff.mp h
  have hmark := mark_keeps ⟨k₁, fun _ => .idle, fun _ => none⟩ i a
  have hmarked := (KeepsDeadline.of_loop ((wheelFrame_remove hrem).loop i)).trans hmark
  dsimp only at h
  split at h
  · obtain rfl := Option.some.inj h
    exact hmarked
  -- the Context is cleared, then the process goes on the wheel
  split at h
  · obtain ⟨k₂, hins, rfl⟩ := Option.map_eq_some_iff.mp h
    refine (hmarked.trans (setProc_keeps ?_ i)).trans (.of_loop ((wheelFrame_insert hins).loop i))
    exact .inl rfl
  · obtain rfl := Option.some.inj h
    refine hmarked.trans (setProc_keeps ?_ i)
    exact .inl rfl

theorem kept_create {m : Memory} {a : CreateArgs} (h : WheelLists s.kernel f)
    (ht : s.next (.create i m a) = some t) : DeadlineKept s t := by
  unfold BeatSystem.next at ht
  dsimp only at ht
  split at ht <;> [skip; cases ht]
  rename_i hc
  set a' : CreateArgs := { a with now := s.kernel.ticks, now' := s.kernel.ticks,
                                  now'' := s.kernel.ticks }
  obtain ⟨r, f', hr, -, -, hothers, -⟩ := create_spec h hc.1 m a'
  rw [hr] at ht
  obtain rfl := Option.some.inj ht
  refine ⟨fun x => ?_, rfl⟩
  by_cases hx : x = i
  · subst hx
    exact create_keeps hr
  · exact (hothers x hx).1.keepsDeadline

/-- **Every step but a wait** keeps or clears the deadlines. -/
theorem kept_step (h : Wheeled s) (hw : ∀ i n now', l ≠ .wait i n now')
    (hr : ∀ i now', l ≠ .round i now') (ht : beatMachine.next s l = some t) : DeadlineKept s t := by
  obtain ⟨f, hf⟩ := h.lists
  cases l with
  | tick => exact kept_tick hf ht
  | create i m a => exact kept_create hf ht
  | heartbeatSet i n => exact kept_heartbeatSet ht
  | heartbeatStop i => exact kept_heartbeatStop ht
  | watch i mask => exact kept_call (keeps_watch _ _) ht
  | unwatch i mask => exact kept_call (keeps_unwatch _ _) ht
  | watchFile i dev inum path => exact kept_call (keeps_watchFile _ _ _ _) ht
  | finish i =>
    refine kept_call ?_ ht
    split
    · exact .refl _
    · exact .inr rfl
  | wait i n now' => exact absurd rfl (hw i n now')
  | round i now' => exact absurd rfl (hr i now')
  | cascade i => exact kept_cascade hf ht
  | kill j =>
    obtain rfl := Option.some.inj ht
    exact kept_setProc (.inl rfl)
  | fork i j copied => exact kept_fork ht
  | exit i => exact kept_exit hf ht
  | reap j => exact kept_reap ht
  | rest j p => exact kept_rest ht

/-! ### A wait -/

theorem iter_asleep_iff : (agentProcWaitIter i p now now').2 = .asleep ↔ ¬ Rouses p now := by
  unfold agentProcWaitIter Rouses
  split_ifs <;> simp_all

theorem iter_waitDeadline :
    (agentProcWaitIter i p now now').1.loop.waitDeadline = p.loop.waitDeadline := by
  unfold agentProcWaitIter
  split_ifs <;> rfl

theorem waitRound_waiting : (s.waitRound i p now').waiting i = true ↔
    ¬ Rouses p s.kernel.ticks := by
  have hself : (s.waitRound i p now').waiting i =
      ((agentProcWaitIter i p s.kernel.ticks now').2 == .asleep) := Function.update_self _ _ _
  rw [hself, beq_iff_eq]
  exact iter_asleep_iff

theorem waitRound_waitDeadline :
    ((s.waitRound i p now').proc i).loop.waitDeadline = p.loop.waitDeadline := by
  rw [waitRound_proc]
  exact iter_waitDeadline

/-- A round of the wait of process `i` with the record `p`, in a system where the others rest. -/
theorem rested_waitRound (hs : Rested s) (h : p.loop.waitDeadline ≠ 0 → ¬ Rouses p s.kernel.ticks) :
    Rested (s.waitRound i p now') := by
  intro x hw
  by_cases hx : x = i
  · subst hx
    rw [waitRound_waitDeadline]
    by_contra hne
    rw [waitRound_waiting.mpr (h hne)] at hw
    cases hw
  · have hx' : (s.waitRound i p now').waiting x = s.waiting x := Function.update_of_ne hx _ _
    have hp : (s.waitRound i p now').proc x = s.proc x := BeatSystem.setProc_ne hx
    rw [hx'] at hw
    rw [hp]
    exact hs x hw

/-- **Every step** but the end of a wait with a deadline leaves those outside without one. -/
theorem rested_step (h : Wheeled s) (hs : Rested s) (hok : ¬ EndsTimedWait s l)
    (ht : beatMachine.next s l = some t) : Rested t := by
  by_cases hwait : ∃ i n now', l = .wait i n now'
  · obtain ⟨i, n, now', rfl⟩ := hwait
    have ht' : s.next (.wait i n now') = some t := ht
    unfold BeatSystem.next at ht'
    dsimp only at ht'
    split at ht' <;> [skip; cases ht']
    rename_i hc
    split at ht' <;> obtain rfl := Option.some.inj ht'
    · exact hs
    · rename_i hno
      rw [not_or] at hno
      refine rested_waitRound hs fun hne hrouse => hok ⟨?_, hc, hno.1, hrouse⟩
      by_contra hn
      refine hne ?_
      unfold agentProcWaitBegin
      dsimp only
      rw [if_neg hn]
  by_cases hround : ∃ i now', l = .round i now'
  · obtain ⟨i, now', rfl⟩ := hround
    have ht' : s.next (.round i now') = some t := ht
    unfold BeatSystem.next at ht'
    dsimp only at ht'
    split at ht' <;> [skip; cases ht']
    obtain rfl := Option.some.inj ht'
    exact rested_waitRound hs fun hne hrouse => hok ⟨hne, hrouse⟩
  · refine DeadlineKept.rested (kept_step h (fun i n now' e => ?_) (fun i now' e => ?_) ht) hs
    · exact hwait ⟨i, n, now', e⟩
    · exact hround ⟨i, now', e⟩

/-- Where a wait with a deadline ends, its caller keeps the deadline. -/
theorem endsTimedWait_breaks (hend : EndsTimedWait s l) (ht : beatMachine.next s l = some t) :
    ¬ Rested t := by
  intro hrest
  cases l with
  | wait i n now' =>
    obtain ⟨hn, hc, htype, hrouse⟩ := hend
    have ht' : s.next (.wait i n now') = some t := ht
    have hsrc : ¬ ((s.proc i).ident.agentType = agentTypeNormal ∨
        agentProcWaitNoSource (s.proc i) n) := by
      rintro (h | h)
      · exact htype h
      · exact absurd h.2.2.2 (by omega)
    unfold BeatSystem.next at ht'
    dsimp only at ht'
    rw [if_pos hc, if_neg hsrc] at ht'
    obtain rfl := Option.some.inj ht'
    have hout : (s.waitRound i (agentProcWaitBegin (s.proc i) n s.kernel.ticks) now').waiting i =
        false := Bool.eq_false_iff.mpr fun h => waitRound_waiting.mp h hrouse
    have hzero := hrest i hout
    rw [waitRound_waitDeadline] at hzero
    unfold agentProcWaitBegin at hzero
    dsimp only at hzero
    rw [if_pos hn] at hzero
    omega
  | round i now' =>
    obtain ⟨hne, hrouse⟩ := hend
    have ht' : s.next (.round i now') = some t := ht
    unfold BeatSystem.next at ht'
    dsimp only at ht'
    split at ht' <;> [skip; cases ht']
    obtain rfl := Option.some.inj ht'
    have hout : (s.waitRound i (agentProcWaitResume (s.proc i)) now').waiting i = false :=
      Bool.eq_false_iff.mpr fun h => waitRound_waiting.mp h hrouse
    have hzero := hrest i hout
    rw [waitRound_waitDeadline] at hzero
    exact hne hzero
  | _ => exact hend

/-! ### Runs -/

theorem rested_init (h : beatMachine.init s) : Rested s := by
  intro x _
  rw [(h.2.2 x).2.2.1]
  rfl

/-- **In a run in which no wait with a timeout returns to its caller, whoever is not inside
`agent_proc_wait` has no deadline**, so the score gives the bonus of a deadline to those inside
only. -/
theorem deadline_rests {tr : List BeatLabel}
    (h : beatMachine.Reach (fun s l => ¬ EndsTimedWait s l) tr s) (x : Slot) :
    (s.waiting x = false → (s.proc x).loop.waitDeadline = 0) ∧
      ∀ now, 0 < deadlineBonus (s.proc x).loop now → s.waiting x = true := by
  have hinv : Wheeled s ∧ Rested s := by
    refine h.inv (P := fun s => Wheeled s ∧ Rested s) (fun _ h₀ => ⟨wheeled_init h₀, rested_init h₀⟩)
      fun s l t hs hok ht => ⟨?_, rested_step hs.1 hs.2 hok ht⟩
    by_cases hl : l = .tick
    · subst hl
      exact wheeled_tick hs.1 ht
    · exact wheeled_call hs.1 hl ht
  refine ⟨hinv.2 x, fun now hbonus => ?_⟩
  by_contra hw
  rw [Bool.not_eq_true] at hw
  unfold deadlineBonus at hbonus
  rw [if_neg fun hd => absurd (hinv.2 x hw) (by omega)] at hbonus
  exact absurd hbonus (by decide)

end

/-! ### A deadline that stays -/

/-- A worker waits for five ticks; the clock wakes it, and it returns with `AGENT_WAIT_TIMEOUT`. -/
def waitsFive : List BeatLabel :=
  [.create 0 twoPages ⟨agentTypeWorker, 0, 0, true, 0, 0, 0⟩, .wait 0 5 0, .tick, .tick, .tick, .tick,
    .tick, .round 0 5]

def afterWait (tr : List BeatLabel) : BeatSystem := (beatMachine.run bootBeats tr).getD bootBeats

set_option maxRecDepth 100000 in
/-- **The wait is over and its deadline is not**: the score has the bonus. -/
theorem deadline_stays :
    beatMachine.Reach always waitsFive (afterWait waitsFive) ∧
      ((afterWait waitsFive).proc 0).ident.agentType ≠ agentTypeNormal ∧
      (afterWait waitsFive).waiting 0 = false ∧
      ((afterWait waitsFive).proc 0).loop.waitDeadline = 5 ∧
      deadlineBonus ((afterWait waitsFive).proc 0).loop 1000 = 15 :=
  ⟨⟨_, bootBeats_init, path_getD (by decide +kernel)⟩, by decide +kernel, by decide +kernel,
    by decide +kernel, by decide +kernel⟩

/-- It waits without a timeout, and its heartbeat wakes it. -/
def waitsUntimed : List BeatLabel :=
  [.create 0 twoPages ⟨agentTypeWorker, 2, 0, true, 0, 0, 0⟩, .wait 0 0 0, .tick, .tick, .tick,
    .round 0 3]

set_option maxRecDepth 100000 in
theorem deadline_rests_untimed :
    ((afterWait waitsUntimed).waiting 0 = false →
        ((afterWait waitsUntimed).proc 0).loop.waitDeadline = 0) ∧
      ∀ now, 0 < deadlineBonus ((afterWait waitsUntimed).proc 0).loop now →
        (afterWait waitsUntimed).waiting 0 = true :=
  deadline_rests ⟨_, bootBeats_init, pathOk_run_getD (by decide +kernel)⟩ 0

end AgentOS
