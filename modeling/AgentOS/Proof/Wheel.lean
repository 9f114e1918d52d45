import AgentOS.Model.Wheel

/-!
# What the clock interrupt does to a process

* `Disturbs j p q`: what a section of another process or of the clock makes of the record of
  slot `j`. It never puts a process to sleep, and it leaves what a waiter looks at alone unless
  it also wakes it.
* `wheelFrame_*`: the wheel functions write heartbeat records and `agent_global` only.
* `clock_disturbs`: a section of the clock interrupt disturbs every process in this sense.
* `clock_timeout`: how far the timeout loop of `agent_tick` has come.
-/

namespace AgentOS

/-- `PARENT_GONE` is pending. -/
def Gone (p : Proc) : Prop := p.loop.pendingEvents &&& agentEventParentGone ≠ 0

/-- A section of somebody else makes `q` of the record `p` of slot `j`. -/
structure Disturbs (j : Slot) (p q : Proc) : Prop where
  type : q.ident.agentType = p.ident.agentType
  gone : Gone p → Gone q
  loop : q.loop.loopState = p.loop.loopState ∨ Gone q
  count : 0 ≤ p.mailbox.count → 0 ≤ q.mailbox.count
  wakes : q.state = .sleeping → p.state = .sleeping
  still : p.chan = some (.proc j) → q.state = .sleeping →
    q.chan = p.chan ∧ q.mailbox.count = p.mailbox.count ∧ q.loop = p.loop ∧ q.killed = p.killed

/-- The argument of the `agent_tick` that is running, or about to run. -/
def ClockPhase.now : ClockPhase → Option ℕ
  | .idle => none
  | .waking now _ | .replenish now _ | .reap now | .detach now | .walk now _ | .visit now _ _
  | .timeout now _ => some now

/-- `agent_tick` runs with the time that `ticks` shows: one CPU advances it, and between two
interrupts. -/
def OnTime (k : Kernel) (c : ClockPhase) : Prop := ∀ n, c.now = some n → n = k.ticks

section

variable {j : Slot} {p q r : Proc} {now : ℕ} {k k' k'' : Kernel} {locked : Slot → Bool}
  {c c' : ClockPhase}

theorem Disturbs.refl (j : Slot) (p : Proc) : Disturbs j p p :=
  ⟨rfl, id, .inl rfl, id, id, fun _ _ => ⟨rfl, rfl, rfl, rfl⟩⟩

theorem Disturbs.of_eq (h : q = p) : Disturbs j p q := h ▸ Disturbs.refl j p

/-- Fields that no waiter looks at. -/
theorem Disturbs.of_fields (ht : q.ident = p.ident) (hl : q.loop = p.loop)
    (hm : q.mailbox.count = p.mailbox.count) (hk : q.killed = p.killed) (hc : q.chan = p.chan)
    (hs : q.state = .sleeping → p.state = .sleeping) : Disturbs j p q where
  type := by rw [ht]
  gone := by unfold Gone; rw [hl]; exact id
  loop := .inl (by rw [hl])
  count := by rw [hm]; exact id
  wakes := hs
  still := fun _ _ => ⟨hc, hm, hl, hk⟩

theorem Disturbs.trans (h : Disturbs j p q) (h' : Disturbs j q r) : Disturbs j p r where
  type := h'.type.trans h.type
  gone := fun hg => h'.gone (h.gone hg)
  loop := by
    rcases h'.loop with hl' | hg
    · rcases h.loop with hl | hg
      · exact .inl (hl'.trans hl)
      · exact .inr (h'.gone hg)
    · exact .inr hg
  count := fun hc => h'.count (h.count hc)
  wakes := fun hs => h.wakes (h'.wakes hs)
  still := by
    intro hc hs
    obtain ⟨a, b, c, d⟩ := h.still hc (h'.wakes hs)
    obtain ⟨a', b', c', d'⟩ := h'.still (a.trans hc) hs
    exact ⟨a'.trans a, b'.trans b, c'.trans c, d'.trans d⟩

theorem gone_or (event : BitVec 32) (h : Gone p) :
    (p.loop.pendingEvents ||| event) &&& agentEventParentGone ≠ 0 := by
  intro h0
  rw [BitVec.and_or_distrib_right] at h0
  exact h (BitVec.or_eq_zero_iff.1 h0).1

/-- **A signal wakes a waiter.** -/
theorem signal_disturbs (event : BitVec 32) :
    Disturbs j p (agentSignalEventLocked j p event now) := by
  unfold agentSignalEventLocked
  dsimp only
  split
  · refine ⟨rfl, fun h => gone_or event h, .inl rfl, id, ?_, ?_⟩
    · intro h
      exact absurd h (by simp)
    · intro _ h
      exact absurd h (by simp)
  · rename_i hno
    refine ⟨rfl, fun h => gone_or event h, .inl rfl, id, id, ?_⟩
    intro hc hs
    exact absurd ⟨hs, hc⟩ hno

/-- The fields a waiter looks at are those of a record that differs in its heartbeat. -/
theorem Disturbs.hb (hb : Heartbeat) : Disturbs j p { p with hb := hb } :=
  Disturbs.of_fields rfl rfl rfl rfl rfl id

theorem wakeupAt_disturbs (chan : Chan) : Disturbs j p (wakeupAt p chan) := by
  unfold wakeupAt
  split
  · exact Disturbs.of_fields rfl rfl rfl rfl rfl fun h => absurd h (by simp)
  · exact Disturbs.refl j p

theorem replenish_disturbs : Disturbs j p (agentReplenishBudget p now) := by
  unfold agentReplenishBudget
  split
  · exact Disturbs.of_fields rfl rfl rfl rfl rfl id
  · exact Disturbs.refl j p

theorem timeout_disturbs : Disturbs j p (agentTickTimeout j p now) := by
  unfold agentTickTimeout
  split
  · refine ⟨rfl, id, .inl rfl, id, ?_, ?_⟩
    · intro h
      exact absurd h (by simp)
    · intro _ h
      exact absurd h (by simp)
  · exact Disturbs.refl j p

/-! ### The wheel -/

/-- Heartbeat records and `agent_global` apart, the two kernels are the same. -/
def WheelFrame (k k' : Kernel) : Prop :=
  k'.ticks = k.ticks ∧ ∀ j, ∃ hb, k'.procs j = { k.procs j with hb := hb }

theorem WheelFrame.refl (k : Kernel) : WheelFrame k k := ⟨rfl, fun j => ⟨(k.procs j).hb, rfl⟩⟩

theorem WheelFrame.trans (h : WheelFrame k k') (h' : WheelFrame k' k'') : WheelFrame k k'' := by
  refine ⟨h'.1.trans h.1, fun j => ?_⟩
  obtain ⟨hb, e⟩ := h.2 j
  obtain ⟨hb', e'⟩ := h'.2 j
  exact ⟨hb', by rw [e', e]⟩

theorem wheelFrame_setGlobal (k : Kernel) (g : AgentGlobal) : WheelFrame k (k.setGlobal g) :=
  ⟨rfl, fun j => ⟨(k.procs j).hb, rfl⟩⟩

theorem wheelFrame_setHb (k : Kernel) (i : Slot) (hb : Heartbeat) : WheelFrame k (k.setHb i hb) := by
  refine ⟨rfl, fun j => ?_⟩
  unfold Kernel.setHb
  rw [Kernel.setProc_procs]
  by_cases h : j = i
  · subst h
    exact ⟨hb, by rw [if_pos rfl]⟩
  · exact ⟨(k.procs j).hb, by rw [if_neg h]⟩

theorem WheelFrame.disturbs (h : WheelFrame k k') (j : Slot) :
    Disturbs j (k.procs j) (k'.procs j) := by
  obtain ⟨hb, e⟩ := h.2 j
  rw [e]
  exact Disturbs.hb hb

theorem wheelFrame_removeLoop {bucket : Fin agentHeartbeatWheelBuckets} {index fuel : ℕ} :
    ∀ {previous current : ℕ},
      wheelRemoveLoop k bucket index fuel previous current = some k' → WheelFrame k k' := by
  induction fuel with
  | zero => intro previous current h; exact absurd h (by simp [wheelRemoveLoop])
  | succ fuel ih =>
    intro previous current h
    unfold wheelRemoveLoop at h
    split at h
    · cases h
      exact WheelFrame.refl _
    dsimp only at h
    split at h
    · split at h
      · cases h
        exact wheelFrame_setGlobal _ _
      · split at h <;> cases h
        · exact (wheelFrame_setGlobal _ _).trans (wheelFrame_setHb _ _ _)
        · exact wheelFrame_setGlobal _ _
    · exact ih h

theorem wheelFrame_remove {i : Slot} (h : agentHeartbeatWheelRemoveLocked k i = some k') :
    WheelFrame k k' := by
  unfold agentHeartbeatWheelRemoveLocked at h
  dsimp only at h
  split at h
  · cases h
    exact WheelFrame.refl _
  split at h
  · obtain ⟨k₁, hk₁, rfl⟩ := Option.map_eq_some_iff.1 h
    exact (wheelFrame_removeLoop hk₁).trans (wheelFrame_setHb _ _ _)
  · cases h
    exact wheelFrame_setHb _ _ _

theorem wheelFrame_insert {i : Slot} (h : agentHeartbeatWheelInsertLocked k i = some k') :
    WheelFrame k k' := by
  unfold agentHeartbeatWheelInsertLocked at h
  obtain ⟨k₁, hk₁, rfl⟩ := Option.map_eq_some_iff.1 h
  have h₁ : WheelFrame k k₁ := by
    split at hk₁
    · exact wheelFrame_remove hk₁
    · cases hk₁
      exact WheelFrame.refl _
  refine h₁.trans ?_
  split
  · exact (wheelFrame_setHb _ _ _).trans (wheelFrame_setGlobal _ _)
  · exact WheelFrame.refl _

theorem wheelFrame_detachLoop {fuel : ℕ} :
    ∀ {k k' : Kernel} {scan : ℕ}, wheelDetachLoop k fuel scan = some k' → WheelFrame k k' := by
  induction fuel with
  | zero => intro k k' scan h; exact absurd h (by simp [wheelDetachLoop])
  | succ fuel ih =>
    intro k k' scan h
    unfold wheelDetachLoop at h
    split at h
    · cases h
      exact WheelFrame.refl _
    split at h
    · exact ih h
    · exact ((wheelFrame_setHb _ _ _).trans (wheelFrame_setGlobal _ _)).trans (ih h)

theorem wheelFrame_detach {current : ℕ} (h : agentTickDetach k now = some (k', current)) :
    WheelFrame k k' := by
  unfold agentTickDetach at h
  obtain ⟨k₁, hk₁, he⟩ := Option.map_eq_some_iff.1 h
  cases he
  exact (wheelFrame_setGlobal _ _).trans (wheelFrame_detachLoop hk₁)

/-! ### The clock -/

theorem setProc_disturbs (h : Disturbs j (k.procs j) q) (i : Slot) :
    Disturbs i (k.procs i) ((k.setProc j q).procs i) := by
  rw [Kernel.setProc_procs]
  by_cases hi : i = j
  · subst hi
    rwa [if_pos rfl]
  · rw [if_neg hi]
    exact Disturbs.refl _ _

theorem heartbeat_disturbs (i : Slot) :
    Disturbs i (k.procs i) ((agentTickHeartbeat k j now).procs i) := by
  unfold agentTickHeartbeat
  dsimp only
  split
  · refine setProc_disturbs ?_ i
    exact ((Disturbs.hb _).trans (signal_disturbs agentEventHeartbeat)).trans (Disturbs.hb _)
  · exact setProc_disturbs (Disturbs.hb _) i

theorem heartbeat_ticks : (agentTickHeartbeat k j now).ticks = k.ticks := by
  unfold agentTickHeartbeat
  dsimp only
  split <;> rfl

theorem visit_disturbs (h : agentTickVisit k j now = some k') :
    k'.ticks = k.ticks ∧ ∀ i, Disturbs i (k.procs i) (k'.procs i) := by
  unfold agentTickVisit at h
  dsimp only at h
  split at h
  · have hf := wheelFrame_insert h
    refine ⟨hf.1.trans heartbeat_ticks, fun i => ?_⟩
    exact (heartbeat_disturbs i).trans (hf.disturbs i)
  · cases h
    exact ⟨heartbeat_ticks, heartbeat_disturbs⟩

/-- A step of a loop over `proc[]`. -/
theorem eachSlot_some {f : Slot → Proc → Proc} {n : ℕ} {more fin : ClockPhase}
    (h : eachSlot locked k n f more fin = some (k', c')) :
    (∃ hn : n < nproc, k' = k.setProc ⟨n, hn⟩ (f ⟨n, hn⟩ (k.procs ⟨n, hn⟩)) ∧ c' = more) ∨
      nproc ≤ n ∧ k' = k ∧ c' = fin := by
  unfold eachSlot at h
  split at h
  · rename_i hn
    dsimp only at h
    split at h
    · cases h
    · cases h
      exact .inl ⟨hn, rfl, rfl⟩
  · cases h
    exact .inr ⟨by omega, rfl, rfl⟩

theorem eachSlot_disturbs {f : Slot → Proc → Proc} {n : ℕ} {more fin : ClockPhase}
    (hf : ∀ i p, Disturbs i p (f i p)) (h : eachSlot locked k n f more fin = some (k', c')) :
    k'.ticks = k.ticks ∧ ∀ i, Disturbs i (k.procs i) (k'.procs i) := by
  rcases eachSlot_some h with ⟨hn, rfl, -⟩ | ⟨-, rfl, -⟩
  · exact ⟨rfl, setProc_disturbs (hf _ _)⟩
  · exact ⟨rfl, fun i => Disturbs.refl _ _⟩

/-- **The clock interrupt disturbs everybody alike**, and it advances `ticks` in its first
section only. -/
theorem clock_disturbs (h : clockNext locked k c = some (k', c')) :
    (c ≠ .idle → k'.ticks = k.ticks) ∧ ∀ i, Disturbs i (k.procs i) (k'.procs i) := by
  have frame : ∀ {k₁ : Kernel}, WheelFrame k k₁ →
      k₁.ticks = k.ticks ∧ ∀ i, Disturbs i (k.procs i) (k₁.procs i) :=
    fun hw => ⟨hw.1, hw.disturbs⟩
  have suffices_frame : (k'.ticks = k.ticks ∧ ∀ i, Disturbs i (k.procs i) (k'.procs i)) →
      (c ≠ .idle → k'.ticks = k.ticks) ∧ ∀ i, Disturbs i (k.procs i) (k'.procs i) :=
    fun hw => ⟨fun _ => hw.1, hw.2⟩
  cases c with
  | idle =>
    simp only [clockNext, Option.some.injEq, Prod.mk.injEq] at h
    obtain ⟨rfl, -⟩ := h
    exact ⟨fun hc => absurd rfl hc, fun i => Disturbs.refl _ _⟩
  | waking now n =>
    exact suffices_frame (eachSlot_disturbs (fun _ _ => wakeupAt_disturbs _) h)
  | replenish now n =>
    exact suffices_frame (eachSlot_disturbs (fun _ _ => replenish_disturbs) h)
  | reap now =>
    cases h
    exact suffices_frame (frame (wheelFrame_setGlobal _ _))
  | detach now =>
    obtain ⟨r, hr, he⟩ := Option.map_eq_some_iff.1 h
    cases he
    exact suffices_frame (frame (wheelFrame_detach hr))
  | walk now current =>
    simp only [clockNext] at h
    split at h
    · cases h
      exact suffices_frame (frame (WheelFrame.refl _))
    split at h <;> cases h
    · exact suffices_frame (frame (WheelFrame.refl _))
    · exact suffices_frame (frame (wheelFrame_setGlobal _ _))
  | visit now i next =>
    simp only [clockNext] at h
    split at h
    · cases h
    obtain ⟨k₁, hk₁, he⟩ := Option.map_eq_some_iff.1 h
    cases he
    exact suffices_frame (visit_disturbs hk₁)
  | timeout now n =>
    exact suffices_frame (eachSlot_disturbs (fun _ _ => timeout_disturbs) h)

/-! ### The time of the interrupt -/

theorem eachSlot_now {f : Slot → Proc → Proc} {n : ℕ} {more fin : ClockPhase}
    (h : eachSlot locked k n f more fin = some (k', c')) (hmore : more.now = c.now)
    (hfin : fin.now = c.now ∨ fin.now = none) : c'.now = c.now ∨ c'.now = none := by
  rcases eachSlot_some h with ⟨-, -, rfl⟩ | ⟨-, -, rfl⟩
  · exact .inl hmore
  · exact hfin

theorem clock_now (hc : c ≠ .idle) (h : clockNext locked k c = some (k', c')) :
    c'.now = c.now ∨ c'.now = none := by
  cases c with
  | idle => exact absurd rfl hc
  | waking t n =>
    simp only [clockNext] at h
    exact eachSlot_now h rfl (.inl rfl)
  | replenish t n =>
    simp only [clockNext] at h
    exact eachSlot_now h rfl (.inl rfl)
  | reap now =>
    cases h
    exact .inl rfl
  | detach now =>
    obtain ⟨r, -, he⟩ := Option.map_eq_some_iff.1 h
    cases he
    exact .inl rfl
  | walk now current =>
    simp only [clockNext] at h
    split at h
    · cases h
      exact .inl rfl
    split at h <;> cases h <;> exact .inl rfl
  | visit now i next =>
    simp only [clockNext] at h
    split at h
    · cases h
    obtain ⟨k₁, -, he⟩ := Option.map_eq_some_iff.1 h
    cases he
    exact .inl rfl
  | timeout t n =>
    simp only [clockNext] at h
    exact eachSlot_now h rfl (.inr rfl)

theorem clock_onTime (hot : OnTime k c) (h : clockNext locked k c = some (k', c')) :
    OnTime k' c' := by
  by_cases hc : c = .idle
  · subst hc
    simp only [clockNext, Option.some.injEq, Prod.mk.injEq] at h
    obtain ⟨rfl, rfl⟩ := h
    intro n hn
    simpa [ClockPhase.now] using hn.symm
  · intro n hn
    rw [(clock_disturbs h).1 hc]
    rcases clock_now hc h with he | he
    · exact hot n (he ▸ hn)
    · rw [he] at hn
      cases hn

/-- **The timeout loop**: it has seen no slot yet, or one more. -/
theorem clock_timeout {n m : ℕ} (h : clockNext locked k c = some (k', .timeout n m)) :
    m = 0 ∨ ∃ m', ∃ hm : m' < nproc, m = m' + 1 ∧ c = .timeout n m' ∧
      k' = k.setProc ⟨m', hm⟩ (agentTickTimeout ⟨m', hm⟩ (k.procs ⟨m', hm⟩) n) := by
  have each : ∀ {f : Slot → Proc → Proc} {n' : ℕ} {more fin : ClockPhase},
      eachSlot locked k n' f more fin = some (k', .timeout n m) →
      ClockPhase.timeout n m ≠ more → ClockPhase.timeout n m ≠ fin → False := by
    intro f n' more fin he h₁ h₂
    rcases eachSlot_some he with ⟨-, -, e⟩ | ⟨-, -, e⟩
    · exact h₁ e
    · exact h₂ e
  cases c with
  | idle => simp [clockNext] at h
  | waking t i =>
    simp only [clockNext] at h
    exact (each h (by simp) (by simp)).elim
  | replenish t i =>
    simp only [clockNext] at h
    exact (each h (by simp) (by simp)).elim
  | reap now => cases h
  | detach now =>
    obtain ⟨r, -, he⟩ := Option.map_eq_some_iff.1 h
    cases he
  | walk now current =>
    simp only [clockNext] at h
    split at h
    · cases h
      exact .inl rfl
    split at h <;> cases h
  | visit now i next =>
    simp only [clockNext] at h
    split at h
    · cases h
    obtain ⟨k₁, -, he⟩ := Option.map_eq_some_iff.1 h
    cases he
  | timeout t m' =>
    simp only [clockNext] at h
    rcases eachSlot_some h with ⟨hm, hk, e⟩ | ⟨-, -, e⟩
    · obtain ⟨rfl, rfl⟩ := ClockPhase.timeout.inj e
      exact .inr ⟨m', hm, rfl, rfl, hk⟩
    · cases e

/-- The loop leaves no waiter it has seen asleep past its deadline. -/
theorem timeout_wakes (ht : p.ident.agentType ≠ agentTypeNormal) (hc : p.chan = some (.proc j))
    (hl : p.loop.loopState = agentLoopWaiting) (hd : 0 < p.loop.waitDeadline)
    (hs : (agentTickTimeout j p now).state = .sleeping) : now < p.loop.waitDeadline := by
  unfold agentTickTimeout at hs
  split at hs
  · cases hs
  · rename_i hno
    by_contra hle
    exact hno ⟨hs, hc, ht, hl, hd, by omega⟩

end

end AgentOS
