import AgentOS.Proof.LogCommit

/-!
# Crashes of the log

* `refines_step`: every step of the log stands for its event of the journal, for the commit, or for
  nothing.
* **`log_refines_journal`**: along every run, with crashes before and after every sector written,
  also in recovery, the processes read what the journal holds. So a crash undoes whole operations
  or none, and no operation that a returned `end_op` has committed.
-/

namespace AgentOS

open LogState Machine

variable {sb : Superblock} {s t : LogState} {σ σ' : Journal} {w : LogWrite} {j : Slot}
  {a : LogLabel} {k : Sector}

/-! ### Events -/

theorem journal_begin (h : σ.inOp j = false) : σ.next sb.Home (.begin j) =
    some { σ with inOp := Function.update σ.inOp j true } :=
  if_neg (by rw [h]; exact Bool.false_ne_true)

theorem journal_write (h : σ.inOp j = true) (b : ℕ) (d : Block) : σ.next sb.Home (.write j b d) =
    some { σ with current := Function.update σ.current b d } := if_pos h

theorem journal_endOp (h : σ.inOp j = true) : σ.next sb.Home (.endOp j) =
    some { σ with inOp := Function.update σ.inOp j false } := if_pos h

theorem journal_commit (h : ∀ j, σ.inOp j = false) : σ.next sb.Home .commit =
    some { σ with stable := σ.current } := if_pos h

/-- A step of the log is followed by the journal. -/
def LogFollows (sb : Superblock) (s : LogState) (a : LogLabel) (σ : Journal) (t : LogState) : Prop :=
  ∃ es σ', (journalMachine sb.Home).Path always σ es σ' ∧
    es.filter (fun e => !e.isCommit) = (s.event a).toList ∧ Refines sb t σ'

theorem LogFollows.silent (he : s.event a = none) (h : Refines sb t σ) : LogFollows sb s a σ t :=
  ⟨[], σ, Path.nil σ, by rw [he]; rfl, h⟩

theorem LogFollows.event {e : JournalEvent} (he : s.event a = some e) (hc : e.isCommit = false)
    (hn : σ.next sb.Home e = some σ') (h : Refines sb t σ') : LogFollows sb s a σ t :=
  ⟨[e], σ', Path.single trivial hn, by rw [he]; simp [hc], h⟩

theorem LogFollows.commit (he : s.event a = none) (hin : ∀ j, σ.inOp j = false)
    (h : Refines sb t { σ with stable := σ.current }) : LogFollows sb s a σ t := by
  exact ⟨[.commit], _, Path.single trivial (journal_commit hin : σ.next sb.Home _ = _), by rw [he]; rfl, h⟩

/-! ### Steps -/

theorem next_off (hp : s.phase = .off) (h : s.next sb a = some t) :
    a = .boot ∧ s.boot sb = some t := by
  unfold LogState.next at h
  rw [hp] at h
  cases a <;> first | exact ⟨rfl, h⟩ | cases h

theorem next_recovering (hp : s.phase = .recovering w) (h : s.next sb a = some t) :
    a = .crash ∧ t = s.crash ∨
      ∃ k, a = .bootDisk k ∧ s.bwrite sb w k (fun t => t.advanceBoot w) = some t := by
  unfold LogState.next at h
  rw [hp] at h
  cases a with
  | crash => exact .inl ⟨rfl, (Option.some.inj h).symm⟩
  | bootDisk k => exact .inr ⟨k, rfl, h⟩
  | _ => cases h

theorem next_running (hp : s.phase = .running) (h : s.next sb a = some t) :
    a = .crash ∧ t = s.crash ∨ s.step sb a = some t := by
  unfold LogState.next at h
  rw [hp] at h
  cases a with
  | crash => exact .inl ⟨rfl, (Option.some.inj h).symm⟩
  | _ => exact .inr h

/-- **What a step of a machine that is up can be.** -/
inductive LogStep (sb : Superblock) (s : LogState) : LogLabel → LogState → Prop
  | begin {j : Slot} (hj : s.calls j = .user) : LogStep sb s (.begin j) (s.goto j .begin)
  | sleep {j : Slot} (hj : s.calls j = .begin)
      (hfull : s.committing = true ∨ logsize < s.blocks.length + (s.outstanding + 1) * maxopblocks) :
      LogStep sb s (.look j) (s.goto j .asleep)
  | enter {j : Slot} (hj : s.calls j = .begin) (hc : s.committing = false)
      (hfit : ¬ logsize < s.blocks.length + (s.outstanding + 1) * maxopblocks) :
      LogStep sb s (.look j) ({ s with outstanding := s.outstanding + 1 }.goto j (.op []))
  | kill {j : Slot} (hj : s.calls j = .asleep) : LogStep sb s (.kill j) (s.goto j .begin)
  | write {j : Slot} {b : ℕ} {d : Block} {wrote : List ℕ} {u : LogState}
      (hj : s.calls j = .op wrote) (hu : s.logWrite sb b d = some u) :
      LogStep sb s (.write j b d) (u.goto j (.op (wrote.insert b)))
  | endOp {j : Slot} {wrote : List ℕ} (hj : s.calls j = .op wrote) (ho : s.outstanding - 1 ≠ 0) :
      LogStep sb s (.endOp j) ({ s with outstanding := s.outstanding - 1 }.wakeup.goto j .user)
  | endLast {j : Slot} {wrote : List ℕ} (hj : s.calls j = .op wrote) (ho : s.outstanding - 1 = 0) :
      LogStep sb s (.endOp j) ({ s with outstanding := 0, committing := true }.goto j
        (if 0 < s.blocks.length then .commit (.log 0) else .committed))
  | disk {j : Slot} {w : LogWrite} {k : Sector} {t : LogState} (hj : s.calls j = .commit w)
      (hb : s.bwrite sb w k (fun t => t.advance j w) = some t) : LogStep sb s (.disk j k) t
  | finish {j : Slot} (hj : s.calls j = .committed) :
      LogStep sb s (.finish j) ({ s with committing := false }.wakeup.goto j .user)
  | bread (b : ℕ) : LogStep sb s (.bread b) (s.load b)
  | recycle {b : ℕ} (hp : s.pins b = 0) (hh : ∀ x ∈ s.half, x.1 ≠ b) :
      LogStep sb s (.recycle b) { s with cache := Function.update s.cache b none }

theorem step_inv (h : s.step sb a = some t) : LogStep sb s a t := by
  cases a with
  | begin j =>
    simp only [LogState.step] at h
    split at h
    · obtain rfl := Option.some.inj h
      exact .begin ‹_›
    · cases h
  | look j =>
    simp only [LogState.step] at h
    split at h <;> [skip; cases h]
    rename_i hj
    split at h
    · obtain rfl := Option.some.inj h
      exact .sleep hj (.inl ‹_›)
    rename_i hc
    split at h
    · obtain rfl := Option.some.inj h
      exact .sleep hj (.inr ‹_›)
    · obtain rfl := Option.some.inj h
      exact .enter hj (Bool.eq_false_iff.2 hc) ‹_›
  | kill j =>
    simp only [LogState.step] at h
    split at h
    · obtain rfl := Option.some.inj h
      exact .kill ‹_›
    · cases h
  | write j b d =>
    simp only [LogState.step] at h
    split at h
    · rename_i wrote hj
      obtain ⟨u, hu, rfl⟩ := Option.map_eq_some_iff.1 h
      exact .write hj hu
    · cases h
  | endOp j =>
    simp only [LogState.step] at h
    split at h
    · rename_i wrote hj
      split at h
      · cases h
      split at h
      · obtain rfl := Option.some.inj h
        exact .endLast hj ‹_›
      · obtain rfl := Option.some.inj h
        exact .endOp hj ‹_›
    · cases h
  | disk j k =>
    simp only [LogState.step] at h
    split at h
    · exact .disk ‹_› h
    · cases h
  | bootDisk k => cases h
  | finish j =>
    simp only [LogState.step] at h
    split at h
    · obtain rfl := Option.some.inj h
      exact .finish ‹_›
    · cases h
  | bread b =>
    obtain rfl := Option.some.inj h
    exact .bread b
  | recycle b =>
    simp only [LogState.step] at h
    split at h
    · rename_i hb
      obtain rfl := Option.some.inj h
      exact .recycle hb.1 hb.2
    · cases h
  | crash => cases h
  | boot => cases h

theorem Refines.up (h : Refines sb s σ) (hr : s.phase = .running) : Up sb s σ := by
  cases h with
  | off phase => rw [hr] at phase; cases phase
  | recovering w phase => rw [hr] at phase; cases phase
  | idle up => exact up
  | commit j w up => exact up
  | ended j up => exact up

/-- The buffer cache reads a block. -/
theorem sameMem_load (b : ℕ) : SameMem s (s.load b) := by
  refine ⟨rfl, rfl, rfl, rfl, ?_, ?_⟩
  · funext x
    change ((Function.update s.cache b (some (s.bread b))) x).getD (s.disk x) = s.bread x
    by_cases hx : x = b
    · rw [hx, Function.update_self]
      rfl
    · rw [Function.update_of_ne hx]
      rfl
  · intro x _ d hd
    change Function.update s.cache b (some (s.bread b)) x.1 = some d
    by_cases hx : x.1 = b
    · rw [hx] at hd
      rw [hx, Function.update_self]
      unfold LogState.bread
      rw [hd]
      rfl
    · rw [Function.update_of_ne hx]
      exact hd

/-- It recycles a buffer. -/
theorem sameMem_recycle {b : ℕ} (hc : Clean sb s) (hp : s.pins b = 0) (hh : ∀ x ∈ s.half, x.1 ≠ b) :
    SameMem s { s with cache := Function.update s.cache b none } := by
  refine ⟨rfl, rfl, rfl, rfl, ?_, ?_⟩
  · funext x
    change ((Function.update s.cache b none) x).getD (s.disk x) = s.bread x
    by_cases hx : x = b
    · rw [hx, Function.update_self, hc.clean b hp hh]
      rfl
    · rw [Function.update_of_ne hx]
      rfl
  · intro x hx d hd
    change Function.update s.cache b none x.1 = some d
    rw [Function.update_of_ne (hh x hx)]
    exact hd

/-- A sector of a write of `commit`. -/
theorem follows_disk (h : Refines sb s σ) (hr : s.phase = .running) (hj : s.calls j = .commit w)
    (hb : s.bwrite sb w k (fun t => t.advance j w) = some t) :
    LogFollows sb s (.disk j k) σ t := by
  obtain ⟨up, hc, work⟩ := h.commit_of hr hj
  have hstep : Refines sb t (σ.behind w k) := by
    cases hh : s.half with
    | none =>
      obtain ⟨up', work'⟩ := work_first up work hh hb
      have hs := bwrite_first hh hb
      refine .commit j w up' (hc.first hs) ?_ work'
      rw [hs.eq]
      exact hj
    | some x => exact work_second up hc hj work hh hb
  have hin : ∀ i, σ.inOp i = false := by
    intro i
    rw [up.inOp i]
    by_cases hij : i = j
    · rw [hij, hj]
      rfl
    · exact (hc.calls i hij).isOp
  by_cases hcom : w = .head ∧ k = 0
  · unfold Journal.behind at hstep
    rw [if_pos hcom] at hstep
    exact LogFollows.commit rfl hin hstep
  · unfold Journal.behind at hstep
    rw [if_neg hcom] at hstep
    exact LogFollows.silent rfl hstep

/-- **Every step of the log is followed by the journal.** -/
theorem refines_step (h : Refines sb s σ) (hok : s.HomeWrites sb a) (hn : s.next sb a = some t) :
    LogFollows sb s a σ t := by
  have hcrash : a = .crash ∧ t = s.crash → LogFollows sb s a σ t := by
    rintro ⟨rfl, rfl⟩
    exact LogFollows.event rfl rfl rfl (refines_crash h)
  cases hp : s.phase with
  | off =>
    obtain ⟨rfl, hb⟩ := next_off hp hn
    exact LogFollows.silent rfl (refines_boot h hp hb)
  | recovering w =>
    rcases next_recovering hp hn with hc | ⟨k, rfl, hb⟩
    · exact hcrash hc
    · apply LogFollows.silent rfl
      cases h with
      | off phase => rw [hp] at phase; cases phase
      | idle up => cases up.phase.symm.trans hp
      | commit j w up => cases up.phase.symm.trans hp
      | ended j up => cases up.phase.symm.trans hp
      | recovering w' phase down clean work =>
        rw [hp] at phase
        obtain rfl := LogPhase.recovering.inj phase
        cases hh : s.half with
        | none => exact boot_first hp down clean work hh hb
        | some x => exact boot_second hp down clean work hh hb
  | running =>
    rcases next_running hp hn with hc | hs
    · exact hcrash hc
    cases step_inv hs with
    | begin hj => exact LogFollows.silent rfl (h.goto hp (by rw [hj]; trivial) trivial)
    | sleep hj hfull => exact LogFollows.silent (if_pos hfull) (h.goto hp (by rw [hj]; trivial) trivial)
    | @enter j hj hc hfit =>
      obtain ⟨up, idle⟩ := h.idle_of hp hc
      have hno : σ.inOp j = false := by rw [up.inOp j, hj]; rfl
      refine LogFollows.event (if_neg ?_) rfl (journal_begin hno) (up_begin up idle hj)
      rw [hc]
      rintro (hf | hf)
      · cases hf
      · exact hfit hf
    | kill hj => exact LogFollows.silent rfl (h.goto hp (by rw [hj]; trivial) trivial)
    | @write j b d wrote u hj hu =>
      obtain ⟨up, idle⟩ := h.idle_of_op hp hj
      have hin : σ.inOp j = true := by rw [up.inOp j, hj]; rfl
      exact LogFollows.event rfl rfl (journal_write hin b d) (up_write up idle hj hok.1 hok.2 hu _)
    | @endOp j wrote hj ho =>
      obtain ⟨up, idle⟩ := h.idle_of_op hp hj
      have hop : (s.calls j).isOp = true := by rw [hj]; rfl
      exact LogFollows.event rfl rfl (journal_endOp ((up.inOp j).trans hop)) (up_endOp up idle hop)
    | @endLast j wrote hj ho =>
      obtain ⟨up, idle⟩ := h.idle_of_op hp hj
      have hop : (s.calls j).isOp = true := by rw [hj]; rfl
      exact LogFollows.event rfl rfl (journal_endOp ((up.inOp j).trans hop))
        (up_endLast up idle hop ho)
    | disk hj hb => exact follows_disk h hp hj hb
    | finish hj =>
      obtain ⟨up, hc, ended⟩ := h.ended_of hp hj
      exact LogFollows.event rfl rfl (if_pos ended.settled) (up_finish up hc hj ended)
    | bread b =>
      exact LogFollows.silent rfl (h.same hp (sameMem_load b) rfl rfl rfl fun _ => .inl rfl)
    | recycle hpin hh =>
      have hm := sameMem_recycle (h.up hp).clean hpin hh
      exact LogFollows.silent rfl (h.same hp hm rfl rfl rfl fun _ => .inl rfl)

/-! ### Runs -/

theorem refines_init (h : s.init sb) (hlog : 0 < sb.nlog) :
    Refines sb s ⟨s.disk, s.disk, fun _ => false⟩ := by
  obtain ⟨⟨d, rfl⟩, hzero⟩ := h
  refine .off rfl ⟨fun _ => rfl, rfl, rfl, fun _ => rfl, fun _ _ => rfl, fun _ => rfl⟩
    (fun _ => rfl) rfl ⟨[], ListOk.nil hlog, ?_, Redo.Recovers.nil.2 fun _ _ => rfl⟩
  rw [hzero]
  exact headIs_zero

theorem events_snoc {ok : LogState → LogLabel → Prop} {tr : List LogLabel}
    (h : (logMachine sb).Path ok s tr t) : s.events sb (tr ++ [a]) = s.events sb tr ++
      (t.event a).toList := by
  have key : ∀ (tr : List LogLabel) (s : LogState), (logMachine sb).run s tr = some t →
      s.events sb (tr ++ [a]) = s.events sb tr ++ (t.event a).toList := by
    intro tr
    induction tr with
    | nil =>
      intro s hs
      obtain rfl := Option.some.inj hs
      cases hn : s.next sb a <;> simp [LogState.events, hn]
    | cons b tr ih =>
      intro s hs
      obtain ⟨u, hu, hr⟩ := Option.bind_eq_some_iff.1 hs
      have hu' : s.next sb b = some u := hu
      simp only [List.cons_append, LogState.events, hu', Option.map_some, Option.getD_some]
      rw [ih u hr, List.append_assoc]
  exact key tr s h.run

/-- **The log is a journal.** Whatever the interleaving of the operations and wherever the machine
crashes, the processes read what the journal holds; and a machine that is off can boot. -/
theorem log_refines_journal {s₀ : LogState} {tr : List LogLabel} (h₀ : s₀.init sb)
    (hlog : 0 < sb.nlog) (h : (logMachine sb).Path (HomeWrites sb) s₀ tr s) :
    ∃ es σ, (journalMachine sb.Home).Path always ⟨s₀.disk, s₀.disk, fun _ => false⟩ es σ ∧
      es.filter (fun e => !e.isCommit) = s₀.events sb tr ∧
      (s.phase = .running → ∀ b, sb.Home b → s.bread b = σ.current b) ∧
      (s.phase = .off → (s.boot sb).isSome = true) := by
  have key : ∃ es σ, (journalMachine sb.Home).Path always ⟨s₀.disk, s₀.disk, fun _ => false⟩ es σ ∧
      es.filter (fun e => !e.isCommit) = s₀.events sb tr ∧ Refines sb s σ := by
    induction h with
    | nil => exact ⟨[], _, Path.nil _, rfl, refines_init h₀ hlog⟩
    | snoc hp hok hn ih =>
      obtain ⟨es, σ, hes, hfil, hr⟩ := ih
      obtain ⟨es', σ', hes', hfil', hr'⟩ := refines_step hr hok hn
      refine ⟨es ++ es', σ', hes.trans hes', ?_, hr'⟩
      rw [List.filter_append, hfil, hfil', events_snoc hp]
  obtain ⟨es, σ, hes, hfil, hr⟩ := key
  refine ⟨es, σ, hes, hfil, fun hp => (hr.up hp).view, fun hp => ?_⟩
  cases hr with
  | recovering w phase => rw [hp] at phase; cases phase
  | idle up => cases up.phase.symm.trans hp
  | commit j w up => cases up.phase.symm.trans hp
  | ended j up => cases up.phase.symm.trans hp
  | off phase down cache half disk =>
    obtain ⟨l, hl⟩ := disk
    have hread : s.bread sb.logstart = s.disk sb.logstart := by
      unfold LogState.bread
      rw [cache]
      rfl
    have hroom : ¬ (logsize : ℤ) < headN (s.bread sb.logstart) := by
      rw [hread, hl.head.n]
      have := hl.ok.room
      omega
    simp only [boot, if_neg hroom, Option.isSome_some]

/-- A disk of zeros, with the machine off. -/
def LogState.blank : LogState where
  disk := fun _ => Block.zero
  cache := fun _ => none
  pins := fun _ => 0
  half := none
  outstanding := 0
  committing := false
  blocks := []
  phase := .off
  calls := fun _ => .user

theorem blank_init : LogState.blank.init sb := ⟨⟨LogState.blank, rfl⟩, rfl⟩

/-- An operation; the machine crashes behind the first sector of its header, boots and recovers. -/
def headerCrash : List LogLabel :=
  [.boot, .bootDisk 0, .bootDisk 1, .begin 0, .look 0, .write 0 200 fun _ => 7, .endOp 0,
    .disk 0 1, .disk 0 0, .disk 0 0, .crash, .boot, .bootDisk 0, .bootDisk 1, .bootDisk 0,
    .bootDisk 1]

/-- The journal holds what the operation wrote, and so does the machine. -/
theorem log_refines_journal_headerCrash :
    let t := ((logMachine .mkfs).runOk (HomeWrites .mkfs) .blank headerCrash).getD .blank
    ∃ es σ, (journalMachine Superblock.mkfs.Home).Path always
        ⟨LogState.blank.disk, LogState.blank.disk, fun _ => false⟩ es σ ∧
      es.filter (fun e => !e.isCommit) = LogState.blank.events .mkfs headerCrash ∧
      t.bread 200 = σ.current 200 ∧ σ.current 200 0 = 7 := by
  have hp : (logMachine .mkfs).Path (HomeWrites .mkfs) .blank headerCrash
      (((logMachine .mkfs).runOk (HomeWrites .mkfs) .blank headerCrash).getD .blank) :=
    pathOk_getD (by decide +kernel)
  obtain ⟨es, σ, hes, hfil, hview, -⟩ := log_refines_journal blank_init (by decide) hp
  have hread := hview (by decide +kernel) 200 (by decide)
  refine ⟨es, σ, hes, hfil, hread, ?_⟩
  rw [← hread]
  decide +kernel

end AgentOS
