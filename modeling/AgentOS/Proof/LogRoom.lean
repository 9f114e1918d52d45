import AgentOS.Lib.Sums
import AgentOS.Proof.LogCrash

/-!
# Room in the log

`begin_op` reserves `MAXOPBLOCKS` blocks for an operation.

* `room_reach`: what is logged and what the operations in progress may still log fit in `LOGSIZE`.
* **`log_write_panics_iff`**: with every operation within its reserve, `log_write` of a new block
  can panic if and only if the log of the disk holds fewer than `LOGSIZE` blocks beside its header;
  so on the disk of `mkfs` it can.
-/

namespace AgentOS

open LogState Machine

variable {sb : Superblock} {s t : LogState} {σ : Journal} {w : LogWrite} {i j : Slot}
  {a : LogLabel}

/-- What an operation may still log. -/
def LogCall.reserve : LogCall → ℕ
  | .op wrote => maxopblocks - wrote.length
  | _ => 0

/-- What `begin_op` has reserved for it. -/
def LogCall.share : LogCall → ℕ
  | .op _ => maxopblocks
  | _ => 0

theorem LogCall.reserve_le (c : LogCall) : c.reserve ≤ c.share := by
  cases c with
  | op wrote => exact Nat.sub_le _ _
  | _ => exact le_rfl

theorem LogCall.reserve_of_not_op {c : LogCall} (h : c.isOp = false) : c.reserve = 0 := by
  cases c with
  | op wrote => cases h
  | _ => rfl

theorem LogCall.share_of_not_op {c : LogCall} (h : c.isOp = false) : c.share = 0 := by
  cases c with
  | op wrote => cases h
  | _ => rfl

/-- **The reserve.** -/
structure LogRoom (s : LogState) : Prop where
  room : s.blocks.length + ∑ j, (s.calls j).reserve ≤ logsize
  share : ∑ j, (s.calls j).share = s.outstanding * maxopblocks
  wrote : ∀ j wrote, s.calls j = .op wrote → ∀ b ∈ wrote, b ∈ s.blocks

/-- No process is in an operation. -/
theorem LogRoom.of_quiet (hc : ∀ j, (s.calls j).isOp = false) (ho : s.outstanding = 0)
    (hb : s.blocks.length ≤ logsize) : LogRoom s := by
  have hres : ∑ j, (s.calls j).reserve = 0 :=
    Finset.sum_eq_zero fun j _ => LogCall.reserve_of_not_op (hc j)
  have hsh : ∑ j, (s.calls j).share = 0 :=
    Finset.sum_eq_zero fun j _ => LogCall.share_of_not_op (hc j)
  refine ⟨?_, ?_, ?_⟩
  · omega
  · rw [hsh, ho, Nat.zero_mul]
  · intro j wrote hj
    have := hc j
    rw [hj] at this
    cases this

/-- A step outside of operations. -/
theorem LogRoom.same (h : LogRoom s) (hb : t.blocks = s.blocks) (ho : t.outstanding = s.outstanding)
    (hc : ∀ i, Moves (s.calls i) (t.calls i)) : LogRoom t := by
  have hop : ∀ i, (t.calls i).reserve = (s.calls i).reserve ∧
      (t.calls i).share = (s.calls i).share := by
    intro i
    rcases hc i with he | ⟨hq, hq'⟩
    · rw [he]
      exact ⟨rfl, rfl⟩
    · rw [LogCall.reserve_of_not_op hq.isOp, LogCall.reserve_of_not_op hq'.isOp,
        LogCall.share_of_not_op hq.isOp, LogCall.share_of_not_op hq'.isOp]
      exact ⟨rfl, rfl⟩
  refine ⟨?_, ?_, ?_⟩
  · rw [hb, Finset.sum_congr rfl fun i _ => (hop i).1]
    exact h.room
  · rw [ho, Finset.sum_congr rfl fun i _ => (hop i).2]
    exact h.share
  · intro i wrote hi
    rw [hb]
    rcases hc i with he | ⟨_, hq'⟩
    · rw [he] at hi
      exact h.wrote i wrote hi
    · rw [hi] at hq'
      exact hq'.elim

/-- Without operations nothing is reserved. -/
theorem LogRoom.of_up (up : Up sb s σ) (hno : ∀ j, (s.calls j).isOp = false) : LogRoom s := by
  refine LogRoom.of_quiet hno ?_ up.ok.room
  rw [up.count, RefCount.holders_eq_zero]
  intro i hi
  unfold opKey at hi
  rw [hno i] at hi
  cases hi

theorem Committing.not_op (h : Committing s j) (hj : (s.calls j).isOp = false) (i : Slot) :
    (s.calls i).isOp = false := by
  by_cases hij : i = j
  · rw [hij]
    exact hj
  · exact (h.calls i hij).isOp

theorem enter_calls : (s.enter w).calls = s.calls := by cases w <;> rfl

theorem enter_phase : (s.enter w).phase = s.phase := by cases w <;> rfl

/-- Behind a sector the process is still in `commit`, or at its end. -/
theorem advance_calls : (∃ w', (s.advance j w).calls j = .commit w') ∨
    (s.advance j w).calls j = .committed := by
  cases w with
  | log tail => exact .inl ⟨_, goto_calls _⟩
  | head => exact .inl ⟨_, goto_calls _⟩
  | install tail => exact .inl ⟨_, goto_calls _⟩
  | clear => exact .inr (goto_calls _)

theorem advance_phase : (s.advance j w).phase = s.phase := by
  cases w with
  | log tail => rfl
  | head => exact enter_phase
  | install tail => exact enter_phase
  | clear => rfl

theorem bwrite_calls (hj : s.calls j = .commit w) {k : Sector}
    (h : s.bwrite sb w k (fun t => t.advance j w) = some t) :
    t.phase = s.phase ∧ ((∃ w', t.calls j = .commit w') ∨ t.calls j = .committed) := by
  cases hh : s.half with
  | none =>
    have hs := bwrite_first hh h
    rw [hs.eq]
    exact ⟨rfl, .inl ⟨w, hj⟩⟩
  | some x =>
    simp only [bwrite, hh] at h
    split at h
    · cases h
    · obtain rfl := Option.some.inj h
      exact ⟨advance_phase, advance_calls⟩

/-- While a process commits there are no operations. -/
theorem Refines.not_op (h : Refines sb s σ) (hr : s.phase = .running)
    (hj : (∃ w, s.calls j = .commit w) ∨ s.calls j = .committed) (i : Slot) :
    (s.calls i).isOp = false := by
  rcases hj with ⟨w, hj⟩ | hj
  · obtain ⟨-, hc, -⟩ := h.commit_of hr hj
    exact hc.not_op (by rw [hj]; rfl) i
  · obtain ⟨-, hc, -⟩ := h.ended_of hr hj
    exact hc.not_op (by rw [hj]; rfl) i

/-! ### One step -/

/-- An operation begins. -/
theorem LogRoom.begin (h : LogRoom s) (hj : s.calls j = .begin)
    (hfit : ¬ logsize < s.blocks.length + (s.outstanding + 1) * maxopblocks) :
    LogRoom ({ s with outstanding := s.outstanding + 1 }.goto j (.op [])) := by
  have hres := sum_comp_update LogCall.reserve s.calls j (.op [])
  have hsh := sum_comp_update LogCall.share s.calls j (.op [])
  have hle : ∑ i, (s.calls i).reserve ≤ ∑ i, (s.calls i).share :=
    Finset.sum_le_sum fun i _ => LogCall.reserve_le _
  have hshare : ∑ i, (s.calls i).share = s.outstanding * 10 := h.share
  have hfit' : ¬ logsize < s.blocks.length + (s.outstanding + 1) * 10 := hfit
  rw [hj] at hres hsh
  have hr0 : (LogCall.op []).reserve = 10 := rfl
  have hs0 : (LogCall.op []).share = 10 := rfl
  have hb0 : LogCall.begin.reserve = 0 := rfl
  have hb1 : LogCall.begin.share = 0 := rfl
  refine ⟨?_, ?_, ?_⟩
  · change s.blocks.length + ∑ i, (Function.update s.calls j (.op []) i).reserve ≤ logsize
    omega
  · change ∑ i, (Function.update s.calls j (.op []) i).share = (s.outstanding + 1) * 10
    omega
  · intro i wrote hi b hb
    by_cases hij : i = j
    · rw [hij, goto_calls] at hi
      obtain rfl := LogCall.op.inj hi
      cases hb
    · rw [goto_calls_ne _ hij] at hi
      exact h.wrote i wrote hi b hb

/-- An operation logs a block, within its reserve. -/
theorem LogRoom.write (h : LogRoom s) {wrote : List ℕ} {b : ℕ} {d : Block} (hj : s.calls j = .op wrote)
    (hmax : (wrote.insert b).length ≤ maxopblocks) (hw : s.logWrite sb b d = some t) :
    LogRoom (t.goto j (.op (wrote.insert b))) := by
  have hspec := logWrite_spec hw
  have hres := sum_comp_update LogCall.reserve s.calls j (.op (wrote.insert b))
  have hsh := sum_comp_update LogCall.share s.calls j (.op (wrote.insert b))
  rw [hj] at hres hsh
  have hroom := h.room
  have hnew : (LogCall.op (wrote.insert b)).reserve = maxopblocks - (wrote.insert b).length := rfl
  have hold : (LogCall.op wrote).reserve = maxopblocks - wrote.length := rfl
  refine ⟨?_, ?_, ?_⟩
  · change t.blocks.length + ∑ i, (Function.update t.calls j _ i).reserve ≤ logsize
    rw [hspec.calls, hspec.blocks]
    -- a block that the operation has passed before is logged already
    by_cases hmem : b ∈ wrote
    · have hins : wrote.insert b = wrote := List.insert_of_mem hmem
      rw [hins] at hres ⊢
      rw [if_pos (h.wrote j wrote hj b hmem)]
      omega
    · have hlen : (wrote.insert b).length = wrote.length + 1 := by
        rw [List.insert_of_not_mem hmem]
        rfl
      split
      · omega
      · rw [List.length_append, List.length_singleton]
        omega
  · change ∑ i, (Function.update t.calls j _ i).share = t.outstanding * maxopblocks
    rw [hspec.calls, hspec.outstanding, ← h.share]
    have heq : (LogCall.op (wrote.insert b)).share = (LogCall.op wrote).share := rfl
    omega
  · intro i wrote' hi x hx
    change x ∈ t.blocks
    by_cases hij : i = j
    · rw [hij, goto_calls] at hi
      obtain rfl := LogCall.op.inj hi
      rcases List.mem_insert_iff.1 hx with rfl | hx
      · exact hspec.mem.2 (.inl rfl)
      · exact hspec.mem.2 (.inr (h.wrote j wrote hj x hx))
    · rw [goto_calls_ne _ hij, hspec.calls] at hi
      exact hspec.mem.2 (.inr (h.wrote i wrote' hi x hx))

/-- An operation ends, with others in progress. -/
theorem LogRoom.endOp (h : LogRoom s) {wrote : List ℕ} (hj : s.calls j = .op wrote) :
    LogRoom ({ s with outstanding := s.outstanding - 1 }.wakeup.goto j .user) := by
  have hmid : LogRoom s.wakeup := h.same rfl rfl wakeup_moves
  have hjw : s.wakeup.calls j = .op wrote := by
    change (if s.calls j = .asleep then LogCall.begin else s.calls j) = _
    rw [hj]
    rfl
  have hres := sum_comp_update LogCall.reserve s.wakeup.calls j .user
  have hsh := sum_comp_update LogCall.share s.wakeup.calls j .user
  rw [hjw] at hres hsh
  have hroom := hmid.room
  have hshare : ∑ i, (s.wakeup.calls i).share = s.wakeup.outstanding * 10 := hmid.share
  have hu0 : LogCall.user.reserve = 0 := rfl
  have hu1 : LogCall.user.share = 0 := rfl
  have ho : (LogCall.op wrote).share = 10 := rfl
  refine ⟨?_, ?_, ?_⟩
  · change s.wakeup.blocks.length + ∑ i, (Function.update s.wakeup.calls j .user i).reserve ≤ logsize
    omega
  · change ∑ i, (Function.update s.wakeup.calls j .user i).share =
      (s.wakeup.outstanding - 1) * 10
    omega
  · intro i wrote' hi
    by_cases hij : i = j
    · rw [hij, goto_calls] at hi
      cases hi
    · rw [goto_calls_ne _ hij] at hi
      exact hmid.wrote i wrote' hi

theorem bwriteBoot_calls {k : Sector} (h : s.bwrite sb w k (fun t => t.advanceBoot w) = some t) :
    t.calls = s.calls := by
  cases hh : s.half with
  | none =>
    have hs := bwrite_first hh h
    rw [hs.eq]
  | some x =>
    simp only [bwrite, hh] at h
    split at h
    · cases h
    · obtain rfl := Option.some.inj h
      cases w with
      | install tail => exact enter_calls
      | _ => rfl

/-- **A step keeps the reserve.** -/
theorem room_step (hr : Refines sb s σ) {σ' : Journal} (hr' : Refines sb t σ')
    (h : s.phase = .running → LogRoom s) (hok : s.Reserved sb a) (hn : s.next sb a = some t)
    (ht : t.phase = .running) : LogRoom t := by
  have hcrash : t = s.crash → LogRoom t := by
    rintro rfl
    cases ht
  cases hp : s.phase with
  | off =>
    obtain ⟨-, hb⟩ := next_off hp hn
    simp only [boot] at hb
    split at hb
    · cases hb
    · obtain rfl := Option.some.inj hb
      cases ht
  | recovering w =>
    rcases next_recovering hp hn with ⟨-, hc⟩ | ⟨k, -, hb⟩
    · exact hcrash hc
    · apply LogRoom.of_up (hr'.up ht)
      intro i
      rw [bwriteBoot_calls hb]
      cases hr with
      | off phase => rw [hp] at phase; cases phase
      | recovering w phase down => rw [down.calls i]; rfl
      | idle up => cases up.phase.symm.trans hp
      | commit j w up => cases up.phase.symm.trans hp
      | ended j up => cases up.phase.symm.trans hp
  | running =>
    have hroom := h hp
    rcases next_running hp hn with ⟨-, hc⟩ | hs
    · exact hcrash hc
    cases step_inv hs with
    | begin hj => exact hroom.same rfl rfl (moves_goto (by rw [hj]; trivial) trivial)
    | sleep hj => exact hroom.same rfl rfl (moves_goto (by rw [hj]; trivial) trivial)
    | enter hj hc hfit => exact hroom.begin hj hfit
    | kill hj => exact hroom.same rfl rfl (moves_goto (by rw [hj]; trivial) trivial)
    | @write j b d wrote u hj hu =>
      have hmax := hok.2
      dsimp only at hmax
      rw [hj] at hmax
      exact hroom.write hj hmax hu
    | endOp hj ho => exact hroom.endOp hj
    | @endLast j wrote hj ho =>
      apply LogRoom.of_up (hr'.up ht)
      refine hr'.not_op ht (j := j) ?_
      rw [goto_calls]
      by_cases hsome : 0 < s.blocks.length
      · exact .inl ⟨_, if_pos hsome⟩
      · exact .inr (if_neg hsome)
    | disk hj hb => exact LogRoom.of_up (hr'.up ht) (hr'.not_op ht (bwrite_calls hj hb).2)
    | @finish j hj =>
      apply LogRoom.of_up (hr'.up ht)
      intro i
      obtain ⟨-, hc, -⟩ := hr.ended_of hp hj
      by_cases hij : i = j
      · rw [hij, goto_calls]
        rfl
      · rw [goto_calls_ne _ hij]
        exact ((wakeup_moves i).quiet (hc.calls i hij)).isOp
    | bread b => exact hroom.same rfl rfl fun _ => .inl rfl
    | recycle => exact hroom.same rfl rfl fun _ => .inl rfl

theorem room_reach (hlog : 0 < sb.nlog) {tr : List LogLabel}
    (h : (logMachine sb).Reach (Reserved sb) tr s) :
    (∃ σ, Refines sb s σ) ∧ (s.phase = .running → LogRoom s) := by
  refine h.inv (P := fun s => (∃ σ, Refines sb s σ) ∧ (s.phase = .running → LogRoom s)) ?_ ?_
  · intro s hs
    refine ⟨⟨_, refines_init hs hlog⟩, fun hp => ?_⟩
    obtain ⟨⟨d, rfl⟩, -⟩ := hs
    cases hp
  · intro s a t hs ha hn
    obtain ⟨⟨σ, hr⟩, hroom⟩ := hs
    obtain ⟨-, σ', -, -, hr'⟩ := refines_step hr ha.1 hn
    exact ⟨⟨σ', hr'⟩, fun hp => room_step hr hr' hroom ha hn hp⟩

/-! ### Full logs -/

/-- A process may log block `b`, new to the log, within its reserve, and the kernel panics. -/
def LogState.Panics (sb : Superblock) (s : LogState) : Prop :=
  ∃ j wrote b d, s.phase = .running ∧ s.calls j = .op wrote ∧ b ∉ s.blocks ∧
    s.Reserved sb (.write j b d) ∧ s.next sb (.write j b d) = none

theorem LogRoom.logWrite (h : LogRoom s) {wrote : List ℕ} {b : ℕ} {d : Block} (hj : s.calls j = .op wrote)
    (hb : b ∉ s.blocks) (hmax : (wrote.insert b).length ≤ maxopblocks) (hlog : logsize < sb.nlog) :
    (s.logWrite sb b d).isSome = true := by
  have hnew : b ∉ wrote := fun hm => hb (h.wrote j wrote hj b hm)
  have hlen : (wrote.insert b).length = wrote.length + 1 := by
    rw [List.insert_of_not_mem hnew]
    rfl
  have hres : (s.calls j).reserve ≤ ∑ i, (s.calls i).reserve :=
    le_sum (fun i => (s.calls i).reserve) j
  have hsh : (s.calls j).share ≤ ∑ i, (s.calls i).share :=
    le_sum (fun i => (s.calls i).share) j
  have hroom := h.room
  have hshare : ∑ i, (s.calls i).share = s.outstanding * 10 := h.share
  have hmax' : (wrote.insert b).length ≤ 10 := hmax
  rw [hj] at hres hsh
  have hr0 : (LogCall.op wrote).reserve = 10 - wrote.length := rfl
  have hs0 : (LogCall.op wrote).share = 10 := rfl
  unfold LogState.logWrite
  rw [if_neg (by omega), if_neg (by omega), if_neg hb]
  rfl

/-- Three operations have logged `n` blocks behind the log. -/
structure Filled (sb : Superblock) (n : ℕ) (s : LogState) : Prop where
  phase : s.phase = .running
  blocks : s.blocks = (List.range n).map fun i => sb.logstart + sb.nlog + i
  outstanding : s.outstanding = 3
  calls : ∀ j : Slot, j.val < 3 → ∃ wrote, s.calls j = .op wrote ∧
    wrote.length = min 10 (n - 10 * j.val) ∧ ∀ b ∈ wrote, b ∈ s.blocks

/-- An operation begins. -/
theorem begin_look (hp : s.phase = .running) (hj : s.calls j = .user) (hc : s.committing = false)
    (hfit : s.blocks.length + (s.outstanding + 1) * 10 ≤ 30) :
    (logMachine sb).Path (Reserved sb) s [.begin j, .look j]
      ({ s with outstanding := s.outstanding + 1 }.goto j (.op [])) := by
  have h1 : s.next sb (.begin j) = some (s.goto j .begin) := by
    unfold LogState.next
    rw [hp]
    exact if_pos hj
  have h2 : (s.goto j .begin).next sb (.look j) =
      some ({ s with outstanding := s.outstanding + 1 }.goto j (.op [])) := by
    unfold LogState.next
    rw [show (s.goto j .begin).phase = .running from hp]
    have hfull : ¬ logsize < (s.goto j .begin).blocks.length +
        ((s.goto j .begin).outstanding + 1) * maxopblocks := by
      change ¬ 30 < s.blocks.length + (s.outstanding + 1) * 10
      omega
    have hcomm : ¬ (s.goto j .begin).committing = true := by
      rw [show (s.goto j .begin).committing = false from hc]
      exact Bool.false_ne_true
    simp only [LogState.step, goto_calls, if_true, if_neg hcomm, if_neg hfull]
    unfold goto
    simp only [Function.update_idem]
  exact Path.cons ⟨trivial, trivial⟩ h1 (Path.single ⟨trivial, trivial⟩ h2)

/-- The machine comes up on a disk of zeros. -/
theorem blank_up : ∃ tr s, (logMachine sb).Reach (Reserved sb) tr s ∧ s.phase = .running ∧
    s.blocks = [] ∧ s.outstanding = 0 ∧ s.committing = false ∧ ∀ j, s.calls j = .user := by
  have hboot : LogState.blank.boot sb =
      some ({ LogState.blank.load sb.logstart with blocks := [] }.recover 0) := by
    have hread : LogState.blank.bread sb.logstart = Block.zero := rfl
    have hn : headN Block.zero = 0 := headIs_zero.n
    have hlog : ¬ (logsize : ℤ) < 0 := by omega
    simp only [boot, hread, hn, headIs_zero.blocks, if_neg hlog]
  have h1 : LogState.blank.next sb .boot = _ := hboot
  set s₁ := ({ LogState.blank.load sb.logstart with blocks := [] } : LogState).recover 0 with hs₁
  have h2 : s₁.next sb (.bootDisk 0) = some { (s₁.fill sb .clear).putSector sb.logstart 0 with
      half := some (sb.logstart, 0) } := rfl
  set s₂ : LogState := { (s₁.fill sb .clear).putSector sb.logstart 0 with
    half := some (sb.logstart, 0) } with hs₂
  have h3 : s₂.next sb (.bootDisk 1) =
      some { s₂.putSector sb.logstart 1 with half := none, phase := .running } := rfl
  have hok : Reserved sb LogState.blank .boot ∧ Reserved sb s₁ (.bootDisk 0) ∧
      Reserved sb s₂ (.bootDisk 1) := ⟨⟨trivial, trivial⟩, ⟨trivial, trivial⟩, ⟨trivial, trivial⟩⟩
  have hpath : (logMachine sb).Path (Reserved sb) .blank [.boot, .bootDisk 0, .bootDisk 1]
      { s₂.putSector sb.logstart 1 with half := none, phase := .running } :=
    Path.cons hok.1 h1 (Path.cons hok.2.1 h2 (Path.single hok.2.2 h3))
  exact ⟨_, _, ⟨.blank, blank_init, hpath⟩, rfl, rfl, rfl, rfl, fun _ => rfl⟩

theorem filled_zero : ∃ tr s, (logMachine sb).Reach (Reserved sb) tr s ∧ Filled sb 0 s := by
  obtain ⟨tr, s, h, hp, hb, ho, hc, hcalls⟩ := @blank_up sb
  have h0 : (logMachine sb).Path (Reserved sb) s _ _ :=
    begin_look (j := 0) hp (hcalls 0) hc (by rw [hb, ho]; decide)
  set s₁ := ({ s with outstanding := s.outstanding + 1 } : LogState).goto 0 (.op [])
  have ho₁ : s₁.outstanding = 1 := congrArg (· + 1) ho
  have hself₁ : s₁.calls 0 = .op [] := by simp only [s₁, goto_calls]
  have hcalls₁ : ∀ i, i ≠ 0 → s₁.calls i = s.calls i := fun i hi => Function.update_of_ne hi _ _
  have hj₁ : s₁.calls 1 = .user := (hcalls₁ 1 (by decide)).trans (hcalls 1)
  have h1 : (logMachine sb).Path (Reserved sb) s₁ _ _ := begin_look (j := 1) hp hj₁ hc (by
    rw [ho₁, show s₁.blocks = [] from hb]; decide)
  set s₂ := ({ s₁ with outstanding := s₁.outstanding + 1 } : LogState).goto 1 (.op [])
  have ho₂ : s₂.outstanding = 2 := congrArg (· + 1) ho₁
  have hself₂ : s₂.calls 1 = .op [] := by simp only [s₂, goto_calls]
  have hcalls₂ : ∀ i, i ≠ 1 → s₂.calls i = s₁.calls i := fun i hi => Function.update_of_ne hi _ _
  have hj₂ : s₂.calls 2 = .user :=
    (hcalls₂ 2 (by decide)).trans ((hcalls₁ 2 (by decide)).trans (hcalls 2))
  have h2 : (logMachine sb).Path (Reserved sb) s₂ _ _ := begin_look (j := 2) hp hj₂ hc (by
    rw [ho₂, show s₂.blocks = [] from hb]; decide)
  refine ⟨_, _, ((h.trans h0).trans h1).trans h2, hp, hb, congrArg (· + 1) ho₂, ?_⟩
  intro j hj
  refine ⟨[], ?_, by simp, ?_⟩
  · rcases (by omega : j.val = 0 ∨ j.val = 1 ∨ j.val = 2) with h | h | h
    · obtain rfl : j = 0 := Fin.ext h
      rw [goto_calls_ne _ (by decide)]
      exact (hcalls₂ 0 (by decide)).trans hself₁
    · obtain rfl : j = 1 := Fin.ext h
      rw [goto_calls_ne _ (by decide)]
      exact hself₂
    · obtain rfl : j = 2 := Fin.ext h
      exact goto_calls _
  · intro b hb
    cases hb

/-- The operation whose turn it is, and the next block. -/
theorem Filled.next {n : ℕ} (h : Filled sb n s) (hn : n < 30)
    (hdisk : sb.logstart + sb.nlog + logsize ≤ 2 ^ 32) :
    ∃ j wrote, s.calls j = .op wrote ∧ wrote.length = n % 10 ∧ j.val = n / 10 ∧
      (∀ b ∈ wrote, b ∈ s.blocks) ∧ sb.logstart + sb.nlog + n ∉ s.blocks ∧
      sb.logstart + sb.nlog + n ∉ wrote ∧
      s.Reserved sb (.write j (sb.logstart + sb.nlog + n) Block.zero) := by
  have hlog : logsize = 30 := rfl
  have hj64 : n / 10 < nproc := by
    have : nproc = 64 := rfl
    omega
  obtain ⟨wrote, hj, hlen, hsub⟩ := h.calls ⟨n / 10, hj64⟩ (by dsimp only; omega)
  have hlen' : wrote.length = n % 10 := by
    dsimp only at hlen
    omega
  have hnew : sb.logstart + sb.nlog + n ∉ s.blocks := by
    rw [h.blocks, List.mem_map]
    rintro ⟨i, hi, he⟩
    have := List.mem_range.1 hi
    omega
  have hnw : sb.logstart + sb.nlog + n ∉ wrote := fun hm => hnew (hsub _ hm)
  refine ⟨_, wrote, hj, hlen', rfl, hsub, hnew, hnw, ⟨.inr (by omega), by omega⟩, ?_⟩
  dsimp only
  rw [hj]
  dsimp only
  rw [List.insert_of_not_mem hnw, List.length_cons, hlen']
  have : maxopblocks = 10 := rfl
  omega

/-- One block more. -/
theorem filled_succ {n : ℕ} (hn : n < 30) (hfit : n + 1 < sb.nlog)
    (hdisk : sb.logstart + sb.nlog + logsize ≤ 2 ^ 32)
    (h : ∃ tr s, (logMachine sb).Reach (Reserved sb) tr s ∧ Filled sb n s) :
    ∃ tr s, (logMachine sb).Reach (Reserved sb) tr s ∧ Filled sb (n + 1) s := by
  obtain ⟨tr, s, hr, hf⟩ := h
  obtain ⟨j, wrote, hj, hlen, hjn, hsub, hnew, hnw, hres⟩ := hf.next hn hdisk
  have hlog : logsize = 30 := rfl
  set b := sb.logstart + sb.nlog + n with hb
  have hblen : s.blocks.length = n := by rw [hf.blocks]; simp
  have hwrite : (s.logWrite sb b Block.zero).isSome = true := by
    have ho := hf.outstanding
    unfold LogState.logWrite
    rw [if_neg (by omega), if_neg (by omega), if_neg hnew]
    rfl
  obtain ⟨u, hu⟩ := Option.isSome_iff_exists.1 hwrite
  have hspec := logWrite_spec hu
  have hstep : s.next sb (.write j b Block.zero) = some (u.goto j (.op (wrote.insert b))) := by
    unfold LogState.next
    rw [hf.phase]
    change s.step sb (.write j b Block.zero) = _
    simp only [LogState.step, hj, hu, Option.map_some]
  have hblocks : u.blocks = s.blocks ++ [b] := by rw [hspec.blocks, if_neg hnew]
  refine ⟨_, _, hr.snoc hres hstep, ?_, ?_, ?_, ?_⟩
  · exact hspec.phase.trans hf.phase
  · change u.blocks = _
    rw [hblocks, hf.blocks, List.range_succ, List.map_append]
    rfl
  · exact hspec.outstanding.trans hf.outstanding
  · intro i hi
    change ∃ wrote', (u.goto j _).calls i = .op wrote' ∧ _ ∧ ∀ x ∈ wrote', x ∈ u.blocks
    by_cases hij : i = j
    · refine ⟨wrote.insert b, ?_, ?_, ?_⟩
      · rw [hij, goto_calls]
      · rw [List.insert_of_not_mem hnw, List.length_cons, hlen, hij, hjn]
        omega
      · intro x hx
        rcases List.mem_insert_iff.1 hx with rfl | hx
        · exact hspec.mem.2 (.inl rfl)
        · exact hspec.mem.2 (.inr (hsub x hx))
    · obtain ⟨wrote', hi', hlen', hsub'⟩ := hf.calls i hi
      refine ⟨wrote', ?_, ?_, fun x hx => hspec.mem.2 (.inr (hsub' x hx))⟩
      · rw [goto_calls_ne _ hij, hspec.calls]
        exact hi'
      · have hne : i.val ≠ n / 10 := fun he => hij (Fin.ext (he.trans hjn.symm))
        rw [hlen']
        omega

theorem filled (hdisk : sb.logstart + sb.nlog + logsize ≤ 2 ^ 32) (n : ℕ) (hn : n ≤ 30)
    (hfit : n < sb.nlog) :
    ∃ tr s, (logMachine sb).Reach (Reserved sb) tr s ∧ Filled sb n s := by
  induction n with
  | zero => exact filled_zero
  | succ n ih => exact filled_succ (by omega) hfit hdisk (ih (by omega) (by omega))

/-- **When the log is too small.** With every operation within `MAXOPBLOCKS`, `log_write` of a new
block can panic if and only if the log has no more than `LOGSIZE` blocks, its header included. -/
theorem log_write_panics_iff (hlog : 0 < sb.nlog)
    (hdisk : sb.logstart + sb.nlog + logsize ≤ 2 ^ 32) :
    (∃ tr s, (logMachine sb).Reach (Reserved sb) tr s ∧ s.Panics sb) ↔ sb.nlog ≤ logsize := by
  constructor
  · rintro ⟨tr, s, hr, j, wrote, b, d, hp, hj, hb, hres, hn⟩
    by_contra hbig
    have hroom := (room_reach hlog hr).2 hp
    have hmax := hres.2
    dsimp only at hmax
    rw [hj] at hmax
    have hsome : (s.logWrite sb b d).isSome = true := hroom.logWrite hj hb hmax (by omega)
    obtain ⟨u, hu⟩ := Option.isSome_iff_exists.1 hsome
    unfold LogState.next at hn
    rw [hp] at hn
    change s.step sb (.write j b d) = none at hn
    simp only [LogState.step, hj, hu, Option.map_some] at hn
    cases hn
  · intro hsmall
    have hlogsize : logsize = 30 := rfl
    obtain ⟨tr, s, hr, hf⟩ := filled hdisk (sb.nlog - 1) (by omega) (by omega)
    obtain ⟨j, wrote, hj, -, -, -, hnew, -, hres⟩ := hf.next (by omega) hdisk
    refine ⟨tr, s, hr, j, wrote, _, _, hf.phase, hj, hnew, hres, ?_⟩
    have hblen : s.blocks.length = sb.nlog - 1 := by rw [hf.blocks]; simp
    unfold LogState.next
    rw [hf.phase]
    change s.step sb (.write j _ Block.zero) = none
    simp only [LogState.step, hj]
    unfold LogState.logWrite
    rw [if_pos (.inr hblen.ge)]
    rfl

/-- `mkfs` makes such a log. -/
theorem log_write_panics_mkfs :
    ∃ tr s, (logMachine .mkfs).Reach (Reserved .mkfs) tr s ∧ s.Panics .mkfs :=
  (log_write_panics_iff (by decide) (by decide)).2 (by decide)

end AgentOS
