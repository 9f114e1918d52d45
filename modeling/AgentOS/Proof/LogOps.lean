import AgentOS.Proof.LogRefine

/-!
# Operations and the log

`begin_op`, `log_write` and `end_op` keep the relation between the log and the journal.

* `up_begin`, `up_write`, `up_endOp`: with other operations in progress.
* `up_endLast`, `up_finish`: the last `end_op` starts `commit`, and returns.
-/

namespace AgentOS

open LogState

variable {sb : Superblock} {s t : LogState} {σ : Journal} {w : LogWrite} {i j : Slot}

/-! ### Which case it is -/

/-- Only the process that commits is busy. -/
theorem Committing.eq (h : Committing s i) (hj : ¬ (s.calls j).Quiet) : i = j := by
  by_contra hij
  exact hj (h.calls j fun he => hij he.symm)

theorem Refines.idle_of (h : Refines sb s σ) (hr : s.phase = .running)
    (hc : s.committing = false) : Up sb s σ ∧ LogIdle sb s σ := by
  have hno : ∀ {i}, ¬ Committing s i := by
    intro i h
    have hct := h.committing
    rw [hc] at hct
    cases hct
  cases h with
  | off phase => rw [hr] at phase; cases phase
  | recovering w phase => rw [hr] at phase; cases phase
  | idle up idle => exact ⟨up, idle⟩
  | commit j w up committing => exact (hno committing).elim
  | ended j up committing => exact (hno committing).elim

theorem Refines.idle_of_op (h : Refines sb s σ) (hr : s.phase = .running) {wrote : List ℕ}
    (hj : s.calls j = .op wrote) : Up sb s σ ∧ LogIdle sb s σ := by
  have hq : ¬ (s.calls j).Quiet := by rw [hj]; exact id
  cases h with
  | off phase => rw [hr] at phase; cases phase
  | recovering w phase => rw [hr] at phase; cases phase
  | idle up idle => exact ⟨up, idle⟩
  | commit i w up committing call =>
    rw [committing.eq hq, hj] at call
    cases call
  | ended i up committing call =>
    rw [committing.eq hq, hj] at call
    cases call

/-- A process outside of its operations and not quiet commits. -/
theorem LogIdle.quiet (h : LogIdle sb s σ) (hop : (s.calls j).isOp = false) : (s.calls j).Quiet := by
  rcases h.calls j with hq | ho
  · exact hq
  · rw [hop] at ho
    cases ho

theorem Refines.commit_of (h : Refines sb s σ) (hr : s.phase = .running)
    (hj : s.calls j = .commit w) : Up sb s σ ∧ Committing s j ∧ Work sb s σ w := by
  have hq : ¬ (s.calls j).Quiet := by rw [hj]; exact id
  cases h with
  | off phase => rw [hr] at phase; cases phase
  | recovering w phase => rw [hr] at phase; cases phase
  | idle up idle => exact (hq (idle.quiet (by rw [hj]; rfl))).elim
  | commit i w' up committing call work =>
    obtain rfl := committing.eq hq
    rw [hj] at call
    obtain rfl := LogCall.commit.inj call
    exact ⟨up, committing, work⟩
  | ended i up committing call =>
    rw [committing.eq hq, hj] at call
    cases call

theorem Refines.ended_of (h : Refines sb s σ) (hr : s.phase = .running)
    (hj : s.calls j = .committed) : Up sb s σ ∧ Committing s j ∧ Ended sb s σ := by
  have hq : ¬ (s.calls j).Quiet := by rw [hj]; exact id
  cases h with
  | off phase => rw [hr] at phase; cases phase
  | recovering w phase => rw [hr] at phase; cases phase
  | idle up idle => exact (hq (idle.quiet (by rw [hj]; rfl))).elim
  | commit i w' up committing call =>
    rw [committing.eq hq, hj] at call
    cases call
  | ended i up committing call ended =>
    obtain rfl := committing.eq hq
    exact ⟨up, committing, ended⟩

/-! ### Operations -/

theorem goto_calls (c : LogCall) : (s.goto j c).calls j = c := Function.update_self ..

theorem goto_calls_ne (c : LogCall) (h : i ≠ j) : (s.goto j c).calls i = s.calls i :=
  Function.update_of_ne h _ _

/-- A process moves between calls outside of operations. -/
theorem moves_goto {c : LogCall} (hj : (s.calls j).Quiet) (hc : c.Quiet) (i : Slot) :
    Moves (s.calls i) ((s.goto j c).calls i) := by
  by_cases hij : i = j
  · rw [hij, goto_calls]
    exact .inr ⟨hj, hc⟩
  · exact .inl (goto_calls_ne c hij)

theorem sameMem_goto (c : LogCall) : SameMem s (s.goto j c) := SameMem.of_eq rfl rfl rfl rfl rfl

theorem Refines.goto {c : LogCall} (h : Refines sb s σ) (hr : s.phase = .running)
    (hj : (s.calls j).Quiet) (hc : c.Quiet) : Refines sb (s.goto j c) σ :=
  h.same hr (sameMem_goto c) rfl rfl rfl (moves_goto hj hc)

/-- One process enters an operation. -/
theorem opKey_take {f g : Slot → LogCall} (hj : (f j).isOp = true)
    (hf : ∀ i, i ≠ j → (f i).isOp = (g i).isOp) :
    opKey f = Function.update (opKey g) j (some ()) := by
  funext i
  by_cases hij : i = j
  · rw [hij, Function.update_self]
    exact if_pos hj
  · rw [Function.update_of_ne hij]
    unfold opKey
    rw [hf i hij]

/-- One process leaves its operation. -/
theorem opKey_drop {f g : Slot → LogCall} (hj : (f j).isOp = false)
    (hf : ∀ i, i ≠ j → (f i).isOp = (g i).isOp) :
    opKey f = Function.update (opKey g) j none := by
  funext i
  by_cases hij : i = j
  · rw [hij, Function.update_self]
    unfold opKey
    rw [hj]
    rfl
  · rw [Function.update_of_ne hij]
    unfold opKey
    rw [hf i hij]

/-- **`begin_op`** that finds room. -/
theorem up_begin (up : Up sb s σ) (idle : LogIdle sb s σ) (hj : s.calls j = .begin) :
    Refines sb ({ s with outstanding := s.outstanding + 1 }.goto j (.op []))
      { σ with inOp := Function.update σ.inOp j true } := by
  have hm : SameMem s ({ s with outstanding := s.outstanding + 1 }.goto j (.op [])) :=
    SameMem.of_eq rfl rfl rfl rfl rfl
  have hkey : opKey ({ s with outstanding := s.outstanding + 1 }.goto j (.op [])).calls =
      Function.update (opKey s.calls) j (some ()) := by
    apply opKey_take
    · rw [goto_calls]
      rfl
    · intro i hij
      rw [goto_calls_ne _ hij]
  have hfree : opKey s.calls j = none := by
    unfold opKey
    rw [hj]
    rfl
  refine .idle ⟨up.phase, up.clean.same hm, up.view, up.ok, ?_, ?_⟩
    ⟨idle.committing, ?_, idle.half, idle.disk, idle.rest, idle.pins⟩
  · intro i
    dsimp only
    by_cases hij : i = j
    · rw [hij, Function.update_self, goto_calls]
      rfl
    · rw [Function.update_of_ne hij, goto_calls_ne _ hij]
      exact up.inOp i
  · rw [hkey, RefCount.holders_take hfree, if_pos rfl, ← up.count]
    rfl
  · intro i
    by_cases hij : i = j
    · rw [hij, goto_calls]
      exact .inr rfl
    · rw [goto_calls_ne _ hij]
      exact idle.calls i

/-- The state behind a change of block `b` and its `log_write`. -/
structure LogWrote (sb : Superblock) (s t : LogState) (b : ℕ) (d : Block) : Prop where
  disk : t.disk = s.disk
  half : t.half = s.half
  phase : t.phase = s.phase
  outstanding : t.outstanding = s.outstanding
  committing : t.committing = s.committing
  calls : t.calls = s.calls
  cache : t.cache = Function.update s.cache b (some d)
  blocks : t.blocks = if b ∈ s.blocks then s.blocks else s.blocks ++ [b]
  pins : ∀ x, t.pins x = if b ∈ s.blocks then s.pins x else
    if x = b then s.pins b + 1 else s.pins x
  room : s.blocks.length < logsize
  fits : s.blocks.length + 1 < sb.nlog
  inTrans : 0 < s.outstanding

theorem logWrite_spec {b : ℕ} {d : Block} (h : s.logWrite sb b d = some t) :
    LogWrote sb s t b d := by
  unfold logWrite at h
  split at h
  · cases h
  rename_i hfull
  split at h
  · cases h
  have hroom : s.blocks.length < logsize ∧ s.blocks.length + 1 < sb.nlog ∧
    0 < s.outstanding := by omega
  split at h
  · rename_i hb
    obtain rfl := Option.some.inj h
    refine ⟨rfl, rfl, rfl, rfl, rfl, rfl, rfl, ?_, fun x => ?_, hroom.1, hroom.2.1, hroom.2.2⟩
    · rw [if_pos hb]
      rfl
    · rw [if_pos hb]
      rfl
  · rename_i hb
    obtain rfl := Option.some.inj h
    refine ⟨rfl, rfl, rfl, rfl, rfl, rfl, rfl, ?_, fun x => ?_, hroom.1, hroom.2.1, hroom.2.2⟩
    · rw [if_neg hb]
    · rw [if_neg hb]
      exact Function.update_apply ..

theorem LogWrote.mem {b : ℕ} {d : Block} (h : LogWrote sb s t b d) {x : ℕ} :
    x ∈ t.blocks ↔ x = b ∨ x ∈ s.blocks := by
  rw [h.blocks]
  by_cases hb : b ∈ s.blocks
  · rw [if_pos hb]
    constructor
    · exact .inr
    · rintro (rfl | hx)
      · exact hb
      · exact hx
  · rw [if_neg hb, List.mem_append, List.mem_singleton, or_comm]

theorem LogWrote.listOk {b : ℕ} {d : Block} (h : LogWrote sb s t b d) (ok : ListOk sb s.blocks)
    (hb : sb.Home b) (hlt : b < 2 ^ 32) : ListOk sb t.blocks := by
  refine ⟨?_, ?_, ?_, ?_, ?_⟩
  · intro x hx
    rcases h.mem.1 hx with rfl | hx
    · exact hb
    · exact ok.home x hx
  · intro x hx
    rcases h.mem.1 hx with rfl | hx
    · exact hlt
    · exact ok.lt x hx
  · rw [h.blocks]
    split
    · exact ok.nodup
    · rename_i hnew
      simpa using ok.nodup.concat hnew
  · have := h.room
    rw [h.blocks]
    split
    · exact ok.room
    · rw [List.length_append, List.length_singleton]
      omega
  · have := h.fits
    rw [h.blocks]
    split
    · exact ok.fits
    · rw [List.length_append, List.length_singleton]
      omega

theorem LogWrote.bread_self {b : ℕ} {d : Block} (h : LogWrote sb s t b d) : t.bread b = d := by
  unfold LogState.bread
  rw [h.cache, Function.update_self]
  rfl

theorem LogWrote.bread_ne {b x : ℕ} {d : Block} (h : LogWrote sb s t b d) (hx : x ≠ b) :
    t.bread x = s.bread x := by
  unfold LogState.bread
  rw [h.cache, Function.update_of_ne hx, h.disk]

/-- **`log_write`.** -/
theorem up_write (up : Up sb s σ) (idle : LogIdle sb s σ) {wrote : List ℕ} {b : ℕ} {d : Block}
    (hj : s.calls j = .op wrote) (hb : sb.Home b) (hlt : b < 2 ^ 32)
    (h : s.logWrite sb b d = some t) (wrote' : List ℕ) :
    Refines sb (t.goto j (.op wrote')) { σ with current := Function.update σ.current b d } := by
  have hw := logWrite_spec h
  have hcalls : ∀ i, ((t.goto j (.op wrote')).calls i).isOp = (s.calls i).isOp := by
    intro i
    by_cases hij : i = j
    · rw [hij, goto_calls, hj]
      rfl
    · rw [goto_calls_ne _ hij, hw.calls]
  have hpins : Pinned t t.blocks := by
    intro x
    have hx := idle.pins x
    rw [hw.pins x]
    by_cases hmem : b ∈ s.blocks
    · rw [if_pos hmem, hx]
      have hiff : x ∈ t.blocks ↔ x ∈ s.blocks := by
        rw [hw.mem]
        constructor
        · rintro (rfl | h)
          · exact hmem
          · exact h
        · exact .inr
      simp only [hiff]
    · rw [if_neg hmem]
      by_cases hxb : x = b
      · have hb0 := idle.pins b
        rw [if_neg hmem] at hb0
        rw [if_pos hxb, hb0, if_pos (hw.mem.2 (.inl hxb))]
      · rw [if_neg hxb, hx]
        simp only [hw.mem, hxb, false_or]
  have hclean : Clean sb t := by
    refine ⟨fun x hx hne => ?_, fun x hx => ?_⟩
    · have hxb : x ≠ b := by
        rintro rfl
        rw [hpins x, if_pos (hw.mem.2 (.inl rfl))] at hx
        cases hx
      rw [hw.bread_ne hxb, hw.disk]
      apply up.clean.clean
      · rw [idle.pins x]
        rw [hpins x] at hx
        by_cases hxs : x ∈ s.blocks
        · rw [if_pos (hw.mem.2 (.inr hxs))] at hx
          cases hx
        · exact if_neg hxs
      · rw [← hw.half]
        exact hne
    · rw [hpins x]
      refine if_neg fun hmem => hx ?_
      exact (hw.listOk up.ok hb hlt).home x hmem
  refine .idle ⟨?_, hclean.same (sameMem_goto _), ?_, hw.listOk up.ok hb hlt, ?_, ?_⟩
    ⟨?_, ?_, hw.half.trans idle.half, ?_, ?_, hpins⟩
  · exact hw.phase.trans up.phase
  · intro x hx
    dsimp only
    by_cases hxb : x = b
    · rw [hxb, Function.update_self]
      exact hw.bread_self
    · rw [Function.update_of_ne hxb, ← up.view x hx]
      exact hw.bread_ne hxb
  · intro i
    rw [hcalls i]
    exact up.inOp i
  · rw [opKey_congr hcalls]
    exact hw.outstanding.trans up.count
  · exact hw.committing.trans idle.committing
  · intro i
    by_cases hij : i = j
    · rw [hij, goto_calls]
      exact .inr rfl
    · rw [goto_calls_ne _ hij, hw.calls]
      exact idle.calls i
  · change OnDisk sb t.disk _ _
    rw [hw.disk]
    exact idle.disk
  · intro x hx hmem
    have hnot := fun h => hmem (hw.mem.2 h)
    dsimp only
    rw [Function.update_of_ne fun he => hnot (.inl he)]
    exact idle.rest x hx fun h => hnot (.inr h)

theorem wakeup_moves (i : Slot) : Moves (s.calls i) (s.wakeup.calls i) := by
  change Moves (s.calls i) (if s.calls i = .asleep then .begin else s.calls i)
  by_cases h : s.calls i = .asleep
  · rw [if_pos h, h]
    exact .inr ⟨trivial, trivial⟩
  · rw [if_neg h]
    exact .inl rfl

/-- The calls of the others are outside of operations if there is one operation. -/
theorem LogIdle.others (h : LogIdle sb s σ) (up : Up sb s σ) (hj : (s.calls j).isOp = true)
    (ho : s.outstanding - 1 = 0) (i : Slot) (hi : i ≠ j) : (s.calls i).Quiet := by
  have hkey : opKey s.calls j = some () := if_pos hj
  have hpos := RefCount.holders_pos hkey
  have hone : RefCount.holders (opKey s.calls) () = 1 := by
    have := up.count
    omega
  apply h.quiet
  by_contra hop
  rw [Bool.not_eq_false] at hop
  exact hi (RefCount.holders_eq_one hkey hone (if_pos hop))

/-- **`end_op`** with other operations in progress. -/
theorem up_endOp (up : Up sb s σ) (idle : LogIdle sb s σ) (hj : (s.calls j).isOp = true) :
    Refines sb ({ s with outstanding := s.outstanding - 1 }.wakeup.goto j .user)
      { σ with inOp := Function.update σ.inOp j false } := by
  have hm : SameMem s ({ s with outstanding := s.outstanding - 1 }.wakeup.goto j .user) :=
    SameMem.of_eq rfl rfl rfl rfl rfl
  have hcalls : ∀ i, i ≠ j →
      Moves (s.calls i) (({ s with outstanding := s.outstanding - 1 }.wakeup.goto j .user).calls i) := by
    intro i hij
    rw [goto_calls_ne _ hij]
    exact wakeup_moves i
  have hkey : opKey ({ s with outstanding := s.outstanding - 1 }.wakeup.goto j .user).calls =
      Function.update (opKey s.calls) j none := by
    apply opKey_drop
    · rw [goto_calls]
      rfl
    · intro i hij
      exact (hcalls i hij).isOp
  refine .idle ⟨up.phase, up.clean.same hm, up.view, up.ok, ?_, ?_⟩
    ⟨idle.committing, ?_, idle.half, idle.disk, idle.rest, idle.pins⟩
  · intro i
    dsimp only
    by_cases hij : i = j
    · rw [hij, Function.update_self, goto_calls]
      rfl
    · rw [Function.update_of_ne hij, (hcalls i hij).isOp]
      exact up.inOp i
  · have hkeyj : opKey s.calls j = some () := if_pos hj
    have hdrop : RefCount.holders (Function.update (opKey s.calls) j none) () + _ = _ :=
      RefCount.holders_drop hkeyj
    rw [if_pos rfl, ← up.count] at hdrop
    rw [hkey]
    change s.outstanding - 1 = _
    omega
  · intro i
    by_cases hij : i = j
    · rw [hij, goto_calls]
      exact .inl trivial
    · rcases idle.calls i with h | h
      · exact .inl ((hcalls i hij).quiet h)
      · right
        rw [(hcalls i hij).isOp]
        exact h

/-- **The last `end_op`**: `commit` begins. -/
theorem up_endLast (up : Up sb s σ) (idle : LogIdle sb s σ) (hj : (s.calls j).isOp = true)
    (ho : s.outstanding - 1 = 0) :
    Refines sb ({ s with outstanding := 0, committing := true }.goto j
        (if 0 < s.blocks.length then .commit (.log 0) else .committed))
      { σ with inOp := Function.update σ.inOp j false } := by
  set c : LogCall := if 0 < s.blocks.length then .commit (.log 0) else .committed with hc
  have hcop : c.isOp = false := by rw [hc]; split <;> rfl
  have hm : SameMem s ({ s with outstanding := 0, committing := true }.goto j c) :=
    SameMem.of_eq rfl rfl rfl rfl rfl
  have hothers := idle.others up hj ho
  have hcalls : ∀ i, i ≠ j →
      ({ s with outstanding := 0, committing := true }.goto j c).calls i = s.calls i :=
    fun i hij => goto_calls_ne _ hij
  have hnone : ∀ i, (({ s with outstanding := 0, committing := true }.goto j c).calls i).isOp =
      false := by
    intro i
    by_cases hij : i = j
    · rw [hij, goto_calls]
      exact hcop
    · rw [hcalls i hij]
      exact (hothers i hij).isOp
  have hup : Up sb ({ s with outstanding := 0, committing := true }.goto j c)
      { σ with inOp := Function.update σ.inOp j false } := by
    refine ⟨up.phase, up.clean.same hm, up.view, up.ok, ?_, ?_⟩
    · intro i
      rw [hnone i]
      dsimp only
      by_cases hij : i = j
      · rw [hij, Function.update_self]
      · rw [Function.update_of_ne hij, up.inOp i, (hothers i hij).isOp]
    · symm
      apply RefCount.holders_eq_zero.2
      intro i
      unfold opKey
      rw [hnone i]
      intro h
      cases h
  have hcomm : Committing ({ s with outstanding := 0, committing := true }.goto j c) j := by
    refine ⟨rfl, fun i hij => ?_⟩
    rw [hcalls i hij]
    exact hothers i hij
  by_cases hsome : 0 < s.blocks.length
  · rw [if_pos hsome] at hc
    refine .commit j (.log 0) hup hcomm ((goto_calls c).trans hc) ?_
    refine Work.same (.log ⟨hsome, idle.disk, ?_, HalfOk.none idle.half⟩ idle.rest idle.pins) hm
    intro i hi
    cases hi
  · rw [if_neg hsome] at hc
    have hnil : s.blocks = [] := List.length_eq_zero_iff.1 (by omega)
    refine .ended j hup hcomm ((goto_calls c).trans hc) ⟨idle.half, hnil, idle.disk, ?_, ?_⟩
    · intro b hb
      refine idle.rest b hb ?_
      rw [hnil]
      exact List.not_mem_nil
    · have hpins := idle.pins
      rw [hnil] at hpins
      exact hpins

/-- **`commit` has returned**, and `begin_op` may go on. -/
theorem up_finish (up : Up sb s σ) (committing : Committing s j) (hj : s.calls j = .committed)
    (ended : Ended sb s σ) :
    Refines sb ({ s with committing := false }.wakeup.goto j .user) σ := by
  have hm : SameMem s ({ s with committing := false }.wakeup.goto j .user) :=
    SameMem.of_eq rfl rfl rfl rfl rfl
  have hquiet : ∀ i, (({ s with committing := false }.wakeup.goto j .user).calls i).Quiet := by
    intro i
    by_cases hij : i = j
    · rw [hij, goto_calls]
      trivial
    · rw [goto_calls_ne _ hij]
      exact (wakeup_moves i).quiet (committing.calls i hij)
  refine .idle (up.same hm rfl rfl ?_) ⟨rfl, fun i => .inl (hquiet i), ended.half, ended.disk, ?_, ?_⟩
  · intro i
    rw [(hquiet i).isOp]
    by_cases hij : i = j
    · rw [hij, hj]
      rfl
    · exact (committing.calls i hij).isOp.symm
  · intro b hb _
    exact ended.settled b hb
  · have hb : ({ s with committing := false }.wakeup.goto j .user).blocks = [] := ended.blocks
    rw [hb]
    exact ended.pins.same hm

end AgentOS
