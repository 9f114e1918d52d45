import AgentOS.Proof.LogOps

/-!
# `commit` and recovery keep the relation

* `work_first`, `work_second`: a sector of a write of `commit`; the journal commits with the first
  sector of the header.
* `boot_first`, `boot_second`: a sector of a write of recovery.
* `refines_crash`, `refines_boot`: the machine goes down, and reads the header.
-/

namespace AgentOS

open LogState

variable {sb : Superblock} {s t u : LogState} {σ : Journal} {w : LogWrite} {i j : Slot}
  {b tail : ℕ} {k : Sector} {data : Block} {after : LogState → LogState}

/-- The journal behind a sector of `w`. -/
def Journal.behind (σ : Journal) (w : LogWrite) (k : Sector) : Journal :=
  if w = .head ∧ k = 0 then { σ with stable := σ.current } else σ

theorem Journal.behind_current : (σ.behind w k).current = σ.current := by
  unfold Journal.behind
  split <;> rfl

theorem Journal.behind_inOp : (σ.behind w k).inOp = σ.inOp := by
  unfold Journal.behind
  split <;> rfl

theorem Journal.behind_ne (h : w ≠ .head) : σ.behind w k = σ :=
  if_neg fun hh => h hh.1

/-- What is up depends on what the processes see only. -/
theorem Up.congr {σ' : Journal} (h : Up sb s σ) (hc : σ'.current = σ.current)
    (hi : σ'.inOp = σ.inOp) : Up sb s σ' := by
  refine ⟨h.phase, h.clean, ?_, h.ok, ?_, h.count⟩
  · rw [hc]
    exact h.view
  · rw [hi]
    exact h.inOp

/-! ### One sector -/

theorem Up.first (up : Up sb s σ) (hh : s.half = none) (hs : FirstSector s t b data k)
    (hv : sb.Home b → data = σ.current b) : Up sb t σ := by
  have hcalls : t.calls = s.calls := by rw [hs.eq]
  refine ⟨?_, up.clean.first hh hs, ?_, ?_, ?_, ?_⟩
  · rw [hs.eq]
    exact up.phase
  · intro x hx
    by_cases hxb : x = b
    · rw [hxb] at hx ⊢
      rw [hs.bread]
      exact hv hx
    · rw [hs.other x hxb]
      exact up.view x hx
  · rw [hs.blocks]
    exact up.ok
  · rw [hcalls]
    exact up.inOp
  · rw [hcalls]
    have ho : t.outstanding = s.outstanding := by rw [hs.eq]
    exact ho.trans up.count

theorem Up.second (up : Up sb s σ) (ho : HalfOk s b data) (hs : SecondSector s t b data) :
    Up sb t σ := by
  have hcalls : t.calls = s.calls := by rw [hs.eq]
  refine ⟨?_, up.clean.second ho hs, ?_, ?_, ?_, ?_⟩
  · rw [hs.eq]
    exact up.phase
  · rw [hs.bread]
    exact up.view
  · rw [hs.blocks]
    exact up.ok
  · rw [hcalls]
    exact up.inOp
  · rw [hcalls]
    have hout : t.outstanding = s.outstanding := by rw [hs.eq]
    exact hout.trans up.count

theorem Committing.first (h : Committing s j) (hs : FirstSector s t b data k) : Committing t j := by
  rw [hs.eq]
  exact ⟨h.committing, h.calls⟩

/-- The data that `install_trans` writes is the copy in the log. -/
theorem Install.copy {τ : ℕ → Block} (h : Install sb s τ tail) (hc : Clean sb s)
    (hh : s.half = none) : s.bread (sb.logBlock tail) = s.disk (sb.logBlock tail) := by
  apply hc.clean _ (hc.free _ (h.disk.ok.logBlock h.here))
  intro x hx
  rw [hh] at hx
  cases hx

/-- **The first sector of a write of `commit`.** -/
theorem work_first (up : Up sb s σ) (work : Work sb s σ w) (hh : s.half = none)
    (h : s.bwrite sb w k after = some t) :
    Up sb t (σ.behind w k) ∧ Work sb t (σ.behind w k) w := by
  have hs := bwrite_first hh h
  cases work with
  | @log tail here rest pins =>
    have hnot : ¬ sb.Home (sb.logBlock tail) := up.ok.logBlock here.here
    rw [Journal.behind_ne (by simp)]
    refine ⟨up.first hh hs fun hx => (hnot hx).elim, .log (here.first up.ok hs) ?_ ?_⟩
    · unfold Unlogged
      rw [hs.blocks]
      exact rest
    · unfold Pinned
      rw [hs.blocks, hs.pins]
      exact pins
  | head τ here hsome rest before behind pins =>
    have hnot : ¬ sb.Home sb.logstart := up.ok.start
    have hd : HeadIs (headBlock (s.bread sb.logstart) s.blocks) s.blocks :=
      headIs_headBlock up.ok.room up.ok.lt
    have hτ : σ.stable = τ := before fun x hx => by rw [hh] at hx; cases hx
    have hhalf : ∀ x ∈ t.half, x.2 = k := by
      intro x hx
      rw [hs.eq] at hx
      rw [← Option.some.inj hx]
    refine ⟨(up.first hh hs fun hx => (hnot hx).elim).congr Journal.behind_current
      Journal.behind_inOp, ?_⟩
    refine .head τ ?_ ?_ ?_ ?_ ?_ ?_
    · rw [Journal.behind_current]
      exact here.first hh rest hs hd
    · rw [hs.blocks]
      exact hsome
    · rw [Journal.behind_current, hs.blocks]
      exact rest
    · intro hone
      have hk : k = 1 := hone (sb.logstart, k) (by rw [hs.eq]; rfl)
      unfold Journal.behind
      rw [if_neg (by rw [hk]; decide)]
      exact hτ
    · intro x hx hzero
      unfold Journal.behind
      rw [if_pos ⟨rfl, (hhalf x hx).symm.trans hzero⟩]
    · unfold Pinned
      rw [hs.blocks, hs.pins]
      exact pins
  | @install tail here settled pins =>
    have hdata := here.copy up.clean hh
    rw [Journal.behind_ne (by simp)]
    have hs' : FirstSector s t (s.blocks.getD tail 0) (s.disk (sb.logBlock tail)) k := by
      rw [← hdata]
      exact hs
    refine ⟨up.first hh hs' fun hx => ?_, .install (here.first hs') settled ?_⟩
    · rw [here.disk.logged here.here, settled _ hx]
    · unfold Pinned
      rw [hs.blocks, hs.pins]
      exact pins
  | clear here settled pins =>
    have hnot : ¬ sb.Home sb.logstart := up.ok.start
    have hd : HeadIs (headBlock (s.bread sb.logstart) s.blocks) [] := by
      rw [here.empty]
      exact headIs_headBlock (Nat.zero_le _) (by simp)
    rw [Journal.behind_ne (by simp)]
    refine ⟨up.first hh hs fun hx => (hnot hx).elim, .clear (here.first hs hd) settled ?_⟩
    unfold Pinned
    rw [hs.pins]
    exact pins

/-! ### The next write -/

theorem Up.goto_call (up : Up sb s σ) {c : LogCall} (hj : (s.calls j).isOp = c.isOp) :
    Up sb (s.goto j c) σ := by
  refine up.same (sameMem_goto c) rfl rfl fun i => ?_
  by_cases hij : i = j
  · rw [hij, goto_calls, hj]
  · rw [goto_calls_ne _ hij]

theorem Committing.goto (h : Committing s j) {c : LogCall} : Committing (s.goto j c) j := by
  refine ⟨h.committing, fun i hij => ?_⟩
  rw [goto_calls_ne _ hij]
  exact h.calls i hij

/-- The committer goes on with the write `w`. -/
theorem Refines.commit_goto (up : Up sb s σ) (h : Committing s j) {w' : LogWrite}
    (hj : s.calls j = .commit w') (work : Work sb s σ w) :
    Refines sb (s.goto j (.commit w)) σ := by
  refine .commit j w (up.goto_call (by rw [hj]; rfl)) h.goto (goto_calls _) ?_
  exact work.same (sameMem_goto _)

theorem installNext_lt (h : tail < s.blocks.length) : s.installNext tail = .install tail := if_pos h

theorem installNext_ge (h : s.blocks.length ≤ tail) : s.installNext tail = .clear :=
  if_neg (Nat.not_lt.2 h)

/-- The state in which `install_trans` has written everything. -/
theorem clear_enter {τ : ℕ → Block} (hd : OnDisk sb s.disk τ s.blocks) (hh : s.half = none)
    (hdone : ∀ i < s.blocks.length, s.disk (s.blocks.getD i 0) = s.disk (sb.logBlock i)) :
    Clear sb (s.enter .clear) τ := by
  refine ⟨rfl, HeadHalf.none hh (Nat.zero_le _) ?_, s.blocks, hd, hdone⟩
  intro x hx
  cases hx

/-- `bunpin` of a block whose buffer is on the disk. -/
theorem Clean.bunpin (h : Clean sb s) (hh : s.half = none) (hb : s.bread b = s.disk b) :
    Clean sb (s.bunpin b) := by
  refine ⟨fun x hx _ => ?_, fun x hx => ?_⟩
  · by_cases hxb : x = b
    · rw [hxb]
      exact hb
    · have hx' : s.pins x = 0 := by
        have hp : (s.bunpin b).pins x = s.pins x := Function.update_of_ne hxb _ _
        rw [← hp]
        exact hx
      refine h.clean x hx' fun y hy => ?_
      rw [hh] at hy
      cases hy
  · by_cases hxb : x = b
    · have hp : (s.bunpin b).pins x = s.pins b - 1 := by
        rw [hxb]
        exact Function.update_self ..
      rw [hp, ← hxb, h.free x hx]
    · have hp : (s.bunpin b).pins x = s.pins x := Function.update_of_ne hxb _ _
      rw [hp]
      exact h.free x hx

/-- One block less is pinned. -/
theorem Pinned.bunpin (h : Pinned s (s.blocks.drop tail)) (hn : s.blocks.Nodup)
    (ht : tail < s.blocks.length) :
    Pinned (s.bunpin (s.blocks.getD tail 0)) (s.blocks.drop (tail + 1)) := by
  have hdrop : s.blocks.drop tail = s.blocks.getD tail 0 :: s.blocks.drop (tail + 1) := by
    rw [List.getD_eq_getElem _ _ ht]
    exact List.drop_eq_getElem_cons ht
  have hnd : (s.blocks.drop tail).Nodup := hn.sublist (List.drop_sublist _ _)
  rw [hdrop] at h hnd
  intro x
  by_cases hx : x = s.blocks.getD tail 0
  · have hp : (s.bunpin (s.blocks.getD tail 0)).pins x = s.pins (s.blocks.getD tail 0) - 1 := by
      rw [hx]
      exact Function.update_self ..
    rw [hp, h, if_pos List.mem_cons_self, hx, if_neg (List.nodup_cons.1 hnd).1]
  · have hp : (s.bunpin (s.blocks.getD tail 0)).pins x = s.pins x := Function.update_of_ne hx _ _
    rw [hp, h x]
    simp only [List.mem_cons, hx, false_or]

/-- **The second sector of a write of `commit`**, and what follows it. -/
theorem work_second (up : Up sb s σ) (hc : Committing s j) (hj : s.calls j = .commit w)
    (work : Work sb s σ w) {x : ℕ × Sector} (hh : s.half = some x)
    (h : s.bwrite sb w k (fun t => t.advance j w) = some t) : Refines sb t (σ.behind w k) := by
  have hsecond : ∀ {b data u}, SecondSector s u b data → HalfOk s b data →
      Up sb u σ ∧ Committing u j ∧ u.calls j = .commit w := by
    intro b data u hs ho
    refine ⟨up.second ho hs, ?_, ?_⟩
    · rw [hs.eq]
      exact ⟨hc.committing, hc.calls⟩
    · rw [hs.eq]
      exact hj
  cases work with
  | @log tail here rest pins =>
    obtain ⟨-, u, hs, rfl⟩ := bwrite_second hh here.half h
    obtain ⟨hup, hcomm, hcall⟩ := hsecond hs here.half
    obtain ⟨hdisk, hlogged⟩ := here.second up.ok hs
    have hrest : Unlogged sb u σ := by
      unfold Unlogged
      rw [hs.blocks]
      exact rest
    have hpins : Pinned u u.blocks := by
      unfold Pinned
      rw [hs.blocks, hs.pins]
      exact pins
    rw [Journal.behind_ne (by simp)]
    by_cases hmore : tail + 1 < u.blocks.length
    · simp only [advance, if_pos hmore]
      exact Refines.commit_goto hup hcomm hcall
        (.log ⟨hmore, hdisk, hlogged, HalfOk.none hs.half⟩ hrest hpins)
    · simp only [advance, if_neg hmore]
      have hlen : u.blocks.length = tail + 1 := by
        have := here.here
        rw [hs.blocks] at hmore ⊢
        omega
      refine Refines.commit_goto hup hcomm hcall (.head σ.stable ⟨hup.ok, ?_, ?_, fun _ => hdisk, ?_⟩
        (by omega) hrest (fun _ => rfl) ?_ hpins)
      · intro i hi
        rw [hlogged i (by omega)]
        exact hup.view _ (hup.ok.home _ (getD_mem hi))
      · exact HeadHalf.none hs.half hup.ok.room hup.ok.lt
      · intro y hy
        rw [hs.half] at hy
        cases hy
      · intro y hy
        rw [hs.half] at hy
        cases hy
  | head τ here hsome rest before behind pins =>
    obtain ⟨data, hd, ho⟩ := here.head.half
    obtain ⟨hk, u, hs, rfl⟩ := bwrite_second hh ho h
    obtain ⟨hup, hcomm, hcall⟩ := hsecond hs ho
    have hdisk := here.second hh rest hs hd
    -- either the first step or this one has put the header on the disk
    have hstable : (σ.behind .head k).stable = σ.current := by
      unfold Journal.behind
      rcases sector_eq k with rfl | rfl
      · rw [if_pos ⟨rfl, rfl⟩]
      · rw [if_neg (by decide)]
        apply behind x hh
        exact (sector_eq x.2).resolve_right hk
    have hsettled : (σ.behind .head k).Settled sb := by
      intro y _
      rw [hstable, Journal.behind_current]
    have hup' : Up sb u (σ.behind .head k) :=
      hup.congr Journal.behind_current Journal.behind_inOp
    have hpos : 0 < u.blocks.length := by
      rw [hs.blocks]
      exact hsome
    simp only [advance, installNext_lt hpos, enter]
    refine Refines.commit_goto hup' hcomm hcall (.install ⟨hpos, ?_, ?_, HalfOk.none hs.half⟩
      hsettled ?_)
    · rw [hstable]
      exact hdisk
    · intro i hi
      cases hi
    · unfold Pinned
      rw [hs.blocks, hs.pins, List.drop_zero]
      exact pins
  | @install tail here settled pins =>
    obtain ⟨-, u, hs, rfl⟩ := bwrite_second hh here.half h
    obtain ⟨hup, hcomm, hcall⟩ := hsecond hs here.half
    obtain ⟨hdisk, hdone⟩ := here.second hs
    rw [Journal.behind_ne (by simp)]
    have hht : tail < u.blocks.length := by
      rw [hs.blocks]
      exact here.here
    have hpins : Pinned (u.bunpin (u.blocks.getD tail 0)) (u.blocks.drop (tail + 1)) := by
      refine Pinned.bunpin ?_ hup.ok.nodup hht
      unfold Pinned
      rw [hs.blocks, hs.pins]
      exact pins
    have hbuf : u.bread (u.blocks.getD tail 0) = u.disk (u.blocks.getD tail 0) := by
      rw [hs.blocks, hs.disk, Function.update_self]
      unfold LogState.bread
      rw [hs.buf]
      rfl
    have hup' : Up sb (u.bunpin (u.blocks.getD tail 0)) σ :=
      ⟨hup.phase, hup.clean.bunpin hs.half hbuf, hup.view, hup.ok, hup.inOp, hup.count⟩
    have hcomm' : Committing (u.bunpin (u.blocks.getD tail 0)) j := ⟨hcomm.committing, hcomm.calls⟩
    by_cases hmore : tail + 1 < u.blocks.length
    · simp only [advance]
      rw [installNext_lt hmore]
      refine Refines.commit_goto hup' hcomm' hcall (.install ⟨hmore, hdisk, ?_, ?_⟩ settled hpins)
      · exact hdone
      · exact HalfOk.none hs.half
    · have hle : u.blocks.length ≤ tail + 1 := by omega
      simp only [advance]
      rw [installNext_ge hle]
      have hclear := clear_enter (s := u.bunpin (u.blocks.getD tail 0)) hdisk hs.half
        fun i hi => hdone i (lt_of_lt_of_le hi hle)
      rw [List.drop_eq_nil_of_le hle] at hpins
      refine Refines.commit_goto ?_ ⟨hcomm.committing, hcomm.calls⟩ hcall
        (.clear hclear settled hpins)
      exact ⟨hup'.phase, ⟨hup'.clean.clean, hup'.clean.free⟩, hup'.view,
        ListOk.nil (by have := hup.ok.fits; omega), hup'.inOp, hup'.count⟩
  | clear here settled pins =>
    obtain ⟨data, hd, ho⟩ := here.head.half
    obtain ⟨-, u, hs, rfl⟩ := bwrite_second hh ho h
    obtain ⟨hup, hcomm, hcall⟩ := hsecond hs ho
    have hdisk := here.second hs hd
    rw [Journal.behind_ne (by simp)]
    refine .ended j (hup.goto_call (by rw [hcall]; rfl)) hcomm.goto (goto_calls _)
      ⟨hs.half, ?_, hdisk, settled, ?_⟩
    · exact hs.blocks.trans here.empty
    · unfold Pinned
      have hp : (u.advance j .clear).pins = s.pins := hs.pins
      rw [hp]
      exact pins

/-! ### Recovery -/

/-- The memory is lost; what the disk recovers to stays. -/
theorem refines_crash (h : Refines sb s σ) :
    Refines sb s.crash { σ with current := σ.stable, inOp := fun _ => false } := by
  have hoff : ∀ l, OnDisk sb s.disk σ.stable l →
      Refines sb s.crash { σ with current := σ.stable, inOp := fun _ => false } := by
    intro l hl
    exact .off rfl ⟨fun _ => rfl, rfl, rfl, fun _ => rfl, fun _ _ => rfl, fun _ => rfl⟩
      (fun _ => rfl) rfl ⟨l, hl⟩
  cases h with
  | off phase down cache half disk =>
    obtain ⟨l, hl⟩ := disk
    exact hoff l hl
  | recovering w phase down clean work =>
    cases w with
    | install tail => exact hoff _ (Install.disk work)
    | clear =>
      obtain ⟨l, hl, -⟩ := Clear.disk work
      exact hoff l hl
    | log tail => exact work.elim
    | head => exact work.elim
  | idle up idle => exact hoff [] idle.disk
  | ended j up committing call ended => exact hoff [] ended.disk
  | commit j w up committing call work =>
    cases work with
    | log here => exact hoff [] here.disk
    | install here => exact hoff _ here.disk
    | clear here =>
      obtain ⟨l, hl, -⟩ := here.disk
      exact hoff l hl
    | head τ here hsome rest before behind =>
      by_cases hone : ∀ x ∈ s.half, x.2 = 1
      · refine hoff [] ?_
        rw [before hone]
        exact here.before hone
      · push Not at hone
        obtain ⟨x, hx, hne⟩ := hone
        have hzero := (sector_eq x.2).resolve_right hne
        refine hoff s.blocks ?_
        rw [behind x hx hzero]
        exact here.behind x hx hzero

/-- Recovery at an entry of the log, or behind the last one. -/
theorem refines_recover (down : Down s σ sb) (clean : Clean sb s)
    (hd : OnDisk sb s.disk σ.stable s.blocks) (hh : s.half = none)
    (hdone : ∀ i < tail, s.disk (s.blocks.getD i 0) = s.disk (sb.logBlock i)) :
    Refines sb (s.recover tail) σ := by
  by_cases hmore : tail < s.blocks.length
  · refine .recovering (.install tail) ?_ ?_ ?_ ?_
    · simp only [recover, installNext_lt hmore]
    · unfold recover
      rw [installNext_lt hmore]
      exact ⟨down.calls, down.outstanding, down.committing, down.pins, down.settled, down.closed⟩
    · unfold recover
      rw [installNext_lt hmore]
      exact clean.same (SameMem.of_eq rfl rfl rfl rfl rfl)
    · unfold recover
      rw [installNext_lt hmore]
      exact Install.same ⟨hmore, hd, hdone, HalfOk.none hh⟩ (SameMem.of_eq rfl rfl rfl rfl rfl)
  · have hle : s.blocks.length ≤ tail := by omega
    have hclear := clear_enter hd hh fun i hi => hdone i (lt_of_lt_of_le hi hle)
    refine .recovering .clear ?_ ?_ ?_ ?_
    · simp only [recover, installNext_ge hle]
    · unfold recover
      rw [installNext_ge hle]
      exact ⟨down.calls, down.outstanding, down.committing, down.pins, down.settled, down.closed⟩
    · unfold recover
      rw [installNext_ge hle]
      exact ⟨clean.clean, clean.free⟩
    · unfold recover
      rw [installNext_ge hle]
      exact Clear.same hclear (SameMem.of_eq rfl rfl rfl rfl rfl)

/-- **`read_head`.** -/
theorem refines_boot (h : Refines sb s σ) (hp : s.phase = .off) (hb : s.boot sb = some t) :
    Refines sb t σ := by
  cases h with
  | recovering w phase => rw [hp] at phase; cases phase
  | idle up => cases up.phase.symm.trans hp
  | commit j w up => cases up.phase.symm.trans hp
  | ended j up => cases up.phase.symm.trans hp
  | off phase down cache half disk =>
    obtain ⟨l, hl⟩ := disk
    have hread : s.bread sb.logstart = s.disk sb.logstart := by
      unfold LogState.bread
      rw [cache]
      rfl
    simp only [boot] at hb
    split at hb
    · cases hb
    obtain rfl := Option.some.inj hb
    rw [hread, hl.head.blocks]
    refine refines_recover ?_ ⟨fun x _ _ => ?_, fun x _ => down.pins x⟩ hl half ?_
    · exact ⟨down.calls, down.outstanding, down.committing, down.pins, down.settled, down.closed⟩
    · change ((Function.update s.cache sb.logstart _) x).getD (s.disk x) = s.disk x
      by_cases hx : x = sb.logstart
      · rw [hx, Function.update_self, Option.getD_some, hread]
      · rw [Function.update_of_ne hx, cache]
        rfl
    · intro i hi
      cases hi

/-- **The first sector of a write of recovery.** -/
theorem boot_first (hp : s.phase = .recovering w) (down : Down s σ sb) (clean : Clean sb s)
    (work : BootWork sb s σ.stable w) (hh : s.half = none)
    (h : s.bwrite sb w k after = some t) : Refines sb t σ := by
  have hs := bwrite_first hh h
  have hdown : Down t σ sb := by
    rw [hs.eq]
    exact ⟨down.calls, down.outstanding, down.committing, down.pins, down.settled, down.closed⟩
  have hphase : t.phase = .recovering w := by
    rw [hs.eq]
    exact hp
  refine .recovering w hphase hdown (clean.first hh hs) ?_
  cases w with
  | install tail =>
    have here : Install sb s σ.stable tail := work
    rw [show s.fillData sb (.install tail) = s.disk (sb.logBlock tail) from here.copy clean hh] at hs
    exact here.first hs
  | clear =>
    have here : Clear sb s σ.stable := work
    refine here.first hs ?_
    have hd : HeadIs (headBlock (s.bread sb.logstart) s.blocks) [] := by
      rw [here.empty]
      exact headIs_headBlock (Nat.zero_le _) (by simp)
    exact hd
  | log tail => exact work.elim
  | head => exact work.elim

/-- **The second sector**: the next write, or the machine is up. -/
theorem boot_second (hp : s.phase = .recovering w) (down : Down s σ sb) (clean : Clean sb s)
    (work : BootWork sb s σ.stable w) {x : ℕ × Sector} (hh : s.half = some x)
    (h : s.bwrite sb w k (fun t => t.advanceBoot w) = some t) : Refines sb t σ := by
  have hdown : ∀ {b data u}, SecondSector s u b data → Down u σ sb := by
    intro b data u hs
    rw [hs.eq]
    exact ⟨down.calls, down.outstanding, down.committing, down.pins, down.settled, down.closed⟩
  cases w with
  | install tail =>
    have here : Install sb s σ.stable tail := work
    obtain ⟨-, u, hs, rfl⟩ := bwrite_second hh here.half h
    obtain ⟨hdisk, hdone⟩ := here.second hs
    exact refines_recover (hdown hs) (clean.second here.half hs) hdisk hs.half hdone
  | clear =>
    have here : Clear sb s σ.stable := work
    obtain ⟨data, hd, ho⟩ := here.head.half
    obtain ⟨-, u, hs, rfl⟩ := bwrite_second hh ho h
    have hdisk := here.second hs hd
    have hu := hdown hs
    have hclean := clean.second ho hs
    have hnil : u.blocks = [] := hs.blocks.trans here.empty
    have hfit : 0 < sb.nlog := hdisk.ok.fits
    have hcalls : ∀ i, (u.calls i).isOp = false := by
      intro i
      rw [hu.calls i]
      rfl
    refine .idle ⟨rfl, ⟨hclean.clean, hclean.free⟩, ?_, ?_, ?_, ?_⟩
      ⟨hu.committing, ?_, hs.half, hdisk, ?_, ?_⟩
    · intro y hy
      have hb : u.bread y = u.disk y := by
        apply hclean.clean _ (hu.pins y)
        intro z hz
        rw [hs.half] at hz
        cases hz
      change u.bread y = _
      rw [hb, hdisk.home hy, down.settled y hy]
    · change ListOk sb u.blocks
      rw [hnil]
      exact ListOk.nil hfit
    · intro i
      rw [down.closed i]
      exact (hcalls i).symm
    · refine hu.outstanding.trans (RefCount.holders_eq_zero.2 fun i => ?_).symm
      intro he
      have hno : opKey u.calls i = none := by
        unfold opKey
        rw [hcalls i]
        rfl
      change opKey u.calls i = some () at he
      rw [hno] at he
      cases he
    · intro i
      left
      change (u.calls i).Quiet
      rw [hu.calls i]
      trivial
    · intro y hy _
      exact down.settled y hy
    · intro y
      change u.pins y = if y ∈ u.blocks then 1 else 0
      rw [hu.pins y, hnil]
      rfl
  | log tail => exact work.elim
  | head => exact work.elim

end AgentOS
