import AgentOS.Lib.RefCount
import AgentOS.Proof.LogWrites

/-!
# How a state of the log stands for a state of the journal

`Refines sb s σ` has one case for each phase: off, in recovery, with operations, in `commit`, and
behind it.

* `Work`, `BootWork`: what holds at each write of `commit` and of recovery.
* `Refines.same`: a step that leaves the buffers and the operations as they are stands for nothing.
-/

namespace AgentOS

open LogState

variable {sb : Superblock} {s t : LogState} {σ : Journal} {w : LogWrite} {tail : ℕ}

/-! ### The relation -/

/-- Outside of an operation and of `commit`. -/
def LogCall.Quiet : LogCall → Prop
  | .user | .begin | .asleep => True
  | _ => False

def LogCall.isOp : LogCall → Bool
  | .op _ => true
  | _ => false

theorem LogCall.Quiet.isOp {c : LogCall} (h : c.Quiet) : c.isOp = false := by
  cases c <;> first | rfl | cases h

/-- The operations in progress, as holders of one key. -/
def opKey (calls : Slot → LogCall) (j : Slot) : Option Unit :=
  if (calls j).isOp then some () else none

/-- Outside of the logged blocks nothing has changed. -/
def Unlogged (sb : Superblock) (s : LogState) (σ : Journal) : Prop :=
  ∀ b, sb.Home b → b ∉ s.blocks → σ.current b = σ.stable b

/-- Everything is stable. -/
def Journal.Settled (sb : Superblock) (σ : Journal) : Prop :=
  ∀ b, sb.Home b → σ.current b = σ.stable b

/-- The blocks of `l` are pinned, once each. -/
def Pinned (s : LogState) (l : List ℕ) : Prop := ∀ b, s.pins b = if b ∈ l then 1 else 0

/-- **What holds inside `commit`**, at each of its writes. -/
inductive Work (sb : Superblock) (s : LogState) (σ : Journal) : LogWrite → Prop
  | log {tail : ℕ} (here : Log sb s σ.stable tail) (rest : Unlogged sb s σ)
      (pins : Pinned s s.blocks) : Work sb s σ (.log tail)
  | head (τ : ℕ → Block) (here : Head sb s τ σ.current) (some : 0 < s.blocks.length)
      (rest : ∀ b, sb.Home b → b ∉ s.blocks → σ.current b = τ b)
      (before : (∀ x ∈ s.half, x.2 = 1) → σ.stable = τ)
      (behind : ∀ x ∈ s.half, x.2 = 0 → σ.stable = σ.current)
      (pins : Pinned s s.blocks) : Work sb s σ .head
  | install {tail : ℕ} (here : Install sb s σ.stable tail) (settled : σ.Settled sb)
      (pins : Pinned s (s.blocks.drop tail)) : Work sb s σ (.install tail)
  | clear (here : Clear sb s σ.stable) (settled : σ.Settled sb) (pins : Pinned s []) :
      Work sb s σ .clear

/-- What holds while the machine is up. -/
structure Up (sb : Superblock) (s : LogState) (σ : Journal) : Prop where
  phase : s.phase = .running
  clean : Clean sb s
  view : ∀ b, sb.Home b → s.bread b = σ.current b
  ok : ListOk sb s.blocks
  inOp : ∀ j, σ.inOp j = (s.calls j).isOp
  count : s.outstanding = RefCount.holders (opKey s.calls) ()

/-- No `commit` runs. -/
structure LogIdle (sb : Superblock) (s : LogState) (σ : Journal) : Prop where
  committing : s.committing = false
  calls : ∀ j, (s.calls j).Quiet ∨ (s.calls j).isOp = true
  half : s.half = none
  disk : OnDisk sb s.disk σ.stable []
  rest : Unlogged sb s σ
  pins : Pinned s s.blocks

/-- Process `j` commits; the others are outside of operations. -/
structure Committing (s : LogState) (j : Slot) : Prop where
  committing : s.committing = true
  calls : ∀ i, i ≠ j → (s.calls i).Quiet

/-- `commit` has returned. -/
structure Ended (sb : Superblock) (s : LogState) (σ : Journal) : Prop where
  half : s.half = none
  blocks : s.blocks = []
  disk : OnDisk sb s.disk σ.stable []
  settled : σ.Settled sb
  pins : Pinned s []

/-- The writes of recovery. -/
def BootWork (sb : Superblock) (s : LogState) (τ : ℕ → Block) : LogWrite → Prop
  | .install tail => Install sb s τ tail
  | .clear => Clear sb s τ
  | _ => False

/-- After a crash, before the machine is up. -/
structure Down (s : LogState) (σ : Journal) (sb : Superblock) : Prop where
  calls : ∀ j, s.calls j = .user
  outstanding : s.outstanding = 0
  committing : s.committing = false
  pins : ∀ b, s.pins b = 0
  settled : σ.Settled sb
  closed : ∀ j, σ.inOp j = false

/-- **A state of the log stands for a state of the journal.** -/
inductive Refines (sb : Superblock) (s : LogState) (σ : Journal) : Prop
  | off (phase : s.phase = .off) (down : Down s σ sb) (cache : ∀ b, s.cache b = none)
      (half : s.half = none) (disk : ∃ l, OnDisk sb s.disk σ.stable l)
  | recovering (w : LogWrite) (phase : s.phase = .recovering w) (down : Down s σ sb)
      (clean : Clean sb s) (work : BootWork sb s σ.stable w)
  | idle (up : Up sb s σ) (idle : LogIdle sb s σ)
  | commit (j : Slot) (w : LogWrite) (up : Up sb s σ) (committing : Committing s j)
      (call : s.calls j = .commit w) (work : Work sb s σ w)
  | ended (j : Slot) (up : Up sb s σ) (committing : Committing s j)
      (call : s.calls j = .committed) (ended : Ended sb s σ)

/-! ### States with the same buffers -/

/-- The same disk and log, and buffers that read the same. -/
structure SameMem (s t : LogState) : Prop where
  disk : t.disk = s.disk
  pins : t.pins = s.pins
  half : t.half = s.half
  blocks : t.blocks = s.blocks
  bread : t.bread = s.bread
  buf : ∀ x ∈ s.half, ∀ d, s.cache x.1 = some d → t.cache x.1 = some d

theorem SameMem.of_eq (hd : t.disk = s.disk) (hc : t.cache = s.cache) (hp : t.pins = s.pins)
    (hh : t.half = s.half) (hb : t.blocks = s.blocks) : SameMem s t := by
  refine ⟨hd, hp, hh, hb, ?_, fun x _ d h => by rw [hc, h]⟩
  funext x
  unfold LogState.bread
  rw [hc, hd]

theorem HalfOk.same {b : ℕ} {data : Block} (h : HalfOk s b data) (hm : SameMem s t) :
    HalfOk t b data := by
  refine ⟨?_, ?_, ?_⟩
  · rw [hm.half]
    exact h.target
  · rw [hm.half]
    intro x hx
    have hb := hm.buf x hx data
    rw [h.target x hx] at hb
    exact hb (h.buf x hx)
  · rw [hm.half, hm.disk]
    exact h.sector

theorem Clean.same (h : Clean sb s) (hm : SameMem s t) : Clean sb t := by
  refine ⟨?_, ?_⟩
  · rw [hm.pins, hm.half, hm.bread, hm.disk]
    exact h.clean
  · rw [hm.pins]
    exact h.free

theorem Logged.same {n : ℕ} (h : Logged sb s n) (hm : SameMem s t) : Logged sb t n := by
  unfold Logged
  rw [hm.disk, hm.bread, hm.blocks]
  exact h

theorem Log.same {τ : ℕ → Block} (h : Log sb s τ tail) (hm : SameMem s t) : Log sb t τ tail := by
  refine ⟨?_, ?_, h.logged.same hm, ?_⟩
  · rw [hm.blocks]
    exact h.here
  · rw [hm.disk]
    exact h.disk
  · rw [hm.bread, hm.blocks]
    exact h.half.same hm

theorem Install.same {τ : ℕ → Block} (h : Install sb s τ tail) (hm : SameMem s t) :
    Install sb t τ tail := by
  refine ⟨?_, ?_, ?_, ?_⟩
  · rw [hm.blocks]
    exact h.here
  · rw [hm.blocks, hm.disk]
    exact h.disk
  · rw [hm.blocks, hm.disk]
    exact h.done
  · rw [hm.blocks, hm.disk]
    exact h.half.same hm

theorem HeadHalf.same {l : List ℕ} (h : HeadHalf sb s l) (hm : SameMem s t) : HeadHalf sb t l := by
  obtain ⟨data, hd, hh⟩ := h.half
  exact ⟨data, hd, hh.same hm⟩

theorem Head.same {τ₀ τ : ℕ → Block} (h : Head sb s τ₀ τ) (hm : SameMem s t) : Head sb t τ₀ τ := by
  refine ⟨?_, ?_, ?_, ?_, ?_⟩
  · rw [hm.blocks]
    exact h.ok
  · rw [hm.blocks, hm.disk]
    exact h.logged
  · rw [hm.blocks]
    exact h.head.same hm
  · rw [hm.half, hm.disk]
    exact h.before
  · rw [hm.half, hm.disk, hm.blocks]
    exact h.behind

theorem Clear.same {τ : ℕ → Block} (h : Clear sb s τ) (hm : SameMem s t) : Clear sb t τ := by
  refine ⟨?_, h.head.same hm, ?_⟩
  · rw [hm.blocks]
    exact h.empty
  · rw [hm.disk]
    exact h.disk

theorem Pinned.same {l : List ℕ} (h : Pinned s l) (hm : SameMem s t) : Pinned t l := by
  unfold Pinned
  rw [hm.pins]
  exact h

theorem Work.same (h : Work sb s σ w) (hm : SameMem s t) : Work sb t σ w := by
  cases h with
  | log h rest pins =>
    refine .log (h.same hm) ?_ ?_
    · unfold Unlogged
      rw [hm.blocks]
      exact rest
    · rw [hm.blocks]
      exact pins.same hm
  | head τ h hsome rest before behind pins =>
    refine .head τ (h.same hm) ?_ ?_ ?_ ?_ ?_
    · rw [hm.blocks]
      exact hsome
    · rw [hm.blocks]
      exact rest
    · rw [hm.half]
      exact before
    · rw [hm.half]
      exact behind
    · rw [hm.blocks]
      exact pins.same hm
  | install h settled pins =>
    refine .install (h.same hm) settled ?_
    rw [hm.blocks]
    exact pins.same hm
  | clear h settled pins => exact .clear (h.same hm) settled (pins.same hm)

theorem BootWork.same {τ : ℕ → Block} (h : BootWork sb s τ w) (hm : SameMem s t) :
    BootWork sb t τ w := by
  cases w with
  | install tail => exact Install.same h hm
  | clear => exact Clear.same h hm
  | log tail => exact h
  | head => exact h

/-- A process that moves between calls outside of operations, or none. -/
def Moves (c c' : LogCall) : Prop := c' = c ∨ c.Quiet ∧ c'.Quiet

theorem Moves.isOp {c c' : LogCall} (h : Moves c c') : c'.isOp = c.isOp := by
  rcases h with rfl | ⟨h, h'⟩
  · rfl
  · rw [h.isOp, h'.isOp]

theorem Moves.quiet {c c' : LogCall} (h : Moves c c') (hc : c.Quiet) : c'.Quiet := by
  rcases h with rfl | ⟨_, h'⟩
  · exact hc
  · exact h'

theorem opKey_congr {f g : Slot → LogCall} (h : ∀ i, (f i).isOp = (g i).isOp) :
    opKey f = opKey g := by
  funext i
  unfold opKey
  rw [h i]

theorem Up.same (h : Up sb s σ) (hm : SameMem s t) (hp : t.phase = s.phase)
    (ho : t.outstanding = s.outstanding) (hc : ∀ i, (t.calls i).isOp = (s.calls i).isOp) :
    Up sb t σ := by
  refine ⟨hp.trans h.phase, h.clean.same hm, ?_, ?_, ?_, ?_⟩
  · rw [hm.bread]
    exact h.view
  · rw [hm.blocks]
    exact h.ok
  · intro i
    rw [hc i]
    exact h.inOp i
  · rw [ho, opKey_congr hc]
    exact h.count

/-- **Steps outside of operations** stand for nothing. -/
theorem Refines.same (h : Refines sb s σ) (hr : s.phase = .running) (hm : SameMem s t)
    (hp : t.phase = s.phase) (ho : t.outstanding = s.outstanding)
    (hco : t.committing = s.committing) (hc : ∀ i, Moves (s.calls i) (t.calls i)) :
    Refines sb t σ := by
  have hup : Up sb s σ → Up sb t σ := fun h => h.same hm hp ho fun i => (hc i).isOp
  have hcomm : ∀ {j}, Committing s j → Committing t j := by
    intro j h
    exact ⟨hco.trans h.committing, fun i hi => (hc i).quiet (h.calls i hi)⟩
  have hcall : ∀ {j c}, s.calls j = c → ¬ c.Quiet → t.calls j = c := by
    intro j c h hq
    rcases hc j with h' | ⟨h', -⟩
    · rw [h', h]
    · rw [h] at h'
      exact absurd h' hq
  cases h with
  | off phase => rw [hr] at phase; cases phase
  | recovering w phase => rw [hr] at phase; cases phase
  | idle up idle =>
    refine .idle (hup up) ⟨hco.trans idle.committing, ?_, hm.half.trans idle.half, ?_, ?_, ?_⟩
    · intro i
      rcases idle.calls i with h | h
      · exact .inl ((hc i).quiet h)
      · right
        rw [(hc i).isOp]
        exact h
    · rw [hm.disk]
      exact idle.disk
    · unfold Unlogged
      rw [hm.blocks]
      exact idle.rest
    · rw [hm.blocks]
      exact idle.pins.same hm
  | commit j w up committing call work =>
    exact .commit j w (hup up) (hcomm committing) (hcall call (by simp [LogCall.Quiet]))
      (work.same hm)
  | ended j up committing call ended =>
    refine .ended j (hup up) (hcomm committing) (hcall call (by simp [LogCall.Quiet])) ?_
    refine ⟨hm.half.trans ended.half, hm.blocks.trans ended.blocks, ?_, ended.settled,
      ended.pins.same hm⟩
    rw [hm.disk]
    exact ended.disk

end AgentOS
