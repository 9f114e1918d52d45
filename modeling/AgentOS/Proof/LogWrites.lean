import AgentOS.Proof.LogDisk

/-!
# The writes of `commit` and of recovery, one sector at a time

* `bwrite_first`, `bwrite_second`: what the two steps of a `bwrite` do to the state.
* `Log.first`, `Log.second`; `Head.first`, `Head.second`; `Install.first`, `Install.second`;
  `Clear.first`, `Clear.second`: the invariant of each `bwrite` between its two steps, and what
  holds behind it. The blocks a disk recovers to change in one of these steps only, the one that
  puts the first sector of the header of `write_head` on the disk.
-/

namespace AgentOS

open LogState

variable {sb : Superblock} {s t : LogState} {w : LogWrite} {k k' : Sector} {b tail : ℕ}
  {τ τ' : ℕ → Block} {data : Block} {after : LogState → LogState}

namespace LogState

/-- What a `bwrite` stores. -/
def fillData (sb : Superblock) (s : LogState) : LogWrite → Block
  | .log tail => s.bread (s.blocks.getD tail 0)
  | .install tail => s.bread (sb.logBlock tail)
  | .head | .clear => headBlock (s.bread sb.logstart) s.blocks

/-- The buffers that `fill` reads keep their contents. -/
theorem fill_spec : ∃ c, s.fill sb w = { s with cache := c } ∧
    c (s.target sb w) = some (s.fillData sb w) ∧
    ∀ b, b ≠ s.target sb w → (c b).getD (s.disk b) = s.bread b := by
  have hset : ∀ b d, (s.setBuf b d).cache b = some d := fun b d => Function.update_self ..
  have hload : ∀ src b d x, x ≠ b →
      (((s.load src).setBuf b d).cache x).getD (s.disk x) = s.bread x := by
    intro src b d x hx
    simp only [load, setBuf, Function.update_of_ne hx]
    by_cases hs : x = src
    · rw [hs, Function.update_self]
      rfl
    · rw [Function.update_of_ne hs]
      rfl
  cases w with
  | log tail => exact ⟨_, rfl, Function.update_self .., hload _ _ _⟩
  | install tail => exact ⟨_, rfl, Function.update_self .., hload _ _ _⟩
  | head =>
    refine ⟨_, rfl, hset _ _, fun b hb => ?_⟩
    exact congrArg (Option.getD · _) (Function.update_of_ne hb _ _)
  | clear =>
    refine ⟨_, rfl, hset _ _, fun b hb => ?_⟩
    exact congrArg (Option.getD · _) (Function.update_of_ne hb _ _)

end LogState

/-- **The first sector.** -/
structure FirstSector (s t : LogState) (b : ℕ) (data : Block) (k : Sector) : Prop where
  eq : t = { s with
    disk := Function.update s.disk b (Block.sector k data (s.disk b))
    cache := t.cache
    half := some (b, k) }
  buf : t.cache b = some data
  other : ∀ x, x ≠ b → t.bread x = s.bread x

/-- Between the two sectors: the buffer holds the data, and one sector of it is on the disk. -/
structure HalfOk (s : LogState) (b : ℕ) (data : Block) : Prop where
  target : ∀ x ∈ s.half, x.1 = b
  buf : ∀ x ∈ s.half, s.cache b = some data
  sector : ∀ x ∈ s.half, ∃ old, s.disk b = Block.sector x.2 data old

/-- **The second sector.** -/
structure SecondSector (s t : LogState) (b : ℕ) (data : Block) : Prop where
  eq : t = { s with disk := Function.update s.disk b data, half := none }
  buf : t.cache b = some data

theorem bwrite_first (hh : s.half = none) (h : s.bwrite sb w k after = some t) :
    FirstSector s t (s.target sb w) (s.fillData sb w) k := by
  obtain ⟨c, hc, hbuf, hother⟩ := @fill_spec sb s w
  simp only [bwrite, hh] at h
  obtain rfl := Option.some.inj h
  have hbread : (s.fill sb w).bread (s.target sb w) = s.fillData sb w := by
    unfold bread
    rw [hc]
    dsimp only
    rw [hbuf]
    rfl
  refine ⟨?_, ?_, ?_⟩
  · simp only [putSector]
    rw [hbread, hc]
  · rw [hc]
    exact hbuf
  · intro x hx
    unfold bread
    simp only [putSector]
    rw [Function.update_of_ne hx, hc]
    exact hother x hx

theorem bwrite_second {x : ℕ × Sector} (hh : s.half = some x) (hb : HalfOk s b data)
    (h : s.bwrite sb w k after = some t) :
    x.2 ≠ k ∧ ∃ u, SecondSector s u b data ∧ t = after u := by
  obtain rfl := hb.target x hh
  simp only [bwrite, hh] at h
  split at h
  · cases h
  · rename_i hk
    obtain rfl := Option.some.inj h
    refine ⟨hk, { s.putSector x.1 k with half := none }, ⟨?_, hb.buf x hh⟩, rfl⟩
    obtain ⟨old, hold⟩ := hb.sector x hh
    simp only [putSector, bread]
    rw [hb.buf x hh, hold, Option.getD_some, sector_sector hk]

theorem FirstSector.half (h : FirstSector s t b data k) : HalfOk t b data := by
  have hhalf : t.half = some (b, k) := by rw [h.eq]
  have hx : ∀ x ∈ t.half, x = (b, k) := by
    intro x hx
    rw [hhalf] at hx
    exact (Option.some.inj hx).symm
  refine ⟨?_, fun _ _ => h.buf, ?_⟩
  · intro x hxt
    rw [hx x hxt]
  · intro x hxt
    refine ⟨s.disk b, ?_⟩
    rw [hx x hxt, h.eq]
    exact Function.update_self ..

theorem FirstSector.disk (h : FirstSector s t b data k) :
    t.disk = Function.update s.disk b (Block.sector k data (s.disk b)) := by rw [h.eq]

theorem FirstSector.blocks (h : FirstSector s t b data k) : t.blocks = s.blocks := by rw [h.eq]

theorem FirstSector.pins (h : FirstSector s t b data k) : t.pins = s.pins := by rw [h.eq]

theorem FirstSector.bread (h : FirstSector s t b data k) : t.bread b = data := by
  unfold LogState.bread
  rw [h.buf]
  rfl

theorem SecondSector.disk (h : SecondSector s t b data) :
    t.disk = Function.update s.disk b data := by rw [h.eq]

theorem SecondSector.blocks (h : SecondSector s t b data) : t.blocks = s.blocks := by rw [h.eq]

theorem SecondSector.pins (h : SecondSector s t b data) : t.pins = s.pins := by rw [h.eq]

theorem SecondSector.half (h : SecondSector s t b data) : t.half = none := by rw [h.eq]

theorem SecondSector.bread (h : SecondSector s t b data) : t.bread = s.bread := by
  funext x
  unfold LogState.bread
  have hc : t.cache = s.cache := by rw [h.eq]
  rw [hc, h.disk]
  by_cases hx : x = b
  · have hbuf := h.buf
    rw [hc] at hbuf
    rw [hx, hbuf]
    rfl
  · rw [Function.update_of_ne hx]

theorem HalfOk.none (h : s.half = none) : HalfOk s b data := by
  refine ⟨?_, ?_, ?_⟩ <;>
  · intro x hx
    rw [h] at hx
    cases hx

/-! ### Buffers -/

/-- A buffer without references holds what is on the disk; blocks of the log have none. -/
structure Clean (sb : Superblock) (s : LogState) : Prop where
  clean : ∀ b, s.pins b = 0 → (∀ x ∈ s.half, x.1 ≠ b) → s.bread b = s.disk b
  free : ∀ b, ¬ sb.Home b → s.pins b = 0

theorem Clean.first (hc : Clean sb s) (hh : s.half = none) (h : FirstSector s t b data k) :
    Clean sb t := by
  have hhalf : (b, k) ∈ t.half := by rw [h.eq]; rfl
  refine ⟨fun x hx hne => ?_, fun x hx => ?_⟩
  · have hxb : x ≠ b := (hne _ hhalf).symm
    rw [h.pins] at hx
    rw [h.other x hxb, h.disk, Function.update_of_ne hxb]
    apply hc.clean x hx
    intro y hy
    rw [hh] at hy
    cases hy
  · rw [h.pins]
    exact hc.free x hx

theorem Clean.second (hc : Clean sb s) (ho : HalfOk s b data) (h : SecondSector s t b data) :
    Clean sb t := by
  refine ⟨fun x hx _ => ?_, fun x hx => ?_⟩
  · rw [h.pins] at hx
    by_cases hxb : x = b
    · unfold LogState.bread
      rw [hxb, h.buf, h.disk, Function.update_self]
      rfl
    · rw [h.bread, h.disk, Function.update_of_ne hxb]
      apply hc.clean x hx
      intro y hy
      rw [ho.target y hy]
      exact Ne.symm hxb
  · rw [h.pins]
    exact hc.free x hx

/-! ### The log -/

/-- The first `n` logged blocks have their copies in the log. -/
def Logged (sb : Superblock) (s : LogState) (n : ℕ) : Prop :=
  ∀ i < n, s.disk (sb.logBlock i) = s.bread (s.blocks.getD i 0)

/-- In `write_log`, at entry `tail`. -/
structure Log (sb : Superblock) (s : LogState) (τ : ℕ → Block) (tail : ℕ) : Prop where
  here : tail < s.blocks.length
  disk : OnDisk sb s.disk τ []
  logged : Logged sb s tail
  half : HalfOk s (sb.logBlock tail) (s.bread (s.blocks.getD tail 0))

theorem home_ne_logBlock {i : ℕ} (hok : ListOk sb s.blocks) (hi : i < s.blocks.length)
    (hb : sb.Home b) : b ≠ sb.logBlock i := by
  rintro rfl
  exact hok.logBlock hi hb

theorem Log.first (h : Log sb s τ tail) (hok : ListOk sb s.blocks)
    (hs : FirstSector s t (sb.logBlock tail) (s.bread (s.blocks.getD tail 0)) k) :
    Log sb t τ tail := by
  have hfit : tail + 1 < sb.nlog := by
    have := hok.fits
    have := h.here
    omega
  have hsame : ∀ i < s.blocks.length, t.bread (s.blocks.getD i 0) = s.bread (s.blocks.getD i 0) :=
    fun i hi => hs.other _ (home_ne_logBlock hok h.here (hok.home _ (getD_mem hi)))
  refine ⟨?_, ?_, ?_, ?_⟩
  · rw [hs.blocks]
    exact h.here
  · rw [hs.disk]
    exact h.disk.putLog hfit
  · intro i hi
    have hne : sb.logBlock i ≠ sb.logBlock tail := by
      intro he
      have := logBlock_inj.1 he
      omega
    rw [hs.blocks, hs.disk, Function.update_of_ne hne, hsame i (hi.trans h.here)]
    exact h.logged i hi
  · rw [hs.blocks, hsame tail h.here]
    exact hs.half

theorem Log.second (h : Log sb s τ tail) (hok : ListOk sb s.blocks)
    (hs : SecondSector s t (sb.logBlock tail) (s.bread (s.blocks.getD tail 0))) :
    OnDisk sb t.disk τ [] ∧ Logged sb t (tail + 1) := by
  have hfit : tail + 1 < sb.nlog := by
    have := hok.fits
    have := h.here
    omega
  refine ⟨?_, ?_⟩
  · rw [hs.disk]
    exact h.disk.putLog hfit
  · intro i hi
    rw [hs.blocks, hs.bread, hs.disk]
    rcases Nat.lt_succ_iff_lt_or_eq.1 hi with hi | rfl
    · rw [Function.update_of_ne]
      · exact h.logged i hi
      · intro he
        have := logBlock_inj.1 he
        omega
    · exact Function.update_self ..

/-! ### Installing -/

/-- In `install_trans`, at entry `tail`. -/
structure Install (sb : Superblock) (s : LogState) (τ : ℕ → Block) (tail : ℕ) : Prop where
  here : tail < s.blocks.length
  disk : OnDisk sb s.disk τ s.blocks
  done : ∀ i < tail, s.disk (s.blocks.getD i 0) = s.disk (sb.logBlock i)
  half : HalfOk s (s.blocks.getD tail 0) (s.disk (sb.logBlock tail))

/-- A write to the listed block at `tail` leaves the other blocks that matter as they are. -/
theorem Install.frame (h : Install sb s τ tail) {i : ℕ} (hi : i ≤ tail) (v : Block) :
    Function.update s.disk (s.blocks.getD tail 0) v (sb.logBlock i) = s.disk (sb.logBlock i) := by
  apply Function.update_of_ne
  have hil : i < s.blocks.length := hi.trans_lt h.here
  exact (home_ne_logBlock h.disk.ok hil (h.disk.ok.home _ (getD_mem h.here))).symm

theorem Install.frame_home (h : Install sb s τ tail) {i : ℕ} (hi : i < tail) (v : Block) :
    Function.update s.disk (s.blocks.getD tail 0) v (s.blocks.getD i 0) =
      s.disk (s.blocks.getD i 0) := by
  apply Function.update_of_ne
  intro he
  have := getD_inj h.disk.ok.nodup (hi.trans h.here) h.here he
  omega

theorem Install.first (h : Install sb s τ tail)
    (hs : FirstSector s t (s.blocks.getD tail 0) (s.disk (sb.logBlock tail)) k) :
    Install sb t τ tail := by
  refine ⟨?_, ?_, ?_, ?_⟩
  · rw [hs.blocks]
    exact h.here
  · rw [hs.blocks, hs.disk]
    exact h.disk.putHome h.here
  · intro i hi
    rw [hs.blocks, hs.disk, h.frame hi.le, h.frame_home hi]
    exact h.done i hi
  · have hdata : t.disk (sb.logBlock tail) = s.disk (sb.logBlock tail) := by
      rw [hs.disk, h.frame le_rfl]
    rw [hdata, hs.blocks]
    exact hs.half

theorem Install.second (h : Install sb s τ tail)
    (hs : SecondSector s t (s.blocks.getD tail 0) (s.disk (sb.logBlock tail))) :
    OnDisk sb t.disk τ t.blocks ∧
      ∀ i < tail + 1, t.disk (t.blocks.getD i 0) = t.disk (sb.logBlock i) := by
  refine ⟨?_, ?_⟩
  · rw [hs.blocks, hs.disk]
    exact h.disk.putHome h.here
  · intro i hi
    rw [hs.blocks, hs.disk, h.frame (Nat.le_of_lt_succ hi)]
    rcases Nat.lt_succ_iff_lt_or_eq.1 hi with hi | rfl
    · rw [h.frame_home hi]
      exact h.done i hi
    · exact Function.update_self ..

/-! ### The header -/

/-- Between the two sectors of a header that lists `l`. -/
structure HeadHalf (sb : Superblock) (s : LogState) (l : List ℕ) : Prop where
  half : ∃ data, HeadIs data l ∧ HalfOk s sb.logstart data

theorem HeadHalf.none {l : List ℕ} (h : s.half = none) (hl : l.length ≤ logsize)
    (hlt : ∀ x ∈ l, x < 2 ^ 32) : HeadHalf sb s l :=
  ⟨_, headIs_headBlock (b := Block.zero) hl hlt, HalfOk.none h⟩

/-- In `write_head` with the list of the transaction; `τ` is what the log holds, `τ₀` what the disk
held before. -/
structure Head (sb : Superblock) (s : LogState) (τ₀ τ : ℕ → Block) : Prop where
  ok : ListOk sb s.blocks
  logged : ∀ i < s.blocks.length, s.disk (sb.logBlock i) = τ (s.blocks.getD i 0)
  head : HeadHalf sb s s.blocks
  before : (∀ x ∈ s.half, x.2 = 1) → OnDisk sb s.disk τ₀ []
  behind : ∀ x ∈ s.half, x.2 = 0 → OnDisk sb s.disk τ s.blocks

/-- In the `write_head` that erases the transaction. -/
structure Clear (sb : Superblock) (s : LogState) (τ : ℕ → Block) : Prop where
  empty : s.blocks = []
  head : HeadHalf sb s []
  disk : ∃ l, OnDisk sb s.disk τ l ∧
    ∀ i < l.length, s.disk (l.getD i 0) = s.disk (sb.logBlock i)

theorem sector_eq : ∀ k : Sector, k = 0 ∨ k = 1 := by decide

/-- A header torn between its sectors. -/
theorem headIs_sector {l l' : List ℕ} {new old : Block} (hn : HeadIs new l) (ho : HeadIs old l')
    (hl : l.length ≤ logsize) (hl' : l'.length ≤ logsize) :
    HeadIs (Block.sector k new old) (if k = 0 then l else l') := by
  rcases sector_eq k with rfl | rfl
  · rw [if_pos rfl]
    exact hn.congr hl fun i hi => (sector_zero_head hi).symm
  · rw [if_neg (by decide)]
    exact ho.congr hl' fun i hi => (sector_one_head hi).symm

theorem logBlock_putStart {d : ℕ → Block} {v : Block} {i : ℕ} :
    Function.update d sb.logstart v (sb.logBlock i) = d (sb.logBlock i) :=
  Function.update_of_ne logBlock_ne_start _ _

theorem Head.first {τ₀ : ℕ → Block} (h : Head sb s τ₀ τ) (hh : s.half = none)
    (hτ : ∀ b, sb.Home b → b ∉ s.blocks → τ b = τ₀ b)
    (hs : FirstSector s t sb.logstart data k) (hd : HeadIs data s.blocks) : Head sb t τ₀ τ := by
  have hx : ∀ x ∈ t.half, x = (sb.logstart, k) := by
    intro x hx
    rw [hs.eq] at hx
    exact (Option.some.inj hx).symm
  have hold := h.before fun x hx => by rw [hh] at hx; cases hx
  have hnew : HeadIs (Block.sector k data (s.disk sb.logstart)) (if k = 0 then s.blocks else []) :=
    headIs_sector hd hold.head h.ok.room (Nat.zero_le _)
  refine ⟨?_, ?_, ⟨data, ?_, hs.half⟩, ?_, ?_⟩
  · rw [hs.blocks]
    exact h.ok
  · intro i hi
    rw [hs.blocks] at hi ⊢
    rw [hs.disk, logBlock_putStart]
    exact h.logged i hi
  · rw [hs.blocks]
    exact hd
  · intro hone
    have hk : k = 1 := hone (sb.logstart, k) (by rw [hs.eq]; rfl)
    rw [hk, if_neg (by decide)] at hnew
    rw [hs.disk, hk]
    exact hold.putHead hnew
  · intro x hxt hzero
    rw [hx x hxt] at hzero
    dsimp only at hzero
    rw [hzero, if_pos rfl] at hnew
    rw [hs.disk, hs.blocks, hzero]
    exact hold.seal h.ok hnew h.logged hτ

theorem Head.second {τ₀ : ℕ → Block} (h : Head sb s τ₀ τ) {x : ℕ × Sector} (hh : s.half = some x)
    (hτ : ∀ b, sb.Home b → b ∉ s.blocks → τ b = τ₀ b)
    (hs : SecondSector s t sb.logstart data) (hd : HeadIs data s.blocks) :
    OnDisk sb t.disk τ t.blocks := by
  rw [hs.disk, hs.blocks]
  rcases sector_eq x.2 with hx | hx
  · exact (h.behind x hh hx).putHead hd
  · refine (h.before ?_).seal h.ok hd h.logged hτ
    intro y hy
    rw [hh] at hy
    rw [← Option.some.inj hy]
    exact hx

theorem Clear.first (h : Clear sb s τ) (hs : FirstSector s t sb.logstart data k)
    (hd : HeadIs data []) : Clear sb t τ := by
  obtain ⟨l, hl, hdone⟩ := h.disk
  have hnew : HeadIs (Block.sector k data (s.disk sb.logstart)) (if k = 0 then [] else l) :=
    headIs_sector hd hl.head (Nat.zero_le _) hl.ok.room
  refine ⟨?_, ⟨data, hd, hs.half⟩, ?_⟩
  · rw [hs.blocks]
    exact h.empty
  · rw [hs.disk]
    rcases sector_eq k with hk | hk
    · rw [hk, if_pos rfl] at hnew
      refine ⟨[], hl.clear (hk ▸ hnew) hdone, ?_⟩
      intro i hi
      cases hi
    · rw [hk, if_neg (by decide)] at hnew
      refine ⟨l, hl.putHead (hk ▸ hnew), ?_⟩
      intro i hi
      rw [logBlock_putStart, Function.update_of_ne]
      · exact hdone i hi
      · intro he
        apply hl.ok.start
        rw [← he]
        exact hl.ok.home _ (getD_mem hi)

theorem Clear.second (h : Clear sb s τ) (hs : SecondSector s t sb.logstart data)
    (hd : HeadIs data []) : OnDisk sb t.disk τ [] := by
  obtain ⟨l, hl, hdone⟩ := h.disk
  rw [hs.disk]
  exact hl.clear hd hdone

end AgentOS
