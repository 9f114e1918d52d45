import AgentOS.Proof.BufCache

/-!
# What the processes see of the buffer cache

* `bufs_refine_cells`: every run of the cache shows a run of cells with one owner at a time; so two
  processes never have one block, and a process that gets a block finds what was last stored in it.
* `bget_least_recent`: the buffer that `bget` gives to another block is, of those not in use, the
  one given back longest ago.
* `bread_panics_iff`: `bget` panics if and only if the block is not cached and every buffer is
  waited for, held, about to be dropped or pinned.
-/

namespace AgentOS

open Machine

namespace BufCache

variable {s t : BufCache} {σ : Cells} {b x : BufIndex} {key : BlockKey} {i j : Slot} {a : BufLabel}

/-- A step shows `es`. -/
def ShowsStep (es : List CellEvent) (t : BufCache) (σ : Cells) : Prop :=
  ∃ σ', cellMachine.Path always σ es σ' ∧ Shows t σ'

theorem ShowsStep.silent (h : Shows t σ) : ShowsStep [] t σ := ⟨σ, Path.nil σ, h⟩

theorem ShowsStep.event {e : CellEvent} {σ' : Cells} (hn : cellMachine.next σ e = some σ')
    (h : Shows t σ') : ShowsStep [e] t σ := ⟨σ', Path.single trivial hn, h⟩

/-- A field that a change of buffer `b` leaves. -/
theorem buf_field {γ : Type*} (f : Buf → γ) {y : Buf} (hf : f y = f (s.buf b)) (x : BufIndex) :
    f ((s.setBuf b y).buf x) = f (s.buf x) := by
  by_cases hx : x = b
  · rw [hx, setBuf_self, hf]
  · rw [setBuf_ne hx]

/-- A change of the references. -/
theorem Shows.refs (h : Shows s σ) {n : ℕ} (hb : t.buf = (s.setRef b n).buf)
    (hd : t.disk = s.disk) : Shows t σ := by
  refine h.silent ?_ ?_ ?_ ?_ fun k _ => by rw [hd]
  · intro x
    rw [hb]
    exact buf_field (y := { s.buf b with refcnt := n }) Buf.key rfl x
  · intro x
    rw [hb]
    exact buf_field (y := { s.buf b with refcnt := n }) Buf.valid rfl x
  · intro x _
    rw [hb]
    exact buf_field (y := { s.buf b with refcnt := n }) Buf.data rfl x
  · intro x _
    rw [hb]
    exact buf_field (y := { s.buf b with refcnt := n }) Buf.lock rfl x

/-- Two cached blocks are different. -/
theorem BufInv.key_ne (h : BufInv s) (hv : (s.buf x).valid = true) (hx : x ≠ b) :
    (s.buf x).key ≠ (s.buf b).key := fun he => hx (h.keys x b (h.validDev x hv) he)

/-- Nobody has the block of a buffer that is not locked, or not valid. -/
theorem BufInv.cell_free (h : BufInv s) (hs : Shows s σ)
    (hb : (s.buf b).valid = true → (s.buf b).lock = none) : σ.owner (s.buf b).key = none := by
  refine hs.free _ fun x hv hl he => ?_
  by_cases hx : x = b
  · rw [hx] at hv hl
    exact hl (hb hv)
  · exact h.key_ne hv hx he

/-- **A process gets a block.** -/
theorem shows_take (h : BufInv s) (hs : Shows s σ)
    (hfree : (s.buf b).valid = true → (s.buf b).lock = none)
    (hb : t.buf b = { s.buf b with valid := true, lock := some j, data := (t.buf b).data })
    (hother : ∀ x, x ≠ b → t.buf x = s.buf x) (hd : t.disk = s.disk)
    (hcur : σ.current (s.buf b).key = (t.buf b).data) :
    ShowsStep [.take j (s.buf b).key (t.buf b).data] t σ := by
  have hno := h.cell_free hs hfree
  have hbk : (t.buf b).key = (s.buf b).key := by
    rw [hb]
    rfl
  have hbv : (t.buf b).valid = true := by rw [hb]
  have hbl : (t.buf b).lock = some j := by rw [hb]
  refine .event (if_pos ⟨hno, hcur⟩) ⟨fun x hx => ?_, fun k hk => ?_, fun x i hx hi => ?_,
    fun k hk => ?_⟩
  · by_cases hxb : x = b
    · rw [hxb, hbk]
      exact hcur
    · rw [hother x hxb] at hx ⊢
      exact hs.cached x hx
  · rw [hd]
    refine hs.disk k fun x hx => ?_
    by_cases hxb : x = b
    · rw [hxb, ← hbk]
      exact hk b hbv
    · rw [← hother x hxb] at hx ⊢
      exact hk x hx
  · dsimp only
    by_cases hxb : x = b
    · rw [hxb] at hi ⊢
      rw [hbl] at hi
      rw [hbk, Function.update_self]
      exact hi
    · rw [hother x hxb] at hx hi ⊢
      rw [Function.update_of_ne (h.key_ne hx hxb)]
      exact hs.owner x i hx hi
  · dsimp only
    have hkb : k ≠ (s.buf b).key := by
      rw [← hbk]
      refine (hk b hbv ?_).symm
      rw [hbl]
      exact Option.some_ne_none j
    rw [Function.update_of_ne hkb]
    refine hs.free k fun x hx hl => ?_
    by_cases hxb : x = b
    · rw [hxb]
      exact hkb.symm
    · rw [← hother x hxb] at hx hl ⊢
      exact hk x hx hl

/-- The holder of a buffer is not waiting for the disk. -/
theorem BufInv.held (h : BufInv s) (hj : s.calls j = .kernel) (hl : (s.buf b).lock = some j) :
    (s.buf b).valid = true := by
  refine (h.locked j b hl).resolve_right fun he => ?_
  rw [hj] at he
  cases he

/-- **A process stores into its block.** -/
theorem shows_put (h : BufInv s) (hs : Shows s σ) (hj : s.calls j = .kernel)
    (hl : (s.buf b).lock = some j) (d : Block) :
    ShowsStep [.put j (s.buf b).key d] (s.setData b d) σ := by
  have hv := h.held hj hl
  have hkey := buf_field (s := s) (b := b) (y := { s.buf b with data := d }) Buf.key rfl
  have hvalid := buf_field (s := s) (b := b) (y := { s.buf b with data := d }) Buf.valid rfl
  have hlock := buf_field (s := s) (b := b) (y := { s.buf b with data := d }) Buf.lock rfl
  refine .event (if_pos (hs.owner b j hv hl)) ⟨fun x hx => ?_, fun k hk => ?_,
    fun x i hx hi => ?_, fun k hk => ?_⟩
  · refine (congrArg _ (hkey x)).trans ?_
    by_cases hxb : x = b
    · subst hxb
      have hdata : ((s.setData x d).buf x).data = d :=
        congrArg Buf.data (setBuf_self (y := { s.buf x with data := d }))
      exact (Function.update_self ..).trans hdata.symm
    · have hx' := (hvalid x).symm.trans hx
      refine (Function.update_of_ne (h.key_ne hx' hxb) ..).trans ?_
      exact (hs.cached x hx').trans (congrArg Buf.data (setBuf_ne hxb)).symm
  · have hkb : k ≠ (s.buf b).key := by
      rw [← hkey b]
      exact (hk b ((hvalid b).trans hv)).symm
    refine (Function.update_of_ne hkb ..).trans (hs.disk k fun x hx => ?_)
    rw [← hkey x]
    exact hk x ((hvalid x).trans hx)
  · refine (congrArg _ (hkey x)).trans ?_
    exact hs.owner x i ((hvalid x).symm.trans hx) ((hlock x).symm.trans hi)
  · refine hs.free k fun x hx hn => ?_
    rw [← hkey x]
    refine hk x ((hvalid x).trans hx) ?_
    exact fun he => hn ((hlock x).symm.trans he)

/-- **A process gives its block back.** -/
theorem shows_give (h : BufInv s) (hs : Shows s σ) (hj : s.calls j = .kernel)
    (hl : (s.buf b).lock = some j) (hb : t.buf = (s.setLock b none).buf) (hd : t.disk = s.disk) :
    ShowsStep [.give j (s.buf b).key] t σ := by
  have hv := h.held hj hl
  have hkey : ∀ x, (t.buf x).key = (s.buf x).key := by
    rw [hb]
    exact buf_field (s := s) (b := b) (y := { s.buf b with lock := none }) Buf.key rfl
  have hvalid : ∀ x, (t.buf x).valid = (s.buf x).valid := by
    rw [hb]
    exact buf_field (s := s) (b := b) (y := { s.buf b with lock := none }) Buf.valid rfl
  have hdata : ∀ x, (t.buf x).data = (s.buf x).data := by
    rw [hb]
    exact buf_field (s := s) (b := b) (y := { s.buf b with lock := none }) Buf.data rfl
  have hother : ∀ x, x ≠ b → (t.buf x).lock = (s.buf x).lock := by
    intro x hx
    rw [hb]
    exact congrArg Buf.lock (setBuf_ne hx)
  have hself : (t.buf b).lock = none := by
    rw [hb]
    exact congrArg Buf.lock setBuf_self
  refine .event (if_pos (hs.owner b j hv hl)) ⟨fun x hx => ?_, fun k hk => ?_,
    fun x i hx hi => ?_, fun k hk => ?_⟩
  · rw [hvalid] at hx
    rw [hkey, hdata]
    exact hs.cached x hx
  · rw [hd]
    refine hs.disk k fun x hx => ?_
    rw [← hkey]
    exact hk x ((hvalid x).trans hx)
  · dsimp only
    have hxb : x ≠ b := by
      rintro rfl
      rw [hself] at hi
      cases hi
    rw [hvalid] at hx
    rw [hother x hxb] at hi
    rw [hkey, Function.update_of_ne (h.key_ne hx hxb)]
    exact hs.owner x i hx hi
  · dsimp only
    by_cases hkb : k = (s.buf b).key
    · rw [hkb, Function.update_self]
    · rw [Function.update_of_ne hkb]
      refine hs.free k fun x hx hn => ?_
      by_cases hxb : x = b
      · rw [hxb]
        exact Ne.symm hkb
      · rw [← hkey]
        refine hk x ((hvalid x).trans hx) ?_
        rw [hother x hxb]
        exact hn

/-- A buffer that goes to another block was the block on the disk. -/
theorem shows_recycle (h : BufInv s) (hs : Shows s σ) (hr : (s.buf b).refcnt = 0) :
    Shows (s.recycle b key) σ := by
  obtain ⟨hlock, hpin⟩ := h.unlocked hr
  have hother : ∀ x, x ≠ b → (s.recycle b key).buf x = s.buf x := fun x hx => setBuf_ne hx
  have hinv : ((s.recycle b key).buf b).valid = false := congrArg Buf.valid setBuf_self
  have hne : ∀ x, ((s.recycle b key).buf x).valid = true → x ≠ b := by
    rintro x hx rfl
    rw [hinv] at hx
    cases hx
  refine ⟨fun x hx => ?_, fun k hk => ?_, fun x i hx hi => ?_, fun k hk => ?_⟩
  · have hxb := hne x hx
    rw [hother x hxb] at hx ⊢
    exact hs.cached x hx
  · change σ.current k = s.disk k
    by_cases hb : (s.buf b).valid = true ∧ (s.buf b).key = k
    · rw [← hb.2, hs.cached b hb.1]
      exact h.clean b hb.1 hlock hpin
    · refine hs.disk k fun x hx he => ?_
      by_cases hxb : x = b
      · rw [hxb] at hx he
        exact hb ⟨hx, he⟩
      · refine hk x ?_ ?_
        · rw [hother x hxb]
          exact hx
        · rw [hother x hxb]
          exact he
  · have hxb := hne x hx
    rw [hother x hxb] at hx hi ⊢
    exact hs.owner x i hx hi
  · refine hs.free k fun x hx hn => ?_
    have hxb : x ≠ b := by
      rintro rfl
      exact hn hlock
    rw [← hother x hxb] at hx hn ⊢
    exact hk x hx hn

/-- **What a step shows.** -/
theorem shows_step (h : BufInv s) (hs : Shows s σ) (hn : s.step a = some t) :
    ShowsStep (s.event a) t σ := by
  obtain ⟨l, hl⟩ := h.order
  cases step_inv hn with
  | hit hj hc =>
    unfold event
    dsimp only
    exact .silent (hs.refs rfl rfl)
  | @recycle j key b hj hc hu =>
    have hr : (s.buf b).refcnt = 0 := by
      rcases unused_cases hl with ⟨hno, -⟩ | ⟨l₁, b', l₂, -, hb', hr, -⟩
      · rw [hu] at hno
        cases hno
      · rw [hu] at hb'
        rw [Option.some.inj hb']
        exact hr
    have hrec : Shows (s.recycle b key) σ := shows_recycle h hs hr
    exact .silent ⟨hrec.cached, hrec.disk, hrec.owner, hrec.free⟩
  | @acquired j b hj hlk =>
    unfold event
    dsimp only
    rw [hj]
    dsimp only
    by_cases hv : (s.buf b).valid = true
    · rw [if_pos hv, if_pos hv]
      have htb : ((s.setLock b (some j)).goto j .kernel).buf b = { s.buf b with lock := some j } :=
        setBuf_self
      have hdata : (((s.setLock b (some j)).goto j .kernel).buf b).data = (s.buf b).data := by
        rw [htb]
      rw [← hdata]
      refine shows_take h hs (fun _ => hlk) ?_ (fun x hx => setBuf_ne hx) rfl ?_
      · rw [htb, ← hv]
      · rw [hdata]
        exact hs.cached b hv
    · rw [if_neg hv, if_neg hv]
      refine .silent (hs.silent ?_ ?_ ?_ ?_ fun _ _ => rfl)
      · exact buf_field (y := { s.buf b with lock := some j }) Buf.key rfl
      · exact buf_field (y := { s.buf b with lock := some j }) Buf.valid rfl
      · exact fun x _ => buf_field (y := { s.buf b with lock := some j }) Buf.data rfl x
      · intro x hx
        have hxb : x ≠ b := by
          rintro rfl
          exact hv hx
        exact congrArg Buf.lock (setBuf_ne hxb)
  | @loaded j b hj =>
    obtain ⟨hlk, hv⟩ := h.loading j b hj
    unfold event
    dsimp only
    rw [hj]
    dsimp only
    have htb : ((s.fill b).goto j .kernel).buf b =
        { s.buf b with data := s.disk (s.buf b).key, valid := true } := setBuf_self
    have hdata : (((s.fill b).goto j .kernel).buf b).data = s.disk (s.buf b).key := by rw [htb]
    have hinv : ¬(s.buf b).valid = true := by
      rw [hv]
      exact Bool.false_ne_true
    rw [← hdata]
    refine shows_take h hs (fun hv' => absurd hv' hinv) ?_ (fun x hx => setBuf_ne hx) rfl ?_
    · rw [htb, ← hlk]
    · rw [hdata]
      refine hs.disk _ fun x hx => h.key_ne hx ?_
      rintro rfl
      exact hinv hx
  | store hj hlk => exact shows_put h hs hj hlk _
  | @bwrite j b hj hlk =>
    have hv := h.held hj hlk
    exact .silent (hs.silent (fun _ => rfl) (fun _ => rfl) (fun _ _ => rfl) (fun _ _ => rfl)
      fun k hk => Function.update_of_ne (hk b hv).symm ..)
  | brelse hj hlk => exact shows_give h hs hj hlk rfl rfl
  | @released j b hj =>
    obtain ⟨hbuf, hdisk, -⟩ := dropRef_frame s b
    exact .silent (hs.refs hbuf hdisk)
  | bpin hj => exact .silent (hs.refs rfl rfl)
  | bunpin hj => exact .silent (hs.refs rfl rfl)

theorem inv_path {disk : BlockKey → Block} {tr : List BufLabel}
    (h : bufMachine.Path UsedWell (.binit disk) tr s) : BufInv s :=
  h.inv (P := BufInv) (fun _ _ _ hs hok hn => inv_step hs hok hn) (binit_inv disk)

end BufCache

open BufCache

variable {disk : BlockKey → Block} {tr : List BufLabel} {s t : BufCache}

/-- **The cache is one cell for each block**, owned by one process at a time: a run shows a run of
the cells, and in the end the cells are what the buffers and the disk hold. -/
theorem bufs_refine_cells (h : bufMachine.Path UsedWell (.binit disk) tr s) :
    ∃ σ, cellMachine.Path always ⟨disk, fun _ => none⟩
        (bufMachine.outputs BufCache.event (.binit disk) tr) σ ∧ Shows s σ := by
  induction h with
  | nil => exact ⟨_, Path.nil _, binit_shows disk⟩
  | @snoc u t tr a hp hok hn ih =>
    obtain ⟨σ, hσ, hs⟩ := ih
    obtain ⟨σ', hσ', hs'⟩ := shows_step (inv_path hp) hs hn
    refine ⟨σ', ?_, hs'⟩
    rw [outputs_snoc hp]
    exact hσ.trans hσ'

/-- Process 0 stores into a block and pins it; process 1 waits for it, gets it, and writes it. -/
def storeAndPin : List BufLabel :=
  [⟨0, .bread (1, 5)⟩, ⟨0, .acquired⟩, ⟨0, .loaded⟩, ⟨1, .bread (1, 5)⟩,
    ⟨0, .store 0 fun _ => 7⟩, ⟨0, .bpin 0⟩, ⟨0, .brelse 0⟩, ⟨1, .acquired⟩, ⟨0, .released⟩,
    ⟨1, .bwrite 0⟩, ⟨1, .bunpin 0⟩, ⟨1, .brelse 0⟩, ⟨1, .released⟩]

theorem bufs_refine_cells_storeAndPin :
    let s₀ := BufCache.binit fun _ => Block.zero
    ∃ σ, cellMachine.Path always ⟨fun _ => Block.zero, fun _ => none⟩
        (bufMachine.outputs BufCache.event s₀ storeAndPin) σ ∧
      Shows ((bufMachine.runOk UsedWell s₀ storeAndPin).getD s₀) σ :=
  bufs_refine_cells (pathOk_getD (by decide +kernel))

/-- The order of the buffers is the order in which they were given back. -/
theorem inOrder_path (h : bufMachine.Path UsedWell (.binit disk) tr s) :
    InOrder s ((bufMachine.outputs BufCache.idle (.binit disk) tr).foldl moveFront
      (List.finRange nbuf).reverse) := by
  induction h with
  | nil => exact inOrder_binit disk
  | @snoc u t tr a hp hok hn ih =>
    rw [outputs_snoc hp, List.foldl_append]
    cases step_inv hn with
    | @released j b hj =>
      have ho := dropRef_inOrder ih b
      unfold BufCache.idle
      dsimp only
      rw [hj]
      dsimp only
      by_cases h0 : (u.buf b).refcnt - 1 = 0
      · rw [if_pos h0] at ho ⊢
        exact ⟨ho.ring, ho.all⟩
      · rw [if_neg h0] at ho ⊢
        exact ⟨ho.ring, ho.all⟩
    | _ => exact ⟨ih.ring, ih.all⟩

/-- **The least recently used buffer**: behind the last time that the buffer `b` which `bget` gives
to another block was given back, every other buffer that is not in use has been given back. -/
theorem bget_least_recent (h : bufMachine.Path UsedWell (.binit disk) tr s) {b b' : BufIndex}
    (hb : s.unused = some b) (hb' : (s.buf b').refcnt = 0) (hne : b' ≠ b)
    {xs₁ xs₂ : List BufIndex}
    (hx : bufMachine.outputs BufCache.idle (.binit disk) tr = xs₁ ++ b :: xs₂) : b' ∈ xs₂ := by
  have ho := inOrder_path h
  by_contra hno
  have hbefore : [b, b'].Sublist
      ((xs₁ ++ b :: xs₂).foldl moveFront (List.finRange nbuf).reverse) :=
    foldl_moveFront_before (fun z _ => List.mem_reverse.2 (List.mem_finRange z))
      (List.mem_reverse.2 (List.mem_finRange b')) hne hno
  rw [← hx] at hbefore
  rcases unused_cases ho with ⟨hn, -⟩ | ⟨l₁, c, l₂, hl, hc, -, hused⟩
  · rw [hb] at hn
    cases hn
  · rw [hb] at hc
    obtain rfl := Option.some.inj hc
    rw [hl] at hbefore
    have hnd := ho.ring.nodup
    rw [hl] at hnd
    exact not_before_split hnd (fun hm => hused b' hm hb') hbefore

/-- Thirty processes wait for a block each. -/
def allWait : List BufLabel :=
  (List.finRange nbuf).map fun b => ⟨Fin.ofNat nproc b.val, .bread (1, b.val)⟩

/-- The first two get theirs and give them back. -/
def twoGivenBack : List BufLabel :=
  allWait ++ [⟨0, .acquired⟩, ⟨0, .loaded⟩, ⟨1, .acquired⟩, ⟨1, .loaded⟩, ⟨0, .brelse 0⟩,
    ⟨0, .released⟩, ⟨1, .brelse 1⟩, ⟨1, .released⟩]

/-- The next buffer is that of the first, and the second has been given back behind it. -/
theorem bget_least_recent_twoGivenBack :
    ((bufMachine.runOk UsedWell (.binit fun _ => Block.zero) twoGivenBack).getD
      (.binit fun _ => Block.zero)).unused = some 0 ∧
    ∀ xs₁ xs₂, bufMachine.outputs BufCache.idle (.binit fun _ => Block.zero) twoGivenBack =
      xs₁ ++ 0 :: xs₂ → 1 ∈ xs₂ := by
  have h : bufMachine.Path UsedWell (.binit fun _ => Block.zero) twoGivenBack _ :=
    pathOk_getD (d := .binit fun _ => Block.zero) (by decide +kernel)
  have hend : ((bufMachine.runOk UsedWell (.binit fun _ => Block.zero) twoGivenBack).getD
        (.binit fun _ => Block.zero)).unused = some 0 ∧
      (((bufMachine.runOk UsedWell (.binit fun _ => Block.zero) twoGivenBack).getD
        (.binit fun _ => Block.zero)).buf 1).refcnt = 0 := by decide +kernel
  exact ⟨hend.1, fun xs₁ xs₂ hidle => bget_least_recent h hend.1 hend.2 (by decide) hidle⟩

/-- **`bget` panics** if and only if the block is not cached and every buffer is in use: a process
waits for it, holds it or is about to drop it, or the log has pinned it. -/
theorem bread_panics_iff (h : bufMachine.Path UsedWell (.binit disk) tr s) {j : Slot}
    {key : BlockKey} (hj : s.calls j = .kernel) :
    s.step ⟨j, .bread key⟩ = none ↔ (∀ b, (s.buf b).key ≠ key) ∧
      ∀ b, (∃ i, s.calls i = .waiting b ∨ (s.buf b).lock = some i ∨ s.calls i = .releasing b) ∨
        s.Pinned b := by
  have hinv := inv_path h
  obtain ⟨l, hl⟩ := hinv.order
  have huse : ∀ b, (s.buf b).refcnt ≠ 0 ↔
      (∃ i, s.calls i = .waiting b ∨ (s.buf b).lock = some i ∨ s.calls i = .releasing b) ∨
        s.Pinned b := by
    intro b
    have hle := hinv.users b
    constructor
    · intro hr
      by_cases hp : s.Pinned b
      · exact Or.inr hp
      · left
        unfold Pinned at hp
        have hpos : 0 < s.users b := by omega
        unfold users at hpos
        by_cases hlk : (s.buf b).lock = none
        · rw [if_pos hlk, Nat.add_zero] at hpos
          obtain ⟨i, -, hi⟩ := Finset.exists_ne_zero_of_sum_ne_zero (Nat.pos_iff_ne_zero.1 hpos)
          refine ⟨i, ?_⟩
          unfold BufCall.uses at hi
          by_cases hc : s.calls i = .waiting b ∨ s.calls i = .releasing b
          · exact hc.imp_right Or.inr
          · rw [if_neg hc] at hi
            exact absurd rfl hi
        · obtain ⟨i, hi⟩ := Option.ne_none_iff_exists'.1 hlk
          exact ⟨i, Or.inr (Or.inl hi)⟩
    · rintro (⟨i, hi⟩ | hp)
      · rcases hi with hi | hi | hi
        · refine hinv.referenced (j := i) ?_
          rw [hi, uses_waiting, if_pos rfl]
          exact Nat.one_pos
        · have hp := users_pos_of_lock (s := s) (x := b) (by rw [hi]; exact Option.some_ne_none i)
          omega
        · refine hinv.referenced (j := i) ?_
          rw [hi, uses_releasing, if_pos rfl]
          exact Nat.one_pos
      · unfold Pinned at hp
        omega
  have hstep : s.step ⟨j, .bread key⟩ = none ↔ s.bget key = none := by
    unfold step
    dsimp only
    rw [hj]
    exact Option.map_eq_none_iff
  rw [hstep]
  unfold bget
  rcases cached_cases hl key with ⟨hc, hno⟩ | ⟨b, hc, hk⟩
  · rw [hc]
    dsimp only
    rcases unused_cases hl with ⟨hu, hall⟩ | ⟨l₁, b, l₂, -, hu, hr, -⟩
    · rw [hu]
      exact ⟨fun _ => ⟨hno, fun b => (huse b).1 (hall b)⟩, fun _ => rfl⟩
    · rw [hu]
      exact ⟨fun he => absurd he (Option.some_ne_none _), fun hh => absurd hr ((huse b).2 (hh.2 b))⟩
  · rw [hc]
    exact ⟨fun he => absurd he (Option.some_ne_none _), fun hh => absurd hk (hh.1 b)⟩

theorem bread_panics_iff_allWait :
    let s := (bufMachine.runOk UsedWell (.binit fun _ => Block.zero) allWait).getD
      (.binit fun _ => Block.zero)
    s.step ⟨30, .bread (1, 99)⟩ = none ↔ (∀ b, (s.buf b).key ≠ (1, 99)) ∧
      ∀ b, (∃ i, s.calls i = .waiting b ∨ (s.buf b).lock = some i ∨ s.calls i = .releasing b) ∨
        s.Pinned b :=
  bread_panics_iff (pathOk_getD (by decide +kernel)) (by decide +kernel)

end AgentOS
