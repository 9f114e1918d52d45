import AgentOS.Proof.BlockAlloc

/-!
# Files in blocks are lists of bytes

* `blocks_refine_bytes`: every run of new files, reads, writes, truncations and freed files on
  blocks answers what a run on lists of bytes answers, for writes whose sources end where the blocks
  or the pages end; and an operation panics only where there is no file.
* `blocks_in_one_file`: in every state reached, every data block is free or in one place of one
  inode, in memory and on the disk, and every file has the blocks of its bytes.
* `write_short_full`: a write whose source is there is short only when the disk is full.
-/

namespace AgentOS

open Machine

variable {sb : Superblock}

namespace BlockFs

variable {s t u : BlockFs sb} {i j : Fin sb.ninodes} {n off avail p : ℕ} {src : List UInt8}

/-! ### Steps -/

/-- `op'` is `op`, where less of a source may be there. -/
inductive Shorter : BlockOp sb → BlockOp sb → Prop
  | same (op : BlockOp sb) : Shorter op op
  | write {i : Fin sb.ninodes} {off avail avail' : ℕ} {src : List UInt8} (h : avail' ≤ avail) :
    Shorter (.write i off src avail) (.write i off src avail')

/-- What an operation on sound files leaves and answers. -/
structure Stepped (op : BlockOp sb) (s t : BlockFs sb) (a : BlockAnswer) : Prop where
  sound : t.Sound
  clean : op.Whole → s.Clean → t.Clean
  refines : s.Clean → ∃ op', Shorter op op' ∧ s.contents.step op' = some (t.contents, a)

/-- It panics, where there is no file, or does what the operation on lists of bytes does. -/
def Refines (op : BlockOp sb) (s : BlockFs sb) : Prop :=
  s.step op = none ∧ s.contents.step op = none ∨ ∃ t a, s.step op = some (t, a) ∧ Stepped op s t a

theorem load_refines (h : s.Sound) (i : Fin sb.ninodes) : Refines (.load i) s := by
  have hs : (s.setValid i false).Sound := setValid_sound h fun he => absurd he Bool.false_ne_true
  unfold Refines step FileBytes.step
  dsimp only
  rcases ilock_cases hs i with ⟨ht, hl⟩ | ⟨ht, hl, hsound⟩
  · left
    rw [hl]
    exact ⟨rfl, congrArg (Option.map _) (contents_none ht)⟩
  · right
    rw [hl]
    refine ⟨_, _, rfl, hsound, fun _ hc => hc, fun _ => ⟨_, Shorter.same _, ?_⟩⟩
    exact congrArg (Option.map _) (contents_some ht)

theorem read_refines (h : s.Sound) (i : Fin sb.ninodes) (avail : ℕ) (hoff : off < 2 ^ 32)
    (hn : n < 2 ^ 32) : Refines (.read i off n avail) s := by
  unfold Refines step FileBytes.step
  dsimp only
  rcases ilock_cases h i with ⟨ht, hl⟩ | ⟨ht, hl, hsound⟩
  · left
    rw [hl, contents_none ht]
    exact ⟨rfl, rfl⟩
  · right
    rw [hl, Option.bind_some, readi_spec hsound hoff hn, Option.map_some]
    refine ⟨_, _, rfl, hsound, fun _ hc => hc, fun _ => ⟨_, Shorter.same _, ?_⟩⟩
    exact congrArg (Option.map _) (contents_some ht)

theorem write_refines (h : s.Sound) (L : sb.Layout) (i : Fin sb.ninodes) (avail : ℕ)
    (hoff : off < 2 ^ 32) (hlen : src.length < 2 ^ 32) : Refines (.write i off src avail) s := by
  unfold Refines step
  dsimp only
  rcases ilock_cases h i with ⟨ht, hl⟩ | ⟨ht, hl, hsound⟩
  · left
    rw [hl]
    exact ⟨rfl, congrArg (Option.map _) (contents_none ht)⟩
  · right
    obtain ⟨t, r, avail', hw, hf⟩ := writei_spec i avail hsound L hoff hlen
    rw [hl, Option.bind_some, hw, Option.map_some]
    have htype : (t.inode i).type ≠ 0 := by
      rw [hf.type]
      exact ht
    refine ⟨t, _, rfl, hf.changed.sound hsound (fun h0 => absurd h0 htype) (fun _ => htype) hf.torn,
      hf.clean, fun _ => ⟨.write i off src avail', Shorter.write hf.le, ?_⟩⟩
    rw [hf.changed.contents hsound, contents_some htype, hf.content, hf.answer]
    exact congrArg (Option.map _) (contents_some ht)

theorem trunc_refines (h : s.Sound) (L : sb.Layout) (i : Fin sb.ninodes) :
    Refines (.trunc i) s := by
  unfold Refines step FileBytes.step
  dsimp only
  rcases ilock_cases h i with ⟨ht, hl⟩ | ⟨ht, hl, hsound⟩
  · left
    rw [hl, contents_none ht]
    exact ⟨rfl, rfl⟩
  · right
    obtain ⟨t, htr, hs⟩ := itrunc_spec hsound.mapped L i
    have hchanged := itrunc_changed hsound hs
    have htype : (t.inode i).type ≠ 0 := by
      rw [hs.inode]
      exact ht
    have hnil : t.content i = [] := by
      unfold content
      rw [hs.inode]
      rfl
    rw [hl, Option.bind_some, htr, Option.map_some]
    refine ⟨t, _, rfl, hchanged.sound hsound (fun h0 => absurd h0 htype) (fun _ => htype)
      (hsound.torn.logs L hs.logs), fun _ hc b hb => hc b (hs.logs.torn b hb),
      fun _ => ⟨_, Shorter.same _, ?_⟩⟩
    rw [hchanged.contents hsound, contents_some htype, hnil]
    exact congrArg (Option.map _) (contents_some ht)

theorem free_refines (h : s.Sound) (L : sb.Layout) (i : Fin sb.ninodes) :
    Refines (.free i) s := by
  unfold Refines step FileBytes.step
  dsimp only
  rcases ilock_cases h i with ⟨ht, hl⟩ | ⟨ht, hl, hsound⟩
  · left
    rw [hl, contents_none ht]
    exact ⟨rfl, rfl⟩
  · right
    obtain ⟨t, hfr, hchanged, hin, hval, htorn, hclean⟩ := ifree_spec hsound L i
    rw [hl, Option.bind_some, hfr, Option.map_some]
    refine ⟨t, _, rfl, hchanged.sound hsound (fun _ => hin) (fun hv => ?_) htorn,
      fun _ => hclean, fun _ => ⟨_, Shorter.same _, ?_⟩⟩
    · rw [hval] at hv
      exact absurd hv Bool.false_ne_true
    · rw [hchanged.contents hsound, contents_none (by rw [hin])]
      exact congrArg (Option.map _) (contents_some ht)

/-- **One operation** on blocks is one on lists of bytes. -/
theorem step_refines (h : s.Sound) (L : sb.Layout) {op : BlockOp sb} (hop : op.Uints) :
    Refines op s := by
  cases op with
  | create type =>
    obtain ⟨t, n, ht, hsound, hclean, hlist⟩ := create_spec h L hop
    refine Or.inr ⟨t, ⟨[], n⟩, ?_, hsound, fun _ => hclean, fun _ => ⟨_, Shorter.same _, ?_⟩⟩
    · exact congrArg (Option.map _) ht
    · unfold FileBytes.step
      rw [hlist]
  | load i => exact load_refines h i
  | read i off n avail => exact read_refines h i avail hop.1 hop.2
  | write i off src avail => exact write_refines h L i avail hop.1 hop.2
  | trunc i => exact trunc_refines h L i
  | free i => exact free_refines h L i
  | recycle b =>
    refine Or.inr ⟨_, _, rfl, recycle_sound h L b, fun _ hc => ?_,
      fun hc => ⟨_, Shorter.same _, ?_⟩⟩
    · rw [hc.recycle b]
      exact hc
    · rw [hc.recycle b]
      rfl
  | commit b =>
    obtain ⟨hsound, hcontents⟩ := commit_sound h L b
    refine Or.inr ⟨_, _, rfl, hsound, fun _ hc a ha => hc a (torn_setBlock ha).1,
      fun _ => ⟨_, Shorter.same _, ?_⟩⟩
    rw [hcontents]
    rfl

theorem next_step {l : BlockLabel sb} (h : (blockMachine sb).next s l = some t) :
    s.step l.op = some (t, l.answer) := by
  obtain ⟨⟨u, a⟩, hu, he⟩ := Option.bind_eq_some_iff.1 h
  dsimp only at he
  by_cases ha : a = l.answer
  · rw [if_pos ha] at he
    rw [hu, ha, Option.some.inj he]
  · rw [if_neg ha] at he
    cases he

theorem stepped_of_next (h : s.Sound) (L : sb.Layout) {l : BlockLabel sb} (hop : l.op.Uints)
    (hn : (blockMachine sb).next s l = some t) : Stepped l.op s t l.answer := by
  have hstep := next_step hn
  rcases step_refines h L hop with ⟨hnone, -⟩ | ⟨u, a, hsome, hst⟩
  · rw [hnone] at hstep
    cases hstep
  · rw [hsome] at hstep
    obtain ⟨rfl, rfl⟩ := Prod.mk.inj (Option.some.inj hstep)
    exact hst

theorem sound_path (h : s.Sound) (L : sb.Layout) {tr : List (BlockLabel sb)}
    (hp : (blockMachine sb).Path (fun _ l => l.op.Uints) s tr t) : t.Sound := by
  refine hp.inv (P := Sound) (fun s l t hs hl hn => ?_) h
  exact (stepped_of_next hs L hl hn).sound

/-- The operations of a run on lists of bytes: lengths are `uint`, and no block is torn. -/
def BytesOp (_ : BlockFs sb) (l : BlockLabel sb) : Prop := l.op.Uints ∧ l.op.Whole

theorem clean_path (h : s.Sound) (hc : s.Clean) (L : sb.Layout) {tr : List (BlockLabel sb)}
    (hp : (blockMachine sb).Path BytesOp s tr t) : t.Sound ∧ t.Clean := by
  refine hp.inv (P := fun s => s.Sound ∧ s.Clean) (fun s l t hs hl hn => ?_) ⟨h, hc⟩
  have hstep := stepped_of_next hs.1 L hl.1 hn
  exact ⟨hstep.sound, hstep.clean hl.2 hs.2⟩

/-! ### Runs -/

theorem shorter_isSome {op op' : BlockOp sb} (h : Shorter op op') {c : FileBytes sb} :
    (c.step op').isSome = (c.step op).isSome := by
  cases h with
  | same => rfl
  | write => exact (Option.isSome_map ..).trans (Option.isSome_map ..).symm

/-- The label of the list machine for a label of the block machine. -/
def ShorterLabel (l l' : BlockLabel sb) : Prop := Shorter l.op l'.op ∧ l'.answer = l.answer

end BlockFs

open BlockFs

variable {s₀ s t : BlockFs sb} {tr : List (BlockLabel sb)}

/-- **No block is in two files, and none is lost**: a data block in use is in one place of one
inode, in memory and on the disk, and what an inode names is in use; a file has the blocks of its
bytes; and the blocks before the data stay in use. -/
theorem blocks_in_one_file (L : sb.Layout) (h₀ : s₀.Sound)
    (h : (blockMachine sb).Path (fun _ l => l.op.Uints) s₀ tr s) :
    (∀ b, sb.Data b → s.bit b = true → ∃! c, s.ptr c = b) ∧
    (∀ c, s.ptr c ≠ 0 → sb.Data (s.ptr c) ∧ s.bit (s.ptr c) = true) ∧
    (∀ i p, p < (s.inode i).size → s.ptr (i, .data (p / bsize)) ≠ 0) ∧
    (∀ i, s.dinode i = s.inode i) ∧
    ∀ b, b < sb.datastart → s.bit b = true := by
  have hs := sound_path h₀ L h
  refine ⟨fun b hd hbit => hs.mapped.owned.unique ⟨hd, hbit⟩, fun c hc => hs.mapped.used hc,
    hs.backed, hs.synced, hs.mapped.inUse⟩

/-- **A write is short only when the disk is full**, if its source is there: then every data block
is in a file. -/
theorem write_short_full (L : sb.Layout) (h₀ : s₀.Sound)
    (h : (blockMachine sb).Path (fun _ l => l.op.Uints) s₀ tr s) {i : Fin sb.ninodes}
    {off avail : ℕ} {src : List UInt8} {r : ℤ} (hoff : off < 2 ^ 32) (hlen : src.length < 2 ^ 32)
    (hsrc : src.length ≤ avail) (hw : s.writei i off src avail = some (t, r)) (hr : 0 ≤ r)
    (hshort : r < src.length) : ∀ b, sb.Data b → ∃! c, t.ptr c = b := by
  intro b hb
  obtain ⟨t', r', avail', hw', hf⟩ := writei_spec i avail
    (sound_path h₀ L h) L hoff hlen
  obtain ⟨rfl, rfl⟩ := Prod.mk.inj (Option.some.inj (hw.symm.trans hw'))
  exact hf.changed.mapped.owned.unique ⟨hb, hf.full hsrc hr hshort b hb.2⟩

theorem some_getD_snd {α : Type*} {x : Option (α × ℤ)} {d : α × ℤ} {r : ℤ}
    (h : x.map Prod.snd = some r) : x = some ((x.getD d).1, r) := by
  obtain ⟨p, hp, hr⟩ := Option.map_eq_some_iff.1 h
  rw [hp, ← hr]
  rfl

/-! ### A disk without files -/

theorem ones_and (m : Fin 9) (j : Fin 8) :
    (UInt8.ofNat (2 ^ m.val - 1) &&& 1 <<< UInt8.ofNat j != 0) = decide (j.val < m.val) := by
  revert m j
  decide +kernel

theorem fresh_bit {b : ℕ} (hb : b < sb.size) :
    (BlockFs.fresh sb).bit b = decide (b < sb.datastart) := by
  have hge := bblock_ge sb b
  have hlt := bblock_lt hb
  have hbpb : bpb = 8192 := rfl
  change (freshByte sb (sb.bblock b) (bmapByte b) &&& bmapMask b != 0) = _
  unfold freshByte bmapMask
  rw [if_pos ⟨hge, hlt⟩]
  have hm := ones_and (Fin.ofNat 9 (min 8 (sb.datastart -
    ((sb.bblock b - sb.bmapstart) * bpb + 8 * (bmapByte b).val)))) (Fin.ofNat 8 (b % bpb % 8))
  rw [Fin.val_ofNat, Fin.val_ofNat, Nat.mod_mod,
    Nat.mod_eq_of_lt (a := min 8 _) (b := 9) (by omega)] at hm
  rw [hm, decide_eq_decide]
  have hv : (bmapByte b).val = b % bpb / 8 % (4 * 256) := Fin.val_ofNat ..
  have hq : sb.bblock b - sb.bmapstart = b / bpb := Nat.add_sub_cancel ..
  rw [hv, hq, hbpb]
  omega

theorem fresh_ptr (c : Fin sb.ninodes × BlockSlot) : (BlockFs.fresh sb).ptr c = 0 :=
  ptr_of_addrs (fun _ => rfl) c.2

theorem fresh_sound (L : sb.Layout) : (BlockFs.fresh sb).Sound := by
  refine ⟨⟨⟨?_, ?_, ?_, ?_⟩, ?_⟩, ?_, ?_, ?_, fun _ _ => rfl, fun _ hv => absurd hv Bool.false_ne_true,
    fun _ hb => absurd rfl hb⟩
  · exact fun c hc => absurd (fresh_ptr c) hc
  · exact fun c _ hc => absurd (fresh_ptr c) hc
  · rintro b ⟨hd, hbit⟩
    rw [fresh_bit hd.2, decide_eq_true_eq] at hbit
    exact absurd hd.1 (Nat.not_le_of_lt hbit)
  · rintro ⟨hd, -⟩
    exact hd.pos L rfl
  · intro b hb
    rw [fresh_bit (lt_of_lt_of_le hb L.data)]
    exact decide_eq_true hb
  · intro i
    have hz : (BlockFs.fresh sb).block (sb.iblock i) = Block.zero := by
      funext j
      exact if_neg fun hc => absurd hc.1 (Nat.not_le_of_lt (iblock_lt L i))
    unfold BlockFs.dinode
    rw [hz]
    exact BlockInode.ext rfl rfl (funext fun k => rfl)
  · exact fun i p hp => absurd hp (Nat.not_lt_zero p)
  · exact fun i => Nat.zero_le _

theorem fresh_clean : (BlockFs.fresh sb).Clean := fun _ hb => hb rfl

/-- A file is created, written, read, truncated, read again and freed. -/
def writeReadTrunc : List (BlockLabel .mkfs) :=
  [⟨.create 2, ⟨[], 1⟩⟩,
    ⟨.write (Fin.ofNat 300 1) 0 [1, 2, 3] 3, ⟨[], 3⟩⟩,
    ⟨.load (Fin.ofNat 300 1), ⟨[], 0⟩⟩,
    ⟨.read (Fin.ofNat 300 1) 1 9 9, ⟨[2, 3], 2⟩⟩,
    ⟨.trunc (Fin.ofNat 300 1), ⟨[], 0⟩⟩,
    ⟨.read (Fin.ofNat 300 1) 0 9 9, ⟨[], 0⟩⟩,
    ⟨.free (Fin.ofNat 300 1), ⟨[], 0⟩⟩]

instance decidableBytesOp (s : BlockFs sb) (l : BlockLabel sb) : Decidable (BytesOp s l) :=
  inferInstanceAs (Decidable (l.op.Uints ∧ l.op.Whole))

theorem blocks_in_one_file_writeReadTrunc :
    let s := ((blockMachine .mkfs).runOk (fun _ l => l.op.Uints) (.fresh .mkfs)
      (writeReadTrunc.take 4)).getD (.fresh .mkfs)
    (∀ b, Superblock.mkfs.Data b → s.bit b = true → ∃! c, s.ptr c = b) ∧
    (∀ c, s.ptr c ≠ 0 → Superblock.mkfs.Data (s.ptr c) ∧ s.bit (s.ptr c) = true) ∧
    (∀ i p, p < (s.inode i).size → s.ptr (i, .data (p / bsize)) ≠ 0) ∧
    (∀ i, s.dinode i = s.inode i) ∧
    ∀ b, b < Superblock.mkfs.datastart → s.bit b = true :=
  blocks_in_one_file mkfs_layout (fresh_sound mkfs_layout) (pathOk_getD (by decide +kernel))

/-- A disk with one data block. -/
def oneBlock : Superblock := ⟨0x10203040, 6, 1, 4, 0, 2, 2, 4⟩

/-- The file `i` takes the block, and gives it back. -/
def takeGive (i : Fin oneBlock.ninodes) : List (BlockLabel oneBlock) :=
  [⟨.create 2, ⟨[], 1⟩⟩, ⟨.write i 0 [1, 2, 3] 3, ⟨[], 3⟩⟩, ⟨.trunc i, ⟨[], 0⟩⟩]

theorem write_short_full_oneBlock :
    let s := ((blockMachine oneBlock).runOk (fun _ l => l.op.Uints) (.fresh oneBlock)
      (takeGive (Fin.ofNat 4 1))).getD (.fresh oneBlock)
    ∃! c, ((s.writei (Fin.ofNat 4 1) 0 (List.replicate 1025 1) 1025).getD (s, 0)).1.ptr c = 5 :=
  have L : oneBlock.Layout := ⟨by decide, by decide, by decide⟩
  write_short_full (r := 1024) L (fresh_sound L) (pathOk_getD (by decide +kernel)) (by decide)
    (by decide +kernel) (le_of_eq List.length_replicate) (some_getD_snd (by decide +kernel))
    (by decide) (by decide +kernel) 5 ⟨by decide, by decide⟩

end AgentOS
