import AgentOS.Model.Header
import AgentOS.Proof.Context
import AgentOS.Proof.PushFailure

/-!
# The published header agrees with the PCB

* `fromLittleEndian_littleEndian`, `headerField_written`: the header is read back.
* `syncHeader_agrees`: `agent_sync_header` brings both sides in step; `push_agrees`,
  `rollback_agrees`, `clear_agrees`, `mark_agrees`: each call ends with it.
* **`header_agrees`**: in every run where no Agent forks with something in its Context, and no copy
  goes over its header; `fork_disagrees`: the child has a header that counts the nodes of its
  parent.
-/

namespace AgentOS

open Slice Machine

/-! ### The header is read back -/

section

variable {c c' : ContextState} {m m' : Memory} {start i n v w va : ℕ} {bytes : List UInt8}

theorem fromLittleEndian_littleEndian (w v : ℕ) :
    fromLittleEndian (littleEndian w v) = v % 256 ^ w := by
  induction w with
  | zero => simp [littleEndian, fromLittleEndian, Nat.mod_one]
  | succ w ih =>
    have hsnoc : littleEndian (w + 1) v = littleEndian w v ++ [UInt8.ofNat (v / 256 ^ w)] := by
      simp [littleEndian, List.range_succ]
    have hlen : (littleEndian w v).length = w := by simp [littleEndian]
    unfold fromLittleEndian at ih ⊢
    rw [hsnoc, List.map_append, Nat.ofDigits_append, ih, List.length_map, hlen, Nat.mod_pow_succ]
    simp

/-- The `i`-th of a list of `uint64`. -/
theorem take_flatMap_littleEndian (l : List ℕ) (hi : i < l.length) :
    ((l.flatMap (littleEndian 8)).drop (8 * i)).take 8 = littleEndian 8 l[i] := by
  have hlen : ∀ v, (littleEndian 8 v).length = 8 := fun v => by simp [littleEndian]
  induction l generalizing i with
  | nil => exact absurd hi (Nat.not_lt_zero i)
  | cons v l ih =>
    rw [List.flatMap_cons]
    cases i with
    | zero => simp [hlen]
    | succ i =>
      have hskip : 8 * (i + 1) = (littleEndian 8 v).length + 8 * i := by
        rw [hlen]
        omega
      rw [hskip, List.drop_length_add_append, ih (by simpa using hi)]
      rfl

/-- The `uint64` fields of a header, in order. -/
def AgentContextHeader.words (h : AgentContextHeader) : List ℕ :=
  [h.regionSize, h.pathOffset, h.pathLength, h.nodeCount, h.droppedNodes, h.generation,
    h.firstSequence, h.nextSequence, h.lastResultLen, h.lastTimestamp]

theorem header_words (h : AgentContextHeader) (hi : i < h.words.length) :
    (h.bytes.drop (4 * 4 + 8 * i)).take 8 = littleEndian 8 h.words[i] := by
  have hlen : ∀ w v, (littleEndian w v).length = w := fun w v => by simp [littleEndian]
  have hten : h.words.length = 10 := rfl
  have hwords : (h.words.flatMap (littleEndian 8)).length = 80 := by
    simp [AgentContextHeader.words, hlen]
  have hbytes : h.bytes = ([h.magic, h.version, h.headerSize, h.nodeSize].flatMap (littleEndian 4)) ++
      (h.words.flatMap (littleEndian 8) ++
        (padded [] agentToolNameMax ++ padded h.lastResult agentToolResultMax)) := by
    simp only [AgentContextHeader.bytes, AgentContextHeader.words, List.append_assoc]
  have hskip : 4 * 4 + 8 * i =
      ([h.magic, h.version, h.headerSize, h.nodeSize].flatMap (littleEndian 4)).length + 8 * i := by
    simp [hlen]
  rw [hbytes, hskip, List.drop_length_add_append, List.drop_append_of_le_length (by omega),
    List.take_append_of_le_length (by rw [List.length_drop]; omega), take_flatMap_littleEndian]

/-- **A written header is read back.** -/
theorem headerField_written (h : AgentContextHeader) (hm : m'.byte = write m.byte start h.bytes)
    (hi : i < h.words.length) : headerField m' start i = h.words[i] % 2 ^ 64 := by
  have hlen := header_length h
  have hten : h.words.length = 10 := rfl
  have hread : slice m'.byte (start + (4 * 4 + 8 * i)) 8 = littleEndian 8 h.words[i] := by
    rw [← header_words h hi]
    have hself : slice m'.byte start h.bytes.length = h.bytes := by
      rw [hm]
      exact slice_write_self
    rw [hlen] at hself
    unfold sizeofContextHeader at hself
    rw [← hself, slice_drop (by omega), slice_take (by omega)]
  unfold headerField
  rw [hread, fromLittleEndian_littleEndian]
  norm_num

/-- A header of the counts of the PCB. -/
theorem agrees_written (h : AgentContextHeader)
    (hm : m'.byte = write m.byte c.contextRegionStart h.bytes) (hg : h.generation % 2 = 0)
    (hp : h.pathLength = c.contextPathLen) (hc : h.nodeCount = c.contextNodeCount)
    (hd : h.droppedNodes = c.contextDroppedNodes) (hf : h.firstSequence = c.contextFirstSequence)
    (hn : h.nextSequence = c.contextNextSequence) : HeaderAgrees c m' := by
  have hten : h.words.length = 10 := rfl
  have hread : ∀ i (hi : i < h.words.length),
      headerField m' c.contextRegionStart i = h.words[i] % 2 ^ 64 :=
    fun i hi => headerField_written h hm hi
  refine ⟨?_, ?_, ?_, ?_, ?_, ?_⟩
  · rw [hread 5 (by omega)]
    change h.generation % 2 ^ 64 % 2 = 0
    omega
  · rw [hread 2 (by omega), ← hp]
    rfl
  · rw [hread 3 (by omega), ← hc]
    rfl
  · rw [hread 4 (by omega), ← hd]
    rfl
  · rw [hread 6 (by omega), ← hf]
    rfl
  · rw [hread 7 (by omega), ← hn]
    rfl

/-- The fields of the header that matter lie in these bytes. -/
theorem headerField_congr (h : ∀ o k, start + 32 ≤ o → o + k ≤ start + 80 →
      slice m'.byte o k = slice m.byte o k) (h2 : 2 ≤ i) (h7 : i ≤ 7) :
    headerField m' start i = headerField m start i := by
  unfold headerField
  rw [h _ _ (by omega) (by omega)]

/-- **The counts of the PCB and the bytes of the header** are all that matters. -/
theorem HeaderAgrees.congr (h : HeaderAgrees c m)
    (hs : c'.contextRegionStart = c.contextRegionStart)
    (hp : c'.contextPathLen = c.contextPathLen) (hc : c'.contextNodeCount = c.contextNodeCount)
    (hd : c'.contextDroppedNodes = c.contextDroppedNodes)
    (hf : c'.contextFirstSequence = c.contextFirstSequence)
    (hn : c'.contextNextSequence = c.contextNextSequence)
    (hm : ∀ o k, c.contextRegionStart + 32 ≤ o → o + k ≤ c.contextRegionStart + 80 →
      slice m'.byte o k = slice m.byte o k) : HeaderAgrees c' m' := by
  have hread : ∀ i, 2 ≤ i → i ≤ 7 → headerField m' c'.contextRegionStart i =
      headerField m c.contextRegionStart i := by
    intro i h2 h7
    rw [hs]
    exact headerField_congr hm h2 h7
  refine ⟨?_, ?_, ?_, ?_, ?_, ?_⟩
  · rw [hread 5 (by omega) (by omega)]
    exact h.generation
  · rw [hread 2 (by omega) (by omega), hp]
    exact h.pathLength
  · rw [hread 3 (by omega) (by omega), hc]
    exact h.nodeCount
  · rw [hread 4 (by omega) (by omega), hd]
    exact h.droppedNodes
  · rw [hread 6 (by omega) (by omega), hf]
    exact h.firstSequence
  · rw [hread 7 (by omega) (by omega), hn]
    exact h.nextSequence

end

/-! ### The calls -/

section

variable {c c' c₂ : ContextState} {m m' m₂ : Memory} {node : AgentContextNode} {now k n va : ℕ}
  {bytes : List UInt8} {p : Proc} {a : MarkArgs}

/-- A region is mapped, and its header agrees. -/
def Shown (c : ContextState) (m : Memory) : Prop :=
  c.contextRegionStart ≠ 0 → ContextRun.RegionMapped c m ∧ HeaderAgrees c m

theorem Shown.inRegion (h : Shown c m) (h0 : c.contextRegionStart ≠ 0) : InRegion c m :=
  ⟨h0, (h h0).1⟩

theorem fillLast_fields (c : ContextState) (m : Memory) (h : AgentContextHeader) :
    let h' := c.fillLast m h
    h'.pathLength = h.pathLength ∧ h'.nodeCount = h.nodeCount ∧
      h'.droppedNodes = h.droppedNodes ∧ h'.generation = h.generation ∧
      h'.firstSequence = h.firstSequence ∧ h'.nextSequence = h.nextSequence := by
  unfold ContextState.fillLast
  dsimp only
  split
  · split <;> exact ⟨rfl, rfl, rfl, rfl, rfl, rfl⟩
  · exact ⟨rfl, rfl, rfl, rfl, rfl, rfl⟩

/-- **`agent_sync_header`** brings header and PCB in step. -/
theorem syncHeader_agrees (hr : InRegion c m) (now : ℕ) :
    HeaderAgrees (c.syncHeader m now).1 (c.syncHeader m now).2.1 := by
  obtain ⟨c', hc'⟩ : ∃ c', c' = (c.syncHeader m now).1 := ⟨_, rfl⟩
  have hfields := fillLast_fields c' m (c'.buildHeader now)
  obtain ⟨h, hh⟩ : ∃ h, h = c'.fillLast m (c'.buildHeader now) := ⟨_, rfl⟩
  rw [← hh] at hfields
  obtain ⟨hp, hn, hd, hg, hf, hx⟩ := hfields
  have heven : c'.contextGeneration % 2 = 0 := by
    rw [hc']
    change (if c.contextGeneration % 2 = 1 then (c.contextGeneration + 1) % 2 ^ 64
      else (c.contextGeneration + 2) % 2 ^ 64) % 2 = 0
    split <;> omega
  have hstart : c'.contextRegionStart = c.contextRegionStart := by
    rw [hc']
    rfl
  have hw : Writable m c'.contextRegionStart h.bytes.length := by
    rw [hstart, header_length]
    refine hr.writable le_rfl ?_
    unfold sizeofContextHeader agentContextRegionSize
    omega
  have hmem : (c.syncHeader m now).2.1 = (c'.writeHeader m h).1 := by
    rw [hc', hh, hc']
    rfl
  have hne : c'.contextRegionStart ≠ 0 := hstart ▸ hr.start
  have hbyte : (c'.writeHeader m h).1.byte = write m.byte c'.contextRegionStart h.bytes := by
    unfold ContextState.writeHeader
    rw [if_neg hne, copyout_of hw]
  rw [← hc', hmem]
  exact agrees_written h hbyte (by rw [hg]; exact heven) hp hn hd hf hx

/-- A header that is brought in step, in a region that stays where it is. -/
theorem shown_synced (hsame : SameRegion c c₂ m m₂) (hr : InRegion c m) (now : ℕ) :
    Shown (c₂.syncHeader m₂ now).1 (c₂.syncHeader m₂ now).2.1 := by
  have hr₂ := hsame.inRegion hr
  exact fun _ => ⟨((synced_syncHeader c₂ m₂ now).same.inRegion hr₂).mapped, syncHeader_agrees hr₂ now⟩

theorem shown_none (h : c.contextRegionStart = 0) : Shown c m := fun h0 => absurd h h0

/-- A clear of a region ends in `agent_sync_header`. -/
theorem clear_synced (c : ContextState) (m : Memory) (now : ℕ)
    (h : ¬ (c.contextRegionStart = 0 ∨ c.contextRegionSize = 0)) :
    ∃ (c₁ : ContextState) (m₁ : Memory), c.agentContextClear m now =
      ((c₁.syncHeader m₁ now).1, (c₁.syncHeader m₁ now).2.1) := by
  unfold ContextState.agentContextClear
  obtain ⟨r, hr⟩ : ∃ r, r = (if c.contextRegionStart ≠ 0 then c.writeBegin m now
      else (c, m, true)) := ⟨_, rfl⟩
  have hs : r.1.contextRegionStart = c.contextRegionStart ∧
      r.1.contextRegionSize = c.contextRegionSize := by
    rw [hr]
    split <;> exact ⟨rfl, rfl⟩
  rw [← hr]
  dsimp only
  rw [hs.1, hs.2, if_neg h]
  exact ⟨_, _, rfl⟩

/-- **A clear.** -/
theorem clear_shown (hr : c.contextRegionStart ≠ 0 → ContextRun.RegionMapped c m) (now : ℕ) :
    Shown (c.agentContextClear m now).1 (c.agentContextClear m now).2 := by
  obtain ⟨hsame, -⟩ := clear_spec c m now
  by_cases h0 : c.contextRegionStart = 0
  · exact shown_none (hsame.start.trans h0)
  have hin : InRegion c m := ⟨h0, hr h0⟩
  have hsize : c.contextRegionSize ≠ 0 := by
    rw [hin.mapped.2.1]
    decide
  obtain ⟨c₁, m₁, hclear⟩ := clear_synced c m now (not_or.2 ⟨h0, hsize⟩)
  have hsync := (synced_syncHeader c₁ m₁ now).same
  rw [hclear] at hsame ⊢
  have hback : SameRegion c c₁ m m₁ :=
    ⟨hsync.start.symm.trans hsame.start, hsync.size.symm.trans hsame.size,
      hsync.quota.symm.trans hsame.quota, hsync.user.symm.trans hsame.user,
      hsync.writable.symm.trans hsame.writable⟩
  exact shown_synced hback hin now

/-- **A push** finds its place in a mapped region. -/
theorem push_shown (h : Shown c m) {r : ℤ}
    (hpush : c.agentContextPushNode m node now = some (c', m', r)) : Shown c' m' := by
  by_cases h0 : c.contextRegionStart = 0
  · have hs := (push_cases hpush).region.start
    exact shown_none (hs.trans h0)
  have hin := h.inRegion h0
  cases htakes : c.takesNumber m node now with
  | false =>
    obtain rfl := push_unnumbered_mem hin.mapped.1 htakes hpush
    obtain ⟨c₂, m₂, hpush', hsync⟩ := push_unnumbered htakes
    rw [hpush] at hpush'
    obtain ⟨rfl, rfl, -⟩ : c' = c₂ ∧ m' = m₂ ∧ r = -1 := by simpa using hpush'
    obtain ⟨g, rfl⟩ := hsync.ctx
    exact fun _ => ⟨(h h0).1, (h h0).2.congr rfl rfl rfl rfl rfl rfl fun _ _ _ _ => rfl⟩
  | true =>
    obtain ⟨-, hfit, -⟩ := takesNumber_iff.1 htakes
    obtain ⟨c₂, m₂, hloop, ⟨k, -, -, hx⟩, hcopy⟩ := push_taken htakes
    have hcap := hin.capacity
    have hw : Writable m (c.agentPathBase + c₂.contextPathLen) (pushText c node).length := by
      refine hin.path (Nat.le_add_right _ _) ?_
      rcases hx with ⟨⟨-, hroom⟩, hx⟩ | ⟨-, -, hx⟩
      · omega
      · omega
    rw [push_numbered htakes, show ContextState.evictLoop _ _ _ _ = some (c₂, m₂) from hloop,
      Option.map_some] at hpush
    dsimp only at hpush
    rw [if_neg (by rw [hcopy.2 hw]; decide)] at hpush
    simp only [Option.some.injEq, Prod.mk.injEq] at hpush
    obtain ⟨rfl, rfl, -⟩ := hpush
    have hsame := (((numbered_kept c m now).1.trans (evictLoop_kept hloop).region).trans
      (recordCopy_region c node c₂ m₂)).trans (appendNode_region c₂ _ c.contextNextSequence
        (pushText c node).length (c.pendingDep c.contextNextSequence) node)
    exact shown_synced hsame hin now

/-- **A rollback.** -/
theorem rollback_shown (h : Shown c m) (k now : ℕ) :
    Shown (c.agentContextRollback m k now).1 (c.agentContextRollback m k now).2.1 := by
  by_cases h0 : c.contextRegionStart = 0
  · exact shown_none ((rollback_region c m k now).start.trans h0)
  have hin := h.inRegion h0
  by_cases hk : c.contextNodeCount < k
  · rw [rollback_refused hk]
    exact h
  by_cases hz : k = 0
  · subst hz
    rw [rollback_zero]
    exact clear_shown (fun h0 => (h h0).1) now
  obtain ⟨hbegin, hopen⟩ := writeBegin_of hin now
  rw [rollback_kept hk hz hopen]
  have hkeep : SameRegion (c.writeBegin m now).1 ((c.writeBegin m now).1.keepNodes k)
      (c.writeBegin m now).2.1 (c.writeBegin m now).2.1 := ⟨rfl, rfl, rfl, rfl, rfl⟩
  exact shown_synced (hbegin.same.trans hkeep) hin now

/-- **An `agent_create` that succeeds.** -/
theorem mark_shown (h : Shown p.ctx m) (hok : (agentMarkCurrent p m a).2.2 ≠ -1) :
    Shown (agentMarkCurrent p m a).1.ctx (agentMarkCurrent p m a).2.1 := by
  have hcase := mark_cases p m a
  obtain ⟨x, y, r, hr⟩ : ∃ x y r, agentMarkCurrent p m a = (x, y, r) := ⟨_, _, _, rfl⟩
  rw [hr] at hcase hok ⊢
  cases hcase with
  | refused => exact absurd rfl hok
  | unjoined w => exact absurd rfl hok
  | @marked q w hq =>
    refine clear_shown (fun _ => ?_) a.now
    have hctx : q.ctx.contextRegionStart = (withRegion p m).1.ctx.contextRegionStart ∧
        q.ctx.contextRegionSize = (withRegion p m).1.ctx.contextRegionSize := by
      rw [hq]
      exact ⟨rfl, rfl⟩
    have hmapped : ContextRun.RegionMapped (withRegion p m).1.ctx (withRegion p m).2 := by
      unfold withRegion
      split
      · exact markRegion_mapped _ _
      · rename_i h0
        exact (h h0).1
    unfold ContextRun.RegionMapped at hmapped ⊢
    rw [hctx.1, hctx.2]
    exact hmapped

/-- A copy that leaves the counts in the header alone. -/
theorem copyout_shown (h : Shown c m)
    (ho : c.contextRegionStart ≠ 0 → va + bytes.length ≤ c.contextRegionStart + 32 ∨
      c.contextRegionStart + 80 ≤ va) : Shown c (m.copyout va bytes).1 := by
  intro h0
  obtain ⟨hu, hw⟩ := copyout_pages m va bytes
  have hsame : SameRegion c c m (m.copyout va bytes).1 := ⟨rfl, rfl, rfl, hu, hw⟩
  refine ⟨hsame.mapped (h h0).1, (h h0).2.congr rfl rfl rfl rfl rfl rfl fun o k h32 h80 => ?_⟩
  refine copyout_outside m ?_
  have := ho h0
  omega

theorem query_shown (h : Shown c m) {dst len : ℕ}
    (ho : c.contextRegionStart ≠ 0 → dst + min len c.contextPathLen ≤ c.contextRegionStart + 32 ∨
      c.contextRegionStart + 80 ≤ dst) :
    Shown (c.agentContextQuery m dst len).1 (c.agentContextQuery m dst len).2.1 := by
  intro h0
  obtain ⟨hu, hw⟩ := copyThrough_pages m c.agentPathBase dst (min len c.contextPathLen)
  have hsame : SameRegion c (c.agentContextQuery m dst len).1 m
      (c.agentContextQuery m dst len).2.1 := ⟨rfl, rfl, rfl, hu, hw⟩
  refine ⟨hsame.mapped (h h0).1, (h h0).2.congr rfl rfl rfl rfl rfl rfl fun o k h32 h80 => ?_⟩
  refine copyThrough_outside m _ ?_
  have := ho h0
  omega

end

/-! ### The runs -/

/-- The counts of an empty Context. -/
def EmptyContext (c : ContextState) : Prop :=
  c.contextPathLen = 0 ∧ c.contextNodeCount = 0 ∧ c.contextDroppedNodes = 0 ∧
    c.contextFirstSequence = 0 ∧ c.contextNextSequence = 1

/-- The `n` bytes from `va` on miss the counts in the header. -/
def Misses (c : ContextState) (va n : ℕ) : Prop :=
  c.contextRegionStart ≠ 0 → va + n ≤ c.contextRegionStart + 32 ∨ c.contextRegionStart + 80 ≤ va

/-- **The condition on a step**: `agent_create` succeeds, the kernel copies nothing over the counts
in the header, and an Agent forks with an empty Context. -/
def HeaderKept (s : HeaderState) : HeaderLabel → Prop
  | .call i (.mark a) => ∀ x, s i = some x → (agentMarkCurrent x.proc x.mem a).2.2 ≠ -1
  | .query i dst len => ∀ x, s i = some x → Misses x.proc.ctx dst (min len x.proc.ctx.contextPathLen)
  | .respond i va bytes => ∀ x, s i = some x → Misses x.proc.ctx va bytes.length
  | .fork i _ _ _ => ∀ x, s i = some x → x.proc.ctx.contextRegionStart ≠ 0 → EmptyContext x.proc.ctx
  | _ => True

/-- The headers of all processes agree. -/
def AllShown (s : HeaderState) : Prop := ∀ i x, s i = some x → Shown x.proc.ctx x.mem

section

variable {s t : HeaderState} {i : Slot} {x y : ContextRun} {l : HeaderLabel}

theorem AllShown.update (h : AllShown s) {o : Option ContextRun}
    (ho : ∀ y, o = some y → Shown y.proc.ctx y.mem) : AllShown (Function.update s i o) := by
  intro j z hj
  by_cases hji : j = i
  · subst hji
    rw [Function.update_self] at hj
    exact ho z hj
  · rw [Function.update_of_ne hji] at hj
    exact h j z hj

theorem AllShown.set (h : AllShown s) (hy : Shown y.proc.ctx y.mem) : AllShown (s.set i y) :=
  h.update fun _ hz => Option.some.inj hz ▸ hy

/-- **A call.** -/
theorem call_shown {a : ContextLabel} (h : Shown x.proc.ctx x.mem)
    (hok : ∀ b, a = .mark b → (agentMarkCurrent x.proc x.mem b).2.2 ≠ -1)
    (hn : x.next a = some y) : Shown y.proc.ctx y.mem := by
  cases a with
  | mark b =>
    obtain rfl := Option.some.inj hn
    exact mark_shown h (hok b rfl)
  | push node now =>
    obtain ⟨⟨c', m', r⟩, hpush, rfl⟩ := Option.map_eq_some_iff.1 hn
    exact push_shown h hpush
  | rollback k now =>
    have hback := rollback_shown h k now
    simp only [ContextRun.next] at hn
    split at hn <;> (obtain rfl := Option.some.inj hn; exact hback)
  | clear now =>
    obtain rfl := Option.some.inj hn
    exact clear_shown (fun h0 => (h h0).1) now

/-- A child of an Agent with an empty Context has its header. -/
theorem fork_shown (h : Shown x.proc.ctx x.mem)
    (hempty : x.proc.ctx.contextRegionStart ≠ 0 → EmptyContext x.proc.ctx) (child : Proc)
    (generation : ℕ) : Shown (agentAfterFork child x.proc generation).ctx x.mem := by
  intro h0
  obtain ⟨hmapped, hagrees⟩ := h h0
  obtain ⟨hp, hc, hd, hf, hn⟩ := hempty h0
  exact ⟨hmapped, hagrees.congr rfl hp.symm hc.symm hd.symm hf.symm hn.symm fun _ _ _ _ => rfl⟩

/-- **One step.** -/
theorem AllShown.step (h : AllShown s) (hok : HeaderKept s l) (hn : s.next l = some t) :
    AllShown t := by
  cases l with
  | call i a =>
    obtain ⟨x, hx, hn⟩ := Option.bind_eq_some_iff.1 hn
    obtain ⟨y, hy, rfl⟩ := Option.map_eq_some_iff.1 hn
    refine h.set (call_shown (h i x hx) (fun b hb => ?_) hy)
    subst hb
    exact hok x hx
  | query i dst len =>
    obtain ⟨x, hx, rfl⟩ := Option.map_eq_some_iff.1 hn
    exact h.set (query_shown (h i x hx) (hok x hx))
  | depend i dev inum version =>
    obtain ⟨x, hx, rfl⟩ := Option.map_eq_some_iff.1 hn
    refine h.set fun h0 => ?_
    obtain ⟨hmapped, hagrees⟩ := h i x hx h0
    exact ⟨hmapped, hagrees.congr rfl rfl rfl rfl rfl rfl fun _ _ _ _ => rfl⟩
  | respond i va bytes =>
    obtain ⟨x, hx, rfl⟩ := Option.map_eq_some_iff.1 hn
    exact h.set (copyout_shown (h i x hx) (hok x hx))
  | fork i j child generation =>
    simp only [HeaderState.next] at hn
    split at hn <;> [skip; cases hn]
    rename_i x hx hj
    obtain rfl := Option.some.inj hn
    exact h.set (fork_shown (h i x hx) (hok x hx) _ generation)
  | exec i m sz =>
    obtain ⟨x, hx, rfl⟩ := Option.map_eq_some_iff.1 hn
    exact h.set (shown_none rfl)
  | exit i =>
    obtain ⟨x, hx, rfl⟩ := Option.map_eq_some_iff.1 hn
    exact h.update fun y hy => by cases hy
  | other i p =>
    obtain ⟨x, hx, rfl⟩ := Option.map_eq_some_iff.1 hn
    exact h.set (h i x hx)

/-- **Header and PCB agree**: in every run where `agent_create` succeeds, no Agent forks with
something in its Context and nothing is copied over the header, the header of each process with a
region has an even generation and the counts of its PCB, parent or child. -/
theorem header_agrees {tr : List HeaderLabel} (h : headerMachine.Reach HeaderKept tr s)
    (hi : s i = some x) (h0 : x.proc.ctx.contextRegionStart ≠ 0) :
    HeaderAgrees x.proc.ctx x.mem := by
  have hall : AllShown s := by
    refine h.inv (P := AllShown) (fun s₀ hinit => ?_) fun s l t hs hok hn => hs.step hok hn
    exact fun i x hx => shown_none (hinit i x hx)
  exact (hall i x hi h0).2

end

/-! ### A child -/

/-- A process that is to become an Agent. -/
def newcomerOnly : HeaderState := fun i => if i = 0 then some newcomer else none

/-- It becomes a Planner and forks. -/
def forksFirst : List HeaderLabel :=
  [.call 0 (.mark (crowdedMark agentTypePrimary 0)), .fork 0 1 Proc.boot 2]

/-- It becomes a Planner, pushes a node, and forks. -/
def pushesFirst : List HeaderLabel :=
  [.call 0 (.mark (crowdedMark agentTypePrimary 0)), .call 0 (.push emptyNode 0),
    .fork 0 1 Proc.boot 2]

def HeaderState.after (s : HeaderState) (tr : List HeaderLabel) : HeaderState :=
  (headerMachine.run s tr).getD s

theorem newcomerOnly_init : headerMachine.init newcomerOnly := by
  intro i x hx
  unfold newcomerOnly at hx
  split at hx
  · obtain rfl := Option.some.inj hx
    rfl
  · cases hx

/-- The Planner, with an empty Context. -/
def newcomerMarked : HeaderState := newcomerOnly.after [.call 0 (.mark (crowdedMark agentTypePrimary 0))]

def newcomerForked : HeaderState := (newcomerMarked.next (.fork 0 1 Proc.boot 2)).getD newcomerMarked

set_option maxRecDepth 100000 in
theorem header_agrees_child :
    headerMachine.Reach HeaderKept forksFirst newcomerForked ∧
      ∃ x, newcomerForked 1 = some x ∧ x.proc.ctx.contextRegionStart ≠ 0 ∧
        HeaderAgrees x.proc.ctx x.mem := by
  have hreach : headerMachine.Reach HeaderKept forksFirst newcomerForked := by
    refine ⟨newcomerOnly, newcomerOnly_init, Path.cons (t := newcomerMarked) ?_ ?_
      (Path.single ?_ (next_getD ?_))⟩
    · rintro x hx
      obtain rfl := Option.some.inj hx
      decide +kernel
    · rfl
    · intro x hx _
      have hempty : (newcomerMarked 0).map (fun x => (x.proc.ctx.contextPathLen,
          x.proc.ctx.contextNodeCount, x.proc.ctx.contextDroppedNodes,
          x.proc.ctx.contextFirstSequence, x.proc.ctx.contextNextSequence)) =
          some (0, 0, 0, 0, 1) := by decide +kernel
      rw [hx] at hempty
      simpa [EmptyContext] using hempty
    · decide +kernel
  have hchild : (newcomerForked 1).map (fun x => x.proc.ctx.contextRegionStart) = some pgsize := by
    decide +kernel
  obtain ⟨x, hx, hstart⟩ := Option.map_eq_some_iff.1 hchild
  have h0 : x.proc.ctx.contextRegionStart ≠ 0 := by
    rw [hstart]
    decide
  exact ⟨hreach, x, hx, h0, header_agrees hreach hx h0⟩

set_option maxRecDepth 100000 in
/-- **The child has the header of its parent**: it counts one node, and the PCB none. -/
theorem fork_disagrees :
    headerMachine.Reach always pushesFirst (newcomerOnly.after pushesFirst) ∧
      ((newcomerOnly.after pushesFirst) 1).map (fun x => (x.proc.ctx.contextNodeCount,
        headerField x.mem x.proc.ctx.contextRegionStart 3)) = some (0, 1) :=
  ⟨⟨newcomerOnly, newcomerOnly_init, path_getD (by decide +kernel)⟩, by decide +kernel⟩

end AgentOS
