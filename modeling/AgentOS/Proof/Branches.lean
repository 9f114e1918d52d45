import AgentOS.Model.Trusted
import AgentOS.Proof.Text

/-!
# The Context calls, branch by branch

* `SameRing`, `Kept`: the calls that leave the digest ring as it is.
* `Texts.evictLoop`: the loop that makes room drops the oldest records.
* `PushCase`, `push_cases`: a push takes no number, or takes one and loses its record, or
  records it.
* `clear_spec`, `clear_ring`: a clear.
* `rollback_refused`, `rollback_zero`, `rollback_unopened`, `rollback_kept`: a rollback.
* `mark_eq`, `MarkCase`: `agent_mark_current` fails before or after it has stored, or clears the
  Context.
-/

namespace AgentOS

open Slice

/-! ### The ring is left alone -/

/-- The digest ring is as before. -/
structure SameRing (c c' : ContextState) : Prop where
  digests : c'.contextDigests = c.contextDigests
  head : c'.contextDigestHead = c.contextDigestHead
  count : c'.contextDigestCount = c.contextDigestCount

section

variable {c c' c₂ : ContextState} {m m' m₂ : Memory} {node : AgentContextNode} {now : ℕ}
  {L : List (List UInt8)}

theorem SameRing.refl (c : ContextState) : SameRing c c := ⟨rfl, rfl, rfl⟩

theorem SameRing.trans (h : SameRing c c') (h' : SameRing c' c₂) : SameRing c c₂ :=
  ⟨h'.digests.trans h.digests, h'.head.trans h.head, h'.count.trans h.count⟩

theorem Synced.ring (h : Synced c c' m m') : SameRing c c' := by
  obtain ⟨⟨g, rfl⟩, -, -, -⟩ := h
  exact ⟨rfl, rfl, rfl⟩

/-! ### Making room -/

/-- What an eviction leaves alone. -/
structure Kept (c c' : ContextState) (m m' : Memory) : Prop where
  region : SameRegion c c' m m'
  ring : SameRing c c'
  next : c'.contextNextSequence = c.contextNextSequence

theorem Kept.refl (c : ContextState) (m : Memory) : Kept c c m m :=
  ⟨SameRegion.refl c m, SameRing.refl c, rfl⟩

theorem Kept.trans (h : Kept c c' m m') (h' : Kept c' c₂ m' m₂) : Kept c c₂ m m₂ :=
  ⟨h.region.trans h'.region, h.ring.trans h'.ring, h'.next.trans h.next⟩

theorem Synced.kept (h : Synced c c' m m') : Kept c c' m m' := ⟨h.same, h.ring, h.next⟩

theorem evictOldest_kept (c : ContextState) (m : Memory) :
    Kept c (c.evictOldest m).1 m (c.evictOldest m).2 := by
  have hpages := fun src dst n => copyThrough_pages m src dst n
  unfold ContextState.evictOldest
  split
  · exact ⟨⟨rfl, rfl, rfl, rfl, rfl⟩, ⟨rfl, rfl, rfl⟩, rfl⟩
  · dsimp only
    split
    · exact ⟨⟨rfl, rfl, rfl, (hpages _ _ _).1, (hpages _ _ _).2⟩, ⟨rfl, rfl, rfl⟩, rfl⟩
    · exact ⟨⟨rfl, rfl, rfl, (hpages _ _ _).1, (hpages _ _ _).2⟩, ⟨rfl, rfl, rfl⟩, rfl⟩

theorem evictLoop_kept {fuel recLen : ℕ}
    (h : ContextState.evictLoop fuel c m recLen = some (c', m')) : Kept c c' m m' := by
  induction fuel generalizing c m with
  | zero => simp [ContextState.evictLoop] at h
  | succ fuel ih =>
    simp only [ContextState.evictLoop] at h
    split at h
    · exact (evictOldest_kept c m).trans (ih h)
    · simp only [Option.some.injEq, Prod.mk.injEq] at h
      obtain ⟨rfl, rfl⟩ := h
      exact Kept.refl c m

/-- A region has its size. -/
def RegionSized (c : ContextState) : Prop :=
  c.contextRegionStart ≠ 0 → c.contextRegionSize = agentContextRegionSize

theorem RegionSized.capacity (h : RegionSized c) (hs : c.contextRegionStart ≠ 0) :
    c.agentPathCapacity ≤ pathSize := by
  have hcap : (agentContextRegionSize + 2 ^ 64 - sizeofContextHeader) % 2 ^ 64 = pathSize := by
    decide
  unfold ContextState.agentPathCapacity
  rw [h hs, hcap]
  dsimp only
  split <;> omega

/-- **The loop that makes room** drops the oldest records and ends with room. -/
theorem Texts.evictLoop (h : Texts c m L) (hsize : L.flatten.length ≤ pathSize) {fuel recLen : ℕ}
    (hloop : ContextState.evictLoop fuel c m recLen = some (c', m')) :
    (∃ k, Texts c' m' (L.drop k)) ∧ c'.contextPathLen + recLen ≤ c'.agentPathCapacity := by
  induction fuel generalizing c m L with
  | zero => simp [ContextState.evictLoop] at hloop
  | succ fuel ih =>
    simp only [ContextState.evictLoop] at hloop
    split at hloop
    · obtain ⟨k, hk⟩ := h.evicted hsize
      have hle := (flatten_length_le_of_sublist (List.drop_sublist k L)).trans hsize
      obtain ⟨⟨j, hj⟩, hroom⟩ := ih hk hle hloop
      rw [List.drop_drop] at hj
      exact ⟨⟨_, hj⟩, hroom⟩
    · rename_i hdone
      simp only [Option.some.injEq, Prod.mk.injEq] at hloop
      obtain ⟨rfl, rfl⟩ := hloop
      exact ⟨⟨0, h⟩, by omega⟩

/-- Nothing is dropped where there is room. -/
theorem evictLoop_room {fuel recLen : ℕ} (hn : c.contextNodeCount < agentContextMaxNodes)
    (hroom : c.contextPathLen + recLen ≤ c.agentPathCapacity) :
    ContextState.evictLoop (fuel + 1) c m recLen = some (c, m) := by
  simp only [ContextState.evictLoop]
  rw [if_neg (by omega)]

/-! ### The branches of a push -/

/-- The counter after a number is taken. -/
def seqSucc (n : ℕ) : ℕ := if (n + 1) % 2 ^ 64 = 0 then 1 else (n + 1) % 2 ^ 64

/-- The push once it has taken its number. -/
def numbered (c : ContextState) (m : Memory) (now : ℕ) : ContextState × Memory :=
  ({ (c.dropPending.writeBegin m now).1 with contextNextSequence := seqSucc c.contextNextSequence },
    (c.dropPending.writeBegin m now).2.1)

theorem numbered_kept (c : ContextState) (m : Memory) (now : ℕ) :
    SameRegion c (numbered c m now).1 m (numbered c m now).2 ∧ SameRing c (numbered c m now).1 := by
  have hsync := synced_writeBegin c.dropPending m now
  have hsame := hsync.same
  have hring := hsync.ring
  exact ⟨⟨hsame.start, hsame.size, hsame.quota, hsame.user, hsame.writable⟩,
    ⟨hring.digests, hring.head, hring.count⟩⟩

theorem numbered_texts (h : Texts c m L) (now : ℕ) :
    Texts (numbered c m now).1 (numbered c m now).2 L := by
  have hsync := synced_writeBegin c.dropPending m now
  have hdropped : Texts c.dropPending m L := h.congr rfl rfl rfl rfl rfl rfl
  exact (hsync.texts hdropped).congr rfl rfl rfl rfl rfl rfl

/-- The record of a push. -/
def pushText (c : ContextState) (node : AgentContextNode) : List UInt8 :=
  cstr (ContextState.record c.contextNextSequence node)

/-- The loop of a push ends in `(c₂, m₂)`. -/
def MakesRoom (c : ContextState) (m : Memory) (node : AgentContextNode) (now : ℕ)
    (c₂ : ContextState) (m₂ : Memory) : Prop :=
  ContextState.evictLoop ((numbered c m now).1.contextNodeCount + 2) (numbered c m now).1
    (numbered c m now).2 (pushText c node).length = some (c₂, m₂)

/-- The copy of the record. -/
def recordCopy (c : ContextState) (node : AgentContextNode) (c₂ : ContextState) (m₂ : Memory) :
    Memory × Bool :=
  m₂.copyout (c₂.agentPathBase + c₂.contextPathLen) (pushText c node)

/-- The stores of a push end in its digest. -/
theorem appendNode_ring (c : ContextState) (sequence recLen : ℕ) (dep : AgentContextDep)
    (node : AgentContextNode) :
    SameRing (c.digestPush sequence node) (c.appendNode sequence recLen dep node) := by
  unfold ContextState.appendNode
  dsimp only
  by_cases h0 : c.contextNodeCount = 0
  · simp only [if_pos h0]
    exact ⟨rfl, rfl, rfl⟩
  · simp only [if_neg h0]
    exact ⟨rfl, rfl, rfl⟩

/-- What a push that records leaves. -/
def recordedPush (c : ContextState) (node : AgentContextNode) (now : ℕ) (c₂ : ContextState)
    (m₂ : Memory) : ContextState × Memory × Bool :=
  (c₂.appendNode c.contextNextSequence (pushText c node).length
    (c.pendingDep c.contextNextSequence) node).syncHeader (recordCopy c node c₂ m₂).1 now

theorem recordedPush_fields (c : ContextState) (node : AgentContextNode) (now : ℕ)
    (c₂ : ContextState) (m₂ : Memory) :
    let t := (recordedPush c node now c₂ m₂).1
    t.contextNextSequence = c₂.contextNextSequence ∧
      t.contextPathLen = c₂.contextPathLen + (pushText c node).length ∧
      t.contextNodeCount = c₂.contextNodeCount + 1 ∧
      SameRing (c₂.digestPush c.contextNextSequence node) t := by
  intro t
  have hsync := synced_syncHeader (c₂.appendNode c.contextNextSequence (pushText c node).length
    (c.pendingDep c.contextNextSequence) node) (recordCopy c node c₂ m₂).1 now
  obtain ⟨hcount, hlen, -, -, -, -, hnext, -⟩ := appendNode_fields c₂ c.contextNextSequence
    (pushText c node).length (c.pendingDep c.contextNextSequence) node
  have hring := (appendNode_ring c₂ c.contextNextSequence (pushText c node).length
    (c.pendingDep c.contextNextSequence) node).trans hsync.ring
  obtain ⟨g, hg⟩ := hsync.ctx
  have ht : t = { c₂.appendNode c.contextNextSequence (pushText c node).length
      (c.pendingDep c.contextNextSequence) node with contextGeneration := g } := hg
  refine ⟨?_, ?_, ?_, hring⟩
  · rw [ht]; exact hnext
  · rw [ht]; exact hlen
  · rw [ht]; exact hcount

/-- **The branches of a push.** -/
inductive PushCase (c : ContextState) (m : Memory) (node : AgentContextNode) (now : ℕ) :
    ContextState → Memory → Prop
  | refused {c' : ContextState} {m' : Memory} (htakes : c.takesNumber m node now = false)
      (hrec : c.recorded m node now = false) (hsync : Synced c.dropPending c' m m') :
      PushCase c m node now c' m'
  | lost {c₂ : ContextState} {m₂ : Memory} (htakes : c.takesNumber m node now = true)
      (hrec : c.recorded m node now = false) (hloop : MakesRoom c m node now c₂ m₂) :
      PushCase c m node now c₂ (recordCopy c node c₂ m₂).1
  | recorded {c₂ : ContextState} {m₂ : Memory} (htakes : c.takesNumber m node now = true)
      (hrec : c.recorded m node now = true) (hloop : MakesRoom c m node now c₂ m₂)
      (hcopy : (recordCopy c node c₂ m₂).2 = true) :
      PushCase c m node now (recordedPush c node now c₂ m₂).1 (recordedPush c node now c₂ m₂).2.1

theorem takesNumber_iff : c.takesNumber m node now = true ↔
    c.contextRegionStart ≠ 0 ∧ (pushText c node).length ≤ c.agentPathCapacity ∧
      (c.dropPending.writeBegin m now).2.2 = true := by
  unfold ContextState.takesNumber
  simp only [Bool.and_eq_true, decide_eq_true_eq, and_assoc]
  rfl

/-- A push that takes no number. -/
theorem push_unnumbered (h : c.takesNumber m node now = false) :
    ∃ c' m', c.agentContextPushNode m node now = some (c', m', -1) ∧
      Synced c.dropPending c' m m' := by
  have hnot : ¬ (c.contextRegionStart ≠ 0 ∧ (pushText c node).length ≤ c.agentPathCapacity ∧
      (c.dropPending.writeBegin m now).2.2 = true) := by
    rw [← takesNumber_iff, h]
    decide
  have hself : Synced c.dropPending c.dropPending m m := ⟨⟨_, rfl⟩, fun _ => rfl, rfl, rfl⟩
  unfold ContextState.agentContextPushNode
  dsimp only
  by_cases hs : c.dropPending.contextRegionStart = 0
  · rw [if_pos hs]
    exact ⟨_, _, rfl, hself⟩
  rw [if_neg hs]
  by_cases hfit : c.dropPending.agentPathCapacity <
      strlen (ContextState.record c.contextNextSequence node)
  · rw [if_pos hfit]
    exact ⟨_, _, rfl, hself⟩
  rw [if_neg hfit]
  by_cases hok : (c.dropPending.writeBegin m now).2.2 = false
  · rw [if_pos hok]
    exact ⟨_, _, rfl, synced_writeBegin _ _ _⟩
  · exact absurd ⟨hs, not_lt.1 hfit, by simpa using hok⟩ hnot

/-- A push that takes one. -/
theorem push_numbered (h : c.takesNumber m node now = true) :
    c.agentContextPushNode m node now =
      (ContextState.evictLoop ((numbered c m now).1.contextNodeCount + 2) (numbered c m now).1
        (numbered c m now).2 (pushText c node).length).map fun s =>
          if (recordCopy c node s.1 s.2).2 = false then (s.1, (recordCopy c node s.1 s.2).1, -1)
          else ((recordedPush c node now s.1 s.2).1, (recordedPush c node now s.1 s.2).2.1,
            if (recordedPush c node now s.1 s.2).2.2 then 0 else -1) := by
  obtain ⟨hs, hfit, hok⟩ := takesNumber_iff.1 h
  have hs' : ¬ c.dropPending.contextRegionStart = 0 := hs
  have hfit' : ¬ c.dropPending.agentPathCapacity <
      strlen (ContextState.record c.contextNextSequence node) := not_lt.2 hfit
  unfold ContextState.agentContextPushNode
  dsimp only
  rw [if_neg hs', if_neg hfit', if_neg (by rw [hok]; decide)]
  rfl

theorem recorded_eq (hloop : MakesRoom c m node now c₂ m₂) :
    c.recorded m node now = (c.takesNumber m node now && (recordCopy c node c₂ m₂).2) := by
  unfold MakesRoom at hloop
  have hrec : c.recorded m node now = (c.takesNumber m node now &&
      ((ContextState.evictLoop ((numbered c m now).1.contextNodeCount + 2) (numbered c m now).1
        (numbered c m now).2 (pushText c node).length).map fun s =>
          (recordCopy c node s.1 s.2).2) == some true) := rfl
  rw [hrec, hloop, Option.map_some]
  cases (recordCopy c node c₂ m₂).2 <;> simp

/-- **A push takes one of its branches.** -/
theorem push_cases {r : ℤ} (h : c.agentContextPushNode m node now = some (c', m', r)) :
    PushCase c m node now c' m' := by
  cases htakes : c.takesNumber m node now with
  | false =>
    obtain ⟨c₂, m₂, hpush, hsync⟩ := push_unnumbered htakes
    rw [hpush] at h
    simp only [Option.some.injEq, Prod.mk.injEq] at h
    obtain ⟨rfl, rfl, -⟩ := h
    refine .refused htakes ?_ hsync
    unfold ContextState.recorded
    rw [htakes]
    rfl
  | true =>
    rw [push_numbered htakes, Option.map_eq_some_iff] at h
    obtain ⟨⟨c₂, m₂⟩, hloop, hend⟩ := h
    dsimp only at hend
    have hrec : c.recorded m node now = (recordCopy c node c₂ m₂).2 := by
      rw [recorded_eq hloop, htakes, Bool.true_and]
    by_cases hcopy : (recordCopy c node c₂ m₂).2 = false
    · rw [if_pos hcopy] at hend
      simp only [Prod.mk.injEq] at hend
      obtain ⟨rfl, rfl, -⟩ := hend
      exact .lost htakes (hrec.trans hcopy) hloop
    · rw [if_neg hcopy] at hend
      simp only [Prod.mk.injEq] at hend
      obtain ⟨rfl, rfl, -⟩ := hend
      have hcopied : (recordCopy c node c₂ m₂).2 = true := by simpa using hcopy
      exact .recorded htakes (hrec.trans hcopied) hloop hcopied

/-- The step of a push whose record is copied out. -/
theorem push_step_recorded {s : TrustedRun} (htakes : s.proc.ctx.takesNumber s.mem node now = true)
    (hloop : MakesRoom s.proc.ctx s.mem node now c₂ m₂)
    (hcopy : (recordCopy s.proc.ctx node c₂ m₂).2 = true) :
    s.next (.push node now) = some (s.setCtx (recordedPush s.proc.ctx node now c₂ m₂).1
      (recordedPush s.proc.ctx node now c₂ m₂).2.1 (s.records ++ [pushText s.proc.ctx node])
      (s.pushed ++ [(s.proc.ctx.contextNextSequence, node)])) := by
  have hrec := recorded_eq hloop
  rw [htakes, hcopy, Bool.and_true] at hrec
  have hpush := push_numbered htakes
  unfold MakesRoom at hloop
  rw [hloop, Option.map_some, if_neg (by rw [hcopy]; decide)] at hpush
  simp only [TrustedRun.next, hpush, Option.map_some]
  rw [if_pos hrec]
  rfl

/-- The step of a push whose record is lost. -/
theorem push_step_lost {s : TrustedRun} (htakes : s.proc.ctx.takesNumber s.mem node now = true)
    (hloop : MakesRoom s.proc.ctx s.mem node now c₂ m₂)
    (hcopy : (recordCopy s.proc.ctx node c₂ m₂).2 = false) :
    s.next (.push node now) = some (s.setCtx c₂ (recordCopy s.proc.ctx node c₂ m₂).1 s.records
      s.pushed) := by
  have hrec := recorded_eq hloop
  rw [htakes, hcopy, Bool.and_false] at hrec
  have hpush := push_numbered htakes
  unfold MakesRoom at hloop
  rw [hloop, Option.map_some, if_pos hcopy] at hpush
  simp only [TrustedRun.next, hpush, Option.map_some]
  rw [if_neg (by rw [hrec]; decide)]

/-! ### A clear and a rollback -/

/-- **A clear** leaves an empty path, whether the memory can be written or not. -/
theorem clear_spec (c : ContextState) (m : Memory) (now : ℕ) :
    SameRegion c (c.agentContextClear m now).1 m (c.agentContextClear m now).2 ∧
      (c.agentContextClear m now).1.contextNodeCount = 0 ∧
      (c.agentContextClear m now).1.contextPathLen = 0 ∧
      (c.agentContextClear m now).1.contextFirstSequence = 0 ∧
      (c.agentContextClear m now).1.contextNextSequence = 1 ∧
      (c.agentContextClear m now).1.contextDroppedNodes = 0 := by
  have hbegin : ∀ r : ContextState × Memory × Bool,
      r = (if c.contextRegionStart ≠ 0 then c.writeBegin m now else (c, m, true)) →
      SameRegion c r.1 m r.2.1 := by
    rintro r rfl
    split
    · have hp := writeHeader_pages (c.writeBegin m now).1 m
        ((c.writeBegin m now).1.buildHeader now)
      exact ⟨rfl, rfl, rfl, hp.1, hp.2⟩
    · exact SameRegion.refl c m
  -- the loop that clears the region keeps the pages
  have hzero : ∀ (start : ℕ) (L : List (ℕ × ℕ)) (r : Memory × Bool),
      (L.foldl (fun r x =>
        if r.2 then r.1.copyout (start + x.1) (List.replicate x.2 0) else r) r).1.user = r.1.user ∧
      (L.foldl (fun r x =>
        if r.2 then r.1.copyout (start + x.1) (List.replicate x.2 0) else r) r).1.writable =
        r.1.writable := by
    intro start L
    induction L with
    | nil => intro r; exact ⟨rfl, rfl⟩
    | cons x L ih =>
      intro r
      rw [List.foldl_cons]
      have hstep : (if r.2 then r.1.copyout (start + x.1) (List.replicate x.2 0) else r).1.user =
          r.1.user ∧ (if r.2 then r.1.copyout (start + x.1) (List.replicate x.2 0) else
            r).1.writable = r.1.writable := by
        split
        · exact copyout_pages _ _ _
        · exact ⟨rfl, rfl⟩
      exact ⟨(ih _).1.trans hstep.1, (ih _).2.trans hstep.2⟩
  unfold ContextState.agentContextClear
  obtain ⟨r, hr⟩ : ∃ r, r = (if c.contextRegionStart ≠ 0 then c.writeBegin m now
      else (c, m, true)) := ⟨_, rfl⟩
  have hsame := hbegin r hr
  rw [← hr]
  dsimp only
  split
  · exact ⟨⟨hsame.start, hsame.size, hsame.quota, hsame.user, hsame.writable⟩, rfl, rfl, rfl, rfl,
      rfl⟩
  · refine ⟨⟨hsame.start, hsame.size, hsame.quota, ?_, ?_⟩, rfl, rfl, rfl, rfl, rfl⟩
    · refine (writeHeader_pages _ _ _).1.trans ?_
      exact (hzero _ _ (r.2.1, true)).1.trans hsame.user
    · refine (writeHeader_pages _ _ _).2.trans ?_
      exact (hzero _ _ (r.2.1, true)).2.trans hsame.writable

/-- It empties the ring, if there is a region. -/
theorem clear_ring (c : ContextState) (m : Memory) (now : ℕ) :
    (c.contextRegionStart = 0 ∨ c.contextRegionSize = 0 →
      SameRing c (c.agentContextClear m now).1) ∧
    (¬ (c.contextRegionStart = 0 ∨ c.contextRegionSize = 0) →
      (c.agentContextClear m now).1.contextDigestHead = 0 ∧
        (c.agentContextClear m now).1.contextDigestCount = 0) := by
  unfold ContextState.agentContextClear
  obtain ⟨r, hr⟩ : ∃ r, r = (if c.contextRegionStart ≠ 0 then c.writeBegin m now
      else (c, m, true)) := ⟨_, rfl⟩
  have hstart : r.1.contextRegionStart = c.contextRegionStart ∧
      r.1.contextRegionSize = c.contextRegionSize ∧ SameRing c r.1 := by
    rw [hr]
    split
    · exact ⟨rfl, rfl, ⟨rfl, rfl, rfl⟩⟩
    · exact ⟨rfl, rfl, SameRing.refl c⟩
  obtain ⟨hs, hz, hring⟩ := hstart
  rw [← hr]
  dsimp only
  rw [hs, hz]
  refine ⟨fun hno => ?_, fun hreg => ?_⟩
  · rw [if_pos hno]
    exact ⟨hring.digests, hring.head, hring.count⟩
  · rw [if_neg hreg]
    exact ⟨rfl, rfl⟩

/-- What a rollback to `k` nodes stores. -/
def ContextState.keepNodes (c : ContextState) (k : ℕ) : ContextState :=
  { c.dropPending with
    contextPathLen := c.contextOffsets (k - 1) + c.contextLengths (k - 1)
    contextNodeCount := k
    contextNextSequence := (c.contextFirstSequence + k) % 2 ^ 64
    contextDeps := fun i => if k ≤ i ∧ i < agentContextMaxNodes then AgentContextDep.zero
      else c.contextDeps i
    contextDigests := fun _ => AgentContextDigest.zero
    contextDigestHead := 0
    contextDigestCount := 0 }

section

variable {k : ℕ}

theorem rollback_refused (hk : c.contextNodeCount < k) :
    c.agentContextRollback m k now = (c, m, -1) := by
  unfold ContextState.agentContextRollback
  rw [if_pos hk]

theorem rollback_zero (c : ContextState) (m : Memory) (now : ℕ) :
    c.agentContextRollback m 0 now =
      ((c.agentContextClear m now).1, (c.agentContextClear m now).2, 0) := by
  unfold ContextState.agentContextRollback
  rw [if_neg (Nat.not_lt_zero _), if_pos rfl]

theorem rollback_unopened (hk : ¬ c.contextNodeCount < k) (h0 : k ≠ 0)
    (hopen : (c.writeBegin m now).2.2 = false) :
    c.agentContextRollback m k now =
      ((c.writeBegin m now).1, (c.writeBegin m now).2.1, -1) := by
  unfold ContextState.agentContextRollback
  rw [if_neg hk, if_neg h0]
  dsimp only
  rw [if_pos hopen]

theorem rollback_kept (hk : ¬ c.contextNodeCount < k) (h0 : k ≠ 0)
    (hopen : (c.writeBegin m now).2.2 = true) :
    c.agentContextRollback m k now =
      let t := ((c.writeBegin m now).1.keepNodes k).syncHeader (c.writeBegin m now).2.1 now
      (t.1, t.2.1, if t.2.2 then 0 else -1) := by
  unfold ContextState.agentContextRollback
  rw [if_neg hk, if_neg h0]
  dsimp only
  rw [if_neg (by rw [hopen]; decide)]
  rfl

end

/-! ### The branches of `agent_mark_current` -/

/-- The process and the memory once the region is there. -/
def withRegion (p : Proc) (m : Memory) : Proc × Memory :=
  if p.ctx.contextRegionStart = 0 then
    (markRegion p, (m.uvmalloc p.sz (markRegion p).sz).uvmclear
      ((markRegion p).ctx.contextRegionStart + agentContextRegionSize))
  else (p, m)

/-- The process before the workflow sections. -/
def marking (p : Proc) (m : Memory) (a : MarkArgs) : Proc :=
  markStores (withRegion p m).1 (markType a.type) a.heartbeatInterval a.resourceQuota a.generation
    a.now a.now

theorem mark_eq (p : Proc) (m : Memory) (a : MarkArgs) :
    agentMarkCurrent p m a =
      let w := markWorkflow (marking p m a) (markType a.type) a.atLeave a.atJoin
      if p.ctx.contextRegionStart = 0 ∧ a.uvmalloc = false then (p, m, -1)
      else if w.2 = false then ({ marking p m a with wf := w.1 }, (withRegion p m).2, -1)
      else
        let q := markContext { marking p m a with wf := w.1 }
        let r := q.ctx.agentContextClear (withRegion p m).2 a.now
        ({ q with ctx := r.1 }, r.2, (r.1.contextRegionStart : ℤ)) := by
  unfold agentMarkCurrent marking withRegion
  by_cases h0 : p.ctx.contextRegionStart = 0
  · simp only [h0, if_true]
  · simp only [h0, if_false]

/-- **The branches of `agent_mark_current`.** -/
inductive MarkCase (p : Proc) (m : Memory) (a : MarkArgs) : Proc → Memory → ℤ → Prop
  | refused : MarkCase p m a p m (-1)
  | unjoined (w : Membership) :
      MarkCase p m a { marking p m a with wf := w } (withRegion p m).2 (-1)
  | marked {q : Proc} (w : Membership) (hq : q = markContext { marking p m a with wf := w }) :
      MarkCase p m a { q with ctx := (q.ctx.agentContextClear (withRegion p m).2 a.now).1 }
        (q.ctx.agentContextClear (withRegion p m).2 a.now).2
        ((q.ctx.agentContextClear (withRegion p m).2 a.now).1.contextRegionStart : ℤ)

theorem mark_cases (p : Proc) (m : Memory) (a : MarkArgs) :
    MarkCase p m a (agentMarkCurrent p m a).1 (agentMarkCurrent p m a).2.1
      (agentMarkCurrent p m a).2.2 := by
  rw [mark_eq]
  dsimp only
  split
  · exact .refused
  · split
    · exact .unjoined _
    · exact .marked _ rfl

theorem marking_ctx (p : Proc) (m : Memory) (a : MarkArgs) :
    (marking p m a).ctx = { (withRegion p m).1.ctx with resourceQuota := a.resourceQuota } := rfl

/-- The region is the only news. -/
theorem withRegion_ctx (p : Proc) (m : Memory) :
    (p.ctx.contextRegionStart ≠ 0 → withRegion p m = (p, m)) ∧
      (p.ctx.contextRegionStart = 0 → (withRegion p m).1.ctx =
        { p.ctx with
          contextRegionStart := pgroundup p.sz
          contextRegionSize := agentContextRegionSize }) := by
  unfold withRegion
  refine ⟨fun h => ?_, fun h => ?_⟩
  · rw [if_neg h]
  · rw [if_pos h]
    rfl

/-! ### The region -/

/-- **What a step does to the region.** -/
inductive RegionStep (s t : TrustedRun) : Prop
  | same (hstart : t.proc.ctx.contextRegionStart = s.proc.ctx.contextRegionStart)
      (hsize : t.proc.ctx.contextRegionSize = s.proc.ctx.contextRegionSize)
  | grown (h0 : s.proc.ctx.contextRegionStart = 0)
      (hsize : t.proc.ctx.contextRegionSize = agentContextRegionSize)
  | dropped (h0 : t.proc.ctx.contextRegionStart = 0) (hrecords : t.records = [])
      (hpushed : t.pushed = [])

theorem RegionStep.sized {s t : TrustedRun} (h : RegionStep s t) (hs : RegionSized s.proc.ctx) :
    RegionSized t.proc.ctx := by
  intro hne
  cases h with
  | same hstart hsize =>
    rw [hsize]
    exact hs (by rw [← hstart]; exact hne)
  | grown _ hsize => exact hsize
  | dropped h0 => exact absurd h0 hne

theorem SameRegion.regionStep {s t : TrustedRun}
    (h : SameRegion s.proc.ctx t.proc.ctx s.mem t.mem) : RegionStep s t :=
  .same h.start h.size

theorem recordCopy_region (c : ContextState) (node : AgentContextNode) (c₂ : ContextState)
    (m₂ : Memory) : SameRegion c₂ c₂ m₂ (recordCopy c node c₂ m₂).1 := by
  unfold recordCopy
  have hpages := copyout_pages m₂ (c₂.agentPathBase + c₂.contextPathLen) (pushText c node)
  exact ⟨rfl, rfl, rfl, hpages.1, hpages.2⟩

theorem appendNode_region (c : ContextState) (m : Memory) (sequence recLen : ℕ)
    (dep : AgentContextDep) (node : AgentContextNode) :
    SameRegion c (c.appendNode sequence recLen dep node) m m := by
  obtain ⟨-, -, -, -, -, -, -, -, hstart, hsize, hquota⟩ :=
    appendNode_fields c sequence recLen dep node
  exact ⟨hstart, hsize, hquota, rfl, rfl⟩

theorem PushCase.region (h : PushCase c m node now c' m') : SameRegion c c' m m' := by
  cases h with
  | refused _ _ hsync =>
    have hsame := hsync.same
    exact ⟨hsame.start, hsame.size, hsame.quota, hsame.user, hsame.writable⟩
  | lost _ _ hloop =>
    have hloop' := (evictLoop_kept hloop).region
    exact ((numbered_kept c m now).1.trans hloop').trans (recordCopy_region _ _ _ _)
  | recorded _ _ hloop _ =>
    have hloop' := (evictLoop_kept hloop).region
    have hcopied := ((numbered_kept c m now).1.trans hloop').trans (recordCopy_region c node _ _)
    unfold recordedPush
    exact (hcopied.trans (appendNode_region _ _ _ _ _ _)).trans (synced_syncHeader _ _ _).same

theorem rollback_region (c : ContextState) (m : Memory) (k now : ℕ) :
    SameRegion c (c.agentContextRollback m k now).1 m (c.agentContextRollback m k now).2.1 := by
  by_cases hk : c.contextNodeCount < k
  · rw [rollback_refused hk]
    exact SameRegion.refl c m
  by_cases h0 : k = 0
  · subst h0
    rw [rollback_zero]
    exact (clear_spec c m now).1
  have hbegin := (synced_writeBegin c m now).same
  by_cases hopen : (c.writeBegin m now).2.2 = false
  · rw [rollback_unopened hk h0 hopen]
    exact hbegin
  · rw [rollback_kept hk h0 (by simpa using hopen)]
    have hkeep : SameRegion (c.writeBegin m now).1 ((c.writeBegin m now).1.keepNodes k)
        (c.writeBegin m now).2.1 (c.writeBegin m now).2.1 := ⟨rfl, rfl, rfl, rfl, rfl⟩
    exact (hbegin.trans hkeep).trans (synced_syncHeader _ _ _).same

theorem marking_region (p : Proc) (m : Memory) (a : MarkArgs) :
    ((marking p m a).ctx.contextRegionStart = p.ctx.contextRegionStart ∧
        (marking p m a).ctx.contextRegionSize = p.ctx.contextRegionSize) ∨
      (p.ctx.contextRegionStart = 0 ∧
        (marking p m a).ctx.contextRegionSize = agentContextRegionSize) := by
  obtain ⟨hkeep, hnew⟩ := withRegion_ctx p m
  rw [marking_ctx]
  by_cases h0 : p.ctx.contextRegionStart = 0
  · rw [hnew h0]
    exact .inr ⟨h0, rfl⟩
  · rw [hkeep h0]
    exact .inl ⟨rfl, rfl⟩

theorem region_step {s t : TrustedRun} {l : TrustedLabel} (hn : s.next l = some t) :
    RegionStep s t := by
  cases l with
  | mark a =>
    have hcase := mark_cases s.proc s.mem a
    have hregion := marking_region s.proc s.mem a
    obtain ⟨p, m, r, hr⟩ : ∃ p m r, agentMarkCurrent s.proc s.mem a = (p, m, r) := ⟨_, _, _, rfl⟩
    have hp : t.proc = p := by
      simp only [TrustedRun.next, hr] at hn
      split at hn <;> simp only [Option.some.injEq] at hn <;> rw [← hn]
    simp only [hr] at hcase
    cases hcase with
    | refused => exact .same (by rw [hp]) (by rw [hp])
    | unjoined w =>
      rcases hregion with ⟨hstart, hsize⟩ | ⟨h0, hsize⟩
      · exact .same (by rw [hp]; exact hstart) (by rw [hp]; exact hsize)
      · exact .grown h0 (by rw [hp]; exact hsize)
    | @marked q w hq =>
      obtain ⟨hsame, -⟩ := clear_spec q.ctx (withRegion s.proc s.mem).2 a.now
      have hstart' := hsame.start
      have hsize' := hsame.size
      rw [hq] at hstart' hsize'
      rcases hregion with ⟨hstart, hsize⟩ | ⟨h0, hsize⟩
      · refine .same ?_ ?_
        · rw [hp, hq]; exact hstart'.trans hstart
        · rw [hp, hq]; exact hsize'.trans hsize
      · exact .grown h0 (by rw [hp, hq]; exact hsize'.trans hsize)
  | push node now =>
    simp only [TrustedRun.next, Option.map_eq_some_iff] at hn
    obtain ⟨⟨c', m', r⟩, hpush, ht⟩ := hn
    have hctx : t.proc.ctx = c' ∧ t.mem = m' := by
      rw [← ht]
      dsimp only
      split <;> exact ⟨rfl, rfl⟩
    refine SameRegion.regionStep ?_
    rw [hctx.1, hctx.2]
    exact (push_cases hpush).region
  | rollback k now =>
    have hctx : t.proc.ctx = (s.proc.ctx.agentContextRollback s.mem k now).1 ∧
        t.mem = (s.proc.ctx.agentContextRollback s.mem k now).2.1 := by
      simp only [TrustedRun.next] at hn
      (repeat' split at hn) <;> simp only [Option.some.injEq] at hn <;> rw [← hn] <;>
        exact ⟨rfl, rfl⟩
    refine SameRegion.regionStep ?_
    rw [hctx.1, hctx.2]
    exact rollback_region _ _ _ _
  | clear now =>
    simp only [TrustedRun.next, Option.some.injEq] at hn
    subst hn
    obtain ⟨hsame, -⟩ := clear_spec s.proc.ctx s.mem now
    exact hsame.regionStep
  | query dst len =>
    simp only [TrustedRun.next, Option.some.injEq] at hn
    subst hn
    exact .same rfl rfl
  | fork child generation =>
    simp only [TrustedRun.next, Option.some.injEq] at hn
    subst hn
    exact .same rfl rfl
  | exec m sz =>
    simp only [TrustedRun.next, Option.some.injEq] at hn
    subst hn
    exact .dropped rfl rfl rfl
  | store va bytes =>
    simp only [TrustedRun.next] at hn
    split at hn <;> simp only [Option.some.injEq, reduceCtorEq] at hn
    subst hn
    exact .same rfl rfl
  | sbrk n ok =>
    simp only [TrustedRun.next, Option.some.injEq] at hn
    subst hn
    exact .same rfl rfl

end

end AgentOS
