import AgentOS.Proof.Branches

/-!
# What a failed push leaves behind

* `Lands`: where the record of a push comes to lie, in terms of the state before it;
  `evictLoop_lands`: the loop that makes room ends there.
* `push_outcome`: a push fails before it has taken a number, or where the record does not
  reach its place.
* **`push_undone`**: exactly which failed pushes leave the Context as it was; `push_half_done`: a
  record that runs into a page the process has given back.
-/

namespace AgentOS

open Slice

namespace ContextState

variable (c : ContextState)

/-- The length of the path without its `k` oldest nodes. -/
def rest : ℕ → ℕ
  | 0 => c.contextPathLen
  | k + 1 => rest k - c.contextLengths k

/-- Without its `k` oldest nodes the path has room for a record of `n` bytes. -/
def RoomAt (k n : ℕ) : Prop :=
  c.contextNodeCount - k < agentContextMaxNodes ∧ c.rest k + n ≤ c.agentPathCapacity

/-- The pages let the kernel move what comes behind node `k` to the start of the path. -/
def Movable (m : Memory) (k : ℕ) : Prop :=
  Readable m (c.agentPathBase + min (c.contextLengths k) (c.rest k)) (c.rest (k + 1)) ∧
    Writable m c.agentPathBase (c.rest (k + 1))

/-- A record of `n` bytes comes to lie at `x`: behind the nodes that are left when the fewest
oldest ones are gone, or at the start of the path if these cannot be moved, or are not enough. -/
def Lands (m : Memory) (n x : ℕ) : Prop :=
  ∃ k ≤ c.contextNodeCount, (∀ j < k, ¬ c.RoomAt j n ∧ c.Movable m j) ∧
    (c.RoomAt k n ∧ x = c.rest k ∨
      ¬ c.RoomAt k n ∧ (k = c.contextNodeCount ∨ ¬ c.Movable m k) ∧ x = 0)

end ContextState

section

variable {c c' c₂ : ContextState} {m m' m₂ : Memory} {node : AgentContextNode} {now n x y k : ℕ}

/-- A record has one place. -/
theorem lands_unique (h : c.Lands m n x) (h' : c.Lands m n y) : x = y := by
  obtain ⟨k, hk, hlt, hend⟩ := h
  obtain ⟨k', hk', hlt', hend'⟩ := h'
  -- a node that has to go and can be moved is not the last that goes
  have hle : ∀ {a b z : ℕ}, b ≤ c.contextNodeCount → (∀ j < b, ¬ c.RoomAt j n ∧ c.Movable m j) →
      (c.RoomAt a n ∧ z = c.rest a ∨
        ¬ c.RoomAt a n ∧ (a = c.contextNodeCount ∨ ¬ c.Movable m a) ∧ z = 0) → b ≤ a := by
    intro a b z hb hgo hstop
    by_contra hab
    obtain ⟨hroom, hmove⟩ := hgo a (by omega)
    rcases hstop with ⟨hr, -⟩ | ⟨-, hlast | hno, -⟩
    · exact hroom hr
    · omega
    · exact hno hmove
  have h₁ := hle hk' hlt' hend
  have h₂ := hle hk hlt hend'
  obtain rfl : k = k' := by omega
  rcases hend with ⟨hr, rfl⟩ | ⟨hr, -, rfl⟩ <;> rcases hend' with ⟨hr', rfl⟩ | ⟨hr', -, rfl⟩
  · rfl
  · exact absurd hr hr'
  · exact absurd hr' hr
  · rfl

/-! ### The copy through the buffer -/

theorem copyChunk_writable {src dst : ℕ} {r : Memory × Bool} {z : ℕ × ℕ}
    (h : (Memory.copyChunk src dst r z).2 = true) :
    Readable r.1 (src + z.1) z.2 ∧ Writable r.1 (dst + z.1) z.2 := by
  unfold Memory.copyChunk at h
  split at h
  · split at h
    · simp at h
    · rename_i tmp htmp
      have hw := writable_of_copyout h
      have hlen : tmp.length = z.2 := by rw [copyin_done htmp, slice_length]
      rw [hlen] at hw
      refine ⟨?_, hw⟩
      unfold Memory.copyin at htmp
      split at htmp
      · rename_i hall
        exact List.all_eq_true.1 hall
      · cases htmp
  · rename_i hr
    exact absurd h hr

/-- Each page of a range is a page of one of its chunks. -/
theorem mem_pages_chunk {va g : ℕ} (hg : g ∈ pages va n) :
    ∃ z ∈ chunks 128 n, g ∈ pages (va + z.1) z.2 := by
  obtain ⟨h0, h₁, h₂⟩ := mem_pages.1 hg
  unfold pgsize at h₁ h₂
  -- the first address of the range in that page
  obtain ⟨o, ho, hog⟩ : ∃ o < n, (va + o) / 4096 = g := by
    by_cases hva : va / 4096 = g
    · exact ⟨0, h0, hva⟩
    · exact ⟨g * 4096 - va, by omega, by omega⟩
  refine ⟨(o / 128 * 128, min 128 (n - o / 128 * 128)), ?_, ?_⟩
  · simp only [chunks, List.mem_map, List.mem_range]
    exact ⟨o / 128, by omega, rfl⟩
  · rw [mem_pages]
    unfold pgsize
    dsimp only
    omega

/-- **A copy reaches its end only where the pages let it.** -/
theorem writable_of_copyThrough {src dst : ℕ} (h : (m.copyThrough src dst n).2 = true) :
    Readable m src n ∧ Writable m dst n := by
  have hrun : ∀ (L : List (ℕ × ℕ)) (r : Memory × Bool), r.1.user = m.user →
      r.1.writable = m.writable → (L.foldl (Memory.copyChunk src dst) r).2 = true →
      r.2 = true ∧ ∀ z ∈ L, Readable m (src + z.1) z.2 ∧ Writable m (dst + z.1) z.2 := by
    intro L
    induction L with
    | nil => intro r _ _ hr; exact ⟨hr, fun z hz => absurd hz (List.not_mem_nil)⟩
    | cons w L ih =>
      intro r hu hw hr
      rw [List.foldl_cons] at hr
      obtain ⟨hpu, hpw⟩ := copyChunk_pages src dst r w
      obtain ⟨hstep, hL⟩ := ih _ (hpu.trans hu) (hpw.trans hw) hr
      refine ⟨(copyChunk_done hstep).1, fun z hz => ?_⟩
      rcases List.mem_cons.1 hz with rfl | hz
      · have hz := copyChunk_writable hstep
        unfold Readable Writable at hz ⊢
        rw [hu, hw] at hz
        exact hz
      · exact hL z hz
  have hall := (hrun (chunks 128 n) (m, true) rfl rfl h).2
  constructor
  · intro g hg
    obtain ⟨z, hz, hgz⟩ := mem_pages_chunk hg
    exact (hall z hz).1 g hgz
  · intro g hg
    obtain ⟨z, hz, hgz⟩ := mem_pages_chunk hg
    exact (hall z hz).2 g hgz

/-! ### Making room -/

/-- An eviction moves what is left exactly if the pages let it. -/
theorem movable_iff : c.Movable m 0 ↔
    (m.copyThrough (c.agentPathBase + min (c.contextLengths 0) c.contextPathLen) c.agentPathBase
      (c.contextPathLen - min (c.contextLengths 0) c.contextPathLen)).2 = true := by
  have hrest : c.rest 1 = c.contextPathLen - min (c.contextLengths 0) c.contextPathLen := by
    simp only [ContextState.rest]
    omega
  unfold ContextState.Movable
  rw [hrest]
  constructor
  · rintro ⟨hr, hw⟩
    exact copyThrough_ok hr hw
  · intro h
    exact writable_of_copyThrough h

/-- An eviction that moves the path drops the first node. -/
theorem evictOldest_moves (h0 : c.contextNodeCount ≠ 0) (hm : c.Movable m 0) :
    (c.evictOldest m).1.contextNodeCount = c.contextNodeCount - 1 ∧
      (c.evictOldest m).1.contextPathLen = c.rest 1 ∧
      (c.evictOldest m).1.contextLengths =
        ContextState.shiftDown c.contextLengths c.contextNodeCount 0 := by
  have hcopy := movable_iff.1 hm
  have hrest : c.contextPathLen - min (c.contextLengths 0) c.contextPathLen = c.rest 1 := by
    simp only [ContextState.rest]
    omega
  unfold ContextState.evictOldest
  rw [if_neg h0]
  dsimp only
  rw [if_neg (by rw [hcopy]; decide)]
  exact ⟨rfl, hrest, rfl⟩

/-- An eviction that cannot, or has no node to drop, leaves no path. -/
theorem evictOldest_clears (h : c.contextNodeCount = 0 ∨ ¬ c.Movable m 0) :
    (c.evictOldest m).1.contextNodeCount = 0 ∧ (c.evictOldest m).1.contextPathLen = 0 := by
  unfold ContextState.evictOldest
  by_cases h0 : c.contextNodeCount = 0
  · rw [if_pos h0]
    exact ⟨h0, rfl⟩
  have hcopy := mt movable_iff.2 (h.resolve_left h0)
  rw [if_neg h0]
  dsimp only
  rw [if_pos (by simpa using hcopy)]
  exact ⟨rfl, rfl⟩

/-- What an eviction leaves of the path is what `rest` says. -/
theorem rest_evicted (h0 : c.contextNodeCount ≠ 0) (hm : c.Movable m 0) :
    ∀ {j : ℕ}, j < c.contextNodeCount → (c.evictOldest m).1.rest j = c.rest (j + 1) := by
  obtain ⟨-, hlen, hlengths⟩ := evictOldest_moves h0 hm
  intro j
  induction j with
  | zero => intro _; exact hlen
  | succ j ih =>
    intro hj
    have hstep : (c.evictOldest m).1.rest (j + 1) =
        (c.evictOldest m).1.rest j - (c.evictOldest m).1.contextLengths j := rfl
    rw [hstep, ih (by omega), hlengths, shiftDown_of hj]
    rfl

/-- The place of a record is the same before and after an eviction that has to be. -/
theorem lands_evicted (h0 : c.contextNodeCount ≠ 0) (hroom : ¬ c.RoomAt 0 n) (hm : c.Movable m 0)
    (h : (c.evictOldest m).1.Lands (c.evictOldest m).2 n x) : c.Lands m n x := by
  obtain ⟨hcount, -, hlengths⟩ := evictOldest_moves h0 hm
  have hregion := (evictOldest_kept c m).region
  have hrest : ∀ j < c.contextNodeCount, (c.evictOldest m).1.rest j = c.rest (j + 1) :=
    fun j hj => rest_evicted h0 hm hj
  have hroomAt : ∀ j < c.contextNodeCount,
      ((c.evictOldest m).1.RoomAt j n ↔ c.RoomAt (j + 1) n) := by
    intro j hj
    unfold ContextState.RoomAt
    rw [hrest j hj, hcount, hregion.capacity, Nat.sub_sub, Nat.add_comm 1 j]
  have hmove : ∀ j, j + 1 < c.contextNodeCount →
      ((c.evictOldest m).1.Movable (c.evictOldest m).2 j ↔ c.Movable m (j + 1)) := by
    intro j hj
    unfold ContextState.Movable Readable Writable
    rw [hrest j (by omega), hrest (j + 1) hj, hregion.base, hregion.user, hregion.writable, hlengths,
      shiftDown_of hj]
  obtain ⟨k, hk, hlt, hend⟩ := h
  rw [hcount] at hk hend
  refine ⟨k + 1, by omega, fun j hj => ?_, ?_⟩
  · cases j with
    | zero => exact ⟨hroom, hm⟩
    | succ j =>
      obtain ⟨hr, hv⟩ := hlt j (by omega)
      exact ⟨mt (hroomAt j (by omega)).2 hr, (hmove j (by omega)).1 hv⟩
  · rcases hend with ⟨hr, rfl⟩ | ⟨hr, hstop, rfl⟩
    · exact .inl ⟨(hroomAt k (by omega)).1 hr, hrest k (by omega)⟩
    · refine .inr ⟨mt (hroomAt k (by omega)).2 hr, ?_, rfl⟩
      by_cases hlast : k + 1 = c.contextNodeCount
      · exact .inl hlast
      · right
        rw [← hmove k (by omega)]
        exact hstop.resolve_left (by omega)

/-- **The loop that makes room** ends, where the record lands. -/
theorem evictLoop_lands (hfit : n ≤ c.agentPathCapacity) {fuel : ℕ}
    (hfuel : c.contextNodeCount + 2 ≤ fuel) :
    ∃ c' m', ContextState.evictLoop fuel c m n = some (c', m') ∧ c.Lands m n c'.contextPathLen := by
  induction fuel generalizing c m with
  | zero => omega
  | succ fuel ih =>
    have hneed : (agentContextMaxNodes ≤ c.contextNodeCount ∨
        c.agentPathCapacity < c.contextPathLen + n) ↔ ¬ c.RoomAt 0 n := by
      unfold ContextState.RoomAt
      simp only [ContextState.rest]
      omega
    simp only [ContextState.evictLoop]
    by_cases hroom : c.RoomAt 0 n
    · rw [if_neg fun h => hneed.1 h hroom]
      exact ⟨c, m, rfl, 0, Nat.zero_le _, fun j hj => absurd hj (Nat.not_lt_zero j), .inl ⟨hroom, rfl⟩⟩
    rw [if_pos (hneed.2 hroom)]
    have hcap := (evictOldest_kept c m).region.capacity
    by_cases hstop : c.contextNodeCount = 0 ∨ ¬ c.Movable m 0
    · -- nothing is left: the next round ends the loop
      obtain ⟨hcount, hlen⟩ := evictOldest_clears hstop
      obtain ⟨fuel, rfl⟩ : ∃ f, fuel = f + 1 := ⟨fuel - 1, by omega⟩
      have hmax : (c.evictOldest m).1.contextNodeCount < agentContextMaxNodes := by
        rw [hcount]
        decide
      refine ⟨_, _, evictLoop_room hmax (by rw [hcap]; omega), 0, Nat.zero_le _,
        fun j hj => absurd hj (Nat.not_lt_zero j), .inr ⟨hroom, ?_, hlen⟩⟩
      exact hstop.imp_left Eq.symm
    · obtain ⟨h0, hm⟩ := not_or.1 hstop
      rw [not_not] at hm
      obtain ⟨hcount, -, -⟩ := evictOldest_moves h0 hm
      obtain ⟨c', m', hloop, hlands⟩ := ih (c := (c.evictOldest m).1) (m := (c.evictOldest m).2)
        (by rw [hcap]; exact hfit) (by omega)
      exact ⟨c', m', hloop, lands_evicted h0 hroom hm hlands⟩

/-! ### The push -/

/-- Where `generation` lies in the header. -/
def generationOffset : ℕ := 4 * 4 + 5 * 8

/-- The published header has an odd generation. -/
def PublishedOdd (c : ContextState) (m : Memory) : Prop :=
  c.contextRegionStart ≠ 0 ∧ (m.byte (c.contextRegionStart + generationOffset)).toNat % 2 = 1

/-- The Context is as before: live nodes and bytes, counts, sequence numbers, dependencies and
digest ring; and the header is not left with an odd generation. -/
structure SameContext (c c' : ContextState) (m m' : Memory) : Prop where
  count : c'.contextNodeCount = c.contextNodeCount
  pathLen : c'.contextPathLen = c.contextPathLen
  offsets : ∀ i < c.contextNodeCount, c'.contextOffsets i = c.contextOffsets i
  lengths : ∀ i < c.contextNodeCount, c'.contextLengths i = c.contextLengths i
  bytes : slice m'.byte c.agentPathBase c.contextPathLen =
    slice m.byte c.agentPathBase c.contextPathLen
  first : c'.contextFirstSequence = c.contextFirstSequence
  next : c'.contextNextSequence = c.contextNextSequence
  dropped : c'.contextDroppedNodes = c.contextDroppedNodes
  deps : c'.contextDeps = c.contextDeps
  ring : SameRing c c'
  header : PublishedOdd c' m' → PublishedOdd c m

/-- The record of the node fits, the header can be written, and the record cannot. -/
def RecordBlocked (c : ContextState) (m : Memory) (node : AgentContextNode) : Prop :=
  c.contextRegionStart ≠ 0 ∧ (pushText c node).length ≤ c.agentPathCapacity ∧
    Writable m c.contextRegionStart sizeofContextHeader ∧
    ∃ x, c.Lands m (pushText c node).length x ∧
      ¬ Writable m (c.agentPathBase + x) (pushText c node).length

theorem seqSucc_ne (n : ℕ) : seqSucc n ≠ n := by
  unfold seqSucc
  split <;> omega

theorem writeHeader_ok_iff {h : AgentContextHeader} : (c.writeHeader m h).2 = true ↔
    c.contextRegionStart ≠ 0 ∧ Writable m c.contextRegionStart sizeofContextHeader := by
  constructor
  · intro hok
    unfold ContextState.writeHeader at hok
    split at hok
    · cases hok
    · rename_i h0
      have hw := writable_of_copyout hok
      rw [header_length] at hw
      exact ⟨h0, hw⟩
  · rintro ⟨h0, hw⟩
    exact writeHeader_writable h0 hw h

/-- The header of a region at the start of a page is written whole or not at all. -/
theorem writeHeader_whole (halign : c.contextRegionStart % pgsize = 0) {h : AgentContextHeader}
    (hno : (c.writeHeader m h).2 = false) : (c.writeHeader m h).1 = m := by
  unfold ContextState.writeHeader at hno ⊢
  split
  · rfl
  rename_i h0
  rw [if_neg h0] at hno
  unfold Memory.copyout at hno ⊢
  split at hno
  · cases hno
  · rename_i g hg
    have hpage := mem_pages.1 (List.mem_of_find?_eq_some hg)
    rw [header_length] at hpage
    have hstart : g * pgsize - c.contextRegionStart = 0 := by
      unfold pgsize sizeofContextHeader at *
      omega
    simp only [hstart, List.take_zero, write_nil]

/-- A push that takes no number leaves the memory alone. -/
theorem push_unnumbered_mem (halign : c.contextRegionStart % pgsize = 0) {r : ℤ}
    (h : c.takesNumber m node now = false)
    (hpush : c.agentContextPushNode m node now = some (c', m', r)) : m' = m := by
  unfold ContextState.agentContextPushNode at hpush
  dsimp only at hpush
  split at hpush
  · cases hpush
    rfl
  rename_i h0
  split at hpush
  · cases hpush
    rfl
  rename_i hfit
  split at hpush
  · rename_i hno
    cases hpush
    exact writeHeader_whole halign hno
  · rename_i hok
    have htakes : c.takesNumber m node now = true :=
      takesNumber_iff.2 ⟨h0, not_lt.1 hfit, by simpa using hok⟩
    rw [h] at htakes
    cases htakes

/-- What the push stores before it makes room has no say in where the record lands. -/
theorem lands_numbered : (numbered c m now).1.Lands (numbered c m now).2 n x ↔ c.Lands m n x := by
  obtain ⟨hregion, -⟩ := numbered_kept c m now
  have hrest : ∀ k, (numbered c m now).1.rest k = c.rest k := by
    intro k
    induction k with
    | zero => rfl
    | succ k ih => exact congrArg (· - c.contextLengths k) ih
  have hroom : ∀ k, (numbered c m now).1.RoomAt k n ↔ c.RoomAt k n := by
    intro k
    unfold ContextState.RoomAt
    rw [hrest, hregion.capacity]
    exact Iff.rfl
  have hmove : ∀ k, (numbered c m now).1.Movable (numbered c m now).2 k ↔ c.Movable m k := by
    intro k
    unfold ContextState.Movable Readable Writable
    rw [hrest, hrest, hregion.base, hregion.user, hregion.writable]
    exact Iff.rfl
  unfold ContextState.Lands
  simp only [hrest, hroom, hmove]
  exact Iff.rfl

/-- **A push that takes a number** makes room, and fails exactly if the record cannot be copied to
its place. -/
theorem push_taken (h : c.takesNumber m node now = true) :
    ∃ c₂ m₂, MakesRoom c m node now c₂ m₂ ∧ c.Lands m (pushText c node).length c₂.contextPathLen ∧
      ((recordCopy c node c₂ m₂).2 = true ↔
        Writable m (c.agentPathBase + c₂.contextPathLen) (pushText c node).length) := by
  obtain ⟨h0, hfit, -⟩ := takesNumber_iff.1 h
  obtain ⟨hregion, -⟩ := numbered_kept c m now
  have hfit' : (pushText c node).length ≤ (numbered c m now).1.agentPathCapacity := by
    rw [hregion.capacity]
    exact hfit
  obtain ⟨c₂, m₂, hloop, hlands⟩ := evictLoop_lands (m := (numbered c m now).2) hfit' le_rfl
  refine ⟨c₂, m₂, hloop, lands_numbered.1 hlands, ?_⟩
  have hsame := hregion.trans (evictLoop_kept hloop).region
  have hw : Writable m₂ (c₂.agentPathBase + c₂.contextPathLen) (pushText c node).length ↔
      Writable m (c.agentPathBase + c₂.contextPathLen) (pushText c node).length := by
    unfold Writable
    rw [hsame.base, hsame.user, hsame.writable]
  rw [← hw]
  constructor
  · exact writable_of_copyout
  · intro hwr
    unfold recordCopy
    rw [copyout_of hwr]

/-- **A push that records succeeds**: the header could be written before. -/
theorem push_synced (h : c.takesNumber m node now = true) (hloop : MakesRoom c m node now c₂ m₂) :
    (recordedPush c node now c₂ m₂).2.2 = true := by
  obtain ⟨-, -, hok⟩ := takesNumber_iff.1 h
  obtain ⟨h0, hw⟩ : c.contextRegionStart ≠ 0 ∧ Writable m c.contextRegionStart sizeofContextHeader :=
    writeHeader_ok_iff.1 hok
  obtain ⟨hregion, -⟩ := numbered_kept c m now
  have hsame := hregion.trans (evictLoop_kept hloop).region
  obtain ⟨hu, hwr⟩ := copyout_pages m₂ (c₂.agentPathBase + c₂.contextPathLen) (pushText c node)
  obtain ⟨-, -, -, -, -, -, -, -, hstart, -, -⟩ := appendNode_fields c₂ c.contextNextSequence
    (pushText c node).length (c.pendingDep c.contextNextSequence) node
  refine writeHeader_ok_iff.2 ?_
  dsimp only
  rw [hstart, hsame.start]
  refine ⟨h0, ?_⟩
  unfold Writable recordCopy at *
  rw [hu, hwr, hsame.user, hsame.writable]
  exact hw

/-- **A push that returns -1 leaves the Context as it was** exactly if it is not the record that
could not be written: then the push has taken its number, made room and published an odd header. -/
theorem push_undone (c : ContextState) (m : Memory) (node : AgentContextNode) (now : ℕ)
    (halign : c.contextRegionStart % pgsize = 0) :
    (∀ c' m', c.agentContextPushNode m node now = some (c', m', -1) → SameContext c c' m m') ↔
      ¬ RecordBlocked c m node := by
  constructor
  · rintro hsame ⟨h0, hfit, hw, x, hx, hno⟩
    have htakes : c.takesNumber m node now = true :=
      takesNumber_iff.2 ⟨h0, hfit, writeHeader_ok_iff.2 ⟨h0, hw⟩⟩
    obtain ⟨c₂, m₂, hloop, hlands, hcopy⟩ := push_taken htakes
    obtain rfl := lands_unique hx hlands
    have hlost : (recordCopy c node c₂ m₂).2 = false := by
      simpa using mt hcopy.1 hno
    have hpush := push_numbered htakes
    rw [show ContextState.evictLoop _ _ _ _ = some (c₂, m₂) from hloop, Option.map_some,
      if_pos hlost] at hpush
    have hnext := (hsame _ _ hpush).next
    have hkept : c₂.contextNextSequence = seqSucc c.contextNextSequence := (evictLoop_kept hloop).next
    exact seqSucc_ne _ (hkept.symm.trans hnext)
  · intro hfree c' m' hpush
    cases htakes : c.takesNumber m node now with
    | false =>
      obtain rfl := push_unnumbered_mem halign htakes hpush
      obtain ⟨c₂, m₂, hpush', hsync⟩ := push_unnumbered htakes
      rw [hpush] at hpush'
      obtain ⟨rfl, rfl, -⟩ : c' = c₂ ∧ m' = m₂ ∧ True := by simpa using hpush'
      obtain ⟨g, rfl⟩ := hsync.ctx
      exact ⟨rfl, rfl, fun _ _ => rfl, fun _ _ => rfl, rfl, rfl, rfl, rfl, rfl, ⟨rfl, rfl, rfl⟩, id⟩
    | true =>
      exfalso
      obtain ⟨h0, hfit, hok⟩ := takesNumber_iff.1 htakes
      obtain ⟨c₂, m₂, hloop, hlands, hcopy⟩ := push_taken htakes
      rw [push_numbered htakes, show ContextState.evictLoop _ _ _ _ = some (c₂, m₂) from hloop,
        Option.map_some] at hpush
      dsimp only at hpush
      by_cases hlost : (recordCopy c node c₂ m₂).2 = false
      · exact hfree ⟨h0, hfit, (writeHeader_ok_iff.1 hok).2, _, hlands,
          mt hcopy.2 (by rw [hlost]; decide)⟩
      · rw [if_neg hlost, if_pos (push_synced htakes hloop)] at hpush
        simp at hpush

end

/-! ### Ten nodes in a region of one page -/

/-- Ten nodes that end 16 bytes before the second page of the region. -/
def tenNodes : ContextState :=
  { ContextState.init with
    contextRegionStart := pgsize
    contextRegionSize := agentContextRegionSize
    contextPathLen := 3440
    contextNodeCount := 10
    contextOffsets := fun i => if i < 10 then 344 * i else 0
    contextLengths := fun i => if i < 10 then 344 else 0
    contextGeneration := 22
    contextFirstSequence := 1
    contextNextSequence := 11 }

/-- The user memory with the pages from `lo` to `hi`. -/
def pagesOf (lo hi : ℕ) : Memory where
  byte _ := 0
  user g := decide (lo ≤ g ∧ g ≤ hi)
  writable g := decide (lo ≤ g ∧ g ≤ hi)

def emptyNode : AgentContextNode := ⟨0, 0, 0, 0, 0, [], []⟩

set_option maxRecDepth 100000 in
/-- Without the page of the header a push fails, and changes nothing. -/
theorem push_undone_headless :
    (tenNodes.agentContextPushNode (pagesOf 2 2) emptyNode 0).map (fun r => r.2.2) = some (-1) ∧
      ∀ c' m', tenNodes.agentContextPushNode (pagesOf 2 2) emptyNode 0 = some (c', m', -1) →
        SameContext tenNodes c' (pagesOf 2 2) m' := by
  refine ⟨by decide +kernel,
    (push_undone tenNodes (pagesOf 2 2) emptyNode 0 (by decide)).2 ?_⟩
  rintro ⟨-, -, hw, -⟩
  have hpage := (hw 1 (by decide +kernel)).1
  exact absurd hpage (by decide)

set_option maxRecDepth 100000 in
/-- The process has given back the second page of its region: the record runs into it. The push
has taken its number, and the header stays odd. -/
theorem push_half_done :
    ∃ c' m', tenNodes.agentContextPushNode (pagesOf 1 1) emptyNode 0 = some (c', m', -1) ∧
      c'.contextNextSequence = 12 ∧ tenNodes.contextNextSequence = 11 ∧
      ¬ PublishedOdd tenNodes (pagesOf 1 1) ∧ PublishedOdd c' m' := by
  have hrun : (tenNodes.agentContextPushNode (pagesOf 1 1) emptyNode 0).map (fun r =>
      (r.2.2, r.1.contextNextSequence, r.1.contextRegionStart,
        (r.2.1.byte (pgsize + generationOffset)).toNat % 2)) = some (-1, 12, pgsize, 1) := by
    decide +kernel
  obtain ⟨⟨c', m', v⟩, hpush, hend⟩ := Option.map_eq_some_iff.1 hrun
  simp only [Prod.mk.injEq] at hend
  obtain ⟨rfl, hnext, hstart, hodd⟩ := hend
  refine ⟨c', m', hpush, hnext, rfl, fun h => absurd h.2 (by decide), ?_, ?_⟩
  · rw [hstart]
    decide
  · rw [hstart]
    exact hodd

end AgentOS
