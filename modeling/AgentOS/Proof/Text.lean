import Mathlib.Data.List.Flatten
import AgentOS.Proof.Region

/-!
# The text of the Context Path

`Texts c m L`: the records `L`, oldest first, are what the PCB counts and what lies in the
path area.

* `Texts.evict`, `Texts.evicted`: an eviction drops the first record; where a copy fails it
  drops all of them.
* `Texts.append`, `Texts.take`: a push and a rollback.
* `Texts.query`: a query that succeeds returns a prefix of the text.
* `record_spec`: a record has no NUL and fits its buffer.
-/

namespace AgentOS

open Slice

/-- **The PCB and the path area hold the records.** -/
structure Texts (c : ContextState) (m : Memory) (L : List (List UInt8)) : Prop where
  count : c.contextNodeCount = L.length
  pathLen : c.contextPathLen = L.flatten.length
  bytes : slice m.byte c.agentPathBase L.flatten.length = L.flatten
  offset : ∀ i < L.length, c.contextOffsets i = (L.take i).flatten.length
  length : ∀ i (h : i < L.length), c.contextLengths i = L[i].length

section

variable {c c' : ContextState} {m m' : Memory} {L : List (List UInt8)} {r : List UInt8} {n k : ℕ}

theorem texts_nil (hc : c.contextNodeCount = 0) (hp : c.contextPathLen = 0) : Texts c m [] :=
  ⟨hc, hp, rfl, fun i hi => absurd hi (Nat.not_lt_zero i), fun i hi => absurd hi (Nat.not_lt_zero i)⟩

/-- Only these fields and the bytes of the path matter. -/
theorem Texts.congr (h : Texts c m L) (hs : c'.contextRegionStart = c.contextRegionStart)
    (hc : c'.contextNodeCount = c.contextNodeCount) (hp : c'.contextPathLen = c.contextPathLen)
    (ho : c'.contextOffsets = c.contextOffsets) (hl : c'.contextLengths = c.contextLengths)
    (hb : slice m'.byte c.agentPathBase c.contextPathLen =
      slice m.byte c.agentPathBase c.contextPathLen) : Texts c' m' L := by
  have hbase : c'.agentPathBase = c.agentPathBase := by
    unfold ContextState.agentPathBase
    rw [hs]
  refine ⟨hc.trans h.count, hp.trans h.pathLen, ?_, by rw [ho]; exact h.offset,
    by rw [hl]; exact h.length⟩
  rw [hbase, ← h.pathLen, hb, h.pathLen]
  exact h.bytes

theorem Synced.texts (h : Synced c c' m m') (hl : Texts c m L) : Texts c' m' L := by
  obtain ⟨⟨g, rfl⟩, hp, -, -⟩ := h
  exact hl.congr rfl rfl rfl rfl rfl (hp _)

/-- What is left of a list is no longer than the list. -/
theorem flatten_length_le_of_sublist {L' : List (List UInt8)} (h : L'.Sublist L) :
    L'.flatten.length ≤ L.flatten.length := (h.flatten).length_le

/-! ### Eviction -/

theorem shiftDown_of {α : Type} {f : ℕ → α} {z : α} {i : ℕ} (h : i + 1 < n) :
    ContextState.shiftDown f n z i = f (i + 1) := by
  unfold ContextState.shiftDown
  rw [if_pos h]

/-- An eviction of a record whose copy reaches its end. -/
theorem Texts.evict_eq (h : Texts c m (r :: L))
    (hcopy : (m.copyThrough (c.agentPathBase + r.length) c.agentPathBase L.flatten.length).2 =
      true) :
    c.evictOldest m = ({ c with
      contextPathLen := L.flatten.length
      contextOffsets := ContextState.shiftDown
        (fun i => (c.contextOffsets i + 2 ^ 16 - r.length % 2 ^ 16) % 2 ^ 16) c.contextNodeCount 0
      contextLengths := ContextState.shiftDown c.contextLengths c.contextNodeCount 0
      contextDeps := ContextState.shiftDown c.contextDeps c.contextNodeCount AgentContextDep.zero
      contextNodeCount := c.contextNodeCount - 1
      contextDroppedNodes := (c.contextDroppedNodes + 1) % 2 ^ 64
      contextFirstSequence := (c.contextFirstSequence + 1) % 2 ^ 64 },
      { m with byte := write m.byte c.agentPathBase L.flatten }) := by
  have hcount : c.contextNodeCount = L.length + 1 := h.count
  have hlen : c.contextPathLen = r.length + L.flatten.length := by
    rw [h.pathLen, List.flatten_cons, List.length_append]
  have hfl : min (c.contextLengths 0) c.contextPathLen = r.length := by
    rw [h.length 0 (by simp), hlen]
    simp
  have hremain : c.contextPathLen - r.length = L.flatten.length := by omega
  -- the bytes behind the first record are those of the rest
  have hrest : slice m.byte (c.agentPathBase + r.length) L.flatten.length = L.flatten := by
    have hb := h.bytes
    rw [List.flatten_cons, List.length_append, slice_add] at hb
    exact (List.append_inj hb (by simp)).2
  have hmoved := copyThrough_done hcopy (.inl (Nat.le_add_right _ _))
  rw [hrest] at hmoved
  unfold ContextState.evictOldest
  rw [if_neg (by omega)]
  dsimp only
  rw [hfl, hremain, hmoved, if_neg (by simp)]

/-- **An eviction drops the first record.** -/
theorem Texts.evict (h : Texts c m (r :: L)) (hsize : (r :: L).flatten.length ≤ pathSize)
    (hcopy : (m.copyThrough (c.agentPathBase + r.length) c.agentPathBase L.flatten.length).2 =
      true) :
    Texts (c.evictOldest m).1 (c.evictOldest m).2 L := by
  have hp := pathSize_eq
  rw [List.flatten_cons, List.length_append] at hsize
  have hcount : c.contextNodeCount = L.length + 1 := h.count
  rw [h.evict_eq hcopy]
  refine ⟨by simp [hcount], rfl, slice_write_self, fun i hi => ?_, fun i hi => ?_⟩
  · have ho := h.offset (i + 1) (by simpa using hi)
    rw [List.take_succ_cons, List.flatten_cons, List.length_append] at ho
    have hle := flatten_length_le_of_sublist (List.take_sublist i L)
    simp only [shiftDown_of (show i + 1 < c.contextNodeCount by omega), ho]
    omega
  · have hl := h.length (i + 1) (by simpa using hi)
    simp only [shiftDown_of (show i + 1 < c.contextNodeCount by omega), hl]
    rfl

/-- **An eviction drops the oldest records**, all of them where a copy fails. -/
theorem Texts.evicted (h : Texts c m L) (hsize : L.flatten.length ≤ pathSize) :
    ∃ k, Texts (c.evictOldest m).1 (c.evictOldest m).2 (L.drop k) := by
  cases L with
  | nil =>
    refine ⟨0, ?_⟩
    have hcount : c.contextNodeCount = 0 := h.count
    unfold ContextState.evictOldest
    rw [if_pos hcount]
    exact texts_nil hcount rfl
  | cons r L =>
    by_cases hcopy :
        (m.copyThrough (c.agentPathBase + r.length) c.agentPathBase L.flatten.length).2 = true
    · exact ⟨1, h.evict hsize hcopy⟩
    · -- the copy stops at a page: nothing is left
      refine ⟨(r :: L).length, ?_⟩
      have hlen : c.contextPathLen = r.length + L.flatten.length := by
        rw [h.pathLen, List.flatten_cons, List.length_append]
      have hfl : min (c.contextLengths 0) c.contextPathLen = r.length := by
        rw [h.length 0 (by simp), hlen]
        simp
      have hremain : c.contextPathLen - r.length = L.flatten.length := by omega
      have hcount : c.contextNodeCount ≠ 0 := by
        rw [h.count]
        simp
      rw [List.drop_length]
      unfold ContextState.evictOldest
      rw [if_neg hcount]
      dsimp only
      rw [hfl, hremain, if_pos (by simpa using hcopy)]
      exact texts_nil rfl rfl

/-! ### Push, rollback and query -/

/-- What the stores of a push leave in the PCB. -/
theorem appendNode_fields (c : ContextState) (sequence recLen : ℕ) (dep : AgentContextDep)
    (node : AgentContextNode) :
    let c' := c.appendNode sequence recLen dep node
    c'.contextNodeCount = c.contextNodeCount + 1 ∧ c'.contextPathLen = c.contextPathLen + recLen ∧
      c'.contextOffsets =
        Function.update c.contextOffsets c.contextNodeCount (c.contextPathLen % 2 ^ 16) ∧
      c'.contextLengths = Function.update c.contextLengths c.contextNodeCount (recLen % 2 ^ 16) ∧
      c'.contextDeps = Function.update c.contextDeps c.contextNodeCount dep ∧
      c'.contextFirstSequence =
        (if c.contextNodeCount = 0 then sequence else c.contextFirstSequence) ∧
      c'.contextNextSequence = c.contextNextSequence ∧
      c'.contextDroppedNodes = c.contextDroppedNodes ∧
      c'.contextRegionStart = c.contextRegionStart ∧ c'.contextRegionSize = c.contextRegionSize ∧
      c'.resourceQuota = c.resourceQuota := by
  unfold ContextState.appendNode
  dsimp only
  by_cases h0 : c.contextNodeCount = 0
  · simp only [if_pos h0]
    exact ⟨rfl, rfl, rfl, rfl, rfl, rfl, rfl, rfl, rfl, rfl, rfl⟩
  · simp only [if_neg h0]
    exact ⟨rfl, rfl, rfl, rfl, rfl, rfl, rfl, rfl, rfl, rfl, rfl⟩

/-- **A record is appended** behind the text. -/
theorem Texts.append (h : Texts c m L) (sequence : ℕ) {rec_ : List UInt8} (dep : AgentContextDep)
    (node : AgentContextNode) (hfit : L.flatten.length + rec_.length ≤ pathSize) :
    Texts (c.appendNode sequence rec_.length dep node)
      { m with byte := write m.byte (c.agentPathBase + c.contextPathLen) rec_ } (L ++ [rec_]) := by
  have hp := pathSize_eq
  obtain ⟨hcount, hlen, hoff, hlength, -, -, -, -, hstart, -, -⟩ :=
    appendNode_fields c sequence rec_.length dep node
  rw [h.count] at hcount hoff hlength
  rw [h.pathLen] at hlen hoff ⊢
  have hbase : (c.appendNode sequence rec_.length dep node).agentPathBase = c.agentPathBase := by
    unfold ContextState.agentPathBase
    rw [hstart]
  have hflat : (L ++ [rec_]).flatten = L.flatten ++ rec_ := by simp
  -- an index is one of the list or the new one
  have hidx : ∀ i, i < (L ++ [rec_]).length → i < L.length ∨ i = L.length := by
    intro i hi
    simp only [List.length_append, List.length_singleton] at hi
    omega
  refine ⟨by simp [hcount], by rw [hlen, hflat, List.length_append], ?_, fun i hi => ?_,
    fun i hi => ?_⟩
  · rw [hbase, hflat, List.length_append, slice_add]
    congr 1
    · rw [slice_write_disjoint (.inl le_rfl)]
      exact h.bytes
    · exact slice_write_self
  · rw [hoff]
    rcases hidx i hi with hlt | rfl
    · rw [Function.update_of_ne (by omega), List.take_append_of_le_length (by omega)]
      exact h.offset i hlt
    · rw [Function.update_self, List.take_left]
      exact Nat.mod_eq_of_lt (by omega)
  · rw [hlength]
    rcases hidx i hi with hlt | rfl
    · rw [Function.update_of_ne (by omega), List.getElem_append_left hlt]
      exact h.length i hlt
    · rw [Function.update_self, List.getElem_append_right le_rfl]
      simp only [Nat.sub_self, List.getElem_cons_zero]
      exact Nat.mod_eq_of_lt (by omega)

/-- The first `k` records. -/
theorem Texts.take (h : Texts c m L) (hk : k ≤ L.length) :
    Texts { c with contextNodeCount := k, contextPathLen := (L.take k).flatten.length } m
      (L.take k) := by
  have hlen : (L.take k).length = k := by rw [List.length_take, Nat.min_eq_left hk]
  have hlt : ∀ i, i < (L.take k).length → i < k ∧ i < L.length := fun i hi => by omega
  refine ⟨hlen.symm, rfl, ?_, fun i hi => ?_, fun i hi => ?_⟩
  · have hle := flatten_length_le_of_sublist (List.take_sublist k L)
    have hsplit : L.flatten = (L.take k).flatten ++ (L.drop k).flatten := by
      rw [← List.flatten_append, List.take_append_drop]
    have hb := congrArg (List.take (L.take k).flatten.length) h.bytes
    rw [slice_take hle, hsplit, List.take_left] at hb
    exact hb
  · rw [List.take_take, Nat.min_eq_left (hlt i hi).1.le]
    exact h.offset i (hlt i hi).2
  · rw [List.getElem_take]
    exact h.length i (hlt i hi).2

/-- Where the last of `k` records ends. -/
theorem Texts.last (h : Texts c m L) (h0 : k ≠ 0) (hk : k ≤ L.length) :
    c.contextOffsets (k - 1) + c.contextLengths (k - 1) = (L.take k).flatten.length := by
  have hidx : k - 1 < L.length := by omega
  have hsucc : k - 1 + 1 = k := by omega
  have htake : L.take k = L.take (k - 1) ++ [L[k - 1]] := by
    rw [← List.take_succ_eq_append_getElem hidx, hsucc]
  have hlen := congrArg (fun L : List (List UInt8) => L.flatten.length) htake
  rw [h.offset _ hidx, h.length _ hidx, hlen, List.flatten_append, List.length_append]
  simp

/-- **A query that succeeds** returns a prefix of the text. -/
theorem Texts.query (h : Texts c m L) {dst len : ℕ}
    (hret : (c.agentContextQuery m dst len).2.2 ≠ -1)
    (ho : dst ≤ c.agentPathBase ∨ c.agentPathBase + min len c.contextPathLen ≤ dst ∨
      min len c.contextPathLen ≤ 128) :
    (c.agentContextQuery m dst len).2.2 = (L.flatten.take len).length ∧
      slice (c.agentContextQuery m dst len).2.1.byte dst (L.flatten.take len).length =
        L.flatten.take len := by
  have hquery : c.agentContextQuery m dst len = ({ c with contextReuseHit := 1 },
      (m.copyThrough c.agentPathBase dst (min len c.contextPathLen)).1,
      if (m.copyThrough c.agentPathBase dst (min len c.contextPathLen)).2 then
        ((min len c.contextPathLen : ℕ) : ℤ) else -1) := rfl
  have hcopy : (m.copyThrough c.agentPathBase dst (min len c.contextPathLen)).2 = true := by
    rw [hquery] at hret
    by_contra hfalse
    exact hret (if_neg hfalse)
  have hlen : (L.flatten.take len).length = min len c.contextPathLen := by
    rw [List.length_take, h.pathLen]
  have hread : slice m.byte c.agentPathBase (min len c.contextPathLen) = L.flatten.take len := by
    have hb := congrArg (List.take len) h.bytes
    rcases Nat.le_total len L.flatten.length with hle | hle
    · rw [slice_take hle] at hb
      rw [h.pathLen, Nat.min_eq_left hle, hb]
    · rw [h.pathLen, Nat.min_eq_right hle, List.take_of_length_le hle]
      exact h.bytes
  rw [hquery, copyThrough_done hcopy ho, hread, hlen]
  refine ⟨rfl, ?_⟩
  conv_lhs => rw [← hlen]
  exact slice_write_self

end

/-! ### The length of a record -/

section

variable {out l s : List UInt8} {c : UInt8}

theorem bufPutc_length (out : List UInt8) (c : UInt8) :
    (bufPutc out c).length = max out.length (min (recordSize - 1) (out.length + 1)) := by
  unfold bufPutc
  split
  · omega
  · rw [List.length_append, List.length_singleton]
    omega

theorem foldl_bufPutc_length (l out : List UInt8) :
    (l.foldl bufPutc out).length = max out.length (min (recordSize - 1) (out.length + l.length)) := by
  induction l generalizing out with
  | nil => simp
  | cons c l ih =>
    rw [List.foldl_cons, ih, bufPutc_length, List.length_cons]
    omega

theorem foldl_bufPutc_zero (ho : (0 : UInt8) ∉ out) (hl : (0 : UInt8) ∉ l) :
    (0 : UInt8) ∉ l.foldl bufPutc out := by
  induction l generalizing out with
  | nil => exact ho
  | cons c l ih =>
    rw [List.mem_cons, not_or] at hl
    refine ih ?_ hl.2
    unfold bufPutc
    split
    · exact ho
    · rw [List.mem_append, List.mem_singleton, not_or]
      exact ⟨ho, hl.1⟩

theorem decimal_zero (v : ℕ) : (0 : UInt8) ∉ decimal v := by
  intro h
  unfold decimal at h
  obtain ⟨c, hc, h0⟩ := List.mem_map.1 h
  have hdigit := Nat.isDigit_of_mem_toDigits (by decide) (by decide) hc
  have hrange : 48 ≤ c.toNat ∧ c.toNat ≤ 57 := by
    simp only [Char.isDigit, Bool.and_eq_true, decide_eq_true_eq] at hdigit
    exact ⟨hdigit.1, hdigit.2⟩
  have hmod := congrArg UInt8.toNat h0
  rw [UInt8.toNat_ofNat'] at hmod
  simp at hmod
  omega

theorem bufPuts_zero (ho : (0 : UInt8) ∉ out) (s : List UInt8) : (0 : UInt8) ∉ bufPuts out s :=
  foldl_bufPutc_zero ho (cstr_zero s)

theorem bufPutu_zero (ho : (0 : UInt8) ∉ out) (v : ℕ) : (0 : UInt8) ∉ bufPutu out v :=
  foldl_bufPutc_zero ho (decimal_zero v)

theorem bufPuts_length (out s : List UInt8) : (bufPuts out s).length =
    max out.length (min (recordSize - 1) (out.length + strlen s)) := foldl_bufPutc_length _ _

theorem bufPutu_length (out : List UInt8) (v : ℕ) : (bufPutu out v).length =
    max out.length (min (recordSize - 1) (out.length + (decimal v).length)) :=
  foldl_bufPutc_length _ _

theorem bufPuts_le (h : out.length ≤ recordSize - 1) (s : List UInt8) :
    (bufPuts out s).length ≤ recordSize - 1 := by
  rw [bufPuts_length]
  omega

theorem bufPutu_le (h : out.length ≤ recordSize - 1) (v : ℕ) :
    (bufPutu out v).length ≤ recordSize - 1 := by
  rw [bufPutu_length]
  omega

/-- **A record** has no NUL, fits its buffer, and holds the request and the result as far as the
buffer goes. -/
theorem record_spec (sequence : ℕ) (node : AgentContextNode) :
    cstr (ContextState.record sequence node) = ContextState.record sequence node ∧
      (ContextState.record sequence node).length ≤ recordSize - 1 ∧
      min (recordSize - 1) (strlen node.request + strlen node.result) ≤
        (ContextState.record sequence node).length := by
  have hzero : (0 : UInt8) ∉ ContextState.record sequence node := by
    unfold ContextState.record
    repeat' first
      | apply bufPuts_zero
      | apply bufPutu_zero
    simp
  refine ⟨?_, ?_, ?_⟩
  · unfold cstr
    rw [List.takeWhile_eq_self_iff]
    intro x hx
    have hne : x ≠ 0 := by
      rintro rfl
      exact hzero hx
    simpa using hne
  · unfold ContextState.record
    repeat' first
      | apply bufPuts_le
      | apply bufPutu_le
    exact Nat.zero_le _
  · unfold ContextState.record
    dsimp only
    -- what is put before the request only adds to the length
    generalize bufPuts (bufPutu _ _) (lit ",req=") = out
    have hreq := bufPuts_length out node.request
    have hsep := bufPuts_length (bufPuts out node.request) (lit ",res=")
    have hres := bufPuts_length (bufPuts (bufPuts out node.request) (lit ",res=")) node.result
    have hend := bufPuts_length (bufPuts (bufPuts (bufPuts out node.request) (lit ",res="))
      node.result) (lit "\x7d\n")
    omega

end

end AgentOS
