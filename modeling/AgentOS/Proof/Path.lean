import AgentOS.Lib.Fifo
import AgentOS.Proof.Branches

/-!
# The calls on the Context Path

* `Entry`, `Lists`: a list of entries and what it says of the PCB and of the path area.
* `Lists.evict`, `evictLoop_spec`: an eviction drops the first entry; the loop of a push
  drops the shortest prefix that makes room.
* `Represents`: such a list within the bounds.
* `push_spec`, `rollback_spec`, `query_spec`, `clear_spec`: the calls on the list.
-/

namespace AgentOS

open Slice Fifo

/-! ### The list -/

/-- One node of the Context Path. -/
structure Entry where
  sequence : ℕ
  record : List UInt8
  dep : AgentContextDep

/-- The bytes of a list of nodes. -/
def size (l : List Entry) : ℕ := total (fun e => e.record.length) l

/-- The text of a list of nodes. -/
def text (l : List Entry) : List UInt8 := l.flatMap Entry.record

/-- **The PCB and the path area hold the list.** -/
structure Lists (c : ContextState) (m : Memory) (l : List Entry) : Prop where
  count : c.contextNodeCount = l.length
  pathLen : c.contextPathLen = size l
  bytes : slice m.byte c.agentPathBase (size l) = text l
  offset : ∀ i < l.length, c.contextOffsets i = size (l.take i)
  length : ∀ i (h : i < l.length), c.contextLengths i = l[i].record.length
  dep : ∀ i (h : i < l.length), c.contextDeps i = l[i].dep
  sequence : ∀ i (h : i < l.length), l[i].sequence = c.contextFirstSequence + i

section

variable {c c' : ContextState} {m m' : Memory} {l : List Entry} {e : Entry} {va n k recLen : ℕ}

theorem text_length (l : List Entry) : (text l).length = size l := length_flatMap _

@[simp] theorem size_nil : size [] = 0 := rfl

@[simp] theorem size_cons : size (e :: l) = e.record.length + size l := rfl

theorem size_append (l l' : List Entry) : size (l ++ l') = size l + size l' := total_append

theorem lists_nil (hc : c.contextNodeCount = 0) (hp : c.contextPathLen = 0) : Lists c m [] :=
  ⟨hc, hp, rfl, fun i hi => absurd hi (Nat.not_lt_zero i), fun i hi => absurd hi (Nat.not_lt_zero i),
    fun i hi => absurd hi (Nat.not_lt_zero i), fun i hi => absurd hi (Nat.not_lt_zero i)⟩

/-- The whole region can be read and written. -/
theorem Synced.lists (h : Synced c c' m m') (hl : Lists c m l) : Lists c' m' l := by
  obtain ⟨⟨g, rfl⟩, hp, -, -⟩ := h
  exact ⟨hl.count, hl.pathLen, (hp _).trans hl.bytes, hl.offset, hl.length, hl.dep, hl.sequence⟩

/-! ### Eviction -/

theorem texts_length (l : List Entry) : (l.map Entry.record).flatten.length = size l :=
  text_length l

theorem Lists.texts (h : Lists c m l) : Texts c m (l.map Entry.record) := by
  refine ⟨by simpa using h.count, by rw [texts_length]; exact h.pathLen, ?_, fun i hi => ?_,
    fun i hi => ?_⟩
  · rw [texts_length]
    exact h.bytes
  · rw [← List.map_take, texts_length]
    exact h.offset i (by simpa using hi)
  · rw [List.getElem_map]
    exact h.length i (by simpa using hi)

theorem Texts.lists (h : Texts c m (l.map Entry.record))
    (hdep : ∀ i (h : i < l.length), c.contextDeps i = l[i].dep)
    (hseq : ∀ i (h : i < l.length), l[i].sequence = c.contextFirstSequence + i) : Lists c m l := by
  obtain ⟨hcount, hlen, hbytes, hoff, hlength⟩ := h
  rw [texts_length] at hlen hbytes
  rw [List.length_map] at hcount hoff
  refine ⟨hcount, hlen, hbytes, fun i hi => ?_, fun i hi => ?_, hdep, hseq⟩
  · rw [hoff i hi, ← List.map_take, texts_length]
  · rw [hlength i (by simpa using hi), List.getElem_map]

/-- **An eviction drops the first entry.** -/
theorem Lists.evict (h : Lists c m (e :: l)) (hr : InRegion c m) (hsize : size (e :: l) ≤ pathSize)
    (hfirst : c.contextFirstSequence + 1 < 2 ^ 64) (hdrop : c.contextDroppedNodes + 1 < 2 ^ 64) :
    Lists (c.evictOldest m).1 (c.evictOldest m).2 l ∧
      SameRegion c (c.evictOldest m).1 m (c.evictOldest m).2 ∧
      (c.evictOldest m).1.contextNextSequence = c.contextNextSequence ∧
      (c.evictOldest m).1.contextFirstSequence = c.contextFirstSequence + 1 ∧
      (c.evictOldest m).1.contextDroppedNodes = c.contextDroppedNodes + 1 := by
  have hcount : c.contextNodeCount = l.length + 1 := h.count
  have htexts : Texts c m (e.record :: l.map Entry.record) := h.texts
  have hfit : (e.record :: l.map Entry.record).flatten.length ≤ pathSize := by
    rw [List.flatten_cons, List.length_append, texts_length]
    exact hsize
  have hcopy : (m.copyThrough (c.agentPathBase + e.record.length) c.agentPathBase
      (l.map Entry.record).flatten.length).2 = true := by
    rw [texts_length]
    rw [size_cons] at hsize
    refine copyThrough_ok ?_ (hr.path le_rfl (by omega))
    exact (hr.path (Nat.le_add_right _ _) (by omega)).readable
  have hl := htexts.evict hfit hcopy
  rw [htexts.evict_eq hcopy] at hl ⊢
  refine ⟨hl.lists (fun i hi => ?_) (fun i hi => ?_), ⟨rfl, rfl, rfl, rfl, rfl⟩, rfl,
    Nat.mod_eq_of_lt hfirst, Nat.mod_eq_of_lt hdrop⟩
  · have hd := h.dep (i + 1) (by simpa using hi)
    simp only [shiftDown_of (show i + 1 < c.contextNodeCount by omega), hd]
    rfl
  · have hs := h.sequence (i + 1) (by simpa using hi)
    simp only [List.getElem_cons_succ] at hs
    simp only [Nat.mod_eq_of_lt hfirst]
    omega

/-- A record of `recLen` bytes can be appended. -/
def leavesRoom (capacity recLen : ℕ) (l : List Entry) : Bool :=
  l.length < agentContextMaxNodes && size l + recLen ≤ capacity

/-- **The loop of a push** ends, having dropped the shortest prefix that makes room. -/
theorem evictLoop_spec (hr : InRegion c m) (hl : Lists c m l) (hsize : size l ≤ pathSize)
    (hrec : recLen ≤ c.agentPathCapacity) (hfirst : c.contextFirstSequence + l.length < 2 ^ 64)
    (hdrop : c.contextDroppedNodes + l.length < 2 ^ 64) {fuel : ℕ} (hfuel : l.length < fuel) :
    ∃ c' m', ContextState.evictLoop fuel c m recLen = some (c', m') ∧
      Lists c' m' (makeRoom (leavesRoom c.agentPathCapacity recLen) l) ∧ SameRegion c c' m m' ∧
      c'.contextNextSequence = c.contextNextSequence ∧
      c'.contextFirstSequence + (makeRoom (leavesRoom c.agentPathCapacity recLen) l).length =
        c.contextFirstSequence + l.length ∧
      c'.contextDroppedNodes + (makeRoom (leavesRoom c.agentPathCapacity recLen) l).length =
        c.contextDroppedNodes + l.length := by
  -- induction on the list; each round that goes on drops its first entry
  induction l generalizing c m fuel with
  | nil =>
    obtain ⟨fuel, rfl⟩ := Nat.exists_eq_succ_of_ne_zero (by omega : fuel ≠ 0)
    have hdone : ¬ (agentContextMaxNodes ≤ c.contextNodeCount ∨
        c.agentPathCapacity < c.contextPathLen + recLen) := by
      rw [hl.count, hl.pathLen]
      simp
      omega
    refine ⟨c, m, ?_, hl, SameRegion.refl c m, rfl, rfl, rfl⟩
    simp only [ContextState.evictLoop]
    rw [if_neg hdone]
  | cons e l ih =>
    obtain ⟨fuel, rfl⟩ := Nat.exists_eq_succ_of_ne_zero (by omega : fuel ≠ 0)
    by_cases hfit : leavesRoom c.agentPathCapacity recLen (e :: l) = true
    · have hdone : ¬ (agentContextMaxNodes ≤ c.contextNodeCount ∨
          c.agentPathCapacity < c.contextPathLen + recLen) := by
        rw [hl.count, hl.pathLen]
        simp only [leavesRoom, Bool.and_eq_true, decide_eq_true_eq] at hfit
        omega
      rw [makeRoom, if_pos hfit]
      refine ⟨c, m, ?_, hl, SameRegion.refl c m, rfl, rfl, rfl⟩
      simp only [ContextState.evictLoop]
      rw [if_neg hdone]
    · have hmore : agentContextMaxNodes ≤ c.contextNodeCount ∨
          c.agentPathCapacity < c.contextPathLen + recLen := by
        rw [hl.count, hl.pathLen]
        simp only [leavesRoom, Bool.and_eq_true, decide_eq_true_eq] at hfit
        omega
      rw [List.length_cons] at hfirst hdrop hfuel
      obtain ⟨hl', hsame, hnext, hf, hd⟩ := hl.evict hr hsize (by omega) (by omega)
      rw [size_cons] at hsize
      obtain ⟨c', m', hloop, hlist, hsame', hnext', hf', hd'⟩ := ih (hsame.inRegion hr) hl'
        (by omega) (by rw [hsame.capacity]; exact hrec) (by omega) (by omega)
        (show l.length < fuel by omega)
      rw [hsame.capacity] at hlist hf' hd'
      rw [makeRoom, if_neg hfit, List.length_cons]
      refine ⟨c', m', ?_, hlist, hsame.trans hsame', hnext'.trans hnext, by omega, by omega⟩
      simp only [ContextState.evictLoop]
      rw [if_pos hmore]
      exact hloop

/-! ### The calls -/

/-- **A record is appended** behind the text of the list. -/
theorem Lists.append (h : Lists c m l) {sequence : ℕ} {rec_ : List UInt8} (dep : AgentContextDep)
    (node : AgentContextNode) (hfit : size l + rec_.length ≤ pathSize)
    (hseq : l ≠ [] → sequence = c.contextFirstSequence + l.length) :
    Lists (c.appendNode sequence rec_.length dep node)
      { m with byte := write m.byte (c.agentPathBase + c.contextPathLen) rec_ }
      (l ++ [⟨sequence, rec_, dep⟩]) := by
  obtain ⟨-, -, -, -, hdep, hfirst, -, -, -, -, -⟩ :=
    appendNode_fields c sequence rec_.length dep node
  rw [h.count] at hdep
  have hfit' : (l.map Entry.record).flatten.length + rec_.length ≤ pathSize := by
    rw [texts_length]
    exact hfit
  have ht := h.texts.append sequence dep node hfit'
  have hmap : (l ++ [(⟨sequence, rec_, dep⟩ : Entry)]).map Entry.record =
      l.map Entry.record ++ [rec_] := by simp
  -- an index is one of the list or the new one
  have hidx : ∀ i, i < (l ++ [(⟨sequence, rec_, dep⟩ : Entry)]).length →
      i < l.length ∨ i = l.length := by
    intro i hi
    simp only [List.length_append, List.length_singleton] at hi
    omega
  rw [← hmap] at ht
  refine ht.lists (fun i hi => ?_) (fun i hi => ?_)
  · rw [hdep]
    rcases hidx i hi with hlt | rfl
    · rw [Function.update_of_ne (by omega), List.getElem_append_left hlt]
      exact h.dep i hlt
    · rw [Function.update_self, List.getElem_append_right le_rfl]
      simp
  · rw [hfirst, h.count]
    rcases hidx i hi with hlt | rfl
    · rw [if_neg (by omega), List.getElem_append_left hlt]
      exact h.sequence i hlt
    · rw [List.getElem_append_right le_rfl]
      simp only [Nat.sub_self, List.getElem_cons_zero]
      split
      · omega
      · rename_i hne
        exact hseq (by rintro rfl; exact hne rfl)

/-- **The Context Path represents the list.** -/
structure Represents (c : ContextState) (m : Memory) (l : List Entry) : Prop where
  lists : Lists c m l
  nodes : l.length ≤ agentContextMaxNodes
  capacity : size l ≤ c.agentPathCapacity
  next : l ≠ [] → c.contextNextSequence = c.contextFirstSequence + l.length

/-- The entry that a push makes. -/
def newEntry (c : ContextState) (node : AgentContextNode) : Entry :=
  ⟨c.contextNextSequence, cstr (ContextState.record c.contextNextSequence node),
    c.pendingDep c.contextNextSequence⟩

/-- What a push leaves before it makes room. -/
def pushBegin (c : ContextState) (m : Memory) (now : ℕ) : ContextState × Memory :=
  ({ (c.dropPending.writeBegin m now).1 with contextNextSequence := c.contextNextSequence + 1 },
    (c.dropPending.writeBegin m now).2.1)

/-- Only the header, the pending dependency and the next sequence have changed. -/
theorem pushBegin_spec (hr : InRegion c m) (h : Lists c m l) (now : ℕ) :
    Lists (pushBegin c m now).1 (pushBegin c m now).2 l ∧
      SameRegion c (pushBegin c m now).1 m (pushBegin c m now).2 ∧
      (pushBegin c m now).1.contextFirstSequence = c.contextFirstSequence ∧
      (pushBegin c m now).1.contextDroppedNodes = c.contextDroppedNodes := by
  have hdropped : Lists c.dropPending m l :=
    ⟨h.count, h.pathLen, h.bytes, h.offset, h.length, h.dep, h.sequence⟩
  obtain ⟨hsync, -⟩ := writeBegin_of (c := c.dropPending) ⟨hr.start, hr.mapped⟩ now
  have hl := hsync.lists hdropped
  have hsame := hsync.same
  exact ⟨⟨hl.count, hl.pathLen, hl.bytes, hl.offset, hl.length, hl.dep, hl.sequence⟩,
    ⟨hsame.start, hsame.size, hsame.quota, hsame.user, hsame.writable⟩, hsync.first, hsync.dropped⟩

/-- The run of a push whose loop ends in `(c', m')`. -/
theorem push_eq {node : AgentContextNode} {now : ℕ} (hr : InRegion c m)
    (hrec : (newEntry c node).record.length ≤ c.agentPathCapacity)
    (hnext : c.contextNextSequence + 1 < 2 ^ 64)
    (hloop : ContextState.evictLoop ((pushBegin c m now).1.contextNodeCount + 2)
      (pushBegin c m now).1 (pushBegin c m now).2 (newEntry c node).record.length = some (c', m'))
    (hw : Writable m' (c'.agentPathBase + c'.contextPathLen) (newEntry c node).record.length) :
    c.agentContextPushNode m node now =
      let t := (c'.appendNode c.contextNextSequence (newEntry c node).record.length
        (newEntry c node).dep node).syncHeader { m' with
          byte := write m'.byte (c'.agentPathBase + c'.contextPathLen) (newEntry c node).record } now
      some (t.1, t.2.1, if t.2.2 then 0 else -1) := by
  obtain ⟨hsync, hok⟩ := writeBegin_of (c := c.dropPending) ⟨hr.start, hr.mapped⟩ now
  have hstart : c.dropPending.contextRegionStart ≠ 0 := hr.start
  have hlen : strlen (ContextState.record c.contextNextSequence node) =
      (newEntry c node).record.length := rfl
  have hcap : ¬ c.dropPending.agentPathCapacity < (newEntry c node).record.length := not_lt.2 hrec
  have hmod : ((c.dropPending.writeBegin m now).1.contextNextSequence + 1) % 2 ^ 64 =
      c.contextNextSequence + 1 := by
    rw [hsync.next]
    exact Nat.mod_eq_of_lt hnext
  unfold ContextState.agentContextPushNode
  dsimp only
  rw [if_neg hstart, hlen, if_neg hcap, if_neg (by rw [hok]; decide), hmod,
    if_neg (Nat.succ_ne_zero _)]
  refine (congrArg (Option.map _) hloop).trans ?_
  rw [Option.map_some]
  have hcopy := copyout_of hw
  change m'.copyout _ (cstr _) = _ at hcopy
  dsimp only
  rw [hcopy]
  rfl

/-- **A push** of a record that fits ends, drops the shortest prefix that makes room and
appends its entry. -/
theorem push_spec (hr : InRegion c m) (h : Represents c m l) (node : AgentContextNode) (now : ℕ)
    (hrec : (newEntry c node).record.length ≤ c.agentPathCapacity)
    (hnext : c.contextNextSequence + 1 < 2 ^ 64)
    (hfirst : c.contextFirstSequence + l.length < 2 ^ 64)
    (hdrop : c.contextDroppedNodes + l.length < 2 ^ 64) :
    ∃ c' m' k, c.agentContextPushNode m node now = some (c', m', 0) ∧ k ≤ l.length ∧
      Represents c' m' (l.drop k ++ [newEntry c node]) ∧ SameRegion c c' m m' ∧
      c'.contextNextSequence = c.contextNextSequence + 1 ∧
      c'.contextDroppedNodes = c.contextDroppedNodes + k ∧
      leavesRoom c.agentPathCapacity (newEntry c node).record.length (l.drop k) = true ∧
      ∀ j < k, leavesRoom c.agentPathCapacity (newEntry c node).record.length (l.drop j) = false := by
  obtain ⟨e, he⟩ : ∃ e, e = newEntry c node := ⟨_, rfl⟩
  rw [← he] at hrec ⊢
  have hpath := hr.capacity
  have hfits := h.capacity
  obtain ⟨hl₁, hsame₁, hf₁, hd₁⟩ := pushBegin_spec hr h.lists now
  have hcap₁ := hsame₁.capacity
  -- room is made
  obtain ⟨c₂, m₂, hloop, hl₂, hsame₂, hn₂, hf₂, hd₂⟩ := evictLoop_spec (hsame₁.inRegion hr) hl₁
    (by omega) (show e.record.length ≤ _ by rw [hcap₁]; exact hrec) (by omega) (by omega)
    (show l.length < (pushBegin c m now).1.contextNodeCount + 2 by rw [hl₁.count]; omega)
  rw [hcap₁] at hl₂ hf₂ hd₂
  have hnil : leavesRoom c.agentPathCapacity e.record.length [] = true := by
    simp [leavesRoom, agentContextMaxNodes, hrec]
  obtain ⟨k, hk, hdropk, hfit, hmin⟩ := makeRoom_drop (l := l) hnil
  rw [hdropk] at hl₂ hf₂ hd₂
  have hlenk : (l.drop k).length = l.length - k := List.length_drop ..
  have hroom : (l.drop k).length < agentContextMaxNodes ∧
      size (l.drop k) + e.record.length ≤ c.agentPathCapacity := by
    simpa [leavesRoom] using hfit
  have hsame := hsame₁.trans hsame₂
  have hseq : l.drop k ≠ [] → c.contextNextSequence = c₂.contextFirstSequence +
      (l.drop k).length := by
    intro hne
    have hlast := h.next (by rintro rfl; simp at hne)
    omega
  -- the record is written behind the rest
  have hw : Writable m₂ (c₂.agentPathBase + c₂.contextPathLen) e.record.length := by
    refine (hsame.inRegion hr).path (Nat.le_add_right _ _) ?_
    rw [hl₂.pathLen]
    omega
  have hl₃ := hl₂.append e.dep node (show size (l.drop k) + e.record.length ≤ pathSize by omega) hseq
  have hrun := push_eq hr (he ▸ hrec) hnext (he ▸ hloop) (he ▸ hw)
  rw [← he] at hrun
  have hentry : (⟨c.contextNextSequence, e.record, e.dep⟩ : Entry) = e := by rw [he]; rfl
  rw [hentry] at hl₃
  obtain ⟨-, -, -, -, -, hf₃, hn₃, hd₃, hs₃, hz₃, hq₃⟩ := appendNode_fields c₂ c.contextNextSequence
    e.record.length e.dep node
  obtain ⟨m₃, hm₃⟩ : ∃ m₃ : Memory, m₃ =
    { m₂ with byte := write m₂.byte (c₂.agentPathBase + c₂.contextPathLen) e.record } := ⟨_, rfl⟩
  rw [← hm₃] at hl₃ hrun
  have hsame₃ : SameRegion c _ m m₃ :=
    hsame.trans ⟨hs₃, hz₃, hq₃, by rw [hm₃], by rw [hm₃]⟩
  -- the header is published with an even generation
  obtain ⟨hsync, hok⟩ := syncHeader_of (hsame₃.inRegion hr) now
  have hn₄ := hsync.next
  have hf₄ := hsync.first
  have hd₄ := hsync.dropped
  have hsame₄ := hsame₃.trans hsync.same
  dsimp only at hrun
  rw [hok, if_pos rfl] at hrun
  have hn₁ : (pushBegin c m now).1.contextNextSequence = c.contextNextSequence + 1 := rfl
  refine ⟨_, _, k, hrun, hk, ⟨hsync.lists hl₃, ?_, ?_, fun _ => ?_⟩, hsame₄, by omega, by omega,
    hfit, hmin⟩
  · simp only [List.length_append, List.length_singleton]
    omega
  · rw [hsame₄.capacity, size_append]
    simpa using hroom.2
  · simp only [List.length_append, List.length_singleton]
    rw [hn₄, hn₃, hn₂, hf₄, hf₃, hl₂.count]
    by_cases hempty : l.drop k = []
    · rw [hempty]
      exact hn₁
    · have hlast := hseq hempty
      rw [if_neg (by rw [List.length_eq_zero_iff]; exact hempty)]
      omega

theorem represents_nil (hc : c.contextNodeCount = 0) (hp : c.contextPathLen = 0) :
    Represents c m [] :=
  ⟨lists_nil hc hp, Nat.zero_le _, Nat.zero_le _, fun h => absurd rfl h⟩

/-- The first `k` entries. -/
theorem Lists.take (h : Lists c m l) (hk : k ≤ l.length) :
    Lists { c with contextNodeCount := k, contextPathLen := size (l.take k) } m (l.take k) := by
  have hlt : ∀ i, i < (l.take k).length → i < l.length := fun i hi => by
    rw [List.length_take] at hi
    omega
  have ht := h.texts.take (by simpa using hk)
  rw [← List.map_take, texts_length] at ht
  refine ht.lists (fun i hi => ?_) (fun i hi => ?_)
  · rw [List.getElem_take]
    exact h.dep i (hlt i hi)
  · rw [List.getElem_take]
    exact h.sequence i (hlt i hi)

/-- **A rollback** to `k` nodes keeps the first `k` entries. -/
theorem rollback_spec (hr : l ≠ [] → InRegion c m) (h : Represents c m l) (hk : k ≤ l.length)
    (hfirst : c.contextFirstSequence + l.length < 2 ^ 64) (now : ℕ) :
    ∃ c' m', c.agentContextRollback m k now = (c', m', 0) ∧ Represents c' m' (l.take k) ∧
      SameRegion c c' m m' ∧
      (k = 0 → c'.contextFirstSequence = 0 ∧ c'.contextNextSequence = 1 ∧
        c'.contextDroppedNodes = 0) ∧
      (k ≠ 0 → c'.contextFirstSequence = c.contextFirstSequence ∧
        c'.contextNextSequence = c.contextFirstSequence + k ∧
        c'.contextDroppedNodes = c.contextDroppedNodes) := by
  have hcount : ¬ c.contextNodeCount < k := by rw [h.lists.count]; omega
  by_cases h0 : k = 0
  · obtain ⟨hsame, hn, hp, hf, hx, hd⟩ := clear_spec c m now
    refine ⟨(c.agentContextClear m now).1, (c.agentContextClear m now).2, ?_, ?_, hsame,
      fun _ => ⟨hf, hx, hd⟩, fun hne => absurd h0 hne⟩
    · rw [h0]
      exact rollback_zero c m now
    · rw [h0, List.take_zero]
      exact represents_nil hn hp
  have hne : l ≠ [] := by rintro rfl; exact h0 (Nat.le_zero.1 hk)
  have hr := hr hne
  obtain ⟨hsync, hok⟩ := writeBegin_of hr now
  have hl := hsync.lists h.lists
  have hsame := hsync.same
  set c₂ := (c.writeBegin m now).1 with hc₂
  set m₂ := (c.writeBegin m now).2.1 with hm₂
  have hf₂ : c₂.contextFirstSequence = c.contextFirstSequence := hsync.first
  have hd₂ : c₂.contextDroppedNodes = c.contextDroppedNodes := hsync.dropped
  have hlast : c₂.contextOffsets (k - 1) + c₂.contextLengths (k - 1) = size (l.take k) := by
    have hidx : k - 1 < l.length := by omega
    have hsucc : k = k - 1 + 1 := by omega
    rw [hl.offset _ hidx, hl.length _ hidx]
    conv_rhs => rw [hsucc]
    exact (total_take_succ hidx).symm
  have hmod : (c₂.contextFirstSequence + k) % 2 ^ 64 = c.contextFirstSequence + k := by
    rw [hf₂]
    exact Nat.mod_eq_of_lt (by omega)
  obtain ⟨c₃, hc₃⟩ : ∃ c₃, c₃ = c₂.keepNodes k := ⟨_, rfl⟩
  have hl₃ : Lists c₃ m₂ (l.take k) := by
    have ht := hl.take hk
    have hlen : (l.take k).length = k := by rw [List.length_take, Nat.min_eq_left hk]
    rw [hc₃]
    refine ⟨ht.count, hlast, ht.bytes, ht.offset, ht.length, fun i hi => ?_, ht.sequence⟩
    have hd := ht.dep i hi
    dsimp only [ContextState.keepNodes] at hd ⊢
    rw [if_neg (by omega)]
    exact hd
  have hsame₃ : SameRegion c c₃ m m₂ := by
    rw [hc₃]
    exact ⟨hsame.start, hsame.size, hsame.quota, hsame.user, hsame.writable⟩
  obtain ⟨hsync', hok'⟩ := syncHeader_of (hsame₃.inRegion hr) now
  have hsame₄ := hsame₃.trans hsync'.same
  have hkeep₃ : c₃.contextFirstSequence = c.contextFirstSequence ∧
      c₃.contextNextSequence = c.contextFirstSequence + k ∧
      c₃.contextDroppedNodes = c.contextDroppedNodes := by
    rw [hc₃]
    exact ⟨hf₂, hmod, hd₂⟩
  have hkeep₄ : (c₃.syncHeader m₂ now).1.contextFirstSequence = c.contextFirstSequence ∧
      (c₃.syncHeader m₂ now).1.contextNextSequence = c.contextFirstSequence + k ∧
      (c₃.syncHeader m₂ now).1.contextDroppedNodes = c.contextDroppedNodes :=
    ⟨hsync'.first.trans hkeep₃.1, hsync'.next.trans hkeep₃.2.1, hsync'.dropped.trans hkeep₃.2.2⟩
  have hsub : size (l.take k) ≤ size l := by
    have hsplit : size (l.take k) + size (l.drop k) = size l := total_take_add_drop k
    omega
  refine ⟨(c₃.syncHeader m₂ now).1, (c₃.syncHeader m₂ now).2.1, ?_,
    ⟨hsync'.lists hl₃, ?_, ?_, fun _ => ?_⟩, hsame₄, fun h => absurd h h0, fun _ => hkeep₄⟩
  · rw [rollback_kept hcount h0 hok, ← hc₂, ← hm₂, ← hc₃]
    dsimp only
    rw [hok', if_pos rfl]
  · have hn := h.nodes
    rw [List.length_take]
    omega
  · rw [hsame₄.capacity]
    exact hsub.trans h.capacity
  · rw [hkeep₄.1, hkeep₄.2.1, List.length_take, Nat.min_eq_left hk]

/-- **A query** returns a prefix of the text. -/
theorem query_spec (hr : l ≠ [] → InRegion c m) (h : Represents c m l) {dst len : ℕ}
    (hd : Writable m dst (min len c.contextPathLen))
    (ho : dst ≤ c.agentPathBase ∨ c.agentPathBase + min len c.contextPathLen ≤ dst ∨
      min len c.contextPathLen ≤ 128) :
    (c.agentContextQuery m dst len).2.2 = (min len c.contextPathLen : ℕ) ∧
      slice (c.agentContextQuery m dst len).2.1.byte dst (min len c.contextPathLen) =
        (text l).take len := by
  have hlen := h.lists.pathLen
  have hs : Readable m c.agentPathBase (min len c.contextPathLen) := by
    by_cases hnil : l = []
    · subst hnil
      intro g hg
      have hpos := (mem_pages.1 hg).1
      rw [hlen] at hpos
      simp at hpos
    · have hr := hr hnil
      have hcap := hr.capacity
      have hcap' := h.capacity
      exact (hr.path le_rfl (by omega)).readable
  have hok : (c.agentContextQuery m dst len).2.2 = (min len c.contextPathLen : ℕ) :=
    if_pos (copyThrough_ok hs hd)
  have htext := (h.lists.texts.query (by rw [hok]; omega) ho).2
  have hl : ((text l).take len).length = min len c.contextPathLen := by
    rw [List.length_take, text_length, hlen]
  rw [← hl]
  exact ⟨by rw [hok, hl], htext⟩

end

end AgentOS
