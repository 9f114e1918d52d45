import AgentOS.Lib.Clip
import AgentOS.Proof.Path

/-!
# Whole records

`agent_context_push_node` builds the text of a record in a buffer of `AGENT_CONTEXT_REQ_MAX +
AGENT_CONTEXT_RES_MAX + 128` bytes that drops what does not fit.

* `record_clip`: the buffer holds what fits of the complete text (`recordText`).
* `push_stored`: after a push that succeeds, that is the record at the end of the path.
* **`record_whole`**: the record is complete if and only if its strings and the digits of its
  numbers have at most `recordRoom` bytes.
-/

namespace AgentOS

open Slice ContextState

/-! ### The text -/

/-- The numbers of a record, in order. A status is printed as a `uint64`. -/
def recordNumbers (sequence : ℕ) (node : AgentContextNode) : List ℕ :=
  [node.timestampMs, sequence, node.requestId.toNat, node.spanId, node.causeSequence,
    (node.status % 2 ^ 64).toNat]

/-- What stands before each of them. -/
def recordLabels : List (List UInt8) :=
  [lit "\x7bts=", lit ",seq=", lit ",req_id=", lit ",span=", lit ",cause=", lit ",status="]

/-- **The complete text of a record.** -/
def recordText (sequence : ℕ) (node : AgentContextNode) : List UInt8 :=
  (recordLabels.zip (recordNumbers sequence node)).flatMap (fun x => x.1 ++ decimal x.2) ++
    lit ",req=" ++ cstr node.request ++ lit ",res=" ++ cstr node.result ++ lit "\x7d\n"

/-- The digits of the numbers. -/
def recordDigits (sequence : ℕ) (node : AgentContextNode) : ℕ :=
  ((recordNumbers sequence node).map fun v => (decimal v).length).sum

/-- What the labels leave of the buffer. -/
def recordRoom : ℕ := recordSize - 1 - 50

theorem recordText_length (sequence : ℕ) (node : AgentContextNode) :
    (recordText sequence node).length =
      recordDigits sequence node + strlen node.request + strlen node.result + 50 := by
  simp only [recordText, recordLabels, recordNumbers, recordDigits, strlen, List.zip_cons_cons,
    List.zip_nil_right, List.flatMap_cons, List.flatMap_nil, List.length_append, List.length_nil,
    List.map_cons, List.map_nil, List.sum_cons, List.sum_nil]
  have h₁ : (lit "\x7bts=").length = 4 := by decide
  have h₂ : (lit ",seq=").length = 5 := by decide
  have h₃ : (lit ",req_id=").length = 8 := by decide
  have h₄ : (lit ",span=").length = 6 := by decide
  have h₅ : (lit ",cause=").length = 7 := by decide
  have h₆ : (lit ",status=").length = 8 := by decide
  have h₇ : (lit ",req=").length = 5 := by decide
  have h₈ : (lit ",res=").length = 5 := by decide
  have h₉ : (lit "\x7d\n").length = 2 := by decide
  omega

/-! ### The buffer -/

section

variable {out x : List UInt8}

theorem clip_bufPutc (h : Clip (recordSize - 1) out x) (c : UInt8) :
    Clip (recordSize - 1) (bufPutc out c) (x ++ [c]) := by
  have hput := h.putOne c
  have hfull : recordSize - 1 ≤ out.length ↔ recordSize - out.length ≤ 1 := by
    unfold recordSize
    omega
  simp only [hfull] at hput
  exact hput

theorem clip_bytes (h : Clip (recordSize - 1) out x) (l : List UInt8) :
    Clip (recordSize - 1) (l.foldl bufPutc out) (x ++ l) := by
  have hfold := h.foldl (g := fun c => [c]) (fun _ _ c hb => clip_bufPutc hb c) l
  rwa [List.flatMap_singleton'] at hfold

theorem clip_bufPuts (h : Clip (recordSize - 1) out x) (s : List UInt8) :
    Clip (recordSize - 1) (bufPuts out s) (x ++ cstr s) := clip_bytes h _

/-- A text of the source has no NUL. -/
theorem clip_label (h : Clip (recordSize - 1) out x) (s : List UInt8) (hs : cstr s = s) :
    Clip (recordSize - 1) (bufPuts out s) (x ++ s) := by
  have hputs := clip_bufPuts h s
  rwa [hs] at hputs

theorem clip_bufPutu (h : Clip (recordSize - 1) out x) (v : ℕ) :
    Clip (recordSize - 1) (bufPutu out v) (x ++ decimal v) := clip_bytes h _

end

/-- **The buffer holds what fits of the text.** -/
theorem record_clip (sequence : ℕ) (node : AgentContextNode) :
    Clip (recordSize - 1) (record sequence node) (recordText sequence node) := by
  have hts := clip_bufPutu (clip_label Clip.nil (lit "\x7bts=") rfl) node.timestampMs
  have hseq := clip_bufPutu (clip_label hts (lit ",seq=") rfl) sequence
  have hid := clip_bufPutu (clip_label hseq (lit ",req_id=") rfl) node.requestId.toNat
  have hspan := clip_bufPutu (clip_label hid (lit ",span=") rfl) node.spanId
  have hcause := clip_bufPutu (clip_label hspan (lit ",cause=") rfl) node.causeSequence
  have hstatus := clip_bufPutu (clip_label hcause (lit ",status=") rfl)
    (node.status % 2 ^ 64).toNat
  have hreq := clip_bufPuts (clip_label hstatus (lit ",req=") rfl) node.request
  have hres := clip_bufPuts (clip_label hreq (lit ",res=") rfl) node.result
  have h := clip_label hres (lit "\x7d\n") rfl
  have htext : recordText sequence node =
      [] ++ lit "\x7bts=" ++ decimal node.timestampMs ++ lit ",seq=" ++ decimal sequence ++
        lit ",req_id=" ++ decimal node.requestId.toNat ++ lit ",span=" ++ decimal node.spanId ++
        lit ",cause=" ++ decimal node.causeSequence ++ lit ",status=" ++
        decimal (node.status % 2 ^ 64).toNat ++ lit ",req=" ++ cstr node.request ++
        lit ",res=" ++ cstr node.result ++ lit "\x7d\n" := by
    simp only [recordText, recordLabels, recordNumbers, List.zip_cons_cons, List.zip_nil_right,
      List.flatMap_cons, List.flatMap_nil, List.append_assoc, List.nil_append]
  rw [htext]
  exact h

/-! ### The stored record -/

/-- The record at the end of the path, as long as the PCB says. -/
def storedRecord (c : ContextState) (m : Memory) : List UInt8 :=
  let n := c.contextLengths (c.contextNodeCount - 1)
  slice m.byte (c.agentPathBase + c.contextPathLen - n) n

/-- The digest of the newest record. -/
def newestDigest (c : ContextState) : AgentContextDigest :=
  c.contextDigests (Fin.ofNat agentContextDigestMax c.contextDigestHead - 1)

section

variable {c c' c₂ : ContextState} {m m' m₂ : Memory} {node : AgentContextNode} {now : ℕ} {r : ℤ}

theorem pushText_clip (c : ContextState) (node : AgentContextNode) :
    Clip (recordSize - 1) (pushText c node) (recordText c.contextNextSequence node) := by
  unfold pushText
  rw [(record_spec c.contextNextSequence node).1]
  exact record_clip c.contextNextSequence node

/-- The digest of a push is the newest, over the strings of its node. -/
theorem digestPush_newest (c : ContextState) (sequence : ℕ) (node : AgentContextNode) :
    (newestDigest (c.digestPush sequence node)).requestHash = agentHashBytes node.request ∧
      (newestDigest (c.digestPush sequence node)).resultHash = agentHashBytes node.result := by
  have hslot : Fin.ofNat agentContextDigestMax
      ((c.contextDigestHead + 1) % agentContextDigestMax) - 1 =
        Fin.ofNat agentContextDigestMax c.contextDigestHead := by
    apply Fin.ext
    simp only [Fin.sub_def, Fin.ofNat, Fin.val_one]
    change (16 - 1 + (c.contextDigestHead + 1) % 16 % 16) % 16 = c.contextDigestHead % 16
    omega
  unfold newestDigest ContextState.digestPush
  dsimp only
  rw [hslot, Function.update_self]
  exact ⟨rfl, rfl⟩

theorem newestDigest_congr (h : SameRing c c') : newestDigest c' = newestDigest c := by
  unfold newestDigest
  rw [h.head, h.digests]

/-- **What a push that records leaves** at the end of the path. -/
theorem recordedPush_stored (hcopy : (recordCopy c node c₂ m₂).2 = true) :
    storedRecord (recordedPush c node now c₂ m₂).1 (recordedPush c node now c₂ m₂).2.1 =
      pushText c node := by
  have hlt : (pushText c node).length < 2 ^ 16 := by
    have hle := (pushText_clip c node).length_le
    unfold recordSize agentContextReqMax agentContextResMax at hle
    omega
  obtain ⟨hcount, hlen, -, hlengths, -, -, -, -, hstart, -, -⟩ := appendNode_fields c₂
    c.contextNextSequence (pushText c node).length (c.pendingDep c.contextNextSequence) node
  have hsync := synced_syncHeader (c₂.appendNode c.contextNextSequence (pushText c node).length
    (c.pendingDep c.contextNextSequence) node) (recordCopy c node c₂ m₂).1 now
  obtain ⟨g, hg⟩ := hsync.ctx
  have hpath := hsync.path (c₂.contextPathLen + (pushText c node).length)
  have hbase : (c₂.appendNode c.contextNextSequence (pushText c node).length
      (c.pendingDep c.contextNextSequence) node).agentPathBase = c₂.agentPathBase := by
    unfold ContextState.agentPathBase
    rw [hstart]
  -- the header is written before the path, so the record is what the copy left
  rw [hbase, slice_add, slice_add] at hpath
  have hsame := (List.append_inj hpath (by simp)).2
  have hbytes : slice (recordCopy c node c₂ m₂).1.byte (c₂.agentPathBase + c₂.contextPathLen)
      (pushText c node).length = pushText c node := by
    unfold recordCopy at hcopy ⊢
    rw [copyout_done hcopy]
    exact slice_write_self
  have hn : (c₂.appendNode c.contextNextSequence (pushText c node).length
      (c.pendingDep c.contextNextSequence) node).contextLengths c₂.contextNodeCount =
        (pushText c node).length := by
    rw [hlengths, Function.update_self]
    exact Nat.mod_eq_of_lt hlt
  have hend : c₂.agentPathBase + (c₂.contextPathLen + (pushText c node).length) -
      (pushText c node).length = c₂.agentPathBase + c₂.contextPathLen := by omega
  unfold recordedPush storedRecord
  rw [hg]
  dsimp only
  change slice _ (ContextState.agentPathBase { c₂.appendNode c.contextNextSequence
    (pushText c node).length (c.pendingDep c.contextNextSequence) node with
      contextGeneration := g } + _ - _) _ = _
  have hbase' : ContextState.agentPathBase { c₂.appendNode c.contextNextSequence
      (pushText c node).length (c.pendingDep c.contextNextSequence) node with
        contextGeneration := g } = c₂.agentPathBase := hbase
  rw [hbase', hcount, Nat.add_sub_cancel, hn, hlen, hend, hsame]
  exact hbytes

/-- **A push that succeeds** has stored what fits of the text of its record, and its digest is over
the strings of its node. -/
theorem push_stored (h : c.agentContextPushNode m node now = some (c', m', r)) (hr : r ≠ -1) :
    Clip (recordSize - 1) (storedRecord c' m') (recordText c.contextNextSequence node) ∧
      (newestDigest c').requestHash = agentHashBytes node.request ∧
      (newestDigest c').resultHash = agentHashBytes node.result := by
  cases htakes : c.takesNumber m node now with
  | false =>
    obtain ⟨c₂, m₂, hpush, -⟩ := push_unnumbered htakes
    rw [hpush] at h
    simp only [Option.some.injEq, Prod.mk.injEq] at h
    exact absurd h.2.2.symm hr
  | true =>
    rw [push_numbered htakes, Option.map_eq_some_iff] at h
    obtain ⟨⟨c₂, m₂⟩, -, hend⟩ := h
    dsimp only at hend
    by_cases hcopy : (recordCopy c node c₂ m₂).2 = false
    · rw [if_pos hcopy] at hend
      simp only [Prod.mk.injEq] at hend
      exact absurd hend.2.2.symm hr
    · rw [if_neg hcopy] at hend
      simp only [Prod.mk.injEq] at hend
      obtain ⟨rfl, rfl, -⟩ := hend
      have hring := (recordedPush_fields c node now c₂ m₂).2.2.2
      refine ⟨?_, ?_⟩
      · rw [recordedPush_stored (by simpa using hcopy)]
        exact pushText_clip c node
      · rw [newestDigest_congr hring]
        exact digestPush_newest c₂ c.contextNextSequence node

end

/-- **A record is whole** if and only if its strings and the digits of its numbers have room. -/
theorem record_whole (c c' : ContextState) (m m' : Memory) (node : AgentContextNode) (now : ℕ)
    (h : c.agentContextPushNode m node now = some (c', m', 0)) :
    (storedRecord c' m' = recordText c.contextNextSequence node ∧
      (newestDigest c').requestHash = agentHashBytes node.request ∧
      (newestDigest c').resultHash = agentHashBytes node.result) ↔
      recordDigits c.contextNextSequence node + strlen node.request + strlen node.result ≤
        recordRoom := by
  obtain ⟨hclip, hdigest⟩ := push_stored h (by decide)
  rw [and_iff_left hdigest, hclip.eq_iff, recordText_length]
  unfold recordRoom recordSize agentContextReqMax agentContextResMax
  omega

/-- A new process with the region of its Context, at address `PGSIZE`. -/
def freshContext : ContextState :=
  { ContextState.init with
    contextRegionStart := pgsize
    contextRegionSize := agentContextRegionSize }

/-- The two pages of the region. -/
def regionPages : Memory where
  byte _ := 0
  user g := decide (g = 1 ∨ g = 2)
  writable g := decide (g = 1 ∨ g = 2)

theorem freshContext_inRegion : InRegion freshContext regionPages := by
  refine ⟨by decide, by decide, rfl, fun g hlo hhi => ?_⟩
  have hpage : g = 1 ∨ g = 2 := by
    have hstart : freshContext.contextRegionStart / pgsize = 1 := by decide
    have hsize : agentContextRegionSize / pgsize = 2 := by decide
    omega
  exact ⟨decide_eq_true hpage, decide_eq_true hpage⟩

/-- Any push to it succeeds. -/
theorem fresh_push (node : AgentContextNode) (now : ℕ) :
    ∃ c' m', freshContext.agentContextPushNode regionPages node now = some (c', m', 0) := by
  have hfit : (newEntry freshContext node).record.length ≤ freshContext.agentPathCapacity :=
    (pushText_clip freshContext node).length_le.trans (by decide)
  obtain ⟨c', m', -, hpush, -⟩ := push_spec freshContext_inRegion (represents_nil rfl rfl) node now
    hfit (by decide) (by decide) (by decide)
  exact ⟨c', m', hpush⟩

/-- A small node: its record is whole. -/
theorem record_whole_small :
    ∃ c' m', freshContext.agentContextPushNode regionPages
        ⟨7, 0, 0, 0, 0, lit "read_file", lit "ok"⟩ 0 = some (c', m', 0) ∧
      storedRecord c' m' = recordText 1 ⟨7, 0, 0, 0, 0, lit "read_file", lit "ok"⟩ := by
  obtain ⟨c', m', hpush⟩ := fresh_push ⟨7, 0, 0, 0, 0, lit "read_file", lit "ok"⟩ 0
  exact ⟨c', m', hpush, ((record_whole _ _ _ _ _ _ hpush).2 (by decide)).1⟩

/-- What `sys_context_push` takes of a process that fills its node. -/
def fullNode : AgentContextNode where
  timestampMs := 2 ^ 64 - 1
  requestId := 18446744073709551615
  spanId := 2 ^ 64 - 1
  causeSequence := 2 ^ 64 - 1
  status := -1
  request := List.replicate 96 114
  result := List.replicate 160 115

/-- **Its record is cut.** -/
theorem record_cut :
    ∃ c' m', freshContext.sysContextPush regionPages fullNode 0 = some (c', m', 0) ∧
      storedRecord c' m' ≠ recordText 1 { fullNode with
        request := safestrcpy fullNode.request agentContextReqMax
        result := safestrcpy fullNode.result agentContextResMax } := by
  obtain ⟨c', m', hpush⟩ := fresh_push { fullNode with
    request := safestrcpy fullNode.request agentContextReqMax
    result := safestrcpy fullNode.result agentContextResMax } 0
  refine ⟨c', m', hpush, fun heq => ?_⟩
  have hfits := (push_stored hpush (by decide)).1.eq_iff.1 heq
  rw [recordText_length] at hfits
  revert hfits
  decide +kernel

end AgentOS
