import AgentOS.Lib.Ring
import AgentOS.Proof.Branches
import AgentOS.Proof.Path

/-!
# The digest chain

* `link`, `chain`: the digests that a list of pushes makes, each with the hash of the one
  before it.
* `verify_iff`: verification succeeds if and only if each retained digest is linked to the
  one before it.
* `Retains`: the ring holds the last 16 digests of the chain; `RingStep`: what a step does to
  the ring.
* `digest_chain`: in every reachable state the ring retains the chain, and verification
  succeeds if and only if the retained numbers follow one another; they do in every run
  that loses no record.
* `digest_gap`: a run that loses one.
-/

namespace AgentOS

open AgentOS.Ring Machine Slice

/-! ### The chain -/

/-- The digest of a push behind one with hash `prev`. -/
def link (prev : UInt64) (p : ℕ × AgentContextNode) : AgentContextDigest :=
  let d : AgentContextDigest :=
    { sequence := UInt64.ofNat p.1
      requestId := p.2.requestId
      requestHash := ContextState.agentHashBytes p.2.request
      resultHash := ContextState.agentHashBytes p.2.result
      previousHash := prev
      currentHash := 0
      status := p.2.status }
  { d with currentHash := d.rehash }

/-- The digests of a list of pushes, the first behind one with hash `prev`. -/
def chain : UInt64 → List (ℕ × AgentContextNode) → List AgentContextDigest
  | _, [] => []
  | prev, p :: l => link prev p :: chain (link prev p).currentHash l

/-- The hash that a list of pushes ends in. -/
def lastHash (prev : UInt64) (l : List (ℕ × AgentContextNode)) : UInt64 :=
  l.foldl (fun prev p => (link prev p).currentHash) prev

/-- A digest is linked to the one before it. -/
def Linked (d e : AgentContextDigest) : Prop :=
  e.previousHash = d.currentHash ∧ e.sequence = d.sequence + 1

/-- A push takes the number behind the one before it. -/
def Follows (p q : ℕ × AgentContextNode) : Prop := UInt64.ofNat q.1 = UInt64.ofNat p.1 + 1

section

variable {prev : UInt64} {p : ℕ × AgentContextNode} {l : List (ℕ × AgentContextNode)} {k : ℕ}
  {d : AgentContextDigest}

@[simp] theorem chain_length : (chain prev l).length = l.length := by
  induction l generalizing prev with
  | nil => rfl
  | cons p l ih => rw [chain, List.length_cons, List.length_cons, ih]

theorem chain_append : chain prev (l ++ [p]) = chain prev l ++ [link (lastHash prev l) p] := by
  induction l generalizing prev with
  | nil => rfl
  | cons q l ih =>
    rw [List.cons_append, chain, chain, ih]
    rfl

/-- The rest of a chain is the chain of the rest. -/
theorem chain_drop (hk : k ≤ l.length) :
    (chain prev l).drop k = chain (lastHash prev (l.take k)) (l.drop k) := by
  induction k generalizing prev l with
  | zero => rfl
  | succ k ih =>
    cases l with
    | nil => simp at hk
    | cons q l =>
      rw [chain, List.drop_succ_cons, ih (by simpa using hk), List.take_succ_cons,
        List.drop_succ_cons]
      rfl

theorem link_rehash : (link prev p).rehash = (link prev p).currentHash := by
  unfold link
  simp only [AgentContextDigest.rehash]

theorem chain_rehash (hd : d ∈ chain prev l) : d.rehash = d.currentHash := by
  induction l generalizing prev with
  | nil => simp [chain] at hd
  | cons p l ih =>
    rw [chain, List.mem_cons] at hd
    rcases hd with rfl | hd
    · exact link_rehash
    · exact ih hd

/-- **A chain is linked** if and only if its numbers follow one another. -/
theorem chain_linked : (chain prev l).IsChain Linked ↔ l.IsChain Follows := by
  induction l generalizing prev with
  | nil => simp [chain]
  | cons p l ih =>
    cases l with
    | nil => simp [chain]
    | cons q l =>
      have hlink : Linked (link prev p) (link (link prev p).currentHash q) ↔ Follows p q :=
        ⟨fun h => h.2, fun h => ⟨rfl, h⟩⟩
      have hrest := @ih (link prev p).currentHash
      rw [chain] at hrest
      rw [chain, chain, List.isChain_cons_cons, List.isChain_cons_cons, hlink, hrest]

end

/-! ### Verification -/

/-- `n` digests of the ring, from cell `i` on. -/
def cells (digests : Fin agentContextDigestMax → AgentContextDigest) (i n : ℕ) :
    List AgentContextDigest :=
  (List.range' i n).map fun k => digests (Fin.ofNat agentContextDigestMax k)

theorem cells_succ (digests : Fin agentContextDigestMax → AgentContextDigest) (i n : ℕ) :
    cells digests i (n + 1) = digests (Fin.ofNat agentContextDigestMax i) ::
      cells digests (i + 1) n := by
  unfold cells
  rw [List.range'_succ, List.map_cons]

/-- One round of the loop. -/
theorem digestLoop_succ (digests : Fin agentContextDigestMax → AgentContextDigest)
    (first n i : ℕ) (prev seq : UInt64) :
    let d := digests (Fin.ofNat agentContextDigestMax (first + i))
    digestLoop digests first (n + 1) i prev seq = true ↔
      (0 < i → d.previousHash = prev ∧ d.sequence = seq + 1) ∧ d.rehash = d.currentHash ∧
        digestLoop digests first n (i + 1) d.currentHash d.sequence = true := by
  intro d
  rw [digestLoop]
  by_cases hp : 0 < i ∧ d.previousHash ≠ prev
  · rw [if_pos hp]
    simp only [Bool.false_eq_true, false_iff]
    exact fun h => hp.2 (h.1 hp.1).1
  by_cases hs : 0 < i ∧ d.sequence ≠ seq + 1
  · rw [if_neg hp, if_pos hs]
    simp only [Bool.false_eq_true, false_iff]
    exact fun h => hs.2 (h.1 hs.1).2
  by_cases hr : d.rehash ≠ d.currentHash
  · rw [if_neg hp, if_neg hs, if_pos hr]
    simp only [Bool.false_eq_true, false_iff]
    exact fun h => hr h.2.1
  · rw [if_neg hp, if_neg hs, if_neg hr]
    refine ⟨fun h => ⟨fun hi => ⟨?_, ?_⟩, not_not.1 hr, h⟩, fun h => h.2.2⟩
    · by_contra hne
      exact hp ⟨hi, hne⟩
    · by_contra hne
      exact hs ⟨hi, hne⟩

/-- The loop behind its first round: `p` is the digest of the round before. -/
theorem digestLoop_iff (digests : Fin agentContextDigestMax → AgentContextDigest) (first : ℕ)
    (n i : ℕ) (p : AgentContextDigest) (hi : 0 < i) :
    digestLoop digests first n i p.currentHash p.sequence = true ↔
      (p :: cells digests (first + i) n).IsChain Linked ∧
        ∀ d ∈ cells digests (first + i) n, d.rehash = d.currentHash := by
  induction n generalizing i p with
  | zero => simp [digestLoop, cells]
  | succ n ih =>
    have hround := digestLoop_succ digests first n i p.currentHash p.sequence
    dsimp only at hround
    rw [hround, cells_succ, List.isChain_cons_cons, List.forall_mem_cons,
      ih (i + 1) _ (Nat.succ_pos i), ← Nat.add_assoc]
    unfold Linked
    constructor
    · rintro ⟨hlink, hhash, hchain, hrest⟩
      exact ⟨⟨hlink hi, hchain⟩, hhash, hrest⟩
    · rintro ⟨⟨hlink, hchain⟩, hhash, hrest⟩
      exact ⟨fun _ => hlink, hhash, hchain, hrest⟩

theorem digestLoop_all (digests : Fin agentContextDigestMax → AgentContextDigest) (first n : ℕ) :
    digestLoop digests first n 0 0 0 = true ↔ (cells digests first n).IsChain Linked ∧
      ∀ d ∈ cells digests first n, d.rehash = d.currentHash := by
  cases n with
  | zero => simp [digestLoop, cells]
  | succ n =>
    have hround := digestLoop_succ digests first n 0 0 0
    dsimp only at hround
    rw [hround, cells_succ, List.forall_mem_cons, digestLoop_iff _ _ _ _ _ (Nat.succ_pos 0)]
    simp only [lt_irrefl, false_imp_iff, true_and, Nat.add_zero]
    tauto

/-- The retained digests, oldest first. -/
def retained (c : ContextState) : List AgentContextDigest :=
  trail c.contextDigests (Fin.ofNat agentContextDigestMax c.contextDigestHead) c.contextDigestCount

/-- The loop starts at the oldest digest. -/
theorem retained_eq_cells (c : ContextState) (hh : c.contextDigestHead < agentContextDigestMax)
    (hc : c.contextDigestCount ≤ agentContextDigestMax) :
    retained c = cells c.contextDigests
      (if c.contextDigestHead < c.contextDigestCount then
        c.contextDigestHead + agentContextDigestMax - c.contextDigestCount
      else c.contextDigestHead - c.contextDigestCount) c.contextDigestCount := by
  unfold retained trail window cells
  rw [List.range'_eq_map_range, List.map_map]
  apply List.map_congr_left
  intro i _
  simp only [Function.comp]
  congr 1
  apply Fin.ext
  simp only [Fin.val_add, Fin.sub_def, Fin.ofNat, agentContextDigestMax] at *
  split <;> omega

/-- **Verification** succeeds if and only if the retained digests are linked and their hashes
are theirs. -/
theorem verify_iff (c : ContextState) (hh : c.contextDigestHead < agentContextDigestMax)
    (hc : c.contextDigestCount ≤ agentContextDigestMax) :
    agentContextDigestVerify c = 0 ↔
      (retained c).IsChain Linked ∧ ∀ d ∈ retained c, d.rehash = d.currentHash := by
  unfold agentContextDigestVerify
  rw [if_neg (by omega)]
  by_cases h0 : c.contextDigestCount = 0
  · have hnil : retained c = [] := by
      unfold retained
      rw [h0]
      rfl
    rw [if_pos h0, hnil]
    simp
  · rw [if_neg h0, retained_eq_cells c hh hc, ← digestLoop_all]
    dsimp only
    split <;> simp_all

/-! ### The ring retains the chain -/

/-- **The ring holds the last digests** of the chain of the pushes. -/
structure Retains (c : ContextState) (pushed : List (ℕ × AgentContextNode)) : Prop where
  head : c.contextDigestHead < agentContextDigestMax
  count : c.contextDigestCount = min agentContextDigestMax pushed.length
  ring : retained c = (chain 0 pushed).drop (pushed.length - agentContextDigestMax)

section

variable {c c' : ContextState} {pushed : List (ℕ × AgentContextNode)}

theorem SameRing.retains (h : SameRing c c') (hr : Retains c pushed) : Retains c' pushed := by
  obtain ⟨hd, hh, hc⟩ := h
  refine ⟨by rw [hh]; exact hr.head, by rw [hc]; exact hr.count, ?_⟩
  unfold retained
  rw [hd, hh, hc]
  exact hr.ring

theorem retains_nil (hh : c.contextDigestHead < agentContextDigestMax)
    (hc : c.contextDigestCount = 0) : Retains c [] := by
  refine ⟨hh, hc, ?_⟩
  unfold retained
  rw [hc]
  rfl

theorem Retains.count_le (h : Retains c pushed) : c.contextDigestCount ≤ agentContextDigestMax := by
  rw [h.count]
  exact Nat.min_le_left _ _

/-- The hash that a push chains to. -/
theorem Retains.prevHash (h : Retains c pushed) :
    (if 0 < c.contextDigestCount then
      (c.contextDigests (Fin.ofNat agentContextDigestMax c.contextDigestHead - 1)).currentHash
      else 0) = lastHash 0 pushed := by
  have hcount := h.count
  rcases List.eq_nil_or_concat' pushed with rfl | ⟨l, p, rfl⟩
  · rw [List.length_nil, Nat.min_zero] at hcount
    rw [hcount]
    rfl
  · rw [List.length_append, List.length_singleton] at hcount
    obtain ⟨n, hn⟩ : ∃ n, c.contextDigestCount = n + 1 :=
      Nat.exists_eq_succ_of_ne_zero (by unfold agentContextDigestMax at hcount; omega)
    have hring := h.ring
    unfold retained at hring
    rw [hn, trail_succ, chain_append, List.drop_append_of_le_length] at hring
    · have hlast := (List.append_inj' hring rfl).2
      rw [List.singleton_inj] at hlast
      rw [if_pos (by omega), hlast]
      unfold lastHash
      rw [List.foldl_append]
      rfl
    · rw [chain_length, List.length_append, List.length_singleton]
      unfold agentContextDigestMax
      omega

/-- **A push** adds its digest; the oldest of 16 is gone. -/
theorem Retains.push (h : Retains c pushed) (sequence : ℕ) (node : AgentContextNode) :
    Retains (c.digestPush sequence node) (pushed ++ [(sequence, node)]) := by
  have hcount := h.count
  have hle := h.count_le
  have hhead : Fin.ofNat agentContextDigestMax
      ((c.contextDigestHead + 1) % agentContextDigestMax) =
        Fin.ofNat agentContextDigestMax c.contextDigestHead + 1 := by
    apply Fin.ext
    simp only [Fin.val_add, Fin.ofNat, agentContextDigestMax]
    omega
  have hnew : (if c.contextDigestCount < agentContextDigestMax then c.contextDigestCount + 1
      else c.contextDigestCount) = min agentContextDigestMax (c.contextDigestCount + 1) := by
    split <;> omega
  have hlink : (c.digestPush sequence node).contextDigests =
      Function.update c.contextDigests (Fin.ofNat agentContextDigestMax c.contextDigestHead)
        (link (lastHash 0 pushed) (sequence, node)) := by
    rw [← h.prevHash]
    rfl
  have hnew' : (c.digestPush sequence node).contextDigestCount =
      min agentContextDigestMax (c.contextDigestCount + 1) := hnew
  refine ⟨Nat.mod_lt _ (by decide), ?_, ?_⟩
  · rw [hnew', hcount, List.length_append, List.length_singleton]
    omega
  · have hpush := trail_push c.contextDigests
      (Fin.ofNat agentContextDigestMax c.contextDigestHead) hle
      (link (lastHash 0 pushed) (sequence, node))
    have hdrop : pushed.length - agentContextDigestMax + (c.contextDigestCount + 1 -
        agentContextDigestMax) = (pushed ++ [(sequence, node)]).length - agentContextDigestMax := by
      rw [hcount, List.length_append, List.length_singleton]
      omega
    have hold := h.ring
    unfold retained at hold ⊢
    rw [hlink, hnew']
    change trail _ (Fin.ofNat agentContextDigestMax
      ((c.contextDigestHead + 1) % agentContextDigestMax)) _ = _
    rw [hhead, hpush, hold, chain_append, ← hdrop, ← List.drop_append_of_le_length, List.drop_drop]
    rw [chain_length]
    omega

/-- Verification of a ring that retains the chain looks at the numbers only. -/
theorem Retains.verify (h : Retains c pushed) :
    agentContextDigestVerify c = 0 ↔
      (pushed.drop (pushed.length - agentContextDigestMax)).IsChain Follows := by
  rw [verify_iff c h.head h.count_le, h.ring]
  have hhash : ∀ d ∈ (chain 0 pushed).drop (pushed.length - agentContextDigestMax),
      d.rehash = d.currentHash := fun d hd => chain_rehash (List.mem_of_mem_drop hd)
  rw [and_iff_left hhash, chain_drop (Nat.sub_le _ _), chain_linked]

end

/-! ### The steps -/

/-- A step neither loses a record behind another, nor takes the last number: the condition. -/
def Numbered (s : TrustedRun) : TrustedLabel → Prop
  | .push node now => s.proc.ctx.takesNumber s.mem node now = true →
      if s.proc.ctx.recorded s.mem node now then s.proc.ctx.contextNextSequence + 1 < 2 ^ 64
      else s.proc.ctx.contextDigestCount = 0
  | _ => True

instance decidableNumbered (s : TrustedRun) (l : TrustedLabel) : Decidable (Numbered s l) := by
  cases l <;> unfold Numbered <;> infer_instance

/-- What a step does to the ring. -/
inductive RingStep (s t : TrustedRun) : TrustedLabel → Prop
  | kept {l : TrustedLabel} (hring : SameRing s.proc.ctx t.proc.ctx) (hpushed : t.pushed = s.pushed)
      (hnext : t.proc.ctx.contextNextSequence = s.proc.ctx.contextNextSequence) : RingStep s t l
  | lost {node : AgentContextNode} {now : ℕ}
      (htakes : s.proc.ctx.takesNumber s.mem node now = true)
      (hlost : s.proc.ctx.recorded s.mem node now = false)
      (hring : SameRing s.proc.ctx t.proc.ctx) (hpushed : t.pushed = s.pushed) :
      RingStep s t (.push node now)
  | recorded {node : AgentContextNode} {now : ℕ} {c : ContextState}
      (htakes : s.proc.ctx.takesNumber s.mem node now = true)
      (hrec : s.proc.ctx.recorded s.mem node now = true) (hring : SameRing s.proc.ctx c)
      (hring' : SameRing (c.digestPush s.proc.ctx.contextNextSequence node) t.proc.ctx)
      (hpushed : t.pushed = s.pushed ++ [(s.proc.ctx.contextNextSequence, node)])
      (hnext : t.proc.ctx.contextNextSequence = seqSucc s.proc.ctx.contextNextSequence) :
      RingStep s t (.push node now)
  | emptied {l : TrustedLabel} (hhead : t.proc.ctx.contextDigestHead < agentContextDigestMax)
      (hcount : t.proc.ctx.contextDigestCount = 0) (hpushed : t.pushed = []) : RingStep s t l

/-- **The invariant** of the ring. -/
structure RingInv (s : TrustedRun) : Prop where
  retains : Retains s.proc.ctx s.pushed
  sized : RegionSized s.proc.ctx
  noRegion : s.proc.ctx.contextRegionStart = 0 → s.pushed = []

section

variable {s t : TrustedRun} {l : TrustedLabel}

/-- A clear leaves an empty ring; without a region it was empty before. -/
theorem RingInv.clear (h : RingInv s) (now : ℕ) :
    (s.proc.ctx.agentContextClear s.mem now).1.contextDigestHead < agentContextDigestMax ∧
      (s.proc.ctx.agentContextClear s.mem now).1.contextDigestCount = 0 := by
  obtain ⟨hkeep, hempty⟩ := clear_ring s.proc.ctx s.mem now
  by_cases hreg : s.proc.ctx.contextRegionStart = 0 ∨ s.proc.ctx.contextRegionSize = 0
  · have hstart : s.proc.ctx.contextRegionStart = 0 := by
      by_contra hne
      have hsize := h.sized hne
      rcases hreg with h0 | h0
      · exact hne h0
      · rw [hsize] at h0
        exact absurd h0 (by decide)
    have hcount := h.retains.count
    rw [h.noRegion hstart, List.length_nil, Nat.min_zero] at hcount
    have hring := hkeep hreg
    rw [hring.head, hring.count]
    exact ⟨h.retains.head, hcount⟩
  · obtain ⟨hhead, hcount⟩ := hempty hreg
    rw [hhead, hcount]
    exact ⟨by decide, rfl⟩

theorem marking_ring (p : Proc) (m : Memory) (a : MarkArgs) :
    SameRing p.ctx (marking p m a).ctx ∧
      (marking p m a).ctx.contextNextSequence = p.ctx.contextNextSequence := by
  obtain ⟨hkeep, hnew⟩ := withRegion_ctx p m
  rw [marking_ctx]
  by_cases h0 : p.ctx.contextRegionStart = 0
  · rw [hnew h0]
    exact ⟨⟨rfl, rfl, rfl⟩, rfl⟩
  · rw [hkeep h0]
    exact ⟨⟨rfl, rfl, rfl⟩, rfl⟩

/-- **The step lemma.** -/
theorem RingInv.ringStep (h : RingInv s) (hn : s.next l = some t) : RingStep s t l := by
  cases l with
  | mark a =>
    have hcase := mark_cases s.proc s.mem a
    obtain ⟨p, m, r, hr⟩ : ∃ p m r, agentMarkCurrent s.proc s.mem a = (p, m, r) := ⟨_, _, _, rfl⟩
    simp only [TrustedRun.next, hr] at hn hcase
    cases hcase with
    | refused =>
      rw [if_pos rfl, Option.some.injEq] at hn
      subst hn
      exact .kept (SameRing.refl _) rfl rfl
    | unjoined w =>
      rw [if_pos rfl, Option.some.injEq] at hn
      subst hn
      obtain ⟨hring, hnext⟩ := marking_ring s.proc s.mem a
      exact .kept hring rfl hnext
    | @marked q w hq =>
      rw [if_neg (by omega), Option.some.injEq] at hn
      subst hn
      obtain ⟨hkeep, hempty⟩ := clear_ring q.ctx (withRegion s.proc s.mem).2 a.now
      by_cases hreg : q.ctx.contextRegionStart = 0 ∨ q.ctx.contextRegionSize = 0
      · have hring := hkeep hreg
        refine .emptied ?_ ?_ rfl
        · dsimp only
          rw [hring.head, hq]
          exact Nat.zero_lt_succ _
        · dsimp only
          rw [hring.count, hq]
          rfl
      · obtain ⟨hhead, hcount⟩ := hempty hreg
        exact .emptied (by dsimp only; rw [hhead]; decide) hcount rfl
  | push node now =>
    simp only [TrustedRun.next, Option.map_eq_some_iff] at hn
    obtain ⟨⟨c', m', r⟩, hpush, ht⟩ := hn
    dsimp only at ht
    cases push_cases hpush with
    | refused htakes hrec hsync =>
      rw [if_neg (by rw [hrec]; decide)] at ht
      subst ht
      have hring := hsync.ring
      exact .kept ⟨hring.digests, hring.head, hring.count⟩ rfl hsync.next
    | lost htakes hrec hloop =>
      rw [if_neg (by rw [hrec]; decide)] at ht
      subst ht
      exact .lost htakes hrec ((numbered_kept _ _ _).2.trans (evictLoop_kept hloop).ring) rfl
    | @recorded c₂ m₂ htakes hrec hloop hcopy =>
      rw [if_pos hrec] at ht
      subst ht
      have hkept := evictLoop_kept hloop
      obtain ⟨hnext, -, -, hring⟩ := recordedPush_fields s.proc.ctx node now c₂ m₂
      exact .recorded htakes hrec ((numbered_kept _ _ _).2.trans hkept.ring) hring rfl
        (hnext.trans hkept.next)
  | rollback k now =>
    simp only [TrustedRun.next] at hn
    by_cases hk : s.proc.ctx.contextNodeCount < k
    · rw [if_pos hk, rollback_refused hk, Option.some.injEq] at hn
      subst hn
      exact .kept (SameRing.refl _) rfl rfl
    rw [if_neg hk] at hn
    by_cases h0 : k = 0
    · subst h0
      rw [if_pos rfl, rollback_zero, Option.some.injEq] at hn
      subst hn
      obtain ⟨hhead, hcount⟩ := h.clear now
      exact .emptied hhead hcount rfl
    rw [if_neg h0] at hn
    by_cases hopen : (s.proc.ctx.writeBegin s.mem now).2.2 = false
    · rw [if_pos hopen, rollback_unopened hk h0 hopen, Option.some.injEq] at hn
      subst hn
      have hsync := synced_writeBegin s.proc.ctx s.mem now
      exact .kept hsync.ring rfl hsync.next
    · rw [if_neg hopen, rollback_kept hk h0 (by simpa using hopen), Option.some.injEq] at hn
      subst hn
      exact .emptied (Nat.zero_lt_succ _) rfl rfl
  | clear now =>
    simp only [TrustedRun.next, Option.some.injEq] at hn
    subst hn
    obtain ⟨hhead, hcount⟩ := h.clear now
    exact .emptied hhead hcount rfl
  | query dst len =>
    simp only [TrustedRun.next, Option.some.injEq] at hn
    subst hn
    exact .kept ⟨rfl, rfl, rfl⟩ rfl rfl
  | fork child generation =>
    simp only [TrustedRun.next, Option.some.injEq] at hn
    subst hn
    exact .emptied (Nat.zero_lt_succ _) rfl rfl
  | exec m sz =>
    simp only [TrustedRun.next, Option.some.injEq] at hn
    subst hn
    exact .emptied (Nat.zero_lt_succ _) rfl rfl
  | store va bytes =>
    simp only [TrustedRun.next] at hn
    split at hn <;> simp only [Option.some.injEq, reduceCtorEq] at hn
    subst hn
    exact .kept (SameRing.refl _) rfl rfl
  | sbrk n ok =>
    simp only [TrustedRun.next, Option.some.injEq] at hn
    subst hn
    exact .kept (SameRing.refl _) rfl rfl

/-- **The invariant is kept.** -/
theorem RingInv.step (h : RingInv s) (hn : s.next l = some t) : RingInv t := by
  have hstep := h.ringStep hn
  obtain ⟨hretains, hsized, hno⟩ := h
  have hregion := region_step hn
  refine ⟨?_, hregion.sized hsized, fun h0 => ?_⟩
  · cases hstep with
    | kept hring hpushed _ =>
      rw [hpushed]
      exact hring.retains hretains
    | lost _ _ hring hpushed =>
      rw [hpushed]
      exact hring.retains hretains
    | recorded _ _ hring hring' hpushed _ =>
      rw [hpushed]
      exact hring'.retains ((hring.retains hretains).push _ _)
    | emptied hhead hcount hpushed =>
      rw [hpushed]
      exact retains_nil hhead hcount
  · have hbefore : t.pushed = [] ∨ s.proc.ctx.contextRegionStart = 0 := by
      cases hregion with
      | same hstart _ => exact .inr (hstart.symm.trans h0)
      | grown h0' _ => exact .inr h0'
      | dropped _ _ hpushed => exact .inl hpushed
    rcases hbefore with hnil | hstart
    · exact hnil
    · have hnil := hno hstart
      cases hstep with
      | kept _ hpushed _ => exact hpushed.trans hnil
      | lost _ _ _ hpushed => exact hpushed.trans hnil
      | recorded htakes => exact absurd hstart (takesNumber_iff.1 htakes).1
      | emptied _ _ hpushed => exact hpushed

/-- **The run lemma.** -/
theorem ringInv_of_reach {ok : TrustedRun → TrustedLabel → Prop} {tr : List TrustedLabel}
    (h : trustedMachine.Reach ok tr s) : RingInv s := by
  refine h.inv ?_ (fun s l t ih _ hn => ih.step hn)
  rintro s ⟨hctx, -, hpushed⟩
  refine ⟨?_, ?_, fun _ => hpushed⟩
  · rw [hctx, hpushed]
    exact retains_nil (Nat.zero_lt_succ _) rfl
  · intro hne
    rw [hctx] at hne
    exact absurd rfl hne

/-! ### Runs that lose no record -/

/-- **The numbers follow one another**, and the next push takes the next number. -/
structure Consecutive (s : TrustedRun) : Prop where
  ring : RingInv s
  follows : s.pushed.IsChain Follows
  next : ∀ p ∈ s.pushed.getLast?, s.proc.ctx.contextNextSequence = p.1 + 1

theorem Consecutive.step (h : Consecutive s) (hok : Numbered s l) (hn : s.next l = some t) :
    Consecutive t := by
  have hring := h.ring.step hn
  obtain ⟨hinv, hfollows, hlast⟩ := h
  cases hinv.ringStep hn with
  | kept _ hpushed hnext => exact ⟨hring, by rw [hpushed]; exact hfollows, by rw [hpushed, hnext]; exact hlast⟩
  | @lost node now htakes hlost _ hpushed =>
    -- nothing was in the ring
    have hcount : s.proc.ctx.contextDigestCount = 0 := by
      have hcond := hok htakes
      rw [hlost] at hcond
      exact hcond
    have hnil : s.pushed = [] := by
      have hlen := hinv.retains.count
      rw [hcount] at hlen
      have hzero : s.pushed.length = 0 := by
        unfold agentContextDigestMax at hlen
        omega
      exact List.length_eq_zero_iff.1 hzero
    rw [hnil] at hpushed
    exact ⟨hring, by rw [hpushed]; exact .nil, by rw [hpushed]; intro p hp; simp at hp⟩
  | @recorded node now c htakes hrec _ _ hpushed hnext =>
    have hbound : s.proc.ctx.contextNextSequence + 1 < 2 ^ 64 := by
      have hcond := hok htakes
      rw [hrec] at hcond
      exact hcond
    have hsucc : seqSucc s.proc.ctx.contextNextSequence = s.proc.ctx.contextNextSequence + 1 := by
      unfold seqSucc
      rw [Nat.mod_eq_of_lt hbound, if_neg (Nat.succ_ne_zero _)]
    refine ⟨hring, ?_, ?_⟩
    · rw [hpushed, List.isChain_append]
      refine ⟨hfollows, .singleton _, fun p hp q hq => ?_⟩
      rw [List.head?_cons, Option.mem_some_iff] at hq
      subst hq
      have hp' := hlast p hp
      unfold Follows
      dsimp only
      rw [hp', UInt64.ofNat_add]
      rfl
    · intro p hp
      rw [hpushed, List.getLast?_append_of_ne_nil _ (by simp), List.getLast?_singleton,
        Option.mem_some_iff] at hp
      subst hp
      rw [hnext, hsucc]
  | emptied _ _ hpushed =>
    exact ⟨hring, by rw [hpushed]; exact .nil, by rw [hpushed]; intro p hp; simp at hp⟩

theorem consecutive_of_reach {tr : List TrustedLabel} (h : trustedMachine.Reach Numbered tr s) :
    Consecutive s := by
  refine h.inv ?_ (fun s l t ih hok hn => ih.step hok hn)
  rintro s hinit
  have hring : RingInv s := ringInv_of_reach (show trustedMachine.Reach Numbered [] s from ⟨s, hinit, .nil s⟩)
  obtain ⟨-, -, hpushed⟩ := hinit
  exact ⟨hring, by rw [hpushed]; exact .nil, by rw [hpushed]; intro p hp; simp at hp⟩

/-- **The digest chain.** In every reachable state the ring holds the digests of the last pushes
recorded since it was emptied, up to 16 of them, in order and each chained to the one before
it, and verification succeeds if and only if the numbers of these pushes follow one another.
In a run that loses no record behind another and does not use up the numbers, it succeeds in
every state. -/
theorem digest_chain {tr : List TrustedLabel} (h : trustedMachine.Reach always tr s) :
    Retains s.proc.ctx s.pushed ∧
      (agentContextDigestVerify s.proc.ctx = 0 ↔
        (s.pushed.drop (s.pushed.length - agentContextDigestMax)).IsChain Follows) ∧
      (trustedMachine.Reach Numbered tr s → agentContextDigestVerify s.proc.ctx = 0) := by
  have hinv := ringInv_of_reach h
  refine ⟨hinv.retains, hinv.retains.verify, fun hok => ?_⟩
  rw [hinv.retains.verify]
  exact (consecutive_of_reach hok).follows.drop _

end

/-! ### Two runs -/

/-- A new process of one page. -/
def onePage : TrustedRun :=
  ⟨{ Proc.boot with pid := 1, sz := pgsize }, ⟨fun _ => 0, fun g => g == 0, fun g => g == 0⟩, [], []⟩

/-- It becomes an Agent and pushes a node. -/
def firstRecord : List TrustedLabel :=
  [.mark ⟨agentTypePrimary, 0, 0, true, 1, 1, AgentGlobal.init, AgentGlobal.init⟩,
    .push ⟨0, 1, 0, 0, 0, [], []⟩ 1]

/-- The state a run of the process ends in. -/
def onePageRuns (tr : List TrustedLabel) : TrustedRun := (trustedMachine.run onePage tr).getD onePage

theorem onePage_init : trustedMachine.init onePage := ⟨rfl, rfl, rfl⟩

set_option maxRecDepth 100000 in
theorem firstRecord_reach : trustedMachine.Reach Numbered firstRecord (onePageRuns firstRecord) :=
  ⟨onePage, onePage_init, pathOk_run_getD (by decide +kernel)⟩

/-- Two more nodes. -/
def firstRecords : List TrustedLabel :=
  firstRecord ++ [.push ⟨0, 2, 0, 0, 0, [104], [105]⟩ 2, .push ⟨0, 3, 0, 0, 0, [], [106]⟩ 3]

set_option maxRecDepth 100000 in
theorem firstRecords_reach :
    trustedMachine.Reach Numbered firstRecords (onePageRuns firstRecords) :=
  ⟨onePage, onePage_init, pathOk_run_getD (by decide +kernel)⟩

theorem digest_chain_first :
    let s := onePageRuns firstRecords
    Retains s.proc.ctx s.pushed ∧ s.pushed.length = 3 ∧ agentContextDigestVerify s.proc.ctx = 0 := by
  have hreach := firstRecords_reach
  obtain ⟨hretains, -, hverify⟩ := digest_chain (hreach.mono fun _ _ _ => trivial)
  exact ⟨hretains, by decide +kernel, hverify hreach⟩

/-- The process becomes an Agent and gives back all pages but the first of its region. -/
def shrinks : List TrustedLabel :=
  [.mark ⟨agentTypePrimary, 0, 0, true, 1, 1, AgentGlobal.init, AgentGlobal.init⟩,
    .sbrk (-8192) true]

/-- A node with a long request and a long result. -/
def longNode : AgentContextNode := ⟨0, 1, 0, 0, 0, List.replicate 95 97, List.replicate 159 98⟩

/-- The bytes of the path on the first page of the region. -/
def firstPage : ℕ := pgsize - sizeofContextHeader

/-- **The path grows on the first page.** -/
structure Filling (s : TrustedRun) : Prop where
  start : s.proc.ctx.contextRegionStart = pgsize
  size : s.proc.ctx.contextRegionSize = agentContextRegionSize
  quota : s.proc.ctx.resourceQuota = 0
  page : s.mem.user 1 = true ∧ s.mem.writable 1 = true
  room : s.proc.ctx.contextPathLen ≤ firstPage
  nodes : s.proc.ctx.contextNodeCount * 254 ≤ s.proc.ctx.contextPathLen
  pushed : s.pushed.length = s.proc.ctx.contextNodeCount
  next : s.proc.ctx.contextNextSequence ≤ s.proc.ctx.contextNodeCount + 2
  empty : s.pushed = [] → s.proc.ctx.contextPathLen = 0

section

variable {s t : TrustedRun}

theorem longNode_length (s : TrustedRun) : 254 ≤ (pushText s.proc.ctx longNode).length ∧
    (pushText s.proc.ctx longNode).length ≤ 383 := by
  obtain ⟨htext, hle, hge⟩ := record_spec s.proc.ctx.contextNextSequence longNode
  have hreq : strlen longNode.request = 95 := by decide +kernel
  have hres : strlen longNode.result = 159 := by decide +kernel
  unfold pushText recordSize agentContextReqMax agentContextResMax at *
  rw [htext]
  omega

theorem Filling.few (h : Filling s) : s.proc.ctx.contextNodeCount ≤ 13 := by
  have hroom := h.room
  have hnodes := h.nodes
  unfold firstPage pgsize sizeofContextHeader at hroom
  omega

/-- A push takes a number and needs no room. -/
theorem Filling.opens (h : Filling s) :
    s.proc.ctx.takesNumber s.mem longNode 1 = true ∧
      MakesRoom s.proc.ctx s.mem longNode 1 (numbered s.proc.ctx s.mem 1).1
        (numbered s.proc.ctx s.mem 1).2 := by
  obtain ⟨-, hlen⟩ := longNode_length s
  have hfew := h.few
  have hroom := h.room
  have hcap : s.proc.ctx.agentPathCapacity = pathSize := by
    unfold ContextState.agentPathCapacity
    rw [h.size, h.quota]
    decide
  have hsize := pathSize_eq
  refine ⟨takesNumber_iff.2 ⟨?_, by omega, ?_⟩, ?_⟩
  · rw [h.start]
    decide
  · -- the header is on the first page
    have hw : Writable s.mem s.proc.ctx.contextRegionStart sizeofContextHeader := by
      intro g hg
      obtain ⟨-, h₁, h₂⟩ := mem_pages.1 hg
      rw [h.start] at h₁ h₂
      unfold pgsize at h₁ h₂
      unfold sizeofContextHeader at h₂
      obtain rfl : g = 1 := by omega
      exact h.page
    have hne : s.proc.ctx.contextRegionStart ≠ 0 := by
      rw [h.start]
      decide
    unfold ContextState.writeBegin
    exact writeHeader_writable hne hw _
  · refine evictLoop_room ?_ ?_
    · change s.proc.ctx.contextNodeCount < agentContextMaxNodes
      unfold agentContextMaxNodes
      omega
    · rw [(numbered_kept _ _ _).1.capacity, hcap]
      change s.proc.ctx.contextPathLen + _ ≤ pathSize
      unfold firstPage pgsize sizeofContextHeader at hroom
      omega

theorem Filling.succ (h : Filling s) :
    seqSucc s.proc.ctx.contextNextSequence = s.proc.ctx.contextNextSequence + 1 := by
  have hfew := h.few
  have hnext := h.next
  unfold seqSucc
  rw [Nat.mod_eq_of_lt (by omega), if_neg (Nat.succ_ne_zero _)]

/-- A push whose record can be copied out. -/
theorem Filling.records (h : Filling s)
    (hw : Writable s.mem (pgsize + sizeofContextHeader + s.proc.ctx.contextPathLen)
      (pushText s.proc.ctx longNode).length) :
    ∃ t, trustedMachine.next s (.push longNode 1) = some t ∧
      t.pushed = s.pushed ++ [(s.proc.ctx.contextNextSequence, longNode)] ∧
      SameRegion s.proc.ctx t.proc.ctx s.mem t.mem ∧ t.proc.sz = s.proc.sz ∧
      t.proc.ctx.contextNextSequence = s.proc.ctx.contextNextSequence + 1 ∧
      t.proc.ctx.contextPathLen =
        s.proc.ctx.contextPathLen + (pushText s.proc.ctx longNode).length ∧
      t.proc.ctx.contextNodeCount = s.proc.ctx.contextNodeCount + 1 := by
  obtain ⟨htakes, hloop⟩ := h.opens
  obtain ⟨hregion, -⟩ := numbered_kept s.proc.ctx s.mem 1
  have hcopy : (recordCopy s.proc.ctx longNode (numbered s.proc.ctx s.mem 1).1
      (numbered s.proc.ctx s.mem 1).2).2 = true := by
    have hbase : (numbered s.proc.ctx s.mem 1).1.agentPathBase = pgsize + sizeofContextHeader := by
      rw [hregion.base, ContextState.agentPathBase, h.start]
    have hw' : Writable (numbered s.proc.ctx s.mem 1).2
        ((numbered s.proc.ctx s.mem 1).1.agentPathBase +
          (numbered s.proc.ctx s.mem 1).1.contextPathLen)
        (pushText s.proc.ctx longNode).length := by
      intro g hg
      rw [hregion.user, hregion.writable]
      rw [hbase] at hg
      exact hw g hg
    unfold recordCopy
    rw [copyout_of hw']
  have hcase : PushCase s.proc.ctx s.mem longNode 1 _ _ := .recorded htakes
    (by rw [recorded_eq hloop, htakes, hcopy]; rfl) hloop hcopy
  have hregion' := hcase.region
  obtain ⟨hnext, hlen, hcount, -⟩ := recordedPush_fields s.proc.ctx longNode 1
    (numbered s.proc.ctx s.mem 1).1 (numbered s.proc.ctx s.mem 1).2
  exact ⟨_, push_step_recorded htakes hloop hcopy, rfl, hregion', rfl, hnext.trans h.succ, hlen,
    hcount⟩

/-- The first page fills up: after some pushes the next record does not fit on it. -/
theorem Filling.fills (h : Filling s) (hlast : ∀ p ∈ s.pushed.getLast?, s.proc.ctx.contextNextSequence = p.1 + 1)
    (hnext : s.proc.ctx.contextNextSequence = s.proc.ctx.contextNodeCount + 1) (hpage : s.mem.user 2 = false) :
    ∃ tr t, trustedMachine.Path always s tr t ∧ Filling t ∧ t.proc.sz = s.proc.sz ∧
      t.mem.user 2 = false ∧
      t.proc.ctx.contextNextSequence = t.proc.ctx.contextNodeCount + 1 ∧
      (∀ p ∈ t.pushed.getLast?, t.proc.ctx.contextNextSequence = p.1 + 1) ∧
      firstPage < t.proc.ctx.contextPathLen + (pushText t.proc.ctx longNode).length := by
  -- induction on the room left
  obtain ⟨n, hn⟩ : ∃ n, firstPage - s.proc.ctx.contextPathLen ≤ n := ⟨_, le_rfl⟩
  induction n generalizing s with
  | zero =>
    obtain ⟨hlen, -⟩ := longNode_length s
    exact ⟨[], s, .nil s, h, rfl, hpage, hnext, hlast, by omega⟩
  | succ n ih =>
    obtain ⟨hlen, -⟩ := longNode_length s
    by_cases hfull : firstPage < s.proc.ctx.contextPathLen + (pushText s.proc.ctx longNode).length
    · exact ⟨[], s, .nil s, h, rfl, hpage, hnext, hlast, hfull⟩
    have hw : Writable s.mem (pgsize + sizeofContextHeader + s.proc.ctx.contextPathLen)
        (pushText s.proc.ctx longNode).length := by
      intro g hg
      obtain ⟨-, h₁, h₂⟩ := mem_pages.1 hg
      unfold firstPage pgsize sizeofContextHeader at *
      obtain rfl : g = 1 := by omega
      exact h.page
    obtain ⟨t, hstep, hpushed, hregion, hsz, hnext', hlen', hcount'⟩ := h.records hw
    have hroom' : t.proc.ctx.contextPathLen ≤ firstPage := by
      rw [hlen']
      exact not_lt.1 hfull
    have hnodes' : t.proc.ctx.contextNodeCount * 254 ≤ t.proc.ctx.contextPathLen := by
      rw [hcount', hlen', Nat.succ_mul]
      exact Nat.add_le_add h.nodes hlen
    have hnumber : t.proc.ctx.contextNextSequence = t.proc.ctx.contextNodeCount + 1 := by
      rw [hnext', hnext, hcount']
    have hcounted : t.pushed.length = t.proc.ctx.contextNodeCount := by
      rw [hpushed, List.length_append, List.length_singleton, h.pushed, hcount']
    have hfill : Filling t :=
      ⟨hregion.start.trans h.start, hregion.size.trans h.size, hregion.quota.trans h.quota,
        by rw [hregion.user, hregion.writable]; exact h.page, hroom', hnodes', hcounted,
        by rw [hnumber]; exact Nat.le_succ _, by rw [hpushed]; intro hnil; simp at hnil⟩
    have hless : firstPage - t.proc.ctx.contextPathLen ≤ n := by
      rw [hlen']
      generalize (pushText s.proc.ctx longNode).length = r at hlen ⊢
      omega
    have hlast' : ∀ p ∈ t.pushed.getLast?, t.proc.ctx.contextNextSequence = p.1 + 1 := by
      intro p hp
      rw [hpushed, List.getLast?_append_of_ne_nil _ (by simp), List.getLast?_singleton,
        Option.mem_some_iff] at hp
      subst hp
      exact hnext'
    obtain ⟨tr, u, hpath, hfillu, hszu, hend⟩ := ih hfill hlast' hnumber (by rw [hregion.user]; exact hpage) hless
    exact ⟨_, u, .cons trivial hstep hpath, hfillu, hszu.trans hsz, hend⟩

/-- A push whose record reaches the second page is lost, and its number with it. -/
theorem Filling.loses (h : Filling s) (hpage : s.mem.user 2 = false)
    (hnext : s.proc.ctx.contextNextSequence = s.proc.ctx.contextNodeCount + 1)
    (hfull : firstPage < s.proc.ctx.contextPathLen + (pushText s.proc.ctx longNode).length) :
    ∃ t, trustedMachine.next s (.push longNode 1) = some t ∧ Filling t ∧ t.pushed = s.pushed ∧
      t.proc.sz = s.proc.sz ∧
      t.proc.ctx.contextNextSequence = s.proc.ctx.contextNextSequence + 1 := by
  obtain ⟨htakes, hloop⟩ := h.opens
  obtain ⟨hregion, -⟩ := numbered_kept s.proc.ctx s.mem 1
  obtain ⟨-, hlen⟩ := longNode_length s
  have hroom := h.room
  have hcopy : (recordCopy s.proc.ctx longNode (numbered s.proc.ctx s.mem 1).1
      (numbered s.proc.ctx s.mem 1).2).2 = false := by
    by_contra htrue
    have hw := writable_of_copyout (eq_true_of_ne_false htrue)
    have hbase : (numbered s.proc.ctx s.mem 1).1.agentPathBase = pgsize + sizeofContextHeader := by
      rw [hregion.base, ContextState.agentPathBase, h.start]
    have hsame : (numbered s.proc.ctx s.mem 1).1.contextPathLen = s.proc.ctx.contextPathLen := rfl
    -- the range reaches page 2
    have hmem : 2 ∈ pages ((numbered s.proc.ctx s.mem 1).1.agentPathBase +
        (numbered s.proc.ctx s.mem 1).1.contextPathLen) (pushText s.proc.ctx longNode).length := by
      rw [hbase, hsame]
      generalize (pushText s.proc.ctx longNode).length = r at hlen hfull ⊢
      refine mem_pages.2 ?_
      unfold firstPage pgsize sizeofContextHeader at *
      omega
    have huser := (hw 2 hmem).1
    rw [hregion.user, hpage] at huser
    exact absurd huser (by decide)
  refine ⟨_, push_step_lost htakes hloop hcopy, ?_, rfl, rfl, h.succ⟩
  have hregion' := hregion.trans (recordCopy_region s.proc.ctx longNode _ _)
  refine ⟨hregion'.start.trans h.start, hregion'.size.trans h.size, hregion'.quota.trans h.quota,
    ?_, h.room, h.nodes, h.pushed, ?_, h.empty⟩
  · dsimp only [TrustedRun.setCtx]
    rw [hregion'.user, hregion'.writable]
    exact h.page
  · have hnumber : seqSucc s.proc.ctx.contextNextSequence = s.proc.ctx.contextNodeCount + 2 :=
      h.succ.trans (by rw [hnext])
    exact hnumber.le

set_option maxRecDepth 100000 in
theorem shrinks_runs : (trustedMachine.run onePage shrinks).isSome = true := by decide +kernel

set_option maxRecDepth 100000 in
theorem shrinks_filling : Filling (onePageRuns shrinks) := by
  have hend : let s := onePageRuns shrinks
      s.proc.ctx.contextRegionStart = pgsize ∧ s.proc.ctx.contextRegionSize = agentContextRegionSize ∧
      s.proc.ctx.resourceQuota = 0 ∧ (s.mem.user 1 = true ∧ s.mem.writable 1 = true) ∧
      s.proc.ctx.contextPathLen ≤ firstPage ∧
      s.proc.ctx.contextNodeCount * 254 ≤ s.proc.ctx.contextPathLen ∧
      s.pushed.length = s.proc.ctx.contextNodeCount ∧
      s.proc.ctx.contextNextSequence ≤ s.proc.ctx.contextNodeCount + 2 ∧
      s.proc.ctx.contextPathLen = 0 := by decide +kernel
  obtain ⟨hstart, hsize, hquota, hpage, hroom, hnodes, hpushed, hnext, hempty⟩ := hend
  exact ⟨hstart, hsize, hquota, hpage, hroom, hnodes, hpushed, hnext, fun _ => hempty⟩

set_option maxRecDepth 100000 in
theorem shrinks_page : (onePageRuns shrinks).mem.user 2 = false ∧
    (onePageRuns shrinks).proc.ctx.contextNextSequence =
      (onePageRuns shrinks).proc.ctx.contextNodeCount + 1 ∧
    (onePageRuns shrinks).pushed = [] ∧ (onePageRuns shrinks).proc.sz = 2 * pgsize :=
  by decide +kernel

/-- Giving memory back maps page 2. -/
theorem sbrk_page (s : TrustedRun) (hsz : s.proc.sz = 2 * pgsize) :
    ∃ t, trustedMachine.next s (.sbrk (2 * pgsize) true) = some t ∧ t.proc.ctx = s.proc.ctx ∧
      t.pushed = s.pushed ∧ t.mem.user 2 = true ∧ t.mem.writable 2 = true ∧
      (s.mem.user 1 = true → t.mem.user 1 = true) ∧
      (s.mem.writable 1 = true → t.mem.writable 1 = true) := by
  have hgrow : s.mem.growproc s.proc.sz (2 * pgsize) true =
      (4 * pgsize, s.mem.uvmalloc (2 * pgsize) (4 * pgsize)) := by
    unfold Memory.growproc
    rw [hsz, if_pos (by decide), if_pos rfl]
    rfl
  have hnew : (pgroundup (2 * pgsize) ≤ 2 * pgsize && 2 * pgsize < 4 * pgsize) = true := by decide
  refine ⟨_, rfl, rfl, rfl, ?_⟩
  dsimp only
  rw [hgrow]
  exact ⟨Bool.or_eq_true_iff.2 (.inr hnew), Bool.or_eq_true_iff.2 (.inr hnew),
    fun h => Bool.or_eq_true_iff.2 (.inl h), fun h => Bool.or_eq_true_iff.2 (.inl h)⟩

/-- **A lost record breaks the chain.** -/
theorem digest_gap : ∃ tr s, trustedMachine.Reach always tr s ∧
    agentContextDigestVerify s.proc.ctx ≠ 0 := by
  obtain ⟨hpage, hnext, hnil, hsz⟩ := shrinks_page
  obtain ⟨tr, s, hpath, hfill, hsz', hpage', hnext', hlast, hfull⟩ := shrinks_filling.fills
    (by rw [hnil]; intro p hp; simp at hp) hnext hpage
  obtain ⟨t, hlost, hfill', hpushed, hszt, hnumber⟩ := hfill.loses hpage' hnext' hfull
  obtain ⟨u, hsbrk, hctx, hpushed', hu₂, hw₂, hu₁, hw₁⟩ := sbrk_page t
    (hszt.trans (hsz'.trans hsz))
  have hfillu : Filling u := by
    obtain ⟨hs, hz, hq, hp, hr, hn, hl, hx, he⟩ := hfill'
    exact ⟨by rw [hctx]; exact hs, by rw [hctx]; exact hz, by rw [hctx]; exact hq,
      ⟨hu₁ hp.1, hw₁ hp.2⟩, by rw [hctx]; exact hr, by rw [hctx]; exact hn,
      by rw [hctx, hpushed']; exact hl, by rw [hctx]; exact hx, by rw [hctx, hpushed']; exact he⟩
  have hw : Writable u.mem (pgsize + sizeofContextHeader + u.proc.ctx.contextPathLen)
      (pushText u.proc.ctx longNode).length := by
    obtain ⟨-, hlen⟩ := longNode_length u
    have hroom := hfillu.room
    intro g hg
    obtain ⟨-, h₁, h₂⟩ := mem_pages.1 hg
    generalize (pushText u.proc.ctx longNode).length = r at hlen h₂
    unfold firstPage pgsize sizeofContextHeader at *
    have hcases : g = 1 ∨ g = 2 := by omega
    rcases hcases with rfl | rfl
    · exact hfillu.page
    · exact ⟨hu₂, hw₂⟩
  obtain ⟨v, hrec, hpushedv, -⟩ := hfillu.records hw
  rw [hpushed', hpushed, hctx, hnumber] at hpushedv
  have hreach : trustedMachine.Reach always (shrinks ++ tr ++ [.push longNode 1] ++
      [.sbrk (2 * pgsize) true] ++ [.push longNode 1]) v :=
    (((Reach.trans ⟨onePage, onePage_init, path_getD shrinks_runs⟩ hpath).snoc trivial hlost).snoc
      trivial hsbrk).snoc trivial hrec
  have hv := ringInv_of_reach hreach
  -- the last number retained before the lost one
  have hne : s.pushed ≠ [] := by
    intro h0
    obtain ⟨-, hlen⟩ := longNode_length s
    have hzero := hfill.empty h0
    generalize (pushText s.proc.ctx longNode).length = r at hlen hfull
    unfold firstPage pgsize sizeofContextHeader at hfull
    omega
  obtain ⟨l, p, hl⟩ := (List.eq_nil_or_concat' s.pushed).resolve_left hne
  have hp : s.proc.ctx.contextNextSequence = p.1 + 1 := hlast p (by rw [hl]; simp)
  have hfew := hfill.few
  have hlength : v.pushed.length - agentContextDigestMax = 0 := by
    have hcount := hfill.pushed
    rw [hpushedv, List.length_append, List.length_singleton]
    unfold agentContextDigestMax
    omega
  refine ⟨_, v, hreach, fun hverify => ?_⟩
  rw [hv.retains.verify, hlength, List.drop_zero, hpushedv, List.isChain_append] at hverify
  have hfollows : UInt64.ofNat (s.proc.ctx.contextNextSequence + 1) = UInt64.ofNat p.1 + 1 :=
    hverify.2.2 p (by rw [hl]; simp) (s.proc.ctx.contextNextSequence + 1, longNode) (by simp)
  have hone : UInt64.ofNat p.1 + 1 = UInt64.ofNat (p.1 + 1) := by
    rw [UInt64.ofNat_add]
    rfl
  have hmod := congrArg UInt64.toNat (hfollows.trans hone)
  rw [UInt64.toNat_ofNat', UInt64.toNat_ofNat'] at hmod
  omega

end

end AgentOS
