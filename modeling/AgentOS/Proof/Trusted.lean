import AgentOS.Proof.Digest

/-!
# What a query of the Context returns

* `Untouched`: the condition on a run; nothing but the Context calls changes the bytes of the
  path.
* `TextInv.step`: the records of the live nodes lie in the path area, step by step.
* `trusted_context`: in every run that meets the condition a query returns them.
* `text_forged`: a store into the region that verification does not see.
-/

namespace AgentOS

open Machine Slice

/-! ### The condition -/

/-- The bytes of the path are those in `m`. -/
def PathKept (s : TrustedRun) (m : Memory) : Prop :=
  slice m.byte s.proc.ctx.agentPathBase s.proc.ctx.contextPathLen =
    slice s.mem.byte s.proc.ctx.agentPathBase s.proc.ctx.contextPathLen

/-- The `n` bytes from `dst` on are none of the path. -/
def OffPath (c : ContextState) (dst n : ℕ) : Prop :=
  dst + n ≤ c.agentPathBase ∨ c.agentPathBase + c.contextPathLen ≤ dst

/-- The condition on a step: a store and a move of the break leave the bytes of the path as they
are, and a query goes to a buffer elsewhere. -/
def Untouched (s : TrustedRun) : TrustedLabel → Prop
  | .query dst len => OffPath s.proc.ctx dst (min len s.proc.ctx.contextPathLen)
  | .store va bytes => PathKept s (s.mem.copyout va bytes).1
  | .sbrk n uvmalloc => PathKept s (s.mem.growproc s.proc.sz n uvmalloc).2
  | _ => True

/-! ### The invariant -/

/-- **The records of the live nodes lie in the path area.** -/
structure TextInv (s : TrustedRun) : Prop where
  texts : Texts s.proc.ctx s.mem s.records
  fits : s.records.flatten.length ≤ pathSize
  sized : RegionSized s.proc.ctx
  noRegion : s.proc.ctx.contextRegionStart = 0 → s.records = []

section

variable {s t : TrustedRun} {l : TrustedLabel} {c c' : ContextState} {m m' : Memory}
  {L : List (List UInt8)}

/-- The newest records are those of the live nodes. -/
theorem Texts.newest {k : ℕ} (h : Texts c m (L.drop k)) :
    L.drop (L.length - c.contextNodeCount) = L.drop k := by
  have hcount := h.count
  rw [List.length_drop] at hcount
  rw [hcount]
  rcases Nat.le_total k L.length with hle | hle
  · rw [Nat.sub_sub_self hle]
  · rw [Nat.sub_eq_zero_of_le hle, Nat.sub_zero, List.drop_length, List.drop_of_length_le hle]

theorem Texts.all (h : Texts c m L) : L.drop (L.length - c.contextNodeCount) = L :=
  Texts.newest (k := 0) h

theorem drop_concat (L : List (List UInt8)) (r : List UInt8) (k : ℕ) :
    (L ++ [r]).drop (min k L.length) = L.drop k ++ [r] := by
  rw [List.drop_append_of_le_length (Nat.min_le_right _ _)]
  rcases Nat.le_total k L.length with hle | hle
  · rw [Nat.min_eq_left hle]
  · rw [Nat.min_eq_right hle, List.drop_length, List.drop_of_length_le hle]

/-- What a call on the Context leaves. -/
theorem textInv_setCtx (s : TrustedRun) {k : ℕ} (ht : Texts c m (L.drop k))
    (hfits : (L.drop k).flatten.length ≤ pathSize) (hsized : RegionSized c)
    (hno : c.contextRegionStart = 0 → L.drop k = []) (pushed : List (ℕ × AgentContextNode)) :
    TextInv (s.setCtx c m L pushed) := by
  have hnewest := ht.newest
  refine ⟨?_, ?_, hsized, fun h0 => ?_⟩
  · change Texts c m (L.drop (L.length - c.contextNodeCount))
    rw [hnewest]
    exact ht
  · change (L.drop (L.length - c.contextNodeCount)).flatten.length ≤ pathSize
    rw [hnewest]
    exact hfits
  · exact hnewest.trans (hno h0)

theorem textInv_nil (hc : t.proc.ctx.contextNodeCount = 0) (hp : t.proc.ctx.contextPathLen = 0)
    (hsized : RegionSized t.proc.ctx) (hrecords : t.records = []) : TextInv t := by
  refine ⟨?_, ?_, hsized, fun _ => hrecords⟩ <;> rw [hrecords]
  · exact texts_nil hc hp
  · exact Nat.zero_le _

/-- Another memory with the same path. -/
theorem TextInv.keep (h : TextInv s) (hctx : t.proc.ctx = s.proc.ctx)
    (hrecords : t.records = s.records) (hm : PathKept s t.mem) : TextInv t := by
  obtain ⟨htexts, hfits, hsized, hno⟩ := h
  refine ⟨?_, by rw [hrecords]; exact hfits, by rw [hctx]; exact hsized,
    by rw [hctx, hrecords]; exact hno⟩
  rw [hrecords, hctx]
  exact htexts.congr rfl rfl rfl rfl rfl hm

/-- **A push** drops the oldest records, and adds its own where it is copied out. -/
theorem TextInv.push (h : TextInv s) {node : AgentContextNode} {now : ℕ}
    (hn : s.next (.push node now) = some t) : TextInv t := by
  have hregion := region_step hn
  have hsized' := hregion.sized h.sized
  obtain ⟨htexts, hfits, hsized, hno⟩ := h
  simp only [TrustedRun.next, Option.map_eq_some_iff] at hn
  obtain ⟨⟨c', m', r⟩, hpush, ht⟩ := hn
  dsimp only at ht
  have hcase := push_cases hpush
  have hsame := hcase.region
  -- what is left once there is room
  have hroom : ∀ c₂ m₂, s.proc.ctx.takesNumber s.mem node now = true →
      MakesRoom s.proc.ctx s.mem node now c₂ m₂ →
      ∃ k, Texts c₂ m₂ (s.records.drop k) ∧
        (s.records.drop k).flatten.length + (pushText s.proc.ctx node).length ≤ pathSize := by
    intro c₂ m₂ htakes hloop
    obtain ⟨⟨k, hk⟩, hle⟩ := (numbered_texts htexts now).evictLoop hfits hloop
    have hkept := ((numbered_kept _ _ _).1).trans (evictLoop_kept hloop).region
    have hcap := hsized.capacity (takesNumber_iff.1 htakes).1
    rw [hkept.capacity, hk.pathLen] at hle
    exact ⟨k, hk, hle.trans hcap⟩
  cases hcase with
  | refused _ hrec hsync =>
    rw [if_neg (by rw [hrec]; decide)] at ht
    subst ht
    have hdropped : Texts s.proc.ctx.dropPending s.mem s.records :=
      htexts.congr rfl rfl rfl rfl rfl rfl
    refine textInv_setCtx s (k := 0) (hsync.texts hdropped) hfits hsized' (fun h0 => ?_) _
    exact hno (hsame.start.symm.trans h0)
  | lost htakes hrec hloop =>
    rw [if_neg (by rw [hrec]; decide)] at ht
    subst ht
    obtain ⟨k, hk, hle⟩ := hroom _ _ htakes hloop
    refine textInv_setCtx s (hk.congr rfl rfl rfl rfl rfl ?_) (by omega) hsized' (fun h0 => ?_) _
    · -- the record goes behind the path
      exact copyout_outside _ (.inl le_rfl)
    · exact absurd (hsame.start.symm.trans h0) (takesNumber_iff.1 htakes).1
  | @recorded c₂ m₂ htakes hrec hloop hcopy =>
    rw [if_pos hrec] at ht
    subst ht
    obtain ⟨k, hk, hle⟩ := hroom _ _ htakes hloop
    have hcopied : (recordCopy s.proc.ctx node c₂ m₂).1 = { m₂ with
        byte := write m₂.byte (c₂.agentPathBase + c₂.contextPathLen) (pushText s.proc.ctx node) } :=
      congrArg Prod.fst (copyout_done hcopy)
    have happend := hk.append s.proc.ctx.contextNextSequence
      (s.proc.ctx.pendingDep s.proc.ctx.contextNextSequence) node hle
    rw [← hcopied] at happend
    have htexts' := (synced_syncHeader _ _ now).texts happend
    have hlist := drop_concat s.records (pushText s.proc.ctx node) k
    rw [← hlist] at htexts'
    refine textInv_setCtx s htexts' ?_ hsized' (fun h0 => ?_) _
    · rw [hlist, List.flatten_append, List.length_append]
      simpa using hle
    · exact absurd (hsame.start.symm.trans h0) (takesNumber_iff.1 htakes).1

/-- **A rollback** keeps the first records. -/
theorem TextInv.rollback (h : TextInv s) {k now : ℕ} (hn : s.next (.rollback k now) = some t) :
    TextInv t := by
  have hsized' := (region_step hn).sized h.sized
  obtain ⟨htexts, hfits, hsized, hno⟩ := h
  simp only [TrustedRun.next] at hn
  by_cases hk : s.proc.ctx.contextNodeCount < k
  · rw [if_pos hk, rollback_refused hk, Option.some.injEq] at hn
    subst hn
    exact textInv_setCtx s (k := 0) htexts hfits hsized hno _
  rw [if_neg hk] at hn
  by_cases h0 : k = 0
  · subst h0
    rw [if_pos rfl, rollback_zero, Option.some.injEq] at hn
    subst hn
    obtain ⟨-, hcount, hlen, -⟩ := clear_spec s.proc.ctx s.mem now
    exact textInv_nil hcount hlen hsized' List.drop_nil
  rw [if_neg h0] at hn
  have hsync := synced_writeBegin s.proc.ctx s.mem now
  by_cases hopen : (s.proc.ctx.writeBegin s.mem now).2.2 = false
  · rw [if_pos hopen, rollback_unopened hk h0 hopen, Option.some.injEq] at hn
    subst hn
    exact textInv_setCtx s (k := 0) (hsync.texts htexts) hfits hsized'
      (fun hstart => hno (hsync.same.start.symm.trans hstart)) _
  · rw [if_neg hopen, rollback_kept hk h0 (by simpa using hopen), Option.some.injEq] at hn
    subst hn
    have hle : k ≤ s.records.length := by
      rw [← htexts.count]
      exact not_lt.1 hk
    have hbegun := hsync.texts htexts
    have htake := hbegun.take hle
    have hkeep : Texts ((s.proc.ctx.writeBegin s.mem now).1.keepNodes k)
        (s.proc.ctx.writeBegin s.mem now).2.1 (s.records.take k) :=
      htake.congr rfl rfl (hbegun.last h0 hle) rfl rfl rfl
    have hsync' := synced_syncHeader ((s.proc.ctx.writeBegin s.mem now).1.keepNodes k)
      (s.proc.ctx.writeBegin s.mem now).2.1 now
    have hshort := flatten_length_le_of_sublist (List.take_sublist k s.records)
    have hinv := textInv_setCtx s (k := 0) (hsync'.texts hkeep) (hshort.trans hfits) hsized'
      (fun hstart => ?_) []
    · exact ⟨hinv.texts, hinv.fits, hinv.sized, hinv.noRegion⟩
    · have hstart' := hsync.same.start.symm.trans (hsync'.same.start.symm.trans hstart)
      rw [hno hstart', List.take_nil]
      rfl

/-- **`agent_mark_current`** empties the path or, where it fails, leaves it. -/
theorem TextInv.mark (h : TextInv s) {a : MarkArgs} (hn : s.next (.mark a) = some t) :
    TextInv t := by
  have hsized' := (region_step hn).sized h.sized
  obtain ⟨htexts, hfits, hsized, hno⟩ := h
  have hcase := mark_cases s.proc s.mem a
  obtain ⟨p, m, r, hr⟩ : ∃ p m r, agentMarkCurrent s.proc s.mem a = (p, m, r) := ⟨_, _, _, rfl⟩
  simp only [TrustedRun.next, hr] at hn hcase
  cases hcase with
  | refused =>
    rw [if_pos rfl, Option.some.injEq] at hn
    subst hn
    exact ⟨htexts, hfits, hsized, hno⟩
  | unjoined w =>
    rw [if_pos rfl, Option.some.injEq] at hn
    subst hn
    obtain ⟨hkeep, hnew⟩ := withRegion_ctx s.proc s.mem
    have hctx := marking_ctx s.proc s.mem a
    by_cases h0 : s.proc.ctx.contextRegionStart = 0
    · have hnil := hno h0
      rw [hnil] at htexts
      refine textInv_nil ?_ ?_ hsized' hnil
      · exact (congrArg ContextState.contextNodeCount hctx).trans
          (by rw [hnew h0]; exact htexts.count)
      · exact (congrArg ContextState.contextPathLen hctx).trans
          (by rw [hnew h0]; exact htexts.pathLen)
    · rw [hkeep h0] at hctx ⊢
      refine ⟨?_, hfits, hsized', fun hstart => absurd ?_ h0⟩
      · dsimp only
        rw [hctx]
        exact htexts.congr rfl rfl rfl rfl rfl rfl
      · exact (congrArg ContextState.contextRegionStart hctx).symm.trans hstart
  | @marked q w hq =>
    rw [if_neg (by omega), Option.some.injEq] at hn
    subst hn
    obtain ⟨-, hcount, hlen, -⟩ := clear_spec q.ctx (withRegion s.proc s.mem).2 a.now
    exact textInv_nil hcount hlen hsized' rfl

/-- **The step lemma.** -/
theorem TextInv.step (h : TextInv s) (hok : Untouched s l) (hn : s.next l = some t) :
    TextInv t := by
  have hsized' := (region_step hn).sized h.sized
  cases l with
  | mark a => exact h.mark hn
  | push node now => exact h.push hn
  | rollback k now => exact h.rollback hn
  | clear now =>
    simp only [TrustedRun.next, Option.some.injEq] at hn
    subst hn
    obtain ⟨-, hcount, hlen, -⟩ := clear_spec s.proc.ctx s.mem now
    exact textInv_nil hcount hlen hsized' List.drop_nil
  | query dst len =>
    simp only [TrustedRun.next, Option.some.injEq] at hn
    subst hn
    have hsame : Texts (s.proc.ctx.agentContextQuery s.mem dst len).1
        (s.proc.ctx.agentContextQuery s.mem dst len).2.1 s.records :=
      h.texts.congr rfl rfl rfl rfl rfl (copyThrough_outside s.mem _ (hok.elim .inr .inl))
    exact textInv_setCtx s (k := 0) hsame h.fits hsized' h.noRegion _
  | fork child generation =>
    simp only [TrustedRun.next, Option.some.injEq] at hn
    subst hn
    exact textInv_nil rfl rfl hsized' rfl
  | exec m sz =>
    simp only [TrustedRun.next, Option.some.injEq] at hn
    subst hn
    exact textInv_nil rfl rfl hsized' rfl
  | store va bytes =>
    simp only [TrustedRun.next] at hn
    split at hn <;> simp only [Option.some.injEq, reduceCtorEq] at hn
    subst hn
    exact h.keep rfl rfl hok
  | sbrk n ok =>
    simp only [TrustedRun.next, Option.some.injEq] at hn
    subst hn
    exact h.keep rfl rfl hok

/-- **The run lemma.** -/
theorem textInv_of_reach {tr : List TrustedLabel} (h : trustedMachine.Reach Untouched tr s) :
    TextInv s := by
  refine h.inv ?_ (fun s l t ih hok hn => ih.step hok hn)
  rintro s ⟨hctx, hrecords, -⟩
  refine textInv_nil ?_ ?_ ?_ hrecords
  · rw [hctx]; rfl
  · rw [hctx]; rfl
  · intro hne
    rw [hctx] at hne
    exact absurd rfl hne

/-- **The trusted Context.** In every run in which nothing but the Context calls changes the
bytes of the path, a query that succeeds returns the records that the kernel wrote for the
live nodes, as far as its buffer goes. -/
theorem trusted_context {tr : List TrustedLabel} (h : trustedMachine.Reach Untouched tr s)
    {dst len : ℕ} (hd : OffPath s.proc.ctx dst (min len s.proc.ctx.contextPathLen))
    (hret : (s.proc.ctx.agentContextQuery s.mem dst len).2.2 ≠ -1) :
    (s.proc.ctx.agentContextQuery s.mem dst len).2.2 = (s.records.flatten.take len).length ∧
      slice (s.proc.ctx.agentContextQuery s.mem dst len).2.1.byte dst
        (s.records.flatten.take len).length = s.records.flatten.take len := by
  have hinv := textInv_of_reach h
  refine hinv.texts.query hret ?_
  rcases hd with hbefore | hbehind
  · exact .inl (by omega)
  · exact .inr (.inl (by omega))

end

/-! ### Two runs -/

theorem firstRecord_untouched :
    trustedMachine.Reach Untouched firstRecord (onePageRuns firstRecord) := by
  obtain ⟨s₀, hinit, hpath⟩ := firstRecord_reach
  refine ⟨s₀, hinit, (hpath.mono fun _ _ _ => trivial).of_labels fun a ha s => ?_⟩
  simp only [firstRecord, List.mem_cons, List.not_mem_nil, or_false] at ha
  rcases ha with rfl | rfl <;> trivial

set_option maxRecDepth 100000 in
theorem trusted_context_first :
    slice ((onePageRuns firstRecord).proc.ctx.agentContextQuery
        (onePageRuns firstRecord).mem 0 512).2.1.byte 0
          ((onePageRuns firstRecord).records.flatten.take 512).length =
      (onePageRuns firstRecord).records.flatten.take 512 :=
  (trusted_context firstRecord_untouched (.inl (by decide +kernel)) (by decide +kernel)).2

/-- Then it stores one byte at the start of the path. -/
def forges : List TrustedLabel := firstRecord ++ [.store (pgsize + sizeofContextHeader) [88]]

set_option maxRecDepth 100000 in
/-- **A store into the region** passes verification and changes what a query returns. -/
theorem text_forged : ∃ tr s, trustedMachine.Reach always tr s ∧
    agentContextDigestVerify s.proc.ctx = 0 ∧
    (s.proc.ctx.agentContextQuery s.mem 0 512).2.2 = s.records.flatten.length ∧
    slice (s.proc.ctx.agentContextQuery s.mem 0 512).2.1.byte 0 s.records.flatten.length ≠
      s.records.flatten :=
  ⟨forges, onePageRuns forges, ⟨onePage, onePage_init, path_getD (by decide +kernel)⟩,
    by decide +kernel⟩

end AgentOS
