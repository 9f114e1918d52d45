import AgentOS.Model.Query
import AgentOS.Proof.FileIndex
import Mathlib.Data.Fintype.Card

/-!
# The indexed query and the scan

* `Collects f sel`: the body `f` of a query loop counts and records what `sel` picks.
* `queryScan_matched`: the scan picks the files in use that match.
* `queryIndexed_matched`: on an index that posts the table the indexed loop ends, and picks
  each of these files once.
* **`indexed_query_eq_scan`**.
-/

namespace AgentOS

open Chain

/-- The file is in use and meets the query. -/
def MatchesQuery (t : AgentFileIndex) (q : FileQuery) (i : Fin agentFileMetaMax) : Prop :=
  (t.fileMeta i).used = true ∧ fileMetaMatches (t.fileMeta i) q.conds q.keyword = true

instance (t : AgentFileIndex) (q : FileQuery) : DecidablePred (MatchesQuery t q) :=
  fun _ => inferInstanceAs (Decidable (_ ∧ _))

/-- The body `f` records the file that `sel` picks, if any, and counts it. -/
def Collects {ι : Type*} (f : QueryState → ι → QueryState)
    (sel : ι → Option (Fin agentFileMetaMax)) : Prop :=
  ∀ s x, (f s x).matched = s.matched ++ (sel x).toList ∧
    (f s x).count = s.count + (sel x).toList.length

section

variable {t : AgentFileIndex} {q : FileQuery} {c : AgentFileQueryCond} {L : List Posted}
  {i : Fin agentFileMetaMax}

/-! ### The loops -/

theorem Collects.foldl {ι : Type*} {f : QueryState → ι → QueryState}
    {sel : ι → Option (Fin agentFileMetaMax)} (h : Collects f sel) (l : List ι) (s : QueryState) :
    (l.foldl f s).matched = s.matched ++ l.filterMap sel ∧
      (l.foldl f s).count = s.count + (l.filterMap sel).length := by
  induction l generalizing s with
  | nil => simp
  | cons x l ih =>
    obtain ⟨hm, hc⟩ := ih (f s x)
    obtain ⟨hm', hc'⟩ := h s x
    rw [List.foldl_cons, hm, hc, hm', hc', List.filterMap_cons]
    cases sel x with
    | none => simp
    | some i => simp [Nat.add_assoc, Nat.add_comm 1]

/-- The loops record as many files as they count. -/
theorem Collects.count {ι : Type*} {f : QueryState → ι → QueryState}
    {sel : ι → Option (Fin agentFileMetaMax)} (h : Collects f sel) (l : List ι) :
    (l.foldl f QueryState.init).count = (l.foldl f QueryState.init).matched.length := by
  obtain ⟨hm, hc⟩ := h.foldl l QueryState.init
  rw [hm, hc]
  simp [QueryState.init]

theorem queryEntry_picks (s : QueryState) :
    (queryEntry t q s i).matched =
        s.matched ++ (if fileMetaMatches (t.fileMeta i) q.conds q.keyword then [i] else []) ∧
      (queryEntry t q s i).count =
        s.count + (if fileMetaMatches (t.fileMeta i) q.conds q.keyword then 1 else 0) := by
  unfold queryEntry
  dsimp only
  split <;> simp

theorem queryScanEntry_collects : Collects (queryScanEntry t q) fun i =>
    if MatchesQuery t q i then some i else none := by
  intro s i
  unfold queryScanEntry
  dsimp only
  by_cases hu : (t.fileMeta i).used = true
  · rw [if_pos hu]
    obtain ⟨hm, hc⟩ := queryEntry_picks (t := t) (q := q) (i := i)
      { s with indexScanned := s.indexScanned + 1 }
    rw [hm, hc]
    by_cases hf : fileMetaMatches (t.fileMeta i) q.conds q.keyword = true
    · have hmatch : MatchesQuery t q i := ⟨hu, hf⟩
      rw [if_pos hf, if_pos hf, if_pos hmatch]
      simp
    · have hmatch : ¬ MatchesQuery t q i := fun h => hf h.2
      rw [if_neg hf, if_neg hf, if_neg hmatch]
      simp
  · have hmatch : ¬ MatchesQuery t q i := fun h => hu h.1
    rw [if_neg hu, if_neg hmatch]
    simp

/-- **The scan matches the files in use that meet the query.** -/
theorem queryScan_matched :
    (queryScan t q).matched = (List.finRange agentFileMetaMax).filter (MatchesQuery t q) := by
  unfold queryScan
  rw [(queryScanEntry_collects.foldl _ _).1]
  show [] ++ _ = _
  rw [List.nil_append]
  induction List.finRange agentFileMetaMax with
  | nil => rfl
  | cons i l ih =>
    rw [List.filterMap_cons, List.filter_cons, ih]
    by_cases h : MatchesQuery t q i
    · simp [h]
    · simp [h]

theorem mem_queryScan : i ∈ (queryScan t q).matched ↔ MatchesQuery t q i := by
  rw [queryScan_matched, List.mem_filter]
  simp [List.mem_finRange]

theorem queryScan_nodup : (queryScan t q).matched.Nodup := by
  rw [queryScan_matched]
  exact (List.nodup_finRange _).filter _

theorem queryScan_count : (queryScan t q).count = (queryScan t q).matched.length :=
  queryScanEntry_collects.count _

/-! ### The indexed loop -/

/-- The file that a posting of the chain of `c` leads to. -/
def picked (t : AgentFileIndex) (q : FileQuery) (c : AgentFileQueryCond) (L : List Posted)
    (s : Fin agentFilePostingMax) : Option (Fin agentFileMetaMax) :=
  if h : (s : ℕ) < L.length then
    let x := L[(s : ℕ)]
    if streq x.2.key c.key = true ∧ streq x.2.value c.value = true ∧ MatchesQuery t q x.1 then
      some x.1
    else none
  else none

/-- The body of the indexed loop picks so, at a posting in use. -/
theorem queryPosting_picks (h : Indexed t L) (s : QueryState) {post : Fin agentFilePostingMax}
    (hpost : (post : ℕ) < L.length) :
    (queryPosting t q c s post).matched = s.matched ++ (picked t q c L post).toList ∧
      (queryPosting t q c s post).count = s.count + (picked t q c L post).toList.length := by
  have hk : streq (t.filePostings post).key c.key = streq L[(post : ℕ)].2.key c.key :=
    streq_congr (h.key post hpost) _
  have hv : streq (t.filePostings post).value c.value = streq L[(post : ℕ)].2.value c.value :=
    streq_congr (h.value post hpost) _
  have he := h.entry post hpost
  unfold queryPosting picked
  dsimp only
  rw [hk, hv, dif_pos hpost]
  -- a posting is picked if it passes the four tests, one after the other
  by_cases hkc : streq L[(post : ℕ)].2.key c.key = true
  swap
  · rw [if_pos (.inl (by simpa using hkc)), if_neg fun h => hkc h.1]
    simp
  by_cases hvc : streq L[(post : ℕ)].2.value c.value = true
  swap
  · rw [if_pos (.inr (by simpa using hvc)), if_neg fun h => hvc h.2.1]
    simp
  have hidx : (t.filePostings post).entryIdx < agentFileMetaMax := by
    rw [he]
    exact L[(post : ℕ)].1.isLt
  have hfin : (⟨(t.filePostings post).entryIdx, hidx⟩ : Fin agentFileMetaMax) =
      L[(post : ℕ)].1 := Fin.ext he
  rw [if_neg (by rw [hkc, hvc]; simp), dif_pos hidx, hfin]
  by_cases hu : (t.fileMeta L[(post : ℕ)].1).used = true
  swap
  · rw [if_neg hu, if_neg fun h => hu h.2.2.1]
    simp
  rw [if_pos hu]
  obtain ⟨hm, hc⟩ := queryEntry_picks (t := t) (q := q) (i := L[(post : ℕ)].1)
    { s with indexScanned := s.indexScanned + 1 }
  rw [hm, hc]
  by_cases hf : fileMetaMatches (t.fileMeta L[(post : ℕ)].1) q.conds q.keyword = true
  · rw [if_pos hf, if_pos hf, if_pos ⟨hkc, hvc, hu, hf⟩]
    simp
  · rw [if_neg hf, if_neg hf, if_neg fun h => hf h.2.2.2]
    simp

/-- **The indexed loop ends**, with the files that the postings of the bucket lead to. -/
theorem queryIndexed_matched (h : Indexed t L) (q : FileQuery) (c : AgentFileQueryCond) :
    ∃ s, ∃ l : List (Fin agentFilePostingMax), queryIndexed t q c = some s ∧ l.Nodup ∧
      (∀ post, post ∈ l ↔ ∃ hp : (post : ℕ) < L.length,
        L[(post : ℕ)].2.bucket = fileAttrHash c.key c.value) ∧
      s.matched = l.filterMap (picked t q c L) ∧ s.count = s.matched.length := by
  obtain ⟨l, hl, hnd, hmem⟩ := h.chain (fileAttrHash c.key c.value)
  have hlen : l.length ≤ agentFilePostingMax := by
    have hcard := List.Nodup.length_le_card hnd
    rwa [Fintype.card_fin] at hcard
  refine ⟨_, l, hl.fold hlen QueryState.init, hnd, hmem, ?_⟩
  have hall : ∀ l' : List (Fin agentFilePostingMax), (∀ post ∈ l', (post : ℕ) < L.length) →
      ∀ s : QueryState,
        (l'.foldl (queryPosting t q c) s).matched = s.matched ++ l'.filterMap (picked t q c L) ∧
        (l'.foldl (queryPosting t q c) s).count =
          s.count + (l'.filterMap (picked t q c L)).length := by
    intro l'
    induction l' with
    | nil => intro _ s; simp
    | cons post l' ih =>
      intro hp s
      obtain ⟨hm, hc⟩ := ih (fun x hx => hp x (by simp [hx])) (queryPosting t q c s post)
      obtain ⟨hm', hc'⟩ := queryPosting_picks (q := q) (c := c) h s (hp post (by simp))
      rw [List.foldl_cons, hm, hc, hm', hc', List.filterMap_cons]
      cases picked t q c L post with
      | none => simp
      | some i => simp [Nat.add_assoc, Nat.add_comm 1]
  obtain ⟨hm, hc⟩ := hall l (fun post hp => ((hmem post).1 hp).1) QueryState.init
  refine ⟨by rw [hm]; rfl, ?_⟩
  rw [hc, hm]
  simp [QueryState.init]

theorem picked_some {s : Fin agentFilePostingMax} (h : picked t q c L s = some i) :
    ∃ hs : (s : ℕ) < L.length, L[(s : ℕ)].1 = i ∧ streq L[(s : ℕ)].2.key c.key = true ∧
      streq L[(s : ℕ)].2.value c.value = true ∧ MatchesQuery t q i := by
  unfold picked at h
  split at h
  · rename_i hs
    dsimp only at h
    split at h
    · rename_i hx
      cases h
      exact ⟨hs, rfl, hx.1, hx.2.1, hx.2.2⟩
    · cases h
  · cases h

/-- A file that meets a query with the first condition `c` has an attribute that meets `c`. -/
theorem matches_first {rest : List AgentFileQueryCond} (hq : q.conds = c :: rest)
    (h : MatchesQuery t q i) :
    ∃ a ∈ (t.fileMeta i).attrs, streq a.key c.key = true ∧ streq a.value c.value = true := by
  have hm := h.2
  unfold fileMetaMatches at hm
  rw [hq, List.all_cons, Bool.and_eq_true, Bool.and_eq_true] at hm
  have hc := hm.1.1
  unfold fileAttrMatch at hc
  obtain ⟨a, ha, hac⟩ := List.any_eq_true.1 hc
  rw [Bool.and_eq_true] at hac
  exact ⟨a, ha, hac.1, hac.2⟩

theorem hash_congr {k k' v v' : List UInt8} (hk : streq k k' = true) (hv : streq v v' = true) :
    fileAttrHash k v = fileAttrHash k' v' := by
  unfold streq at hk hv
  rw [beq_iff_eq] at hk hv
  unfold fileAttrHash
  simp only [hk, hv]

/-- **The indexed loop matches the files in use that meet the query, each once.** -/
theorem queryIndexed_spec {rest : List AgentFileQueryCond} (h : Indexed t (postedAll t))
    (hkeys : KeysDistinct t) (hq : q.conds = c :: rest) :
    ∃ s, queryIndexed t q c = some s ∧ s.matched.Nodup ∧
      (∀ i, i ∈ s.matched ↔ MatchesQuery t q i) ∧ s.count = s.matched.length := by
  obtain ⟨s, l, hs, hnd, hmem, hm, hc⟩ := queryIndexed_matched h q c
  refine ⟨s, hs, ?_, fun i => ?_, hc⟩
  · -- two postings that lead to one file have the key of `c`, so they are one
    rw [hm]
    refine hnd.filterMap fun a b i ha hb => ?_
    obtain ⟨hla, hia, hka, -, -⟩ := picked_some ha
    obtain ⟨hlb, hib, hkb, -, -⟩ := picked_some hb
    have hsame : streq (postedAll t)[(a : ℕ)].2.key (postedAll t)[(b : ℕ)].2.key = true := by
      unfold streq at *
      rw [beq_iff_eq] at *
      rw [hka, hkb]
    have hpair := List.pairwise_iff_getElem.1 (postedAll_pairwise hkeys)
    rcases Nat.lt_trichotomy a b with hab | hab | hab
    · have hne := hpair _ _ hla hlb hab (hia.trans hib.symm)
      rw [hsame] at hne
      cases hne
    · exact Fin.ext hab
    · have hne := hpair _ _ hlb hla hab (hib.trans hia.symm)
      rw [show streq _ _ = true from by unfold streq at *; rw [beq_iff_eq] at *; exact hsame.symm]
        at hne
      cases hne
  · rw [hm, List.mem_filterMap]
    constructor
    · rintro ⟨post, -, hp⟩
      exact (picked_some hp).choose_spec.2.2.2
    · intro hi
      obtain ⟨a, ha, hk, hv⟩ := matches_first hq hi
      obtain ⟨n, hn, hx⟩ := List.getElem_of_mem
        (mem_postedAll.2 (show _ ∧ _ from ⟨hi.1, ha⟩) : ((i, a) : Posted) ∈ postedAll t)
      have hroom : n < agentFilePostingMax := lt_of_lt_of_le hn h.room
      refine ⟨⟨n, hroom⟩, (hmem _).2 ⟨hn, ?_⟩, ?_⟩
      · show (postedAll t)[n].2.bucket = _
        rw [hx]
        exact hash_congr hk hv
      · unfold picked
        rw [dif_pos hn]
        show (if _ then some (postedAll t)[n].1 else none) = _
        rw [hx, if_pos ⟨hk, hv, hi⟩]

/-! ### The order of the files -/

/-- The files of the table that match, in its order. -/
def tableOrder (t : AgentFileIndex) (q : FileQuery) : List (Fin agentFileMetaMax) :=
  (List.finRange agentFileMetaMax).filter (MatchesQuery t q)

/-- The postings of a bucket, in the order of their chain. -/
def fileChain (t : AgentFileIndex) (b : Fin agentFileIndexBuckets) :
    List (Fin agentFilePostingMax) :=
  (Chain.fold (fun post => (t.filePostings post).next) (fun l post => l ++ [post])
    agentFilePostingMax (t.fileIndex b) []).getD []

/-- The file that a posting for the condition `c` leads to, if it matches. -/
def postingFile (t : AgentFileIndex) (q : FileQuery) (c : AgentFileQueryCond)
    (post : Fin agentFilePostingMax) : Option (Fin agentFileMetaMax) :=
  if streq (t.filePostings post).key c.key = true ∧
      streq (t.filePostings post).value c.value = true then
    if h : (t.filePostings post).entryIdx < agentFileMetaMax then
      if MatchesQuery t q ⟨(t.filePostings post).entryIdx, h⟩ then
        some ⟨(t.filePostings post).entryIdx, h⟩
      else none
    else none
  else none

/-- **The files that match, in the order in which a query meets them**: that of the table, or of
the chain of its first condition. -/
def queryOrder (t : AgentFileIndex) (q : FileQuery) : List (Fin agentFileMetaMax) :=
  match q.conds with
  | c :: _ =>
    if q.forceScan then tableOrder t q
    else (fileChain t (fileAttrHash c.key c.value)).filterMap (postingFile t q c)
  | [] => tableOrder t q

theorem queryPosting_collects : Collects (queryPosting t q c) (postingFile t q c) := by
  intro s post
  unfold queryPosting postingFile
  dsimp only
  by_cases hkc : streq (t.filePostings post).key c.key = true
  swap
  · rw [if_pos (.inl (by simpa using hkc)), if_neg fun h => hkc h.1]
    simp
  by_cases hvc : streq (t.filePostings post).value c.value = true
  swap
  · rw [if_pos (.inr (by simpa using hvc)), if_neg fun h => hvc h.2]
    simp
  rw [if_neg (by rw [hkc, hvc]; simp), if_pos ⟨hkc, hvc⟩]
  by_cases hidx : (t.filePostings post).entryIdx < agentFileMetaMax
  swap
  · rw [dif_neg hidx, dif_neg hidx]
    simp
  rw [dif_pos hidx, dif_pos hidx]
  generalize (⟨(t.filePostings post).entryIdx, hidx⟩ : Fin agentFileMetaMax) = i
  by_cases hu : (t.fileMeta i).used = true
  swap
  · rw [if_neg hu, if_neg fun h => hu h.1]
    simp
  rw [if_pos hu]
  obtain ⟨hm, hc⟩ := queryEntry_picks (t := t) (q := q) (i := i)
    { s with indexScanned := s.indexScanned + 1 }
  rw [hm, hc]
  by_cases hf : fileMetaMatches (t.fileMeta i) q.conds q.keyword = true
  · rw [if_pos hf, if_pos hf, if_pos (show MatchesQuery t q i from ⟨hu, hf⟩)]
    simp
  · rw [if_neg hf, if_neg hf, if_neg fun h => hf h.2]
    simp

/-- **A query matches the files in this order.** -/
theorem queryRun_order {r : QueryState × Bool} (hr : queryRun t q = some r) :
    r.1.matched = queryOrder t q := by
  unfold queryRun at hr
  unfold queryOrder
  cases hq : q.conds with
  | nil =>
    rw [hq] at hr
    cases hr
    exact queryScan_matched
  | cons c rest =>
    rw [hq] at hr
    dsimp only at hr ⊢
    by_cases hf : q.forceScan = true
    · rw [if_pos hf] at hr ⊢
      cases hr
      exact queryScan_matched
    · rw [if_neg hf] at hr ⊢
      obtain ⟨s, hs, rfl⟩ := Option.map_eq_some_iff.1 hr
      have hfold : Chain.fold (fun post => (t.filePostings post).next) (queryPosting t q c)
          agentFilePostingMax (t.fileIndex (fileAttrHash c.key c.value))
          ([].foldl (queryPosting t q c) QueryState.init) = _ :=
        Chain.fold_eq_foldl QueryState.init [] agentFilePostingMax
      unfold queryIndexed at hs
      rw [List.foldl_nil, hs] at hfold
      obtain ⟨l, hl, hsl⟩ := Option.map_eq_some_iff.1 hfold.symm
      unfold fileChain
      rw [hl, Option.getD_some, ← hsl]
      exact (queryPosting_collects.foldl l QueryState.init).1

theorem queryRun_cons {rest : List AgentFileQueryCond} (hq : q.conds = c :: rest) :
    queryRun t q =
      if q.forceScan then some (queryScan t q, false)
      else (queryIndexed t q c).map fun s => (s, true) := by
  unfold queryRun
  rw [hq]

/-- **A query on an index that posts the table ends, and matches the files in use that meet it,
each once.** -/
theorem queryRun_spec (h : Indexed t (postedAll t)) (hkeys : KeysDistinct t) (q : FileQuery) :
    ∃ r, queryRun t q = some r ∧ r.1.matched.Nodup ∧
      ∀ i, i ∈ r.1.matched ↔ MatchesQuery t q i := by
  cases hq : q.conds with
  | nil =>
    refine ⟨(queryScan t q, false), ?_, queryScan_nodup, fun i => mem_queryScan⟩
    unfold queryRun
    rw [hq]
  | cons c rest =>
    rw [queryRun_cons hq]
    by_cases hf : q.forceScan = true
    · rw [if_pos hf]
      exact ⟨_, rfl, queryScan_nodup, fun i => mem_queryScan⟩
    · rw [if_neg hf]
      obtain ⟨s, hs, hnd, hmem, -⟩ := queryIndexed_spec h hkeys hq
      rw [hs]
      exact ⟨(s, true), rfl, hnd, hmem⟩

/-- **An indexed query equals a full scan.** On a table whose files have at most four attributes
with distinct keys, after a rebuild of the postings, the indexed loop ends; it matches the files
that the scan matches, each once, and reports the same count. -/
theorem indexed_query_eq_scan (t : AgentFileIndex) (hfit : AttrsFit t) (hkeys : KeysDistinct t)
    (q : FileQuery) (hq : q.conds ≠ []) :
    ∃ s, ∃ s' : QueryState,
      queryRun (fileRebuildPostings t) { q with forceScan := false } = some (s, true) ∧
      queryRun (fileRebuildPostings t) { q with forceScan := true } = some (s', false) ∧
      s.matched.Nodup ∧ s.matched.Perm s'.matched ∧ s.count = s'.count ∧
      ∀ i, i ∈ s.matched ↔ MatchesQuery t q i := by
  obtain ⟨c, rest, hconds⟩ := List.exists_cons_of_ne_nil hq
  have hpost : postedAll (fileRebuildPostings t) = postedAll t := by
    unfold postedAll postedOf
    rw [fileRebuildPostings_meta]
  have hindex : Indexed (fileRebuildPostings t) (postedAll (fileRebuildPostings t)) := by
    rw [hpost]
    exact indexed_rebuild hfit
  have hkeys' : KeysDistinct (fileRebuildPostings t) := by
    unfold KeysDistinct
    rw [fileRebuildPostings_meta]
    exact hkeys
  have hmatch : ∀ force i, MatchesQuery (fileRebuildPostings t) { q with forceScan := force } i ↔
      MatchesQuery t q i := by
    intro force i
    unfold MatchesQuery
    rw [fileRebuildPostings_meta]
  obtain ⟨s, hs, hnd, hmem, hc⟩ :=
    queryIndexed_spec (q := { q with forceScan := false }) hindex hkeys' hconds
  refine ⟨s, queryScan (fileRebuildPostings t) { q with forceScan := true }, ?_, ?_, hnd, ?_, ?_,
    fun i => (hmem i).trans (hmatch _ i)⟩
  · rw [queryRun_cons (q := { q with forceScan := false }) hconds, if_neg (by simp), hs]
    rfl
  · rw [queryRun_cons (q := { q with forceScan := true }) hconds, if_pos rfl]
  all_goals
    have hperm : s.matched.Perm
        (queryScan (fileRebuildPostings t) { q with forceScan := true }).matched := by
      rw [List.perm_ext_iff_of_nodup hnd queryScan_nodup]
      intro i
      rw [hmem, mem_queryScan, hmatch, hmatch]
  · exact hperm
  · rw [hc, queryScan_count, hperm.length_eq]

/-- Two files with an attribute `a=b`, and a query for it. -/
def sampleTable : AgentFileIndex :=
  { AgentFileIndex.init with fileMeta := fun i =>
      if (i : ℕ) < 2 then
        ⟨true, i, 1, lit "f", [],
          [InodeAttr.mk' (lit "a") (lit "b"), InodeAttr.mk' (lit "c") (lit "d")]⟩
      else AgentFileMeta.zero }

theorem indexed_query_eq_scan_sample :
    ∃ s, ∃ s' : QueryState,
      queryRun (fileRebuildPostings sampleTable) ⟨[⟨lit "a", lit "b"⟩], [], false⟩ =
        some (s, true) ∧
      queryRun (fileRebuildPostings sampleTable) ⟨[⟨lit "a", lit "b"⟩], [], true⟩ =
        some (s', false) ∧
      s.matched.Nodup ∧ s.matched.Perm s'.matched ∧ s.count = s'.count ∧
      ∀ i, i ∈ s.matched ↔ MatchesQuery sampleTable ⟨[⟨lit "a", lit "b"⟩], [], false⟩ i :=
  indexed_query_eq_scan sampleTable (by unfold AttrsFit; decide +kernel)
    (by unfold KeysDistinct; decide +kernel) ⟨[⟨lit "a", lit "b"⟩], [], false⟩ (by simp)

end

end AgentOS
