import AgentOS.Lib.Clip
import AgentOS.Proof.FileTree
import AgentOS.Proof.Query
import AgentOS.Proof.QueryShare
import AgentOS.Proof.Text

/-!
# The table of a build, and the text of an answer

* `TableOf m W t`: the table `t` has the files of the walk `W`, each once, with the metadata `m`.
* `tableOf_walk`: so has the table after a walk over at most as many files as it has entries.
* `reportText`: the text of an answer up to the count; `queryRun_written`, `queryAnswer_report`:
  an answer begins with that text, if it is not too long for the buffer.
-/

namespace AgentOS

/-! ### The table -/

/-- **The table has the files of the walk, each once.** -/
structure TableOf (m : ℕ → FileInode) (W : List (ℕ × List UInt8)) (t : AgentFileIndex) : Prop where
  sound : ∀ k, (t.fileMeta k).used = true → ∃ path, ((t.fileMeta k).inum, path) ∈ W ∧
    t.fileMeta k = fileCacheFill (t.fileMeta k).inum path (m (t.fileMeta k).inum)
  complete : ∀ x ∈ W, ∃ k, (t.fileMeta k).used = true ∧ (t.fileMeta k).inum = x.1
  inj : ∀ k k', (t.fileMeta k).used = true → (t.fileMeta k').used = true →
    (t.fileMeta k).inum = (t.fileMeta k').inum → k = k'

section

variable {m : ℕ → FileInode} {W : List (ℕ × List UInt8)} {t : AgentFileIndex}
  {f : ℕ × List UInt8} {l : List ℕ}

/-- While a file is not in the table, and `l` has room for it, the table has room for it. -/
theorem TableOf.room (h : TableOf m W t) (hl : l.length ≤ agentFileMetaMax)
    (hW : ∀ x ∈ W, x.1 ∈ l) (hf : f.1 ∈ l)
    (hnew : ∀ k, (t.fileMeta k).used = true → (t.fileMeta k).inum ≠ f.1) :
    ∃ k, (t.fileMeta k).used = false := by
  by_contra hno
  have hused : ∀ k, (t.fileMeta k).used = true := by
    intro k
    by_contra hk
    exact hno ⟨k, by simpa using hk⟩
  have hmaps : ∀ k ∈ (Finset.univ : Finset (Fin agentFileMetaMax)),
      (t.fileMeta k).inum ∈ l.toFinset.erase f.1 := by
    intro k _
    obtain ⟨path, hmem, -⟩ := h.sound k (hused k)
    exact Finset.mem_erase.2 ⟨hnew k (hused k), List.mem_toFinset.2 (hW _ hmem)⟩
  have hinj : Set.InjOn (fun k => (t.fileMeta k).inum)
      (Finset.univ : Finset (Fin agentFileMetaMax)) := by
    intro k _ k' _ he
    exact h.inj k k' (hused k) (hused k') he
  have hcard := Finset.card_le_card_of_injOn _ hmaps hinj
  have herase := Finset.card_erase_lt_of_mem (List.mem_toFinset.2 hf)
  have hlist := List.toFinset_card_le l
  rw [Finset.card_univ, Fintype.card_fin] at hcard
  omega

/-- **Where a visit stores the file**: nowhere, if no entry is free and none has its inode, else
at a slot that alone may have it. -/
theorem fileIndexVisit_spec
    (hinj : ∀ k k', (t.fileMeta k).used = true → (t.fileMeta k').used = true →
      (t.fileMeta k).inum = (t.fileMeta k').inum → k = k') :
    ((∀ k, (t.fileMeta k).used = true ∧ (t.fileMeta k).inum ≠ f.1) ∧
        (fileIndexVisit m t f).fileMeta = t.fileMeta) ∨
      ∃ k, (fileIndexVisit m t f).fileMeta =
          Function.update t.fileMeta k (fileCacheFill f.1 f.2 (m f.1)) ∧
        ((t.fileMeta k).used = true → (t.fileMeta k).inum = f.1) ∧
        ∀ k', k' ≠ k → (t.fileMeta k').used = true → (t.fileMeta k').inum ≠ f.1 := by
  unfold fileIndexVisit fileCacheUpsert
  rw [show (fileCacheFill f.1 f.2 (m f.1)).inum = f.1 from rfl]
  cases hfind : fileCacheFindByInum t f.1 with
  | some k =>
    have hk := Table.first_some (by unfold fileCacheFindByInum at hfind; exact hfind)
    rw [Bool.and_eq_true, beq_iff_eq] at hk
    refine Or.inr ⟨k, rfl, fun _ => hk.2, fun k' hk' hu he => hk' ?_⟩
    exact hinj k' k hu hk.1 (he.trans hk.2.symm)
  | none =>
    -- a file without an entry takes the first free one
    have hnone := Table.first_none.1 (by unfold fileCacheFindByInum at hfind; exact hfind)
    have hnew : ∀ k, (t.fileMeta k).used = true → (t.fileMeta k).inum ≠ f.1 := by
      intro k hu he
      have hk := hnone k
      rw [hu, he] at hk
      simp at hk
    dsimp only
    cases hfree : Table.first t.fileMeta fun m => !m.used with
    | none =>
      have hused : ∀ k, (t.fileMeta k).used = true := by
        intro k
        simpa using Table.first_none.1 hfree k
      exact Or.inl ⟨fun k => ⟨hused k, hnew k (hused k)⟩, rfl⟩
    | some k =>
      have hk := Table.first_some hfree
      refine Or.inr ⟨k, rfl, fun hu => ?_, fun k' _ hu => hnew k' hu⟩
      rw [hu] at hk
      cases hk

/-- A visit keeps the inode numbers apart. -/
theorem fileIndexVisit_inj
    (hinj : ∀ k k', (t.fileMeta k).used = true → (t.fileMeta k').used = true →
      (t.fileMeta k).inum = (t.fileMeta k').inum → k = k') :
    ∀ k k', ((fileIndexVisit m t f).fileMeta k).used = true →
      ((fileIndexVisit m t f).fileMeta k').used = true →
      ((fileIndexVisit m t f).fileMeta k).inum = ((fileIndexVisit m t f).fileMeta k').inum →
      k = k' := by
  intro k k' hu hu' he
  rcases fileIndexVisit_spec (m := m) (f := f) hinj with ⟨-, hm⟩ | ⟨k₀, hm, -, hno⟩
  · rw [hm] at hu hu' he
    exact hinj k k' hu hu' he
  rw [hm] at hu hu' he
  by_cases hk : k = k₀
  · by_cases hk' : k' = k₀
    · rw [hk, hk']
    · subst hk
      rw [Function.update_self, Function.update_of_ne hk'] at he
      rw [Function.update_of_ne hk'] at hu'
      exact absurd he.symm (hno k' hk' hu')
  · rw [Function.update_of_ne hk] at hu he
    by_cases hk' : k' = k₀
    · subst hk'
      rw [Function.update_self] at he
      exact absurd he (hno k hk hu)
    · rw [Function.update_of_ne hk'] at hu' he
      exact hinj k k' hu hu' he

/-- While there is room, a visit stores the file. -/
theorem fileIndexVisit_at (h : TableOf m W t) (hl : l.length ≤ agentFileMetaMax)
    (hW : ∀ x ∈ W, x.1 ∈ l) (hf : f.1 ∈ l) :
    ∃ k, (fileIndexVisit m t f).fileMeta =
        Function.update t.fileMeta k (fileCacheFill f.1 f.2 (m f.1)) ∧
      ((t.fileMeta k).used = true → (t.fileMeta k).inum = f.1) ∧
      ∀ k', k' ≠ k → (t.fileMeta k').used = true → (t.fileMeta k').inum ≠ f.1 := by
  rcases fileIndexVisit_spec (m := m) (f := f) h.inj with ⟨hfull, -⟩ | hstored
  · obtain ⟨k₀, hk₀⟩ := h.room hl hW hf fun k _ => (hfull k).2
    rw [(hfull k₀).1] at hk₀
    cases hk₀
  · exact hstored

theorem TableOf.visit (h : TableOf m W t) (hl : l.length ≤ agentFileMetaMax)
    (hW : ∀ x ∈ W, x.1 ∈ l) (hf : f.1 ∈ l) : TableOf m (W ++ [f]) (fileIndexVisit m t f) := by
  obtain ⟨k, hk, hsame, -⟩ := fileIndexVisit_at h hl hW hf
  refine ⟨fun k' hu => ?_, fun x hx => ?_, fileIndexVisit_inj h.inj⟩
  · rw [hk] at hu ⊢
    by_cases hkk : k' = k
    · subst hkk
      rw [Function.update_self]
      exact ⟨f.2, List.mem_append_right _ (List.mem_singleton.2 rfl), rfl⟩
    · rw [Function.update_of_ne hkk] at hu ⊢
      obtain ⟨path, hmem, he⟩ := h.sound k' hu
      exact ⟨path, List.mem_append_left _ hmem, he⟩
  · rw [hk]
    have hnew : ∃ k', (Function.update t.fileMeta k (fileCacheFill f.1 f.2 (m f.1)) k').used =
        true ∧ (Function.update t.fileMeta k (fileCacheFill f.1 f.2 (m f.1)) k').inum = f.1 := by
      refine ⟨k, ?_⟩
      rw [Function.update_self]
      exact ⟨rfl, rfl⟩
    rcases List.mem_append.1 hx with hx | hx
    · obtain ⟨k₀, hu, hi⟩ := h.complete x hx
      by_cases hkk : k₀ = k
      · subst hkk
        rw [← hi, hsame hu]
        exact hnew
      · refine ⟨k₀, ?_⟩
        rw [Function.update_of_ne hkk]
        exact ⟨hu, hi⟩
    · rw [List.mem_singleton.1 hx]
      exact hnew

/-- A visit stores the file in one entry, or nowhere. -/
theorem fileIndexVisit_cases (m : ℕ → FileInode) (t : AgentFileIndex) (f : ℕ × List UInt8) :
    (fileIndexVisit m t f).fileMeta = t.fileMeta ∨
      ∃ k, (fileIndexVisit m t f).fileMeta =
        Function.update t.fileMeta k (fileCacheFill f.1 f.2 (m f.1)) := by
  unfold fileIndexVisit fileCacheUpsert
  dsimp only
  split
  · rename_i k _
    exact Or.inr ⟨k, rfl⟩
  · exact Or.inl rfl

/-- However long the walk, an entry in use has the metadata of a file of the walk. -/
theorem walk_filled (W : List (ℕ × List UInt8)) (k : Fin agentFileMetaMax)
    (hu : ((W.foldl (fileIndexVisit m) (fileIndexClear t)).fileMeta k).used = true) :
    ∃ f ∈ W, (W.foldl (fileIndexVisit m) (fileIndexClear t)).fileMeta k =
      fileCacheFill f.1 f.2 (m f.1) := by
  induction W using List.reverseRecOn with
  | nil => cases hu
  | append_singleton W f ih =>
    rw [List.foldl_append, List.foldl_cons, List.foldl_nil] at hu ⊢
    generalize W.foldl (fileIndexVisit m) (fileIndexClear t) = x at *
    rcases fileIndexVisit_cases m x f with hx | ⟨k₀, hx⟩
    · rw [hx] at hu ⊢
      obtain ⟨g, hg, he⟩ := ih hu
      exact ⟨g, List.mem_append_left _ hg, he⟩
    · rw [hx] at hu ⊢
      by_cases hk : k = k₀
      · subst hk
        rw [Function.update_self]
        exact ⟨f, List.mem_append_right _ (List.mem_singleton.2 rfl), rfl⟩
      · rw [Function.update_of_ne hk] at hu ⊢
        obtain ⟨g, hg, he⟩ := ih hu
        exact ⟨g, List.mem_append_left _ hg, he⟩

/-- **After a walk the table has its files.** -/
theorem tableOf_walk (hl : l.length ≤ agentFileMetaMax) (hW : ∀ x ∈ W, x.1 ∈ l) :
    TableOf m W (W.foldl (fileIndexVisit m) (fileIndexClear t)) := by
  induction W using List.reverseRecOn with
  | nil =>
    refine ⟨fun k hu => ?_, fun x hx => absurd hx List.not_mem_nil, fun k k' hu => ?_⟩
    · cases hu
    · cases hu
  | append_singleton W f ih =>
    have hW' : ∀ x ∈ W, x.1 ∈ l := fun x hx => hW x (List.mem_append_left _ hx)
    rw [List.foldl_append]
    exact (ih hW').visit hl hW' (hW f (List.mem_append_right _ (List.mem_singleton.2 rfl)))

end

/-! ### The text -/

/-- The bytes of a result before the NUL. -/
def resultRoom : ℕ := agentToolResultMax - 1

/-- Records with commas between them. -/
def commaText : List (List UInt8) → List UInt8
  | [] => []
  | r :: l => r ++ l.flatMap fun r => lit "," ++ r

theorem commaText_snoc (l : List (List UInt8)) (r : List UInt8) :
    commaText (l ++ [r]) = commaText l ++ (if l = [] then [] else lit ",") ++ r := by
  cases l with
  | nil => simp [commaText]
  | cons a l => simp [commaText]

/-- `append_file_result`, in full. -/
def entryText (m : AgentFileMeta) : List UInt8 :=
  lit "\x7bpath=" ++ cstr m.path ++
    (m.attrs.flatMap fun a => lit "," ++ cstr a.key ++ lit "=" ++ cstr a.value) ++
    lit ",summary=" ++ cstr m.summary ++ lit "\x7d"

/-- The listed files, with commas. -/
def listing : List AgentFileMeta → List UInt8
  | [] => []
  | m :: l => entryText m ++ l.flatMap fun m => lit "," ++ entryText m

/-- An answer up to its count. -/
def reportText (listed : List AgentFileMeta) (count : ℕ) : List UInt8 :=
  lit "\x7bstatus=ok,files=[" ++ listing listed ++ lit "],count=" ++ decimal count ++ lit ","

section

variable {t : AgentFileIndex} {q : FileQuery} {s : QueryState} {buf x text : List UInt8}
  {m : AgentFileMeta}

theorem clip_resultPuts (h : Clip resultRoom buf x) (s : List UInt8) :
    Clip resultRoom (resultPuts buf s) (x ++ cstr s) := h.put _

theorem clip_lit (h : Clip resultRoom buf x) (s : String) (hs : cstr (lit s) = lit s) :
    Clip resultRoom (resultPuts buf (lit s)) (x ++ lit s) := by
  have hput := clip_resultPuts h (lit s)
  rwa [hs] at hput

theorem clip_resultPutu (h : Clip resultRoom buf x) (v : ℕ) :
    Clip resultRoom (resultPutu buf v) (x ++ decimal v) := by
  have hput := clip_resultPuts h (decimal v)
  rwa [cstr_of_notMem (decimal_zero v)] at hput

theorem appendFileResult_clip (h : Clip resultRoom buf x) (m : AgentFileMeta) :
    Clip resultRoom (appendFileResult buf m) (x ++ entryText m) := by
  have hpath := clip_resultPuts (clip_lit h "\x7bpath=" rfl) m.path
  have hattrs := hpath.foldl (g := fun a : InodeAttr =>
    lit "," ++ cstr a.key ++ lit "=" ++ cstr a.value) (fun buf x a hb => by
      have hput := clip_resultPuts (clip_lit (clip_resultPuts (clip_lit hb "," rfl) a.key) "=" rfl)
        a.value
      simpa only [List.append_assoc] using hput) m.attrs
  have hend := clip_lit (clip_resultPuts (clip_lit hattrs ",summary=" rfl) m.summary) "\x7d" rfl
  unfold entryText
  simp only [List.append_assoc] at hend ⊢
  exact hend

theorem listing_eq (l : List AgentFileMeta) : listing l = commaText (l.map entryText) := by
  cases l with
  | nil => rfl
  | cons m l =>
    rw [List.map_cons, listing, commaText, List.flatMap_map]

theorem listing_snoc (l : List AgentFileMeta) (m : AgentFileMeta) :
    listing (l ++ [m]) = listing l ++ (if l = [] then [] else lit ",") ++ entryText m := by
  rw [listing_eq, listing_eq, List.map_append, List.map_singleton, commaText_snoc]
  simp only [List.map_eq_nil_iff]

/-- **The buffer of a loop lists the first three files that matched.** -/
def Written (t : AgentFileIndex) (s : QueryState) : Prop :=
  s.count = s.matched.length ∧
    s.buf = (lit "\x7bstatus=ok,files=[" ++
      listing ((s.matched.take agentFileResultMax).map t.fileMeta)).take (agentToolResultMax - 1)

theorem queryEntry_written (h : Written t s) (i : Fin agentFileMetaMax) :
    Written t (queryEntry t q s i) := by
  obtain ⟨hc, hb⟩ := h
  change Clip resultRoom s.buf _ at hb
  unfold queryEntry
  dsimp only
  split
  swap
  · exact ⟨hc, hb⟩
  refine ⟨?_, ?_⟩
  · rw [List.length_append, List.length_singleton, hc]
  · dsimp only
    by_cases hlist : s.count < agentFileResultMax
    · have hall : s.matched.take agentFileResultMax = s.matched :=
        List.take_of_length_le (by omega)
      have hall' : (s.matched ++ [i]).take agentFileResultMax = s.matched ++ [i] := by
        refine List.take_of_length_le ?_
        rw [List.length_append, List.length_singleton]
        omega
      rw [hall] at hb
      rw [if_pos hlist, hall', List.map_append, List.map_singleton, listing_snoc]
      by_cases hpos : 0 < s.count
      · have hne : s.matched.map t.fileMeta ≠ [] := by
          intro he
          rw [hc, List.map_eq_nil_iff.1 he] at hpos
          exact absurd hpos (by simp)
        have hput := appendFileResult_clip (clip_lit hb "," rfl) (t.fileMeta i)
        rw [if_pos hpos, if_neg hne]
        simp only [List.append_assoc] at hput ⊢
        exact hput
      · have hnil : s.matched.map t.fileMeta = [] := by
          rw [List.map_eq_nil_iff, ← List.length_eq_zero_iff]
          omega
        have hput := appendFileResult_clip hb (t.fileMeta i)
        rw [if_neg hpos, if_pos hnil, List.append_nil]
        rw [List.append_assoc] at hput
        exact hput
    -- past the limit a match is counted and not listed
    · have hsame : (s.matched ++ [i]).take agentFileResultMax =
          s.matched.take agentFileResultMax := by
        refine List.take_append_of_le_length ?_
        omega
      rw [if_neg hlist, hsame]
      exact hb

theorem written_init : Written t QueryState.init := by
  refine ⟨rfl, ?_⟩
  rw [show (QueryState.init.matched.take agentFileResultMax).map t.fileMeta = [] from rfl]
  rfl

theorem queryPosting_written (c : AgentFileQueryCond) (h : Written t s)
    (post : Fin agentFilePostingMax) : Written t (queryPosting t q c s post) := by
  have h' : Written t { s with indexScanned := s.indexScanned + 1 } := h
  unfold queryPosting
  dsimp only
  split
  · exact h'
  · split
    · split
      · exact queryEntry_written h' _
      · exact h'
    · exact h'

theorem queryScan_written : Written t (queryScan t q) := by
  unfold queryScan
  generalize List.finRange agentFileMetaMax = l
  have hall : ∀ s, Written t s → Written t (l.foldl (queryScanEntry t q) s) := by
    induction l with
    | nil => exact fun s hs => hs
    | cons i l ih =>
      intro s hs
      rw [List.foldl_cons]
      refine ih _ ?_
      unfold queryScanEntry
      split
      · exact queryEntry_written (s := { s with indexScanned := s.indexScanned + 1 }) hs i
      · exact hs
  exact hall _ written_init

/-- **What a query has written when its loop ends.** -/
theorem queryRun_written {r : QueryState × Bool} (h : queryRun t q = some r) : Written t r.1 := by
  unfold queryRun at h
  split at h
  · rename_i c _ _
    split at h
    · cases h
      exact queryScan_written
    · simp only [Option.map_eq_some_iff] at h
      obtain ⟨s, hs, rfl⟩ := h
      unfold queryIndexed at hs
      exact Chain.fold_inv (P := Written t)
        (fun s post hw => queryPosting_written c hw post) written_init hs
  · cases h
    exact queryScan_written

/-- **An answer begins with the report.** -/
theorem queryAnswer_report (h : Written t s) (usedIndex forceScan : Bool) (full ticksCost : ℕ)
    (hlen : (reportText ((s.matched.take agentFileResultMax).map t.fileMeta) s.count).length <
      agentToolResultMax) :
    reportText ((s.matched.take agentFileResultMax).map t.fileMeta) s.count <+:
      queryAnswer s usedIndex forceScan full ticksCost := by
  have hcut := clip_lit (clip_resultPutu (clip_lit (x := _) h.2 "],count=" rfl) s.count)
    ",used_index=" rfl
  generalize (s.matched.take agentFileResultMax).map t.fileMeta = listed at *
  have hstart : reportText listed s.count <+:
      resultPuts (resultPutu (resultPuts s.buf (lit "],count=")) s.count) (lit ",used_index=") := by
    rw [hcut]
    refine List.prefix_take_iff.2 ⟨⟨lit "used_index=", ?_⟩, Nat.le_sub_one_of_lt hlen⟩
    unfold reportText
    rw [show lit ",used_index=" = lit "," ++ lit "used_index=" from rfl]
    simp only [List.append_assoc]
  unfold queryAnswer
  dsimp only
  unfold resultPutu at *
  iterate 12 refine resultPuts_starts _ ?_ hlen
  exact hstart

/-! ### The report behind a copy -/

theorem flatMap_notMem {α : Type*} {l : List α} {f : α → List UInt8}
    (h : ∀ a ∈ l, (0 : UInt8) ∉ f a) : (0 : UInt8) ∉ l.flatMap f := by
  intro hmem
  obtain ⟨a, ha, h0⟩ := List.mem_flatMap.1 hmem
  exact h a ha h0

theorem entryText_notMem (m : AgentFileMeta) : (0 : UInt8) ∉ entryText m := by
  have hattrs : (0 : UInt8) ∉ m.attrs.flatMap fun a =>
      lit "," ++ cstr a.key ++ lit "=" ++ cstr a.value := by
    refine flatMap_notMem fun a _ => ?_
    simp only [List.mem_append, not_or]
    exact ⟨⟨⟨by decide, cstr_zero _⟩, by decide⟩, cstr_zero _⟩
  unfold entryText
  simp only [List.mem_append, not_or]
  exact ⟨⟨⟨⟨⟨by decide, cstr_zero _⟩, hattrs⟩, by decide⟩, cstr_zero _⟩, by decide⟩

theorem commaText_notMem {l : List (List UInt8)} (h : ∀ r ∈ l, (0 : UInt8) ∉ r) :
    (0 : UInt8) ∉ commaText l := by
  cases l with
  | nil => exact List.not_mem_nil
  | cons a l =>
    unfold commaText
    rw [List.mem_append, not_or]
    refine ⟨h a List.mem_cons_self, flatMap_notMem fun r hr => ?_⟩
    rw [List.mem_append, not_or]
    exact ⟨by decide, h r (List.mem_cons_of_mem a hr)⟩

theorem listing_notMem (listed : List AgentFileMeta) : (0 : UInt8) ∉ listing listed := by
  rw [listing_eq]
  refine commaText_notMem fun r hr => ?_
  obtain ⟨m, -, rfl⟩ := List.mem_map.1 hr
  exact entryText_notMem m

theorem reportText_notMem (listed : List AgentFileMeta) (count : ℕ) :
    (0 : UInt8) ∉ reportText listed count := by
  unfold reportText
  simp only [List.mem_append, not_or]
  exact ⟨⟨⟨⟨by decide, listing_notMem listed⟩, by decide⟩, decimal_zero count⟩, by decide⟩

/-- A report stays at the front of a copy of the answer. -/
theorem report_copy {listed : List AgentFileMeta} {count : ℕ}
    (h : reportText listed count <+: text)
    (hlen : (reportText listed count).length < agentToolResultMax) :
    reportText listed count <+: safestrcpy text agentToolResultMax := by
  refine safestrcpy_starts h (fun b hb hb0 => ?_) hlen
  rw [hb0] at hb
  exact reportText_notMem listed count hb

/-- `query_result_with_cache` leaves a report at the front: the bracket that it takes off is
behind it. -/
theorem report_cached {listed : List AgentFileMeta} {count : ℕ}
    (h : reportText listed count <+: text)
    (hlen : (reportText listed count).length < agentToolResultMax)
    (hit owner refcnt version scanned : ℕ) :
    reportText listed count <+: queryResultWithCache text hit owner refcnt version scanned := by
  have hcomma : reportText listed count =
      (lit "\x7bstatus=ok,files=[" ++ listing listed ++ lit "],count=" ++ decimal count) ++
        [44] := rfl
  have hz : ∀ b ∈ reportText listed count, b ≠ 0 := by
    intro b hb hb0
    rw [hb0] at hb
    exact reportText_notMem listed count hb
  obtain ⟨rest, rfl⟩ := h
  have hbase : cstr (reportText listed count ++ rest) = reportText listed count ++ cstr rest := by
    unfold cstr
    rw [List.takeWhile_append_of_pos (by simpa using hz)]
  have hdrop : reportText listed count <+:
      (if (reportText listed count ++ cstr rest).getLast? = some 125 then
        (reportText listed count ++ cstr rest).dropLast
      else reportText listed count ++ cstr rest) := by
    split
    · rename_i hlast
      by_cases hr : cstr rest = []
      · rw [hr, List.append_nil, hcomma, List.getLast?_concat] at hlast
        exact absurd hlast (by decide)
      · rw [List.dropLast_append_of_ne_nil hr]
        exact List.prefix_append ..
    · exact List.prefix_append ..
  unfold queryResultWithCache resultPutu
  dsimp only
  rw [hbase]
  iterate 11 refine resultPuts_starts _ ?_ hlen
  have hnz : cstr (if (reportText listed count ++ cstr rest).getLast? = some 125 then
        (reportText listed count ++ cstr rest).dropLast
      else reportText listed count ++ cstr rest) =
      (if (reportText listed count ++ cstr rest).getLast? = some 125 then
        (reportText listed count ++ cstr rest).dropLast
      else reportText listed count ++ cstr rest) := by
    have hzero : (0 : UInt8) ∉ reportText listed count ++ cstr rest := by
      rw [List.mem_append, not_or]
      exact ⟨reportText_notMem listed count, cstr_zero rest⟩
    refine cstr_of_notMem ?_
    split
    · exact fun hmem => hzero (List.dropLast_subset _ hmem)
    · exact hzero
  unfold resultPuts
  rw [hnz, List.nil_append]
  exact List.prefix_take_iff.2 ⟨hdrop, by omega⟩

end

end AgentOS
