import AgentOS.Proof.Attributes
import AgentOS.Proof.Coverage

/-!
# What `set_file_attr` stores, `query_file` finds

* `fileQueryParse_term`: the parameters `key=value`, as `file_query_parse` reads them.
* `reach_versions`: until the version wraps, no entry of the cache is newer than it; so a query
  that follows a change is evaluated.
* **`set_then_query`**: a query for the attribute that was set matches the file.
* `keyword_unmatched`: the key `keyword` is a word of the query language.
-/

namespace AgentOS

open Machine

/-! ### The parameters of the query -/

/-- `key=value`. -/
def attrParams (key value : List UInt8) : List UInt8 := key ++ charEquals :: value

section

variable {key value : List UInt8}

theorem attrParams_notMem (hkz : (0 : UInt8) ∉ key) (hvz : (0 : UInt8) ∉ value) :
    (0 : UInt8) ∉ attrParams key value := by
  unfold attrParams
  rw [List.mem_append, List.mem_cons, not_or, not_or]
  exact ⟨hkz, by decide, hvz⟩

/-- They fit the request. -/
theorem attrParams_copy (hk : key.length < inodeAttrKeyMax) (hkz : (0 : UInt8) ∉ key)
    (hv : value.length < inodeAttrValueMax) (hvz : (0 : UInt8) ∉ value) :
    safestrcpy (attrParams key value) agentToolParamMax = attrParams key value := by
  refine safestrcpy_of_short (attrParams_notMem hkz hvz) ?_
  unfold attrParams
  rw [List.length_append, List.length_cons]
  unfold inodeAttrKeyMax at hk
  unfold inodeAttrValueMax at hv
  unfold agentToolParamMax
  omega

/-- **The query parser takes the parameters apart where they were put together.** -/
theorem fileQueryParse_term (hk : key.length < inodeAttrKeyMax) (hkz : (0 : UInt8) ∉ key)
    (hks : charSemicolon ∉ key) (hke : charEquals ∉ key) (hv : value.length < inodeAttrValueMax)
    (hvz : (0 : UInt8) ∉ value) (hvs : charSemicolon ∉ value) :
    fileQueryParse (attrParams key value) = fileQueryTerm ⟨[], [], false⟩ key value := by
  unfold fileQueryParse
  rw [cstr_of_notMem (attrParams_notMem hkz hvz)]
  have hfuel : (attrParams key value).length + 1 = (key.length + value.length) + 1 + 1 := by
    unfold attrParams
    rw [List.length_append, List.length_cons]
    omega
  dsimp only
  rw [hfuel, fileQueryParseLoop]
  unfold attrParams
  have hstart : (key ++ charEquals :: value).dropWhile (· == charSemicolon) =
      key ++ charEquals :: value := by
    cases key with
    | nil => exact List.dropWhile_cons_of_neg (by decide)
    | cons b key =>
      refine List.dropWhile_cons_of_neg ?_
      have hb : b ≠ charSemicolon := fun he => hks (he ▸ List.mem_cons_self)
      simpa using hb
  have hkey : ((key ++ charEquals :: value).takeWhile fun b =>
      b != charEquals && b != charSemicolon).take (inodeAttrKeyMax - 1) = key := by
    rw [List.takeWhile_append_of_pos, List.takeWhile_cons_of_neg (by decide), List.append_nil,
      List.take_of_length_le (by omega)]
    intro b hb
    have h₁ : b ≠ charEquals := fun he => hke (he ▸ hb)
    have h₂ : b ≠ charSemicolon := fun he => hks (he ▸ hb)
    simp [h₁, h₂]
  have hvalue : (value.takeWhile (· != charSemicolon)).take (inodeAttrValueMax - 1) = value := by
    rw [List.takeWhile_eq_self_iff.2, List.take_of_length_le (by omega)]
    intro b hb
    have h₁ : b ≠ charSemicolon := fun he => hvs (he ▸ hb)
    simpa using h₁
  dsimp only
  rw [hstart, if_neg (by simp), hkey, List.drop_left]
  dsimp only
  rw [if_neg (by simp), hvalue, List.drop_length]
  cases fileQueryTerm ⟨[], [], false⟩ key value with
  | none => rfl
  | some q => rfl

/-- A word of the query language, as a key without NUL. -/
theorem streq_lit {word : String} (hkz : (0 : UInt8) ∉ key) (hw : cstr (lit word) = lit word) :
    streq key (lit word) = true ↔ key = lit word := by
  unfold streq
  rw [beq_iff_eq, cstr_of_notMem hkz, hw]

/-- **A file with the attribute satisfies the query.** -/
theorem fileQueryTerm_matches (hk : key.length < inodeAttrKeyMax) (hkz : (0 : UInt8) ∉ key)
    (hv : value.length < inodeAttrValueMax) (hvz : (0 : UInt8) ∉ value)
    (hword : key ≠ lit "keyword") : ∃ q, fileQueryTerm ⟨[], [], false⟩ key value = some q ∧
      ∀ m : AgentFileMeta, (attrMap m.attrs).lookup key = some value →
        fileMetaMatches m q.conds q.keyword = true := by
  have hno : ¬ streq key (lit "keyword") = true := by
    rw [streq_lit hkz (by decide)]
    exact hword
  -- the other words give no condition
  have hfree : ∀ b : Bool, ∀ m : AgentFileMeta,
      fileMetaMatches m (FileQuery.mk [] [] b).conds (FileQuery.mk [] [] b).keyword = true :=
    fun _ _ => rfl
  unfold fileQueryTerm
  rw [if_neg hno]
  split
  · exact ⟨_, rfl, fun m _ => hfree false m⟩
  · split
    · split
      · exact ⟨_, rfl, fun m _ => hfree true m⟩
      · exact ⟨_, rfl, fun m _ => hfree false m⟩
    · split
      · exact ⟨_, rfl, fun m _ => hfree false m⟩
      · rw [if_pos (by decide), safestrcpy_of_short hkz hk, safestrcpy_of_short hvz hv]
        refine ⟨_, rfl, fun m hm => ?_⟩
        rw [← attrMap_find (cstr_of_notMem hkz), Option.map_eq_some_iff] at hm
        obtain ⟨a, ha, hav⟩ := hm
        have hak : streq a.key key = true := by simpa using List.find?_some ha
        have hval : streq a.value value = true := by
          unfold streq
          rw [beq_iff_eq, hav, cstr_of_notMem hvz]
        have hany : fileAttrMatch m.attrs key value = true := by
          unfold fileAttrMatch
          rw [List.any_eq_true]
          refine ⟨a, List.mem_of_find?_eq_some ha, ?_⟩
          rw [hak, hval]
          rfl
        unfold fileMetaMatches
        simp only [List.nil_append, List.all_cons, List.all_nil, hany, Bool.and_true,
          Bool.true_and]
        rfl

end

/-! ### The version of the cache -/

section

variable {s t : FileSystem} {a : FsCall} {p : Proc} {params : List UInt8} {c : QueryCaches}

/-- A step leaves the entries, or stores some of the version that is. -/
def EntriesFrom (c c' : QueryCaches) : Prop :=
  ∀ k, (c'.entries k).used = true → (c'.entries k).version = c.version ∨
    (c.entries k).used = true ∧ (c'.entries k).version = (c.entries k).version

theorem EntriesFrom.refl (c : QueryCaches) : EntriesFrom c c := fun _ hk => Or.inr ⟨hk, rfl⟩

theorem MetaStep.caches (h : MetaStep s t) :
    t.caches = s.caches ∨ t.caches = agentFileVersionBump s.caches := by
  cases h with
  | refused status result => exact Or.inl rfl
  | written inum data status result => exact Or.inl rfl
  | changed c inum ip result _ => exact Or.inr rfl

theorem ensure_caches (s : FileSystem) : s.ensure.caches = s.caches := by
  unfold FileSystem.ensure
  split
  · rfl
  · exact build_caches s

/-- **What a call does to the cache.** -/
theorem step_caches (ht : fsMachine.next s a = some t) :
    (t.caches.version = s.caches.version ∨ t.caches.version = (s.caches.version + 1) % 2 ^ 64) ∧
      EntriesFrom s.caches t.caches := by
  have hsame : ∀ x : FileSystem, x.caches = s.caches →
      (x.caches.version = s.caches.version ∨ x.caches.version = (s.caches.version + 1) % 2 ^ 64) ∧
        EntriesFrom s.caches x.caches := by
    intro x hx
    rw [hx]
    exact ⟨Or.inl rfl, .refl _⟩
  cases fs_step ht with
  | tree a x hx => exact hsame _ rfl
  | metadata a t hv hm =>
    rcases hm.caches with he | he
    · exact hsame _ he
    · rw [he]
      exact ⟨Or.inr rfl, fun k hk => Or.inr ⟨hk, rfl⟩⟩
  | query p params ticksCost pages page t hrun =>
    rcases queryFile_cases hrun with rfl | ⟨-, -, ⟨res, -, rfl⟩ | ⟨-, rfl⟩ |
      ⟨-, q, r, -, -, buf, -, rfl⟩⟩
    · exact hsame _ rfl
    · obtain ⟨hv, he⟩ := lookup_entries s.caches p (safestrcpy params agentToolParamMax)
      refine ⟨Or.inl hv, fun k hk => ?_⟩
      obtain ⟨n, hn⟩ := he k
      change ((sharedQueryCacheLookup s.caches p
        (safestrcpy params agentToolParamMax)).1.entries k).used = true at hk
      change ((sharedQueryCacheLookup s.caches p
        (safestrcpy params agentToolParamMax)).1.entries k).version = _ ∨ _ ∧
          ((sharedQueryCacheLookup s.caches p
            (safestrcpy params agentToolParamMax)).1.entries k).version = _
      rw [hn] at hk ⊢
      exact Or.inr ⟨hk, rfl⟩
    · exact hsame _ (ensure_caches s)
    · obtain ⟨e, -, -, hev, hversion, he⟩ :=
        store_entries s.ensure.caches p (safestrcpy params agentToolParamMax) buf
      rw [ensure_caches] at hev hversion he
      change ((sharedQueryCacheStore s.ensure.caches p _ buf).version = _ ∨
        (sharedQueryCacheStore s.ensure.caches p _ buf).version = _) ∧
          EntriesFrom _ (sharedQueryCacheStore s.ensure.caches p _ buf)
      rw [ensure_caches]
      refine ⟨Or.inl hversion, fun k hk => ?_⟩
      rcases he k with hk' | hk'
      · rw [hk']
        exact Or.inl hev
      · rw [hk'] at hk ⊢
        exact Or.inr ⟨hk, rfl⟩

/-- **Until the version wraps, no entry is newer than it.** -/
theorem reach_versions {tr : List FsCall} (h : fsMachine.Reach always tr s)
    (hlen : tr.length + 1 < 2 ^ 64) : s.caches.version ≤ tr.length + 1 ∧
      ∀ k, (s.caches.entries k).used = true → (s.caches.entries k).version ≤ s.caches.version := by
  obtain ⟨s₀, h₀, hpath⟩ := h
  revert hlen
  refine hpath.inv_tr (P := fun tr s => tr.length + 1 < 2 ^ 64 →
    s.caches.version ≤ tr.length + 1 ∧
      ∀ k, (s.caches.entries k).used = true → (s.caches.entries k).version ≤ s.caches.version)
    ?_ fun _ => ?_
  · intro tr s a t ih _ ht hlen
    rw [List.length_append, List.length_singleton] at hlen ⊢
    obtain ⟨hv, hold⟩ := ih (by omega)
    obtain ⟨hversion, hentries⟩ := step_caches ht
    have hmod : (s.caches.version + 1) % 2 ^ 64 = s.caches.version + 1 :=
      Nat.mod_eq_of_lt (by omega)
    rw [hmod] at hversion
    refine ⟨by omega, fun k hk => ?_⟩
    rcases hentries k hk with he | ⟨hu, he⟩
    · omega
    · have hle := hold k hu
      omega
  · rw [h₀.2.1]
    exact ⟨Nat.le_refl _, fun k hk => by cases hk⟩

/-- A new version leaves no entry that a lookup could hit. -/
theorem lookup_bumped (hv : c.version + 1 < 2 ^ 64)
    (hold : ∀ k, (c.entries k).used = true → (c.entries k).version ≤ c.version) :
    sharedQueryCacheLookup (agentFileVersionBump c) p params = (agentFileVersionBump c, none) := by
  have hmiss : sharedQueryCacheFind (agentFileVersionBump c) p params = none := by
    unfold sharedQueryCacheFind
    rw [Table.first_none]
    intro k
    unfold agentFileVersionBump
    dsimp only
    rw [Nat.mod_eq_of_lt hv]
    cases hu : (c.entries k).used with
    | false => rfl
    | true =>
      have hle := hold k hu
      have hne : ((c.entries k).version == c.version + 1) = false := by
        rw [beq_eq_false_iff_ne]
        omega
      rw [hne]
      rfl
  unfold sharedQueryCacheLookup
  rw [hmiss]

end

/-! ### A set and a query -/

section

variable {s t : FileSystem} {x y : FileTree} {i : ℕ} {names : List FileName} {cwd : ℕ}
  {params : List UInt8}

theorem RegularAt.congr (h : RegularAt x i names) (hshape : SameShape y x) : RegularAt y i names :=
  ⟨h.below.congr hshape, (hshape i).1.trans h.type⟩

theorem SameShape.symm (h : SameShape x y) : SameShape y x := fun j => ⟨(h j).1.symm, (h j).2.symm⟩

theorem FilesFit.congr (h : FilesFit x) (hshape : SameShape y x) : FilesFit y := by
  obtain ⟨l, hl, hmem⟩ := h
  exact ⟨l, hl, fun i names hr => hmem i names (hr.congr hshape.symm)⟩

/-- A file with a path that the walk admits is visited. -/
theorem lastPath_of_joins (h : RegularAt x i names) (hj : Joins names) :
    ∃ last, lastPath x i = some last := by
  have hmem : (i, names) ∈ (filesBelow x (agentFilePathMax + 1) rootino).filter fun f =>
      f.1 = i ∧ Joins f.2 := by
    rw [List.mem_filter]
    exact ⟨mem_filesBelow.2 ⟨h.type, h.below, hj.length_lt⟩, decide_eq_true ⟨rfl, hj⟩⟩
  obtain ⟨last, hlast⟩ := Option.isSome_iff_exists.1
    (List.getLast?_isSome.2 (List.ne_nil_of_mem hmem))
  unfold lastPath
  rw [hlast]
  exact ⟨last.2, rfl⟩

theorem respond_resp (s : FileSystem) (status : ℤ) (result : List UInt8) :
    (s.respond status result).resp = (status, safestrcpy result agentToolResultMax) := rfl

theorem contentChanged_index (s : FileSystem) (status : ℤ) (result : List UInt8) :
    (s.contentChanged.respond status result).index = s.tree.complete := by
  unfold FileSystem.respond FileSystem.contentChanged
  dsimp only
  exact build_index s

theorem contentChanged_caches (s : FileSystem) (status : ℤ) (result : List UInt8) :
    (s.contentChanged.respond status result).caches = agentFileVersionBump s.caches := by
  unfold FileSystem.respond FileSystem.contentChanged
  rfl

/-- **When `set_file_attr` answers OK.** -/
theorem setFileAttr_ok (h : (s.setFileAttr cwd params).resp.1 = agentToolOk) :
    ∃ path key value i ip, paramValue params (lit "path") agentFilePathMax = some path ∧
      paramValue params (lit "key") inodeAttrKeyMax = some key ∧
      paramValue params (lit "value") inodeAttrValueMax = some value ∧
      namei s.tree cwd path = some i ∧ (s.tree i).type = .file ∧
      (MetaChange.setAttr key value).apply (s.tree i).file = some ip ∧
      s.setFileAttr cwd params =
        { s with tree := s.tree.setFile i ip }.contentChanged.respond agentToolOk
          (lit "attr set") := by
  have hbad : ∀ status result, status ≠ agentToolOk →
      (s.respond status result).resp.1 ≠ agentToolOk := fun _ _ hne => hne
  unfold FileSystem.setFileAttr at h ⊢
  split at h
  · rename_i path key value hpath hkey hvalue
    split at h
    · exact absurd h (hbad _ _ (by decide))
    · rename_i i hi
      by_cases htype : (s.tree i).type ≠ .file
      · rw [if_pos htype] at h
        exact absurd h (hbad _ _ (by decide))
      · rw [if_neg htype] at h
        split at h
        · exact absurd h (hbad _ _ (by decide))
        · rename_i ip hip
          refine ⟨path, key, value, i, ip, hpath, hkey, hvalue, hi, not_not.1 htype, hip, ?_⟩
          rw [if_neg htype]
  · exact absurd h (hbad _ _ (by decide))

/-- **What a set that answers OK leaves**: the attribute in the inode, the complete index of the
new tree, and a new version of the cache. -/
theorem setFileAttr_stores (hattrs : s.tree.AttrsOk)
    (hok : (s.setFileAttr cwd params).resp.1 = agentToolOk) {key value : List UInt8}
    (hkey : paramText params (lit "key") = some key) (hk : key.length < inodeAttrKeyMax)
    (hvalue : paramText params (lit "value") = some value) (hv : value.length < inodeAttrValueMax) :
    ∃ path i, paramValue params (lit "path") agentFilePathMax = some path ∧
      namei s.tree cwd path = some i ∧ (s.tree i).type = .file ∧
      (s.setFileAttr cwd params).index = (s.setFileAttr cwd params).tree.complete ∧
      (s.setFileAttr cwd params).caches = agentFileVersionBump s.caches ∧
      (attrMap ((s.setFileAttr cwd params).tree i).file.attrs).lookup key = some value := by
  obtain ⟨path, key', value', i, ip, hpath, hkey', hvalue', hi, htype, hip, he⟩ :=
    setFileAttr_ok hok
  -- nothing has been cut
  rw [paramValue_eq, hkey, Option.map_some, List.take_of_length_le (by omega)] at hkey'
  rw [paramValue_eq, hvalue, Option.map_some, List.take_of_length_le (by omega)] at hvalue'
  obtain rfl := Option.some.inj hkey'
  obtain rfl := Option.some.inj hvalue'
  have htree : (s.setFileAttr cwd params).tree = s.tree.setFile i ip := by
    rw [he]
    exact contentChanged_tree { s with tree := _ } _ _
  have hfile : ((s.setFileAttr cwd params).tree i).file = ip := by
    rw [htree]
    unfold FileTree.setFile
    rw [Function.update_self]
  have hmap := setAttr_map (hattrs i) (paramText_mem hkey).1 hk (paramText_mem hvalue).1 hv
  rw [hip] at hmap
  refine ⟨path, i, hpath, hi, htype, ?_, ?_, ?_⟩
  · rw [htree, he]
    exact contentChanged_index { s with tree := _ } _ _
  · rw [he]
    exact contentChanged_caches { s with tree := _ } _ _
  · rw [hfile, hmap.2, Finmap.lookup_insert]

/-- **The entry of a visited file** has its attributes. -/
theorem complete_file (hfit : FilesFit x) (hr : RegularAt x i names) (hj : Joins names) :
    ∃ k, (x.complete.fileMeta k).used = true ∧ (x.complete.fileMeta k).inum = i ∧
      (x.complete.fileMeta k).attrs = (x i).file.attrs := by
  obtain ⟨last, hlast⟩ := lastPath_of_joins hr hj
  obtain ⟨k, hused, hinum⟩ := complete_visited hfit hlast
  obtain ⟨f, -, hfill⟩ := complete_filled k hused
  have hf : f.1 = i := by
    rw [← hinum, hfill]
    rfl
  refine ⟨k, hused, hinum, ?_⟩
  rw [hfill, hf]
  rfl

/-- **A query that follows a change is evaluated** on the complete index. -/
theorem query_changed {c : QueryCaches} (hv : c.version + 1 < 2 ^ 64)
    (hold : ∀ k, (c.entries k).used = true → (c.entries k).version ≤ c.version)
    (htree : t.tree.AttrsOk) (hindex : t.index = t.tree.complete)
    (hcaches : t.caches = agentFileVersionBump c) {q : FileQuery}
    (hq : fileQueryParse params = some q) (p : Proc) (ticksCost : ℕ) :
    ∃ u r, t.queryFile p params ticksCost true true = some u ∧ u.resp.1 = agentToolOk ∧
      queryRun t.index q = some r ∧ (∀ k, k ∈ r.1.matched ↔ MatchesQuery t.index q k) ∧
      u.resp.2 = safestrcpy (queryResultWithCache
        (queryAnswer r.1 r.2 q.forceScan (fullScanned t.index) ticksCost) 0 p.pid 1
        t.caches.version (fullScanned t.index)) agentToolResultMax := by
  have hkeys : KeysDistinct t.tree.complete := fun k hu => (complete_attrs htree k hu).2
  obtain ⟨r, hr, -, hmem⟩ := queryRun_spec (complete_indexed htree) hkeys q
  rw [← hindex] at hr hmem
  have hmiss : sharedQueryCacheLookup t.caches p params = (t.caches, none) := by
    rw [hcaches]
    exact lookup_bumped hv hold
  have hready : t.index.ready = true := by
    rw [hindex]
    exact complete_ready
  generalize hbuf : queryAnswer r.1 r.2 q.forceScan (fullScanned t.index) ticksCost = buf
  have hrun : t.queryFile p params ticksCost true true =
      some ({ t with caches := sharedQueryCacheStore t.caches p params buf }.respond agentToolOk
        (queryResultWithCache buf 0 p.pid 1 t.caches.version (fullScanned t.index))) := by
    unfold FileSystem.queryFile
    dsimp only
    rw [if_neg (by simp), if_neg (by simp), hmiss]
    dsimp only
    rw [if_pos hready, hq]
    dsimp only
    have hversion : (sharedQueryCacheStore t.caches p params buf).version = t.caches.version := rfl
    rw [hr, Option.map_some, hbuf, hversion]
  refine ⟨_, r, hrun, ?_, hr, hmem, ?_⟩
  · rw [respond_resp]
  · rw [respond_resp, hbuf]

end

/-- **What `set_file_attr` stores, `query_file` finds**, where `kalloc` finds its pages. -/
theorem set_then_query {s t : FileSystem} {tr : List FsCall} {cwd : ℕ}
    {params key value : List UInt8}
    (h : fsMachine.Reach always tr s) (hlen : tr.length + 2 < 2 ^ 64)
    (ht : fsMachine.next s (.setFileAttr cwd params) = some t) (hok : t.resp.1 = agentToolOk)
    (hkey : paramText (safestrcpy params agentToolParamMax) (lit "key") = some key)
    (hvalue : paramText (safestrcpy params agentToolParamMax) (lit "value") = some value)
    (hk : key.length < inodeAttrKeyMax) (hv : value.length < inodeAttrValueMax)
    (hke : charEquals ∉ key) (hword : key ≠ lit "keyword") :
    ∃ path i, paramValue (safestrcpy params agentToolParamMax) (lit "path") agentFilePathMax =
        some path ∧ namei s.tree cwd path = some i ∧ (s.tree i).type = .file ∧
      ∀ names, FilesFit s.tree → RegularAt s.tree i names → Joins names → ∀ p ticksCost, ∃ u q r,
        fsMachine.next t (.queryFile p (attrParams key value) ticksCost true true) = some u ∧
        u.resp.1 = agentToolOk ∧ fileQueryParse (attrParams key value) = some q ∧
        queryRun t.index q = some r ∧
        u.resp.2 = safestrcpy (queryResultWithCache
          (queryAnswer r.1 r.2 q.forceScan (fullScanned t.index) ticksCost) 0 p.pid 1
          t.caches.version (fullScanned t.index)) agentToolResultMax ∧
        ∃ k ∈ r.1.matched, (t.index.fileMeta k).inum = i := by
  obtain ⟨hkz, hks⟩ := paramText_mem hkey
  obtain ⟨hvz, hvs⟩ := paramText_mem hvalue
  have hattrs := (reach_answersHeld h).attrs
  obtain ⟨hversion, hold⟩ := reach_versions h (by omega)
  obtain rfl := Option.some.inj ht
  obtain ⟨path, i, hpath, hi, htype, hindex, hcaches, hlookup⟩ :=
    setFileAttr_stores hattrs hok hkey hk hvalue hv
  refine ⟨path, i, hpath, hi, htype, fun names hfit hr hj p ticksCost => ?_⟩
  have hmeta := setFileAttr_meta s cwd (safestrcpy params agentToolParamMax)
  set t := s.setFileAttr cwd (safestrcpy params agentToolParamMax)
  have hshape := hmeta.shape
  -- the query looks for the attribute
  obtain ⟨q, hterm, hmatch⟩ := fileQueryTerm_matches hk hkz hv hvz hword
  have hq : fileQueryParse (attrParams key value) = some q := by
    rw [fileQueryParse_term hk hkz hks hke hv hvz hvs, hterm]
  obtain ⟨u, r, hu, hstatus, hrun, hmem, htext⟩ :=
    query_changed (by omega) hold (hmeta.attrsOk hattrs) hindex hcaches hq p ticksCost
  -- and the entry of the file has it
  obtain ⟨k, hused, hinum, hentry⟩ := complete_file (hfit.congr hshape) (hr.congr hshape) hj
  rw [← hindex] at hused hinum hentry
  have hmatched : k ∈ r.1.matched := by
    refine (hmem k).2 ⟨hused, hmatch _ ?_⟩
    rw [hentry]
    exact hlookup
  refine ⟨u, q, r, ?_, hstatus, hq, hrun, htext, k, hmatched, hinum⟩
  change t.queryFile p (safestrcpy (attrParams key value) agentToolParamMax) ticksCost true true =
    some u
  rw [attrParams_copy hk hkz hv hvz]
  exact hu

/-- `set_file_attr` by a process in the root. -/
def setA (params : String) : FsCall := .setFileAttr rootino (lit params)

theorem fsA_tree : fsA.tree = treeA := by
  unfold fsA treeA
  rfl

theorem treeA_joins : ∃ names, RegularAt treeA 2 names ∧ Joins names := by
  have hbelow : ((filesBelow treeA 2 rootino).find?
      fun x => x.1 == 2 && decide (Joins x.2)).isSome = true := by decide
  obtain ⟨x, hx⟩ := Option.isSome_iff_exists.1 hbelow
  obtain ⟨htype, hb, -⟩ := mem_filesBelow.1 (List.mem_of_find?_eq_some hx)
  have hi := List.find?_some hx
  simp only [Bool.and_eq_true, beq_iff_eq, decide_eq_true_iff] at hi
  rw [hi.1] at htype hb
  exact ⟨x.2, ⟨hb, htype⟩, hi.2⟩

/-- The owner of `/a` is set, and the query for that owner matches it. -/
theorem set_then_query_owner : ∃ t u q r,
    fsMachine.next fsA (setA "path=/a;key=owner;value=alice") = some t ∧
    fsMachine.next t (.queryFile Proc.boot (attrParams (lit "owner") (lit "alice")) 0 true true) =
      some u ∧
    u.resp.1 = agentToolOk ∧ fileQueryParse (attrParams (lit "owner") (lit "alice")) = some q ∧
    queryRun t.index q = some r ∧ ∃ k ∈ r.1.matched, (t.index.fileMeta k).inum = 2 := by
  have ht : fsMachine.next fsA (setA "path=/a;key=owner;value=alice") =
      some (fsNext fsA (setA "path=/a;key=owner;value=alice")) := next_getD (by decide +kernel)
  have hparams :
      paramText (safestrcpy (lit "path=/a;key=owner;value=alice") agentToolParamMax) (lit "key") =
        some (lit "owner") ∧
      paramText (safestrcpy (lit "path=/a;key=owner;value=alice") agentToolParamMax) (lit "value") =
        some (lit "alice") := by decide +kernel
  obtain ⟨hkey, hvalue⟩ := hparams
  obtain ⟨path, i, hpath, hi, -, hquery⟩ := set_then_query fsA_reach (by decide) ht
    (by decide +kernel) hkey hvalue (by decide) (by decide) (by decide +kernel) (by decide +kernel)
  have htwo : (paramValue (safestrcpy (lit "path=/a;key=owner;value=alice") agentToolParamMax)
      (lit "path") agentFilePathMax).bind (namei fsA.tree rootino) = some 2 := by decide +kernel
  have hpath' : paramValue (safestrcpy (lit "path=/a;key=owner;value=alice") agentToolParamMax)
      (lit "path") agentFilePathMax = some path := hpath
  rw [hpath', Option.bind_some] at htwo
  obtain rfl := Option.some.inj (hi.symm.trans htwo)
  obtain ⟨names, hr, hj⟩ := treeA_joins
  rw [← fsA_tree] at hr
  have hfit : FilesFit fsA.tree := by
    rw [fsA_tree]
    exact treeA_fits.files
  obtain ⟨u, q, r, hu, hstatus, hq, hrun, -, hk⟩ := hquery names hfit hr hj Proc.boot 0
  exact ⟨_, u, q, r, ht, hu, hstatus, hq, hrun, hk⟩

/-- `set_file_attr` on `/a` answers OK, and the query for the pair answers OK and matches nothing. -/
def Unmatched (params key value : String) : Prop :=
  ∃ t u q r, fsMachine.next fsA (setA params) = some t ∧ t.resp.1 = agentToolOk ∧
    fsMachine.next t (.queryFile Proc.boot (attrParams (lit key) (lit value)) 0 true true) =
      some u ∧
    u.resp.1 = agentToolOk ∧ fileQueryParse (attrParams (lit key) (lit value)) = some q ∧
    queryRun t.index q = some r ∧ r.1.matched = []

/-- `Unmatched` from one evaluation of each part. -/
theorem unmatched_of {params key value : String} {t : FileSystem} (q : FileQuery)
    (ht : fsMachine.next fsA (setA params) = some t) (hok : t.resp.1 = agentToolOk)
    (hq : fileQueryParse (attrParams (lit key) (lit value)) = some q)
    (hrun : (queryRun t.index q).map (fun r => r.1.matched) = some [])
    (hu : ((fsMachine.next t (.queryFile Proc.boot (attrParams (lit key) (lit value)) 0 true
      true)).map fun u => u.resp.1) = some agentToolOk) : Unmatched params key value := by
  obtain ⟨r, hr, hnil⟩ := Option.map_eq_some_iff.1 hrun
  obtain ⟨u, hu, hstatus⟩ := Option.map_eq_some_iff.1 hu
  exact ⟨t, u, q, r, ht, hok, hu, hstatus, hq, hr, hnil⟩

/-- **The key `keyword`** is a word of the query, and **`=`** ends a key there; and a query that
finds no page does not answer OK. -/
theorem keyword_unmatched : fsMachine.Reach always [createA] fsA ∧
    Unmatched "path=/a;key=keyword;value=x" "keyword" "x" ∧
    Unmatched "path=/a;key=a=b;value=x" "a=b" "x" ∧
    ∀ t params page, fsMachine.next t (.queryFile Proc.boot params 0 false page) =
      some (t.respond agentToolErrNoSpace (lit "no memory")) := by
  have hkeyword : fsMachine.next fsA (setA "path=/a;key=keyword;value=x") =
      some (fsNext fsA (setA "path=/a;key=keyword;value=x")) := next_getD (by decide +kernel)
  have hequals : fsMachine.next fsA (setA "path=/a;key=a=b;value=x") =
      some (fsNext fsA (setA "path=/a;key=a=b;value=x")) := next_getD (by decide +kernel)
  refine ⟨fsA_reach, ?_, ?_, fun _ _ _ => rfl⟩
  · exact unmatched_of ⟨[], lit "x", false⟩ hkeyword (by decide +kernel) (by decide +kernel)
      (by decide +kernel) (by decide +kernel)
  · exact unmatched_of ⟨[⟨lit "a", lit "b=x"⟩], [], false⟩ hequals (by decide +kernel)
      (by decide +kernel) (by decide +kernel) (by decide +kernel)

end AgentOS
