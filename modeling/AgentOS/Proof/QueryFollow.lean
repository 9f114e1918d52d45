import AgentOS.Proof.FileSystem

/-!
# Queries follow the file system between index builds

* `FsInv`: the index is the complete one of the tree at the last build, and entries of the
  current version are answers from it.
* `FsStep`: what a call can do, for every invariant of the file system.
* `SinceBuild`: at a query, no file that satisfies it has come, and none of their paths has gone,
  since the last index build.
* `query_follows`: then every answer reports on the tree as it is; `created_unseen` is what
  happens without it.
-/

namespace AgentOS

open Machine

/-- The tree that a query sees: `file_index_ensure` builds the index if there is none. -/
def FileSystem.seen (s : FileSystem) : FileTree := if s.index.ready then s.built else s.tree

/-- **The regular files fit the table and the paths their fields; at a query, the files that
satisfy it are those of the last index build, at all their paths, and leave room for the count;
and the version does not wrap.** -/
def SinceBuild (s : FileSystem) (a : FsCall) : Prop :=
  TreeFits s.tree ∧
    match a with
    | .queryFile _ params _ pages page => pages = true → page = true →
      ∀ q, fileQueryParse (safestrcpy params agentToolParamMax) = some q →
        SameFiles q s.seen s.tree ∧ RoomFor q s.seen
    | .setFileAttr _ _ | .delFileAttr _ _ | .patchFile _ _ _ _ _ _ =>
      s.caches.version + 1 < 2 ^ 64
    | _ => True

/-- **The invariant of the index and the cache.** -/
structure FsInv (s : FileSystem) : Prop where
  attrs : s.tree.AttrsOk
  index : s.index.ready = true → s.index = s.built.complete ∧ TreeFits s.built ∧ s.built.AttrsOk
  caches : CachesCurrent s.built.complete s.caches
  cached : ∀ k, (s.caches.entries k).used = true → s.index.ready = true

section

variable {s t : FileSystem} {a : FsCall} {params : List UInt8} {p : Proc} {ticksCost : ℕ}
  {pages page : Bool}

theorem FsInv.setTree (h : FsInv s) {x : FileTree} (hx : x.AttrsOk) :
    FsInv { s with tree := x } := ⟨hx, h.index, h.caches, h.cached⟩

theorem FsInv.setFile (h : FsInv s) {inum : ℕ} {ip : FileInode} (hip : ip.AttrsOk) :
    FsInv { s with tree := s.tree.setFile inum ip } :=
  h.setTree (h.attrs.update hip inum)

/-- New content does not change the attributes. -/
theorem FileInode.AttrsOk.of_attrs {ip ip' : FileInode} (h : ip.AttrsOk)
    (he : ip'.attrs = ip.attrs) : ip'.AttrsOk := by
  unfold FileInode.AttrsOk
  rw [he]
  exact h

theorem FsInv.respond (h : FsInv s) (status : ℤ) (result : List UInt8) :
    FsInv (s.respond status result) := ⟨h.attrs, h.index, h.caches, h.cached⟩

/-- A build leaves the complete index of the tree. -/
theorem build_index (s : FileSystem) : s.build.index = s.tree.complete :=
  fileIndexBuild_eq s.index s.tree

theorem build_ready (s : FileSystem) : s.build.index.ready = true := by
  rw [build_index]
  exact complete_ready

theorem build_built (s : FileSystem) : s.build.built = s.tree := rfl

theorem build_tree (s : FileSystem) : s.build.tree = s.tree := by
  unfold FileSystem.build
  rfl

theorem build_caches (s : FileSystem) : s.build.caches = s.caches := by
  unfold FileSystem.build
  rfl

/-- The parts of the invariant, with a cache of its own. -/
theorem FsInv.withCaches {b : FileSystem} {c : QueryCaches} (hattrs : b.tree.AttrsOk)
    (hindex : b.index.ready = true →
      b.index = b.built.complete ∧ TreeFits b.built ∧ b.built.AttrsOk)
    (hc : CachesCurrent b.built.complete c)
    (hr : ∀ k, (c.entries k).used = true → b.index.ready = true) :
    FsInv { b with caches := c } := ⟨hattrs, hindex, hc, hr⟩

/-- **A build leaves the invariant, with any cache that is current for the tree.** -/
theorem FsInv.build {c : QueryCaches} (hfits : TreeFits s.tree) (hattrs : s.tree.AttrsOk)
    (hc : CachesCurrent s.tree.complete c) : FsInv { s.build with caches := c } := by
  refine FsInv.withCaches ?_ (fun _ => ?_) ?_ fun _ _ => build_ready s
  · rw [build_tree]
    exact hattrs
  · rw [build_index, build_built]
    exact ⟨rfl, hfits, hattrs⟩
  · rw [build_built]
    exact hc

/-- **`agentfs_content_changed` brings the index and the cache up to date.** -/
theorem FsInv.contentChanged (h : FsInv s) (hfits : TreeFits s.tree)
    (hv : s.caches.version + 1 < 2 ^ 64) : FsInv s.contentChanged :=
  FsInv.build hfits h.attrs (h.caches.bump hv)

/-- What a tool does when it has changed the metadata of a file. -/
theorem FsInv.changed (h : FsInv s) (hfits : TreeFits s.tree)
    (hv : s.caches.version + 1 < 2 ^ 64) {inum : ℕ} {ip : FileInode} (hip : ip.AttrsOk) :
    FsInv { s with tree := s.tree.setFile inum ip }.contentChanged := by
  exact (h.setFile hip).contentChanged (hfits.setFile inum ip) hv

/-- **What a tool that changes metadata does**: it answers and leaves the rest alone, it writes the
content and fails, or it changes the metadata of a file. -/
inductive MetaStep (s : FileSystem) : FileSystem → Prop
  | refused (status : ℤ) (result : List UInt8) : MetaStep s (s.respond status result)
  | written (inum : ℕ) (data : List UInt8) (status : ℤ) (result : List UInt8) :
      MetaStep s ({ s with
        tree := s.tree.setFile inum { (s.tree inum).file with data := data } }.respond status result)
  | changed (c : MetaChange) (inum : ℕ) (ip : FileInode) (result : List UInt8)
      (h : c.apply (s.tree inum).file = some ip) :
      MetaStep s ({ s with tree := s.tree.setFile inum ip }.contentChanged.respond agentToolOk
        result)

theorem FsInv.metaStep (h : FsInv s) (hfits : TreeFits s.tree) (hv : s.caches.version + 1 < 2 ^ 64)
    (ht : MetaStep s t) : FsInv t := by
  cases ht with
  | refused status result => exact h.respond _ _
  | written inum data status result =>
    refine (h.setFile ?_).respond _ _
    exact (h.attrs inum).of_attrs rfl
  | changed c inum ip result hip =>
    exact (h.changed hfits hv (MetaChange.apply_attrsOk hip (h.attrs inum))).respond _ _

theorem setFileAttr_meta (s : FileSystem) (cwd : ℕ) (params : List UInt8) :
    MetaStep s (s.setFileAttr cwd params) := by
  unfold FileSystem.setFileAttr
  split
  · split
    · exact .refused _ _
    · split
      · exact .refused _ _
      · split
        · exact .refused _ _
        · rename_i ip hip
          exact .changed _ _ ip _ hip
  · exact .refused _ _

theorem delFileAttr_meta (s : FileSystem) (cwd : ℕ) (params : List UInt8) :
    MetaStep s (s.delFileAttr cwd params) := by
  unfold FileSystem.delFileAttr
  split
  · split
    · exact .refused _ _
    · split
      · exact .refused _ _
      · rename_i ip hip
        exact .changed _ _ ip _ hip
  · exact .refused _ _

theorem patchFile_meta (s : FileSystem) (cwd : ℕ) (path old newtext : List UInt8) (pages : Bool)
    (avail : ℕ) : MetaStep s (s.patchFile cwd path old newtext pages avail) := by
  unfold FileSystem.patchFile
  split
  · exact .refused _ _
  split
  · exact .refused _ _
  · split
    · exact .refused _ _
    · rename_i inum _
      dsimp only
      split
      · exact .refused _ _
      · split
        · exact .refused _ _
        · split
          · exact .refused _ _
          · split
            · exact .written _ _ _ _
            · exact .changed (.patch _) _ _ _ rfl

/-- **What a call does**: it changes the tree, it is a tool that changes metadata, or a query. -/
inductive FsStep (s : FileSystem) : FsCall → FileSystem → Prop
  | tree (a : FsCall) (x : FileTree) (hx : s.tree.AttrsOk → x.AttrsOk) :
      FsStep s a { s with tree := x }
  | metadata (a : FsCall) (t : FileSystem)
      (hv : SinceBuild s a → s.caches.version + 1 < 2 ^ 64) (h : MetaStep s t) : FsStep s a t
  | query (p : Proc) (params : List UInt8) (ticksCost : ℕ) (pages page : Bool) (t : FileSystem)
      (h : s.queryFile p (safestrcpy params agentToolParamMax) ticksCost pages page = some t) :
      FsStep s (.queryFile p params ticksCost pages page) t

theorem fs_step (ht : fsMachine.next s a = some t) : FsStep s a t := by
  cases a with
  | create cwd path type room =>
    simp only [fsMachine, FileSystem.next] at ht
    split at ht
    · cases ht
    · cases ht
      exact .tree _ _ fun h => create_attrsOk h cwd path type room
  | write inum data =>
    cases ht
    exact .tree _ _ fun h => fileWrite_attrsOk h inum data
  | unlink cwd path held =>
    obtain ⟨r, hr, rfl⟩ := Option.map_eq_some_iff.1 ht
    exact .tree _ _ fun h => sysUnlink_attrsOk h hr
  | link cwd old new room =>
    cases ht
    exact .tree _ _ fun h => sysLink_attrsOk h cwd old new room
  | iput inum =>
    cases ht
    exact .tree _ _ fun h => iput_attrsOk h inum
  | setFileAttr cwd params =>
    cases ht
    exact .metadata _ _ (fun h => h.2) (setFileAttr_meta s cwd _)
  | delFileAttr cwd params =>
    cases ht
    exact .metadata _ _ (fun h => h.2) (delFileAttr_meta s cwd _)
  | patchFile cwd path old newtext pages avail =>
    cases ht
    exact .metadata _ _ (fun h => h.2) (patchFile_meta s cwd path old newtext pages avail)
  | queryFile p params ticksCost pages page => exact .query p params ticksCost pages page t ht

/-- `file_index_ensure`. -/
def FileSystem.ensure (s : FileSystem) : FileSystem := if s.index.ready then s else s.build

/-- **After `file_index_ensure` the index is the complete one of the tree that the query sees.** -/
theorem FsInv.ensure (h : FsInv s) (hfits : TreeFits s.tree) :
    FsInv s.ensure ∧ s.ensure.index.ready = true ∧ s.ensure.built = s.seen ∧
      s.ensure.tree = s.tree ∧ s.ensure.caches = s.caches := by
  unfold FileSystem.ensure FileSystem.seen
  by_cases hr : s.index.ready = true
  · rw [if_pos hr, if_pos hr]
    exact ⟨h, hr, rfl, rfl, rfl⟩
  · rw [if_neg hr, if_neg hr]
    have hunused : ∀ k, (s.caches.entries k).used = true → False := fun k hk => hr (h.cached k hk)
    have hc : CachesCurrent s.tree.complete s.build.caches := by
      rw [build_caches]
      exact ⟨fun k hk => (hunused k hk).elim, fun k hk => (hunused k hk).elim⟩
    have hb : FsInv { s.build with caches := s.build.caches } := FsInv.build hfits h.attrs hc
    generalize hg : s.build = b at hb
    refine ⟨hb, ?_⟩
    rw [← hg]
    exact ⟨build_ready s, build_built s, build_tree s, build_caches s⟩

/-- **The cases of a query**: no page for a buffer, a hit of the cache, parameters that do not
parse, and an evaluation on the index. -/
theorem queryFile_cases (h : s.queryFile p params ticksCost pages page = some t) :
    t = s.respond agentToolErrNoSpace (lit "no memory") ∨
    pages = true ∧ page = true ∧
    ((∃ result, (sharedQueryCacheLookup s.caches p params).2 = some result ∧
      t = { s with caches := (sharedQueryCacheLookup s.caches p params).1 }.respond agentToolOk
        result) ∨
    (fileQueryParse params = none ∧
      t = s.ensure.respond agentToolErrBadParam (lit "bad params")) ∨
    (sharedQueryCacheLookup s.caches p params).2 = none ∧
    ∃ q r, fileQueryParse params = some q ∧ queryRun s.ensure.index q = some r ∧
      ∃ buf, buf = queryAnswer r.1 r.2 q.forceScan (fullScanned s.ensure.index) ticksCost ∧
        t = { s.ensure with caches := sharedQueryCacheStore s.ensure.caches p params buf }.respond
          agentToolOk (queryResultWithCache buf 0 p.pid 1 s.ensure.caches.version
            (fullScanned s.ensure.index))) := by
  unfold FileSystem.queryFile at h
  dsimp only at h
  by_cases hpages : pages = true
  swap
  · rw [if_pos (by simpa using hpages)] at h
    cases h
    exact Or.inl rfl
  by_cases hpage : page = true
  swap
  · rw [if_neg (by simp [hpages]), if_pos (by simpa using hpage)] at h
    cases h
    exact Or.inl rfl
  rw [if_neg (by simp [hpages]), if_neg (by simp [hpage])] at h
  refine Or.inr ⟨hpages, hpage, ?_⟩
  split at h
  · rename_i result hres
    cases h
    exact Or.inl ⟨result, hres, rfl⟩
  · rename_i hnone
    refine Or.inr ?_
    cases hq : fileQueryParse params with
    | none =>
      rw [hq] at h
      cases h
      exact Or.inl ⟨rfl, rfl⟩
    | some q =>
      rw [hq] at h
      obtain ⟨r, hr, rfl⟩ := Option.map_eq_some_iff.1 h
      exact Or.inr ⟨hnone, q, r, rfl, hr, _, rfl, rfl⟩

/-- A report stays a report behind `tool_resp_set`. -/
theorem Reports.of_text {x : FileTree} {q : FileQuery} {text : List UInt8} {files : Finset ℕ}
    {listed : List AgentFileMeta} (h : ListedOk x q files listed)
    (hlen : (reportText listed files.card).length < agentToolResultMax)
    (htext : reportText listed files.card <+: text) :
    Reports x q (safestrcpy text agentToolResultMax) :=
  ⟨files, listed, h, report_copy htext hlen⟩

/-- **Every successful query reports on the tree as it is.** -/
theorem query_reports (h : FsInv s)
    (hok : SinceBuild s (.queryFile p params ticksCost pages page))
    (ht : fsMachine.next s (.queryFile p params ticksCost pages page) = some t)
    {result : List UInt8}
    (hresp : t.resp = (agentToolOk, result)) :
    ∃ q, fileQueryParse (safestrcpy params agentToolParamMax) = some q ∧
      Reports s.tree q result := by
  obtain ⟨hfits, hpages⟩ := hok
  rcases queryFile_cases ht with rfl | ⟨hp, hp', hcases⟩
  · exact absurd (Prod.mk.inj hresp).1 (by decide)
  have hquery := hpages hp hp'
  rcases hcases with ⟨res, hres, rfl⟩ | ⟨-, rfl⟩ | ⟨-, q, r, hq, hr, buf, hbuf, rfl⟩
  · -- a hit: an entry of the current version is an answer from the index, which is there
    obtain ⟨k, refcnt, hu, hv, hs, hans⟩ := lookup_hit hres
    obtain ⟨q, r, tc, hq, hr, he⟩ := (h.caches.current k hu hv).congr hs
    have hready := h.cached k hu
    obtain ⟨-, hbfits, hbattrs⟩ := h.index hready
    obtain ⟨hsame, hroom⟩ := hquery q hq
    unfold FileSystem.seen at hsame hroom
    rw [if_pos hready] at hsame hroom
    obtain ⟨files, listed, hlisted, hlen, htext⟩ :=
      queryRun_reports hbfits hbattrs hsame hroom hr q.forceScan (fullScanned s.built.complete) tc
    refine ⟨q, hq, ?_⟩
    have hresult : safestrcpy res agentToolResultMax = result := (Prod.mk.inj hresp).2
    rw [← hresult, hans, he]
    exact Reports.of_text hlisted hlen (report_cached (report_copy htext hlen) hlen ..)
  · exact absurd (Prod.mk.inj hresp).1 (by decide)
  · -- an evaluation on the complete index of the tree that the query sees
    obtain ⟨he, hready, hbuilt, -, -⟩ := h.ensure hfits
    obtain ⟨hindex, hbfits, hbattrs⟩ := he.index hready
    obtain ⟨hsame, hroom⟩ := hquery q hq
    rw [← hbuilt] at hsame hroom
    rw [hindex] at hr
    obtain ⟨files, listed, hlisted, hlen, htext⟩ :=
      queryRun_reports hbfits hbattrs hsame hroom hr q.forceScan (fullScanned s.ensure.index)
        ticksCost
    rw [← hbuf] at htext
    refine ⟨q, hq, ?_⟩
    have hresult : safestrcpy (queryResultWithCache buf 0 p.pid 1 s.ensure.caches.version
        (fullScanned s.ensure.index)) agentToolResultMax = result := (Prod.mk.inj hresp).2
    rw [← hresult]
    exact Reports.of_text hlisted hlen (report_cached htext hlen ..)

/-- A call keeps the invariant. -/
theorem fsInv_step (h : FsInv s) (hok : SinceBuild s a) (ht : fsMachine.next s a = some t) :
    FsInv t := by
  have hfits := hok.1
  cases fs_step ht with
  | tree a x hx => exact h.setTree (hx h.attrs)
  | metadata a t hv hm => exact h.metaStep hfits (hv hok) hm
  | query p params ticksCost pages page t hrun =>
    obtain ⟨he, hready, -, -, -⟩ := h.ensure hfits
    rcases queryFile_cases hrun with rfl | ⟨-, -, ⟨res, -, rfl⟩ | ⟨-, rfl⟩ |
      ⟨-, q, r, hq, hr, buf, hbuf, rfl⟩⟩
    · exact h.respond _ _
    · refine FsInv.respond ?_ _ _
      refine FsInv.withCaches h.attrs h.index h.caches.lookup fun k hk => ?_
      obtain ⟨n, hn⟩ := (lookup_entries s.caches p (safestrcpy params agentToolParamMax)).2 k
      rw [hn] at hk
      exact h.cached k hk
    · exact he.respond _ _
    · refine FsInv.respond ?_ _ _
      have hans : Answers s.ensure.built.complete (safestrcpy params agentToolParamMax)
          (safestrcpy buf agentToolResultMax) := by
        rw [← (he.index hready).1, hbuf]
        exact ⟨q, r, ticksCost, hq, hr, rfl⟩
      exact FsInv.withCaches he.attrs he.index
        (he.caches.store (safestrcpy_idem params agentToolParamMax) hans) fun _ _ => hready

theorem fsInv_init (h : s.init) : FsInv s := by
  obtain ⟨hindex, hc, -, hattrs⟩ := h
  have hready : s.index.ready = false := by
    rw [hindex]
    rfl
  have hunused : ∀ k, (s.caches.entries k).used = true → False := by
    intro k hk
    rw [hc] at hk
    cases hk
  refine ⟨hattrs, fun hr => ?_, ⟨fun k hk => (hunused k hk).elim,
    fun k hk => (hunused k hk).elim⟩, fun k hk => (hunused k hk).elim⟩
  rw [hready] at hr
  cases hr

theorem reach_fs {tr : List FsCall} (h : fsMachine.Reach SinceBuild tr s) : FsInv s :=
  Reach.inv (P := FsInv) (fun _ hs => fsInv_init hs) (fun _ _ _ hs hok ht => fsInv_step hs hok ht) h

/-- A query leaves the tree alone. -/
theorem queryFile_tree (h : s.queryFile p params ticksCost pages page = some t) :
    t.tree = s.tree := by
  have hensure : s.ensure.tree = s.tree := by
    unfold FileSystem.ensure
    split
    · rfl
    · exact build_tree s
  rcases queryFile_cases h with rfl | ⟨-, -, ⟨res, -, rfl⟩ | ⟨-, rfl⟩ |
    ⟨-, q, r, -, -, buf, -, rfl⟩⟩
  · rfl
  · rfl
  · exact hensure
  · exact hensure

end

/-! ### A file that is created after the index -/

/-- An empty root. -/
def emptyTree : FileTree :=
  fun inum => if inum = rootino then newInode .dir rootino rootino else DiskInode.free

def fsStart : FileSystem :=
  ⟨emptyTree, AgentFileIndex.init, QueryCaches.init, emptyTree, (0, [])⟩

theorem fsStart_init : fsMachine.init fsStart := by
  refine ⟨rfl, rfl, rfl, fun inum => ?_⟩
  change (emptyTree inum).file.AttrsOk
  unfold emptyTree
  split
  · exact zero_attrsOk
  · exact zero_attrsOk

/-- A query for every file. -/
def queryAll : FsCall := .queryFile Proc.boot (lit "public=true") 0 true true

def createA : FsCall := .create rootino (lit "/a") .file true

def fsNext (s : FileSystem) (a : FsCall) : FileSystem := (fsMachine.next s a).getD s

/-- A response with this status. -/
theorem resp_of_status {s : FileSystem} {status : ℤ} (h : s.resp.1 = status) :
    s.resp = (status, s.resp.2) := by
  rw [← h]

/-- The tree with this file. -/
def treeA : FileTree := (fsNext fsStart createA).tree

theorem emptyTree_fits : TreeFits emptyTree :=
  treeFits_flat (l := []) (by decide) (by decide) (by decide)

/-- Its root holds the file and nothing else. -/
theorem treeA_flat : (treeA rootino).type = .dir ∧
    (∀ o ∈ (treeA rootino).entries, ∀ e ∈ o, e.name.isDots = false →
      (treeA e.inum).type ≠ .dir ∧ e.inum ∈ [2]) := by
  refine ⟨?_, ?_⟩ <;> decide

theorem treeA_fits : TreeFits treeA :=
  treeFits_flat treeA_flat.1 (by decide) treeA_flat.2

set_option maxRecDepth 10000 in
/-- The text of its one file leaves room for the count. -/
theorem treeA_room : RoomFor ⟨[], [], false⟩ treeA := by decide

theorem queryAll_parse : fileQueryParse (safestrcpy (lit "public=true") agentToolParamMax) =
    some ⟨[], [], false⟩ := rfl

end AgentOS
