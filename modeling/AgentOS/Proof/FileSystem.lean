import AgentOS.Model.FileSystem
import AgentOS.Proof.FileTable

/-!
# Query results and the file system

* `Reports t q result`: the answer counts the regular files below the root of `t` that satisfy
  the query, and lists at most three of them, at paths that exist.
* `SameFiles`: the files that satisfy a query are the same in two trees, and none of their paths
  has gone.
* `queryRun_reports`: the complete index of a tree reports on every tree with the same files.
* `MetaChange.apply_attrsOk`, `create_attrsOk`, …: every call leaves at most four attributes on an
  inode, with distinct keys.
* `TreeFits.setFile`: a change of metadata leaves the files where they are.
-/

namespace AgentOS

/-! ### Reports -/

/-- Do the stored attributes and the summary satisfy the query? -/
def FileInode.satisfies (ip : FileInode) (q : FileQuery) : Bool :=
  fileMetaMatches (fileCacheFill 0 [] ip) q.conds q.keyword

/-- A regular file that satisfies the query, at a path. -/
def FileAt (t : FileTree) (q : FileQuery) (i : ℕ) (names : List FileName) : Prop :=
  RegularAt t i names ∧ (t i).file.satisfies q = true

/-- The files that satisfy the query. -/
def Satisfying (t : FileTree) (q : FileQuery) (files : Finset ℕ) : Prop :=
  ∀ i, i ∈ files ↔ ∃ names, FileAt t q i names

/-- The files listed are among those that satisfy the query, and are where the answer says. -/
structure ListedOk (t : FileTree) (q : FileQuery) (files : Finset ℕ)
    (listed : List AgentFileMeta) : Prop where
  satisfying : Satisfying t q files
  length : listed.length = min files.card agentFileResultMax
  nodup : (listed.map AgentFileMeta.inum).Nodup
  paths : ∀ m ∈ listed, m.inum ∈ files ∧ namei t rootino m.path = some m.inum

/-- **The answer follows the file system.** -/
def Reports (t : FileTree) (q : FileQuery) (result : List UInt8) : Prop :=
  ∃ files listed, ListedOk t q files listed ∧ reportText listed files.card <+: result

/-- The files that satisfy the query are the same, and none of their paths has gone. -/
def SameFiles (q : FileQuery) (t t' : FileTree) : Prop :=
  (∀ i names, FileAt t q i names → FileAt t' q i names) ∧
    ∀ i names, FileAt t' q i names → ∃ names', FileAt t q i names'

/-! ### The complete index of a tree -/

theorem satisfies_fill (inum : ℕ) (path : List UInt8) (ip : FileInode) (q : FileQuery) :
    fileMetaMatches (fileCacheFill inum path ip) q.conds q.keyword = ip.satisfies q := rfl

theorem Indexed.setReady {t : AgentFileIndex} {L : List Posted} (h : Indexed t L) (b : Bool) :
    Indexed { t with ready := b } L :=
  ⟨h.room, h.used, h.entry, h.key, h.value, h.chain⟩

/-- The complete index of a tree. -/
def FileTree.complete (t : FileTree) : AgentFileIndex :=
  fileIndexBuild AgentFileIndex.init t.files (rootWalk t)

/-- The texts of the files that an answer lists, the first three that satisfy the query, leave
room for the count. -/
def RoomFor (q : FileQuery) (t : FileTree) : Prop :=
  (reportText (((queryOrder t.complete q).take agentFileResultMax).map t.complete.fileMeta)
    (queryOrder t.complete q).length).length < agentToolResultMax

instance (q : FileQuery) (t : FileTree) : Decidable (RoomFor q t) :=
  inferInstanceAs (Decidable (_ < _))

section

variable {t t' : FileTree} {q : FileQuery} {x : AgentFileIndex} {i : ℕ} {names : List FileName}
  {ip ip' : FileInode} {c : MetaChange}

theorem SameFiles.refl (q : FileQuery) (t : FileTree) : SameFiles q t t :=
  ⟨fun _ _ h => h, fun _ names h => ⟨names, h⟩⟩

theorem foldl_visit_meta {m : ℕ → FileInode} (W : List (ℕ × List UInt8)) {y : AgentFileIndex}
    (h : x.fileMeta = y.fileMeta) :
    (W.foldl (fileIndexVisit m) x).fileMeta = (W.foldl (fileIndexVisit m) y).fileMeta := by
  induction W generalizing x y with
  | nil => exact h
  | cons f W ih => exact ih (fileCacheUpsert_meta h)

/-- What a build leaves does not depend on the index before it. -/
theorem fileIndexBuild_eq (x : AgentFileIndex) (t : FileTree) :
    fileIndexBuild x t.files (rootWalk t) = t.complete := by
  unfold FileTree.complete fileIndexBuild
  exact fileIndexFinish_congr (foldl_visit_meta _ rfl)

theorem complete_meta : t.complete.fileMeta =
    ((rootWalk t).foldl (fileIndexVisit t.files) (fileIndexClear AgentFileIndex.init)).fileMeta := by
  unfold FileTree.complete fileIndexBuild
  exact fileIndexFinish_meta

/-- **The complete index has the regular files of the tree.** -/
theorem complete_table (hfits : TreeFits t) : TableOf t.files (rootWalk t) t.complete := by
  obtain ⟨l, hl, hmem⟩ := hfits.files
  have hW : ∀ x ∈ rootWalk t, x.1 ∈ l := by
    intro x hx
    obtain ⟨names, hr, -⟩ := (mem_rootWalk hfits).1 hx
    exact hmem x.1 names hr
  have h := tableOf_walk (t := AgentFileIndex.init) (m := t.files) hl hW
  have hm := complete_meta (t := t)
  refine ⟨fun k hu => ?_, fun x hx => ?_, fun k k' hu hu' he => ?_⟩
  · rw [hm] at hu ⊢
    exact h.sound k hu
  · rw [hm]
    exact h.complete x hx
  · rw [hm] at hu hu' he
    exact h.inj k k' hu hu' he

theorem complete_ready : t.complete.ready = true := rfl

/-- Whatever the tree, an entry in use has the metadata of one of its files. -/
theorem complete_filled (k : Fin agentFileMetaMax) (hu : (t.complete.fileMeta k).used = true) :
    ∃ f ∈ rootWalk t, t.complete.fileMeta k = fileCacheFill f.1 f.2 (t f.1).file := by
  rw [complete_meta] at hu ⊢
  exact walk_filled _ k hu

theorem complete_attrs (hok : ∀ i, (t i).file.AttrsOk) (k : Fin agentFileMetaMax)
    (hu : (t.complete.fileMeta k).used = true) :
    (t.complete.fileMeta k).attrs.length ≤ inodeAttrMax ∧
      (t.complete.fileMeta k).attrs.Pairwise fun a b => streq a.key b.key = false := by
  obtain ⟨f, -, he⟩ := complete_filled k hu
  rw [he]
  exact hok _

theorem complete_indexed (hok : ∀ i, (t i).file.AttrsOk) :
    Indexed t.complete (postedAll t.complete) := by
  have hm := complete_meta (t := t)
  have hfit : AttrsFit t.complete := fun k hu => (complete_attrs hok k hu).1
  unfold AttrsFit at hfit
  rw [hm] at hfit
  have h := indexed_rebuild hfit
  have hposted : postedAll t.complete = postedAll
      ((rootWalk t).foldl (fileIndexVisit t.files) (fileIndexClear AgentFileIndex.init)) := by
    unfold postedAll postedOf
    rw [hm]
  rw [hposted]
  unfold FileTree.complete fileIndexBuild fileIndexFinish
  exact h.setReady true

/-- The files in the table that match are those of the tree that satisfy the query. -/
theorem TableOf.matches (h : TableOf t.files (rootWalk t) x) (hfits : TreeFits t)
    {k : Fin agentFileMetaMax} (hk : MatchesQuery x q k) :
    ∃ names, FileAt t q (x.fileMeta k).inum names ∧
      x.fileMeta k = fileCacheFill (x.fileMeta k).inum (pathText names)
        (t (x.fileMeta k).inum).file := by
  obtain ⟨hu, hmatch⟩ := hk
  obtain ⟨path, hmem, he⟩ := h.sound k hu
  obtain ⟨names, hr, hpath⟩ := (mem_rootWalk hfits).1 hmem
  dsimp only at hr hpath
  subst hpath
  refine ⟨names, ⟨hr, ?_⟩, he⟩
  rw [he, satisfies_fill] at hmatch
  exact hmatch

theorem TableOf.satisfying (h : TableOf t.files (rootWalk t) x) (hfits : TreeFits t)
    (hat : FileAt t q i names) : ∃ k, MatchesQuery x q k ∧ (x.fileMeta k).inum = i := by
  have hmem : (i, pathText names) ∈ rootWalk t := (mem_rootWalk hfits).2 ⟨names, hat.1, rfl⟩
  obtain ⟨k, hu, hi⟩ := h.complete _ hmem
  obtain ⟨path, -, he⟩ := h.sound k hu
  refine ⟨k, ⟨hu, ?_⟩, hi⟩
  rw [he, satisfies_fill, hi]
  exact hat.2

/-- **The complete index of a tree reports on every tree with the same files.** -/
theorem queryRun_reports (hfits : TreeFits t) (hok : ∀ i, (t i).file.AttrsOk)
    (hsame : SameFiles q t t') (hroom : RoomFor q t) {r : QueryState × Bool}
    (hr : queryRun t.complete q = some r) (forceScan : Bool) (full ticksCost : ℕ) :
    ∃ files listed, ListedOk t' q files listed ∧
      (reportText listed files.card).length < agentToolResultMax ∧
      reportText listed files.card <+: queryAnswer r.1 r.2 forceScan full ticksCost := by
  have hkeys : KeysDistinct t.complete := fun k hu => (complete_attrs hok k hu).2
  have htable := complete_table hfits
  obtain ⟨r', hr', hnd, hmem⟩ := queryRun_spec (complete_indexed hok) hkeys q
  have hrr : r' = r := Option.some.inj (hr'.symm.trans hr)
  subst hrr
  have hwritten := queryRun_written hr
  unfold RoomFor at hroom
  rw [← queryRun_order hr] at hroom
  clear hr hr' hkeys
  generalize t.complete = x at *
  -- the inodes of the entries that matched
  set inum : Fin agentFileMetaMax → ℕ := fun k => (x.fileMeta k).inum with hinum
  have hinums : (r'.1.matched.map inum).Nodup := by
    refine List.Nodup.map_on (fun k hk k' hk' he => ?_) hnd
    exact htable.inj k k' ((hmem k).1 hk).1 ((hmem k').1 hk').1 he
  set files : Finset ℕ := (r'.1.matched.map inum).toFinset with hfiles
  have hcard : files.card = r'.1.count := by
    rw [hfiles, List.toFinset_card_of_nodup hinums, List.length_map, hwritten.1]
  have hsat : Satisfying t q files := by
    intro j
    rw [hfiles, List.mem_toFinset, List.mem_map]
    constructor
    · rintro ⟨k, hk, rfl⟩
      obtain ⟨names, hat, -⟩ := htable.matches hfits ((hmem k).1 hk)
      exact ⟨names, hat⟩
    · rintro ⟨names, hat⟩
      obtain ⟨k, hk, hj⟩ := htable.satisfying hfits hat
      exact ⟨k, (hmem k).2 hk, hj⟩
  set listed := (r'.1.matched.take agentFileResultMax).map x.fileMeta with hlisted
  have hinumsListed : (listed.map AgentFileMeta.inum).Nodup := by
    rw [hlisted, List.map_map]
    exact hinums.sublist ((List.take_sublist _ _).map _)
  have hentries : ∀ m ∈ listed, m.inum ∈ files ∧ ∃ names, FileAt t q m.inum names ∧
      m = fileCacheFill m.inum (pathText names) (t m.inum).file := by
    intro m hm
    rw [hlisted] at hm
    obtain ⟨k, hk, rfl⟩ := List.mem_map.1 hm
    have hk' := List.mem_of_mem_take hk
    refine ⟨?_, htable.matches hfits ((hmem k).1 hk')⟩
    rw [hfiles, List.mem_toFinset]
    exact List.mem_map.2 ⟨k, hk', rfl⟩
  have hlength : listed.length = min files.card agentFileResultMax := by
    rw [hlisted, List.length_map, List.length_take, hcard, hwritten.1, Nat.min_comm]
  have hlen : (reportText listed files.card).length < agentToolResultMax := by
    rw [hcard, hwritten.1]
    exact hroom
  refine ⟨files, listed, ⟨?_, hlength, hinumsListed, fun m hm => ⟨(hentries m hm).1, ?_⟩⟩, hlen,
    ?_⟩
  · intro j
    refine (hsat j).trans ⟨?_, ?_⟩
    · rintro ⟨names, hat⟩
      exact ⟨names, hsame.1 j names hat⟩
    · rintro ⟨names, hat⟩
      exact hsame.2 j names hat
  · obtain ⟨names, hat, he⟩ := (hentries m hm).2
    have hpath : m.path = pathText names := by
      have hfit := hfits.paths _ _ hat.1
      rw [he]
      change safestrcpy (pathText names) agentFilePathMax = pathText names
      rw [safestrcpy_of_notMem (pathText_notMem names)]
      exact List.take_of_length_le (by omega)
    rw [hpath]
    exact namei_pathText (hsame.1 _ _ hat).1.below
  · rw [hcard] at hlen ⊢
    exact queryAnswer_report hwritten _ _ _ _ hlen

/-! ### Attributes -/

theorem setAttrValue_some {key value : List UInt8} {l l' : List InodeAttr}
    (h : setAttrValue key value l = some l') :
    l'.map InodeAttr.key = l.map InodeAttr.key := by
  induction l generalizing l' with
  | nil => cases h
  | cons a l ih =>
    unfold setAttrValue at h
    split at h
    · cases h
      rfl
    · obtain ⟨rest, hrest, rfl⟩ := Option.map_eq_some_iff.1 h
      rw [List.map_cons, List.map_cons, ih hrest]

theorem setAttrValue_none {key value : List UInt8} {l : List InodeAttr}
    (h : setAttrValue key value l = none) : ∀ a ∈ l, streq a.key key = false := by
  induction l with
  | nil => exact fun a ha => absurd ha List.not_mem_nil
  | cons a l ih =>
    unfold setAttrValue at h
    split at h
    · cases h
    · rename_i hk
      intro b hb
      rcases List.mem_cons.1 hb with rfl | hb
      · simpa using hk
      · exact ih (Option.map_eq_none_iff.1 h) b hb

/-- A tool leaves at most four attributes, with distinct keys. -/
theorem MetaChange.apply_attrsOk (h : c.apply ip = some ip') (hok : ip.AttrsOk) :
    ip'.AttrsOk := by
  obtain ⟨hlen, hkeys⟩ := hok
  cases c with
  | setAttr key value =>
    simp only [MetaChange.apply] at h
    split at h
    · rename_i attrs hattrs
      cases h
      have hmap := setAttrValue_some hattrs
      have hlen' := congrArg List.length hmap
      rw [List.length_map, List.length_map] at hlen'
      refine ⟨hlen'.trans_le hlen, ?_⟩
      have hpair : (ip.attrs.map InodeAttr.key).Pairwise fun a b => streq a b = false :=
        List.pairwise_map.2 hkeys
      rw [← hmap] at hpair
      exact List.pairwise_map.1 hpair
    · rename_i hnone
      split at h
      · cases h
      · rename_i hroom
        cases h
        refine ⟨?_, ?_⟩
        · change (ip.attrs ++ [InodeAttr.mk' key value]).length ≤ inodeAttrMax
          rw [List.length_append, List.length_singleton]
          omega
        · change (ip.attrs ++ [InodeAttr.mk' key value]).Pairwise _
          refine List.pairwise_append.2 ⟨hkeys, List.pairwise_singleton .., fun a ha b hb => ?_⟩
          rw [List.mem_singleton.1 hb]
          exact setAttrValue_none hnone a ha
  | delAttr key =>
    simp only [MetaChange.apply] at h
    split at h
    · cases h
    · rename_i n _
      cases h
      exact ⟨(List.length_eraseIdx_le ..).trans hlen, hkeys.sublist (List.eraseIdx_sublist ..)⟩
  | patch data =>
    cases h
    exact ⟨hlen, hkeys⟩

theorem zero_attrsOk : FileInode.zero.AttrsOk := ⟨Nat.zero_le _, List.Pairwise.nil⟩

/-- Every inode has at most four attributes, with distinct keys. -/
def FileTree.AttrsOk (t : FileTree) : Prop := ∀ i, (t i).file.AttrsOk

theorem FileTree.AttrsOk.update (h : t.AttrsOk) {d : DiskInode} (hd : d.file.AttrsOk) (i : ℕ) :
    FileTree.AttrsOk (Function.update t i d) := by
  intro j
  by_cases hj : j = i
  · subst hj
    rw [Function.update_self]
    exact hd
  · rw [Function.update_of_ne hj]
    exact h j

theorem dirlink_file {d d' : DiskInode} {name : FileName} {inum : ℕ}
    (h : dirlink d name inum = some d') : d'.file = d.file := by
  unfold dirlink at h
  split at h
  · cases h
  · cases h
    rfl

theorem create_attrsOk (h : t.AttrsOk) (cwd : ℕ) (path : List UInt8) (type : InodeType)
    (room : Bool) : (create t cwd path type room).1.AttrsOk := by
  unfold create
  split
  · exact h
  · rename_i dp name _
    split
    · exact h
    · split
      · exact h
      · rename_i inum _
        cases hlink : dirlink (t dp) name inum with
        | none => exact h
        | some d =>
          have hd : d.file.AttrsOk := by
            rw [dirlink_file hlink]
            exact h dp
          cases room with
          | false => exact h
          | true =>
            refine (h.update (d := newInode type inum dp) zero_attrsOk inum).update ?_ dp
            split
            · exact hd
            · exact hd

theorem iput_attrsOk (h : t.AttrsOk) (inum : ℕ) : (iput t inum).AttrsOk := by
  unfold iput
  split
  · exact h.update (d := DiskInode.free) zero_attrsOk inum
  · exact h

theorem sysUnlink_attrsOk (h : t.AttrsOk) {cwd : ℕ} {path : List UInt8} {held : Bool}
    {r : FileTree × ℤ} (hr : sysUnlink t cwd path held = some r) : r.1.AttrsOk := by
  unfold sysUnlink at hr
  split at hr
  · cases hr
    exact h
  · rename_i dp name _
    split at hr
    · cases hr
      exact h
    · split at hr
      · cases hr
        exact h
      · rename_i inum _
        split at hr
        · cases hr
        · split at hr
          · cases hr
            exact h
          · cases hr
            have h₁ := h.update (d := { t dp with
              entries := clearEntry name (t dp).entries
              nlink := if (t inum).type = .dir then (t dp).nlink - 1 else (t dp).nlink })
              (h dp) dp
            dsimp only
            generalize Function.update t dp _ = u at h₁ ⊢
            have h₂ := h₁.update (d := { u inum with nlink := (u inum).nlink - 1 }) (h₁ inum) inum
            split
            · exact h₂
            · exact iput_attrsOk h₂ inum

theorem sysLink_attrsOk (h : t.AttrsOk) (cwd : ℕ) (old new : List UInt8) (room : Bool) :
    (sysLink t cwd old new room).1.AttrsOk := by
  unfold sysLink
  split
  · exact h
  · rename_i ip _
    split
    · exact h
    · split
      · exact h
      · rename_i dp name _
        cases hlink : dirlink (t dp) name ip with
        | none => exact h
        | some d =>
          have hd : d.file.AttrsOk := by
            rw [dirlink_file hlink]
            exact h dp
          cases room with
          | false => exact h
          | true =>
            exact (h.update (d := { t ip with nlink := (t ip).nlink + 1 }) (h ip) ip).update hd dp

theorem fileWrite_attrsOk (h : t.AttrsOk) (inum : ℕ) (data : List UInt8) :
    (fileWrite t inum data).AttrsOk := by
  unfold fileWrite
  split
  · exact h.update (d := { t inum with file := { (t inum).file with data := data } }) (h inum) inum
  · exact h

/-! ### Metadata and the shape of the tree -/

theorem Below.congr {d : ℕ} (h : Below t d names i)
    (hsame : ∀ j, (t' j).type = (t j).type ∧ (t' j).entries = (t j).entries) :
    Below t' d names i := by
  induction h with
  | here d => exact .here d
  | @down d c i name names hdir hn hc _ ih =>
    refine .down ((hsame d).1.trans hdir) hn ?_ ih
    unfold dirlookup at hc ⊢
    rw [(hsame d).2]
    exact hc

theorem setFile_shape (t : FileTree) (inum : ℕ) (ip : FileInode) (j : ℕ) :
    (t.setFile inum ip j).type = (t j).type ∧ (t.setFile inum ip j).entries = (t j).entries := by
  unfold FileTree.setFile
  by_cases hj : j = inum
  · subst hj
    rw [Function.update_self]
    exact ⟨rfl, rfl⟩
  · rw [Function.update_of_ne hj]
    exact ⟨rfl, rfl⟩

/-- A change of metadata leaves the files where they are. -/
theorem TreeFits.setFile (h : TreeFits t) (inum : ℕ) (ip : FileInode) :
    TreeFits (t.setFile inum ip) := by
  have hback : ∀ j names, RegularAt (t.setFile inum ip) j names → RegularAt t j names := by
    intro j names hr
    have hshape := setFile_shape t inum ip
    refine ⟨hr.below.congr fun k => ⟨(hshape k).1.symm, (hshape k).2.symm⟩, ?_⟩
    exact (hshape j).1.symm.trans hr.type
  obtain ⟨l, hl, hmem⟩ := h.files
  exact ⟨fun j names hr => h.paths j names (hback j names hr),
    l, hl, fun j names hr => hmem j names (hback j names hr)⟩

end

end AgentOS
