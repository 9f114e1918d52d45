import AgentOS.Proof.FileSystem

/-!
# What the index covers

`file_index_build` returns nothing: a path that does not fit its buffer is cut or skipped, a file
for which the table has no entry is left out.

* `Covers x t`: every regular file below the root of `t` has one entry of `x`, with its metadata and
  a path that leads to it.
* `walk_eq_filesBelow`: the walk is the list of all paths in directory order, without those whose
  directory part is too long, and with the others cut.
* `LastVisits`: an entry has the path of the last visit of its inode.
* **`build_covers`**: the index covers the tree if and only if the regular files are at most as
  many as its entries, and the last path that each is visited at still leads to it when it is cut.
-/

namespace AgentOS

/-- **Every regular file has one entry, with its metadata and a path that leads to it.** The paths of
the index begin with a slash: they are read from the root. -/
def Covers (x : AgentFileIndex) (t : FileTree) : Prop :=
  ∀ i names, RegularAt t i names → ∃ k, (x.fileMeta k).used = true ∧ (x.fileMeta k).inum = i ∧
    (∀ k', (x.fileMeta k').used = true → (x.fileMeta k').inum = i → k' = k) ∧
    (x.fileMeta k).attrs = (t i).file.attrs ∧
    (x.fileMeta k).summary = safestrcpy (t i).file.summary inodeSummaryMax ∧
    namei t rootino (x.fileMeta k).path = some i

/-! ### All paths, in directory order -/

/-- The regular files below `d`, at each of their paths of less than `n` names, in the order of the
directories. -/
def filesBelow (t : FileTree) : ℕ → ℕ → List (ℕ × List FileName)
  | 0, _ => []
  | n + 1, d =>
    match (t d).type with
    | .file => [(d, [])]
    | .dir => (t d).entries.flatMap fun
      | none => []
      | some e =>
        if e.name.isDots then []
        else
          match dirlookup (t d) e.name with
          | none => []
          | some c => (filesBelow t n c).map fun x => (x.1, e.name :: x.2)
    | _ => []

/-- The directory part of the path leaves room for a slash and a byte of the name. -/
def Joins (names : List FileName) : Prop := (pathText names.dropLast).length + 2 < agentFilePathMax

instance (names : List FileName) : Decidable (Joins names) :=
  inferInstanceAs (Decidable (_ < _))

/-- A path as `file_join_path` leaves it. -/
def cutPath (names : List FileName) : List UInt8 := (pathText names).take (agentFilePathMax - 1)

section

variable {t : FileTree} {d i n fuel : ℕ} {names pre : List FileName} {name : FileName}

theorem mem_filesBelow {x : ℕ × List FileName} : x ∈ filesBelow t n d ↔
    (t x.1).type = .file ∧ Below t d x.2 x.1 ∧ x.2.length < n := by
  obtain ⟨i, names⟩ := x
  -- induction on the depth; a path through a directory is an entry and a path below it
  induction n generalizing d names with
  | zero => exact iff_of_false List.not_mem_nil fun h => absurd h.2.2 (Nat.not_lt_zero _)
  | succ n ih =>
    rw [filesBelow]
    dsimp only at ih ⊢
    cases htype : (t d).type with
    | file =>
      simp only [List.mem_singleton, Prod.mk.injEq]
      constructor
      · rintro ⟨rfl, rfl⟩
        exact ⟨htype, .here _, Nat.succ_pos n⟩
      · rintro ⟨hfile, hbelow, -⟩
        cases hbelow with
        | here => exact ⟨rfl, rfl⟩
        | down hdir => exact absurd (htype.symm.trans hdir) (by decide)
    | dir =>
      simp only [List.mem_flatMap]
      constructor
      · rintro ⟨o, ho, hx⟩
        split at hx
        · exact (List.not_mem_nil hx).elim
        · split at hx
          · exact (List.not_mem_nil hx).elim
          · rename_i e hdots
            split at hx
            · exact (List.not_mem_nil hx).elim
            · rename_i c hc
              obtain ⟨⟨j, rest⟩, hrest, he⟩ := List.mem_map.1 hx
              cases he
              obtain ⟨hfile, hbelow, hlen⟩ := (ih _).1 hrest
              exact ⟨hfile, .down htype (by simpa using hdots) hc hbelow, Nat.succ_lt_succ hlen⟩
      · rintro ⟨hfile, hbelow, hlen⟩
        cases hbelow with
        | here => exact absurd (htype.symm.trans hfile) (by decide)
        | @down _ c _ name rest _ hdots hc hrest =>
          obtain ⟨e, he, rfl, -⟩ := mem_of_dirlookup hc
          refine ⟨some e, he, ?_⟩
          simp only [hdots, hc]
          rw [List.length_cons] at hlen
          exact List.mem_map.2 ⟨(i, rest), (ih _).2 ⟨hfile, hrest, by omega⟩, rfl⟩
    | free =>
      refine iff_of_false List.not_mem_nil ?_
      rintro ⟨hfile, hbelow, -⟩
      cases hbelow with
      | here => exact absurd (htype.symm.trans hfile) (by decide)
      | down hdir => exact absurd (htype.symm.trans hdir) (by decide)
    | device =>
      refine iff_of_false List.not_mem_nil ?_
      rintro ⟨hfile, hbelow, -⟩
      cases hbelow with
      | here => exact absurd (htype.symm.trans hfile) (by decide)
      | down hdir => exact absurd (htype.symm.trans hdir) (by decide)

/-- A path that is admitted has few names. -/
theorem Joins.length_lt (h : Joins names) : names.length < agentFilePathMax + 1 := by
  unfold Joins at h
  have hlen := length_le_pathText names.dropLast
  rw [List.length_dropLast] at hlen
  omega

/-- What is admitted below a directory is admitted up to its first name. -/
theorem Joins.first {rest : List FileName} (h : Joins (pre ++ name :: rest)) :
    (pathText pre).length + 2 < agentFilePathMax := by
  unfold Joins at h
  rw [List.dropLast_append_of_ne_nil (List.cons_ne_nil _ _)] at h
  have hlen := pathText_length_le pre (name :: rest).dropLast
  omega

theorem joins_snoc : Joins (pre ++ [name]) ↔ (pathText pre).length + 2 < agentFilePathMax := by
  unfold Joins
  rw [List.dropLast_concat]

/-- A path without slashes at its end is joined, and cut to the buffer. -/
theorem fileJoinPath_cut (h : (pathText pre).length + 2 < agentFilePathMax) (name : FileName) :
    fileJoinPath (pathText pre) name.bytes agentFilePathMax = some (cutPath (pre ++ [name])) := by
  have hz := pathText_notMem pre
  have hn := name.zero_notMem
  unfold cutPath
  rw [pathText_snoc]
  unfold fileJoinPath joined
  rw [cstr_of_notMem hz]
  by_cases hp : pathText pre = []
  · rw [if_pos hp, if_pos hp, if_neg (by decide), safestrcpy_of_notMem hn]
  · have hout : safestrcpy (pathText pre) agentFilePathMax = pathText pre := by
      rw [safestrcpy_of_notMem hz, List.take_of_length_le (by omega)]
    rw [if_neg hp, if_neg hp]
    dsimp only
    rw [hout, if_neg (by omega), if_neg (by omega), safestrcpy_of_notMem hn]
    have hleft : agentFilePathMax - 1 - (pathText pre).length =
        agentFilePathMax - ((pathText pre).length + 1) - 1 + 1 := by omega
    have hbase : (pathText pre).take (agentFilePathMax - 1) = pathText pre :=
      List.take_of_length_le (by omega)
    rw [List.take_append, hbase, hleft, List.take_succ_cons]

theorem fileJoinPath_none (hlen : (pathText pre).length < agentFilePathMax)
    (h : ¬ (pathText pre).length + 2 < agentFilePathMax) (name : FileName) :
    fileJoinPath (pathText pre) name.bytes agentFilePathMax = none := by
  have hz := pathText_notMem pre
  have hp : pathText pre ≠ [] := by
    intro he
    rw [he] at h
    exact h (by decide)
  have hout : safestrcpy (pathText pre) agentFilePathMax = pathText pre := by
    rw [safestrcpy_of_notMem hz, List.take_of_length_le (by omega)]
  unfold fileJoinPath
  rw [cstr_of_notMem hz, if_neg hp]
  dsimp only
  rw [hout]
  split
  · rfl
  · rw [if_pos (by omega)]

/-! ### The walk -/

/-- What the walk visits of the paths behind `pre`. -/
def visitsBelow (t : FileTree) (n d : ℕ) (pre : List FileName) : List (ℕ × List UInt8) :=
  ((filesBelow t n d).filter fun x => Joins (pre ++ x.2)).map fun x => (x.1, cutPath (pre ++ x.2))

theorem visitsBelow_nil (h : ∀ x ∈ filesBelow t n d, ¬ Joins (pre ++ x.2)) :
    visitsBelow t n d pre = [] := by
  unfold visitsBelow
  rw [List.map_eq_nil_iff, List.filter_eq_nil_iff]
  intro x hx
  simpa using h x hx

theorem visitsBelow_file (h : (t d).type = .file) (hpre : Joins pre) :
    visitsBelow t (n + 1) d pre = [(d, cutPath pre)] := by
  unfold visitsBelow filesBelow
  rw [h]
  simp only [List.filter_cons, List.append_nil, hpre, decide_true, if_true, List.filter_nil,
    List.map_cons, List.map_nil]

theorem visitsBelow_dir (h : (t d).type = .dir) :
    visitsBelow t (n + 1) d pre = (t d).entries.flatMap fun
      | none => []
      | some e =>
        if e.name.isDots then []
        else
          match dirlookup (t d) e.name with
          | none => []
          | some c => visitsBelow t n c (pre ++ [e.name]) := by
  unfold visitsBelow
  rw [filesBelow, h]
  dsimp only
  rw [List.filter_flatMap, List.map_flatMap]
  congr 1
  funext o
  cases o with
  | none => rfl
  | some e =>
    dsimp only
    split
    · rfl
    · split
      · rfl
      · rw [List.filter_map, List.map_map]
        simp only [Function.comp_def, List.append_assoc, List.singleton_append]

/-- A child whose path is cut: a file is visited, and below a directory nothing is. -/
theorem walk_cut (h : (pathText pre).length + 2 < agentFilePathMax)
    (hover : ¬ (pathText (pre ++ [name])).length < agentFilePathMax) :
    fileIndexWalk t fuel d (cutPath (pre ++ [name])) = visitsBelow t fuel d (pre ++ [name]) := by
  have hlen : (cutPath (pre ++ [name])).length + 1 = agentFilePathMax := by
    unfold cutPath
    rw [List.length_take]
    unfold agentFilePathMax at *
    omega
  have hz : (0 : UInt8) ∉ cutPath (pre ++ [name]) := fun hmem =>
    pathText_notMem _ (List.mem_of_mem_take hmem)
  by_cases hfile : (t d).type = .file
  · cases fuel with
    | zero => rfl
    | succ fuel =>
      rw [visitsBelow_file hfile (joins_snoc.2 h), fileIndexWalk, hfile]
  · rw [visitsBelow_nil, List.eq_nil_iff_forall_not_mem]
    · exact walk_full hlen hz hfile
    · intro x hx hjoins
      obtain ⟨htype, hbelow, -⟩ := mem_filesBelow.1 hx
      obtain ⟨j, names⟩ := x
      cases hbelow with
      | here => exact hfile htype
      | down _ _ _ _ =>
        have hfirst := hjoins.first
        omega

/-- **The walk visits the paths that it admits, in the order of the directories.** -/
theorem walk_eq_visits (hlen : (pathText pre).length < agentFilePathMax) (hpre : Joins pre) :
    fileIndexWalk t fuel d (pathText pre) = visitsBelow t fuel d pre := by
  induction fuel generalizing d pre with
  | zero => rfl
  | succ fuel ih =>
    cases htype : (t d).type with
    | file =>
      rw [visitsBelow_file htype hpre, fileIndexWalk, htype]
      unfold cutPath
      rw [List.take_of_length_le (by omega)]
    | dir =>
      rw [visitsBelow_dir htype, fileIndexWalk, htype]
      dsimp only
      congr 1
      funext o
      cases o with
      | none => rfl
      | some e =>
        dsimp only
        split
        · rfl
        -- a path without room for one more name is cut in all that is below
        · by_cases hroom : (pathText pre).length + 2 < agentFilePathMax
          · rw [fileJoinPath_cut hroom]
            cases dirlookup (t d) e.name with
            | none => rfl
            | some c =>
              dsimp only
              by_cases hfit : (pathText (pre ++ [e.name])).length < agentFilePathMax
              · have hself : cutPath (pre ++ [e.name]) = pathText (pre ++ [e.name]) :=
                  List.take_of_length_le (by omega)
                rw [hself]
                exact ih hfit (joins_snoc.2 hroom)
              · exact walk_cut hroom hfit
          · rw [fileJoinPath_none hlen hroom]
            cases dirlookup (t d) e.name with
            | none => rfl
            | some c =>
              refine (visitsBelow_nil fun x _ hjoins => hroom ?_).symm
              rw [List.append_assoc] at hjoins
              exact hjoins.first
    | free =>
      unfold visitsBelow
      rw [filesBelow, fileIndexWalk, htype]
      rfl
    | device =>
      unfold visitsBelow
      rw [filesBelow, fileIndexWalk, htype]
      rfl

theorem rootWalk_eq (t : FileTree) :
    rootWalk t = visitsBelow t (agentFilePathMax + 1) rootino [] := by
  have hlen : (pathText []).length < agentFilePathMax := by decide
  exact walk_eq_visits hlen (by decide)

/-! ### The last visit -/

/-- **An entry in use has the path of the last visit of its inode**, and no other has that inode. -/
structure LastVisits (m : ℕ → FileInode) (W : List (ℕ × List UInt8)) (x : AgentFileIndex) :
    Prop where
  last : ∀ k, (x.fileMeta k).used = true → ∃ path,
    (W.filter fun f => f.1 = (x.fileMeta k).inum).getLast? = some ((x.fileMeta k).inum, path) ∧
    x.fileMeta k = fileCacheFill (x.fileMeta k).inum path (m (x.fileMeta k).inum)
  inj : ∀ k k', (x.fileMeta k).used = true → (x.fileMeta k').used = true →
    (x.fileMeta k).inum = (x.fileMeta k').inum → k = k'

theorem LastVisits.visit {m : ℕ → FileInode} {W : List (ℕ × List UInt8)} {x : AgentFileIndex}
    (h : LastVisits m W x) (f : ℕ × List UInt8) :
    LastVisits m (W ++ [f]) (fileIndexVisit m x f) := by
  -- the visit of one inode does not change the last visit of another
  have hother : ∀ k, (x.fileMeta k).used = true → (x.fileMeta k).inum ≠ f.1 →
      ∃ path, ((W ++ [f]).filter fun g => g.1 = (x.fileMeta k).inum).getLast? =
          some ((x.fileMeta k).inum, path) ∧
        x.fileMeta k = fileCacheFill (x.fileMeta k).inum path (m (x.fileMeta k).inum) := by
    intro k hu hne
    obtain ⟨path, hlast, he⟩ := h.last k hu
    refine ⟨path, ?_, he⟩
    rw [List.filter_append, List.filter_singleton]
    simp only [Ne.symm hne, decide_false, cond_false, List.append_nil, hlast]
  refine ⟨fun k hu => ?_, fileIndexVisit_inj h.inj⟩
  rcases fileIndexVisit_spec (m := m) (f := f) h.inj with ⟨hfull, hm⟩ | ⟨k₀, hm, -, hno⟩
  · rw [hm]
    exact hother k (hfull k).1 (hfull k).2
  · rw [hm] at hu ⊢
    by_cases hk : k = k₀
    · subst hk
      rw [Function.update_self]
      refine ⟨f.2, ?_, rfl⟩
      rw [List.filter_append, List.filter_singleton]
      simp [fileCacheFill]
    · rw [Function.update_of_ne hk] at hu ⊢
      exact hother k hu (hno k hk hu)

/-- **So it is after a walk**, however many files it visits. -/
theorem lastVisits_walk {m : ℕ → FileInode} (W : List (ℕ × List UInt8)) (x : AgentFileIndex) :
    LastVisits m W (W.foldl (fileIndexVisit m) (fileIndexClear x)) := by
  induction W using List.reverseRecOn with
  | nil =>
    refine ⟨fun k hu => ?_, fun k k' hu => ?_⟩
    · cases hu
    · cases hu
  | append_singleton W f ih =>
    rw [List.foldl_append]
    exact ih.visit f

end

/-! ### Coverage -/

/-- The last path, in directory order, at which the walk visits `i`. -/
def lastPath (t : FileTree) (i : ℕ) : Option (List FileName) :=
  ((filesBelow t (agentFilePathMax + 1) rootino).filter fun x => x.1 = i ∧ Joins x.2).getLast?.map
    Prod.snd

/-- The table has an entry for every regular file. -/
def FilesFit (t : FileTree) : Prop :=
  ∃ l : List ℕ, l.length ≤ agentFileMetaMax ∧ ∀ i names, RegularAt t i names → i ∈ l

/-- The last of the paths at which a file is visited leads to it, although it may be cut. -/
def PathsLead (t : FileTree) : Prop :=
  ∀ i names, RegularAt t i names →
    ∃ last, lastPath t i = some last ∧ namei t rootino (cutPath last) = some i

section

variable {t : FileTree} {i : ℕ}

theorem mem_rootWalk_regular {f : ℕ × List UInt8} (h : f ∈ rootWalk t) :
    ∃ names, RegularAt t f.1 names := by
  rw [rootWalk_eq] at h
  obtain ⟨x, hx, rfl⟩ := List.mem_map.1 h
  obtain ⟨htype, hbelow, -⟩ := mem_filesBelow.1 (List.mem_of_mem_filter hx)
  exact ⟨x.2, hbelow, htype⟩

/-- The last visit of an inode is at its last path. -/
theorem rootWalk_last : ((rootWalk t).filter fun f => f.1 = i).getLast? =
    (lastPath t i).map fun names => (i, cutPath names) := by
  rw [rootWalk_eq]
  unfold visitsBelow lastPath
  rw [List.filter_map, List.filter_filter, List.getLast?_map, Option.map_map]
  simp only [Function.comp_def, List.nil_append, Bool.decide_and]
  cases hlast : ((filesBelow t (agentFilePathMax + 1) rootino).filter fun x =>
      decide (x.1 = i) && decide (Joins x.2)).getLast? with
  | none => rfl
  | some x =>
    have hx := List.of_mem_filter (List.mem_of_getLast? hlast)
    rw [Bool.and_eq_true, decide_eq_true_iff] at hx
    rw [Option.map_some, Option.map_some, hx.1]

theorem cutPath_copy (names : List FileName) :
    safestrcpy (cutPath names) agentFilePathMax = cutPath names := by
  have hz : (0 : UInt8) ∉ cutPath names := fun hmem =>
    pathText_notMem _ (List.mem_of_mem_take hmem)
  rw [safestrcpy_of_notMem hz]
  unfold cutPath
  rw [List.take_take, min_self]

/-- **The entry of a file**: its metadata, and its last path. -/
theorem complete_last (k : Fin agentFileMetaMax) (hu : (t.complete.fileMeta k).used = true) :
    ∃ last, lastPath t (t.complete.fileMeta k).inum = some last ∧
      t.complete.fileMeta k = fileCacheFill (t.complete.fileMeta k).inum (cutPath last)
        (t (t.complete.fileMeta k).inum).file := by
  rw [complete_meta] at hu ⊢
  obtain ⟨path, hlast, he⟩ :=
    (lastVisits_walk (m := t.files) (rootWalk t) AgentFileIndex.init).last k hu
  rw [rootWalk_last] at hlast
  obtain ⟨last, hpath, heq⟩ := Option.map_eq_some_iff.1 hlast
  refine ⟨last, hpath, ?_⟩
  rw [(Prod.mk.inj heq).2]
  exact he

/-- With entries for all files, every file that is visited has one. -/
theorem complete_visited (hfit : FilesFit t) {last : List FileName} (h : lastPath t i = some last) :
    ∃ k, (t.complete.fileMeta k).used = true ∧ (t.complete.fileMeta k).inum = i := by
  obtain ⟨l, hl, hmem⟩ := hfit
  have hW : ∀ f ∈ rootWalk t, f.1 ∈ l := by
    intro f hf
    obtain ⟨names, hr⟩ := mem_rootWalk_regular hf
    exact hmem f.1 names hr
  have hvisit : ((rootWalk t).filter fun f => f.1 = i).getLast? = some (i, cutPath last) := by
    rw [rootWalk_last, h, Option.map_some]
  rw [complete_meta]
  exact (tableOf_walk (t := AgentFileIndex.init) (m := t.files) hl hW).complete _
    (List.mem_of_mem_filter (List.mem_of_getLast? hvisit))

end

/-- **The index covers the tree** if and only if the regular files fit the table and the last path
at which each is visited leads to it. -/
theorem build_covers (x : AgentFileIndex) (t : FileTree) :
    Covers (fileIndexBuild x t.files (rootWalk t)) t ↔ FilesFit t ∧ PathsLead t := by
  rw [fileIndexBuild_eq]
  constructor
  · intro h
    refine ⟨⟨(List.finRange agentFileMetaMax).map fun k => (t.complete.fileMeta k).inum, ?_,
      fun i names hr => ?_⟩, fun i names hr => ?_⟩
    · rw [List.length_map, List.length_finRange]
    · obtain ⟨k, -, hi, -⟩ := h i names hr
      exact List.mem_map.2 ⟨k, List.mem_finRange k, hi⟩
    · obtain ⟨k, hu, hi, -, -, -, hpath⟩ := h i names hr
      obtain ⟨last, hlast, he⟩ := complete_last k hu
      rw [hi] at hlast he
      refine ⟨last, hlast, ?_⟩
      rw [he] at hpath
      change namei t rootino (safestrcpy (cutPath last) agentFilePathMax) = some i at hpath
      rwa [cutPath_copy] at hpath
  · rintro ⟨hfit, hlead⟩ i names hr
    obtain ⟨last, hlast, hpath⟩ := hlead i names hr
    obtain ⟨k, hu, hi⟩ := complete_visited hfit hlast
    obtain ⟨last', hlast', he⟩ := complete_last k hu
    rw [hi] at hlast' he
    obtain rfl := Option.some.inj (hlast.symm.trans hlast')
    have hinj := (lastVisits_walk (m := t.files) (rootWalk t) AgentFileIndex.init).inj
    rw [← complete_meta] at hinj
    refine ⟨k, hu, hi, fun k' hu' hi' => hinj k' k hu' hu (hi'.trans hi.symm), ?_, ?_, ?_⟩
    · rw [he]
      rfl
    · rw [he]
      rfl
    · rw [he]
      change namei t rootino (safestrcpy (cutPath last) agentFilePathMax) = some i
      rw [cutPath_copy]
      exact hpath

/-- A directory with one entry besides its `.` and `..`. -/
def dirWith (inum dp : ℕ) (name : String) : DiskInode :=
  { newInode .dir inum dp with
    entries := (newInode .dir inum dp).entries ++
      [(FileName.ofBytes (lit name)).map fun n => ⟨inum + 1, n⟩] }

/-- Five directories below the root, the path of the last of which has 64 bytes, and a file in it. -/
def deepTree : FileTree := fun inum =>
  match inum with
  | 1 => dirWith 1 1 "workspace_main"
  | 2 => dirWith 2 1 "agent_projects"
  | 3 => dirWith 3 2 "kernel_project"
  | 4 => dirWith 4 3 "documentations"
  | 5 => dirWith 5 4 "docs"
  | 6 => dirWith 6 5 "plan"
  | 7 => newInode .file 7 6
  | _ => DiskInode.free

theorem deepTree_walk : rootWalk deepTree = [] := by decide +kernel

theorem deepTree_file : ∃ names, RegularAt deepTree 7 names := by
  have hbelow : ((filesBelow deepTree 7 rootino).find? fun x => x.1 == 7).isSome = true := by
    decide +kernel
  obtain ⟨x, hx⟩ := Option.isSome_iff_exists.1 hbelow
  obtain ⟨htype, hb, -⟩ := mem_filesBelow.1 (List.mem_of_find?_eq_some hx)
  have hi : x.1 = 7 := by simpa using List.find?_some hx
  rw [hi] at htype hb
  exact ⟨x.2, hb, htype⟩

/-- **The file has no entry**, and no build says so. -/
theorem deepTree_uncovered : ∃ x names, RegularAt deepTree 7 names ∧
    ¬ Covers (fileIndexBuild x deepTree.files (rootWalk deepTree)) deepTree := by
  obtain ⟨names, hr⟩ := deepTree_file
  refine ⟨AgentFileIndex.init, names, hr, fun h => ?_⟩
  rw [fileIndexBuild_eq] at h
  obtain ⟨k, hu, -⟩ := h 7 names hr
  obtain ⟨f, hf, -⟩ := complete_filled k hu
  rw [deepTree_walk] at hf
  exact List.not_mem_nil hf

end AgentOS
