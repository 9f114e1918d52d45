import AgentOS.Model.FileTree

/-!
# The files below the root

* `Below t d names i`: the names lead from `d` to `i`, through directories and without `.` and
  `..`; `RegularAt`: so from the root to a regular file.
* `mem_rootWalk`: on a tree whose paths fit, the walk visits every regular file below the root, at
  each of its paths, and nothing else.
* `namei_pathText`: `namei` resolves these paths.
-/

namespace AgentOS

/-! ### Paths -/

/-- A name behind a path. -/
def joined (path name : List UInt8) : List UInt8 :=
  if path = [] then name else path ++ charSlash :: name

/-- The text of a path. -/
def pathText (names : List FileName) : List UInt8 :=
  names.foldl (fun path name => joined path name.bytes) []

/-- **The names lead from `d` to `i`.** -/
inductive Below (t : FileTree) : ℕ → List FileName → ℕ → Prop
  | here (d : ℕ) : Below t d [] d
  | down {d c i : ℕ} {name : FileName} {names : List FileName} : (t d).type = .dir →
      name.isDots = false → dirlookup (t d) name = some c → Below t c names i →
      Below t d (name :: names) i

/-- The names lead from the root to the regular file `i`. -/
structure RegularAt (t : FileTree) (i : ℕ) (names : List FileName) : Prop where
  below : Below t rootino names i
  type : (t i).type = .file

/-- **The paths of the regular files fit, and the table has room for them.** -/
structure TreeFits (t : FileTree) : Prop where
  paths : ∀ i names, RegularAt t i names → (pathText names).length < agentFilePathMax
  files : ∃ l : List ℕ, l.length ≤ agentFileMetaMax ∧ ∀ i names, RegularAt t i names → i ∈ l

section

variable {t : FileTree} {d c i fuel n : ℕ} {name : FileName} {names pre : List FileName}
  {path base bytes p : List UInt8}

theorem FileName.zero_notMem (name : FileName) : (0 : UInt8) ∉ name.bytes := fun h =>
  (name.char 0 h).1 rfl

theorem FileName.length_pos (name : FileName) : 0 < name.bytes.length :=
  List.length_pos_iff.2 name.ne

theorem joined_length (path : List UInt8) (hb : 0 < bytes.length) :
    path.length < (joined path bytes).length := by
  unfold joined
  split
  · rename_i hp
    rw [hp]
    exact hb
  · rw [List.length_append, List.length_cons]
    omega

theorem joined_notMem (hp : (0 : UInt8) ∉ path) (hb : (0 : UInt8) ∉ bytes) :
    (0 : UInt8) ∉ joined path bytes := by
  unfold joined
  split
  · exact hb
  · intro h
    rcases List.mem_append.1 h with h | h
    · exact hp h
    · rcases List.mem_cons.1 h with h | h
      · exact absurd h (by decide)
      · exact hb h

theorem pathText_snoc (names : List FileName) (name : FileName) :
    pathText (names ++ [name]) = joined (pathText names) name.bytes := by
  unfold pathText
  rw [List.foldl_append]
  rfl

theorem pathText_length_le (pre names : List FileName) :
    (pathText pre).length ≤ (pathText (pre ++ names)).length := by
  induction names generalizing pre with
  | nil => rw [List.append_nil]
  | cons name names ih =>
    have hstep := joined_length (pathText pre) name.length_pos
    rw [← pathText_snoc] at hstep
    have hrest := ih (pre ++ [name])
    rw [List.append_assoc, List.singleton_append] at hrest
    omega

theorem pathText_notMem (names : List FileName) : (0 : UInt8) ∉ pathText names := by
  induction names using List.reverseRecOn with
  | nil => exact List.not_mem_nil
  | append_singleton names name ih =>
    rw [pathText_snoc]
    exact joined_notMem ih name.zero_notMem

theorem Below.snoc (h : Below t d names i) (hi : (t i).type = .dir) (hn : name.isDots = false)
    (hc : dirlookup (t i) name = some c) : Below t d (names ++ [name]) c := by
  induction h with
  | here d => exact .down hi hn hc (.here c)
  | down hd hn' hc' _ ih => exact .down hd hn' hc' (ih hi hc)

/-! ### `file_join_path` -/

theorem safestrcpy_of_notMem {s : List UInt8} (h : (0 : UInt8) ∉ s) :
    safestrcpy s n = s.take (n - 1) := by
  unfold safestrcpy
  rw [cstr_of_notMem h]

/-- A joined path that fits is as it should be. -/
theorem fileJoinPath_fits (hb : (0 : UInt8) ∉ base) (hn : (0 : UInt8) ∉ bytes)
    (hpos : 0 < bytes.length) (h : (joined base bytes).length < n) :
    fileJoinPath base bytes n = some (joined base bytes) := by
  unfold fileJoinPath joined at *
  rw [cstr_of_notMem hb]
  split at h
  · rename_i he
    rw [if_pos he, if_neg (by omega), safestrcpy_of_notMem hn, List.take_of_length_le (by omega),
      if_pos he]
  · rename_i he
    rw [List.length_append, List.length_cons] at h
    have hout : safestrcpy base n = base := by
      rw [safestrcpy_of_notMem hb, List.take_of_length_le (by omega)]
    rw [if_neg he, if_neg he]
    dsimp only
    rw [hout, if_neg (by omega), if_neg (by omega), safestrcpy_of_notMem hn,
      List.take_of_length_le (by omega)]

/-- One that does not is cut so that it fills the buffer. -/
theorem fileJoinPath_over (hb : (0 : UInt8) ∉ base) (hn : (0 : UInt8) ∉ bytes)
    (hlen : base.length < n) (h : n ≤ (joined base bytes).length)
    (hp : fileJoinPath base bytes n = some p) : p.length + 1 = n ∧ (0 : UInt8) ∉ p := by
  unfold fileJoinPath joined at *
  rw [cstr_of_notMem hb] at hp
  split at h
  · rename_i he
    rw [if_pos he] at hp
    split at hp
    · cases hp
    · cases hp
      rw [safestrcpy_of_notMem hn, List.length_take]
      exact ⟨by omega, fun h => hn (List.mem_of_mem_take h)⟩
  · rename_i he
    rw [List.length_append, List.length_cons] at h
    have hout : safestrcpy base n = base := by
      rw [safestrcpy_of_notMem hb, List.take_of_length_le (by omega)]
    rw [if_neg he] at hp
    dsimp only at hp
    rw [hout] at hp
    split at hp
    · cases hp
    · split at hp
      · cases hp
      · cases hp
        rw [safestrcpy_of_notMem hn]
        refine ⟨?_, fun hmem => ?_⟩
        · rw [List.length_append, List.length_cons, List.length_take]
          omega
        · rcases List.mem_append.1 hmem with hmem | hmem
          · exact hb hmem
          · rcases List.mem_cons.1 hmem with hmem | hmem
            · exact absurd hmem (by decide)
            · exact hn (List.mem_of_mem_take hmem)

/-- Nothing is joined behind a path that fills the buffer. -/
theorem fileJoinPath_full (hb : (0 : UInt8) ∉ base) (hne : base ≠ []) (h : base.length + 1 = n) :
    fileJoinPath base bytes n = none := by
  unfold fileJoinPath
  have hout : safestrcpy base n = base := by
    rw [safestrcpy_of_notMem hb, List.take_of_length_le (by omega)]
  rw [cstr_of_notMem hb, if_neg hne]
  dsimp only
  rw [hout, if_pos (by omega)]

/-! ### The walk -/

/-- **One level of the walk in closed form.** -/
theorem mem_walk_succ {x : ℕ × List UInt8} : x ∈ fileIndexWalk t (fuel + 1) d path ↔
    ((t d).type = .file ∧ x = (d, path)) ∨
    ((t d).type = .dir ∧ ∃ e childPath c, some e ∈ (t d).entries ∧ e.name.isDots = false ∧
      fileJoinPath path e.name.bytes agentFilePathMax = some childPath ∧
      dirlookup (t d) e.name = some c ∧ x ∈ fileIndexWalk t fuel c childPath) := by
  rw [fileIndexWalk]
  cases htype : (t d).type with
  | file => simp
  | dir =>
    simp only [List.mem_flatMap, reduceCtorEq, false_and, true_and, false_or]
    constructor
    · rintro ⟨o, ho, hx⟩
      split at hx
      · exact (List.not_mem_nil hx).elim
      · rename_i e
        split at hx
        · exact (List.not_mem_nil hx).elim
        · rename_i hdots
          split at hx
          · exact (List.not_mem_nil hx).elim
          · rename_i childPath hjoin
            split at hx
            · exact (List.not_mem_nil hx).elim
            · rename_i c hc
              exact ⟨e, childPath, c, ho, by simpa using hdots, hjoin, hc, hx⟩
    · rintro ⟨e, childPath, c, he, hdots, hjoin, hc, hx⟩
      refine ⟨some e, he, ?_⟩
      simp only [hdots, hjoin, hc]
      exact hx
  | free => simp
  | device => simp

/-- Below a path that fills the buffer the walk visits nothing. -/
theorem walk_full (hlen : path.length + 1 = agentFilePathMax) (hz : (0 : UInt8) ∉ path)
    (hd : (t d).type ≠ .file) (x : ℕ × List UInt8) : x ∉ fileIndexWalk t fuel d path := by
  intro hx
  cases fuel with
  | zero => exact List.not_mem_nil hx
  | succ fuel =>
    rcases mem_walk_succ.1 hx with ⟨hfile, -⟩ | ⟨-, e, childPath, c, -, -, hjoin, -⟩
    · exact hd hfile
    · have hne : path ≠ [] := by
        rintro rfl
        exact absurd hlen (by decide)
      rw [fileJoinPath_full hz hne hlen] at hjoin
      cases hjoin

/-- What a walk visits is a regular file at the path that it has there. -/
theorem walk_sound (hfits : TreeFits t) (hd : Below t rootino pre d)
    (hlen : (pathText pre).length < agentFilePathMax) {x : ℕ × List UInt8}
    (hx : x ∈ fileIndexWalk t fuel d (pathText pre)) :
    ∃ names, RegularAt t x.1 names ∧ x.2 = pathText names := by
  induction fuel generalizing d pre with
  | zero => exact (List.not_mem_nil hx).elim
  | succ fuel ih =>
    rcases mem_walk_succ.1 hx with ⟨hfile, rfl⟩ | ⟨hdir, e, childPath, c, -, hdots, hjoin, hc, hx'⟩
    · exact ⟨pre, ⟨hd, hfile⟩, rfl⟩
    · have hchild : Below t rootino (pre ++ [e.name]) c := hd.snoc hdir hdots hc
      have hz := pathText_notMem pre
      by_cases hfit : (joined (pathText pre) e.name.bytes).length < agentFilePathMax
      · rw [fileJoinPath_fits hz e.name.zero_notMem e.name.length_pos hfit] at hjoin
        cases hjoin
        rw [← pathText_snoc] at hx' hfit
        exact ih hchild hfit hx'
      · -- a child whose path does not fit is no regular file, and a directory's joins all fail
        obtain ⟨hfull, hz'⟩ :=
          fileJoinPath_over hz e.name.zero_notMem hlen (Nat.le_of_not_lt hfit) hjoin
        have hnofile : (t c).type ≠ .file := by
          intro hfile
          have hpath := hfits.paths c _ ⟨hchild, hfile⟩
          rw [pathText_snoc] at hpath
          exact hfit hpath
        exact absurd hx' (walk_full hfull hz' hnofile x)

/-- An entry that `dirlookup` finds is in the directory. -/
theorem mem_of_dirlookup {dir : DiskInode} (h : dirlookup dir name = some c) :
    ∃ e, some e ∈ dir.entries ∧ e.name = name ∧ e.inum = c := by
  unfold dirlookup at h
  obtain ⟨o, ho, h'⟩ := List.exists_of_findSome?_eq_some h
  cases o with
  | none => cases h'
  | some e =>
    rw [Option.bind_some] at h'
    split at h'
    · exact ⟨e, ho, ‹_›, Option.some.inj h'⟩
    · cases h'

/-- A walk with fuel for the paths that fit visits every regular file below it. -/
theorem walk_complete (hfits : TreeFits t) (h : Below t d names i) (hi : (t i).type = .file)
    (hd : Below t rootino pre d) (hroot : RegularAt t i (pre ++ names))
    (hfuel : agentFilePathMax < fuel + (pathText pre).length) :
    (i, pathText (pre ++ names)) ∈ fileIndexWalk t fuel d (pathText pre) := by
  induction h generalizing pre fuel with
  | here d =>
    have hpath := hfits.paths _ _ hroot
    rw [List.append_nil] at *
    obtain ⟨fuel, rfl⟩ : ∃ n, fuel = n + 1 := ⟨fuel - 1, by omega⟩
    exact mem_walk_succ.2 (Or.inl ⟨hi, rfl⟩)
  | @down d c i name names hdir hdots hc hrest ih =>
    have hpath := hfits.paths _ _ hroot
    have hpre := pathText_length_le pre (name :: names)
    obtain ⟨fuel, rfl⟩ : ∃ n, fuel = n + 1 := ⟨fuel - 1, by omega⟩
    obtain ⟨e, he, rfl, -⟩ := mem_of_dirlookup hc
    have hassoc : pre ++ e.name :: names = (pre ++ [e.name]) ++ names := by simp
    have hstep := joined_length (pathText pre) e.name.length_pos
    have hchild := pathText_length_le (pre ++ [e.name]) names
    rw [← hassoc, pathText_snoc] at hchild
    refine mem_walk_succ.2 (Or.inr ⟨hdir, e, joined (pathText pre) e.name.bytes, c, he, hdots,
      fileJoinPath_fits (pathText_notMem pre) e.name.zero_notMem e.name.length_pos (by omega), hc,
      ?_⟩)
    rw [hassoc, ← pathText_snoc]
    rw [hassoc] at hroot
    refine ih hi (hd.snoc hdir hdots hc) hroot ?_
    rw [pathText_snoc]
    omega

/-- **The walk from the root visits the regular files, at their paths.** -/
theorem mem_rootWalk (hfits : TreeFits t) {x : ℕ × List UInt8} :
    x ∈ rootWalk t ↔ ∃ names, RegularAt t x.1 names ∧ x.2 = pathText names := by
  constructor
  · intro hx
    have hroot : Below t rootino [] rootino := .here rootino
    exact walk_sound hfits hroot (by decide) hx
  · rintro ⟨names, hr, hx⟩
    have hroot : Below t rootino [] rootino := .here rootino
    have hmem : (x.1, pathText ([] ++ names)) ∈
        fileIndexWalk t (agentFilePathMax + 1) rootino (pathText []) :=
      walk_complete hfits hr.below hr.type hroot hr (by decide)
    rw [List.nil_append, ← hx] at hmem
    exact hmem

/-- In a tree without directories below the root, a regular file has a path of one name. -/
theorem regularAt_flat {l : List ℕ} (hroot : (t rootino).type = .dir)
    (h : ∀ o ∈ (t rootino).entries, ∀ e ∈ o, e.name.isDots = false →
      (t e.inum).type ≠ .dir ∧ e.inum ∈ l) (hr : RegularAt t i names) :
    ∃ name : FileName, names = [name] ∧ i ∈ l := by
  cases names with
  | nil =>
    cases hr.below
    exact absurd (hroot.symm.trans hr.type) (by decide)
  | cons name names =>
    obtain ⟨hbelow, htype⟩ := hr
    cases hbelow with
    | down _ hn hc hrest =>
      obtain ⟨e, he, rfl, rfl⟩ := mem_of_dirlookup hc
      obtain ⟨hnodir, hmem⟩ := h (some e) he e rfl hn
      cases hrest with
      | here => exact ⟨e.name, rfl, hmem⟩
      | down hdir => exact absurd hdir hnodir

theorem treeFits_flat {l : List ℕ} (hroot : (t rootino).type = .dir)
    (hl : l.length ≤ agentFileMetaMax)
    (h : ∀ o ∈ (t rootino).entries, ∀ e ∈ o, e.name.isDots = false →
      (t e.inum).type ≠ .dir ∧ e.inum ∈ l) : TreeFits t := by
  refine ⟨fun i names hr => ?_, l, hl, fun i names hr => ?_⟩
  · obtain ⟨name, rfl, -⟩ := regularAt_flat hroot h hr
    exact lt_of_le_of_lt name.length_le (by decide)
  · obtain ⟨name, -, hi⟩ := regularAt_flat hroot h hr
    exact hi

/-! ### `namei` -/

theorem FileName.ofBytes_bytes (name : FileName) : FileName.ofBytes name.bytes = some name := by
  unfold FileName.ofBytes
  rw [dif_pos ⟨name.ne, name.length_le, name.char⟩]

theorem pathText_ne_nil (h : names ≠ []) : pathText names ≠ [] := by
  cases names with
  | nil => exact absurd rfl h
  | cons name names =>
    have hlen := pathText_length_le [name] names
    have hpos : 0 < (pathText [name]).length := name.length_pos
    intro he
    rw [List.singleton_append, he, List.length_nil] at hlen
    omega

theorem pathText_cons (name : FileName) (h : names ≠ []) :
    pathText (name :: names) = name.bytes ++ charSlash :: pathText names := by
  induction names using List.reverseRecOn with
  | nil => exact absurd rfl h
  | append_singleton names last ih =>
    have hfirst : pathText (name :: names) ≠ [] := pathText_ne_nil (List.cons_ne_nil _ _)
    rw [← List.cons_append, pathText_snoc, pathText_snoc]
    unfold joined
    rw [if_neg hfirst]
    by_cases hn : names = []
    · subst hn
      rfl
    · rw [ih hn, if_neg (pathText_ne_nil hn), List.append_assoc, List.cons_append]

/-- The text of a path does not begin with a slash. -/
theorem pathText_dropWhile (names : List FileName) :
    (pathText names).dropWhile (· == charSlash) = pathText names := by
  cases names with
  | nil => rfl
  | cons name names =>
    have hhead : ∃ b l, pathText (name :: names) = b :: l ∧ b ≠ charSlash := by
      obtain ⟨b, l, hbl⟩ := List.exists_cons_of_ne_nil name.ne
      have hb := (name.char b (by rw [hbl]; exact List.mem_cons_self)).2
      by_cases hn : names = []
      · subst hn
        exact ⟨b, l, hbl, hb⟩
      · refine ⟨b, l ++ charSlash :: pathText names, ?_, hb⟩
        rw [pathText_cons name hn, hbl]
        rfl
    obtain ⟨b, l, hbl, hb⟩ := hhead
    rw [hbl, List.dropWhile_cons_of_neg (by simpa using hb)]

/-- `skipelem` takes one name off a path. -/
theorem skipelem_pathText (name : FileName) (names : List FileName) :
    skipelem (pathText (name :: names)) = some (name, pathText names) := by
  have hname : ∀ b ∈ name.bytes, (b != charSlash) = true := by
    intro b hb
    simpa using (name.char b hb).2
  have htake : name.bytes.take dirsiz = name.bytes := List.take_of_length_le name.length_le
  unfold skipelem
  dsimp only
  rw [pathText_dropWhile]
  by_cases hn : names = []
  · subst hn
    have hself : name.bytes.takeWhile (· != charSlash) = name.bytes :=
      List.takeWhile_eq_self_iff.2 hname
    rw [show pathText [name] = name.bytes from rfl, hself, htake, FileName.ofBytes_bytes,
      List.drop_length]
    rfl
  · have hself : (name.bytes ++ charSlash :: pathText names).takeWhile (· != charSlash) =
        name.bytes := by
      rw [List.takeWhile_append_of_pos hname, List.takeWhile_cons_of_neg (by simp),
        List.append_nil]
    rw [pathText_cons name hn, hself, htake, FileName.ofBytes_bytes, List.drop_left,
      List.dropWhile_cons_of_pos (by simp), pathText_dropWhile]
    rfl

theorem namexLoop_below (h : Below t d names i) (hfuel : names.length < fuel) :
    namexLoop t false fuel d (pathText names) = some (i, none) := by
  induction h generalizing fuel with
  | here d =>
    obtain ⟨fuel, rfl⟩ : ∃ n, fuel = n + 1 := ⟨fuel - 1, by omega⟩
    rfl
  | @down d c i name names hdir _ hc _ ih =>
    obtain ⟨fuel, rfl⟩ : ∃ n, fuel = n + 1 := ⟨fuel - 1, by omega⟩
    rw [List.length_cons] at hfuel
    rw [namexLoop, skipelem_pathText]
    dsimp only
    rw [if_neg (by simp [hdir]), if_neg (by simp), hc]
    exact ih (by omega)

theorem length_le_pathText (names : List FileName) : names.length ≤ (pathText names).length := by
  induction names using List.reverseRecOn with
  | nil => exact Nat.zero_le _
  | append_singleton names name ih =>
    have hstep := joined_length (pathText names) name.length_pos
    rw [pathText_snoc, List.length_append, List.length_singleton]
    omega

/-- **`namei` resolves the paths below the root.** -/
theorem namei_pathText (h : Below t rootino names i) :
    namei t rootino (pathText names) = some i := by
  have hlen := length_le_pathText names
  unfold namei namex
  dsimp only
  rw [cstr_of_notMem (pathText_notMem names), ite_self,
    namexLoop_below h (Nat.lt_succ_of_le hlen)]
  rfl

end

end AgentOS
