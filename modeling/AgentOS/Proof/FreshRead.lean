import AgentOS.Proof.ToolCall
import AgentOS.Proof.Validate

/-!
# A fresh read validates

* `Present`: an inode has an entry in the version table; `Present.find`, `Present.next`: calls on
  other inodes leave it alone.
* `Positive`: no entry has version 0; so it is in every reachable table.
* `Available`: the table can give an inode a version. `get_available`, `get_unavailable`: what a read
  records.
* `fresh_read_validates`: the node of a read is valid, as long as its file does not change, if and
  only if the table could give the file a version when it was read.
* `fresh_read_deleted`: a file that has the inode number of a file that was removed.
-/

namespace AgentOS

open Machine

namespace FileVersions

/-- The inode has the entry `e` in slot `i`. -/
structure Present (t : FileVersions) (k : InodeKey) (i : Fin agentFileVersionMax)
    (e : AgentFileVersion) : Prop where
  first : Table.first t (isFor k) = some i
  entry : t i = e

/-- No entry has version 0. -/
def Positive (t : FileVersions) : Prop := ∀ i, (t i).used = true → (t i).version ≠ 0

/-- **The table can give the inode a version**: its entry is not marked as deleted, or there is room
for one. -/
def Available (t : FileVersions) (k : InodeKey) : Prop :=
  match Table.first t (isFor k) with
  | some i => (t i).deleted = false
  | none => ∃ i, (t i).used = false

section

variable {t t' : FileVersions} {k k' : InodeKey} {i : Fin agentFileVersionMax} {e : AgentFileVersion}

/-! ### Entries stay -/

theorem Present.isFor (h : Present t k i e) : isFor k (t i) = true := Table.first_some h.first

/-- A store into the entry of another inode, or into a free one, for another inode. -/
theorem Present.store (h : Present t k i e) {j : Fin agentFileVersionMax} {x : AgentFileVersion}
    (hold : FileVersions.isFor k (t j) = false) (hx : FileVersions.isFor k x = false) :
    Present (Function.update t j x) k i e := by
  have hne : i ≠ j := by
    rintro rfl
    rw [h.isFor] at hold
    cases hold
  exact ⟨(Table.first_update (hx.trans hold.symm)).trans h.first,
    (Function.update_of_ne hne ..).trans h.entry⟩

/-- A lookup leaves the entries that are there. -/
theorem Present.find (h : Present t k i e) (k' : InodeKey) : Present (fileVersionFind t k').1 k i e := by
  unfold fileVersionFind
  cases hfirst : Table.first t (FileVersions.isFor k') with
  | some j => exact h
  | none =>
    dsimp only
    cases hfree : Table.first t fun x => !x.used with
    | none => exact h
    | some j =>
      have hj : (t j).used = false := by simpa using Table.first_some hfree
      have hne : k ≠ k' := by
        rintro rfl
        rw [h.first] at hfirst
        cases hfirst
      have hfor : FileVersions.isFor k' ⟨true, k'.1, k'.2, 1, false⟩ = true := by
        simp [FileVersions.isFor]
      refine h.store ?_ (isFor_ne hfor hne)
      unfold FileVersions.isFor
      rw [hj]
      rfl

theorem get_table (t : FileVersions) (k : InodeKey) :
    (agentfsInodeVersionGet t k).1 = (fileVersionFind t k).1 := by
  unfold agentfsInodeVersionGet
  split <;> rename_i heq <;> rw [heq]

/-- A lookup of an inode that is there. -/
theorem Present.get (h : Present t k i e) :
    agentfsInodeVersionGet t k = (t, if e.deleted then 0 else e.version) := by
  unfold agentfsInodeVersionGet
  rw [find_of_some h.first]
  dsimp only
  rw [h.entry]

/-- A next version of another inode. -/
theorem Present.next (h : Present t k i e) (hne : k ≠ k') (ht : NextVersion t k' t') :
    Present t' k i e := by
  have hfind := h.find k'
  cases ht with
  | full hnone => exact hfind
  | stored j x hj hx hv =>
    have hfor := ((find_spec t k').2 j hj).1
    exact hfind.store (isFor_ne hfor hne) (isFor_ne (hx.trans hfor) hne)

/-- The call changes another inode, or none. -/
def Spares (k : InodeKey) : FileVersions → VersionLabel → Prop
  | _, .get _ => True
  | _, .bump k' | _, .remove k' => k' ≠ k

instance decidableSpares (k : InodeKey) (t : FileVersions) (l : VersionLabel) :
    Decidable (Spares k t l) := by
  cases l <;> unfold Spares <;> infer_instance

/-- **A call that spares the inode** leaves its entry alone. -/
theorem Present.step (h : Present t k i e) {l : VersionLabel} (hok : Spares k t l)
    (hn : t.next l = some t') : Present t' k i e := by
  cases l with
  | get k' =>
    obtain rfl := Option.some.inj hn
    rw [get_table]
    exact h.find k'
  | bump k' =>
    obtain rfl := Option.some.inj hn
    exact h.next (Ne.symm hok) (bump_next t k')
  | remove k' =>
    obtain rfl := Option.some.inj hn
    exact h.next (Ne.symm hok) (remove_next t k')

/-! ### Versions are positive -/

theorem versionSucc_ne_zero (v : ℕ) : versionSucc v ≠ 0 := by
  unfold versionSucc
  split
  · exact Nat.one_ne_zero
  · assumption

theorem Positive.store (h : Positive t) {x : AgentFileVersion} (hx : x.version ≠ 0)
    (j : Fin agentFileVersionMax) : Positive (Function.update t j x) := by
  intro i' hi'
  by_cases hij : i' = j
  · subst hij
    rw [Function.update_self]
    exact hx
  · rw [Function.update_of_ne hij] at hi' ⊢
    exact h i' hi'

theorem Positive.find (h : Positive t) (k : InodeKey) : Positive (fileVersionFind t k).1 := by
  unfold fileVersionFind
  split
  · exact h
  · split
    · exact h
    · exact h.store Nat.one_ne_zero _

theorem Positive.next (h : Positive t) (ht : NextVersion t k t') : Positive t' := by
  have hfind := h.find k
  cases ht with
  | full hnone => exact hfind
  | stored j x hj hx hv =>
    refine hfind.store ?_ j
    rw [hv]
    exact versionSucc_ne_zero _

theorem Positive.step (h : Positive t) {l : VersionLabel} (hn : t.next l = some t') : Positive t' := by
  cases l with
  | get k =>
    obtain rfl := Option.some.inj hn
    rw [get_table]
    exact h.find k
  | bump k =>
    obtain rfl := Option.some.inj hn
    exact h.next (bump_next t k)
  | remove k =>
    obtain rfl := Option.some.inj hn
    exact h.next (remove_next t k)

theorem positive_of_reach {tr : List VersionLabel} (h : versionMachine.Reach always tr t) :
    Positive t := by
  refine h.inv (P := Positive) ?_ (fun _ _ _ hs _ hn => hs.step hn)
  rintro _ rfl i hi
  cases hi

/-! ### What a read records -/

/-- A version that the table can give is that of the entry it leaves. -/
theorem get_available (h : Available t k) : ∃ i e, Present (agentfsInodeVersionGet t k).1 k i e ∧
    e.used = true ∧ e.deleted = false ∧ (agentfsInodeVersionGet t k).2 = e.version := by
  unfold Available at h
  cases hfirst : Table.first t (isFor k) with
  | some i =>
    rw [hfirst] at h
    have hpresent : Present t k i (t i) := ⟨hfirst, rfl⟩
    have hused : (t i).used = true := by
      have hfor := hpresent.isFor
      unfold FileVersions.isFor at hfor
      simp only [Bool.and_eq_true] at hfor
      exact hfor.1.1
    dsimp only at h
    rw [hpresent.get, if_neg (by rw [h]; decide)]
    exact ⟨i, t i, hpresent, hused, h, rfl⟩
  | none =>
    rw [hfirst] at h
    obtain ⟨j, hj⟩ := h
    obtain ⟨i, hi⟩ : ∃ i, Table.first t (fun x => !x.used) = some i := by
      cases hfree : Table.first t fun x => !x.used with
      | some i => exact ⟨i, rfl⟩
      | none =>
        have hall := Table.first_none.1 hfree j
        rw [hj] at hall
        cases hall
    have hfind : fileVersionFind t k =
        (Function.update t i ⟨true, k.1, k.2, 1, false⟩, some i) := by
      unfold fileVersionFind
      rw [hfirst, hi]
    have hnew := ((find_spec t k).2 i (by rw [hfind])).2
    rw [hfind] at hnew
    unfold agentfsInodeVersionGet
    rw [hfind]
    dsimp only
    rw [Function.update_self]
    exact ⟨i, _, ⟨hnew, Function.update_self ..⟩, rfl, rfl, rfl⟩

/-- A read of any other inode records version 0. -/
theorem get_unavailable (h : ¬ Available t k) : (agentfsInodeVersionGet t k).2 = 0 := by
  unfold Available at h
  cases hfirst : Table.first t (isFor k) with
  | some i =>
    rw [hfirst] at h
    have hpresent : Present t k i (t i) := ⟨hfirst, rfl⟩
    have hdeleted : (t i).deleted = true := by simpa using h
    rw [hpresent.get, if_pos hdeleted]
  | none =>
    rw [hfirst] at h
    have hfull : Table.first t (fun x => !x.used) = none := by
      rw [Table.first_none]
      intro j
      by_contra hj
      exact h ⟨j, by simpa using hj⟩
    have hfind : fileVersionFind t k = (t, none) := by
      unfold fileVersionFind
      rw [hfirst, hfull]
    unfold agentfsInodeVersionGet
    rw [hfind]

end

end FileVersions

/-! ### The read and its validation -/

open FileVersions

section

variable {p : Proc} {m m' : Memory} {t t₁ t₂ : FileVersions} {tool params : List UInt8} {env : ToolWorld}
  {c c' : ContextState} {resp : AgentToolResponse} {f : ReadFile} {sequence : ℕ}
  {d : AgentContextDep}

/-- The dependency that `agent_context_validate` looks at. -/
def validated (c : ContextState) (sequence : ℕ) : Option AgentContextDep :=
  (liveDeps c).find? fun d => d.sequence == validateSequence c sequence

/-- **What a validation answers** about a dependency on a file. -/
theorem validate_of_validated (h : validated c sequence = some d) {k : InodeKey} {v : ℕ}
    (hd : depRead d = some (k, v)) :
    let r := (agentContextValidate c t sequence).2
    let current := (t.agentfsInodeVersionGet k).2
    r.recordedVersion = v ∧ r.currentVersion = current ∧
      (r.state = .valid ↔ current ≠ 0 ∧ current = v) := by
  intro r current
  unfold validated liveDeps at h
  rw [List.find?_map] at h
  obtain ⟨i, hi, rfl⟩ := Option.map_eq_some_iff.1 h
  unfold depRead at hd
  split at hd
  · rename_i hused
    obtain ⟨rfl, rfl⟩ : ((c.contextDeps i).dev, (c.contextDeps i).inum) = k ∧
        (c.contextDeps i).version = v := by simpa using hd
    have hr : r = (agentContextValidate c t sequence).2 := rfl
    have hfind : (List.range c.contextNodeCount).find?
        (fun i => (c.contextDeps i).sequence == validateSequence c sequence) = some i := hi
    unfold agentContextValidate at hr
    dsimp only at hr
    rw [hfind] at hr
    dsimp only at hr
    rw [if_neg (by rw [hused]; decide)] at hr
    rw [hr]
    refine ⟨rfl, rfl, ?_⟩
    change (if current = 0 then AgentContextValidity.deleted
      else if current ≠ (c.contextDeps i).version then .stale else .valid) = .valid ↔ _
    by_cases h0 : current = 0
    · simp [h0]
    · by_cases hv : current = (c.contextDeps i).version <;> simp [h0, hv]
  · cases hd

/-- The last node is found by its number, and by zero, unless an older one has that number. -/
theorem validated_last (hlast : (liveDeps c).getLast? = some d)
    (hfresh : ∀ e ∈ (liveDeps c).dropLast, e.sequence ≠ d.sequence)
    (hseq : sequence = 0 ∨ sequence = d.sequence) :
    validated c sequence = (liveDeps c).getLast? := by
  have hsplit : (liveDeps c).dropLast ++ [d] = liveDeps c :=
    List.dropLast_append_getLast? d hlast
  have hpos : 0 < c.contextNodeCount := by
    rw [← liveDeps_length, ← hsplit, List.length_append, List.length_singleton]
    omega
  have hd : c.contextDeps (c.contextNodeCount - 1) = d := by
    rw [List.getLast?_eq_getElem?, liveDeps_length,
      List.getElem?_eq_getElem (by rw [liveDeps_length]; omega), getElem_liveDeps] at hlast
    exact Option.some.inj hlast
  have hnumber : validateSequence c sequence = d.sequence := by
    unfold validateSequence
    split
    · rw [hd]
    · rename_i hnot
      rcases hseq with h0 | hn
      · exact absurd ⟨h0, hpos⟩ hnot
      · exact hn
  unfold validated
  rw [hlast, hnumber, ← hsplit, List.find?_append]
  have hnone : (liveDeps c).dropLast.find? (fun e => e.sequence == d.sequence) = none := by
    rw [List.find?_eq_none]
    intro e he
    simpa using hfresh e he
  rw [hnone]
  simp

/-- The version that a tool call records is the one the table gives it. -/
theorem toolCall_version (hcall : agentToolCall p m t tool params env = some (c', m', t₁, resp))
    (hread : toolReads p t tool params env = some f) :
    t₁ = (t.agentfsInodeVersionGet f.key).1 ∧ f.version = (t.agentfsInodeVersionGet f.key).2 := by
  unfold toolReads at hread
  split at hread <;> [skip; cases hread]
  rename_i hcond
  obtain ⟨hroute, hpages⟩ := hcond
  obtain ⟨path, hpath, hfile⟩ := Option.bind_eq_some_iff.1 hread
  obtain ⟨k, data, hdata⟩ : ∃ k data, env.file path = some (k, data) := by
    unfold readFileContentVersioned at hfile
    split at hfile
    · cases hfile
    · exact ⟨_, _, ‹_›⟩
  have hrc : readFileContentVersioned t env.file path =
      ((t.agentfsInodeVersionGet k).1,
        some ⟨k, (t.agentfsInodeVersionGet k).2, data.take (agentToolResultMax - 1)⟩) := by
    unfold readFileContentVersioned
    rw [hdata]
  rw [hrc] at hfile
  obtain rfl := Option.some.inj hfile
  have htable : (agentToolHandle p.ctx p t tool params env).2.1 = (t.agentfsInodeVersionGet k).1 := by
    unfold agentToolHandle toolReadFile
    rw [hroute]
    dsimp only
    rw [hpath]
    dsimp only
    rw [if_neg (by rw [hpages]; decide), hrc]
  have hsame : t₁ = (agentToolHandle p.ctx p t tool params env).2.1 := by
    unfold agentToolCall at hcall
    dsimp only at hcall
    split at hcall
    · obtain ⟨r, -, heq⟩ := Option.map_eq_some_iff.1 hcall
      exact (congrArg (fun x => x.2.2.1) heq).symm
    · exact (congrArg (fun x => x.2.2.1) (Option.some.inj hcall)).symm
  exact ⟨hsame.trans htable, rfl⟩

/-- The node of a tool call is its last one, with the dependency of its read. -/
theorem toolCall_last (hcall : agentToolCall p m t tool params env = some (c', m', t₁, resp))
    (hrec : toolRecords p m t tool params env = true) :
    ∃ d, (liveDeps c').getLast? = some d ∧ depRead d = readVersion (toolReads p t tool params env) := by
  have hnode : (agentToolHandle p.ctx p t tool params env).2.2.2 = true := by
    by_contra hnot
    rw [toolRecords_of_none (by simpa using hnot)] at hrec
    cases hrec
  rw [toolRecords_of_node hnode] at hrec
  unfold agentToolCall at hcall
  dsimp only at hcall
  rw [if_pos hnode] at hcall
  obtain ⟨⟨c₁, m₁, r⟩, hpush, heq⟩ := Option.map_eq_some_iff.1 hcall
  obtain rfl : c₁ = c' := congrArg Prod.fst heq
  exact ⟨_, push_last hpush hrec, agentToolHandle_pending hnode _⟩

end

/-- **A fresh read validates**, as long as its file does not change, if and only if the table could
give the file a version when it was read. -/
theorem fresh_read_validates {tr tr' : List VersionLabel} {t t₁ t₂ : FileVersions}
    (h : versionMachine.Reach always tr t) {p : Proc} {m m' : Memory} {tool params : List UInt8}
    {env : ToolWorld} {c c' : ContextState} {resp : AgentToolResponse}
    (hcall : agentToolCall p m t tool params env = some (c', m', t₁, resp)) {f : ReadFile}
    (hread : toolReads p t tool params env = some f)
    (hrec : toolRecords p m t tool params env = true)
    (hpath : versionMachine.Path (Spares f.key) t₁ tr' t₂) {sequence : ℕ}
    (hnode : validated c sequence = (liveDeps c').getLast?) :
    let r := (agentContextValidate c t₂ sequence).2
    (r.state = .valid ∧ r.recordedVersion = r.currentVersion ∧ r.currentVersion ≠ 0) ↔
      Available t f.key := by
  intro r
  obtain ⟨d, hlast, hd⟩ := toolCall_last hcall hrec
  rw [hread] at hd
  obtain ⟨rfl, hversion⟩ := toolCall_version hcall hread
  obtain ⟨hrecorded, hcurrent, hvalid⟩ :=
    validate_of_validated (t := t₂) (hnode.trans hlast) (k := f.key) (v := f.version) hd
  constructor
  · rintro ⟨hstate, -, -⟩
    by_contra hno
    -- the read recorded version 0, which no validation accepts
    obtain ⟨hne, heq⟩ := hvalid.1 hstate
    rw [heq, hversion] at hne
    exact hne (get_unavailable hno)
  · intro hav
    obtain ⟨i, e, hpresent, hused, hdeleted, hget⟩ := get_available hav
    -- the entry is there until the validation
    have hthere : Present t₂ f.key i e :=
      hpath.inv (P := fun t => Present t f.key i e) (fun _ _ _ hp hok hn => hp.step hok hn) hpresent
    have hnow : (t₂.agentfsInodeVersionGet f.key).2 = e.version := by
      rw [hthere.get, if_neg (by rw [hdeleted]; decide)]
    have hpositive : e.version ≠ 0 := by
      have hpos : Positive (t.agentfsInodeVersionGet f.key).1 :=
        (positive_of_reach h).step (l := .get f.key) rfl
      have hat := hpos i
      rw [hpresent.entry] at hat
      exact hat hused
    have hsame : (t₂.agentfsInodeVersionGet f.key).2 = f.version := by
      rw [hnow, hversion, hget]
    refine ⟨hvalid.2 ⟨by rw [hnow]; exact hpositive, hsame⟩, ?_, ?_⟩
    · rw [hrecorded, hcurrent, hsame]
    · rw [hcurrent, hnow]
      exact hpositive

/-! ### Two reads -/

/-- A new Agent. -/
def newAgent : ToolRun := newToolRuns ((readsFile true).take 1)

/-- It reads the file, with the version table `t`. -/
def readCall (t : FileVersions) : Option (ContextState × Memory × FileVersions × AgentToolResponse) :=
  agentToolCall newAgent.proc newAgent.mem t (lit "read_file") (lit "path=/a") (oneFileEnv true)

/-- What the call leaves. -/
def readResult (t : FileVersions) : ContextState × Memory × FileVersions × AgentToolResponse :=
  (readCall t).getD (newAgent.proc.ctx, newAgent.mem, t, toolRespSet 0 [])

theorem readCall_eq {t : FileVersions} (h : (readCall t).isSome = true) :
    readCall t = some (readResult t) := by
  obtain ⟨x, hx⟩ := Option.isSome_iff_exists.1 h
  unfold readResult
  rw [hx]
  rfl

/-- Another file is written and removed before the validation. -/
def otherFile : List VersionLabel := [.bump (1, 7), .get (1, 2), .remove (1, 7)]

/-- The version table behind it. -/
def otherWritten : FileVersions :=
  (versionMachine.run (readResult FileVersions.init).2.2.1 otherFile).getD FileVersions.init

set_option maxRecDepth 100000 in
theorem fresh_read_validates_file :
    let r := (agentContextValidate (readResult FileVersions.init).1 otherWritten 0).2
    r.state = .valid ∧ r.recordedVersion = r.currentVersion ∧ r.currentVersion ≠ 0 := by
  have hav : Available FileVersions.init (1, 2) := ⟨⟨0, by decide⟩, rfl⟩
  -- the read and the writes, evaluated once
  have hruns : (readCall FileVersions.init).isSome = true ∧
      toolReads newAgent.proc FileVersions.init (lit "read_file") (lit "path=/a") (oneFileEnv true) =
        some ⟨(1, 2), 1, lit "text"⟩ ∧
      toolRecords newAgent.proc newAgent.mem FileVersions.init (lit "read_file") (lit "path=/a")
        (oneFileEnv true) = true ∧
      (versionMachine.runOk (Spares (1, 2)) (readResult FileVersions.init).2.2.1
        otherFile).isSome = true ∧
      validated (readResult FileVersions.init).1 0 =
        (liveDeps (readResult FileVersions.init).1).getLast? := by decide +kernel
  obtain ⟨hcall, hread, hrec, hpath, hnode⟩ := hruns
  have hp : versionMachine.Path (Spares (1, 2)) (readResult FileVersions.init).2.2.1 otherFile
      otherWritten := pathOk_run_getD hpath
  exact (fresh_read_validates ⟨FileVersions.init, rfl, Path.nil _⟩
    (readCall_eq (t := FileVersions.init) hcall) hread hrec hp hnode).2 hav

/-- A file with the inode number of a file that was read and then removed. -/
def reusedInode : FileVersions :=
  ((versionMachine.run FileVersions.init [.get (1, 2), .remove (1, 2)])).getD FileVersions.init

set_option maxRecDepth 100000 in
/-- **The read of a reused inode** succeeds, and its node is at once reported as deleted. -/
theorem fresh_read_deleted :
    versionMachine.Reach always [.get (1, 2), .remove (1, 2)] reusedInode ∧
      (readResult reusedInode).2.2.2.status = agentToolOk ∧
      (agentContextValidate (readResult reusedInode).1 (readResult reusedInode).2.2.1 0).2 =
        ⟨1, 1, 2, 0, 0, .deleted⟩ :=
  ⟨⟨FileVersions.init, rfl, path_getD (by decide +kernel)⟩, by decide +kernel⟩

end AgentOS
