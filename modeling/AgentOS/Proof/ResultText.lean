import AgentOS.Model.Access
import AgentOS.Proof.QueryFollow

/-!
# Whole results

The answers of `query_agent`, `query_process`, `query_file` and `tool_list` are built in a buffer
of `AGENT_TOOL_RESULT_MAX` bytes, one of which is for the NUL; what does not fit is dropped.

* `agentsText`, `processesText`, `toolListText`, `Rendering`: the complete texts.
* `listProcs_clip`, `queryAnswer_clip`, …: a buffer holds what fits of its text.
* `AnswersHeld`: what the shared cache holds has been evaluated on an index of files, in any run.
* **`results_whole`**: an answer is complete if and only if its text has fewer bytes than the
  buffer.
-/

namespace AgentOS

open Machine

/-! ### The buffer -/

/-- A name and its number. -/
def fieldText (key : String) (value : ℕ) : List UInt8 := lit key ++ decimal value

section

variable {buf x base text : List UInt8}

theorem clip_putField (h : Clip resultRoom buf x) (key : String) (hkey : cstr (lit key) = lit key)
    (v : ℕ) : Clip resultRoom (putField buf key v) (x ++ fieldText key v) := by
  have hput := clip_resultPutu (clip_lit h key hkey) v
  rwa [List.append_assoc] at hput

theorem clip_room (h : Clip resultRoom buf x) : buf = x ↔ x.length < agentToolResultMax := by
  rw [h.eq_iff]
  unfold resultRoom agentToolResultMax
  omega

theorem fieldText_notMem {key : String} (hkey : (0 : UInt8) ∉ lit key) (v : ℕ) :
    (0 : UInt8) ∉ fieldText key v := by
  unfold fieldText
  rw [List.mem_append, not_or]
  exact ⟨hkey, decimal_zero v⟩

/-- **A copy of the buffer loses nothing more.** -/
theorem safestrcpy_clip (h : Clip resultRoom buf x) (hz : (0 : UInt8) ∉ x) :
    safestrcpy buf agentToolResultMax = buf := by
  have hbuf : (0 : UInt8) ∉ buf := by
    rw [h]
    exact fun h0 => hz (List.mem_of_mem_take h0)
  rw [safestrcpy_of_notMem hbuf]
  exact List.take_of_length_le h.length_le

theorem safestrcpy_whole (h : Clip resultRoom buf x) (hz : (0 : UInt8) ∉ x) :
    safestrcpy buf agentToolResultMax = x ↔ x.length < agentToolResultMax := by
  rw [safestrcpy_clip h hz, clip_room h]

theorem toolRespSet_whole (h : Clip resultRoom buf x) (hz : (0 : UInt8) ∉ x) (status : ℤ) :
    (toolRespSet status buf).result = x ↔ x.length < agentToolResultMax := by
  unfold toolRespSet
  exact safestrcpy_whole h hz

end

/-! ### Listings of processes -/

/-- The complete listing of the processes that are `shown`. -/
def listingText (k : Kernel) (start : String) (shown : Proc → Bool) (entry : Slot → List UInt8) :
    List UInt8 :=
  let l := (List.finRange nproc).filter fun i => shown (k.procs i)
  lit start ++ commaText (l.map entry) ++ fieldText "],count=" l.length ++ lit "\x7d"

/-- What the loop has put after the slots `l`. -/
theorem foldl_procs_clip {k : Kernel} {start : List UInt8} {shown : Proc → Bool}
    {entry : List UInt8 → Slot → List UInt8} {text : Slot → List UInt8}
    (hstart : start.length ≤ resultRoom)
    (hentry : ∀ buf x i, Clip resultRoom buf x → Clip resultRoom (entry buf i) (x ++ text i))
    (l : List Slot) :
    let s := l.foldl (fun s i =>
      if shown (k.procs i) then
        (entry (if 0 < s.2 then resultPuts s.1 (lit ",") else s.1) i, s.2 + 1)
      else s) (start, 0)
    s.2 = (l.filter fun i => shown (k.procs i)).length ∧
      Clip resultRoom s.1
        (start ++ commaText ((l.filter fun i => shown (k.procs i)).map text)) := by
  induction l using List.reverseRecOn with
  | nil =>
    refine ⟨rfl, ?_⟩
    change Clip resultRoom start (start ++ [])
    rw [List.append_nil]
    exact Clip.of_le hstart
  | append_singleton l i ih =>
    obtain ⟨hcount, hclip⟩ := ih
    rw [List.foldl_append, List.foldl_cons, List.foldl_nil, List.filter_append]
    generalize l.foldl _ (start, 0) = s at hcount hclip ⊢
    generalize l.filter (fun i => shown (k.procs i)) = done at hcount hclip ⊢
    by_cases hi : shown (k.procs i) = true
    · have hone : [i].filter (fun i => shown (k.procs i)) = [i] := by simp [hi]
      rw [hone, if_pos hi]
      refine ⟨by rw [List.length_append, List.length_singleton, hcount], ?_⟩
      rw [List.map_append, List.map_singleton, commaText_snoc]
      dsimp only
      rw [← List.append_assoc, ← List.append_assoc]
      refine hentry _ _ i ?_
      -- a comma before every record but the first
      by_cases hpos : 0 < s.2
      · rw [if_pos hpos, if_neg (by
          intro he
          rw [List.map_eq_nil_iff.1 he] at hcount
          rw [hcount] at hpos
          exact absurd hpos (by decide))]
        exact clip_lit hclip "," rfl
      · have hnil : done = [] := List.length_eq_zero_iff.1 (by omega)
        rw [if_neg hpos, hnil, List.map_nil, if_pos rfl, List.append_nil]
        rw [hnil] at hclip
        exact hclip
    · have hnone : [i].filter (fun i => shown (k.procs i)) = [] := by simp [hi]
      rw [hnone, if_neg hi, List.append_nil]
      exact ⟨hcount, hclip⟩

/-- **A listing holds what fits of its text.** -/
theorem listProcs_clip {k : Kernel} {start : String} {shown : Proc → Bool}
    {entry : List UInt8 → Slot → List UInt8} {text : Slot → List UInt8}
    (hstart : (lit start).length ≤ resultRoom)
    (hentry : ∀ buf x i, Clip resultRoom buf x → Clip resultRoom (entry buf i) (x ++ text i)) :
    Clip resultRoom (listEnd (listProcs k (lit start) shown entry))
      (listingText k start shown text) := by
  obtain ⟨hcount, hclip⟩ := @foldl_procs_clip k (lit start) shown entry text hstart hentry
    (List.finRange nproc)
  unfold listEnd listingText listProcs
  dsimp only
  rw [hcount]
  exact clip_lit (clip_putField hclip "],count=" rfl _) "\x7d" rfl

theorem listingText_notMem {k : Kernel} {start : String} {shown : Proc → Bool}
    {entry : Slot → List UInt8} (hstart : (0 : UInt8) ∉ lit start)
    (hentry : ∀ i, (0 : UInt8) ∉ entry i) : (0 : UInt8) ∉ listingText k start shown entry := by
  unfold listingText
  simp only [List.mem_append, not_or]
  refine ⟨⟨⟨hstart, commaText_notMem fun r hr => ?_⟩, fieldText_notMem (by decide) _⟩, by decide⟩
  obtain ⟨i, -, rfl⟩ := List.mem_map.1 hr
  exact hentry i

/-- The record of an Agent in the answer of `query_agent`. -/
def agentText (p : Proc) : List UInt8 :=
  fieldText "\x7bpid=" p.pid ++ fieldText ",role=" (asUint64 p.ident.agentRole) ++
    fieldText ",caps=" p.ident.agentCapabilities.toNat ++
    fieldText ",group=" (asUint64 p.ident.agentGroup) ++
    fieldText ",state=" (asUint64 p.loop.loopState) ++ lit "\x7d"

/-- Does the process meet the parameters of `query_agent`? -/
def agentShown (params : List UInt8) (p : Proc) : Bool :=
  p.state != .unused && p.ident.agentType != agentTypeNormal &&
    ((parseUintParam params (lit "role")).all fun r => p.ident.agentRole == toInt32 r) &&
    ((parseUintParam params (lit "capability")).all fun c => hasCapBit p c) &&
    ((parseUintParam params (lit "group")).all fun g => p.ident.agentGroup == toInt32 g)

/-- **The complete answer of `query_agent`.** -/
def agentsText (k : Kernel) (params : List UInt8) : List UInt8 :=
  listingText k "\x7bstatus=ok,agents=[" (agentShown params) fun i => agentText (k.procs i)

theorem toolQueryAgent_clip (k : Kernel) (params : List UInt8) :
    Clip resultRoom (toolQueryAgent k params) (agentsText k params) := by
  refine listProcs_clip (by decide) fun buf x i h => ?_
  have hput := clip_lit (clip_putField (clip_putField (clip_putField (clip_putField
    (clip_putField h "\x7bpid=" rfl (k.procs i).pid)
    ",role=" rfl (asUint64 (k.procs i).ident.agentRole))
    ",caps=" rfl (k.procs i).ident.agentCapabilities.toNat)
    ",group=" rfl (asUint64 (k.procs i).ident.agentGroup))
    ",state=" rfl (asUint64 (k.procs i).loop.loopState)) "\x7d" rfl
  unfold agentText
  simp only [List.append_assoc] at hput ⊢
  exact hput

/-- The record of a process in the answer of `query_process`. -/
def processText (p : Proc) (name : List UInt8) : List UInt8 :=
  fieldText "\x7bpid=" p.pid ++ lit ",name=" ++ cstr name ++
    fieldText ",type=" (asUint64 p.ident.agentType) ++
    fieldText ",caps=" p.ident.agentCapabilities.toNat ++ lit "\x7d"

/-- Does the process meet the parameters of `query_process`? -/
def processShown (params : List UInt8) (p : Proc) : Bool :=
  let onlyAgent := (paramValue params (lit "type") 24).any fun v => streq v (lit "agent")
  p.state != .unused && !(onlyAgent && p.ident.agentType == agentTypeNormal)

/-- **The complete answer of `query_process`.** -/
def processesText (k : Kernel) (names : Slot → List UInt8) (params : List UInt8) : List UInt8 :=
  listingText k "\x7bstatus=ok,processes=[" (processShown params) fun i =>
    processText (k.procs i) (names i)

theorem toolQueryProcess_clip (k : Kernel) (names : Slot → List UInt8) (params : List UInt8) :
    Clip resultRoom (toolQueryProcess k names params) (processesText k names params) := by
  refine listProcs_clip (by decide) fun buf x i h => ?_
  have hput := clip_lit (clip_putField (clip_putField (clip_resultPuts (clip_lit
    (clip_putField h "\x7bpid=" rfl (k.procs i).pid) ",name=" rfl) (names i))
    ",type=" rfl (asUint64 (k.procs i).ident.agentType))
    ",caps=" rfl (k.procs i).ident.agentCapabilities.toNat) "\x7d" rfl
  unfold processText
  simp only [List.append_assoc] at hput ⊢
  exact hput

/-! ### The list of tools -/

/-- Does `tool_list` show this tool to `p`? -/
def toolShown (p : Proc) (d : AgentDynamicTool) : Bool :=
  d.used && agentSameGroupOrPublic p d.ownerGroup d.flags

/-- **The complete list of tools.** -/
def toolListText (r : Runtime) (p : Proc) : List UInt8 :=
  builtinToolList ++ (((List.finRange agentDynamicToolMax).map r.dynamicTools).filter
    (toolShown p)).flatMap fun d => lit ";" ++ cstr d.name ++ lit "(dynamic)"

theorem listTool_clip {buf x : List UInt8} (h : Clip resultRoom buf x) (p : Proc)
    (d : AgentDynamicTool) : Clip resultRoom (listTool p buf d)
      (x ++ if toolShown p d then lit ";" ++ cstr d.name ++ lit "(dynamic)" else []) := by
  unfold listTool
  change Clip resultRoom (if toolShown p d = true then _ else buf) _
  by_cases hd : toolShown p d = true
  · rw [if_pos hd, if_pos hd]
    have hput := clip_lit (clip_resultPuts (clip_lit h ";" rfl) d.name) "(dynamic)" rfl
    simp only [List.append_assoc] at hput ⊢
    exact hput
  · rw [if_neg hd, if_neg hd, List.append_nil]
    exact h

theorem flatMap_filter_if {α β : Type*} (shown : α → Bool) (f : α → List β) (l : List α) :
    (l.flatMap fun a => if shown a then f a else []) = (l.filter shown).flatMap f := by
  induction l with
  | nil => rfl
  | cons a l ih =>
    rw [List.flatMap_cons, ih, List.filter_cons]
    cases shown a with
    | true => rw [if_pos rfl, if_pos rfl, List.flatMap_cons]
    | false => rw [if_neg (by decide), if_neg (by decide), List.nil_append]

theorem lit_append (a b : String) : lit (a ++ b) = lit a ++ lit b := by
  unfold lit
  rw [String.toList_append, List.map_append]

/-- One literal at a time. -/
theorem builtinToolList_spec : (0 : UInt8) ∉ builtinToolList ∧ builtinToolList.length = 433 := by
  simp only [builtinToolList, lit_append, List.mem_append, not_or, List.length_append]
  decide +kernel

theorem builtinToolList_clip : Clip resultRoom (resultPuts [] builtinToolList) builtinToolList := by
  have hz := builtinToolList_spec.1
  have h := clip_resultPuts Clip.nil builtinToolList
  rw [cstr_of_notMem hz, List.nil_append] at h
  exact h

theorem agentCopyToolList_clip (r : Runtime) (p : Proc) (len : ℕ) :
    Clip (min len resultRoom) (agentCopyToolList r p len) (toolListText r p) := by
  unfold agentCopyToolList toolListText
  rw [← flatMap_filter_if]
  exact (builtinToolList_clip.foldl (fun _ _ d hb => listTool_clip hb p d) _).limit len

/-! ### `query_file` -/

/-- **The complete answer of an evaluation**, without its last bracket. -/
def queryText (listed : List AgentFileMeta) (count indexScanned : ℕ) (usedIndex forceScan : Bool)
    (full ticksCost : ℕ) : List UInt8 :=
  lit "\x7bstatus=ok,files=[" ++ listing listed ++ fieldText "],count=" count ++
    fieldText ",used_index=" (if usedIndex then 1 else 0) ++
    fieldText ",index_scanned=" indexScanned ++ fieldText ",full_scanned=" full ++
    fieldText ",ticks_cost=" ticksCost ++
    lit ",query_plan=" ++ (if usedIndex then lit "index" else lit "scan") ++
    lit ",plan_reason=" ++
    (if forceScan then lit "forced_scan" else if usedIndex then lit "indexed_key"
      else lit "no_index_key")

/-- What `query_result_with_cache` puts behind it. -/
def cacheText (hit ownerPid refcnt version fsScanned : ℕ) : List UInt8 :=
  fieldText ",cache_hit=" hit ++ fieldText ",cache_owner=" ownerPid ++
    fieldText ",cache_refcnt=" refcnt ++ fieldText ",cache_version=" version ++
    fieldText ",fs_scanned=" fsScanned ++ lit "\x7d"

section

variable {t : AgentFileIndex} {s : QueryState} {base text : List UInt8}

theorem queryAnswer_clip (h : Written t s) (usedIndex forceScan : Bool) (full ticksCost : ℕ) :
    Clip resultRoom (queryAnswer s usedIndex forceScan full ticksCost)
      (queryText ((s.matched.take agentFileResultMax).map t.fileMeta) s.matched.length
        s.indexScanned usedIndex forceScan full ticksCost ++ lit "\x7d") := by
  have hbuf : Clip resultRoom s.buf (lit "\x7bstatus=ok,files=[" ++
      listing ((s.matched.take agentFileResultMax).map t.fileMeta)) := h.2
  generalize (s.matched.take agentFileResultMax).map t.fileMeta = listed at hbuf ⊢
  have hplan : cstr (if usedIndex then lit "index" else lit "scan") =
      if usedIndex then lit "index" else lit "scan" := by
    cases usedIndex <;> rfl
  have hreason : cstr (if forceScan then lit "forced_scan" else
      if usedIndex then lit "indexed_key" else lit "no_index_key") =
      if forceScan then lit "forced_scan" else
        if usedIndex then lit "indexed_key" else lit "no_index_key" := by
    cases forceScan <;> cases usedIndex <;> rfl
  have hput := clip_resultPuts (clip_lit (clip_resultPuts (clip_lit (clip_putField (clip_putField
    (clip_putField (clip_putField (clip_putField hbuf "],count=" rfl s.count)
    ",used_index=" rfl (if usedIndex then 1 else 0)) ",index_scanned=" rfl s.indexScanned)
    ",full_scanned=" rfl full) ",ticks_cost=" rfl ticksCost) ",query_plan=" rfl)
    (if usedIndex then lit "index" else lit "scan")) ",plan_reason=" rfl)
    (if forceScan then lit "forced_scan" else
      if usedIndex then lit "indexed_key" else lit "no_index_key")
  rw [hplan, hreason] at hput
  have hend := clip_lit hput "\x7d" rfl
  rw [← h.1]
  exact hend

theorem queryText_notMem (listed : List AgentFileMeta) (count indexScanned : ℕ)
    (usedIndex forceScan : Bool) (full ticksCost : ℕ) :
    (0 : UInt8) ∉ queryText listed count indexScanned usedIndex forceScan full ticksCost := by
  have hplan : (0 : UInt8) ∉ if usedIndex then lit "index" else lit "scan" := by
    cases usedIndex <;> decide
  have hreason : (0 : UInt8) ∉ if forceScan then lit "forced_scan" else
      if usedIndex then lit "indexed_key" else lit "no_index_key" := by
    cases forceScan <;> cases usedIndex <;> decide
  unfold queryText
  simp only [List.mem_append, not_or]
  exact ⟨⟨⟨⟨⟨⟨⟨⟨⟨⟨by decide, listing_notMem listed⟩, fieldText_notMem (by decide) _⟩,
    fieldText_notMem (by decide) _⟩, fieldText_notMem (by decide) _⟩,
    fieldText_notMem (by decide) _⟩, fieldText_notMem (by decide) _⟩, by decide⟩, hplan⟩,
    by decide⟩, hreason⟩

theorem cacheText_length_pos (hit ownerPid refcnt version fsScanned : ℕ) :
    0 < (cacheText hit ownerPid refcnt version fsScanned).length := by
  unfold cacheText
  rw [List.length_append, show (lit "\x7d").length = 1 from rfl]
  omega

theorem cacheText_notMem (hit ownerPid refcnt version fsScanned : ℕ) :
    (0 : UInt8) ∉ cacheText hit ownerPid refcnt version fsScanned := by
  unfold cacheText
  simp only [List.mem_append, not_or]
  exact ⟨⟨⟨⟨⟨fieldText_notMem (by decide) _, fieldText_notMem (by decide) _⟩,
    fieldText_notMem (by decide) _⟩, fieldText_notMem (by decide) _⟩,
    fieldText_notMem (by decide) _⟩, by decide⟩

/-- Behind an evaluation that has fitted, the answer holds what fits of its text. -/
theorem queryResult_clip (hz : (0 : UInt8) ∉ text)
    (hit ownerPid refcnt version fsScanned : ℕ) : Clip resultRoom
      (queryResultWithCache (text ++ lit "\x7d") hit ownerPid refcnt version fsScanned)
      (text ++ cacheText hit ownerPid refcnt version fsScanned) := by
  have htext : Clip resultRoom (resultPuts [] text) text := by
    have hput := clip_resultPuts Clip.nil text
    rwa [cstr_of_notMem hz] at hput
  have hput := clip_lit (clip_putField (clip_putField (clip_putField (clip_putField
    (clip_putField htext ",cache_hit=" rfl hit) ",cache_owner=" rfl ownerPid)
    ",cache_refcnt=" rfl refcnt) ",cache_version=" rfl version) ",fs_scanned=" rfl fsScanned)
    "\x7d" rfl
  have hbz : (0 : UInt8) ∉ text ++ lit "\x7d" := by
    rw [List.mem_append, not_or]
    exact ⟨hz, by decide⟩
  have hlast : (text ++ lit "\x7d").getLast? = some 125 := List.getLast?_concat
  have hdrop : (text ++ lit "\x7d").dropLast = text := List.dropLast_concat
  unfold queryResultWithCache
  dsimp only
  rw [cstr_of_notMem hbz, if_pos hlast, hdrop]
  have hassoc : text ++ cacheText hit ownerPid refcnt version fsScanned =
      text ++ fieldText ",cache_hit=" hit ++ fieldText ",cache_owner=" ownerPid ++
        fieldText ",cache_refcnt=" refcnt ++ fieldText ",cache_version=" version ++
        fieldText ",fs_scanned=" fsScanned ++ lit "\x7d" := by
    unfold cacheText
    simp only [List.append_assoc]
  rw [hassoc]
  exact hput

/-- **The answer is complete** if and only if it fits, be it fresh or from the cache: if the
evaluation has not fitted, the answer does not either. -/
theorem queryResult_whole (h : Clip resultRoom base (text ++ lit "\x7d"))
    (hz : (0 : UInt8) ∉ text) (hit ownerPid refcnt version fsScanned : ℕ) :
    safestrcpy (queryResultWithCache base hit ownerPid refcnt version fsScanned)
        agentToolResultMax = text ++ cacheText hit ownerPid refcnt version fsScanned ↔
      (text ++ cacheText hit ownerPid refcnt version fsScanned).length < agentToolResultMax := by
  have hpos := cacheText_length_pos hit ownerPid refcnt version fsScanned
  constructor
  · intro he
    have hcopy := safestrcpy_length (queryResultWithCache base hit ownerPid refcnt version
      fsScanned) agentToolResultMax
    rw [he] at hcopy
    rw [hcopy]
    unfold agentToolResultMax
    omega
  · intro hfits
    have hshort : text.length < resultRoom := by
      rw [List.length_append] at hfits
      unfold resultRoom
      omega
    have hbase : base = text ++ lit "\x7d" := by
      rw [h.eq_iff, List.length_append, show (lit "\x7d").length = 1 from rfl]
      omega
    have hnz : (0 : UInt8) ∉ text ++ cacheText hit ownerPid refcnt version fsScanned := by
      rw [List.mem_append, not_or]
      exact ⟨hz, cacheText_notMem hit ownerPid refcnt version fsScanned⟩
    have hclip := queryResult_clip hz hit ownerPid refcnt version fsScanned
    rw [← hbase] at hclip
    exact (safestrcpy_whole hclip hnz).2 hfits

end

/-! ### Answers in any run -/

/-- **What an evaluation of `params` on the index `x` finds** in this time, in full. -/
def Evaluates (x : AgentFileIndex) (params : List UInt8) (ticksCost : ℕ) (text : List UInt8) :
    Prop :=
  ∃ q r, fileQueryParse params = some q ∧ queryRun x q = some r ∧
    r.1.matched.Nodup ∧ (∀ i, i ∈ r.1.matched ↔ MatchesQuery x q i) ∧
    text = queryText ((r.1.matched.take agentFileResultMax).map x.fileMeta) r.1.matched.length
      r.1.indexScanned r.2 q.forceScan (fullScanned x) ticksCost

/-- **The complete answer** to a query of `p` that takes this time: of its evaluation on the
index, or of an evaluation whose text the entry holds that it hits, as far as there is room. -/
inductive Rendering (s : FileSystem) (p : Proc) (params : List UInt8) (ticksCost : ℕ) :
    List UInt8 → Prop
  | fresh (base : List UInt8) (hmiss : (sharedQueryCacheLookup s.caches p params).2 = none)
      (heval : Evaluates s.ensure.index params ticksCost base) :
      Rendering s p params ticksCost
        (base ++ cacheText 0 p.pid 1 s.ensure.caches.version (fullScanned s.ensure.index))
  | hit (base : List UInt8) (k : Fin agentSharedQueryCacheMax) (x : FileTree) (cost : ℕ)
      (hfound : sharedQueryCacheFind s.caches p params = some k)
      (hx : x.AttrsOk) (heval : Evaluates x.complete params cost base)
      (hheld : Clip resultRoom (s.caches.entries k).result (base ++ lit "\x7d")) :
      Rendering s p params ticksCost
        (base ++ cacheText 1 (s.caches.entries k).ownerPid ((s.caches.entries k).refcnt + 1)
          (s.caches.entries k).version 0)

/-- **The index is that of a tree, and so is what the cache holds**, current or not. -/
structure AnswersHeld (s : FileSystem) : Prop where
  attrs : s.tree.AttrsOk
  index : s.index.ready = true → ∃ x : FileTree, x.AttrsOk ∧ s.index = x.complete
  held : ∀ k, (s.caches.entries k).used = true → ∃ x : FileTree, x.AttrsOk ∧
    Answers x.complete (s.caches.entries k).query (s.caches.entries k).result

section

variable {s t : FileSystem} {a : FsCall} {p : Proc} {params : List UInt8} {ticksCost : ℕ}
  {pages page : Bool}

theorem AnswersHeld.setTree (h : AnswersHeld s) {x : FileTree} (hx : x.AttrsOk) :
    AnswersHeld { s with tree := x } := ⟨hx, h.index, h.held⟩

theorem AnswersHeld.respond (h : AnswersHeld s) (status : ℤ) (result : List UInt8) :
    AnswersHeld (s.respond status result) := ⟨h.attrs, h.index, h.held⟩

theorem AnswersHeld.withCaches (h : AnswersHeld s) {c : QueryCaches}
    (hc : ∀ k, (c.entries k).used = true → ∃ x : FileTree, x.AttrsOk ∧
      Answers x.complete (c.entries k).query (c.entries k).result) :
    AnswersHeld { s with caches := c } := ⟨h.attrs, h.index, hc⟩

theorem AnswersHeld.build (h : AnswersHeld s) : AnswersHeld s.build := by
  refine ⟨?_, fun _ => ⟨s.tree, h.attrs, build_index s⟩, ?_⟩
  · rw [build_tree]
    exact h.attrs
  · rw [build_caches]
    exact h.held

/-- A new version does not touch the entries. -/
theorem AnswersHeld.contentChanged (h : AnswersHeld s) : AnswersHeld s.contentChanged :=
  h.build.withCaches h.held

theorem AnswersHeld.metaStep (h : AnswersHeld s) (ht : MetaStep s t) : AnswersHeld t := by
  cases ht with
  | refused status result => exact h.respond _ _
  | written inum data status result =>
    refine (h.setTree (h.attrs.update (d := { s.tree inum with
      file := { (s.tree inum).file with data := data } }) ?_ inum)).respond _ _
    exact (h.attrs inum).of_attrs rfl
  | changed c inum ip result hip =>
    have hok := MetaChange.apply_attrsOk hip (h.attrs inum)
    refine AnswersHeld.respond (AnswersHeld.contentChanged ?_) _ _
    exact h.setTree (h.attrs.update (d := { s.tree inum with file := ip }) hok inum)

/-- **After `file_index_ensure` there is an index of a tree.** -/
theorem AnswersHeld.ensure (h : AnswersHeld s) :
    AnswersHeld s.ensure ∧ ∃ x : FileTree, x.AttrsOk ∧ s.ensure.index = x.complete := by
  unfold FileSystem.ensure
  by_cases hr : s.index.ready = true
  · rw [if_pos hr]
    exact ⟨h, h.index hr⟩
  · rw [if_neg hr]
    exact ⟨h.build, s.tree, h.attrs, build_index s⟩

/-- **Every call keeps it**, whatever the tree and the version. -/
theorem answersHeld_step (h : AnswersHeld s) (ht : fsMachine.next s a = some t) :
    AnswersHeld t := by
  cases fs_step ht with
  | tree a x hx => exact h.setTree (hx h.attrs)
  | metadata a t hv hm => exact h.metaStep hm
  | query p params ticksCost pages page t hrun =>
    obtain ⟨he, x, hx, hindex⟩ := h.ensure
    rcases queryFile_cases hrun with rfl | ⟨-, -, ⟨res, -, rfl⟩ | ⟨-, rfl⟩ |
      ⟨-, q, r, hq, hr, buf, hbuf, rfl⟩⟩
    · exact h.respond _ _
    · refine AnswersHeld.respond (h.withCaches fun k hk => ?_) _ _
      obtain ⟨n, hn⟩ := (lookup_entries s.caches p (safestrcpy params agentToolParamMax)).2 k
      rw [hn] at hk ⊢
      exact h.held k hk
    · exact he.respond _ _
    · refine AnswersHeld.respond (he.withCaches fun k hk => ?_) _ _
      obtain ⟨e, hquery, hres, -, -, hentries⟩ := store_entries s.ensure.caches p
        (safestrcpy params agentToolParamMax) buf
      rcases hentries k with hk' | hk'
      · rw [hk', hquery, hres, safestrcpy_idem, hbuf]
        rw [hindex] at hr ⊢
        exact ⟨x, hx, q, r, ticksCost, hq, hr, rfl⟩
      · rw [hk'] at hk ⊢
        exact he.held k hk

theorem answersHeld_init (h : s.init) : AnswersHeld s := by
  obtain ⟨hindex, hc, -, hattrs⟩ := h
  refine ⟨hattrs, fun hr => ?_, fun k hk => ?_⟩
  · rw [hindex] at hr
    cases hr
  · rw [hc] at hk
    cases hk

theorem reach_answersHeld {tr : List FsCall} (h : fsMachine.Reach always tr s) : AnswersHeld s :=
  Reach.inv (P := AnswersHeld) (fun _ hs => answersHeld_init hs)
    (fun _ _ _ hs _ ht => answersHeld_step hs ht) h

/-- **The buffer of an evaluation on the index of a tree** holds what fits of its text. -/
theorem queryRun_evaluates {x : FileTree} (hx : x.AttrsOk) {q : FileQuery}
    {r : QueryState × Bool} (hq : fileQueryParse params = some q)
    (hr : queryRun x.complete q = some r) (ticksCost : ℕ) :
    ∃ text, Evaluates x.complete params ticksCost text ∧
      Clip resultRoom (queryAnswer r.1 r.2 q.forceScan (fullScanned x.complete) ticksCost)
        (text ++ lit "\x7d") := by
  have hkeys : KeysDistinct x.complete := fun k hu => (complete_attrs hx k hu).2
  obtain ⟨r', hr', hnd, hmem⟩ := queryRun_spec (complete_indexed hx) hkeys q
  obtain rfl := Option.some.inj (hr.symm.trans hr')
  have hwritten := queryRun_written hr
  exact ⟨_, ⟨q, r, hq, hr, hnd, hmem, rfl⟩, queryAnswer_clip hwritten _ _ _ _⟩

section

variable {x : AgentFileIndex} {text text' : List UInt8}

theorem Evaluates.notMem (h : Evaluates x params ticksCost text) : (0 : UInt8) ∉ text := by
  obtain ⟨q, r, -, -, -, -, rfl⟩ := h
  exact queryText_notMem _ _ _ _ _ _ _

/-- The index and the time decide the text. -/
theorem Evaluates.unique (h : Evaluates x params ticksCost text)
    (h' : Evaluates x params ticksCost text') : text = text' := by
  obtain ⟨q, r, hq, hr, -, -, rfl⟩ := h
  obtain ⟨q', r', hq', hr', -, -, rfl⟩ := h'
  obtain rfl := Option.some.inj (hq.symm.trans hq')
  obtain rfl := Option.some.inj (hr.symm.trans hr')
  rfl

end

theorem lookup_found {c : QueryCaches} {result : List UInt8}
    (h : (sharedQueryCacheLookup c p params).2 = some result) :
    ∃ k, sharedQueryCacheFind c p params = some k ∧
      result = queryResultWithCache (c.entries k).result 1 (c.entries k).ownerPid
        ((c.entries k).refcnt + 1) (c.entries k).version 0 := by
  unfold sharedQueryCacheLookup at h
  split at h
  · cases h
  · rename_i k hk
    exact ⟨k, hk, (Option.some.inj h).symm⟩

/-- What `shared_query_cache_store` copies is what fits of the text. -/
theorem Evaluates.held {x : AgentFileIndex} {base entry : List UInt8}
    (h : Evaluates x params ticksCost base) (hbuf : Clip resultRoom entry (base ++ lit "\x7d")) :
    safestrcpy entry agentToolResultMax = entry := by
  refine safestrcpy_clip hbuf ?_
  rw [List.mem_append, not_or]
  exact ⟨h.notMem, by decide⟩

/-- **There is a complete answer** behind every successful query. -/
theorem query_rendering (h : AnswersHeld s)
    (ht : s.queryFile p params ticksCost pages page = some t) {result : List UInt8}
    (hresp : t.resp = (agentToolOk, result)) : ∃ text, Rendering s p params ticksCost text := by
  rcases queryFile_cases ht with rfl | ⟨-, -, ⟨res, hres, rfl⟩ | ⟨-, rfl⟩ |
    ⟨hmiss, q, r, hq, hr, buf, hbuf, rfl⟩⟩
  · exact absurd (Prod.mk.inj hresp).1 (by decide)
  · obtain ⟨k, hfound, -⟩ := lookup_found hres
    have hk := Table.first_some (by unfold sharedQueryCacheFind at hfound; exact hfound)
    simp only [Bool.and_eq_true] at hk
    obtain ⟨x, hx, hans⟩ := h.held k hk.1.1.1
    obtain ⟨q, r, cost, hq, hr, hentry⟩ := hans.congr hk.1.2
    obtain ⟨text, heval, hclip⟩ := queryRun_evaluates hx hq hr cost
    rw [heval.held hclip] at hentry
    rw [← hentry] at hclip
    exact ⟨_, .hit text k x cost hfound hx heval hclip⟩
  · exact absurd (Prod.mk.inj hresp).1 (by decide)
  · obtain ⟨-, x, hx, hindex⟩ := h.ensure
    rw [hindex] at hr
    obtain ⟨text, heval, -⟩ := queryRun_evaluates hx hq hr ticksCost
    rw [← hindex] at heval
    exact ⟨_, .fresh text hmiss heval⟩

/-- **The answer of a query is complete** if and only if its text fits. -/
theorem query_whole (h : AnswersHeld s)
    (ht : s.queryFile p params ticksCost pages page = some t) {result text : List UInt8}
    (hresp : t.resp = (agentToolOk, result)) (htext : Rendering s p params ticksCost text) :
    result = text ↔ text.length < agentToolResultMax := by
  rcases queryFile_cases ht with rfl | ⟨-, -, ⟨res, hres, rfl⟩ | ⟨-, rfl⟩ |
    ⟨hmiss, q, r, hq, hr, buf, hbuf, rfl⟩⟩
  · exact absurd (Prod.mk.inj hresp).1 (by decide)
  · obtain ⟨k, hfound, he⟩ := lookup_found hres
    rw [← (Prod.mk.inj hresp).2, he]
    cases htext with
    | fresh base hmiss heval =>
      rw [hres] at hmiss
      cases hmiss
    | hit base k' x cost hfound' hx heval hheld =>
      obtain rfl := Option.some.inj (hfound.symm.trans hfound')
      exact queryResult_whole hheld heval.notMem _ _ _ _ _
  · exact absurd (Prod.mk.inj hresp).1 (by decide)
  · rw [← (Prod.mk.inj hresp).2]
    cases htext with
    | hit base k x cost hfound hx heval hheld =>
      unfold sharedQueryCacheLookup at hmiss
      rw [hfound] at hmiss
      cases hmiss
    | fresh base _ heval =>
      obtain ⟨-, x, hx, hindex⟩ := h.ensure
      rw [hindex] at hr hbuf
      obtain ⟨base', heval', hclip⟩ := queryRun_evaluates hx hq hr ticksCost
      rw [← hbuf] at hclip
      rw [← hindex] at heval'
      obtain rfl := heval.unique heval'
      exact queryResult_whole hclip heval.notMem _ _ _ _ _

end

theorem agentsText_notMem (k : Kernel) (params : List UInt8) :
    (0 : UInt8) ∉ agentsText k params := by
  refine listingText_notMem (by decide) fun i => ?_
  unfold agentText
  simp only [List.mem_append, not_or]
  exact ⟨⟨⟨⟨⟨fieldText_notMem (by decide) _, fieldText_notMem (by decide) _⟩,
    fieldText_notMem (by decide) _⟩, fieldText_notMem (by decide) _⟩,
    fieldText_notMem (by decide) _⟩, by decide⟩

theorem processesText_notMem (k : Kernel) (names : Slot → List UInt8) (params : List UInt8) :
    (0 : UInt8) ∉ processesText k names params := by
  refine listingText_notMem (by decide) fun i => ?_
  unfold processText
  simp only [List.mem_append, not_or]
  exact ⟨⟨⟨⟨⟨fieldText_notMem (by decide) _, by decide⟩, cstr_zero _⟩,
    fieldText_notMem (by decide) _⟩, fieldText_notMem (by decide) _⟩, by decide⟩

/-- **A structured result is complete if and only if its text fits the buffer**, for every process
table and every table of dynamic tools, and for `query_file` in every run. -/
theorem results_whole (k : Kernel) (names : Slot → List UInt8) (params : List UInt8) (r : Runtime)
    (p : Proc) (len : ℕ) :
    ((toolRespSet agentToolOk (toolQueryAgent k params)).result = agentsText k params ↔
      (agentsText k params).length < agentToolResultMax) ∧
    ((toolRespSet agentToolOk (toolQueryProcess k names params)).result =
        processesText k names params ↔
      (processesText k names params).length < agentToolResultMax) ∧
    (agentCopyToolList r p len = toolListText r p ↔
      (toolListText r p).length ≤ len ∧ (toolListText r p).length < agentToolResultMax) ∧
    ∀ tr s p params ticksCost pages page t result, fsMachine.Reach always tr s →
      fsMachine.next s (.queryFile p params ticksCost pages page) = some t →
      t.resp = (agentToolOk, result) →
      (∃ text, Rendering s p (safestrcpy params agentToolParamMax) ticksCost text) ∧
      ∀ text, Rendering s p (safestrcpy params agentToolParamMax) ticksCost text →
        (result = text ↔ text.length < agentToolResultMax) := by
  refine ⟨?_, ?_, ?_, fun tr s p params ticksCost pages page t result h ht hresp => ?_⟩
  · exact toolRespSet_whole (toolQueryAgent_clip k params) (agentsText_notMem k params) _
  · exact toolRespSet_whole (toolQueryProcess_clip k names params)
      (processesText_notMem k names params) _
  · rw [(agentCopyToolList_clip r p len).eq_iff, le_min_iff]
    unfold resultRoom agentToolResultMax
    omega
  · have hheld := reach_answersHeld h
    exact ⟨query_rendering hheld ht hresp, fun text htext => query_whole hheld ht hresp htext⟩

/-- The first query of an empty file system. -/
theorem results_whole_empty : ∃ tr s t result, fsMachine.Reach always tr s ∧
    fsMachine.next s queryAll = some t ∧ t.resp = (agentToolOk, result) ∧
    (∃ text, Rendering s Proc.boot (safestrcpy (lit "public=true") agentToolParamMax) 0 text) ∧
    ∀ text, Rendering s Proc.boot (safestrcpy (lit "public=true") agentToolParamMax) 0 text →
      (result = text ↔ text.length < agentToolResultMax) := by
  have hreach : fsMachine.Reach always [] fsStart := ⟨fsStart, fsStart_init, .nil _⟩
  have hquery : fsMachine.next fsStart queryAll = some (fsNext fsStart queryAll) :=
    next_getD (by decide +kernel)
  have hresp : (fsNext fsStart queryAll).resp = (agentToolOk, (fsNext fsStart queryAll).resp.2) :=
    resp_of_status (by decide +kernel)
  obtain ⟨-, -, -, hwhole⟩ :=
    results_whole Kernel.boot (fun _ => []) [] Runtime.init Proc.boot agentToolResultMax
  exact ⟨_, _, _, _, hreach, hquery, hresp,
    hwhole [] fsStart Proc.boot (lit "public=true") 0 true true _ _ hreach hquery hresp⟩

/-- An Agent that may register tools. -/
def toolmaker : Proc :=
  { Proc.boot with
    pid := 4
    ident := { Ident.init with agentType := 1, agentCapabilities := agentCapRegisterTool } }

/-- Register public tools of these names, one after the other, and return what each call does. -/
def registerAll (names : List String) : Runtime × List ℤ :=
  names.foldl (fun s name =>
    let r := sysToolRegister s.1 toolmaker (lit name) agentToolFlagPublic
    (r.1, s.2 ++ [r.2])) (Runtime.init, [])

/-- Three tools of one Agent. -/
def threeTools : Runtime × List ℤ :=
  registerAll ["summarize_repository", "translate_to_english", "review_pull_requests"]

/-- **The third is registered and visible, and the list does not show it whole.** -/
theorem tool_list_cut : threeTools.2 = [0, 0, 0] ∧
    (findTool threeTools.1 (lit "review_pull_requests")).isSome = true ∧
    agentCopyToolList threeTools.1 toolmaker agentToolResultMax ≠
      toolListText threeTools.1 toolmaker := by
  refine ⟨by decide +kernel, by decide +kernel, fun he => ?_⟩
  have hfits := (agentCopyToolList_clip threeTools.1 toolmaker agentToolResultMax).eq_iff.1 he
  unfold toolListText at hfits
  rw [List.length_append, builtinToolList_spec.2] at hfits
  revert hfits
  decide +kernel

end AgentOS
