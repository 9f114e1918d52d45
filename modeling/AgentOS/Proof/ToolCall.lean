import AgentOS.Model.ToolCall
import AgentOS.Proof.Deps

/-!
# A dependency belongs to the read that made it

* `toolReadFile_pending`: `read_file` leaves a pending dependency if and only if it succeeds, and
  it is on the file that it has read.
* `toolCall_liveDeps`: the node of a tool call gets the dependency of that very call.
* `ReadsInv.step`: a step keeps the dependencies in line with the reads, unless a push finds a
  pending dependency.
* `dependencies_of_reads`: so does every run in which no push does.
* `stale_dependency`: a `read_file` that has no page for its node leaves its dependency to the next
  push.
-/

namespace AgentOS

open Machine

/-- The file that a dependency is on, with the version it records. -/
def depRead (d : AgentContextDep) : Option (InodeKey × ℕ) :=
  if d.used then some ((d.dev, d.inum), d.version) else none

/-- The file that was read, with the version that was read. -/
def readVersion (r : Option ReadFile) : Option (InodeKey × ℕ) := r.map fun f => (f.key, f.version)

/-- **The dependencies are those of the reads**, node by node. -/
def ReadsInv (s : ToolRun) : Prop := (liveDeps s.proc.ctx).map depRead = s.reads.map readVersion

/-- **The condition on a step**: a push finds no pending dependency. -/
def NothingStale (s : ToolRun) : ToolLabel → Prop
  | .push _ _ => s.proc.ctx.pendingContextDep = false
  | _ => True

/-! ### One tool call -/

section

variable {c c' : ContextState} {p : Proc} {m m' : Memory} {t t' : FileVersions}
  {tool params : List UInt8} {env : ToolWorld} {resp : AgentToolResponse} {n : ℕ}

theorem depRead_pendingDep (c : ContextState) (n : ℕ) :
    depRead (c.pendingDep n) = if c.pendingContextDep then
      some ((c.pendingContextDev, c.pendingContextInum), c.pendingContextVersion) else none := by
  unfold depRead ContextState.pendingDep
  split <;> rfl

/-- **What `read_file` leaves pending**: the file it has read, or nothing new. -/
theorem toolReadFile_pending (c : ContextState) (t : FileVersions) (params : List UInt8)
    (env : ToolWorld) (n : ℕ) (hc : c.pendingContextDep = false) :
    depRead ((toolReadFile c t params env).1.pendingDep n) =
      readVersion (if env.pages = true then (paramValue params (lit "path") 64).bind fun path =>
        (readFileContentVersioned t env.file path).2 else none) := by
  have hnone : depRead (c.pendingDep n) = none := by
    rw [depRead_pendingDep, hc]
    rfl
  unfold toolReadFile
  cases hpath : paramValue params (lit "path") 64 with
  | none =>
    dsimp only
    rw [hnone, Option.bind_none, ite_self]
    rfl
  | some path =>
    dsimp only
    by_cases hpages : env.pages = false
    · rw [if_pos hpages, if_neg (by rw [hpages]; decide)]
      exact hnone
    · rw [if_neg hpages, if_pos (by simpa using hpages), Option.bind_some]
      split
      · rename_i hread
        rw [hread]
        exact hnone
      · rename_i f hread
        rw [hread, depRead_pendingDep]
        rfl

/-- **What a tool call leaves pending**, just before its node. -/
theorem agentToolHandle_pending (h : (agentToolHandle p.ctx p t tool params env).2.2.2 = true)
    (n : ℕ) : depRead ((agentToolHandle p.ctx p t tool params env).1.pendingDep n) =
      readVersion (toolReads p t tool params env) := by
  unfold agentToolHandle at h ⊢
  unfold toolReads
  cases hroute : agentToolRoute env.runtime p tool with
  | error resp =>
    rw [hroute] at h
    cases h
  | builtin b =>
    cases b with
    | readFile =>
      dsimp only
      rw [toolReadFile_pending _ _ _ _ _ rfl]
      simp only [true_and]
    | _ => simp [depRead_pendingDep, ContextState.dropPending, readVersion]
  | dynamic => simp [depRead_pendingDep, ContextState.dropPending, readVersion]

/-- The handlers leave the nodes alone. -/
theorem agentToolHandle_liveDeps :
    liveDeps (agentToolHandle p.ctx p t tool params env).1 = liveDeps p.ctx := by
  have hread : liveDeps (toolReadFile p.ctx.dropPending t params env).1 = liveDeps p.ctx := by
    unfold toolReadFile
    split
    · exact liveDeps_congr rfl rfl
    · split
      · exact liveDeps_congr rfl rfl
      · split
        · exact liveDeps_congr rfl rfl
        · exact liveDeps_congr rfl rfl
  unfold agentToolHandle
  split
  · dsimp only
    split
    · rfl
    · exact liveDeps_congr rfl rfl
  · exact hread
  · exact liveDeps_congr rfl rfl

/-- A call has read a file if and only if it is a `read_file` that answers OK. -/
theorem toolReads_isSome : (toolReads p t tool params env).isSome = true ↔
    agentToolRoute env.runtime p tool = .builtin .readFile ∧
      (agentToolHandle p.ctx p t tool params env).2.2.1.status = agentToolOk := by
  have hparam : agentToolErrBadParam ≠ agentToolOk := by decide
  have hspace : agentToolErrNoSpace ≠ agentToolOk := by decide
  unfold toolReads agentToolHandle
  by_cases hroute : agentToolRoute env.runtime p tool = .builtin .readFile
  · rw [hroute]
    simp only [true_and]
    unfold toolReadFile
    cases hpath : paramValue params (lit "path") 64 with
    | none => simp [toolRespSet, hparam]
    | some path =>
      by_cases hpages : env.pages = false
      · simp [hpages, toolRespSet, hspace]
      · have hthere : env.pages = true := by simpa using hpages
        cases hread : readFileContentVersioned t env.file path with
        | mk t' r => cases r <;> simp [hthere, hread, toolRespSet, hparam]
  · rw [if_neg fun h => hroute h.1]
    simp only [hroute, Option.isSome_none, false_and, Bool.false_eq_true]

theorem toolRecords_of_node (h : (agentToolHandle p.ctx p t tool params env).2.2.2 = true) :
    toolRecords p m t tool params env = (agentToolHandle p.ctx p t tool params env).1.recorded m
      (toolNode tool params (agentToolHandle p.ctx p t tool params env).2.2.1 env.now) env.now := by
  unfold toolRecords
  dsimp only
  rw [h, Bool.true_and]

theorem toolRecords_of_none (h : (agentToolHandle p.ctx p t tool params env).2.2.2 = false) :
    toolRecords p m t tool params env = false := by
  unfold toolRecords
  dsimp only
  rw [h, Bool.false_and]

/-- **A tool call** drops the oldest nodes; the one it records has the dependency of its read. -/
theorem toolCall_liveDeps (h : agentToolCall p m t tool params env = some (c', m', t', resp)) :
    ∃ j dep, depRead dep = readVersion (toolReads p t tool params env) ∧
      liveDeps c' = (if toolRecords p m t tool params env then liveDeps p.ctx ++ [dep]
        else liveDeps p.ctx).drop j := by
  unfold agentToolCall at h
  dsimp only at h
  split at h
  · rename_i hnode
    obtain ⟨⟨c₁, m₁, r⟩, hpush, heq⟩ := Option.map_eq_some_iff.1 h
    obtain rfl : c₁ = c' := congrArg Prod.fst heq
    obtain ⟨j, hj⟩ := push_liveDeps hpush
    rw [agentToolHandle_liveDeps] at hj
    refine ⟨j, _, agentToolHandle_pending hnode
      (agentToolHandle p.ctx p t tool params env).1.contextNextSequence, ?_⟩
    rw [toolRecords_of_node hnode]
    exact hj
  · rename_i hnode
    obtain rfl : (agentToolHandle p.ctx p t tool params env).1 = c' :=
      congrArg Prod.fst (Option.some.inj h)
    obtain ⟨dep, hdep⟩ : ∃ dep : AgentContextDep,
        depRead dep = readVersion (toolReads p t tool params env) := by
      cases toolReads p t tool params env with
      | none => exact ⟨AgentContextDep.zero, rfl⟩
      | some f => exact ⟨⟨true, 0, f.key.1, f.key.2, f.version⟩, rfl⟩
    refine ⟨0, dep, hdep, ?_⟩
    rw [toolRecords_of_none (by simpa using hnode), if_neg (by decide), List.drop_zero]
    exact agentToolHandle_liveDeps

end

/-! ### The run -/

section

variable {s u : ToolRun} {l : ToolLabel} {c : ContextState} {p : Proc} {m : Memory}

/-- A push that drops the oldest of the nodes `deps`, which were pushed with `reads`. -/
theorem ReadsInv.keepNewest {deps : List AgentContextDep} {reads : List (Option ReadFile)} {j : ℕ}
    (h : deps.map depRead = reads.map readVersion) (hc : liveDeps c = deps.drop j) :
    ReadsInv (s.keepNewest c m reads) := by
  have hlen : deps.length = reads.length := by
    simpa only [List.length_map] using congrArg List.length h
  have hcount : c.contextNodeCount = deps.length - j := by
    rw [← liveDeps_length, hc, List.length_drop]
  have hdrop : deps.drop j = deps.drop (reads.length - c.contextNodeCount) := by
    rcases Nat.le_total j deps.length with hle | hle
    · congr 1
      omega
    · rw [List.drop_of_length_le hle, List.drop_of_length_le (by omega)]
  unfold ReadsInv ToolRun.keepNewest
  dsimp only
  rw [hc, hdrop, List.map_drop, h, List.map_drop]

/-- A call that drops the newest nodes. -/
theorem ReadsInv.keepOldest (h : ReadsInv s)
    (hp : liveDeps p.ctx = (liveDeps s.proc.ctx).take p.ctx.contextNodeCount) :
    ReadsInv (s.keepOldest p m) := by
  unfold ReadsInv ToolRun.keepOldest
  dsimp only
  rw [hp, List.map_take, h, List.map_take]

theorem ReadsInv.sameNodes (h : ReadsInv s) (hp : liveDeps p.ctx = liveDeps s.proc.ctx) :
    ReadsInv (s.keepOldest p m) := by
  refine h.keepOldest ?_
  rw [← liveDeps_length, hp, List.take_length]

theorem ReadsInv.noNodes (h : ReadsInv s) (hp : p.ctx.contextNodeCount = 0) :
    ReadsInv (s.keepOldest p m) := by
  refine h.keepOldest ?_
  rw [liveDeps_nil hp, hp, List.take_zero]

/-- **The step lemma.** -/
theorem ReadsInv.step (h : ReadsInv s) (hok : NothingStale s l) (hn : s.next l = some u) :
    ReadsInv u := by
  cases l with
  | toolCall tool params env =>
    obtain ⟨⟨c', m', t', resp⟩, hcall, rfl⟩ := Option.map_eq_some_iff.1 hn
    obtain ⟨j, dep, hdep, hj⟩ := toolCall_liveDeps hcall
    dsimp only
    refine ReadsInv.keepNewest (s := s) (m := m') ?_ hj
    split
    · rw [List.map_append, List.map_append, h, List.map_singleton, List.map_singleton, hdep]
    · exact h
  | push node now =>
    obtain ⟨⟨c', m', r⟩, hpush, rfl⟩ := Option.map_eq_some_iff.1 hn
    obtain ⟨j, hj⟩ := push_liveDeps hpush
    refine ReadsInv.keepNewest ?_ hj
    -- nothing is pending, so the node depends on nothing
    have hpending : depRead (s.proc.ctx.pendingDep s.proc.ctx.contextNextSequence) = none := by
      have hfalse : s.proc.ctx.pendingContextDep = false := hok
      rw [depRead_pendingDep, hfalse]
      rfl
    split
    · rw [List.map_append, List.map_append, h, List.map_singleton, List.map_singleton, hpending]
      rfl
    · exact h
  | rollback k now =>
    obtain rfl := Option.some.inj hn
    exact h.keepOldest (rollback_liveDeps ..)
  | clear now =>
    obtain rfl := Option.some.inj hn
    exact h.noNodes (clear_spec ..).2.1
  | query dst len =>
    obtain rfl := Option.some.inj hn
    exact h.sameNodes (liveDeps_congr rfl rfl)
  | mark a =>
    obtain rfl := Option.some.inj hn
    rcases mark_liveDeps s.proc s.mem a with hsame | hnil
    · exact h.sameNodes hsame
    · refine h.noNodes ?_
      rw [← liveDeps_length, hnil, List.length_nil]
  | fork child generation =>
    obtain rfl := Option.some.inj hn
    exact h.noNodes rfl
  | exec m sz =>
    obtain rfl := Option.some.inj hn
    exact h.noNodes rfl
  | memory m sz =>
    obtain rfl := Option.some.inj hn
    exact h
  | files t =>
    obtain rfl := Option.some.inj hn
    exact h
  | other p =>
    obtain rfl := Option.some.inj hn
    exact h

theorem ReadsInv.init (h : s.init) : ReadsInv s := by
  unfold ReadsInv
  rw [liveDeps_nil h.1, h.2]
  rfl

end

/-- **Dependencies belong to their reads**: in every run in which no push finds a pending dependency,
a live node depends on a file if and only if it was pushed by a `read_file` that succeeded, and then
on the file and version that it read. -/
theorem dependencies_of_reads {s : ToolRun} {tr : List ToolLabel}
    (h : toolMachine.Reach NothingStale tr s) :
    s.reads.length = s.proc.ctx.contextNodeCount ∧
      ∀ i < s.proc.ctx.contextNodeCount, ∀ r, s.reads[i]? = some r →
        depRead (s.proc.ctx.contextDeps i) = readVersion r := by
  have hinv : ReadsInv s := h.inv (P := ReadsInv) (fun _ hi => .init hi)
    fun _ _ _ hs hok hn => hs.step hok hn
  have hlen : s.reads.length = s.proc.ctx.contextNodeCount := by
    have hmap := congrArg List.length hinv
    rw [List.length_map, List.length_map, liveDeps_length] at hmap
    exact hmap.symm
  refine ⟨hlen, ?_⟩
  intro i hi r hr
  have hat := congrArg (fun l => l[i]?) hinv
  simp only [List.getElem?_map, hr, Option.map_some] at hat
  rw [List.getElem?_eq_getElem (by rw [liveDeps_length]; exact hi), getElem_liveDeps,
    Option.map_some] at hat
  exact Option.some.inj hat

/-! ### Two runs -/

/-- A new process of one page. -/
def toolStart : ToolRun :=
  ⟨{ Proc.boot with pid := 1, sz := pgsize }, ⟨fun _ => 0, fun g => g == 0, fun g => g == 0⟩,
    FileVersions.init, []⟩

/-- A disk with one file; `nodePage` says whether there is a page for the node. -/
def oneFileEnv (nodePage : Bool) : ToolWorld where
  runtime := Runtime.init
  file path := if path = lit "/a" then some ((1, 2), lit "text") else none
  pages := true
  nodePage := nodePage
  answer := toolRespSet agentToolOk []
  now := 1

/-- It becomes an Agent and reads the file. -/
def readsFile (nodePage : Bool) : List ToolLabel :=
  [.mark ⟨agentTypePrimary, 0, 0, true, 1, 1, AgentGlobal.init, AgentGlobal.init⟩,
    .toolCall (lit "read_file") (lit "path=/a") (oneFileEnv nodePage)]

/-- The state that a run of the process ends in. -/
def newToolRuns (tr : List ToolLabel) : ToolRun := (toolMachine.run toolStart tr).getD toolStart

set_option maxRecDepth 100000 in
theorem readsFile_reach : toolMachine.Reach NothingStale (readsFile true) (newToolRuns (readsFile true)) :=
  ⟨toolStart, ⟨rfl, rfl⟩, (path_getD (by decide +kernel)).of_labels fun l hl s => by
    simp only [readsFile, List.mem_cons, List.not_mem_nil, or_false] at hl
    rcases hl with rfl | rfl <;> trivial⟩

theorem dependencies_of_reads_file :
    (newToolRuns (readsFile true)).reads = [some ⟨(1, 2), 1, lit "text"⟩] ∧
      depRead ((newToolRuns (readsFile true)).proc.ctx.contextDeps 0) = some ((1, 2), 1) := by
  have hend : (newToolRuns (readsFile true)).reads = [some ⟨(1, 2), 1, lit "text"⟩] ∧
      0 < (newToolRuns (readsFile true)).proc.ctx.contextNodeCount := by decide +kernel
  obtain ⟨hreads, hpos⟩ := hend
  refine ⟨hreads, ?_⟩
  exact (dependencies_of_reads readsFile_reach).2 0 hpos _ (by rw [hreads]; rfl)

/-- The call of `read_file` finds no page for its node; then the process pushes one itself. -/
def leavesPending : List ToolLabel := readsFile false ++ [.push ⟨0, 1, 0, 0, 0, [], []⟩ 2]

set_option maxRecDepth 100000 in
/-- **The node of a later push** has the dependency of a read that it does not belong to. -/
theorem stale_dependency : ∃ tr s, toolMachine.Reach always tr s ∧
    s.reads = [none] ∧ depRead (s.proc.ctx.contextDeps 0) = some ((1, 2), 1) :=
  ⟨leavesPending, newToolRuns leavesPending, ⟨toolStart, ⟨rfl, rfl⟩, path_getD (by decide +kernel)⟩,
    by decide +kernel⟩

end AgentOS
