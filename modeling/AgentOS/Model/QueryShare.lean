import AgentOS.Lib.Transition
import AgentOS.Model.QueryCache

/-!
# The machine of shared queries

Agents that query files while others change metadata. A step is one section under one lock:
`agent_fs_runtime_lock` (the cache and the version), `agent_file_lock` (the index), or the lock
of an inode, with `agent_file_lock` inside it for a file that the walk of an index build visits.
A build holds the lock of the root from before it clears the index until its walk is over; a
path relative to another directory does not meet that lock. No call of this machine creates or
removes a name, so the walk of every build visits the same files, those of `walk`.
-/

namespace AgentOS

/-- Whom an index build serves: a query with these parameters, or a change of metadata. -/
inductive BuildFor
  | query (params : List UInt8)
  | update
  deriving DecidableEq, Repr

/-- Where an agent is. -/
inductive QueryCall
  | user
  /-- `agentfs_tool_query_file` before `shared_query_cache_lookup`. -/
  | lookup (params : List UInt8)
  /-- Before the check of `file_index_ensure`. -/
  | ensure (params : List UInt8)
  /-- `file_index_build` before it clears the index. -/
  | build (c : BuildFor)
  /-- In its walk, with the root locked and `next` files visited. -/
  | walking (c : BuildFor) (next : ℕ)
  /-- Before the postings are rebuilt. -/
  | finish (c : BuildFor)
  /-- Before the loops of the query. -/
  | evaluate (params : List UInt8)
  /-- Before `shared_query_cache_store`, with the answer in `buf`. -/
  | store (params buf : List UInt8) (full : ℕ)
  /-- Before the version is read for the answer. -/
  | answer (buf : List UInt8) (full : ℕ)
  /-- Before `agent_file_version_bump`. -/
  | bump
  | returned (status : ℤ) (result : List UInt8)
  deriving DecidableEq, Repr

/-- Is this agent inside an index build, or has it a change that no version stands for yet? -/
def QueryCall.busy : QueryCall → Bool
  | .build .update | .walking _ _ | .finish _ | .bump => true
  | _ => false

/-- Inodes, index, cache and agents; `root` holds the lock of the root in a build. `stands` and
`settled` are histories that no step reads: the metadata when the version was set; and has no
build begun since no agent was busy? -/
structure QuerySystem where
  agents : Slot → Proc
  walk : List (ℕ × List UInt8)
  inodes : ℕ → FileInode
  index : AgentFileIndex
  caches : QueryCaches
  root : Option Slot
  calls : Slot → QueryCall
  stands : ℕ → FileInode
  settled : Bool

/-- `pages` and `page` say whether `kalloc` finds the pages of the section. -/
inductive QueryLabel
  | query (i : Slot) (params : List UInt8) (pages : Bool)
  | lookup (i : Slot) (page : Bool)
  | ensure (i : Slot)
  | clear (i : Slot)
  | visit (i : Slot)
  | walked (i : Slot)
  | finish (i : Slot)
  | evaluate (i : Slot) (ticksCost : ℕ)
  | store (i : Slot)
  | answer (i : Slot)
  | change (i : Slot) (inum : ℕ) (c : MetaChange)
  | bump (i : Slot)
  | sysret (i : Slot)
  | other (i : Slot) (p : Proc)

/-- What follows an index build. -/
def BuildFor.after : BuildFor → QueryCall
  | .query params => .evaluate params
  | .update => .bump

namespace QuerySystem

variable (s : QuerySystem) (i : Slot)

def goto (c : QueryCall) : QuerySystem :=
  { s with
    calls := Function.update s.calls i c
    settled := s.settled || decide (∀ j, (Function.update s.calls i c j).busy = false) }

/-- One section. -/
def next : QueryLabel → Option QuerySystem
  -- the parameters of a call end inside their field
  | .query i params pages =>
    if s.calls i = .user then
      if pages then some (s.goto i (.lookup (safestrcpy params agentToolParamMax)))
      else some (s.goto i (.returned agentToolErrNoSpace (lit "no memory")))
    else none
  | .lookup i page =>
    match s.calls i with
    | .lookup params =>
      if page then
        let r := sharedQueryCacheLookup s.caches (s.agents i) params
        match r.2 with
        | some result => some ({ s with caches := r.1 }.goto i (.returned agentToolOk result))
        | none => some (s.goto i (.ensure params))
      else some (s.goto i (.returned agentToolErrNoSpace (lit "no memory")))
    | _ => none
  | .ensure i =>
    match s.calls i with
    | .ensure params =>
      some (s.goto i (if s.index.ready then .evaluate params else .build (.query params)))
    | _ => none
  | .clear i =>
    match s.calls i with
    | .build c =>
      if s.root = none then
        some ({ s with index := fileIndexClear s.index, root := some i, settled := false }.goto i
          (.walking c 0))
      else none
    | _ => none
  | .visit i =>
    match s.calls i with
    | .walking c n =>
      match s.walk[n]? with
      | some f =>
        some ({ s with index := fileIndexVisit s.inodes s.index f }.goto i (.walking c (n + 1)))
      | none => none
    | _ => none
  | .walked i =>
    match s.calls i with
    | .walking c n =>
      if n = s.walk.length then some ({ s with root := none }.goto i (.finish c)) else none
    | _ => none
  | .finish i =>
    match s.calls i with
    | .finish c => some ({ s with index := fileIndexFinish s.index }.goto i c.after)
    | _ => none
  | .evaluate i ticksCost =>
    match s.calls i with
    | .evaluate params =>
      match fileQueryParse params with
      | none => some (s.goto i (.returned agentToolErrBadParam (lit "bad params")))
      | some q =>
        (queryRun s.index q).map fun r =>
          s.goto i (.store params
            (queryAnswer r.1 r.2 q.forceScan (fullScanned s.index) ticksCost)
            (fullScanned s.index))
    | _ => none
  | .store i =>
    match s.calls i with
    | .store params buf full =>
      let caches := sharedQueryCacheStore s.caches (s.agents i) params buf
      some ({ s with caches := caches }.goto i (.answer buf full))
    | _ => none
  | .answer i =>
    match s.calls i with
    | .answer buf full =>
      some (s.goto i (.returned agentToolOk
        (queryResultWithCache buf 0 (s.agents i).pid 1 s.caches.version full)))
    | _ => none
  | .change i inum c =>
    if s.calls i = .user then
      match c.apply (s.inodes inum) with
      | none => some (s.goto i (.returned agentToolErrBadParam []))
      | some ip =>
        some ({ s with inodes := Function.update s.inodes inum ip }.goto i (.build .update))
    else none
  | .bump i =>
    if s.calls i = .bump then
      some ({ s with caches := agentFileVersionBump s.caches, stands := s.inodes }.goto i
        (.returned agentToolOk []))
    else none
  | .sysret i =>
    match s.calls i with
    | .returned _ _ => some (s.goto i .user)
    | _ => none
  | .other i p => some { s with agents := Function.update s.agents i p }

/-- At boot nothing is indexed or cached. -/
def init : Prop :=
  s.index = AgentFileIndex.init ∧ s.caches = QueryCaches.init ∧ s.root = none ∧
    s.stands = s.inodes ∧ s.settled = true ∧ ∀ i, s.calls i = .user

/-- The complete index of metadata `m`. -/
def complete (m : ℕ → FileInode) : AgentFileIndex := fileIndexBuild AgentFileIndex.init m s.walk

end QuerySystem

/-- **The machine of shared queries.** -/
def queryMachine : Machine QuerySystem QueryLabel := ⟨QuerySystem.init, QuerySystem.next⟩

end AgentOS
