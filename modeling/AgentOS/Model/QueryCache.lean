import AgentOS.Model.Query

/-!
# Files, the index build and the shared query cache

`kernel/agent_fs.c`: what the AgentFS tools do to the metadata of an inode, how the index is
built from the regular files that `file_index_walk` visits, and the cache of query results that
agents share.
-/

namespace AgentOS

/-! ### Inodes -/

/-- What AgentFS reads and writes of an inode: the first `attr_count` attributes, the summary,
and the content the summary is taken from. -/
structure FileInode where
  data : List UInt8
  attrs : List InodeAttr
  summary : List UInt8
  deriving DecidableEq

/-- The inode that `ialloc` finds: `iput` has cleared it. -/
def FileInode.zero : FileInode := ⟨[], [], []⟩

/-- `inode_summary_refresh`. -/
def inodeSummaryRefresh (ip : FileInode) : FileInode :=
  { ip with summary := safestrcpy ip.data inodeSummaryMax }

/-- Store `value` in the first attribute with this key. -/
def setAttrValue (key value : List UInt8) : List InodeAttr → Option (List InodeAttr)
  | [] => none
  | a :: attrs =>
    if streq a.key key then
      some ({ a with
        value := safestrcpy value inodeAttrValueMax
        value_lt := attrValue_lt value } :: attrs)
    else (setAttrValue key value attrs).map (a :: ·)

/-- A change that a tool makes to the metadata of a regular file. -/
inductive MetaChange
  | setAttr (key value : List UInt8)
  | delAttr (key : List UInt8)
  | patch (data : List UInt8)
  deriving DecidableEq, Repr

/-- The part of `agentfs_tool_set_file_attr`, `agentfs_tool_del_file_attr` and `tool_patch_file`
that holds the inode's lock; `none` is an error, and the inode is as before. -/
def MetaChange.apply (ip : FileInode) : MetaChange → Option FileInode
  | .setAttr key value =>
    match setAttrValue (safestrcpy key inodeAttrKeyMax) value ip.attrs with
    | some attrs => some (inodeSummaryRefresh { ip with attrs := attrs })
    | none =>
      if inodeAttrMax ≤ ip.attrs.length then none
      else some (inodeSummaryRefresh { ip with attrs := ip.attrs ++ [InodeAttr.mk' key value] })
  | .delAttr key =>
    match ip.attrs.findIdx? fun a => streq a.key (safestrcpy key inodeAttrKeyMax) with
    | none => none
    | some i => some { ip with attrs := ip.attrs.eraseIdx i }
  | .patch data => some (inodeSummaryRefresh { ip with data := data })

/-! ### The index build -/

/-- `ROOTDEV`, the device of every inode. -/
def rootdev : ℕ := 1

/-- `file_cache_fill_from_inode_locked`. -/
def fileCacheFill (inum : ℕ) (path : List UInt8) (ip : FileInode) : AgentFileMeta where
  used := true
  inum := inum
  dev := rootdev
  path := safestrcpy path agentFilePathMax
  summary := safestrcpy ip.summary inodeSummaryMax
  attrs := ip.attrs

/-- The first section of `file_index_build`. -/
def fileIndexClear (t : AgentFileIndex) : AgentFileIndex :=
  fileIndexReset { t with fileMeta := fun _ => AgentFileMeta.zero }

/-- The section of `file_index_walk` at a regular file. -/
def fileIndexVisit (m : ℕ → FileInode) (t : AgentFileIndex) (f : ℕ × List UInt8) :
    AgentFileIndex :=
  fileCacheUpsert t (fileCacheFill f.1 f.2 (m f.1))

/-- The last section of `file_index_build`. -/
def fileIndexFinish (t : AgentFileIndex) : AgentFileIndex :=
  { fileRebuildPostings t with ready := true }

/-- `file_index_build` in one piece, for the regular files that the walk visits. -/
def fileIndexBuild (t : AgentFileIndex) (m : ℕ → FileInode) (walk : List (ℕ × List UInt8)) :
    AgentFileIndex :=
  fileIndexFinish (walk.foldl (fileIndexVisit m) (fileIndexClear t))

/-! ### The shared query cache -/

abbrev agentSharedQueryCacheMax : ℕ := 8

/-- `struct shared_query_cache`. -/
structure SharedQueryCache where
  used : Bool
  query : List UInt8
  result : List UInt8
  ownerPid : ℕ
  ownerGroup : ℤ
  refcnt : ℕ
  version : ℕ
  deriving DecidableEq

def SharedQueryCache.zero : SharedQueryCache := ⟨false, [], [], 0, 0, 0, 0⟩

/-- `param_value` into a field of `outsz` bytes; `fuel` rounds of its loop. -/
def paramValueLoop (key : List UInt8) (outsz : ℕ) : ℕ → List UInt8 → Option (List UInt8)
  | 0, _ => none
  | fuel + 1, p =>
    if p = [] then none
    else if (key ++ [charEquals]).isPrefixOf p then
      some (((p.drop (key.length + 1)).takeWhile (· != charSemicolon)).take (outsz - 1))
    else
      let p := p.dropWhile (· != charSemicolon)
      paramValueLoop key outsz fuel (if p.head? = some charSemicolon then p.tail else p)

/-- `param_value`. -/
def paramValue (params key : List UInt8) (outsz : ℕ) : Option (List UInt8) :=
  paramValueLoop key outsz ((cstr params).length + 1) (cstr params)

/-- `query_allows_public_share`. -/
def queryAllowsPublicShare (params : List UInt8) : Bool :=
  let is (key value : List UInt8) : Bool :=
    match paramValue params key inodeAttrValueMax with
    | some v => streq v value
    | none => false
  is (lit "public") (lit "true") || is (lit "owner") (lit "system")

/-- `cache_access_allowed`. -/
def cacheAccessAllowed (p : Proc) (e : SharedQueryCache) : Bool :=
  queryAllowsPublicShare e.query || (p.ident.agentGroup != 0 && p.ident.agentGroup == e.ownerGroup)

/-- The shared cache and the version of the metadata. -/
structure QueryCaches where
  entries : Fin agentSharedQueryCacheMax → SharedQueryCache
  version : ℕ

/-- `agent_file_version` is 1 at boot. -/
def QueryCaches.init : QueryCaches := ⟨fun _ => SharedQueryCache.zero, 1⟩

/-- The search of `shared_query_cache_lookup`. -/
def sharedQueryCacheFind (c : QueryCaches) (p : Proc) (query : List UInt8) :
    Option (Fin agentSharedQueryCacheMax) :=
  Table.first c.entries fun e =>
    e.used && e.version == c.version && streq e.query query && cacheAccessAllowed p e

/-- `query_result_with_cache`. -/
def queryResultWithCache (base : List UInt8) (hit ownerPid refcnt version fsScanned : ℕ) :
    List UInt8 :=
  let base := cstr base
  let base := if base.getLast? = some 125 then base.dropLast else base
  let buf := resultPuts [] base
  let buf := resultPutu (resultPuts buf (lit ",cache_hit=")) hit
  let buf := resultPutu (resultPuts buf (lit ",cache_owner=")) ownerPid
  let buf := resultPutu (resultPuts buf (lit ",cache_refcnt=")) refcnt
  let buf := resultPutu (resultPuts buf (lit ",cache_version=")) version
  let buf := resultPutu (resultPuts buf (lit ",fs_scanned=")) fsScanned
  resultPuts buf (lit "\x7d")

/-- `shared_query_cache_lookup`: the cache, and the answer on a hit. -/
def sharedQueryCacheLookup (c : QueryCaches) (p : Proc) (query : List UInt8) :
    QueryCaches × Option (List UInt8) :=
  match sharedQueryCacheFind c p query with
  | none => (c, none)
  | some i =>
    let e := { c.entries i with refcnt := (c.entries i).refcnt + 1 }
    ({ c with entries := Function.update c.entries i e },
      some (queryResultWithCache e.result 1 e.ownerPid e.refcnt e.version 0))

/-- The slot that `shared_query_cache_store` takes. -/
def sharedQueryCacheSlot (c : QueryCaches) (query : List UInt8) : Fin agentSharedQueryCacheMax :=
  match Table.first c.entries fun e => e.used && streq e.query query with
  | some i => i
  | none => (Table.first c.entries fun e => !e.used).getD 0

/-- `shared_query_cache_store`. -/
def sharedQueryCacheStore (c : QueryCaches) (p : Proc) (query result : List UInt8) :
    QueryCaches :=
  let e : SharedQueryCache :=
    { used := true, query := safestrcpy query agentToolParamMax,
      result := safestrcpy result agentToolResultMax, ownerPid := p.pid,
      ownerGroup := p.ident.agentGroup, refcnt := 1, version := c.version }
  { c with entries := Function.update c.entries (sharedQueryCacheSlot c query) e }

/-- `agent_file_version_bump`. -/
def agentFileVersionBump (c : QueryCaches) : QueryCaches :=
  { c with version := (c.version + 1) % 2 ^ 64 }

end AgentOS
