import AgentOS.Lib.Transition
import AgentOS.Model.FileTree

/-!
# File-system calls and AgentFS tools, one at a time

The calls that change the tree and the AgentFS tools of `kernel/agent_fs.c` and
`kernel/agent_tool.c`, each run to its end before the next begins: the machine of one processor
that no call shares.
-/

namespace AgentOS

/-- The tree, the index, the shared query cache and the response of the last tool. `built` is a
history that no step reads: the tree at the last index build. -/
structure FileSystem where
  tree : FileTree
  index : AgentFileIndex
  caches : QueryCaches
  built : FileTree
  resp : ℤ × List UInt8

/-- A call with its arguments, the directory `cwd` of its caller, and what `FileTree` calls need
of the rest of the system. -/
inductive FsCall
  /-- `sys_open` with `O_CREATE`, `sys_mkdir`, `sys_mknod`. -/
  | create (cwd : ℕ) (path : List UInt8) (type : InodeType) (room : Bool)
  | write (inum : ℕ) (data : List UInt8)
  | unlink (cwd : ℕ) (path : List UInt8) (held : Bool)
  | link (cwd : ℕ) (old new : List UInt8) (room : Bool)
  /-- The last reference to an inode goes. -/
  | iput (inum : ℕ)
  | setFileAttr (cwd : ℕ) (params : List UInt8)
  | delFileAttr (cwd : ℕ) (params : List UInt8)
  /-- With the decoded texts; `pages` says whether `kalloc` finds the two buffers, and `avail`
  bytes of the new content find a block. -/
  | patchFile (cwd : ℕ) (path old newtext : List UInt8) (pages : Bool) (avail : ℕ)
  /-- `pages`: `kalloc` finds the two buffers; `page`: it finds that of the lookup in the cache. -/
  | queryFile (p : Proc) (params : List UInt8) (ticksCost : ℕ) (pages page : Bool)

/-- The metadata of the files. -/
def FileTree.files (t : FileTree) : ℕ → FileInode := fun inum => (t inum).file

def FileTree.setFile (t : FileTree) (inum : ℕ) (ip : FileInode) : FileTree :=
  Function.update t inum { t inum with file := ip }

namespace FileSystem

variable (s : FileSystem)

/-- `file_index_build`. -/
def build : FileSystem :=
  { s with index := fileIndexBuild s.index s.tree.files (rootWalk s.tree), built := s.tree }

/-- `agentfs_content_changed`: `file_index_build` and `agent_file_version_bump`. -/
def contentChanged : FileSystem := { s.build with caches := agentFileVersionBump s.caches }

/-- `tool_resp_set`. -/
def respond (status : ℤ) (result : List UInt8) : FileSystem :=
  { s with resp := (status, safestrcpy result agentToolResultMax) }

/-- `agentfs_tool_set_file_attr`. -/
def setFileAttr (cwd : ℕ) (params : List UInt8) : FileSystem :=
  match paramValue params (lit "path") agentFilePathMax,
      paramValue params (lit "key") inodeAttrKeyMax,
      paramValue params (lit "value") inodeAttrValueMax with
  | some path, some key, some value =>
    match namei s.tree cwd path with
    | none => s.respond agentToolErrBadParam (lit "file not found")
    | some inum =>
      if (s.tree inum).type ≠ .file then s.respond agentToolErrBadParam (lit "not a file")
      else
        match (MetaChange.setAttr key value).apply (s.tree inum).file with
        | none => s.respond agentToolErrNoSpace (lit "too many attrs")
        | some ip =>
          { s with tree := s.tree.setFile inum ip }.contentChanged.respond agentToolOk
            (lit "attr set")
  | _, _, _ => s.respond agentToolErrBadParam (lit "bad params")

/-- `agentfs_tool_del_file_attr`. -/
def delFileAttr (cwd : ℕ) (params : List UInt8) : FileSystem :=
  match paramValue params (lit "path") agentFilePathMax,
      paramValue params (lit "key") inodeAttrKeyMax with
  | some path, some key =>
    match namei s.tree cwd path with
    | none => s.respond agentToolErrBadParam (lit "file not found")
    | some inum =>
      match (MetaChange.delAttr key).apply (s.tree inum).file with
      | none => s.respond agentToolErrBadParam (lit "attr not found")
      | some ip =>
        { s with tree := s.tree.setFile inum ip }.contentChanged.respond agentToolOk
          (lit "attr deleted")
  | _, _ => s.respond agentToolErrBadParam (lit "bad params")

/-- `tool_patch_file`. -/
def patchFile (cwd : ℕ) (path old newtext : List UInt8) (pages : Bool) (avail : ℕ) :
    FileSystem :=
  if old = [] then s.respond agentToolErrBadParam (lit "empty old pattern")
  else if pages = false then s.respond agentToolErrNoSpace (lit "no memory")
  else
    match namei s.tree cwd path with
    | none => s.respond agentToolErrBadParam (lit "file not found")
    | some inum =>
      let data := (s.tree inum).file.data
      if (s.tree inum).type ≠ .file ∨ pgsize - 1 ≤ data.length then
        s.respond agentToolErrBadParam (lit "file too large or invalid")
      else
        match strFind data old with
        | none => s.respond agentToolErrBadParam (lit "pattern not found")
        | some off =>
          let out := patched data old newtext off
          if pgsize - 1 ≤ out.length then
            s.respond agentToolErrNoSpace (lit "patched file too large")
          else
            let r := writei [] 0 out avail
            if r.2 ≠ out.length then
              { s with tree := s.tree.setFile inum { (s.tree inum).file with data := r.1 } }.respond
                agentToolErrBadParam (lit "write failed")
            else
              let ip := inodeSummaryRefresh { (s.tree inum).file with data := r.1 }
              { s with tree := s.tree.setFile inum ip }.contentChanged.respond agentToolOk
                (lit "\x7bstatus=ok,op=replace\x7d")

/-- `agentfs_tool_query_file`. -/
def queryFile (p : Proc) (params : List UInt8) (ticksCost : ℕ) (pages page : Bool) :
    Option FileSystem :=
  if pages = false then some (s.respond agentToolErrNoSpace (lit "no memory"))
  -- `shared_query_cache_lookup`
  else if page = false then some (s.respond agentToolErrNoSpace (lit "no memory"))
  else
    let r := sharedQueryCacheLookup s.caches p params
    match r.2 with
    | some result => some ({ s with caches := r.1 }.respond agentToolOk result)
    | none =>
      -- `file_index_ensure`
      let s := if s.index.ready then s else s.build
      match fileQueryParse params with
      | none => some (s.respond agentToolErrBadParam (lit "bad params"))
      | some q =>
        (queryRun s.index q).map fun r =>
          let buf := queryAnswer r.1 r.2 q.forceScan (fullScanned s.index) ticksCost
          let caches := sharedQueryCacheStore s.caches p params buf
          { s with caches := caches }.respond agentToolOk
            (queryResultWithCache buf 0 p.pid 1 caches.version (fullScanned s.index))

/-- One call; the parameters of a tool end inside their field. -/
def next : FsCall → Option FileSystem
  | .create cwd path type room =>
    if type = .free then none else some { s with tree := (create s.tree cwd path type room).1 }
  | .write inum data => some { s with tree := fileWrite s.tree inum data }
  | .unlink cwd path held =>
    (sysUnlink s.tree cwd path held).map fun r => { s with tree := r.1 }
  | .link cwd old new room => some { s with tree := (sysLink s.tree cwd old new room).1 }
  | .iput inum => some { s with tree := iput s.tree inum }
  | .setFileAttr cwd params => some (s.setFileAttr cwd (safestrcpy params agentToolParamMax))
  | .delFileAttr cwd params => some (s.delFileAttr cwd (safestrcpy params agentToolParamMax))
  | .patchFile cwd path old newtext pages avail =>
    some (s.patchFile cwd path old newtext pages avail)
  | .queryFile p params ticksCost pages page =>
    s.queryFile p (safestrcpy params agentToolParamMax) ticksCost pages page

end FileSystem

/-- At most four attributes, with distinct keys. -/
def FileInode.AttrsOk (ip : FileInode) : Prop :=
  ip.attrs.length ≤ inodeAttrMax ∧ ip.attrs.Pairwise fun a b => streq a.key b.key = false

/-- At boot nothing is indexed or cached; the attributes on the disk are those that `mkfs` and
earlier calls of the tools left. -/
def FileSystem.init (s : FileSystem) : Prop :=
  s.index = AgentFileIndex.init ∧ s.caches = QueryCaches.init ∧ s.built = s.tree ∧
    ∀ inum, (s.tree inum).file.AttrsOk

/-- **The machine of file-system calls and AgentFS tools, one at a time.** -/
def fsMachine : Machine FileSystem FsCall := ⟨FileSystem.init, FileSystem.next⟩

end AgentOS
