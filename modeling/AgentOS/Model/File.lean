import AgentOS.Model.Version

/-!
# Files and the calls that change them

The inodes of `kernel/fs.c` and the file calls of `kernel/file.c`, `kernel/sysfile.c`,
`kernel/vm.c` and `kernel/agent_tool.c`, as a machine of threads. A step is one section
under the lock of an inode, one `iput`, or one call on the version table, so a file read
sees the content and the version that the inode has when `agentfs_inode_version_get`
answers, under the lock that it reads the content with. A system call is a sequence of
such operations between `enter` and `ret`; the tool calls of a batch are one system call.
-/

namespace AgentOS

/-! ### Inodes -/

/-- `ip->type`. -/
inductive InodeType
  | free | dir | file | device
  deriving DecidableEq, Repr

/-- An inode: `struct dinode` with its content, and `ref` of its entry in the inode table. The
links from the `..` of subdirectories are not counted. -/
structure Inode where
  type : InodeType
  nlink : ℕ
  data : List UInt8
  ref : ℕ
  deriving DecidableEq, Repr

/-- `BSIZE`. -/
def bsize : ℕ := 1024

/-- `MAXFILE * BSIZE`. -/
def maxFileSize : ℕ := (12 + 256) * bsize

/-- The bytes of one log transaction of `filewrite` and `writeback`:
`((MAXOPBLOCKS-1-1-2) / 2) * BSIZE`. -/
def writeMax : ℕ := (10 - 1 - 1 - 2) / 2 * bsize

/-- Store bytes at an offset. -/
def overlay (d : List UInt8) (off : ℕ) (bytes : List UInt8) : List UInt8 :=
  d.take off ++ bytes ++ d.drop (off + bytes.length)

/-- The loop of `writei`, when `avail` bytes of the source reach the buffers before a block is
missing or a page of the source faults: the new content and `tot`. The bytes of the block
that fails stay in its buffer, as far as the file reaches. -/
def writeiLoop : ℕ → List UInt8 → ℕ → List UInt8 → ℕ → List UInt8 × ℕ
  | 0, d, _, _, _ => (d, 0)
  | fuel + 1, d, off, src, avail =>
    let m := min src.length (bsize - off % bsize)
    if src = [] then (d, 0)
    else if avail < m then ((overlay d off (src.take avail)).take d.length, 0)
    else
      let r := writeiLoop fuel (overlay d off (src.take m)) (off + m) (src.drop m) (avail - m)
      (r.1, m + r.2)

/-- `writei` rejects the range. -/
def writeiRejects (d : List UInt8) (off n : ℕ) : Prop :=
  d.length < off ∨ (off + n) % 2 ^ 32 < off ∨ maxFileSize < (off + n) % 2 ^ 32

instance (d : List UInt8) (off n : ℕ) : Decidable (writeiRejects d off n) :=
  inferInstanceAs (Decidable (_ ∨ _ ∨ _))

/-- `writei`. -/
def writei (d : List UInt8) (off : ℕ) (src : List UInt8) (avail : ℕ) : List UInt8 × ℤ :=
  if writeiRejects d off src.length then (d, -1)
  else
    let r := writeiLoop src.length d off src avail
    (r.1, r.2)

/-- `str_find`. -/
def strFind (haystack needle : List UInt8) : Option ℕ :=
  (List.range (cstr haystack).length).find? fun i => needle.isPrefixOf ((cstr haystack).drop i)

/-- The patched content of `tool_patch_file`. -/
def patched (d old newtext : List UInt8) (off : ℕ) : List UInt8 :=
  d.take off ++ newtext ++ d.drop (off + old.length)

/-! ### The machine -/

/-- `struct file`, of type `FD_INODE` or `FD_DEVICE`. -/
structure OpenFile where
  ip : InodeKey
  off : ℕ
  writable : Bool
  device : Bool
  deriving DecidableEq, Repr

/-- `struct vma`. -/
structure Vma where
  ip : InodeKey
  writable : Bool
  isPrivate : Bool
  start : ℕ
  off : ℕ
  deriving DecidableEq, Repr

/-- Where a thread is: outside the kernel, between two operations of a system call, or inside
one. -/
inductive FileCall
  | user
  | kernel
  /-- `read_file_content_versioned`, before its `ilock` and after its `iunlockput`. -/
  | read (k : InodeKey)
  | readDone (k : InodeKey) (version : ℕ)
  /-- `tool_patch_file`, before its `ilock`. -/
  | patch (k : InodeKey) (old newtext : List UInt8)
  /-- `sys_open`, with the inode found or created. -/
  | opening (k : InodeKey) (trunc writable : Bool)
  /-- `sys_link`, before `nlink++` and after it. -/
  | linking (k : InodeKey)
  | linked (k : InodeKey)
  /-- `sys_unlink`, before its `ilock`. -/
  | unlinking (k : InodeKey)
  /-- `filewrite`, with `i` of `n` bytes written. -/
  | write (f : ℕ) (k : InodeKey) (n i : ℕ)
  /-- `writeback` at file offset `off`, with `i` of `n` bytes written. -/
  | writeback (k : InodeKey) (off n i : ℕ)
  /-- `iput`. -/
  | iput (k : InodeKey) (next : FileCall)
  /-- `agent_notify_file_modified`. -/
  | notify (k : InodeKey)
  /-- `agentfs_inode_version_remove` of `sys_unlink`. -/
  | remove (k : InodeKey)
  deriving DecidableEq, Repr

/-- One operation of a thread, with what it finds: the inode of a path, whether a resource is
there, the bytes of user memory, how many of them can be written. -/
inductive FileOp
  | enter
  | ret
  | context (l : ContextLabel)
  | readFile (k : InodeKey)
  | readContent
  | readDone
  | patchFile (k : InodeKey) (old newtext : List UInt8)
  | patchContent (avail : ℕ)
  | openPath (k : InodeKey) (trunc writable : Bool)
  | create (k : InodeKey) (type : InodeType) (dirlink trunc writable : Bool)
  | opened (f : Option ℕ)
  | close (f : ℕ)
  | link (k : InodeKey)
  | linkCount
  | linkEntry (ok : Bool)
  | unlink (k : InodeKey)
  | unlinkEntry (isEmpty : Bool)
  | dirents (k : InodeKey) (data : List UInt8)
  | write (f n : ℕ)
  | writeChunk (src : List UInt8) (avail : ℕ)
  | writeback (v : Vma) (addr n : ℕ)
  | writebackChunk (src : List UInt8) (avail : ℕ)
  | hold (k : InodeKey)
  | drop (k : InodeKey)
  | iput
  | notify
  | remove

structure FileLabel where
  thread : Slot
  op : FileOp

/-- Inodes, open files, the version table, and each process with its Context. -/
structure FileState where
  inode : InodeKey → Inode
  files : ℕ → Option OpenFile
  versions : FileVersions
  calls : Slot → FileCall
  agent : Slot → ContextRun

namespace FileState

variable (s : FileState) (j : Slot) (k : InodeKey)

def goto (c : FileCall) : FileState := { s with calls := Function.update s.calls j c }

def setInode (x : Inode) : FileState := { s with inode := Function.update s.inode k x }

def setData (d : List UInt8) : FileState := s.setInode k { s.inode k with data := d }

def setFile (f : ℕ) (x : Option OpenFile) : FileState :=
  { s with files := Function.update s.files f x }

def setAgent (r : ContextRun) : FileState := { s with agent := Function.update s.agent j r }

def setVersions (t : FileVersions) : FileState := { s with versions := t }

/-- `namei` and `dirlookup`: a path that leads to the inode. -/
def namei (next : FileCall) : Option FileState :=
  if s.calls j = .kernel ∧ (s.inode k).type ≠ .free ∧ 0 < (s.inode k).nlink then
    some ((s.setInode k { s.inode k with ref := (s.inode k).ref + 1 }).goto j next)
  else none

/-- `iput`. -/
def iput (next : FileCall) : FileState :=
  let ip := s.inode k
  let ip' := if ip.ref = 1 ∧ ip.nlink = 0 then { ip with type := .free, data := [] } else ip
  (s.setInode k { ip' with ref := ip'.ref - 1 }).goto j next

/-- After a chunk of `filewrite` that wrote `r` of `n1` bytes. -/
def writeNext (f n i : ℕ) (r : ℤ) (n1 : ℕ) : FileCall :=
  if r = n1 then if i + n1 < n then .write f k n (i + n1) else .notify k
  else if 0 < i then .notify k else .kernel

/-- After a chunk of `writeback` that wrote `r` bytes. -/
def writebackNext (off n i : ℕ) (r : ℤ) : FileCall :=
  if r ≤ 0 then if 0 < i then .notify k else .kernel
  else if i + r.toNat < n then .writeback k off n (i + r.toNat) else .notify k

/-- One operation; `none` where it cannot happen. -/
def next (a : FileLabel) : Option FileState :=
  let j := a.thread
  match a.op, s.calls j with
  | .enter, .user => some (s.goto j .kernel)
  | .ret, .kernel => some (s.goto j .user)
  | .context l, .kernel => ((s.agent j).next l).map fun r => s.setAgent j r
  -- `tool_read_file`
  | .readFile k, .kernel => s.namei j k (.read k)
  | .readContent, .read k =>
    if (s.inode k).type = .file then
      let r := s.versions.agentfsInodeVersionGet k
      some ((s.setVersions r.1).goto j (.iput k (.readDone k r.2)))
    else some (s.goto j (.iput k .kernel))
  | .readDone, .readDone k version =>
    let p := (s.agent j).proc
    some ((s.setAgent j ⟨{ p with
      ctx.pendingContextDep := true
      ctx.pendingContextDev := k.1
      ctx.pendingContextInum := k.2
      ctx.pendingContextVersion := version }, (s.agent j).mem⟩).goto j .kernel)
  -- `tool_patch_file`
  | .patchFile k old newtext, .kernel => if old = [] then none else s.namei j k (.patch k old newtext)
  | .patchContent avail, .patch k old newtext =>
    let d := (s.inode k).data
    if (s.inode k).type ≠ .file ∨ pgsize - 1 ≤ d.length then some (s.goto j (.iput k .kernel))
    else
      match strFind d old with
      | none => some (s.goto j (.iput k .kernel))
      | some off =>
        let out := patched d old newtext off
        if pgsize - 1 ≤ out.length then some (s.goto j (.iput k .kernel))
        else
          -- `itrunc`, then `writei`
          let r := writei [] 0 out avail
          let t := s.setData k r.1
          if r.2 ≠ out.length then some (t.goto j (.iput k .kernel))
          else some (t.goto j (.iput k (.notify k)))
  -- `sys_open`
  | .openPath k trunc writable, .kernel => s.namei j k (.opening k trunc writable)
  | .create k type dirlink trunc writable, .kernel =>
    if (s.inode k).type = .free ∧ type ≠ .free then
      if dirlink then
        some ((s.setInode k ⟨type, 1, [], 1⟩).goto j (.opening k trunc writable))
      else some ((s.setInode k ⟨type, 0, [], 1⟩).goto j (.iput k .kernel))
    else none
  | .opened f, .opening k trunc writable =>
    if (s.inode k).type = .dir ∧ (trunc ∨ writable) then some (s.goto j (.iput k .kernel))
    else
      match f with
      | none => some (s.goto j (.iput k .kernel))
      | some f =>
        if s.files f = none then
          let t := s.setFile f (some ⟨k, 0, writable, (s.inode k).type == .device⟩)
          let t := if trunc ∧ (s.inode k).type = .file then t.setData k [] else t
          some (t.goto j .kernel)
        else none
  -- `fileclose` of the last reference
  | .close f, .kernel =>
    (s.files f).map fun x => (s.setFile f none).goto j (.iput x.ip .kernel)
  -- `sys_link`
  | .link k, .kernel => s.namei j k (.linking k)
  | .linkCount, .linking k =>
    if (s.inode k).type = .dir then some (s.goto j (.iput k .kernel))
    else some ((s.setInode k { s.inode k with nlink := (s.inode k).nlink + 1 }).goto j (.linked k))
  | .linkEntry ok, .linked k =>
    if ok then some (s.goto j (.iput k .kernel))
    else
      some ((s.setInode k { s.inode k with nlink := (s.inode k).nlink - 1 }).goto j
        (.iput k .kernel))
  -- `sys_unlink`
  | .unlink k, .kernel => s.namei j k (.unlinking k)
  | .unlinkEntry isEmpty, .unlinking k =>
    if (s.inode k).nlink = 0 then none
    else if (s.inode k).type = .dir ∧ isEmpty = false then some (s.goto j (.iput k .kernel))
    else
      let t := s.setInode k { s.inode k with nlink := (s.inode k).nlink - 1 }
      if (s.inode k).nlink - 1 = 0 then some (t.goto j (.iput k (.remove k)))
      else some (t.goto j (.iput k .kernel))
  -- the entries of a directory, in `dirlink` and `sys_unlink`
  | .dirents k data, .kernel =>
    if (s.inode k).type = .dir then some (s.setData k data) else none
  -- `filewrite`
  | .write f n, .kernel =>
    match s.files f with
    | some x => if x.writable ∧ x.device = false ∧ 0 < n then some (s.goto j (.write f x.ip n 0))
      else none
    | none => none
  | .writeChunk src avail, .write f k n i =>
    match s.files f with
    | some x =>
      if src.length = min (n - i) writeMax then
        let r := writei (s.inode k).data x.off src avail
        let t := (s.setData k r.1).setFile f (some { x with off := x.off + r.2.toNat })
        some (t.goto j (writeNext k f n i r.2 src.length))
      else none
    | none => none
  -- `writeback`
  | .writeback v addr n, .kernel =>
    if v.writable ∧ v.isPrivate = false ∧ 0 < n then
      some (s.goto j (.writeback v.ip ((v.off + v.start + (2 ^ 64 - addr % 2 ^ 64)) % 2 ^ 64) n 0))
    else none
  | .writebackChunk src avail, .writeback k off n i =>
    if src.length = min (n - i) writeMax then
      let r := writei (s.inode k).data ((off + i) % 2 ^ 32) src avail
      some ((s.setData k r.1).goto j (writebackNext k off n i r.2))
    else none
  -- other references: `chdir`, `exec`, the end of a process
  | .hold k, .kernel => s.namei j k .kernel
  | .drop k, .kernel => some (s.goto j (.iput k .kernel))
  | .iput, .iput k next => some (s.iput j k next)
  | .notify, .notify k =>
    some ((s.setVersions (s.versions.agentfsInodeVersionBump k).1).goto j .kernel)
  | .remove, .remove k =>
    some ((s.setVersions (s.versions.agentfsInodeVersionRemove k)).goto j .kernel)
  | _, _ => none

/-- Before any call: the version table is that of boot, every thread is outside the kernel, and
every Context is empty. -/
def init : Prop :=
  s.versions = FileVersions.init ∧ (∀ j, s.calls j = .user) ∧ ∀ j, (s.agent j).init

end FileState

/-- **The machine of file calls.** -/
def fileMachine : Machine FileState FileLabel := ⟨FileState.init, FileState.next⟩

end AgentOS
