import AgentOS.Model.File
import AgentOS.Model.QueryCache

/-!
# The file tree

The inodes on disk, directories and path names of `kernel/fs.c`, the calls of
`kernel/sysfile.c` that change the tree, and the walk of `kernel/agent_fs.c` over it. A call is
one piece here. What depends on the rest of the system is an argument: the directory `cwd` of
the caller, whether the disk has `room` for the blocks of the call, and whether an inode is
`held` by another reference.
-/

namespace AgentOS

/-! ### Names and inodes -/

def dirsiz : ℕ := 14
def rootino : ℕ := 1
/-- `sb.ninodes`, as `mkfs` sets it. -/
def ninodes : ℕ := 300
/-- `'/'` and `'.'`. -/
def charSlash : UInt8 := 47
def charDot : UInt8 := 46

/-- The name of a `struct dirent`: an element of a path. -/
structure FileName where
  bytes : List UInt8
  ne : bytes ≠ []
  length_le : bytes.length ≤ dirsiz
  char : ∀ b ∈ bytes, b ≠ 0 ∧ b ≠ charSlash
  deriving DecidableEq

/-- These bytes as a name. -/
def FileName.ofBytes (s : List UInt8) : Option FileName :=
  if h : s ≠ [] ∧ s.length ≤ dirsiz ∧ ∀ b ∈ s, b ≠ 0 ∧ b ≠ charSlash then
    some ⟨s, h.1, h.2.1, h.2.2⟩
  else none

/-- `"."` and `".."`. -/
def FileName.dot : FileName := ⟨[charDot], by decide, by decide, by decide +kernel⟩
def FileName.dotdot : FileName := ⟨[charDot, charDot], by decide, by decide, by decide +kernel⟩

/-- `namecmp(name, ".") == 0 || namecmp(name, "..") == 0`. -/
def FileName.isDots (n : FileName) : Bool := n = .dot || n = .dotdot

structure Dirent where
  inum : ℕ
  name : FileName
  deriving DecidableEq

/-- `struct dinode`: a directory has `entries`, where a free slot is `none`, a regular file has
content and metadata. -/
structure DiskInode where
  type : InodeType
  nlink : ℕ
  entries : List (Option Dirent)
  file : FileInode
  deriving DecidableEq

/-- What `iput` leaves of an inode without links. -/
def DiskInode.free : DiskInode := ⟨.free, 0, [], FileInode.zero⟩

/-- The inodes by number. -/
abbrev FileTree := ℕ → DiskInode

/-! ### Directories -/

/-- `dirlookup`. -/
def dirlookup (d : DiskInode) (name : FileName) : Option ℕ :=
  d.entries.findSome? fun o => o.bind fun e => if e.name = name then some e.inum else none

/-- Put an entry in the first free slot, or behind the last. -/
def putEntry (e : Dirent) : List (Option Dirent) → List (Option Dirent)
  | [] => [some e]
  | none :: l => some e :: l
  | some x :: l => some x :: putEntry e l

/-- `dirlink`; `none` when the name is there already. -/
def dirlink (d : DiskInode) (name : FileName) (inum : ℕ) : Option DiskInode :=
  if (dirlookup d name).isSome then none
  else some { d with entries := putEntry ⟨inum, name⟩ d.entries }

/-- Clear the slot that `dirlookup` finds. -/
def clearEntry (name : FileName) : List (Option Dirent) → List (Option Dirent)
  | [] => []
  | none :: l => none :: clearEntry name l
  | some e :: l => if e.name = name then none :: l else some e :: clearEntry name l

/-- `isdirempty`. -/
def isdirempty (d : DiskInode) : Bool := (d.entries.drop 2).all Option.isNone

/-! ### Paths -/

/-- `skipelem`: the first element of the path, and what follows. -/
def skipelem (path : List UInt8) : Option (FileName × List UInt8) :=
  let p := path.dropWhile (· == charSlash)
  let s := p.takeWhile (· != charSlash)
  (FileName.ofBytes (s.take dirsiz)).map fun name =>
    (name, (p.drop s.length).dropWhile (· == charSlash))

/-- The loop of `namex` from `ip`; the name is that of the last element, for `nameiparent`. -/
def namexLoop (t : FileTree) (nameiparent : Bool) :
    ℕ → ℕ → List UInt8 → Option (ℕ × Option FileName)
  | 0, _, _ => none
  | fuel + 1, ip, path =>
    match skipelem path with
    | none => if nameiparent then none else some (ip, none)
    | some (name, path) =>
      if (t ip).type ≠ .dir then none
      else if nameiparent = true ∧ path = [] then some (ip, some name)
      else
        match dirlookup (t ip) name with
        | none => none
        | some next => namexLoop t nameiparent fuel next path

/-- `namex`. -/
def namex (t : FileTree) (nameiparent : Bool) (cwd : ℕ) (path : List UInt8) :
    Option (ℕ × Option FileName) :=
  let path := cstr path
  namexLoop t nameiparent (path.length + 1) (if path.head? = some charSlash then rootino else cwd)
    path

/-- `namei`. -/
def namei (t : FileTree) (cwd : ℕ) (path : List UInt8) : Option ℕ :=
  (namex t false cwd path).map Prod.fst

/-- `nameiparent`. -/
def nameiparent (t : FileTree) (cwd : ℕ) (path : List UInt8) : Option (ℕ × FileName) :=
  match namex t true cwd path with
  | some (dp, some name) => some (dp, name)
  | _ => none

/-! ### Calls -/

/-- `ialloc`: the first free inode. -/
def ialloc (t : FileTree) : Option ℕ :=
  (List.range' 1 (ninodes - 1)).find? fun inum => (t inum).type = .free

/-- A new inode of this type: a directory has its `.` and `..`. -/
def newInode (type : InodeType) (inum dp : ℕ) : DiskInode where
  type := type
  nlink := 1
  entries := if type = .dir then [some ⟨inum, .dot⟩, some ⟨dp, .dotdot⟩] else []
  file := FileInode.zero

/-- `create`, for `sys_open` with `O_CREATE`, `sys_mkdir` and `sys_mknod`. What fails for lack of
room is undone. -/
def create (t : FileTree) (cwd : ℕ) (path : List UInt8) (type : InodeType) (room : Bool) :
    FileTree × Option ℕ :=
  match nameiparent t cwd path with
  | none => (t, none)
  | some (dp, name) =>
    match dirlookup (t dp) name with
    | some ip =>
      (t, if type = .file ∧ ((t ip).type = .file ∨ (t ip).type = .device) then some ip else none)
    | none =>
      match ialloc t with
      | none => (t, none)
      | some inum =>
        match dirlink (t dp) name inum, room with
        | some d, true =>
          let d := if type = .dir then { d with nlink := d.nlink + 1 } else d
          (Function.update (Function.update t inum (newInode type inum dp)) dp d, some inum)
        | _, _ => (t, none)

/-- `iput` of the last reference to an inode. -/
def iput (t : FileTree) (inum : ℕ) : FileTree :=
  if (t inum).type ≠ .free ∧ (t inum).nlink = 0 then Function.update t inum DiskInode.free else t

/-- `sys_unlink`: the tree and the return code; `none` is the panic of an inode without links. -/
def sysUnlink (t : FileTree) (cwd : ℕ) (path : List UInt8) (held : Bool) :
    Option (FileTree × ℤ) :=
  match nameiparent t cwd path with
  | none => some (t, -1)
  | some (dp, name) =>
    if name.isDots then some (t, -1)
    else
      match dirlookup (t dp) name with
      | none => some (t, -1)
      | some inum =>
        if (t inum).nlink < 1 then none
        else if (t inum).type = .dir ∧ isdirempty (t inum) = false then some (t, -1)
        else
          let d := { t dp with
            entries := clearEntry name (t dp).entries
            nlink := if (t inum).type = .dir then (t dp).nlink - 1 else (t dp).nlink }
          let t := Function.update t dp d
          let t := Function.update t inum { t inum with nlink := (t inum).nlink - 1 }
          some (if held then t else iput t inum, 0)

/-- `sys_link`. A link that fails is undone. -/
def sysLink (t : FileTree) (cwd : ℕ) (old new : List UInt8) (room : Bool) : FileTree × ℤ :=
  match namei t cwd old with
  | none => (t, -1)
  | some ip =>
    if (t ip).type = .dir then (t, -1)
    else
      match nameiparent t cwd new with
      | none => (t, -1)
      | some (dp, name) =>
        match dirlink (t dp) name ip, room with
        | some d, true =>
          (Function.update (Function.update t ip { t ip with nlink := (t ip).nlink + 1 }) dp d, 0)
        | _, _ => (t, -1)

/-- `filewrite` and `O_TRUNC`: new content of a regular file that is open. -/
def fileWrite (t : FileTree) (inum : ℕ) (data : List UInt8) : FileTree :=
  if (t inum).type = .file then
    Function.update t inum { t inum with file := { (t inum).file with data := data } }
  else t

/-! ### The walk -/

/-- `file_join_path`. -/
def fileJoinPath (base name : List UInt8) (outsz : ℕ) : Option (List UInt8) :=
  if cstr base = [] then
    if outsz ≤ 1 then none else some (safestrcpy name outsz)
  else
    let out := safestrcpy base outsz
    if outsz - 1 ≤ out.length then none
    else if outsz - 1 ≤ out.length + 1 then none
    else some (out ++ charSlash :: safestrcpy name (outsz - (out.length + 1)))

/-- `file_index_walk`: the regular files that it visits, in order, with their paths. A path has
less than `AGENT_FILE_PATH_MAX` bytes and grows with every level, which bounds the recursion. -/
def fileIndexWalk (t : FileTree) : ℕ → ℕ → List UInt8 → List (ℕ × List UInt8)
  | 0, _, _ => []
  | fuel + 1, ip, path =>
    match (t ip).type with
    | .file => [(ip, path)]
    | .dir => (t ip).entries.flatMap fun
      | none => []
      | some e =>
        if e.name.isDots then []
        else
          match fileJoinPath path e.name.bytes agentFilePathMax with
          | none => []
          | some childPath =>
            match dirlookup (t ip) e.name with
            | none => []
            | some child => fileIndexWalk t fuel child childPath
    | _ => []

/-- The files of a walk from the root. -/
def rootWalk (t : FileTree) : List (ℕ × List UInt8) :=
  fileIndexWalk t (agentFilePathMax + 1) rootino []

end AgentOS
