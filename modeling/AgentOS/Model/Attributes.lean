import AgentOS.Model.FileSystem

/-!
# Attributes of files

`agentfs_tool_get_file_attr` of `kernel/agent_fs.c`, and the machine of the three tools that set,
get and delete attributes, one call at a time.
-/

namespace AgentOS

/-- `agentfs_tool_get_file_attr`; `kalloc` tells whether there is a page for the answer. -/
def FileSystem.getFileAttr (s : FileSystem) (cwd : ℕ) (params : List UInt8) (kalloc : Bool) :
    FileSystem :=
  match paramValue params (lit "path") agentFilePathMax,
      paramValue params (lit "key") inodeAttrKeyMax with
  | some path, some key =>
    if kalloc = false then s.respond agentToolErrNoSpace (lit "no memory")
    else
      match namei s.tree cwd path with
      | none => s.respond agentToolErrBadParam (lit "file not found")
      | some inum =>
        match (s.tree inum).file.attrs.find? fun a => streq a.key key with
        | none => s.respond agentToolErrBadParam (lit "attr not found")
        | some a =>
          let buf := resultPuts (resultPuts [] (lit "\x7bstatus=ok,path=")) path
          let buf := resultPuts (resultPuts buf (lit ",")) key
          let buf := resultPuts (resultPuts buf (lit "=")) a.value
          s.respond agentToolOk (resultPuts buf (lit "\x7d"))
  | _, _ => s.respond agentToolErrBadParam (lit "bad params")

/-- A call of one of the tools, by a process whose directory is `cwd`. -/
inductive AttrCall
  | set (cwd : ℕ) (params : List UInt8)
  | get (cwd : ℕ) (params : List UInt8) (kalloc : Bool)
  | del (cwd : ℕ) (params : List UInt8)
  deriving DecidableEq, Repr

/-- One call; the parameters end inside their field. -/
def FileSystem.attrNext (s : FileSystem) : AttrCall → FileSystem
  | .set cwd params => s.setFileAttr cwd (safestrcpy params agentToolParamMax)
  | .get cwd params kalloc => s.getFileAttr cwd (safestrcpy params agentToolParamMax) kalloc
  | .del cwd params => s.delFileAttr cwd (safestrcpy params agentToolParamMax)

/-- **The machine of the attribute tools**, from any files with at most four attributes, with
distinct keys. -/
def attrMachine : Machine FileSystem AttrCall where
  init s := ∀ inum, (s.tree inum).file.AttrsOk
  next s a := some (s.attrNext a)

end AgentOS
