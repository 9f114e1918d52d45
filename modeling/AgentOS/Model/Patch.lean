import AgentOS.Model.FileTree
import AgentOS.Model.Tool

/-!
# Patching a file

`tool_patch_file` of `kernel/agent_tool.c` as one call: its parameters, the search, `itrunc` and
`writei` under the lock of the inode, and its answer. `kalloc` says whether both pages are there;
`free` counts the blocks that `balloc` can give the file once `itrunc` has freed its own.
-/

namespace AgentOS

/-! ### The parameters -/

/-- `hexval`. -/
def hexval (c : UInt8) : Option ℕ :=
  if 48 ≤ c ∧ c ≤ 57 then some (c.toNat - 48)
  else if 97 ≤ c ∧ c ≤ 102 then some (c.toNat - 97 + 10)
  else if 65 ≤ c ∧ c ≤ 70 then some (c.toNat - 65 + 10)
  else none

/-- `(*src == '+') ? ' ' : *src`. -/
def decodeChar (c : UInt8) : UInt8 := if c = 43 then 32 else c

/-- The loop of `percent_decode`, with room for `n` bytes. -/
def percentDecodeLoop : ℕ → List UInt8 → List UInt8
  | 0, _ => []
  | _, [] => []
  | n + 1, 37 :: a :: b :: src =>
    match hexval a, hexval b with
    | some hi, some lo => UInt8.ofNat (hi * 16 + lo) :: percentDecodeLoop n src
    | _, _ => 37 :: percentDecodeLoop n (a :: b :: src)
  | n + 1, c :: src => decodeChar c :: percentDecodeLoop n src

/-- `percent_decode`: the string that `dst` holds, up to the NUL that it may decode. -/
def percentDecode (src : List UInt8) (dstsz : ℕ) : List UInt8 :=
  cstr (percentDecodeLoop (dstsz - 1) (cstr src))

/-- The decoded parameters of `tool_patch_file`. -/
structure PatchRequest where
  path : List UInt8
  old : List UInt8
  newtext : List UInt8
  deriving DecidableEq, Repr

/-- `tool_patch_file` up to its `kalloc`. -/
def patchRequest (params : List UInt8) : Except AgentToolResponse PatchRequest :=
  match paramValue params (lit "path") 64, paramValue params (lit "op") 16,
    paramValue params (lit "old") agentToolParamMax,
    paramValue params (lit "new") agentToolParamMax with
  | some path, some op, some oldEnc, some newEnc =>
    if streq op (lit "replace") then
      let old := percentDecode oldEnc agentToolParamMax
      let newtext := percentDecode newEnc agentToolParamMax
      if old = [] then .error (toolRespSet agentToolErrBadParam (lit "empty old pattern"))
      else .ok ⟨path, old, newtext⟩
    else .error (toolRespSet agentToolErrBadParam (lit "unsupported patch op"))
  | _, _, _, _ => .error (toolRespSet agentToolErrBadParam (lit "bad params"))

/-! ### The call -/

/-- The part of `tool_patch_file` that holds the lock of the inode. -/
def patchLocked (type : InodeType) (ip : FileInode) (old newtext : List UInt8) (free : ℕ) :
    FileInode × AgentToolResponse :=
  if type ≠ .file ∨ pgsize - 1 ≤ ip.data.length then
    (ip, toolRespSet agentToolErrBadParam (lit "file too large or invalid"))
  else
    match strFind ip.data old with
    | none => (ip, toolRespSet agentToolErrBadParam (lit "pattern not found"))
    | some off =>
      let out := patched ip.data old newtext off
      if pgsize - 1 ≤ out.length then
        (ip, toolRespSet agentToolErrNoSpace (lit "patched file too large"))
      else
        -- `itrunc`, then `writei` as far as there are blocks
        let r := writei [] 0 out (free * bsize)
        if r.2 ≠ out.length then
          ({ ip with data := r.1 }, toolRespSet agentToolErrBadParam (lit "write failed"))
        else
          (inodeSummaryRefresh { ip with data := r.1 },
            toolRespSet agentToolOk (lit "\x7bstatus=ok,op=replace\x7d"))

/-- `tool_patch_file`, up to its notifications: the inodes, and the answer. -/
def toolPatchFile (params : List UInt8) (kalloc : Bool) (namei : List UInt8 → Option InodeKey)
    (inodes : InodeKey → InodeType × FileInode) (free : ℕ) :
    (InodeKey → InodeType × FileInode) × AgentToolResponse :=
  match patchRequest params with
  | .error e => (inodes, e)
  | .ok req =>
    if kalloc = false then (inodes, toolRespSet agentToolErrNoSpace (lit "no memory"))
    else
      match namei req.path with
      | none => (inodes, toolRespSet agentToolErrBadParam (lit "file not found"))
      | some k =>
        let r := patchLocked (inodes k).1 (inodes k).2 req.old req.newtext free
        (Function.update inodes k ((inodes k).1, r.1), r.2)

end AgentOS
