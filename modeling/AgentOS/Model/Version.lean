import AgentOS.Lib.Table
import AgentOS.Model.Context

/-!
# File versions

The version table of `kernel/agent_fs.c` and `agent_context_validate`. The calls on the table make a
machine: each holds `agent_file_version_lock` from its start to its end.
-/

namespace AgentOS

/-- What identifies an inode: `(dev, inum)`. -/
abbrev InodeKey := ℕ × ℕ

/-- `AGENT_FILE_VERSION_MAX`. -/
def agentFileVersionMax : ℕ := 256

/-- `struct agent_file_version`. -/
structure AgentFileVersion where
  used : Bool
  dev : ℕ
  inum : ℕ
  version : ℕ
  deleted : Bool
  deriving DecidableEq, Repr

/-- `file_versions`. -/
abbrev FileVersions := Fin agentFileVersionMax → AgentFileVersion

namespace FileVersions

/-- The table at boot. -/
def init : FileVersions := fun _ => ⟨false, 0, 0, 0, false⟩

/-- The test of `file_version_find_locked`. -/
def isFor (k : InodeKey) (e : AgentFileVersion) : Bool := e.used && e.dev == k.1 && e.inum == k.2

variable (t : FileVersions) (k : InodeKey)

/-- `file_version_find_locked` with `create`; `none` if the table is full. -/
def fileVersionFind : FileVersions × Option (Fin agentFileVersionMax) :=
  match Table.first t (isFor k) with
  | some i => (t, some i)
  | none =>
    match Table.first t fun e => !e.used with
    | none => (t, none)
    | some i => (Function.update t i
        { used := true, dev := k.1, inum := k.2, version := 1, deleted := false }, some i)

/-- `version++`, where 0 is skipped. -/
def versionSucc (v : ℕ) : ℕ := if (v + 1) % 2 ^ 64 = 0 then 1 else (v + 1) % 2 ^ 64

/-- `agentfs_inode_version_get`. -/
def agentfsInodeVersionGet : FileVersions × ℕ :=
  match fileVersionFind t k with
  | (t, none) => (t, 0)
  | (t, some i) => (t, if (t i).deleted then 0 else (t i).version)

/-- `agentfs_inode_version_bump`. -/
def agentfsInodeVersionBump : FileVersions × ℕ :=
  match fileVersionFind t k with
  | (t, none) => (t, 0)
  | (t, some i) => (Function.update t i
      { t i with deleted := false, version := versionSucc (t i).version },
      versionSucc (t i).version)

/-- `agentfs_inode_version_remove`. -/
def agentfsInodeVersionRemove : FileVersions :=
  match fileVersionFind t k with
  | (t, none) => t
  | (t, some i) => Function.update t i
      { t i with version := versionSucc (t i).version, deleted := true }

end FileVersions

/-! ### The machine -/

/-- A call on the table: `get` by a read or a validation, `bump` behind a write, `remove` when the
last link of a file is gone. -/
inductive VersionLabel
  | get (k : InodeKey)
  | bump (k : InodeKey)
  | remove (k : InodeKey)
  deriving DecidableEq, Repr

/-- One call on the table. -/
def FileVersions.next (t : FileVersions) : VersionLabel → Option FileVersions
  | .get k => some (t.agentfsInodeVersionGet k).1
  | .bump k => some (t.agentfsInodeVersionBump k).1
  | .remove k => some (t.agentfsInodeVersionRemove k)

/-- **The machine of the version table.** -/
def versionMachine : Machine FileVersions VersionLabel := ⟨fun t => t = FileVersions.init, FileVersions.next⟩

/-! ### Validation -/

/-- `AGENT_CONTEXT_VALID` and its siblings. -/
inductive AgentContextValidity
  | valid | stale | noDep | notFound | deleted
  deriving DecidableEq, Repr

/-- `struct agent_context_validation`. -/
structure AgentContextValidation where
  sequence : ℕ
  dev : ℕ
  inum : ℕ
  recordedVersion : ℕ
  currentVersion : ℕ
  state : AgentContextValidity
  deriving DecidableEq, Repr

/-- The sequence that `agent_context_validate` looks for: zero stands for the last node. -/
def validateSequence (c : ContextState) (sequence : ℕ) : ℕ :=
  if sequence = 0 ∧ 0 < c.contextNodeCount then
    (c.contextDeps (c.contextNodeCount - 1)).sequence
  else sequence

/-- `agent_context_validate`: the structure that it copies out. -/
def agentContextValidate (c : ContextState) (t : FileVersions) (sequence : ℕ) :
    FileVersions × AgentContextValidation :=
  let sequence := validateSequence c sequence
  let none_ : AgentContextValidation := ⟨sequence, 0, 0, 0, 0, .notFound⟩
  match (List.range c.contextNodeCount).find? fun i => (c.contextDeps i).sequence == sequence with
  | none => (t, none_)
  | some i =>
    let dep := c.contextDeps i
    if dep.used = false then (t, { none_ with state := .noDep })
    else
      let r := t.agentfsInodeVersionGet (dep.dev, dep.inum)
      (r.1,
        { sequence := sequence
          dev := dep.dev
          inum := dep.inum
          recordedVersion := dep.version
          currentVersion := r.2
          state :=
            if r.2 = 0 then .deleted
            else if r.2 ≠ dep.version then .stale
            else .valid })

end AgentOS
