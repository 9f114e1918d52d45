import AgentOS.Lib.Chain
import AgentOS.Lib.Table
import AgentOS.Model.Param

/-!
# The file index

`kernel/agent_fs.c`: the table `file_meta` of the regular files, and the index of their
attributes. A posting names a file and one of its attributes; the postings of a bucket are a
list through `next`, whose head is in `file_index`. An index into an array is an element of
`Fin`, and `-1` is `none`.
-/

namespace AgentOS

abbrev inodeAttrMax : ℕ := 4
def inodeAttrKeyMax : ℕ := 8
def inodeAttrValueMax : ℕ := 16
def inodeSummaryMax : ℕ := 64
abbrev agentFileMetaMax : ℕ := 160
def agentFilePathMax : ℕ := 64
abbrev agentFileIndexBuckets : ℕ := 67
abbrev agentFilePostingMax : ℕ := agentFileMetaMax * inodeAttrMax

/-- `struct inode_attr`: both strings end inside their fields. -/
structure InodeAttr where
  key : List UInt8
  value : List UInt8
  key_lt : strlen key < inodeAttrKeyMax
  value_lt : strlen value < inodeAttrValueMax
  deriving DecidableEq

theorem strlen_safestrcpy_lt (s : List UInt8) {n : ℕ} (hn : 0 < n) :
    strlen (safestrcpy s n) < n := by
  unfold strlen safestrcpy
  rw [cstr_take, List.length_take]
  omega

theorem attrKey_lt (key : List UInt8) :
    strlen (safestrcpy key inodeAttrKeyMax) < inodeAttrKeyMax :=
  strlen_safestrcpy_lt key (by decide)

theorem attrValue_lt (value : List UInt8) :
    strlen (safestrcpy value inodeAttrValueMax) < inodeAttrValueMax :=
  strlen_safestrcpy_lt value (by decide)

/-- The two `safestrcpy` that fill an attribute. -/
def InodeAttr.mk' (key value : List UInt8) : InodeAttr where
  key := safestrcpy key inodeAttrKeyMax
  value := safestrcpy value inodeAttrValueMax
  key_lt := attrKey_lt key
  value_lt := attrValue_lt value

/-- `struct agent_file_meta`; `attrs` holds the first `attr_count` attributes. -/
structure AgentFileMeta where
  used : Bool
  inum : ℕ
  dev : ℕ
  path : List UInt8
  summary : List UInt8
  attrs : List InodeAttr
  deriving DecidableEq

def AgentFileMeta.zero : AgentFileMeta := ⟨false, 0, 0, [], [], []⟩

/-- `struct agent_file_posting`. -/
structure AgentFilePosting where
  used : Bool
  entryIdx : ℕ
  next : Option (Fin agentFilePostingMax)
  key : List UInt8
  value : List UInt8
  deriving DecidableEq

def AgentFilePosting.zero : AgentFilePosting := ⟨false, 0, some 0, [], []⟩

/-- What `agent_file_lock` protects. -/
structure AgentFileIndex where
  fileMeta : Fin agentFileMetaMax → AgentFileMeta
  filePostings : Fin agentFilePostingMax → AgentFilePosting
  fileIndex : Fin agentFileIndexBuckets → Option (Fin agentFilePostingMax)
  ready : Bool

/-- `agent_file_init`. -/
def AgentFileIndex.init : AgentFileIndex where
  fileMeta := fun _ => AgentFileMeta.zero
  filePostings := fun _ => AgentFilePosting.zero
  fileIndex := fun _ => none
  ready := false

/-- `hash = ((hash << 5) + hash) + *key++`; `char` is unsigned on RISC-V. -/
def hashStep (hash : UInt32) (b : UInt8) : UInt32 := ((hash <<< 5) + hash) + b.toUInt32

/-- `file_attr_hash`. -/
def fileAttrHash (key value : List UInt8) : Fin agentFileIndexBuckets :=
  let hash := (cstr key).foldl hashStep 5381
  let hash := hashStep hash 61
  let hash := (cstr value).foldl hashStep hash
  ⟨hash.toNat % agentFileIndexBuckets, Nat.mod_lt _ (by decide)⟩

/-- `file_attr_match`. -/
def fileAttrMatch (attrs : List InodeAttr) (key value : List UInt8) : Bool :=
  attrs.any fun a => streq a.key key && streq a.value value

/-- `file_index_reset_locked`. -/
def fileIndexReset (t : AgentFileIndex) : AgentFileIndex :=
  { t with filePostings := fun _ => AgentFilePosting.zero, fileIndex := fun _ => none }

/-- `file_add_posting_locked`; its callers ignore the return code. -/
def fileAddPosting (t : AgentFileIndex) (entryIdx : ℕ) (key value : List UInt8) :
    AgentFileIndex :=
  match Table.first t.filePostings fun p => !p.used with
  | none => t
  | some slot =>
    let h := fileAttrHash key value
    let posting : AgentFilePosting :=
      { used := true, entryIdx := entryIdx, next := t.fileIndex h,
        key := safestrcpy key inodeAttrKeyMax, value := safestrcpy value inodeAttrValueMax }
    { t with
      filePostings := Function.update t.filePostings slot posting
      fileIndex := Function.update t.fileIndex h (some slot) }

/-- The inner loop of `file_rebuild_postings_locked`. -/
def filePostEntry (t : AgentFileIndex) (i : Fin agentFileMetaMax) : AgentFileIndex :=
  if (t.fileMeta i).used then
    (t.fileMeta i).attrs.foldl (fun t a => fileAddPosting t i a.key a.value) t
  else t

/-- `file_rebuild_postings_locked`. -/
def fileRebuildPostings (t : AgentFileIndex) : AgentFileIndex :=
  (List.finRange agentFileMetaMax).foldl filePostEntry (fileIndexReset t)

/-- `file_cache_find_by_inum_locked`. -/
def fileCacheFindByInum (t : AgentFileIndex) (inum : ℕ) : Option (Fin agentFileMetaMax) :=
  Table.first t.fileMeta fun m => m.used && m.inum == inum

/-- `file_cache_upsert_locked`, of a file with this metadata. -/
def fileCacheUpsert (t : AgentFileIndex) (m : AgentFileMeta) : AgentFileIndex :=
  let idx := match fileCacheFindByInum t m.inum with
    | some i => some i
    | none => Table.first t.fileMeta fun m => !m.used
  match idx with
  | some i => { t with fileMeta := Function.update t.fileMeta i m }
  | none => t

end AgentOS
