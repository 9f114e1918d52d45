import AgentOS.Model.Authority
import AgentOS.Model.Patch
import AgentOS.Model.Wait

/-!
# File changes and the Agents that watch them

`filewrite`, `writeback`, `tool_patch_file`, `agentfs_tool_set_file_attr` and
`agentfs_tool_del_file_attr` against the watch and wait calls. A step of a writer is its section under
the lock of the inode, or one slot of the loop of `agent_signal_filemod` or
`agent_notify_file_modified`, so that sections of others fall between a change and its signals. A
watcher makes its calls in one piece each; `agent_proc_wait` runs up to its return or its sleep.

`rest` is the rest of the kernel on one process: `FilemodKeeps` says what it does to FILEMOD. Two flags
that no call reads: a process has asked for FILEMOD with `agent_watch` too; the content of the file
it watches has changed since it asked for it or last had FILEMOD from `agent_wait`.
-/

namespace AgentOS

/-- Where a process is between a change of a file and the end of the signals. -/
inductive FilemodCall
  | user
  /-- `filewrite`, with `i` of `n` bytes written. -/
  | write (k : InodeKey) (n i : ℕ)
  /-- `writeback`, with `i` of `n` bytes written. -/
  | writeback (k : InodeKey) (n i : ℕ)
  /-- `agent_notify_file_modified` comes next. -/
  | changed (k : InodeKey)
  /-- `agent_signal_filemod` comes next; `tool_patch_file` has patched `after`. -/
  | broadcast (after : Option InodeKey)
  | signalling (after : Option InodeKey) (now next : ℕ)
  | notifying (k : InodeKey) (now next : ℕ)
  deriving DecidableEq, Repr

/-- A writer with the bytes of user memory and how many of them find a block, and a watcher with
its arguments. -/
inductive FilemodLabel
  | write (i : Slot) (k : InodeKey) (n : ℕ)
  | writeChunk (i : Slot) (off : ℕ) (src : List UInt8) (avail : ℕ)
  | writeback (i : Slot) (k : InodeKey) (n : ℕ)
  | writebackChunk (i : Slot) (off : ℕ) (src : List UInt8) (avail : ℕ)
  | patch (i : Slot) (params : List UInt8) (kalloc : Bool) (k : Option InodeKey) (free : ℕ)
  | setAttr (i : Slot) (k : InodeKey) (key value : List UInt8)
  | delAttr (i : Slot) (k : InodeKey) (key : List UInt8)
  | signal (i : Slot)
  | look (i : Slot)
  | watch (i : Slot) (mask : BitVec 32)
  | unwatch (i : Slot) (mask : BitVec 32)
  | watchFile (i : Slot) (k : InodeKey) (path : List UInt8)
  | wait (i : Slot) (timeoutTicks : ℤ) (now' : ℕ)
  | round (i : Slot) (now' : ℕ)
  | clock
  | rest (j : Slot) (p : Proc)

/-- Inodes, processes, and the two flags. -/
structure FilemodSystem where
  inodes : InodeKey → InodeType × FileInode
  kernel : Kernel
  calls : Slot → FilemodCall
  waiting : Slot → Bool
  general : Slot → Bool
  changed : Slot → Bool

/-- FILEMOD is pending. -/
def FilemodPending (p : Proc) : Prop := p.loop.pendingEvents &&& agentEventFilemod ≠ 0

instance (p : Proc) : Decidable (FilemodPending p) := inferInstanceAs (Decidable (_ ≠ _))

/-- The process watches for FILEMOD. -/
def watchesFilemod (p : Proc) : Bool := p.loop.watchMask &&& agentWatchFilemod != 0

/-- The inode that `agent_watch_file` has named. -/
def watchedKey (p : Proc) : InodeKey := (p.loop.agentWatchDev, p.loop.agentWatchInum)

/-- What the rest of the kernel does to FILEMOD: it raises none, and leaves the watch alone or ends
it. -/
def FilemodKeeps (p q : Proc) : Prop :=
  (FilemodPending q → FilemodPending p) ∧
    (watchesFilemod q = true → watchesFilemod p = true ∧ watchedKey q = watchedKey p)

instance (p q : Proc) : Decidable (FilemodKeeps p q) := inferInstanceAs (Decidable (_ ∧ _))

/-- A round of `agent_proc_wait` returns FILEMOD. -/
def WaitOutcome.isFilemod : WaitOutcome → Bool
  | .returned ret _ => ret == agentWaitFilemod
  | .asleep => false

namespace FilemodSystem

variable (s : FilemodSystem) (i j : Slot) (k : InodeKey)

def proc : Proc := s.kernel.procs i

def setProc (p : Proc) : FilemodSystem := { s with kernel := s.kernel.setProc i p }

def goto (c : FilemodCall) : FilemodSystem := { s with calls := Function.update s.calls i c }

/-- Can process `i` make a call? -/
def canCall : Prop := (s.proc i).live ∧ s.calls i = .user ∧ s.waiting i = false

instance : Decidable (s.canCall i) := inferInstanceAs (Decidable (_ ∧ _))

/-- The content of inode `k` is stored; `stored` if a byte of it is. -/
def store (ip : FileInode) (stored : Bool) : FilemodSystem :=
  { s with
    inodes := Function.update s.inodes k ((s.inodes k).1, ip)
    changed := fun j => s.changed j || stored && watchedKey (s.proc j) == k }

/-- A `writei` into inode `k`, behind which process `i` goes to `c r`. -/
def writeData (off : ℕ) (src : List UInt8) (avail : ℕ) (c : ℤ → FilemodCall) : FilemodSystem :=
  let ip := (s.inodes k).2
  let r := writei ip.data off src avail
  (s.store k { ip with data := r.1 } (0 < r.2 || r.1 != ip.data)).goto i (c r.2)

/-- After a chunk of `filewrite` that wrote `r` of `n1` bytes. -/
def writeNext (n i : ℕ) (n1 : ℕ) (r : ℤ) : FilemodCall :=
  if r = n1 then if i + n1 < n then .write k n (i + n1) else .changed k
  else if 0 < i then .changed k else .user

/-- After a chunk of `writeback` that wrote `r` bytes. -/
def writebackNext (n i : ℕ) (r : ℤ) : FilemodCall :=
  if r ≤ 0 then if 0 < i then .changed k else .user
  else if i + r.toNat < n then .writeback k n (i + r.toNat) else .changed k

/-- The attributes of inode `k` are stored, and everybody is signalled. -/
def attrStored (ip : Option FileInode) : FilemodSystem :=
  match ip with
  | none => s
  | some ip => (s.store k ip false).goto i (.broadcast none)

/-- A round of the wait loop of process `i`, with the record `p`. -/
def waitRound (p : Proc) (now' : ℕ) : FilemodSystem :=
  let r := agentProcWaitIter i p s.kernel.ticks now'
  { s.setProc i r.1 with
    waiting := Function.update s.waiting i (r.2 == .asleep)
    changed := if r.2.isFilemod then Function.update s.changed i false else s.changed }

/-- One section or call. -/
def next : FilemodLabel → Option FilemodSystem
  | .write i k n => if s.canCall i ∧ 0 < n then some (s.goto i (.write k n 0)) else none
  | .writeChunk j off src avail =>
    match s.calls j with
    | .write k n i =>
      if i < n ∧ src.length = min (n - i) writeMax then
        some (s.writeData j k off src avail (writeNext k n i src.length))
      else none
    | _ => none
  | .writeback i k n => if s.canCall i ∧ 0 < n then some (s.goto i (.writeback k n 0)) else none
  | .writebackChunk j off src avail =>
    match s.calls j with
    | .writeback k n i =>
      if i < n ∧ src.length = min (n - i) writeMax then
        some (s.writeData j k off src avail (writebackNext k n i))
      else none
    | _ => none
  | .patch i params kalloc k free =>
    if s.canCall i then
      let r := toolPatchFile params kalloc (fun _ => k) s.inodes free
      match k with
      | none => some s
      | some k =>
        let ip := (r.1 k).2
        let ok := r.2.status == agentToolOk
        let t := s.store k ip (ok || ip.data != (s.inodes k).2.data)
        some (if ok then t.goto i (.broadcast (some k)) else t)
    else none
  | .setAttr i k key value =>
    if s.canCall i ∧ (s.inodes k).1 = .file then
      some (s.attrStored i k ((MetaChange.setAttr key value).apply (s.inodes k).2))
    else none
  | .delAttr i k key =>
    if s.canCall i then
      some (s.attrStored i k ((MetaChange.delAttr key).apply (s.inodes k).2))
    else none
  -- the loops read the clock first
  | .signal i =>
    match s.calls i with
    | .changed k => some (s.goto i (.notifying k s.kernel.ticks 0))
    | .broadcast after => some (s.goto i (.signalling after s.kernel.ticks 0))
    | _ => none
  | .look i =>
    match s.calls i with
    | .signalling after now n =>
      if h : n < nproc then
        some ((s.setProc ⟨n, h⟩ (agentSignalFilemodAt ⟨n, h⟩ (s.proc ⟨n, h⟩) now)).goto i
          (.signalling after now (n + 1)))
      else
        match after with
        | none => some (s.goto i .user)
        | some k => some (s.goto i (.changed k))
    | .notifying k now n =>
      if h : n < nproc then
        some ((s.setProc ⟨n, h⟩
          (agentNotifyFileModifiedAt ⟨n, h⟩ (s.proc ⟨n, h⟩) k.1 k.2 now)).goto i
            (.notifying k now (n + 1)))
      else some (s.goto i .user)
    | _ => none
  | .watch i mask =>
    if s.canCall i then
      let r := agentProcWatch (s.proc i) mask
      some { s.setProc i r.1 with
        general := Function.update s.general i
          (s.general i || r.2 == 0 && mask &&& agentWatchFilemod != 0) }
    else none
  | .unwatch i mask =>
    if s.canCall i then
      let p := (agentProcUnwatch (s.proc i) mask).1
      some { s.setProc i p with
        general := Function.update s.general i (s.general i && watchesFilemod p) }
    else none
  | .watchFile i k path =>
    if s.canCall i then
      some { s.setProc i (agentProcWatchFile (s.proc i) k.1 k.2 path).1 with
        changed := if (s.proc i).ident.agentType = agentTypeNormal then s.changed
          else Function.update s.changed i false }
    else none
  | .wait i timeoutTicks now' =>
    if s.canCall i then
      if (s.proc i).ident.agentType = agentTypeNormal ∨
          agentProcWaitNoSource (s.proc i) timeoutTicks then some s
      else
        some (s.waitRound i (agentProcWaitBegin (s.proc i) timeoutTicks s.kernel.ticks) now')
    else none
  | .round i now' =>
    if s.waiting i = true ∧ (s.proc i).state ≠ .sleeping then
      some (s.waitRound i (agentProcWaitResume (s.proc i)) now')
    else none
  | .clock => some { s with kernel := { s.kernel with ticks := (s.kernel.ticks + 1) % 2 ^ 32 } }
  | .rest j p =>
    if FilemodKeeps (s.proc j) p then
      some { s.setProc j p with
        general := Function.update s.general j (s.general j && watchesFilemod p) }
    else none

/-- What `agent_proc_wait` answers process `i`, if it gets to its loop. -/
def outcome : FilemodLabel → Option (Slot × WaitOutcome)
  | .wait i timeoutTicks now' =>
    if (s.proc i).ident.agentType = agentTypeNormal ∨
        agentProcWaitNoSource (s.proc i) timeoutTicks then none
    else
      some (i, (agentProcWaitIter i (agentProcWaitBegin (s.proc i) timeoutTicks s.kernel.ticks)
        s.kernel.ticks now').2)
  | .round i now' =>
    some (i, (agentProcWaitIter i (agentProcWaitResume (s.proc i)) s.kernel.ticks now').2)
  | _ => none

/-- Nobody changes a file or waits, and nobody has watched one. -/
def init : Prop :=
  ∀ i, s.calls i = .user ∧ s.waiting i = false ∧ s.general i = false ∧ s.changed i = false ∧
    (s.proc i).loop = Loop.init

/-- `agent_watch_file` is the only FILEMOD subscription of process `i`. -/
def FileOnly : Prop := watchesFilemod (s.proc i) = true ∧ s.general i = false

instance : Decidable (s.FileOnly i) := inferInstanceAs (Decidable (_ ∧ _))

end FilemodSystem

/-- **The machine of file changes.** -/
def filemodMachine : Machine FilemodSystem FilemodLabel := ⟨FilemodSystem.init, FilemodSystem.next⟩

end AgentOS
