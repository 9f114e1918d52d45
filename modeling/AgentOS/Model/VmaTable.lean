import AgentOS.Lib.Chain
import AgentOS.Lib.Table
import AgentOS.Lib.Transition
import AgentOS.Model.Param
import Mathlib.Data.Set.Card

/-!
# The table of memory mappings

`vma_list` of `kernel/proc.c` and what uses its slots: `sys_mmap` and `sys_munmap` of
`kernel/sysfile.c`, `vma_alloc`, `fork` and `exit` of `kernel/proc.c`; with the open files, whose
references the slots hold. A call is one step: it touches the slots of its own process and free
slots, which it takes one by one under their locks. Where the kernel panics there is no step. The
bytes behind a mapping are in `AgentOS.Model.Mapping`.
-/

namespace AgentOS

/-- `MAXVA`. -/
def maxva : ℕ := 2 ^ 38

/-- `VMA_START`. -/
def vmaStart : ℕ := maxva / 2

/-- `MAX_VMA_COUNT`. -/
abbrev maxVmaCount : ℕ := 16

/-- `NOFILE`. -/
abbrev nofile : ℕ := 16

/-- `NFILE`. -/
abbrev nfile : ℕ := 100

instance : NeZero nfile := ⟨by decide⟩

abbrev VmaIndex := Fin maxVmaCount

abbrev FileIndex := Fin nfile

def protRead : BitVec 32 := 1#32
def protWrite : BitVec 32 := 2#32
def mapShared : BitVec 32 := 1#32
def mapPrivate : BitVec 32 := 2#32

def pteR : BitVec 32 := 1#32 <<< 1
def pteW : BitVec 32 := 1#32 <<< 2
def pteU : BitVec 32 := 1#32 <<< 4

/-- The `uint64` that an `int` becomes. -/
def u64 (n : ℤ) : ℕ := (n % 2 ^ 64).toNat

/-- `a + n` and `a - n` of a `uint64` and an `int`. -/
def addInt (a : ℕ) (n : ℤ) : ℕ := u64 (a + n)
def subInt (a : ℕ) (n : ℤ) : ℕ := u64 (a - n)

/-- `struct vma`, a slot of `vma_list`; `file` is `none` where it does not point into `ftable`. -/
structure VmaSlot where
  start : ℕ
  stop : ℕ
  length : ℕ
  off : ℕ
  permission : BitVec 32
  flags : BitVec 32
  file : Option FileIndex
  next : Option VmaIndex
  deriving DecidableEq, Repr

def VmaSlot.zero : VmaSlot := ⟨0, 0, 0, 0, 0, 0, none, none⟩

/-- `struct file`, an entry of `ftable`. -/
structure FtableEntry where
  ref : ℕ
  readable : Bool
  writable : Bool
  deriving DecidableEq, Repr

/-- What a word that is used as a `struct file *` points to: nothing, an entry of `ftable`, or other
memory, which reads like `e`. -/
inductive FilePointer
  | null
  | file (f : FileIndex)
  | other (e : FtableEntry)
  deriving DecidableEq, Repr

/-- The entry of `ftable`. -/
def FilePointer.entry : FilePointer → Option FileIndex
  | .file f => some f
  | _ => none

/-- `vma_list`, `ftable`, and of each process whether it runs, its list and its descriptors. -/
structure VmaTable where
  slots : VmaIndex → VmaSlot
  files : FileIndex → FtableEntry
  live : Slot → Bool
  vma : Slot → Option VmaIndex
  ofile : Slot → Fin nofile → Option FileIndex

/-- `pte_flag`, or the refusal of `sys_mmap`. -/
def mmapPermission (f : FtableEntry) (prot flags : BitVec 32) : Option (BitVec 32) :=
  if prot &&& protWrite ≠ 0 ∧ f.writable = false ∧ flags &&& mapPrivate = 0 then none
  else if prot &&& protRead ≠ 0 ∧ f.readable = false then none
  else
    let flag := if prot &&& protWrite ≠ 0 then pteU ||| pteW else pteU
    some (if prot &&& protRead ≠ 0 then flag ||| pteR else flag)

/-- The stores of `sys_munmap` that take `length` bytes from the front of a mapping. -/
def VmaSlot.freeHead (v : VmaSlot) (length : ℤ) : VmaSlot :=
  { v with
    start := subInt v.start length
    off := addInt v.off length
    length := subInt v.length length }

/-- The stores that take them from its end. -/
def VmaSlot.freeTail (v : VmaSlot) (length : ℤ) : VmaSlot :=
  { v with length := subInt v.length length, stop := subInt v.stop length }

namespace VmaTable

variable (s : VmaTable) (i : Slot)

def setSlot (x : VmaIndex) (v : VmaSlot) : VmaTable :=
  { s with slots := Function.update s.slots x v }

/-- `x->next = n`. -/
def setNext (x : VmaIndex) (n : Option VmaIndex) : VmaTable :=
  s.setSlot x { s.slots x with next := n }

/-- `p->vma = n`. -/
def setHead (n : Option VmaIndex) : VmaTable := { s with vma := Function.update s.vma i n }

def setFile (f : FileIndex) (e : FtableEntry) : VmaTable :=
  { s with files := Function.update s.files f e }

/-- `p->ofile[fd] = f`. -/
def setFd (fd : Fin nofile) (f : Option FileIndex) : VmaTable :=
  { s with ofile := Function.update s.ofile i (Function.update (s.ofile i) fd f) }

def setLive (b : Bool) : VmaTable := { s with live := Function.update s.live i b }

/-- `x->next`, for every slot. -/
def nexts : VmaIndex → Option VmaIndex := fun x => (s.slots x).next

/-- `filedup`. -/
def filedup (f : FileIndex) : Option VmaTable :=
  if (s.files f).ref < 1 then none
  else some (s.setFile f { s.files f with ref := (s.files f).ref + 1 })

/-- `fileclose`. -/
def fileclose (f : FileIndex) : Option VmaTable :=
  if (s.files f).ref < 1 then none
  else some (s.setFile f { s.files f with ref := (s.files f).ref - 1 })

/-- `vma_alloc`. -/
def vmaAlloc : Option VmaIndex := Table.first s.slots fun v => v.length == 0

/-- Put slot `x` behind `pre`, or at the head of the list of process `i`. -/
def link (pre : Option VmaIndex) (x : VmaIndex) : VmaTable :=
  match pre with
  | none => s.setHead i (some x)
  | some q => s.setNext q (some x)

/-- Where `sys_mmap` puts a mapping: at `VMA_START`, or behind the last one. -/
def mmapStart (last : Option VmaIndex) : ℕ :=
  match last with
  | none => vmaStart
  | some q => pgroundup (s.slots q).stop

/-- What it leaves in `v->next`: on an empty list it does not store it. -/
def mmapNext (last : Option VmaIndex) (x : VmaIndex) : Option VmaIndex :=
  match last with
  | none => (s.slots x).next
  | some _ => none

/-- `p->ofile[fd]`; the index is not checked, and beside the array the word `word` is read. -/
def ofileAt (fd : ℤ) (word : FilePointer) : FilePointer :=
  if h : 0 ≤ fd ∧ fd < nofile then
    match s.ofile i ⟨fd.toNat, by omega⟩ with
    | some f => .file f
    | none => .null
  else word

/-- The file behind a pointer; none behind the null pointer, where the kernel faults. -/
def fileAt : FilePointer → Option FtableEntry
  | .null => none
  | .file f => some (s.files f)
  | .other e => some e

/-- `filedup` of a pointer. The memory beside `ftable` is not in the model. -/
def filedupAt : FilePointer → Option VmaTable
  | .null => none
  | .file f => s.filedup f
  | .other e => if e.ref < 1 then none else some s

/-- `sys_mmap(0, length, prot, flags, fd, 0)`. -/
def sysMmap (length : ℤ) (prot flags : BitVec 32) (fd : ℤ) (word : FilePointer) :
    Option VmaTable := do
  let f := s.ofileAt i fd word
  match mmapPermission (← s.fileAt f) prot flags with
  | none => some s
  | some permission =>
    let x ← s.vmaAlloc
    let s ← s.filedupAt f
    let last ← Chain.last s.nexts maxVmaCount (s.vma i)
    let start := s.mmapStart last % 2 ^ 64
    let v : VmaSlot :=
      { start := start, stop := addInt start length, length := u64 length, off := 0,
        permission := permission, flags := flags, file := f.entry, next := s.mmapNext last x }
    some ((s.setSlot x v).link i last x)

/-- The mapping of process `i` that has address `addr`, and the one before it in the list. -/
def findVma (addr : ℕ) : Option (Option VmaIndex × Option VmaIndex) :=
  Chain.find s.nexts (fun x => (s.slots x).start ≤ addr && addr < (s.slots x).stop) maxVmaCount
    none (s.vma i)

/-- Take slot `x` out of the list; `next` is reset if it is not the head. -/
def unlink (pre : Option VmaIndex) (x : VmaIndex) : VmaTable :=
  match pre with
  | none => s.setHead i (s.slots x).next
  | some q => (s.setNext q (s.slots x).next).setNext x none

/-- `sys_munmap(addr, length)`. -/
def sysMunmap (addr : ℕ) (length : ℤ) : Option VmaTable := do
  match ← s.findVma i addr with
  | (_, none) => some s
  | (pre, some x) =>
    let v := s.slots x
    if addr ≠ v.start ∧ addInt addr length ≠ v.stop then none
    else if addr = v.start then
      if u64 length = v.length then
        let s ← s.fileclose (← v.file)
        let s := s.unlink i pre x
        some (s.setSlot x { s.slots x with length := 0 })
      else some (s.setSlot x (v.freeHead length))
    else some (s.setSlot x (v.freeTail length))

/-- The loop of `fork` over the mappings of the parent: `pv` is the next of them, `pre` the last
slot of the child `j`. -/
def copyVmas (j : Slot) : ℕ → VmaTable → Option VmaIndex → Option VmaIndex → Option VmaTable
  | _, s, none, _ => some s
  | 0, _, some _, _ => none
  | fuel + 1, s, some pv, pre => do
    let x ← s.vmaAlloc
    let s := s.setSlot x { s.slots pv with next := none }
    let s ← s.filedup (← (s.slots x).file)
    let s := s.link j pre x
    copyVmas j fuel s (s.slots pv).next (some x)

/-- The loop of `fork` over the descriptors. -/
def copyFds (j : Slot) : List (Fin nofile) → VmaTable → Option VmaTable
  | [], s => some s
  | fd :: fds, s =>
    match s.ofile i fd with
    | none => copyFds j fds s
    | some f => do
      let s ← s.filedup f
      copyFds j fds (s.setFd j fd (some f))

/-- `fork` of process `i` into the free slot `j` of `proc[]`. -/
def fork (j : Slot) : Option VmaTable := do
  let t ← s.copyFds i j (List.finRange nofile)
  let t := (t.setLive j true).setHead j none
  copyVmas j maxVmaCount t (t.vma i) none

/-- The loop of `exit` over the mappings. -/
def freeVmas : ℕ → VmaTable → Option VmaIndex → Option VmaTable
  | _, s, none => some s
  | 0, _, some _ => none
  | fuel + 1, s, some v => do
    let s ← s.fileclose (← (s.slots v).file)
    let pv := (s.slots v).next
    freeVmas fuel (s.setSlot v { s.slots v with next := none, length := 0 }) pv

/-- The loop of `exit` over the descriptors. -/
def closeFds : List (Fin nofile) → VmaTable → Option VmaTable
  | [], s => some s
  | fd :: fds, s =>
    match s.ofile i fd with
    | none => closeFds fds s
    | some f => do
      let s ← s.fileclose f
      closeFds fds (s.setFd i fd none)

/-- `exit`; `p->vma` keeps its value. -/
def exit : Option VmaTable := do
  let s ← freeVmas maxVmaCount s (s.vma i)
  let s ← s.closeFds i (List.finRange nofile)
  some (s.setLive i false)

end VmaTable

/-! ### The machine -/

inductive VmaLabel
  | mmap (i : Slot) (length : ℤ) (prot flags : BitVec 32) (fd : ℤ) (word : FilePointer)
  | munmap (i : Slot) (addr : ℕ) (length : ℤ)
  | fork (i j : Slot)
  | exit (i : Slot)
  | openFile (i : Slot) (fd : Fin nofile) (f : FileIndex) (readable writable : Bool)
  | dup (i : Slot) (fd fd' : Fin nofile)
  | close (i : Slot) (fd : Fin nofile)

namespace VmaTable

variable (s : VmaTable)

/-- One call of a process that runs. -/
def next : VmaLabel → Option VmaTable
  | .mmap i length prot flags fd word =>
    if s.live i then s.sysMmap i length prot flags fd word else none
  | .munmap i addr length => if s.live i then s.sysMunmap i addr length else none
  | .fork i j => if s.live i ∧ s.live j = false then s.fork i j else none
  | .exit i => if s.live i then s.exit i else none
  -- `filealloc` and `fdalloc`
  | .openFile i fd f readable writable =>
    if s.live i ∧ s.ofile i fd = none ∧ (s.files f).ref = 0 then
      some ((s.setFile f ⟨1, readable, writable⟩).setFd i fd (some f))
    else none
  | .dup i fd fd' =>
    if s.live i ∧ s.ofile i fd' = none then do
      let f ← s.ofile i fd
      let s ← s.filedup f
      some (s.setFd i fd' (some f))
    else none
  | .close i fd =>
    if s.live i then do
      let f ← s.ofile i fd
      let s ← s.fileclose f
      some (s.setFd i fd none)
    else none

/-- At boot nothing is mapped and nothing is open. -/
def init : Prop :=
  (∀ x, s.slots x = VmaSlot.zero) ∧ (∀ f, (s.files f).ref = 0) ∧ (∀ i, s.vma i = none) ∧
    ∀ i fd, s.ofile i fd = none

/-- Slot `x` is on the list of process `i`. -/
def OnList (i : Slot) (x : VmaIndex) : Prop :=
  s.live i = true ∧ Chain.Reaches s.nexts (s.vma i) x

/-- **Integrity of the table.** A slot has a length exactly if it is on the list of a live process;
it is on one list, which passes it once; lists end; mappings have `end = start + length` and those
of a process are disjoint; every mapping holds a file, and a file counts the descriptors and
mappings that hold it. -/
structure Integrity : Prop where
  used : ∀ x, 0 < (s.slots x).length ↔ ∃ i, s.OnList i x
  lists : ∀ i, s.live i = true → ∃ l, Chain.Linked s.nexts (s.vma i) l ∧ l.Nodup
  one : ∀ i j x, s.OnList i x → s.OnList j x → i = j
  ends : ∀ i x, s.OnList i x → (s.slots x).stop = (s.slots x).start + (s.slots x).length
  disjoint : ∀ i x y, s.OnList i x → s.OnList i y → x ≠ y →
    (s.slots x).stop ≤ (s.slots y).start ∨ (s.slots y).stop ≤ (s.slots x).start
  held : ∀ i x, s.OnList i x → ((s.slots x).file).isSome = true
  refs : ∀ f, (s.files f).ref =
    Set.ncard {d : Slot × Fin nofile | s.ofile d.1 d.2 = some f} +
      Set.ncard {x | (∃ i, s.OnList i x) ∧ (s.slots x).file = some f}

/-- The calls that keep the table whole: `sys_mmap`, where it does not refuse or panic, of a file,
with a positive length, no overflow of the addresses and, for a process without mappings, a slot
whose `next` is null; `sys_munmap` of a whole mapping or a suffix. -/
def Sound : VmaLabel → Prop
  | .mmap i length prot flags fd word =>
    ∀ e ∈ s.fileAt (s.ofileAt i fd word), (mmapPermission e prot flags).isSome = true →
      1 ≤ e.ref → (s.ofileAt i fd word).entry.isSome = true ∧ 0 < length ∧
      (∀ last ∈ Chain.last s.nexts maxVmaCount (s.vma i), s.mmapStart last + length < 2 ^ 64) ∧
      (s.vma i = none → ∀ x ∈ s.vmaAlloc, (s.slots x).next = none)
  | .munmap i addr length =>
    ∀ r ∈ s.findVma i addr, ∀ x ∈ r.2, addr = (s.slots x).start →
      u64 length = (s.slots x).length ∨ u64 length = 0
  | _ => True

instance (l : VmaLabel) : Decidable (s.Sound l) := by
  cases l <;> unfold Sound <;> infer_instance

end VmaTable

/-- **The machine of memory mappings.** -/
def vmaMachine : Machine VmaTable VmaLabel := ⟨VmaTable.init, VmaTable.next⟩

end AgentOS
