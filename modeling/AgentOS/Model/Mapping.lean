import AgentOS.Lib.Transition
import AgentOS.Model.File
import AgentOS.Model.Tool
import AgentOS.Model.VmaTable

/-!
# The bytes of a memory mapping

A mapping that a process makes with `sys_mmap`, the pages that stand in for the file behind it, and
the file: `mmap_handler` and `writeback` of `kernel/vm.c`, `sys_munmap` of `kernel/sysfile.c`, and
what `exit` of `kernel/proc.c` does with mappings. The process has one mapping at a time, at an
address that `sys_mmap` may choose, and while it has one nobody else writes the file. What the call
does to the slots of `vma_list` is in `AgentOS.Model.VmaTable`.

Beside it is the mapping that the caller sees: addresses, and the bytes stored there.
-/

namespace AgentOS

/-- `readi`: the bytes read. -/
def readi (d : List UInt8) (off n : ℕ) : List UInt8 :=
  if d.length < off ∨ (off + n) % 2 ^ 32 < off then [] else (d.drop off).take n

/-- A page of user memory and the flags of its page table entry. -/
structure UserPage where
  flags : BitVec 32
  bytes : ℕ → UInt8

/-- A load finds the byte. -/
def UserPage.Loads (p : UserPage) : Prop := p.flags &&& pteR ≠ 0

/-- A store finds it. An entry with `PTE_W` and without `PTE_R` is reserved: every access faults. -/
def UserPage.Stores (p : UserPage) : Prop := p.flags &&& pteR ≠ 0 ∧ p.flags &&& pteW ≠ 0

instance (p : UserPage) : Decidable p.Loads := inferInstanceAs (Decidable (_ ≠ _))
instance (p : UserPage) : Decidable p.Stores := inferInstanceAs (Decidable (_ ∧ _))

/-- Whether the process runs, the file it has mapped, the mapping, and its page table: by number,
the pages of the addresses that `sys_mmap` chooses from. -/
structure MapState where
  live : Bool
  data : List UInt8
  vma : Option VmaSlot
  pages : ℕ → Option UserPage

namespace MapState

variable (s : MapState)

/-- Map page `p`, or store into it. -/
def setPage (p : ℕ) (x : UserPage) : MapState :=
  { s with pages := Function.update s.pages p (some x) }

/-- The page of address `va`. -/
def page (va : ℕ) : Option UserPage := s.pages (va / pgsize)

/-- The byte at address `va`, if its page is there. -/
def byte (va : ℕ) : Option UInt8 := (s.page va).map fun p => p.bytes (va % pgsize)

/-! ### Loads and stores -/

/-- A load from `va`; without an answer it faults. -/
def load (va : ℕ) : Option UInt8 :=
  match s.page va with
  | some p => if p.Loads then some (p.bytes (va % pgsize)) else none
  | none => none

/-- A store to `va`. -/
def store (va : ℕ) (b : UInt8) : Option MapState :=
  match s.page va with
  | some p =>
    if p.Stores then
      some (s.setPage (va / pgsize) { p with bytes := Function.update p.bytes (va % pgsize) b })
    else none
  | none => none

/-- `mmap_handler`, where it finds memory; the process is killed, or the kernel panics in
`mappages`, where there is no answer. -/
def mmapHandler (va : ℕ) (write : Bool) : Option MapState := do
  let v ← s.vma
  if v.start ≤ va ∧ va < v.stop then
    if write = false ∧ v.permission &&& pteR = 0 then none
    else if write = true ∧ v.permission &&& pteW = 0 then none
    else if (s.page va).isSome then none
    else
      let off := subInt (v.off + va / pgsize * pgsize) v.start % 2 ^ 32
      let src := readi s.data off pgsize
      some (s.setPage (va / pgsize) ⟨v.permission, fun k => src.getD k 0⟩)
  else none

/-- What a load from `va` answers, after the page fault if there is one. -/
def reads (va : ℕ) : Option UInt8 :=
  match s.page va with
  | some _ => s.load va
  | none => (s.mmapHandler va false).bind fun t => t.load va

/-- What a store to `va` does, after the page fault if there is one. -/
def writes (va : ℕ) (b : UInt8) : Option MapState :=
  match s.page va with
  | some _ => s.store va b
  | none => (s.mmapHandler va true).bind fun t => t.store va b

/-! ### Unmapping -/

/-- The user memory from `addr`. -/
def userBytes (addr n : ℕ) : List UInt8 := (List.range n).map fun k => (s.byte (addr + k)).getD 0

/-- How much of it `copyin` copies: it stops at a page that is not there. -/
def copyin (addr n : ℕ) : ℕ :=
  ((List.range n).takeWhile fun k => (s.byte (addr + k)).isSome).length

/-- The loop of `writeback`, with the bytes that it has written to the file `d` from `off`. `room`
gives the blocks that `bmap` finds or allocates; those of the file it finds. -/
def writebackLoop (room : ℕ → ℕ) (off addr n : ℕ) : ℕ → List UInt8 → ℕ → List UInt8
  | 0, d, _ => d
  | fuel + 1, d, i =>
    if n ≤ i then d
    else
      let n1 := min (n - i) writeMax
      let o := (off + i) % 2 ^ 32
      let blocks := max (room i) ((d.length + bsize - 1) / bsize)
      let r := writei d o (s.userBytes (addr + i) n1) (min (s.copyin (addr + i) n1) (blocks * bsize - o))
      if r.2 ≤ 0 then r.1 else writebackLoop room off addr n fuel r.1 (i + r.2.toNat)

/-- `writeback`. -/
def writeback (v : VmaSlot) (addr : ℕ) (n : ℤ) (room : ℕ → ℕ) : Option MapState :=
  if v.permission &&& pteW = 0 ∨ v.flags &&& mapPrivate ≠ 0 then some s
  else if addr % pgsize ≠ 0 then none
  else
    let off := subInt (v.off + v.start) addr
    some { s with data := s.writebackLoop room off addr n.toNat n.toNat s.data 0 }

/-- `uvmunmap`. -/
def uvmunmap (va npages : ℕ) : Option MapState :=
  if va % pgsize ≠ 0 then none
  else some { s with
    pages := fun p =>
      if va ≤ p * pgsize ∧ p * pgsize < (va + npages * pgsize) % 2 ^ 64 then none else s.pages p }

/-- `sys_munmap(addr, length)`. -/
def sysMunmap (addr : ℕ) (length : ℤ) (room : ℕ → ℕ) : Option MapState :=
  match s.vma with
  | none => some s
  | some v =>
    if ¬ (v.start ≤ addr ∧ addr < v.stop) then some s
    else if addr ≠ v.start ∧ addInt addr length ≠ v.stop then none
    else if addr = v.start then do
      let s ← s.writeback v addr length room
      let s ← s.uvmunmap addr (u64 (length.tdiv pgsize))
      if u64 length = v.length then some { s with vma := none }
      else some { s with vma := some (v.freeHead length) }
    else some { s with vma := some (v.freeTail length) }

/-- The loop of `exit` over the mappings. -/
def exit (room : ℕ → ℕ) : Option MapState :=
  match s.vma with
  | none => some { s with live := false }
  | some v => do
    let s ← s.writeback v v.start (toInt32 v.length) room
    let s ← s.uvmunmap v.start (pgroundup v.length % 2 ^ 64 / pgsize)
    some { s with live := false, vma := none }

end MapState

/-! ### The machine -/

/-- What happens to the mapping. A process whose access is refused, or that a page fault finds no
memory for, is killed: its next label is `exit`. -/
inductive MapLabel
  /-- `sys_mmap` of a file with its content, at the address `start` that it chooses. -/
  | mmap (f : FileIndex) (e : FtableEntry) (data : List UInt8) (start : ℕ) (length : ℤ)
      (prot flags : BitVec 32)
  | fault (va : ℕ) (write : Bool)
  | load (va : ℕ)
  | store (va : ℕ) (b : UInt8)
  | munmap (addr : ℕ) (length : ℤ) (room : ℕ → ℕ)
  | exit (room : ℕ → ℕ)

/-- `start` is `VMA_START`, or the end of another mapping rounded up: at most `MAX_VMA_COUNT`
lengths from there. -/
def MapPlace (start : ℕ) : Prop := start % pgsize = 0 ∧ 2 ^ 31 ≤ start ∧ start + 2 ^ 31 ≤ maxva

instance (start : ℕ) : Decidable (MapPlace start) := inferInstanceAs (Decidable (_ ∧ _))

namespace MapState

variable (s : MapState)

/-- `sys_mmap`. -/
def sysMmap (f : FileIndex) (e : FtableEntry) (data : List UInt8) (start : ℕ) (length : ℤ)
    (prot flags : BitVec 32) : MapState :=
  match mmapPermission e prot flags with
  | none => s
  | some permission =>
    { s with
      data := data
      vma := some
        { start := start, stop := addInt start length, length := u64 length, off := 0,
          permission := permission, flags := flags, file := some f, next := none } }

/-- One event of a process that runs. -/
def next (l : MapLabel) : Option MapState :=
  if s.live then
    match l with
    | .mmap f e data start length prot flags =>
      if s.vma = none ∧ MapPlace start ∧ IsInt length then
        some (s.sysMmap f e data start length prot flags)
      else none
    | .fault va write => s.mmapHandler va write
    | .load va => (s.load va).map fun _ => s
    | .store va b => s.store va b
    | .munmap addr length room => s.sysMunmap addr length room
    | .exit room => s.exit room
  else none

end MapState

/-! ### The mapping as its caller sees it -/

/-- The address of the mapping and its end when it was made, the addresses `[lo, hi)` that are still
mapped, the content of the file when it was mapped, and the last byte stored at each address. -/
structure Mapping where
  base : ℕ
  top : ℕ
  lo : ℕ
  hi : ℕ
  file : List UInt8
  stored : ℕ → Option UInt8

namespace Mapping

variable (m : Mapping)

/-- Nothing is mapped. -/
def empty : Mapping := ⟨0, 0, 0, 0, [], fun _ => none⟩

/-- The byte that a load from `va` must see. -/
def content (va : ℕ) : UInt8 := (m.stored va).getD (m.file.getD (va - m.base) 0)

/-- What an event does to it. `munmap` takes the front or the end of what is mapped. -/
def next (l : MapLabel) : Mapping :=
  match l with
  | .mmap _ e data start length prot flags =>
    match mmapPermission e prot flags with
    | none => m
    | some _ =>
      let stop := (start + length).toNat
      ⟨start, stop, start, stop, data, fun _ => none⟩
  | .store va b =>
    if m.lo ≤ va ∧ va < m.hi then { m with stored := Function.update m.stored va (some b) } else m
  | .munmap addr length _ =>
    if m.lo ≤ addr ∧ addr < m.hi then
      if addr = m.lo then { m with lo := (addr + length).toNat } else { m with hi := addr }
    else m
  | .exit _ => { m with hi := m.lo }
  | _ => m

/-- **The calls of a well-behaved caller**: shared writable mappings; `munmap` of a page-aligned
front or end of what is mapped, or of all of it. -/
def Asked (l : MapLabel) : Prop :=
  match l with
  | .mmap _ _ _ _ _ prot flags => prot &&& protWrite ≠ 0 ∧ flags = mapShared
  | .munmap addr length _ =>
    m.lo ≤ addr → addr < m.hi → addr % pgsize = 0 ∧ 0 < length ∧
      (addr = m.lo ∧ length % pgsize = 0 ∧ addr + length ≤ m.hi ∨ addr + length = m.hi)
  | _ => True

instance (l : MapLabel) : Decidable (m.Asked l) := by
  cases l <;> unfold Asked <;> infer_instance

/-- **The contents of a mapping.** A mapped address reads the byte of the file at its offset, with
the stores applied, and can be stored to; an address that was unmapped cannot be accessed, and the file, as far as it
reaches, holds the last byte stored there. -/
structure Contents (s : MapState) : Prop where
  reads : s.live = true → ∀ va, m.lo ≤ va → va < m.hi → s.reads va = some (m.content va)
  writes : s.live = true → ∀ va, m.lo ≤ va → va < m.hi → ∀ b, ∃ t, s.writes va b = some t ∧
    t.reads va = some b
  gone : s.live = true → ∀ va, m.base ≤ va → va < m.top → ¬ (m.lo ≤ va ∧ va < m.hi) →
    s.reads va = none ∧ ∀ b, s.writes va b = none
  saved : ∀ va, m.base ≤ va → va < m.top → ¬ (m.lo ≤ va ∧ va < m.hi) → ∀ b, m.stored va = some b →
    va - m.base < s.data.length → s.data[va - m.base]? = some b

end Mapping

/-- **The machine of a mapping and its pages**, with the mapping as its caller sees it. -/
def mappingMachine : Machine (MapState × Mapping) MapLabel where
  init x := x.1.live = true ∧ x.1.vma = none ∧ (∀ p, x.1.pages p = none) ∧ x.2 = Mapping.empty
  next x l := (x.1.next l).map fun t => (t, x.2.next l)

namespace MapState

variable (s : MapState)

/-- The byte at offset `k` of the mapping is in memory, and the file has another. -/
def Differs (v : VmaSlot) (k : ℕ) : Prop :=
  v.start + k < v.stop ∧ (s.byte (v.start + k)).isSome = true ∧ s.byte (v.start + k) ≠ s.data[k]?

/-- `writeback` gets to offset `k`: the pages before it are there, and in a mapping longer than
`MAXFILE` blocks it is not in the last chunk of the largest file. -/
def Reached (v : VmaSlot) (k : ℕ) : Prop :=
  (∀ q < k / pgsize, (s.pages (v.start / pgsize + q)).isSome = true) ∧
    (v.length ≤ maxFileSize ∨ k < maxFileSize / writeMax * writeMax)

/-- `writeback` gets to every byte that the file does not have yet. -/
def WritesBack (v : VmaSlot) : Prop := ∀ k < s.data.length, s.Differs v k → s.Reached v k

instance (v : VmaSlot) (k : ℕ) : Decidable (s.Differs v k) := inferInstanceAs (Decidable (_ ∧ _))

instance (v : VmaSlot) (k : ℕ) : Decidable (s.Reached v k) := inferInstanceAs (Decidable (_ ∧ _))

instance (v : VmaSlot) : Decidable (s.WritesBack v) := Nat.decidableBallLT _ _

/-- The calls that keep the contents. `sys_mmap` asks for `PROT_READ`; `sys_munmap` takes the whole mapping, and its last page is
whole or not there, or it takes an end none of which is in memory; and nothing is lost when the
mapping is written back. -/
def Keeps (l : MapLabel) : Prop :=
  match l with
  | .mmap _ e _ _ _ prot flags =>
    (mmapPermission e prot flags).isSome = true → prot &&& protRead ≠ 0
  | .munmap addr length _ =>
    ∀ v ∈ s.vma, v.start ≤ addr → addr < v.stop →
      if addr = v.start then
        u64 length = v.length ∧ (length % pgsize = 0 ∨ s.byte (v.stop - 1) = none) ∧ s.WritesBack v
      else ∀ k < v.stop - addr, s.byte (addr + k) = none
  | .exit _ => ∀ v ∈ s.vma, s.WritesBack v
  | _ => True

instance (l : MapLabel) : Decidable (s.Keeps l) := by
  cases l <;> unfold Keeps <;> infer_instance

end MapState

end AgentOS
