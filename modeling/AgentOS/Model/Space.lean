import AgentOS.Model.PageTable

/-!
# Address spaces

The page tables of several processes, and pages of the kernel, in one physical memory. A call is made
by the kernel about one page of its own, or about one process; the callers in `kernel/proc.c` and
`kernel/exec.c` keep `sz`. A call about a process without a page table, or a page that is not
allocated, is not made; nor is `copyout` to `TRAPFRAME` and above, where no page has `PTE_U`. The
trampoline and the trapframe, which `proc_pagetable` maps there, and mapped files are left out.
-/

namespace AgentOS

/-- `flags2perm`. -/
def flags2perm (flags : BitVec 32) : BitVec 32 :=
  (if flags &&& 1 ≠ 0 then pteX else 0) ||| if flags &&& 2 ≠ 0 then pteW else 0

/-- Memory after `kinit`: `freerange` has given back every page. -/
def Kmem.kinit (R : Ram) : Kmem R := ⟨fun _ => .bytes fun _ => 1, (List.finRange R.npages).reverse⟩

/-- The page tables with their sizes, and the pages of the kernel. -/
structure Vm (R : Ram) where
  mem : Kmem R
  pagetable : ℕ → Option R.Frame
  sz : ℕ → ℕ
  held : ℕ → Option R.Frame

inductive VmCall
  /-- `kalloc` and `kfree` of a page of the kernel. -/
  | kalloc (k : ℕ)
  | kfree (k : ℕ)
  /-- `uvmcreate`. -/
  | create (h : ℕ)
  /-- `uvmalloc`, by `growproc` and `exec`. -/
  | grow (h : ℕ) (newsz : BitVec 64) (flags : BitVec 32)
  /-- `uvmdealloc`, by `growproc`. -/
  | shrink (h : ℕ) (newsz : BitVec 64)
  /-- `uvmcopy`, by `fork`: of process `h` for the new process `h'`. -/
  | copy (h h' : ℕ)
  /-- `uvmclear`, by `exec`. -/
  | clear (h va : ℕ)
  /-- `copyout`. -/
  | copyout (h dst : ℕ) (src : List UInt8)
  /-- `uvmfree`. -/
  | free (h : ℕ)

namespace Vm

variable {R : Ram} (s : Vm R)

def boot (R : Ram) : Vm R := ⟨Kmem.kinit R, fun _ => none, fun _ => 0, fun _ => none⟩

/-- A call, and whether it succeeds; without an answer it panics. -/
def call : VmCall → Option (Bool × Vm R)
  | .kalloc k =>
    match s.held k, s.mem.kalloc with
    | none, some (f, m) => some (true, { s with mem := m, held := Function.update s.held k (some f) })
    | _, _ => some (false, s)
  | .kfree k =>
    match s.held k with
    | none => some (false, s)
    | some f => do
      let m ← s.mem.kfree (R.pa f)
      some (true, { s with mem := m, held := Function.update s.held k none })
  | .create h =>
    match s.pagetable h, s.mem.uvmcreate with
    | none, some (r, m) =>
      some (true, { s with
        mem := m
        pagetable := Function.update s.pagetable h (some r)
        sz := Function.update s.sz h 0 })
    | _, _ => some (false, s)
  | .grow h newsz flags =>
    match s.pagetable h with
    | none => some (false, s)
    | some r => do
      let (n, m) ← s.mem.uvmalloc r (s.sz h) newsz.toNat (flags2perm flags)
      some (if n = 0 then (false, { s with mem := m })
        else (true, { s with mem := m, sz := Function.update s.sz h n }))
  | .shrink h newsz =>
    match s.pagetable h with
    | none => some (false, s)
    | some r => do
      let (n, m) ← s.mem.uvmdealloc r (s.sz h) newsz.toNat
      some (true, { s with mem := m, sz := Function.update s.sz h n })
  | .copy h h' =>
    match s.pagetable h, s.pagetable h' with
    | some r, some r' =>
      if h = h' ∨ s.sz h' ≠ 0 then some (false, s)
      else do
        let (ok, m) ← s.mem.uvmcopy r r' (s.sz h)
        some (ok, { s with
          mem := m
          sz := if ok then Function.update s.sz h' (s.sz h) else s.sz })
    | _, _ => some (false, s)
  | .clear h va =>
    match s.pagetable h with
    | none => some (false, s)
    | some r =>
      if sizePages (s.sz h) ≤ va / pgsize then some (false, s)
      else do
        let m ← s.mem.uvmclear r va
        some (true, { s with mem := m })
  | .copyout h dst src =>
    match s.pagetable h with
    | none => some (false, s)
    | some r =>
      if trapframe < dst + src.length then some (false, s)
      else do
        let (ok, m) ← s.mem.copyout r dst src
        some (ok, { s with mem := m })
  | .free h =>
    match s.pagetable h with
    | none => some (false, s)
    | some r => do
      let m ← s.mem.uvmfree r (s.sz h)
      some (true, { s with mem := m, pagetable := Function.update s.pagetable h none })

/-- Calls one after the other, with their answers. -/
def calls : List VmCall → Vm R → Option (List Bool × Vm R)
  | [], s => some ([], s)
  | c :: cs, s => do
    let (ok, s) ← s.call c
    let (oks, s) ← calls cs s
    some (ok :: oks, s)

end Vm

/-! ### Independent address spaces -/

/-- The size of a process and its pages. -/
structure Space where
  sz : ℕ
  page : ℕ → Option UserPage

namespace Space

/-- A page of zeros. -/
def zeroPage (flags : BitVec 32) : UserPage :=
  ⟨pteR ||| pteU ||| flags2perm flags ||| 1, fun _ => 0⟩

def grow (p : Space) (newsz : ℕ) (flags : BitVec 32) : Space where
  sz := max p.sz newsz
  page v := if sizePages p.sz ≤ v ∧ v < sizePages newsz then some (zeroPage flags) else p.page v

def shrink (p : Space) (newsz : ℕ) : Space where
  sz := min p.sz newsz
  page v := if sizePages newsz ≤ v ∧ v < sizePages p.sz then none else p.page v

/-- A guard page. -/
def clear (p : Space) (v : ℕ) : Space where
  sz := p.sz
  page := Function.update p.page v ((p.page v).map fun x => { x with flags := x.flags &&& ~~~pteU })

/-- An address that the process may write. -/
def writable (page : ℕ → Option UserPage) (a : ℕ) : Bool :=
  (page (a / pgsize)).any fun x => decide (x.flags &&& pteU ≠ 0 ∧ x.flags &&& pteW ≠ 0)

/-- How many of `n` addresses, from `a` on, are good before one is not. -/
def reach (good : ℕ → Bool) : ℕ → ℕ → ℕ
  | _, 0 => 0
  | a, n + 1 => if good a then reach good (a + 1) n + 1 else 0

/-- The bytes `src` at address `a`. -/
def putBytes (page : ℕ → Option UserPage) (a : ℕ) (src : List UInt8) : ℕ → Option UserPage := fun v =>
  (page v).map fun x => { x with
    bytes := fun k =>
      if k < pgsize ∧ a ≤ v * pgsize + k ∧ v * pgsize + k < a + src.length then
        src.getD (v * pgsize + k - a) 0
      else x.bytes k }

/-- The bytes up to the first address that the process may not write. -/
def copyout (p : Space) (dst : ℕ) (src : List UInt8) : Space where
  sz := p.sz
  page := putBytes p.page dst (src.take (reach (writable p.page) dst src.length))

/-- An address that `copyin` may read. -/
def readable (page : ℕ → Option UserPage) (a : ℕ) : Bool :=
  (page (a / pgsize)).any fun x => decide (x.flags &&& pteU ≠ 0)

/-- The byte at an address. -/
def byte (page : ℕ → Option UserPage) (a : ℕ) : UInt8 :=
  ((page (a / pgsize)).map fun x => x.bytes (a % pgsize)).getD 0

/-- The bytes up to the first address that may not be read, and whether these are all. -/
def copyin (p : Space) (src len : ℕ) : Bool × List UInt8 :=
  (decide (reach (readable p.page) src len = len),
    (List.range (reach (readable p.page) src len)).map fun k => byte p.page (src + k))

end Space

/-- Processes with an address space each. -/
abbrev Spaces := ℕ → Option Space

/-- What a call that succeeds means: it changes one address space. -/
def Spaces.succeed (a : Spaces) : VmCall → Spaces
  | .kalloc _ | .kfree _ => a
  | .create h => Function.update a h (some ⟨0, fun _ => none⟩)
  | .grow h newsz flags => Function.update a h ((a h).map fun p => p.grow newsz.toNat flags)
  | .shrink h newsz => Function.update a h ((a h).map fun p => p.shrink newsz.toNat)
  | .copy h h' => Function.update a h' (a h)
  | .clear h va => Function.update a h ((a h).map fun p => p.clear (va / pgsize))
  | .copyout h dst src => Function.update a h ((a h).map fun p => p.copyout dst src)
  | .free h => Function.update a h none

/-- What a call that fails means: nothing, or what `copyout` has copied before. -/
def Spaces.fail (a : Spaces) : VmCall → Spaces
  | .copyout h dst src =>
    if trapframe < dst + src.length then a
    else Function.update a h ((a h).map fun p => p.copyout dst src)
  | _ => a

/-- The answer of a call that needs no memory and no page of the kernel. The others fail only when
there is too little (`Vm.Short`). -/
def Spaces.answer (a : Spaces) : VmCall → Option Bool
  | .kalloc _ | .kfree _ | .create _ | .grow _ _ _ | .copy _ _ => none
  | .shrink h _ | .free h => some (a h).isSome
  | .clear h va => some ((a h).any fun p => decide (va / pgsize < sizePages p.sz))
  | .copyout h dst src => some ((a h).any fun p => decide (dst + src.length ≤ trapframe ∧
      Space.reach (Space.writable p.page) dst src.length = src.length))

/-- Calls with their answers; without a result an answer is wrong. -/
def Spaces.steps : List (VmCall × Bool) → Spaces → Option Spaces
  | [], a => some a
  | (c, ok) :: l, a =>
    if a.answer c = some !ok then none else steps l (if ok then a.succeed c else a.fail c)

end AgentOS
