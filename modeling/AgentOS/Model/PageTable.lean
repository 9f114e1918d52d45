import AgentOS.Model.Mapping

/-!
# Page tables in physical memory

`kernel/kalloc.c` and the page tables of `kernel/vm.c`, over the pages of physical memory that
`kalloc` hands out. A page table page is an array of 512 entries of 64 bits; an entry holds the
address of the next page. A page is used as a table or as bytes: what reads a page as the other is
stuck. Without an answer a function panics or is stuck; that it returns `0` or `-1` for want of
memory is part of its answer.
-/

namespace AgentOS

/-- `KERNBASE` and `PHYSTOP`. -/
def kernbase : ℕ := 0x80000000
def phystop : ℕ := kernbase + 128 * 1024 * 1024

/-- `TRAMPOLINE` and `TRAPFRAME`. -/
def trampoline : ℕ := maxva - pgsize
def trapframe : ℕ := trampoline - pgsize

/-- The pages of user memory of a size. -/
def sizePages (sz : ℕ) : ℕ := (sz + pgsize - 1) / pgsize

/-- The pages from `end`, where the kernel ends, to `PHYSTOP`, by page number. -/
structure Ram where
  first : ℕ
  npages : ℕ
  kernel : kernbase / pgsize < first
  top : (first + npages) * pgsize = phystop

/-- A page that `kalloc` hands out. -/
abbrev Ram.Frame (R : Ram) := Fin R.npages

/-! ### Page table entries -/

abbrev Pte := BitVec 64

instance neZeroPtes : NeZero 512 := ⟨by decide⟩

def pteV : Pte := 1#64 <<< 0
def pteX : BitVec 32 := 1#32 <<< 3

/-- `PA2PTE`. -/
def pa2pte (pa : BitVec 64) : Pte := (pa >>> 12) <<< 10

/-- `PTE2PA`. -/
def pte2pa (e : Pte) : BitVec 64 := (e >>> 10) <<< 12

/-- `PTE_FLAGS`, as a `uint`. -/
def pteFlags (e : Pte) : BitVec 32 := (e &&& 0x3FF#64).setWidth 32

/-- `*pte & PTE_V`. -/
def pteValid (e : Pte) : Prop := e &&& pteV ≠ 0

/-- What `freewalk` takes for a pointer to a lower-level page table. -/
def pteLink (e : Pte) : Prop :=
  pteValid e ∧ e &&& (pteR ||| pteW ||| pteX).setWidth 64 = 0

instance (e : Pte) : Decidable (pteValid e) := inferInstanceAs (Decidable (_ ≠ _))
instance (e : Pte) : Decidable (pteLink e) := inferInstanceAs (Decidable (_ ∧ _))

/-- `PA2PTE(pa) | perm | PTE_V`. -/
def pteMake (pa : BitVec 64) (perm : BitVec 32) : Pte := pa2pte pa ||| perm.setWidth 64 ||| pteV

/-- `PX(level, va)`. -/
def px (level va : ℕ) : Fin 512 := Fin.ofNat 512 (va >>> (12 + 9 * level))

namespace Ram

variable (R : Ram)

/-- The address of a page. -/
def pa (f : R.Frame) : BitVec 64 := BitVec.ofNat 64 (R.first + f.val) <<< 12

/-- An address that `kfree` takes. -/
def Managed (pa : BitVec 64) : Prop :=
  pa.toNat % pgsize = 0 ∧ R.first ≤ pa.toNat / pgsize ∧ pa.toNat / pgsize < R.first + R.npages

instance (pa : BitVec 64) : Decidable (R.Managed pa) := inferInstanceAs (Decidable (_ ∧ _))

theorem Managed.lt {R : Ram} {pa : BitVec 64} (h : R.Managed pa) :
    pa.toNat / pgsize - R.first < R.npages := by
  obtain ⟨-, h1, h2⟩ := h
  omega

/-- The page at an address. -/
def frameOf (pa : BitVec 64) : Option R.Frame :=
  if h : R.Managed pa then some ⟨pa.toNat / pgsize - R.first, h.lt⟩ else none

end Ram

/-! ### Physical memory -/

inductive Page
  | table (pte : Fin 512 → Pte)
  | bytes (b : ℕ → UInt8)

/-- The pages, and `kmem.freelist`. -/
structure Kmem (R : Ram) where
  page : R.Frame → Page
  freelist : List R.Frame

namespace Kmem

variable {R : Ram} (m : Kmem R)

def setPage (f : R.Frame) (x : Page) : Kmem R := { m with page := Function.update m.page f x }

/-- `pagetable[i]`. -/
def pte (t : R.Frame) (i : Fin 512) : Option Pte :=
  match m.page t with
  | .table e => some (e i)
  | .bytes _ => none

/-- `pagetable[i] = e`. -/
def setPte (t : R.Frame) (i : Fin 512) (e : Pte) : Kmem R :=
  match m.page t with
  | .table es => m.setPage t (.table (Function.update es i e))
  | .bytes _ => m

/-- The bytes of a page. -/
def bytes (f : R.Frame) : Option (ℕ → UInt8) :=
  match m.page f with
  | .table _ => none
  | .bytes b => some b

/-- `kalloc`; without an answer it returns `0`. -/
def kalloc : Option (R.Frame × Kmem R) :=
  match m.freelist with
  | [] => none
  | f :: l => some (f, { m with page := Function.update m.page f (.bytes fun _ => 5), freelist := l })

/-- `kfree`. -/
def kfree (pa : BitVec 64) : Option (Kmem R) :=
  (R.frameOf pa).map fun f =>
    { m with page := Function.update m.page f (.bytes fun _ => 1), freelist := f :: m.freelist }

/-! ### Walking a page table -/

/-- A round of the loop of `walk`: the lower-level page table, and `none` where `walk` returns `0`. -/
def walkRound (alloc : Bool) (t : R.Frame) (i : Fin 512) : Option (Option R.Frame × Kmem R) := do
  let e ← m.pte t i
  if pteValid e then
    let c ← R.frameOf (pte2pa e)
    some (some c, m)
  else if alloc then
    match m.kalloc with
    | none => some (none, m)
    | some (c, m) =>
      some (some c, (m.setPage c (.table fun _ => 0)).setPte t i (pa2pte (R.pa c) ||| pteV))
  else some (none, m)

/-- `walk`: the page and the index of the entry. -/
def walk (t : R.Frame) (va : ℕ) (alloc : Bool) : Option (Option (R.Frame × Fin 512) × Kmem R) :=
  if maxva ≤ va then none
  else do
    let (c, m) ← m.walkRound alloc t (px 2 va)
    match c with
    | none => some (none, m)
    | some t =>
      let (c, m) ← m.walkRound alloc t (px 1 va)
      some (c.map fun t => (t, px 0 va), m)

/-- `walkaddr`. -/
def walkaddr (t : R.Frame) (va : ℕ) : Option (Option (BitVec 64)) :=
  if maxva ≤ va then some none
  else do
    let (slot, m) ← m.walk t va false
    match slot with
    | none => some none
    | some (t, i) =>
      let e ← m.pte t i
      if ¬pteValid e then some none
      else if pteFlags e &&& pteU = 0 then some none
      else some (some (pte2pa e))

/-! ### Mapping and unmapping -/

/-- A round of the loop of `mappages`: whether `walk` found memory. -/
def mapRound (t : R.Frame) (a : ℕ) (pa : BitVec 64) (perm : BitVec 32) :
    Option (Bool × Kmem R) := do
  let (slot, m) ← m.walk t a true
  match slot with
  | none => some (false, m)
  | some (t, i) =>
    let e ← m.pte t i
    if pteValid e then none else some (true, m.setPte t i (pteMake pa perm))

/-- The loop of `mappages`. -/
def mapLoop (t : R.Frame) (perm : BitVec 32) :
    ℕ → ℕ → BitVec 64 → Kmem R → Option (Bool × Kmem R)
  | 0, _, _, m => some (true, m)
  | n + 1, a, pa, m => do
    let (ok, m) ← m.mapRound t a pa perm
    if ok then mapLoop t perm n (a + pgsize) (pa + BitVec.ofNat 64 pgsize) m else some (false, m)

/-- `mappages`. -/
def mappages (t : R.Frame) (va size : ℕ) (pa : BitVec 64) (perm : BitVec 32) :
    Option (Bool × Kmem R) :=
  if va % pgsize ≠ 0 ∨ size % pgsize ≠ 0 ∨ size = 0 then none
  else mapLoop t perm (size / pgsize) va pa m

/-- A round of the loop of `uvmunmap`. -/
def unmapRound (t : R.Frame) (a : ℕ) (free : Bool) : Option (Kmem R) := do
  let (slot, m) ← m.walk t a false
  match slot with
  | none => some m
  | some (t, i) =>
    let e ← m.pte t i
    if ¬pteValid e then some m
    else if pteFlags e = 1 then some m
    else do
      let m ← if free then m.kfree (pte2pa e) else some m
      some (m.setPte t i 0)

/-- The loop of `uvmunmap`. -/
def unmapLoop (t : R.Frame) (free : Bool) : ℕ → ℕ → Kmem R → Option (Kmem R)
  | 0, _, m => some m
  | n + 1, a, m => do
    let m ← m.unmapRound t a free
    unmapLoop t free n (a + pgsize) m

/-- `uvmunmap`. -/
def uvmunmap (t : R.Frame) (va npages : ℕ) (free : Bool) : Option (Kmem R) :=
  if va % pgsize ≠ 0 then none
  else unmapLoop t free (((va + npages * pgsize) % 2 ^ 64 - va) / pgsize) va m

/-! ### Address spaces -/

/-- `uvmcreate`. -/
def uvmcreate : Option (R.Frame × Kmem R) :=
  m.kalloc.map fun r => (r.1, r.2.setPage r.1 (.table fun _ => 0))

/-- `uvmdealloc`. -/
def uvmdealloc (t : R.Frame) (oldsz newsz : ℕ) : Option (ℕ × Kmem R) :=
  if oldsz ≤ newsz then some (oldsz, m)
  else if pgroundup newsz < pgroundup oldsz then do
    let m ← m.uvmunmap t (pgroundup newsz) ((pgroundup oldsz - pgroundup newsz) / pgsize) true
    some (newsz, m)
  else some (newsz, m)

/-- A round of the loop of `uvmalloc`: whether there was memory. -/
def growRound (t : R.Frame) (a : ℕ) (perm : BitVec 32) (x : ℕ → UInt8) :
    Option (Bool × Kmem R) :=
  match m.kalloc with
  | none => some (false, m)
  | some (f, m) => do
    let (ok, m) ← (m.setPage f (.bytes x)).mappages t a pgsize (R.pa f) perm
    if ok then some (true, m)
    else do
      let m ← m.kfree (R.pa f)
      some (false, m)

/-- The loop of `uvmalloc`. -/
def growLoop (t : R.Frame) (perm : BitVec 32) (oldsz : ℕ) : ℕ → ℕ → Kmem R → Option (Bool × Kmem R)
  | 0, _, m => some (true, m)
  | n + 1, a, m => do
    let (ok, m) ← m.growRound t a perm fun _ => 0
    if ok then growLoop t perm oldsz n (a + pgsize) m
    else do
      let (_, m) ← m.uvmdealloc t a oldsz
      some (false, m)

/-- `uvmalloc`. -/
def uvmalloc (t : R.Frame) (oldsz newsz : ℕ) (xperm : BitVec 32) : Option (ℕ × Kmem R) :=
  if newsz < oldsz then some (oldsz, m)
  else do
    let oldsz := pgroundup oldsz
    let (ok, m) ← growLoop t (pteR ||| pteU ||| xperm) oldsz
      ((newsz - oldsz + (pgsize - 1)) / pgsize) oldsz m
    some (if ok then newsz else 0, m)

/-- `freewalk`, of a page table of so many levels. -/
def freewalk : ℕ → R.Frame → Kmem R → Option (Kmem R)
  | 0, _, _ => none
  | d + 1, t, m => do
    let m ← (List.finRange 512).foldlM (fun m i => do
      let e ← m.pte t i
      if pteLink e then do
        let c ← R.frameOf (pte2pa e)
        let m ← freewalk d c m
        some (m.setPte t i 0)
      else some m) m
    m.kfree (R.pa t)

/-- `uvmfree`. -/
def uvmfree (t : R.Frame) (sz : ℕ) : Option (Kmem R) := do
  let m ← if 0 < sz then m.uvmunmap t 0 (pgroundup sz / pgsize) true else some m
  m.freewalk 3 t

/-- The loop of `uvmcopy`. -/
def copyLoop (old new : R.Frame) : ℕ → ℕ → Kmem R → Option (Bool × Kmem R)
  | 0, _, m => some (true, m)
  | n + 1, i, m => do
    let (slot, m) ← m.walk old i false
    let (t, k) ← slot
    let e ← m.pte t k
    if ¬pteValid e then none
    else do
      let f ← R.frameOf (pte2pa e)
      let x ← m.bytes f
      let (ok, m) ← m.growRound new i (pteFlags e) x
      if ok then copyLoop old new n (i + pgsize) m
      else do
        let m ← m.uvmunmap new 0 (i / pgsize) true
        some (false, m)

/-- `uvmcopy`: whether there was memory. -/
def uvmcopy (old new : R.Frame) (sz : ℕ) : Option (Bool × Kmem R) :=
  copyLoop old new ((sz + (pgsize - 1)) / pgsize) 0 m

/-- `uvmclear`. -/
def uvmclear (t : R.Frame) (va : ℕ) : Option (Kmem R) := do
  let (slot, m) ← m.walk t va false
  let (t, i) ← slot
  let e ← m.pte t i
  some (m.setPte t i (e &&& ~~~pteU.setWidth 64))

/-! ### User memory -/

/-- What `memmove` leaves of a page: `src` from `off`. -/
def moveBytes (b : ℕ → UInt8) (off : ℕ) (src : List UInt8) : ℕ → UInt8 := fun k =>
  if off ≤ k ∧ k < off + src.length then src.getD (k - off) 0 else b k

/-- The loop of `copyout`, of `fuel` rounds at most: whether it copied everything. -/
def copyoutLoop (t : R.Frame) : ℕ → ℕ → List UInt8 → Kmem R → Option (Bool × Kmem R)
  | 0, _, _, m => some (true, m)
  | fuel + 1, dst, src, m =>
    if src = [] then some (true, m)
    else
      let va := dst / pgsize * pgsize
      if maxva ≤ va then some (false, m)
      else do
        let (slot, m) ← m.walk t va false
        match slot with
        | none => some (false, m)
        | some (p, i) =>
          let e ← m.pte p i
          if ¬pteValid e ∨ pteFlags e &&& pteU = 0 ∨ pteFlags e &&& pteW = 0 then some (false, m)
          else do
            let f ← R.frameOf (pte2pa e)
            let b ← m.bytes f
            let n := min (pgsize - (dst - va)) src.length
            copyoutLoop t fuel (va + pgsize) (src.drop n)
              (m.setPage f (.bytes (moveBytes b (dst - va) (src.take n))))

/-- `copyout`. -/
def copyout (t : R.Frame) (dst : ℕ) (src : List UInt8) : Option (Bool × Kmem R) :=
  copyoutLoop t src.length dst src m

/-- The loop of `copyin`, of `fuel` rounds at most: whether it copied everything, and what it
copied. -/
def copyinLoop (t : R.Frame) : ℕ → ℕ → ℕ → Option (Bool × List UInt8)
  | 0, _, _ => some (true, [])
  | fuel + 1, src, len =>
    if len = 0 then some (true, [])
    else do
      let va := src / pgsize * pgsize
      let pa ← m.walkaddr t va
      match pa with
      | none => some (false, [])
      | some pa =>
        let f ← R.frameOf pa
        let b ← m.bytes f
        let n := min (pgsize - (src - va)) len
        let (ok, l) ← copyinLoop t fuel (va + pgsize) (len - n)
        some (ok, (List.range n).map (fun k => b (src - va + k)) ++ l)

/-- `copyin`. -/
def copyin (t : R.Frame) (src len : ℕ) : Option (Bool × List UInt8) := m.copyinLoop t len src len

end Kmem

end AgentOS
