import AgentOS.Lib.Transition
import AgentOS.Model.Disk
import AgentOS.Model.Mapping

/-!
# Files in blocks

The block layer of `kernel/fs.c`: the free bitmap (`balloc`, `bfree`), the map from a file's blocks
to blocks of the disk (`bmap`, `itrunc`), the inodes in their blocks (`ialloc`, `ilock`, `iupdate`), and the
loops of `readi` and `writei` over them. Of a `struct dinode` the type, the size and the addresses
are modelled; its other fields decide nothing here.

`block b` is what `bread` answers for block `b`, and `logged b` what was logged of it. They differ
behind a copy of `writei` that fails: its buffer is released and not logged, so that the bytes are
lost when the buffer is recycled, and stay when a commit finds the block in its log.

Beside it are the files as lists of bytes.
-/

namespace AgentOS

/-! ### The layout -/

/-- `IPB`. A `struct dinode` has 64 words. -/
def ipb : ℕ := 4

/-- `BPB`. -/
def bpb : ℕ := bsize * 8

/-- `IBLOCK`. -/
def Superblock.iblock (sb : Superblock) (i : ℕ) : ℕ := i / ipb + sb.inodestart

/-- `BBLOCK`. -/
def Superblock.bblock (sb : Superblock) (b : ℕ) : ℕ := b / bpb + sb.bmapstart

/-- The first data block: `nmeta` of `mkfs`. -/
def Superblock.datastart (sb : Superblock) : ℕ := sb.bmapstart + (sb.size / bpb + 1)

instance neZeroAddrs : NeZero 13 := ⟨by decide⟩

/-- The block addresses of an inode: `addrs`, and the words of the indirect block. -/
inductive BlockSlot
  | addr (k : Fin 13)
  | word (j : Fin 256)
  deriving DecidableEq, Repr

/-- The slot of block `bn` of a file. -/
def BlockSlot.data (bn : ℕ) : BlockSlot :=
  if bn < 12 then .addr (Fin.ofNat 13 bn) else .word (Fin.ofNat 256 (bn - 12))

/-- `type`, `size` and `addrs` of `struct inode`. -/
@[ext]
structure BlockInode where
  type : BitVec 16
  size : ℕ
  addrs : Fin 13 → ℕ

/-- Word `k` of the `struct dinode` of inode `i`, in its block. -/
def dinodeWord (i k : ℕ) : Fin 256 := Fin.ofNat 256 (64 * (i % ipb) + k)

/-- The `struct dinode` of inode `i` in the block `b`. -/
def dinodeGet (b : Block) (i : ℕ) : BlockInode where
  type := BitVec.ofNat 16 (Words.get b (dinodeWord i 0))
  size := Words.get b (dinodeWord i 2)
  addrs k := Words.get b (dinodeWord i (3 + k))

/-- `dip->type = type`: a `short`, in the word that has `major` too. -/
def dinodeType (b : Block) (i : ℕ) (type : BitVec 16) : Block :=
  Words.set b (dinodeWord i 0) (Words.get b (dinodeWord i 0) / 2 ^ 16 * 2 ^ 16 + type.toNat)

/-- The stores of `iupdate` into it. -/
def dinodeSet (b : Block) (i : ℕ) (ip : BlockInode) : Block :=
  (List.finRange 13).foldl (fun b (k : Fin 13) => Words.set b (dinodeWord i (3 + k)) (ip.addrs k))
    (Words.set (dinodeType b i ip.type) (dinodeWord i 2) ip.size)

/-- `memset(dip, 0, sizeof(*dip))`. -/
def dinodeClear (b : Block) (i : ℕ) : Block := fun q => if q.val / 256 = i % ipb then 0 else b q

/-! ### Bytes of a block -/

/-- The byte of a bitmap block with the bit of block `b`. -/
def bmapByte (b : ℕ) : Fin (4 * 256) := Fin.ofNat (4 * 256) (b % bpb / 8)

/-- `1 << (bi % 8)`. -/
def bmapMask (b : ℕ) : UInt8 := 1 <<< UInt8.ofNat (b % bpb % 8)

/-- `m` bytes of a block from `off`. -/
def Block.bytes (b : Block) (off m : ℕ) : List UInt8 :=
  (List.range m).map fun j => b (Fin.ofNat (4 * 256) (off + j))

/-- Store bytes in a block from `off`. -/
def Block.store (b : Block) (off : ℕ) (src : List UInt8) : Block := fun i =>
  if off ≤ i.val then src.getD (i.val - off) (b i) else b i

/-- The blocks, and `itable`: the inodes in memory, and which are valid. -/
structure BlockFs (sb : Superblock) where
  block : ℕ → Block
  logged : ℕ → Block
  inode : Fin sb.ninodes → BlockInode
  valid : Fin sb.ninodes → Bool

namespace BlockFs

variable {sb : Superblock} (s : BlockFs sb) (i : Fin sb.ninodes)

/-- A store into the buffer of a block. -/
def setBuffer (b : ℕ) (x : Block) : BlockFs sb := { s with block := Function.update s.block b x }

/-- A store, and `log_write`. -/
def setBlock (b : ℕ) (x : Block) : BlockFs sb :=
  { s.setBuffer b x with logged := Function.update s.logged b x }

def setInode (ip : BlockInode) : BlockFs sb := { s with inode := Function.update s.inode i ip }

def setAddr (k : Fin 13) (a : ℕ) : BlockFs sb :=
  s.setInode i { s.inode i with addrs := Function.update (s.inode i).addrs k a }

def setSize (n : ℕ) : BlockFs sb := s.setInode i { s.inode i with size := n }

def setType (type : BitVec 16) : BlockFs sb := s.setInode i { s.inode i with type := type }

def setValid (v : Bool) : BlockFs sb := { s with valid := Function.update s.valid i v }

/-! ### The bitmap -/

/-- The bit of block `b`: the block is in use. -/
def bit (b : ℕ) : Bool := s.block (sb.bblock b) (bmapByte b) &&& bmapMask b != 0

/-- Store the byte with the bit of block `b`. -/
def setBmap (b : ℕ) (x : UInt8) : BlockFs sb :=
  s.setBlock (sb.bblock b) (Function.update (s.block (sb.bblock b)) (bmapByte b) x)

def markUsed (b : ℕ) : BlockFs sb :=
  s.setBmap b (s.block (sb.bblock b) (bmapByte b) ||| bmapMask b)

def markFree (b : ℕ) : BlockFs sb :=
  s.setBmap b (s.block (sb.bblock b) (bmapByte b) &&& ~~~bmapMask b)

/-- `balloc`: the block and 0 where there is none. -/
def balloc : BlockFs sb × ℕ :=
  match (List.range sb.size).find? fun b => !s.bit b with
  | none => (s, 0)
  | some b => ((s.markUsed b).setBlock b Block.zero, b)

/-- `bfree`; `none` where it panics. -/
def bfree (b : ℕ) : Option (BlockFs sb) := if s.bit b then some (s.markFree b) else none

/-! ### Inodes -/

/-- `iupdate`. -/
def iupdate : BlockFs sb :=
  s.setBlock (sb.iblock i) (dinodeSet (s.block (sb.iblock i)) i (s.inode i))

/-- The inode on the disk. -/
def dinode : BlockInode := dinodeGet (s.block (sb.iblock i)) i

/-- `ilock`; `none` where it panics. -/
def ilock : Option (BlockFs sb) :=
  if s.valid i then some s
  else
    let t := (s.setInode i (s.dinode i)).setValid i true
    if (t.inode i).type = 0 then none else some t

/-- `ialloc`, and `iget` of the inode. -/
def ialloc (type : BitVec 16) : BlockFs sb × Option (Fin sb.ninodes) :=
  match (List.finRange sb.ninodes).find? fun i => i.val ≠ 0 ∧ (s.dinode i).type = 0 with
  | none => (s, none)
  | some i =>
    let b := s.block (sb.iblock i)
    ((s.setBlock (sb.iblock i) (dinodeType (dinodeClear b i) i type)).setValid i false, some i)

/-! ### The blocks of a file -/

/-- `ip->addrs[k]`, with a new block if it is 0. -/
def bmapAddr (k : Fin 13) : BlockFs sb × ℕ :=
  if (s.inode i).addrs k = 0 then
    let r := s.balloc
    if r.2 = 0 then r else (r.1.setAddr i k r.2, r.2)
  else (s, (s.inode i).addrs k)

/-- `a[j]` of the indirect block `ind`, with a new block if it is 0. -/
def bmapWord (ind : ℕ) (j : Fin 256) : BlockFs sb × ℕ :=
  if Words.get (s.block ind) j = 0 then
    let r := s.balloc
    if r.2 = 0 then r else (r.1.setBlock ind (Words.set (r.1.block ind) j r.2), r.2)
  else (s, Words.get (s.block ind) j)

/-- `bmap`; `none` where it panics. -/
def bmap (bn : ℕ) : Option (BlockFs sb × ℕ) :=
  if bn < 12 then some (s.bmapAddr i (Fin.ofNat 13 bn))
  else if bn - 12 < 256 then
    let r := s.bmapAddr i 12
    if r.2 = 0 then some r else some (r.1.bmapWord r.2 (Fin.ofNat 256 (bn - 12)))
  else none

/-- `if(ip->addrs[k]){ bfree(...); ip->addrs[k] = 0; }`. -/
def freeAddr (k : Fin 13) : Option (BlockFs sb) :=
  if (s.inode i).addrs k = 0 then some s
  else (s.bfree ((s.inode i).addrs k)).map fun t => t.setAddr i k 0

/-- `if(a[j]) bfree(...);` of the indirect block `ind`. -/
def freeWord (ind : ℕ) (j : Fin 256) : Option (BlockFs sb) :=
  if Words.get (s.block ind) j = 0 then some s else s.bfree (Words.get (s.block ind) j)

/-- The indirect block of `itrunc`. -/
def freeIndirect : Option (BlockFs sb) :=
  if (s.inode i).addrs 12 = 0 then some s
  else
    ((List.finRange 256).foldlM (fun t j => freeWord t ((s.inode i).addrs 12) j) s).bind fun t =>
      t.freeAddr i 12

/-- `itrunc`. -/
def itrunc : Option (BlockFs sb) :=
  ((List.finRange 12).foldlM (fun t k => freeAddr t i k.castSucc) s).bind fun t =>
    (t.freeIndirect i).map fun u => (u.setSize i 0).iupdate i

/-- What `iput` does of the last reference to a valid inode without links. -/
def ifree : Option (BlockFs sb) :=
  (s.itrunc i).map fun t => ((t.setType i 0).iupdate i).setValid i false

/-! ### Reading and writing -/

/-- The loop of `readi` for `n` bytes, when `avail` bytes of the destination can be written: the
bytes written, and whether no page of the destination faulted. -/
def readiLoop : ℕ → BlockFs sb → ℕ → ℕ → ℕ → Option (BlockFs sb × List UInt8 × Bool)
  | 0, s, _, _, _ => some (s, [], true)
  | fuel + 1, s, off, n, avail =>
    if n = 0 then some (s, [], true)
    else
      (s.bmap i (off / bsize)).bind fun r =>
        let m := min n (bsize - off % bsize)
        let bytes := (r.1.block r.2).bytes (off % bsize) m
        if r.2 = 0 then some (r.1, [], true)
        else if avail < m then some (r.1, bytes.take avail, false)
        else
          (readiLoop fuel r.1 (off + m) (n - m) (avail - m)).map fun q =>
            (q.1, bytes ++ q.2.1, q.2.2)

/-- `readi`: the bytes written to the destination, and `tot`. -/
def readi (off n avail : ℕ) : Option (BlockFs sb × List UInt8 × ℤ) :=
  let size := (s.inode i).size
  if size < off ∨ (off + n) % 2 ^ 32 < off then some (s, [], 0)
  else
    let n' := if size < (off + n) % 2 ^ 32 then size - off else n
    (readiLoop i n' s off n' avail).map fun q =>
      (q.1, q.2.1, if q.2.2 then q.2.1.length else -1)

/-- The loop of `writei`, when `avail` bytes of the source can be read: `tot`. What `either_copyin`
copied of the block that fails is in its buffer, and not logged. -/
def writeiLoop : ℕ → BlockFs sb → ℕ → List UInt8 → ℕ → Option (BlockFs sb × ℕ)
  | 0, s, _, _, _ => some (s, 0)
  | fuel + 1, s, off, src, avail =>
    if src = [] then some (s, 0)
    else
      (s.bmap i (off / bsize)).bind fun r =>
        let m := min src.length (bsize - off % bsize)
        let copied := fun n => (r.1.block r.2).store (off % bsize) (src.take n)
        if r.2 = 0 then some (r.1, 0)
        else if avail < m then some (r.1.setBuffer r.2 (copied avail), 0)
        else
          (writeiLoop fuel (r.1.setBlock r.2 (copied m)) (off + m) (src.drop m) (avail - m)).map
            fun q => (q.1, m + q.2)

/-- `writei`. -/
def writei (off : ℕ) (src : List UInt8) (avail : ℕ) : Option (BlockFs sb × ℤ) :=
  let size := (s.inode i).size
  let stop := (off + src.length) % 2 ^ 32
  if size < off ∨ stop < off ∨ maxFileSize < stop then some (s, -1)
  else
    (writeiLoop i src.length s off src avail).map fun q =>
      ((q.1.setSize i (max size (off + q.2))).iupdate i, q.2)

end BlockFs

/-! ### The machines -/

/-- One operation: a new file; one under the lock of an inode, where `load` finds it not in the
table; or what becomes of a buffer. -/
inductive BlockOp (sb : Superblock)
  | create (type : BitVec 16)
  | load (i : Fin sb.ninodes)
  | read (i : Fin sb.ninodes) (off n avail : ℕ)
  | write (i : Fin sb.ninodes) (off : ℕ) (src : List UInt8) (avail : ℕ)
  | trunc (i : Fin sb.ninodes)
  | free (i : Fin sb.ninodes)
  | recycle (b : ℕ)
  | commit (b : ℕ)

/-- What it answers: the bytes read, and what it returns. -/
structure BlockAnswer where
  bytes : List UInt8
  ret : ℤ
  deriving DecidableEq, Repr

/-- An operation and its answer. -/
structure BlockLabel (sb : Superblock) where
  op : BlockOp sb
  answer : BlockAnswer

/-- The lengths are `uint`, and a new file has a type. -/
def BlockOp.Uints {sb : Superblock} : BlockOp sb → Prop
  | .create type => type ≠ 0
  | .read _ off n _ => off < 2 ^ 32 ∧ n < 2 ^ 32
  | .write _ off src _ => off < 2 ^ 32 ∧ src.length < 2 ^ 32
  | _ => True

instance {sb : Superblock} (op : BlockOp sb) : Decidable op.Uints := by
  cases op <;> unfold BlockOp.Uints <;> infer_instance

/-- The source of a write ends, if it is not all there, where a block of the file does: then
`either_copyin` copies a block or fails before its first byte. -/
def BlockOp.Whole {sb : Superblock} : BlockOp sb → Prop
  | .write _ off src avail => src.length ≤ avail ∨ avail = 0 ∨ (off + avail) % bsize = 0
  | _ => True

instance decidableWhole {sb : Superblock} (op : BlockOp sb) : Decidable op.Whole := by
  cases op <;> unfold BlockOp.Whole <;> infer_instance

/-- `create`, for the inode: `ialloc` and `ilock`. It answers the number, and 0 if there is none. -/
def BlockFs.create {sb : Superblock} (s : BlockFs sb) (type : BitVec 16) :
    Option (BlockFs sb × ℕ) :=
  match s.ialloc type with
  | (t, none) => some (t, 0)
  | (t, some i) => (t.ilock i).map fun u => (u, i)

/-- One operation; `none` where the kernel panics. -/
def BlockFs.step {sb : Superblock} (s : BlockFs sb) : BlockOp sb → Option (BlockFs sb × BlockAnswer)
  | .create type => (s.create type).map fun q => (q.1, ⟨[], q.2⟩)
  | .load i => ((s.setValid i false).ilock i).map fun t => (t, ⟨[], 0⟩)
  | .read i off n avail =>
    (s.ilock i).bind fun t => (t.readi i off n avail).map fun q => (q.1, ⟨q.2.1, q.2.2⟩)
  | .write i off src avail =>
    (s.ilock i).bind fun t => (t.writei i off src avail).map fun q => (q.1, ⟨[], q.2⟩)
  | .trunc i => (s.ilock i).bind fun t => (t.itrunc i).map fun u => (u, ⟨[], 0⟩)
  | .free i => (s.ilock i).bind fun t => (t.ifree i).map fun u => (u, ⟨[], 0⟩)
  | .recycle b => some (s.setBuffer b (s.logged b), ⟨[], 0⟩)
  | .commit b => some (s.setBlock b (s.block b), ⟨[], 0⟩)

/-- Byte `j` of block `b` of a disk without files: a bit is set for each block before the data
blocks. -/
def freshByte (sb : Superblock) (b j : ℕ) : UInt8 :=
  if sb.bmapstart ≤ b ∧ b < sb.datastart then
    UInt8.ofNat (2 ^ min 8 (sb.datastart - ((b - sb.bmapstart) * bpb + 8 * j)) - 1)
  else 0

/-- A disk without files, as `mkfs` has it before the root directory. -/
def BlockFs.fresh (sb : Superblock) : BlockFs sb where
  block b := fun j => freshByte sb b j
  logged b := fun j => freshByte sb b j
  inode _ := ⟨0, 0, fun _ => 0⟩
  valid _ := false

/-- **The files in blocks.** -/
def blockMachine (sb : Superblock) : Machine (BlockFs sb) (BlockLabel sb) where
  init s := s = .fresh sb
  next s l := (s.step l.op).bind fun r => if r.2 = l.answer then some r.1 else none

/-- The files as lists of bytes; `none` for a free inode. -/
abbrev FileBytes (sb : Superblock) := Fin sb.ninodes → Option (List UInt8)

/-- A new file: the first inode that is free. -/
def FileBytes.create {sb : Superblock} (c : FileBytes sb) : FileBytes sb × ℕ :=
  match (List.finRange sb.ninodes).find? fun i => i.val ≠ 0 ∧ c i = none with
  | none => (c, 0)
  | some i => (Function.update c i (some []), i)

/-- One operation on lists of bytes; `none` where there is no file. -/
def FileBytes.step {sb : Superblock} (c : FileBytes sb) :
    BlockOp sb → Option (FileBytes sb × BlockAnswer)
  | .create _ => some (c.create.1, ⟨[], c.create.2⟩)
  | .load i => (c i).map fun _ => (c, ⟨[], 0⟩)
  | .read i off n avail => (c i).map fun bytes =>
    let r := readi bytes off n
    (c, ⟨r.take avail, if avail < r.length then -1 else r.length⟩)
  | .write i off src avail => (c i).map fun bytes =>
    let r := writei bytes off src avail
    (Function.update c i (some r.1), ⟨[], r.2⟩)
  | .trunc i => (c i).map fun _ => (Function.update c i (some []), ⟨[], 0⟩)
  | .free i => (c i).map fun _ => (Function.update c i none, ⟨[], 0⟩)
  | .recycle _ | .commit _ => some (c, ⟨[], 0⟩)

/-- **The files as lists of bytes.** -/
def bytesMachine (sb : Superblock) : Machine (FileBytes sb) (BlockLabel sb) where
  init c := c = fun _ => none
  next c l := (c.step l.op).bind fun r => if r.2 = l.answer then some r.1 else none

end AgentOS
