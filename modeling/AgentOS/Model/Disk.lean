import AgentOS.Lib.Words
import Mathlib.Logic.Function.Basic

/-!
# The disk

Blocks of `BSIZE` bytes and the superblock of `kernel/fs.h`. A block is two sectors of the device,
which are written one after the other, in either order; a sector is written as a whole.
-/

namespace AgentOS

instance neZeroWords : NeZero 256 := ⟨by decide⟩
instance neZeroBytes : NeZero (4 * 256) := ⟨by decide⟩
instance neZeroSectors : NeZero 2 := ⟨by decide⟩

/-- A block of `BSIZE` bytes, or `BSIZE / sizeof(uint)` words. -/
abbrev Block := Fin (4 * 256) → UInt8

def Block.zero : Block := fun _ => 0

/-- One of the `BSIZE / 512` sectors of a block. -/
abbrev Sector := Fin 2

/-- `old` with one sector taken from `new`. -/
def Block.sector (k : Sector) (new old : Block) : Block :=
  fun i => if i.val / 512 = k.val then new i else old i

/-- `struct superblock`. -/
structure Superblock where
  magic : ℕ
  size : ℕ
  nblocks : ℕ
  ninodes : ℕ
  nlog : ℕ
  logstart : ℕ
  inodestart : ℕ
  bmapstart : ℕ
  deriving DecidableEq, Repr

/-- The superblock that `mkfs` writes. -/
def Superblock.mkfs : Superblock where
  magic := 0x10203040
  size := 4000
  nblocks := 4000 - (2 + 30 + (300 / 4 + 1) + (4000 / (1024 * 8) + 1))
  ninodes := 300
  nlog := 30
  logstart := 2
  inodestart := 2 + 30
  bmapstart := 2 + 30 + (300 / 4 + 1)

/-- The blocks outside of the log. -/
def Superblock.Home (sb : Superblock) (b : ℕ) : Prop :=
  b < sb.logstart ∨ sb.logstart + sb.nlog ≤ b

instance (sb : Superblock) (b : ℕ) : Decidable (sb.Home b) := by
  unfold Superblock.Home
  infer_instance

end AgentOS
