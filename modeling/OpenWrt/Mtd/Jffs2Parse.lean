/-
# Scanning a JFFS2

Before something is added, each block is walked from node to node by the lengths in their headers.
The directory to add to is searched by its name, and the counters are raised to the numbers of the
entries.

A place outside the block cannot be read, so that the walk fails there. It is given up when the
fuel is used up.
-/

import OpenWrt.Mtd.Jffs2

namespace OpenWrt.Mtd.Jffs2

/-- How a machine stores a number. -/
inductive ByteOrder
  | little | big
deriving DecidableEq, Repr

def ByteOrder.value (order : ByteOrder) (bytes : List UInt8) : ℕ :=
  match order with
  | .little => bytes.foldr (fun byte rest => byte.toNat + 256 * rest) 0
  | .big => bytes.foldl (fun rest byte => byte.toNat + 256 * rest) 0

/-- A block in the memory. -/
structure Block where
  order : ByteOrder
  bytes : List UInt8
  lt : bytes.length < 2 ^ 31

/-- A name without a zero. -/
structure Dir where
  name : List UInt8
  noNul : 0 ∉ name

/-- What is known from the scan. -/
structure Parsed where
  targetIno : UInt32
  lastIno : UInt32
  lastVersion : UInt32
deriving DecidableEq, Repr

/-- What the scan uses of an entry. -/
structure Seen where
  taken : Bool
  ino : UInt32
  version : UInt32
deriving DecidableEq, Repr

/-- An entry is noted. -/
def Parsed.note (p : Parsed) (seen : Seen) : Parsed where
  targetIno := if seen.taken then seen.ino else p.targetIno
  lastIno := if p.lastIno < seen.ino then seen.ino else p.lastIno
  lastVersion := if p.lastVersion < seen.version then seen.version else p.lastVersion

namespace Block

variable (b : Block)

/-! ## Reading -/

/-- A number in the block. -/
def read (ofs len : ℕ) : Option ℕ :=
  if ofs + len ≤ b.bytes.length then
    some (b.order.value ((b.bytes.drop ofs).take len))
  else none

def word (ofs : ℕ) : Option UInt32 := (b.read ofs 4).map UInt32.ofNat

/-- The header of a node at a place. -/
def magic (ofs : ℕ) : Option ℕ := b.read ofs 2

def nodetype (ofs : ℕ) : Option ℕ := b.read (ofs + 2) 2

def totlen (ofs : ℕ) : Option ℕ := b.read (ofs + 4) 4

/-- `strncmp` of what is at a place with a name finds them equal. -/
def strncmp (ofs : ℕ) : (name : List UInt8) → (count : ℕ) → Option Bool
  | _, 0 => some true
  | [], _ + 1 => (b.bytes[ofs]?).map (· == 0)
  | char :: name, count + 1 =>
    (b.bytes[ofs]?).bind fun byte =>
      if byte ≠ char then some false
      else if byte = 0 then some true
      else strncmp (ofs + 1) name count

/-! ## The walk -/

/-- The test for the directory. -/
def isTaken (dir : Dir) (ofs : ℕ) : Option Bool :=
  if dir.name = [] then some false
  else
    (b.word (ofs + 12)).bind fun pino =>
      if pino ≠ 1 then some false
      else (b.read (ofs + 28) 1).bind fun nsize => b.strncmp (ofs + 40) dir.name nsize

/-- What is read of an entry. -/
def seen (dir : Dir) (ofs : ℕ) : Option Seen :=
  (b.isTaken dir ofs).bind fun taken =>
    (b.word (ofs + 20)).bind fun ino =>
      (b.word (ofs + 16)).map fun version => ⟨taken, ino, version⟩

/-- `JFFS2_NODETYPE_DIRENT` -/
def nodetypeDirent : ℕ := 0xe001

/-- `JFFS2_NODETYPE_INODE` -/
def nodetypeInode : ℕ := 0xe002

/-- The place after a node, with `PAD` and the offset in 32 bits. -/
def next (ofs totlen : ℕ) : ℕ := (ofs + (totlen + 3) % 2 ^ 32 / 4 * 4) % 2 ^ 32

/-- `mtd_parse_jffs2data` from an offset on. -/
def parse (dir : Dir) : (fuel : ℕ) → (ofs : ℕ) → Parsed → Option Parsed
  | 0, _, _ => none
  | fuel + 1, ofs, p =>
    if ofs < b.bytes.length then
      (b.magic ofs).bind fun magic =>
        if magic ≠ 0x1985 then some p
        else
          (b.totlen ofs).bind fun totlen =>
            (b.nodetype ofs).bind fun nodetype =>
              if nodetype = nodetypeDirent then
                (b.seen dir ofs).bind fun seen => parse dir fuel (next ofs totlen) (p.note seen)
              else parse dir fuel (next ofs totlen) p
    else some p

end Block

end OpenWrt.Mtd.Jffs2
