/-
# Adding files to a JFFS2

Nodes are collected in a buffer of one erase block. When the next one does not fit, the rest is
padded, the block is written, and the next one starts with a clean marker. A directory is an entry
with an inode, and a file an entry with inodes that have its data piece by piece.

The buffer is what was stored in it, in this order and with the places. Left out are the checksums,
modes and times, and where in the partition a block is written. The files can be read.
-/

import Mathlib.Algebra.Group.Int.Defs
import Mathlib.Algebra.Group.Nat.Defs

namespace OpenWrt.Mtd.Jffs2

/-! ## Nodes -/

/-- `struct jffs2_raw_dirent`, 40 bytes. -/
structure RawDirent where
  totlen : ℕ
  pino : UInt32
  version : UInt32
  ino : UInt32
  nsize : UInt8
deriving DecidableEq, Repr

/-- `struct jffs2_raw_inode`, 68 bytes. -/
structure RawInode where
  totlen : ℕ
  ino : UInt32
  version : UInt32
  isize : ℕ
  offset : ℕ
  dsize : ℕ
deriving DecidableEq, Repr

/-- What is stored at once. -/
inductive Content
  | cleanMarker
  | padding (size : ℕ)
  | dirent (de : RawDirent) (name : List UInt8)
  | inode (ri : RawInode)
  | /-- The data of a node, which is stored after it. -/
    data (ri : RawInode) (bytes : List UInt8)
deriving DecidableEq, Repr

def Content.length : Content → ℕ
  | .cleanMarker => 12
  | .padding size => size
  | .dirent _ name => 40 + name.length
  | .inode _ => 68
  | .data _ bytes => bytes.length

/-- Something in the buffer. -/
structure Piece where
  ofs : ℕ
  content : Content
deriving DecidableEq, Repr

/-- The variables of the program. -/
structure State where
  ofs : ℕ
  /-- `buf`, since the last block was written. -/
  buf : List Piece
  /-- The blocks that were written. -/
  blocks : List (List Piece)
  lastIno : UInt32
  lastVersion : UInt32

/-- `erasesize`, an `int`. -/
structure Geometry where
  erasesize : ℕ
  pos : 0 < erasesize
  lt : erasesize < 2 ^ 31

namespace State

variable (g : Geometry) (s : State)

/-! ## The buffer -/

/-- `memcpy` or `memset` at the offset, which moves on. -/
def put (content : Content) : State :=
  { s with
    buf := s.buf ++ [⟨s.ofs, content⟩]
    ofs := s.ofs + content.length }

/-- `pad` -/
def pad (size : ℕ) : State :=
  if s.ofs % size = 0 ∧ s.ofs < g.erasesize then s
  else
    let s := if s.ofs < g.erasesize then s.put (.padding (size - s.ofs % size)) else s
    if s.ofs % g.erasesize = 0 then
      { s with
        ofs := 0
        buf := []
        blocks := s.blocks ++ [s.buf] }
    else { s with ofs := s.ofs % g.erasesize }

/-- `rbytes` -/
def rbytes : ℕ := g.erasesize - s.ofs % g.erasesize

/-- `prep_eraseblock`. It calls itself for ever where the marker does not fit. -/
def prepEraseblock : Option State :=
  if 0 < s.ofs then some s
  else if g.erasesize < 12 then none
  else some (s.put .cleanMarker)

/-- `add_data` -/
def addData (content : Content) : Option State :=
  if g.erasesize < s.ofs + content.length then
    ((s.pad g g.erasesize).prepEraseblock g).map fun s => s.put content
  else some (s.put content)

/-! ## Nodes -/

/-- The conversion to `size_t`. -/
def toSize (x : ℤ) : ℕ := (x % 2 ^ 32).toNat

/-- The entry that `add_dirent` makes. -/
def direntOf (name : List UInt8) (parent : UInt32) : RawDirent where
  totlen := 40 + name.length
  pino := parent
  version := s.lastVersion
  ino := s.lastIno + 1
  nsize := UInt8.ofNat name.length

/-- `add_dirent`; the offset moves on by the size in the node. -/
def addDirent (name : List UInt8) (parent : UInt32) : Option (State × UInt32) :=
  let s := if toSize (s.ofs - g.erasesize) < 40 + name.length then s.pad g g.erasesize else s
  (s.prepEraseblock g).map fun s =>
    let de := s.direntOf name parent
    let after : State :=
      { s with
        ofs := s.ofs + 40 + de.nsize.toNat
        buf := s.buf ++ [⟨s.ofs, .dirent de name⟩]
        lastIno := s.lastIno + 2
        lastVersion := s.lastVersion + 1 }
    (after.pad g 4, de.ino)

/-- `add_dir` -/
def addDir (name : List UInt8) (parent : UInt32) : Option (State × UInt32) :=
  (s.addDirent g name parent).bind fun (s, inode) =>
    let s := if s.rbytes g < 68 then s.pad g g.erasesize else s
    (s.prepEraseblock g).bind fun s =>
      (s.addData g (.inode ⟨68, inode, 1, 0, 0, 0⟩)).map fun s => (s.pad g 4, inode)

/-! ## Files -/

/-- A file; a read may give less than it is asked for, but something until the end. -/
structure File where
  name : List UInt8
  bytes : List UInt8
  /-- The bytes that a read at a position gives at most. -/
  most : ℕ → ℕ
  most_pos : ∀ pos, 0 < most pos

/-- The name after the last slash. -/
def File.fname (file : File) : List UInt8 :=
  (file.name.reverse.takeWhile (· ≠ 47)).reverse

/-- The loop of `add_file` that looks for room. In a block that is too small it never ends. -/
def makeRoom : Option State :=
  if 68 + 128 < s.rbytes g then some s
  else
    ((s.pad g g.erasesize).prepEraseblock g).bind fun s =>
      if 68 + 128 < s.rbytes g then some s else none

/-- What `add_file` reads for the next node. -/
def readBytes (file : File) (offset : ℕ) (remaining : List UInt8) : List UInt8 :=
  remaining.take (min (min (s.rbytes g - 68) 4096) (file.most offset))

/-- The inode of `add_file` for some data. -/
def inodeOf (file : File) (inode : UInt32) (offset : ℕ) (bytes : List UInt8) : RawInode where
  totlen := 68 + bytes.length
  ino := inode
  version := s.lastVersion + 1
  isize := file.bytes.length
  offset
  dsize := bytes.length

/-- One node of `add_file`. -/
def addChunk (file : File) (inode : UInt32) (offset : ℕ) (bytes : List UInt8) : Option State :=
  let ri := s.inodeOf file inode offset bytes
  (({ s with lastVersion := s.lastVersion + 1 } : State).addData g (.inode ri)).bind fun s =>
    (s.addData g (.data ri bytes)).bind fun s => (s.pad g 4).prepEraseblock g

/-- The loop of `add_file`; each turn but the last takes some of the bytes that remain. -/
def addChunks (file : File) (inode : UInt32) :
    (fuel : ℕ) → (offset : ℕ) → (remaining : List UInt8) → State → Option State
  | 0, _, _, _ => none
  | fuel + 1, offset, remaining, s =>
    (s.makeRoom g).bind fun s =>
      let bytes := s.readBytes g file offset remaining
      if bytes = [] then some s
      else
        (s.addChunk g file inode offset bytes).bind fun s =>
          addChunks file inode fuel (offset + bytes.length) (remaining.drop bytes.length) s

/-- `add_file` -/
def addFile (file : File) (parent : UInt32) : Option State :=
  (s.addDirent g file.fname parent).bind fun (s, inode) =>
    addChunks g file inode (file.bytes.length + 1) 0 file.bytes s

end State

end OpenWrt.Mtd.Jffs2
