/-
# Reading a TFFS on NOR flash

The image is a chain of entries, each with its id and its length, up to an end. One of them is the
table of the names of the others. Positions are counted in 32 bits, and the image may be longer.

An access outside of the image is a fault. All allocations succeed. Left out is what is printed.
-/

import OpenWrt.Fritz.TffsNand
import OpenWrt.Lib.Loop

namespace OpenWrt.Fritz.TffsNor

open Lib.Memory TffsNand

/-- The image that was read, and the options. -/
structure Image where
  bytes : ℕ → UInt8
  /-- `tffs_size` -/
  size : ℕ
  /-- Numbers have their highest byte first: on such a machine, or with `-b`. -/
  isBig : Bool

/-- `sizeof(struct tffs_entry_header)` -/
def headerSize : ℕ := 4

/-- `TFFS_ID_END` -/
def idEnd : ℕ := 0xffff

/-- `TFFS_ID_TABLE_NAME` -/
def idTableName : ℕ := 0x01ff

/-- `get_walk_size` -/
def walkSize (entryLen : ℕ) : ℕ := (entryLen + 3) % 2 ^ 32 / 4 * 4

/-- A name, with the places where its id and its text are. -/
structure NameEntry where
  id : ℕ
  val : ℕ
deriving DecidableEq, Repr

namespace Image

variable (b : Image)

/-- `get_header_id` -/
def headerId (pos : ℕ) : ℕ := number b.isBig (slice b.bytes pos 2)

/-- `get_header_len` -/
def headerLen (pos : ℕ) : ℕ := number b.isBig (slice b.bytes (pos + 2) 2)

/-- The position after an entry. -/
def nextPos (pos : ℕ) : ℕ := (pos + headerSize + walkSize (b.headerLen pos)) % 2 ^ 32

/-- A turn of the loop of `find_entry`. -/
def findRound (id pos : ℕ) : ℕ ⊕ Except Stop (Option ℕ) :=
  if b.size < pos + 2 then .inr (.error .fault)
  else if b.headerId pos = id then .inr (.ok (some pos))
  else if b.size < pos + headerSize then .inr (.error .fault)
  else if b.nextPos pos < b.size ∧ b.headerId pos ≠ idEnd then .inl (b.nextPos pos)
  else .inr (.ok none)

/-- `strlen`, unless the image ends before the text does. -/
def strlen (start : ℕ) : Option ℕ :=
  (List.range (b.size - start)).find? fun i => b.bytes (start + i) == 0

/-- A turn of the loop of `parse_key_names`, with the position and the names so far. The length of
the entry is before the text. -/
def parseRound (namesEntry : ℕ) (s : ℕ × List NameEntry) :
    (ℕ × List NameEntry) ⊕ Except Stop (List NameEntry) :=
  let val := namesEntry + headerSize
  let pos := (s.1 + 4) % 2 ^ 32
  match b.strlen (val + pos) with
  | none => .inr (.error .fault)
  | some length =>
    let names := s.2 ++ [{ id := val + s.1, val := val + pos }]
    let pos := (pos + walkSize ((length + 1) % 2 ^ 32)) % 2 ^ 32
    if pos < b.headerLen namesEntry then .inl (pos, names) else .inr (.ok names)

end Image

end OpenWrt.Fritz.TffsNor
