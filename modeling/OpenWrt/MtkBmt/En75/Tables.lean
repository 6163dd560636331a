/-
# The tables on the flash

The table of mapped blocks is written whole, and found again by its signature and checksum.
The table of factory bad blocks is only read here. Both are given by their bytes, position
by position. The host is little endian.
-/

import OpenWrt.MtkBmt.En75.Flash
import Mathlib.Data.List.GetD
import Mathlib.Data.UInt

namespace OpenWrt.MtkBmt.En75

def MAX_BMT_SIZE : ℕ := 256
def MAX_BBT_SIZE : ℕ := 1000

/-! ## Mapped blocks -/

/-- `bmt_entry`: a bad block, and the block of the reserve area that is used for it. -/
structure Entry where
  fromBlock : UInt16
  toBlock : UInt16
  deriving DecidableEq, Repr

/-- `bmt_table`. -/
structure Bmt where
  signature : Fin 3 → UInt8
  version : UInt8
  badCount : UInt8
  size : UInt8
  checksum : UInt8
  reserved : Fin 13 → UInt8
  table : Fin 256 → Entry

/-- Bytes of `bmt_table_header`. -/
def bmtHeaderSize : ℕ := 20

/-- Bytes of `bmt_table`. -/
def bmtSize : ℕ := bmtHeaderSize + 4 * MAX_BMT_SIZE

namespace Bmt

def zero : Bmt := ⟨fun _ => 0, 0, 0, 0, 0, fun _ => 0, fun _ => ⟨0, 0⟩⟩

def entry (bmt : Bmt) (i : ℕ) : Entry := bmt.table (Fin.ofNat 256 i)

def setEntry (bmt : Bmt) (i : ℕ) (e : Entry) : Bmt :=
  { bmt with table := Function.update bmt.table (Fin.ofNat 256 i) e }

def tableByte (bmt : Bmt) (pos : ℕ) : UInt8 :=
  let e := bmt.entry (pos / 4)
  match pos % 4 with
  | 0 => e.fromBlock.toUInt8
  | 1 => (e.fromBlock >>> 8).toUInt8
  | 2 => e.toBlock.toUInt8
  | _ => (e.toBlock >>> 8).toUInt8

def byte (bmt : Bmt) (pos : ℕ) : UInt8 :=
  if h : pos < 3 then bmt.signature ⟨pos, h⟩
  else if pos = 3 then bmt.version
  else if pos = 4 then bmt.badCount
  else if pos = 5 then bmt.size
  else if pos = 6 then bmt.checksum
  else if h : pos - 7 < 13 then bmt.reserved ⟨pos - 7, h⟩
  else bmt.tableByte (pos - bmtHeaderSize)

def bytes (bmt : Bmt) : List UInt8 := (List.range bmtSize).map bmt.byte

end Bmt

/-- `bmt_checksum` -/
def bmtChecksum (bmt : Bmt) (checkEntries : ℕ) : UInt8 :=
  (List.range (4 * min checkEntries MAX_BMT_SIZE)).foldl (fun sum pos => sum + bmt.tableByte pos)
    (bmt.version + bmt.size)

def bmtOfBytes (buf : List UInt8) : Bmt where
  signature i := buf.getD i 0
  version := buf.getD 3 0
  badCount := buf.getD 4 0
  size := buf.getD 5 0
  checksum := buf.getD 6 0
  reserved i := buf.getD (7 + i) 0
  table i :=
    let pos := bmtHeaderSize + 4 * i
    { fromBlock := (buf.getD pos 0).toUInt16 ||| (buf.getD (pos + 1) 0).toUInt16 <<< 8
      toBlock := (buf.getD (pos + 2) 0).toUInt16 ||| (buf.getD (pos + 3) 0).toUInt16 <<< 8 }

/-- `"BMT"` -/
def bmtSignature : Fin 3 → UInt8 := fun i => [66, 77, 84].getD i 0

/-- `try_parse_bmt` -/
def tryParseBmt (buf : List UInt8) : Option Bmt :=
  if buf.length < bmtSize then none
  else
    let workspace := bmtOfBytes buf
    if workspace.signature ≠ bmtSignature then none
    else if workspace.checksum ≠ bmtChecksum workspace workspace.size.toNat then none
    else some workspace

/-! ## Factory bad blocks -/

/-- What is used of `bbt_table`: the entries that its header counts, in ascending order. -/
structure Bbt where
  version : UInt8
  table : List UInt16
  deriving DecidableEq, Repr

def Bbt.zero : Bbt := ⟨0, []⟩

/-- Bytes of `bbt_table_header`. -/
def bbtHeaderSize : ℕ := 12

/-- The word at a position. -/
def halfAt (buf : List UInt8) (pos : ℕ) : UInt16 :=
  (buf.getD pos 0).toUInt16 ||| (buf.getD (pos + 1) 0).toUInt16 <<< 8

/-- `bbt_checksum` -/
def bbtChecksum (buf : List UInt8) (tableSize : ℕ) : UInt16 :=
  ((buf.drop bbtHeaderSize).take (2 * tableSize)).foldl (fun sum b => sum + b.toUInt16)
    ((buf.getD 8 0).toUInt16 + (buf.getD 9 0).toUInt16)

end OpenWrt.MtkBmt.En75
