/-
# Fixing the header of a firmware image

On the first boot the header of the firmware in flash is rewritten so that its length and checksum
leave out what changes later. For a TRX header they are computed again over the data behind it,
which is read from the good blocks. The image tag has a checksum of the kernel of its own, which
becomes that of the whole image.

The programs run on machines of 32 bits, where a `size_t` and a `long` have as many. The checksum is
any function. An access outside of the buffer for the block is a fault; left out are the messages.
-/

import OpenWrt.Lib.Memory
import OpenWrt.Mtd.Jffs2Parse

namespace OpenWrt.Mtd.FixTrx

open Lib.Memory
open Jffs2 (ByteOrder)

/-! ## The device -/

/-- A partition, after `mtd_check_open`. -/
structure Device where
  size : ℕ
  erasesize : ℕ
  byte : ℕ → UInt8
  /-- `mtd_block_is_bad` -/
  isBad : ℕ → Bool
  /-- `mtd_erase_block` succeeds. -/
  erases : ℕ → Bool
  le_erasesize : 12 ≤ erasesize
  size_lt : size < 2 ^ 31

/-- The end of a run. -/
inductive Outcome
  | /-- `exit(1)` -/
    failed
  | /-- An access outside of a buffer. -/
    fault
  | done (device : Device)

namespace Device

variable (d : Device)

def block (address : ℕ) : ℕ := address / d.erasesize * d.erasesize

/-- `pread` gives everything that it is asked for. -/
def read (start count : ℕ) : Option (List UInt8) :=
  if start + count ≤ d.size then some (slice d.byte start count) else none

/-- `pwrite` of an erased block. -/
def writeBlock (start : ℕ) (buf : ℕ → UInt8) : Device :=
  { d with byte := store d.byte start (slice buf 0 d.erasesize) }

end Device

/-- Little endian, as it is stored by `STORE32_LE`. -/
def store32Le (value : ℕ) : List UInt8 :=
  [UInt8.ofNat value, UInt8.ofNat (value / 2 ^ 8), UInt8.ofNat (value / 2 ^ 16),
    UInt8.ofNat (value / 2 ^ 24)]

/-! ## TRX -/

section Trx

variable (crc32buf : List UInt8 → UInt32) (trxmagic : UInt32) (d : Device)

/-- `TRX_CRC32_DATA_OFFSET` -/
def crcDataOffset : ℕ := 12

/-- `TRX_CRC32_DATA_SIZE` -/
def crcDataSize : ℕ := 16

def gather : (fuel dataOffset dataSize : ℕ) → Option (List UInt8)
  | _, _, 0 => some []
  | 0, _, _ + 1 => none
  | fuel + 1, dataOffset, dataSize + 1 =>
    let readChunk := min (d.erasesize - dataOffset % d.erasesize) (dataSize + 1)
    let rest := gather fuel (dataOffset + readChunk) (dataSize + 1 - readChunk)
    if d.isBad (d.block dataOffset) then rest
    else (d.read dataOffset readChunk).bind fun chunk => rest.map fun more => chunk ++ more

/-- The size of the data, without a number the rest of a block from the header on. -/
def trxDataSize (dataSize : ℕ) : ℕ :=
  if dataSize ≠ 0 then (dataSize + crcDataSize) % 2 ^ 32 else d.erasesize - crcDataOffset

/-- `mtd_fixtrx`. `malloc` has no more than half of the addresses. -/
def fixtrx (offset dataSize : ℕ) : Outcome :=
  let dataOffset := (offset + crcDataOffset) % 2 ^ 32
  let dataSize := trxDataSize d dataSize
  let blockOffset := d.block offset
  let offset := offset - blockOffset
  if d.size < (dataOffset + dataSize) % 2 ^ 32 then .failed
  else if d.size < blockOffset + d.erasesize then .failed
  else
    let firstBlock := fun i => d.byte (blockOffset + i)
    if d.erasesize < offset + 4 then .fault
    else if (store32Le trxmagic.toNat).reverse ≠ slice firstBlock offset 4 then .failed
    else if 2 ^ 31 ≤ dataSize then .failed
    else
      match gather d dataSize dataOffset dataSize with
      | none => .failed
      | some buf =>
        if d.erasesize < offset + 12 then .fault
        else if slice firstBlock (offset + 4) 4 = store32Le (buf.length + crcDataOffset) ∧
            slice firstBlock (offset + 8) 4 = store32Le (crc32buf buf).toNat then .done d
        else
          let fixed := store
            (store firstBlock (offset + 4) (store32Le (buf.length + crcDataOffset)))
            (offset + 8) (store32Le (crc32buf buf).toNat)
          if d.erases blockOffset then .done (d.writeBlock blockOffset fixed) else .failed

end Trx

/-! ## The image tag -/

/-- The digits of a number, with what is in front of them. -/
def strtoulDigits (str : List UInt8) : ℕ :=
  (str.takeWhile fun char => 48 ≤ char ∧ char ≤ 57).foldl
    (fun value char => 10 * value + (char.toNat - 48)) 0

/-- `strtoul` of base 10, as a `uint32_t`. -/
def strtoul (str : List UInt8) : ℕ :=
  let str := str.dropWhile fun char => char = 32 ∨ 9 ≤ char ∧ char ≤ 13
  let isNegative := str.headD 0 = 45
  let value := strtoulDigits (if isNegative ∨ str.headD 0 = 43 then str.tail else str)
  if 2 ^ 32 ≤ value then 2 ^ 32 - 1
  else if isNegative then (2 ^ 32 - value) % 2 ^ 32
  else value

/-- `strntoul` of a whole field. -/
def strntoul (field : List UInt8) : ℕ := strtoul (field.takeWhile (· ≠ 0))

/-- `strncpy` of a whole field. -/
def strncpy (field : List UInt8) : List UInt8 :=
  field.takeWhile (· ≠ 0) ++
    List.replicate (field.length - (field.takeWhile (· ≠ 0)).length) 0

/-- A number in the memory of the machine. -/
def hostBytes (order : ByteOrder) (value : UInt32) : List UInt8 :=
  match order with
  | .little => store32Le value.toNat
  | .big => (store32Le value.toNat).reverse

section Tag

variable (crc32buf : List UInt8 → UInt32) (order : ByteOrder) (d : Device)

/-- The fields that are changed, from the tag in a buffer. -/
def fixTag (buf : ℕ → UInt8) (tag : ℕ) : ℕ → UInt8 :=
  let buf := store buf (tag + 106) [48, 0]
  let buf := store buf (tag + 62) (strncpy (slice buf (tag + 128) 10))
  let buf := store buf (tag + 216) (slice buf (tag + 224) 4)
  let buf := store buf (tag + 196) (slice buf (tag + 224) 4)
  let buf := store buf (tag + 220) (hostBytes order 0xffffffff)
  store buf (tag + 236) (hostBytes order (crc32buf (slice buf tag 236)))

/-- `mtd_fixtrx` for the image tag. The block is computed with the `erasesize` from before the device
is opened, which is 0 unless another one was erased. The checksum of the tag is that of the bytes
at the offset in the block, but from the start of the device. -/
def fixImagetag (before offset : ℕ) : Outcome :=
  let blockOffset := if before = 0 then 0 else offset / before * before
  let offset := offset - blockOffset
  if d.size < blockOffset + d.erasesize then .failed
  else
    let buf := fun i => d.byte (blockOffset + i)
    if d.erasesize < offset + 94 then .fault
    else if strntoul (slice buf (offset + 84) 10) ≠ 0 then .failed
    else if d.erasesize < offset + 240 then .fault
    else if hostBytes order (crc32buf (slice d.byte offset 236)) ≠ slice buf (offset + 236) 4 then
      .failed
    else if strntoul (slice buf (offset + 106) 10) = 0 then .done d
    else if d.erases blockOffset then
      .done (d.writeBlock blockOffset (fixTag crc32buf order buf offset))
    else .failed

end Tag

end OpenWrt.Mtd.FixTrx
