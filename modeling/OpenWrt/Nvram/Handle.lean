/-
# NVRAM variables in memory and on flash

The tool keeps the variables of the partition in a hash table of 257 buckets, and writes
them back as text: a header that begins with a magic number, then `name=value` strings and
an empty one. This module has the functions of the source, with the partition as a list of
bytes. An access outside of it gives no result.

A string is its bytes before the NUL. Words are little endian. Left out are the file
descriptor, the locking and writing of the mapping, and the table of dead tuples, which
nothing reads.
-/

import Mathlib.Algebra.Group.Int.Defs
import Mathlib.Algebra.Group.Nat.Defs
import OpenWrt.Lib.Buckets

namespace OpenWrt.Nvram

/-! ## Data -/

/-- A string without its NUL. -/
abbrev Str := List UInt8

/-- The bytes of a text. -/
def str (s : String) : Str := s.toList.map fun c => c.toNat.toUInt8

/-- `nvram_tuple_t`: a name and its value. -/
abbrev Tuple := Σ _ : Str, Str

/-- What the functions depend on of the machine. -/
structure Machine where
  /-- `char` is signed. -/
  charSigned : Bool
  /-- Bytes of a pointer, of `size_t` and of `unsigned long`. -/
  pointerSize : ℕ
  deriving Repr

/-- `nvram_handle_t`. -/
structure Handle where
  mmap : List UInt8
  length : ℕ
  offset : ℕ
  hash : Lib.Buckets 257 Str Str

def NVRAM_MIN_SPACE : ℕ := 0x8000
def NVRAM_MAGIC : UInt32 := 0x48534C46
def NVRAM_VERSION : UInt32 := 1
def NVRAM_CRC_START_POSITION : ℕ := 9
def SDRAM_INIT : UInt32 := 0x419
def SDRAM_CONFIG : UInt32 := 0x0000
def SDRAM_REFRESH : UInt32 := 0x40 &&& 0xff ||| 0x8000

/-- Bytes of `nvram_header_t`. -/
def headerSize : ℕ := 20

/-- `nvram_header_t`. -/
structure Header where
  magic : UInt32
  len : UInt32
  crcVerInit : UInt32
  configRefresh : UInt32
  configNcdl : UInt32
  deriving DecidableEq, Repr

def wordBytes (w : UInt32) : List UInt8 :=
  [w.toUInt8, (w >>> 8).toUInt8, (w >>> 16).toUInt8, (w >>> 24).toUInt8]

def wordAt (bytes : List UInt8) (pos : ℕ) : UInt32 :=
  (bytes.getD pos 0).toUInt32 ||| (bytes.getD (pos + 1) 0).toUInt32 <<< 8 |||
    (bytes.getD (pos + 2) 0).toUInt32 <<< 16 ||| (bytes.getD (pos + 3) 0).toUInt32 <<< 24

def Header.bytes (header : Header) : List UInt8 :=
  wordBytes header.magic ++ wordBytes header.len ++ wordBytes header.crcVerInit ++
    wordBytes header.configRefresh ++ wordBytes header.configNcdl

def headerAt (bytes : List UInt8) (pos : ℕ) : Header where
  magic := wordAt bytes pos
  len := wordAt bytes (pos + 4)
  crcVerInit := wordAt bytes (pos + 8)
  configRefresh := wordAt bytes (pos + 12)
  configNcdl := wordAt bytes (pos + 16)

/-! ## Strings and numbers -/

/-- A `char` in an expression with `uint32_t`. -/
def charValue (machine : Machine) (c : UInt8) : UInt32 :=
  if machine.charSigned && 128 ≤ c then c.toUInt32 - 256 else c.toUInt32

/-- `hash`. -/
def hash (machine : Machine) (s : Str) : UInt32 :=
  s.foldl (fun h c => 31 * h + charValue machine c) 0

/-- `hash(name) % NVRAM_ARRAYSIZE(h->nvram_hash)`. The macro has no parentheses around its
quotient, so the remainder is by the bytes of the table, and is divided by those of one
bucket. -/
def bucket (machine : Machine) (name : Str) : Fin 257 :=
  ⟨(hash machine name).toNat % (257 * machine.pointerSize) / machine.pointerSize, by
    rcases Nat.eq_zero_or_pos machine.pointerSize with hzero | hpos
    · rw [hzero, Nat.div_zero]
      omega
    · refine Nat.div_lt_of_lt_mul ?_
      rw [Nat.mul_comm machine.pointerSize]
      exact Nat.mod_lt _ (Nat.mul_pos (by omega) hpos)⟩

/-- A digit in upper case. -/
def hexDigit (n : ℕ) : UInt8 := if n < 10 then (48 + n).toUInt8 else (55 + n).toUInt8

/-- `sprintf` with `0x%04X` or `0x%08X`. -/
def hexString (width : ℕ) (n : ℕ) : Str :=
  str "0x" ++ (List.range width).reverse.map fun i => hexDigit (n / 16 ^ i % 16)

def digitValue (c : UInt8) : ℕ :=
  let n := c.toNat
  if 48 ≤ n ∧ n ≤ 57 then n - 48
  else if 65 ≤ n ∧ n ≤ 90 then n - 55
  else if 97 ≤ n ∧ n ≤ 122 then n - 87
  else 36

def leadingNumber (base : ℕ) (s : Str) : ℕ :=
  (s.takeWhile fun c => digitValue c < base).foldl (fun n c => base * n + digitValue c) 0

def numberBase (s : Str) : ℕ × Str :=
  match s with
  | 48 :: x :: d :: rest =>
    if (x = 120 ∨ x = 88) ∧ digitValue d < 16 then (16, d :: rest) else (8, s)
  | 48 :: _ => (8, s)
  | _ => (10, s)

/-- `strtoul(s, NULL, 0)`. -/
def strtoul (machine : Machine) (s : Str) : ℕ :=
  let s := s.dropWhile fun c => c = 32 ∨ (9 ≤ c ∧ c ≤ 13)
  let (negative, s) :=
    match s with
    | 45 :: rest => (true, rest)
    | 43 :: rest => (false, rest)
    | _ => (false, s)
  let n := leadingNumber (numberBase s).1 (numberBase s).2
  let bound := 2 ^ (8 * machine.pointerSize)
  if bound ≤ n then bound - 1 else if negative then (bound - n) % bound else n

/-- `crc8_table`. -/
def crc8Table : List UInt8 :=
  [
    0x00, 0xF7, 0xB9, 0x4E, 0x25, 0xD2, 0x9C, 0x6B, 0x4A, 0xBD, 0xF3, 0x04, 0x6F, 0x98, 0xD6, 0x21,
    0x94, 0x63, 0x2D, 0xDA, 0xB1, 0x46, 0x08, 0xFF, 0xDE, 0x29, 0x67, 0x90, 0xFB, 0x0C, 0x42, 0xB5,
    0x7F, 0x88, 0xC6, 0x31, 0x5A, 0xAD, 0xE3, 0x14, 0x35, 0xC2, 0x8C, 0x7B, 0x10, 0xE7, 0xA9, 0x5E,
    0xEB, 0x1C, 0x52, 0xA5, 0xCE, 0x39, 0x77, 0x80, 0xA1, 0x56, 0x18, 0xEF, 0x84, 0x73, 0x3D, 0xCA,
    0xFE, 0x09, 0x47, 0xB0, 0xDB, 0x2C, 0x62, 0x95, 0xB4, 0x43, 0x0D, 0xFA, 0x91, 0x66, 0x28, 0xDF,
    0x6A, 0x9D, 0xD3, 0x24, 0x4F, 0xB8, 0xF6, 0x01, 0x20, 0xD7, 0x99, 0x6E, 0x05, 0xF2, 0xBC, 0x4B,
    0x81, 0x76, 0x38, 0xCF, 0xA4, 0x53, 0x1D, 0xEA, 0xCB, 0x3C, 0x72, 0x85, 0xEE, 0x19, 0x57, 0xA0,
    0x15, 0xE2, 0xAC, 0x5B, 0x30, 0xC7, 0x89, 0x7E, 0x5F, 0xA8, 0xE6, 0x11, 0x7A, 0x8D, 0xC3, 0x34,
    0xAB, 0x5C, 0x12, 0xE5, 0x8E, 0x79, 0x37, 0xC0, 0xE1, 0x16, 0x58, 0xAF, 0xC4, 0x33, 0x7D, 0x8A,
    0x3F, 0xC8, 0x86, 0x71, 0x1A, 0xED, 0xA3, 0x54, 0x75, 0x82, 0xCC, 0x3B, 0x50, 0xA7, 0xE9, 0x1E,
    0xD4, 0x23, 0x6D, 0x9A, 0xF1, 0x06, 0x48, 0xBF, 0x9E, 0x69, 0x27, 0xD0, 0xBB, 0x4C, 0x02, 0xF5,
    0x40, 0xB7, 0xF9, 0x0E, 0x65, 0x92, 0xDC, 0x2B, 0x0A, 0xFD, 0xB3, 0x44, 0x2F, 0xD8, 0x96, 0x61,
    0x55, 0xA2, 0xEC, 0x1B, 0x70, 0x87, 0xC9, 0x3E, 0x1F, 0xE8, 0xA6, 0x51, 0x3A, 0xCD, 0x83, 0x74,
    0xC1, 0x36, 0x78, 0x8F, 0xE4, 0x13, 0x5D, 0xAA, 0x8B, 0x7C, 0x32, 0xC5, 0xAE, 0x59, 0x17, 0xE0,
    0x2A, 0xDD, 0x93, 0x64, 0x0F, 0xF8, 0xB6, 0x41, 0x60, 0x97, 0xD9, 0x2E, 0x45, 0xB2, 0xFC, 0x0B,
    0xBE, 0x49, 0x07, 0xF0, 0x9B, 0x6C, 0x22, 0xD5, 0xF4, 0x03, 0x4D, 0xBA, 0xD1, 0x26, 0x68, 0x9F]

/-- `hndcrc8`. -/
def hndcrc8 (data : List UInt8) (crc : UInt8) : UInt8 :=
  data.foldl (fun crc b => crc8Table.getD (crc ^^^ b).toNat 0) crc

/-! ## Variables -/

namespace Handle

variable (machine : Machine)

/-- `nvram_get`. -/
def nvramGet (h : Handle) (name : Str) : Option Str :=
  h.hash.get (bucket machine) name

/-- `nvram_set`. It refuses a value that has no room in the partition, and otherwise
replaces the value in place or puts a new tuple in front of its bucket. -/
def nvramSet (name value : Str) (h : Handle) : ℤ × Handle :=
  if value.length + 1 > h.length - h.offset then (-12, h)
  else (0, { h with hash := h.hash.set (bucket machine) name value })

/-- `nvram_unset`. -/
def nvramUnset (name : Str) (h : Handle) : Handle :=
  { h with hash := h.hash.unset (bucket machine) name }

/-- `nvram_header`. -/
def nvramHeader (h : Handle) : Header := headerAt h.mmap h.offset

end Handle

/-! ## Reading the text -/

/-- The strings that follow each other, each up to its NUL. -/
def cstrings : List UInt8 → List Str
  | [] => []
  | b :: bytes =>
    if b = 0 then [] :: cstrings bytes
    else
      match cstrings bytes with
      | [] => []
      | s :: rest => (b :: s) :: rest

/-- A string with its first `=`, as the name before and the value after. -/
def splitTuple (s : Str) : Option Tuple :=
  match s.dropWhile (· ≠ 61) with
  | [] => none
  | _ :: value => some ⟨s.takeWhile (· ≠ 61), value⟩

/-- The tuples up to an empty string, or one without `=`. -/
def tuples : List Str → Option (List Tuple)
  | [] => none
  | s :: rest =>
    if s = [] then some []
    else
      match splitTuple s with
      | none => some []
      | some t => (tuples rest).map (t :: ·)

namespace Handle

variable (machine : Machine)

def setTuples (l : List Tuple) (h : Handle) : Handle :=
  l.foldl (fun h t => (h.nvramSet machine t.1 t.2).2) h

def setMissing (name value : Str) (h : Handle) : Handle :=
  if (h.nvramGet machine name).isNone then (h.nvramSet machine name value).2 else h

/-- The special SDRAM parameters. -/
def setSdram (header : Header) (h : Handle) : Handle :=
  h.setMissing machine (str "sdram_init") (hexString 4 (header.crcVerInit >>> 16).toNat)
    |>.setMissing machine (str "sdram_config") (hexString 4 (header.configRefresh &&& 0xffff).toNat)
    |>.setMissing machine (str "sdram_refresh")
      (hexString 4 ((header.configRefresh >>> 16) &&& 0xffff).toNat)
    |>.setMissing machine (str "sdram_ncdl") (hexString 8 header.configNcdl.toNat)

/-- `_nvram_rehash`. -/
def nvramRehash (h : Handle) : Option Handle :=
  (tuples (cstrings (h.mmap.drop (h.offset + headerSize)))).map fun l =>
    ({ h with hash := fun _ => [] }.setTuples machine l).setSdram machine h.nvramHeader

end Handle

/-- Where the magic number is found first. The bound is computed in `size_t`. -/
def findMagic (machine : Machine) (image : List UInt8) : Option ℕ :=
  let size := 2 ^ (8 * machine.pointerSize)
  let bound := (image.length + size - NVRAM_MIN_SPACE) % size / 4
  ((List.range (image.length / 4)).find? fun i =>
    decide (i ≤ bound) && wordAt image (4 * i) == NVRAM_MAGIC).map (4 * ·)

/-- `nvram_open`, for a file that has the bytes of the whole partition. -/
def nvramOpen (machine : Machine) (image : List UInt8) (rdonly : Bool) : Option Handle :=
  match findMagic machine image with
  | none => none
  | some offset =>
    let h : Handle :=
      { mmap := image, length := image.length, offset, hash := fun _ => [] }
    if rdonly || h.nvramHeader.len.toNat < h.length - h.offset then h.nvramRehash machine
    else none

/-! ## Writing the text -/

/-- The low half of a word. -/
def low16 (n : ℕ) : UInt32 := UInt32.ofNat n &&& 0xffff

/-- The words of a new header: what the SDRAM variables say, if all four are there. -/
def newHeader (machine : Machine) (h : Handle) : Header :=
  let version := NVRAM_VERSION <<< 8
  match h.nvramGet machine (str "sdram_init"), h.nvramGet machine (str "sdram_config"),
      h.nvramGet machine (str "sdram_refresh"), h.nvramGet machine (str "sdram_ncdl") with
  | some init, some config, some refresh, some ncdl =>
    { magic := NVRAM_MAGIC
      len := 0
      crcVerInit := version ||| low16 (strtoul machine init) <<< 16
      configRefresh := low16 (strtoul machine config) ||| low16 (strtoul machine refresh) <<< 16
      configNcdl := UInt32.ofNat (strtoul machine ncdl) }
  | _, _, _, _ =>
    { magic := NVRAM_MAGIC
      len := 0
      crcVerInit := version ||| SDRAM_INIT <<< 16
      configRefresh := SDRAM_CONFIG ||| SDRAM_REFRESH <<< 16
      configNcdl := 0 }

/-- `name=value` with its NUL. -/
def tupleBytes (t : Tuple) : List UInt8 := t.1 ++ 61 :: t.2 ++ [0]

/-- Write a bucket after what is written. A tuple that does not fit ends the bucket. -/
def writeBucket (limit : ℕ) : List Tuple → List UInt8 → List UInt8
  | [], data => data
  | t :: rest, data =>
    if data.length + t.1.length + 1 + t.2.length + 1 > limit then data
    else writeBucket limit rest (data ++ tupleBytes t)

def writeTuples (limit : ℕ) (t : Lib.Buckets 257 Str Str) : List UInt8 :=
  (List.finRange 257).foldl (fun data i => writeBucket limit (t i) data) []

/-- `NVRAM_ROUNDUP(x, 4)`. -/
def roundUp4 (x : ℕ) : ℕ := (x + 3) / 4 * 4

/-- How many bytes are cleared after the last NUL, to come to a multiple of 4. The pointer
is taken as an `int`, whose remainder has its sign. -/
def padding (pointer : ℕ) : ℕ :=
  let remainder := (BitVec.ofNat 32 pointer).toInt.tmod 4
  if remainder = 0 then 0 else (4 - remainder).toNat

def withCrc (header : Header) (data : List UInt8) : Header :=
  let tmp : Header := { header with magic := 0, len := 0 }
  let crc := hndcrc8 (tmp.bytes.drop NVRAM_CRC_START_POSITION) 0xff
  let crc := hndcrc8 (data.take (header.len.toNat - headerSize)) crc
  { header with crcVerInit := header.crcVerInit ||| crc.toUInt32 }

namespace Handle

variable (machine : Machine)

/-- `nvram_commit`, with the mapping at an address. -/
def nvramCommit (address : ℕ) (h : Handle) : Option Handle :=
  let room := h.length - h.offset
  let text := writeTuples (room - 2 - headerSize) h.hash
  let pad := padding (address + h.offset + headerSize + text.length + 1)
  let len := roundUp4 (headerSize + text.length + 2)
  if headerSize + text.length + 1 + pad > room ∨ len > room then none
  else
    let data := text ++ 0 :: List.replicate pad 0 ++
      List.replicate (room - (headerSize + text.length + 1 + pad)) 0xff
    let header := { newHeader machine h with len := UInt32.ofNat len }
    { h with mmap := h.mmap.take h.offset ++ (withCrc header data).bytes ++ data }.nvramRehash
      machine

end Handle

end OpenWrt.Nvram
