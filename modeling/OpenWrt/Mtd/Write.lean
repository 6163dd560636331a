/-
# Writing an image to flash

`mtd write` reads the image into a buffer of one erase block, erases blocks ahead of the data,
skips blocks that are marked bad, and goes on to the next partition when a block cannot be
erased. Its loop is a machine here that takes one read, one turn of the erase loop or one
write at a time. What the partitions answer, and how the image comes in, is arbitrary.

Left out are the options for jffs2 data, for the partition table and for the recovery flag.
-/

import Mathlib.Algebra.Group.Int.Defs
import Mathlib.Algebra.Group.Nat.Defs

namespace OpenWrt.Mtd

/-! ## Partitions -/

/-- A partition, and what its driver answers. -/
structure Partition where
  size : ℕ
  erasesize : ℕ
  /-- The type is `MTD_NANDFLASH`. -/
  nand : Bool
  /-- The blocks that are marked bad, by their address. -/
  bad : ℕ → Bool
  /-- The blocks that can be erased. -/
  erases : ℕ → Bool
  /-- The bytes that a write takes at most. -/
  accepts : ℕ → ℕ → ℕ
  opens : Bool
  erasesize_pos : 0 < erasesize
  /-- `MEMGETINFO` reports a size in 32 bits. -/
  size_le : size + erasesize ≤ 2 ^ 32

/-- The conversion to `int`. -/
def toInt (n : ℕ) : ℤ :=
  if n % 2 ^ 32 < 2 ^ 31 then (n % 2 ^ 32 : ℕ) else (n % 2 ^ 32 : ℕ) - 2 ^ 32

namespace Partition

variable (p : Partition)

/-- `lseek`: a target beyond the end is refused. -/
def lseek (pos target : ℕ) : ℕ :=
  if target ≤ p.size then target else pos

/-- `MEMGETBADBLOCK`: an offset outside of the partition is refused. -/
def getBadBlock (offset : ℤ) : Option Bool :=
  if 0 ≤ offset ∧ offset < p.size then some (p.bad offset.toNat) else none

/-- `mtd_block_is_bad`; the program ends when the ioctl fails. -/
def blockIsBad (offset : ℤ) : Option Bool :=
  if p.nand then p.getBadBlock offset else some false

/-- `MEMERASE`. -/
def memErase (start : ℕ) : Bool :=
  start + p.erasesize ≤ p.size && p.erases start

/-- The address in `mtd_erase_block`. -/
def eraseStart (offset : ℕ) : ℕ :=
  offset % 2 ^ 32

/-- `mtd_erase_block`. -/
def eraseBlock (offset : ℕ) : Bool :=
  p.memErase (eraseStart offset)

/-- `write`: the number of bytes that are written. -/
def write (pos len : ℕ) : ℕ :=
  min (p.accepts pos len) (min len (p.size - pos))

end Partition

/-! ## The machine -/

/-- What a `read` of the image returns. After all of them comes the end. -/
inductive Read
  | data (first : UInt8) (more : List UInt8)
  | /-- The read is interrupted. -/
    again
  | /-- The read fails for another reason. -/
    failed

def Read.putBack (bytes : List UInt8) (reads : List Read) : List Read :=
  match bytes with
  | [] => reads
  | first :: more => .data first more :: reads

/-- What `mtd_write` is given. -/
structure Args where
  first : Partition
  /-- The partitions to go on to. -/
  rest : List Partition
  partOffset : ℕ
  noErase : Bool
  /-- What `image_check` has read into the buffer. -/
  checked : List UInt8
  reads : List Read
  /-- What is in the memory from the start of the buffer on, where there is no data. -/
  mem : ℕ → UInt8
  checked_le : checked.length ≤ first.erasesize

/-- What is done to the partitions, which are named by their position. -/
inductive Op
  | erase (part start : ℕ)
  | write (part pos : ℕ) (bytes : List UInt8)
deriving DecidableEq

/-- Where the machine is. -/
inductive Phase
  | /-- The loop that fills the buffer. -/
    fill
  | /-- After that loop. -/
    filled
  | /-- The loop that erases. -/
    erase
  | write
  | /-- `mtd_write` returns. -/
    done
  | /-- The program exits with an error. -/
    exit
  | /-- Something is stored beyond the buffer. -/
    fault
deriving DecidableEq

/-- The state of `mtd_write`; `buf` is the data in the buffer, of length `buflen`. -/
structure State where
  phase : Phase
  part : ℕ
  cur : Partition
  next : List Partition
  pos : ℕ
  w : ℕ
  e : ℕ
  skipBadBlocks : ℕ
  offset : ℕ
  buf : List UInt8
  reads : List Read
  log : List Op

namespace Args

variable (args : Args)

/-- Bytes from the buffer on. -/
def memory (s : State) (len : ℕ) : List UInt8 :=
  (List.range len).map fun i => (s.buf[s.offset + i]?).getD (args.mem (s.offset + i))

/-- The state after `write`. -/
def afterWrite (s : State) (len : ℕ) : State :=
  { s with
    pos := s.pos + s.cur.write s.pos len
    log := s.log ++ [.write s.part s.pos ((args.memory s len).take (s.cur.write s.pos len))] }

/-- Open the partition, from the label `resume` on. -/
def resume (s : State) (part : ℕ) (cur : Partition) (next : List Partition) : State :=
  { s with
    phase := if cur.opens then .fill else .exit
    part
    cur
    next
    pos := cur.lseek 0 args.partOffset
    w := 0
    e := 0 }

/-- One read into the buffer. -/
def fill (s : State) : State :=
  if s.buf.length < s.cur.erasesize then
    match s.reads with
    | [] => { s with phase := .filled }
    | .again :: reads => { s with reads }
    | .failed :: reads => { s with phase := .filled, reads }
    | .data first more :: reads =>
      let len := s.cur.erasesize - s.buf.length
      let bytes := (first :: more).take len
      if args.first.erasesize < s.buf.length + bytes.length then { s with phase := .fault }
      else
        { s with
          buf := s.buf ++ bytes
          reads := Read.putBack ((first :: more).drop len) reads }
  else { s with phase := .filled }

/-- The buffer is padded to a block. -/
def filled (s : State) : State :=
  if s.buf = [] then { s with phase := .done }
  else if s.buf.length < s.cur.erasesize then
    if args.first.erasesize < s.cur.erasesize then { s with phase := .fault }
    else
      { s with
        phase := .erase
        buf := s.buf ++ List.replicate (s.cur.erasesize - s.buf.length) 0xff }
  else { s with phase := .erase }

/-- One turn of the loop that erases the next blocks. -/
def erase (s : State) : State :=
  if args.noErase ∨ s.w + s.buf.length + s.skipBadBlocks ≤ s.e then { s with phase := .write }
  else
    match s.cur.blockIsBad (toInt s.e) with
    | none => { s with phase := .exit }
    | some true =>
      { s with
        skipBadBlocks := s.skipBadBlocks + s.cur.erasesize
        e := s.e + s.cur.erasesize
        pos := s.cur.lseek s.pos (s.pos + s.cur.erasesize) }
    | some false =>
      if s.cur.eraseBlock (s.e + args.partOffset) then
        { s with
          e := s.e + s.cur.erasesize
          log := s.log ++ [.erase s.part (Partition.eraseStart (s.e + args.partOffset))] }
      else
        match s.next with
        | [] => { s with phase := .exit }
        | cur :: next =>
          let s := if s.w < s.e then { args.afterWrite s (s.e - s.w) with offset := s.e - s.w }
            else s
          args.resume s (s.part + 1) cur next

def write (s : State) : State :=
  let len := s.buf.length
  let after := args.afterWrite s len
  if s.cur.write s.pos len < len then { after with phase := .exit }
  else { after with phase := .fill, w := s.w + len, buf := [], offset := 0 }

def step (s : State) : State :=
  match s.phase with
  | .fill => args.fill s
  | .filled => args.filled s
  | .erase => args.erase s
  | .write => args.write s
  | .done | .exit | .fault => s

def start : State :=
  args.resume
    { phase := .fill
      part := 0
      cur := args.first
      next := args.rest
      pos := 0
      w := 0
      e := 0
      skipBadBlocks := 0
      offset := 0
      buf := args.checked
      reads := args.reads
      log := [] }
    0 args.first args.rest

end Args

end OpenWrt.Mtd
