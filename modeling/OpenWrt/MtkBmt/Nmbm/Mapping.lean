/-
# Creating an instance and moving blocks

The first data blocks are mapped in order to the good blocks below the management
region; the ones that are left without a block there, and every block that fails
later, get a spare. The spares are taken from `mapping_blocks_top_ba` downwards.
-/

import Mathlib.Data.Int.Basic
import OpenWrt.MtkBmt.Nmbm.InfoTable

namespace OpenWrt.MtkBmt.Nmbm

variable {σ : Type} (g : Chip) (crc : Crc) (mtd : Mtd σ)

/-! ## Spares -/

def Instance.takeSpare (ni : Instance) (lb pb : ℕ) : Instance :=
  { ni with
    blockMapping := Function.update ni.blockMapping lb pb
    mappingBlocksTopBa := ni.mappingBlocksTopBa - 1
    blockMappingChanged := ni.blockMappingChanged + 1 }

/-- The good block the next spare is taken from. -/
def Instance.nextSpare (ni : Instance) : Option ℕ :=
  ni.blockWalkDesc g ni.mappingBlocksTopBa 0 ni.mappingBlocksBa

/-- Map a logical block to an unused spare block. -/
def mapBlock (lb : ℕ) (x : Sys σ) : Bool × Sys σ :=
  if x.ni.mappingBlocksBa = x.ni.mappingBlocksTopBa then (false, x)
  else
    match x.ni.nextSpare g with
    | none =>
      let (_, x) := updateInfoTable g crc mtd x
      (false, x.map fun ni => { ni with mappingBlocksTopBa := ni.mappingBlocksBa })
    | some pb => (true, x.map fun ni => ni.takeSpare lb pb)

/-! ## Creation -/

/-- What an instance is before anything is known of the chip. -/
def initStructure : Instance where
  blockState _ := -1
  blockStateChanged := 0
  blockMapping _ := 0
  blockMappingChanged := 0
  isProtected := false
  dataBlockCount := 0
  mgmtStartBa := 0
  mainTableBa := 0
  mainTableEnd := 0
  backupTableBa := 0
  backupTableEnd := 0
  mappingBlocksBa := 0
  mappingBlocksTopBa := 0
  signatureBa := 0
  signature := ⟨0, 0, 0, 0, 0, 0, 0, 0, 0, 0, 0, 0⟩
  infoTable :=
    { magic := 0
      version := 0
      size := 0
      checksum := 0
      writeCount := 0
      stateTableOff := BitVec.ofNat 32 (4 * g.stateTableOff)
      mappingTableOff := BitVec.ofNat 32 (4 * g.mappingTableOff)
      padding := 0 }
  infoTableCache := []

/-- The first block of the management region of a new chip. -/
def mgmtStart : ℕ :=
  let mgmtStartBa := g.blockCount * (16 - g.maxRatio) / 16
  if g.maxReservedBlocks ≠ 0 ∧ g.maxReservedBlocks < g.blockCount - mgmtStartBa then
    g.blockCount - g.maxReservedBlocks
  else mgmtStartBa

/-- Map logical blocks from `lb` on to the blocks from `pb` on that are not bad;
returns the number of mapped blocks. -/
def buildMappingFrom (ni : Instance) : (fuel pb lb : ℕ) → (ℕ → ℤ) → (ℕ → ℤ) × ℕ
  | 0, _, lb, mapping => (mapping, lb)
  | fuel + 1, pb, lb, mapping =>
    if ni.getBlockState pb = blockStBad then buildMappingFrom ni fuel (pb + 1) lb mapping
    else buildMappingFrom ni fuel (pb + 1) (lb + 1) (Function.update mapping lb pb)

/-- The initial mapping, each data block to the next block that is not bad. -/
def buildMappingTable (ni : Instance) : Instance :=
  let (mapping, lb) := buildMappingFrom ni ni.mgmtStartBa 0 0 ni.blockMapping
  { ni with
    blockMapping := fun i => if lb ≤ i ∧ i < g.blockCount then -1 else mapping i
    dataBlockCount := lb }

def Signature.words (s : Signature) : List Word :=
  [s.magic, s.version, s.size, s.checksum, s.nandSizeLow, s.nandSizeHigh, s.blockSize,
    s.pageSize, s.spareSize, s.mgmtStartPb, s.maxTryCount, s.tail]

def newSignature (mgmtStartBa : ℕ) : Signature :=
  let blockSize := 4 * g.pgWords * g.pagesPerBlk
  let bare : Signature :=
    { magic := magicSignature
      version := nmbmVer
      size := 48
      checksum := 0
      nandSizeLow := BitVec.ofNat 32 (g.blockCount * blockSize)
      nandSizeHigh := BitVec.ofNat 32 (g.blockCount * blockSize / 0x100000000)
      blockSize := BitVec.ofNat 32 blockSize
      pageSize := BitVec.ofNat 32 (4 * g.pgWords)
      spareSize := BitVec.ofNat 32 g.oobSize
      mgmtStartPb := BitVec.ofNat 32 mgmtStartBa
      maxTryCount := BitVec.ofNat 32 tryCount
      tail := 0 }
  { bare with checksum := crc 0 bare.words }

/-- Write the signature into the first good block from `ba` down, at most `fuel`
blocks. -/
def writeSignatureFrom (data : List Word) : (fuel ba : ℕ) → Sys σ → Option ℕ × Sys σ
  | 0, _, x => (none, x)
  | fuel + 1, ba, x =>
    if ¬ x.ni.IsGood ba then writeSignatureFrom data fuel (ba - 1) x
    else if mtd.blockIsBad x.dev ba then writeSignatureFrom data fuel (ba - 1) (x.noteBad ba)
    else
      match eraseBlockAndCheck g mtd ba x.dev with
      | (false, s) =>
        writeSignatureFrom data fuel (ba - 1) (Sys.markBad mtd { x with dev := s } ba)
      | (true, s) =>
        match writeRepeatedData g mtd ba data s with
        | (true, s) => (some ba, { x with dev := s })
        | (false, s) =>
          writeSignatureFrom data fuel (ba - 1) (Sys.markBad mtd { x with dev := s } ba)

/-- Write the signature above `limit`. -/
def writeSignature (limit : ℕ) (data : List Word) (x : Sys σ) : Option ℕ × Sys σ :=
  writeSignatureFrom g mtd data (g.blockCount - 1 - limit) (g.blockCount - 1) x

/-- Find the first unmapped spare and write the first tables. -/
def prepareTables (x : Sys σ) : Bool × Sys σ :=
  match x.ni.blockWalkDesc g x.ni.signatureBa 1 x.ni.mgmtStartBa with
  | none => (false, x)
  | some top =>
    let x := x.map fun ni => (generateInfoTableCache g crc { ni with mappingBlocksTopBa := top }).2
    rebuildInfoTable g mtd x

/-- Map the data blocks from `lb` on to spares, as long as there are any. -/
def mapTail : (fuel lb : ℕ) → Sys σ → Sys σ
  | 0, _, x => x
  | fuel + 1, lb, x =>
    match mapBlock g crc mtd lb x with
    | (false, x) => x
    | (true, x) =>
      mapTail fuel (lb + 1)
        (x.map fun ni => { ni with dataBlockCount := ni.dataBlockCount + 1 })

/-- Create the tables of a chip that has a signature. -/
def createInfoTable (x : Sys σ) : Bool × Sys σ :=
  match prepareTables g crc mtd x with
  | (false, x) => (false, x)
  | (true, x) =>
    updateInfoTable g crc mtd
      (mapTail g crc mtd (x.ni.mgmtStartBa - x.ni.dataBlockCount) x.ni.dataBlockCount x)

/-- Scan a chip and map its data blocks. -/
def scanAndMap (x : Sys σ) : Sys σ := (scanBadblocks g mtd x).map (buildMappingTable g)

/-- Scan a new chip, map its data blocks and write its signature. -/
def signNew (s : σ) : Bool × Sys σ :=
  let x := scanAndMap g mtd
    { ni := { initStructure g with mgmtStartBa := mgmtStart g }, dev := s }
  let signature := newSignature g crc x.ni.mgmtStartBa
  match writeSignature g mtd x.ni.mgmtStartBa signature.words x with
  | (none, x) => (false, x.map fun ni => { ni with signature := signature })
  | (some ba, x) =>
    (true, x.map fun ni => { ni with signature := signature, signatureBa := ba })

/-- Create an instance on a new chip. -/
def createNew (s : σ) : Bool × Sys σ :=
  match signNew g crc mtd s with
  | (false, x) => (false, x)
  | (true, x) => createInfoTable g crc mtd x

/-! ## Calls -/

/-- Give up the physical block of a logical one, and move it to a spare with its
data up to `copyLen` bytes. -/
def remapBlockNmbm (block mappedBlock copyLen : ℕ) (x : Sys σ) : Bool × Sys σ :=
  if x.ni.dataBlockCount ≤ block then (false, x)
  else
    match mapBlock g crc mtd block (x.noteBad mappedBlock) with
    | (false, x) => (false, x)
    | (true, x) =>
      let newBlock := (x.ni.blockMapping block).toNat
      let s := (mtd.erase x.dev newBlock).2
      let s :=
        if 0 < copyLen then
          (mtd.nand.bbtNandCopy (4 * g.pgWords) g.pagesPerBlk newBlock mappedBlock copyLen s).2
        else s
      (true, (updateInfoTable g crc mtd { x with dev := s }).2)

/-- The physical block of a logical one. -/
def getMappingBlockIndexNmbm (ni : Instance) (block : ℕ) : ℤ :=
  if ni.dataBlockCount ≤ block then -1 else ni.blockMapping block

/-- A block that is not mapped below the end of the tables. The comparison is
unsigned, so an unmapped block counts as well. -/
def Instance.Remapped (ni : Instance) (block : ℕ) : Prop :=
  ni.blockMapping block < 0 ∨ (ni.mappingBlocksBa : ℤ) ≤ ni.blockMapping block

instance (ni : Instance) (block : ℕ) : Decidable (ni.Remapped block) :=
  inferInstanceAs (Decidable (_ ∨ _))

/-- The nearest block from `block` down that is not remapped, and how far it is. -/
def Instance.lowerHome (ni : Instance) : (block offset : ℕ) → Option (ℕ × ℕ)
  | 0, offset => if ni.Remapped 0 then none else some (0, offset)
  | block + 1, offset =>
    if ni.Remapped (block + 1) then lowerHome ni block (offset + 1)
    else some (block + 1, offset)

/-- The last block before all spares in use. -/
def Instance.belowSpares (ni : Instance) : ℤ :=
  (List.range ni.dataBlockCount).foldl
    (fun newBlock block =>
      if ni.Remapped block ∧ ni.blockMapping block ≤ newBlock then ni.blockMapping block - 1
      else newBlock)
    ((ni.signatureBa : ℤ) - 1)

/-- Put a block back as far after its lower neighbour as its number says. -/
def Instance.putBack (ni : Instance) (block start offset : ℕ) : Instance :=
  let newBlock := ni.blockMapping start + offset
  let ni := ni.setBlockState newBlock.toNat blockStGood
  let ni : Instance :=
    { ni with
      blockMapping := Function.update ni.blockMapping block newBlock
      blockMappingChanged := ni.blockMappingChanged + 1 }
  { ni with mappingBlocksTopBa := (ni.belowSpares % 0x100000000).toNat }

/-- Take a remapped block back into the data area. -/
def unmapBlockNmbm (block : ℕ) (x : Sys σ) : Sys σ :=
  if x.ni.dataBlockCount ≤ block then x
  else
    match x.ni.lowerHome block 0 with
    | none => x
    | some (start, offset) =>
      if offset = 0 then x
      else (updateInfoTable g crc mtd (x.map fun ni => ni.putBack block start offset)).2

end OpenWrt.MtkBmt.Nmbm
