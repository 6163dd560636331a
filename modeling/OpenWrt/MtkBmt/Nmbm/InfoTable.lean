/-
# Writing the information table

The table is written twice, each copy into consecutive good blocks of the
management region. An update writes the backup first and then the main table. A
copy that no longer fits where it is moves up into the unmapped spare blocks, or
the tables are built anew from the start of the region.

`mapping_blocks_ba` is the end of the tables and `mapping_blocks_top_ba` the last
unmapped spare block, so that no write of a table goes beyond the latter.
-/

import OpenWrt.MtkBmt.Nmbm.Instance

namespace OpenWrt.MtkBmt.Nmbm

/-- `crc32_le` over the bytes of words. -/
abbrev Crc := Word → List Word → Word

/-- Shift bits out of the checksum. -/
def crcShift : ℕ → Word → Word
  | 0, crc => crc
  | n + 1, crc =>
    if crc.getLsbD 0 then crcShift n (crc >>> 1 ^^^ 0xedb88320) else crcShift n (crc >>> 1)

/-- The checksum bit by bit. The bytes of a word go in from the lowest one on, which
is the word at once. -/
def crc32Le (crc : Word) (words : List Word) : Word :=
  words.foldl (fun crc word => crcShift 32 (crc ^^^ word)) crc

example : crc32Le 0xffffffff [0x34333231] = 0x641c1f5c := by decide +kernel

/-! ## The image of the table -/

section Image

variable (g : Chip) (crc : Crc)

def InfoTableHeader.words (h : InfoTableHeader) : List Word :=
  [h.magic, h.version, h.size, h.checksum, h.writeCount, h.stateTableOff, h.mappingTableOff,
    h.padding]

/-- A word of the table: of the header, the mapping table or the state table, or
a filler. -/
def imageWord (ni : Instance) (h : InfoTableHeader) (i : ℕ) : Word :=
  let stateOff := h.stateTableOff.toNat / 4
  let mappingOff := h.mappingTableOff.toNat / 4
  if i < 8 then h.words.getD i 0
  else if mappingOff ≤ i ∧ i < mappingOff + g.mappingTableWords then
    BitVec.ofInt 32 (ni.blockMapping (i - mappingOff))
  else if stateOff ≤ i ∧ i < stateOff + g.stateTableWords then ni.blockState (i - stateOff)
  else -1

def image (ni : Instance) (h : InfoTableHeader) : List Word :=
  (List.range g.infoTableWords).map (imageWord g ni h)

def checkedImage (ni : Instance) (h : InfoTableHeader) : List Word :=
  image g ni { h with checksum := crc 0 (image g ni { h with checksum := 0 }) }

def toPages (words : List Word) : List Page :=
  (List.range g.infoTablePages).map fun page => (words.drop (page * g.pgWords)).take g.pgWords

/-- The memory differs from what was written last. -/
def Instance.Changed (ni : Instance) : Prop :=
  ni.blockStateChanged ≠ 0 ∨ ni.blockMappingChanged ≠ 0

instance (ni : Instance) : Decidable ni.Changed := inferInstanceAs (Decidable (_ ∨ _))

def Instance.nextHeader (ni : Instance) : InfoTableHeader :=
  { ni.infoTable with
    magic := magicInfoTable
    version := nmbmVer
    size := BitVec.ofNat 32 (4 * g.infoTableWords)
    writeCount := if ni.Changed then ni.infoTable.writeCount + 1 else ni.infoTable.writeCount }

/-- Put the table into the cache; the flag tells whether anything changed. -/
def generateInfoTableCache (ni : Instance) : Bool × Instance :=
  (decide ni.Changed,
    { ni with
      infoTable := ni.nextHeader g
      infoTableCache := toPages g (checkedImage g crc ni (ni.nextHeader g)) })

end Image

/-! ## Records of where the tables are -/

namespace Instance

variable (ni : Instance)

def setMain (start stop : ℕ) : Instance :=
  { ni with mainTableBa := start, mainTableEnd := stop }

def setBackup (start stop : ℕ) : Instance :=
  { ni with backupTableBa := start, backupTableEnd := stop }

/-- Record the end of the tables. -/
def setBase (ba : ℕ) : Instance := { ni with mappingBlocksBa := ba }

/-- `nmbm_mark_tables_clean` -/
def clean : Instance := { ni with blockStateChanged := 0, blockMappingChanged := 0 }

/-- Make the chip read-only. -/
def protect : Instance := { ni with isProtected := true }

def promoteBackup : Instance :=
  (ni.setMain ni.backupTableBa ni.backupTableEnd).setBackup 0 0

/-- The limit that leaves room for a table below the top; below zero it counts as
no limit. -/
def reserveLimit (g : Chip) : ℕ :=
  if ni.mappingBlocksTopBa < g.infoTableBlks then g.blockCount
  else ni.mappingBlocksTopBa - g.infoTableBlks

/-- Skip `count` good blocks from `ba` up, or as many as there are. -/
def tryReserveBlocks (g : Chip) (ba : ℕ) : (count : ℕ) → (limit : ℕ) → Option ℕ
  | 0, limit => ni.blockWalkAsc g ba 0 limit
  | count + 1, limit =>
    match ni.blockWalkAsc g ba (count + 1) limit with
    | some next => some next
    | none => tryReserveBlocks g ba count limit

end Instance

/-! ## Updates -/

section Update

variable {σ : Type} (g : Chip) (crc : Crc) (mtd : Mtd σ)

/-- Apply a function to the instance. -/
def Sys.map (x : Sys σ) (f : Instance → Instance) : Sys σ := { x with ni := f x.ni }

/-- Write the cached table into a range: its first block and the block after it. -/
def writeInfoTable (ba limit : ℕ) (x : Sys σ) : Option (ℕ × ℕ) × Sys σ :=
  writeMgmtRange g mtd ba limit x.ni.infoTableCache x

/-- Write the cached table from `ba`, or from a block below, down to `fuel`
blocks. -/
def writeDownFrom : (fuel ba : ℕ) → Sys σ → Option (ℕ × ℕ) × Sys σ
  | 0, _, x => (none, x)
  | fuel + 1, ba, x =>
    match writeInfoTable g mtd ba x.ni.mappingBlocksTopBa x with
    | (some range, x) => (some range, x)
    | (none, x) => writeDownFrom fuel (ba - 1) x

/-- Write the cached table from `ba`, or from a block below, not below `low`. -/
def writeDown (ba low : ℕ) (x : Sys σ) : Option (ℕ × ℕ) × Sys σ :=
  writeDownFrom g mtd (ba + 1 - low) ba x

/-- Build both tables from scratch. -/
def rebuildInfoTable (x : Sys σ) : Bool × Sys σ :=
  let x := x.map fun ni => ((ni.setMain 0 0).setBackup 0 0).setBase ni.mappingBlocksTopBa
  match writeInfoTable g mtd x.ni.mgmtStartBa x.ni.mappingBlocksTopBa x with
  | (none, x) => (false, x.map .protect)
  | (some (mainStart, mainEnd), x) =>
    let x := x.map fun ni => ((ni.setMain mainStart mainEnd).setBase mainEnd).clean
    match x.ni.tryReserveBlocks g mainEnd g.infoTableSpareBlocks (x.ni.reserveLimit g) with
    | none => (true, x)
    | some next =>
      match writeInfoTable g mtd next x.ni.mappingBlocksTopBa x with
      | (none, x) => (true, x)
      | (some (start, stop), x) =>
        let x := x.map fun ni => (ni.setBackup start stop).setBase stop
        (true, eraseRange g mtd mainEnd start x)

/-- The main table could not be written and the backup table was: write a third
one above it, and the main table anew from the start of the region. -/
def rescueMainInfoTable (x : Sys σ) : Bool × Sys σ :=
  match x.ni.tryReserveBlocks g x.ni.mappingBlocksBa g.infoTableSpareBlocks
      (x.ni.reserveLimit g) with
  | none => (true, x.map .promoteBackup)
  | some writeBa =>
    match writeDown g mtd writeBa x.ni.mappingBlocksBa x with
    | (none, x) => (true, x.map .promoteBackup)
    | (some (tmpStart, tmpEnd), x) =>
      let x := x.map fun ni => ni.setBase tmpEnd
      match writeInfoTable g mtd x.ni.mgmtStartBa tmpStart x with
      | (none, x) =>
        (true, x.map fun ni => ((ni.setMain tmpStart tmpEnd).setBackup 0 0).clean)
      | (some (mainStart, mainEnd), x) =>
        let x := x.map fun ni => (ni.setMain mainStart mainEnd).clean
        if mainEnd ≤ tmpStart then (true, x.map fun ni => ni.setBackup tmpStart tmpEnd)
        else
          let x := x.map fun ni => ni.setBase mainEnd
          match x.ni.tryReserveBlocks g mainEnd g.infoTableSpareBlocks
              (x.ni.reserveLimit g) with
          | none => (true, x.map fun ni => ni.setBackup 0 0)
          | some writeBa =>
            match writeDown g mtd writeBa mainEnd x with
            | (none, x) => (true, x.map fun ni => ni.setBackup 0 0)
            | (some (start, stop), x) =>
              let x := x.map fun ni => (ni.setBackup start stop).setBase stop
              (true, eraseRange g mtd mainEnd start x)

/-- The second half of an update: write the main table below the limit. -/
def updateMainTable (limit : ℕ) (x : Sys σ) : Bool × Sys σ :=
  if x.ni.mainTableBa = 0 then rebuildInfoTable g mtd x
  else
    match writeInfoTable g mtd x.ni.mainTableBa limit x with
    | (none, x) =>
      if x.ni.backupTableBa = 0 then rebuildInfoTable g mtd x
      else rescueMainInfoTable g mtd x
    | (some (start, stop), x) =>
      (true, x.map fun ni =>
        ((if ni.backupTableBa = 0 then (ni.setMain start stop).setBase stop
          else ni.setMain start stop)).clean)

/-- Write the cached table to both places, the backup first. -/
def updateBothTables (x : Sys σ) : Bool × Sys σ :=
  if x.ni.backupTableBa = 0 then updateMainTable g mtd x.ni.mappingBlocksTopBa x
  else
    match writeInfoTable g mtd x.ni.backupTableBa x.ni.mappingBlocksTopBa x with
    | (none, x) =>
      let x := x.map fun ni => (ni.setBase ni.backupTableBa).setBackup 0 0
      updateMainTable g mtd x.ni.mappingBlocksTopBa x
    | (some (start, stop), x) =>
      let x := x.map fun ni => ((ni.setBackup start stop).setBase stop).clean
      updateMainTable g mtd start x

/-- Write both tables once, if anything changed; true when at least one was
written. -/
def updateInfoTableOnce (force : Bool) (x : Sys σ) : Bool × Sys σ :=
  let generated := x.map fun ni => (generateInfoTableCache g crc ni).2
  if ¬ (generateInfoTableCache g crc x.ni).1 ∧ ¬ force then (true, generated)
  else updateBothTables g mtd generated

/-- Write both tables until no new bad block is found, at most `fuel` times. -/
def updateInfoTableFrom : (fuel : ℕ) → Sys σ → Bool × Sys σ
  | 0, x => (true, x)
  | fuel + 1, x =>
    if x.ni.Changed then
      match updateInfoTableOnce g crc mtd false x with
      | (false, x) => (false, x)
      | (true, x) => updateInfoTableFrom fuel x
    else (true, x)

/-- Bring the tables up to date. Each round but the last loses a good block, which
bounds the loop. -/
def updateInfoTable (x : Sys σ) : Bool × Sys σ :=
  if x.ni.isProtected then (true, x)
  else updateInfoTableFrom g crc mtd (g.blockCount + 2) x

end Update

end OpenWrt.MtkBmt.Nmbm
