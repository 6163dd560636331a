/-
# What a fixed header covers

The boot loader reads as many bytes as the header says from the good blocks behind it. After a TRX
header is fixed these are the ones its checksum was computed of. An image tag that is fixed has
the length and the checksum that it had for its kernel, whatever is in the flash.
-/

import OpenWrt.Bcm4908img.Image
import OpenWrt.Mtd.FixTrx

namespace OpenWrt.Mtd.FixTrx

open Lib.Memory
open Jffs2 (ByteOrder)

/-! ## What holds -/

def goodBytes (d : Device) (start count : ℕ) : List UInt8 :=
  ((List.range' start count).filter fun address => !d.isBad (d.block address)).map d.byte

/-- What the boot loader reads, which goes on behind a bad block. -/
def bootRead (d : Device) (start count : ℕ) : List UInt8 :=
  (goodBytes d start (d.size - start)).take count

/-- The length and the checksum of a TRX header are those of the data that the boot loader reads,
nothing else is changed, and another run changes nothing. -/
structure TrxFixed (crc32buf : List UInt8 → UInt32) (trxmagic : UInt32) (d d' : Device)
    (offset dataSize : ℕ) : Prop where
  device : d' = { d with byte := d'.byte }
  length : slice d'.byte (offset + 4) 4 = store32Le
    ((goodBytes d' (offset + crcDataOffset) (trxDataSize d dataSize)).length + crcDataOffset)
  crc : slice d'.byte (offset + 8) 4 = store32Le (crc32buf (bootRead d' (offset + crcDataOffset)
    (goodBytes d' (offset + crcDataOffset) (trxDataSize d dataSize)).length)).toNat
  unchanged : ∀ address, d'.byte address ≠ d.byte address →
    offset + 4 ≤ address ∧ address < offset + 12
  again : fixtrx crc32buf trxmagic d' offset dataSize = .done d'

/-- The length of the root file system is zero, the total length and the checksums of the image are
those of the kernel, and the checksum of the tag is that of its bytes. -/
structure TagCovers (crc32buf : List UInt8 → UInt32) (order : ByteOrder) (byte : ℕ → UInt8)
    (tag : ℕ) : Prop where
  rootLength : strntoul (slice byte (tag + 106) 10) = 0
  totalLength : slice byte (tag + 62) 10 = strncpy (slice byte (tag + 128) 10)
  imageCrc : slice byte (tag + 216) 4 = slice byte (tag + 224) 4
  fskernelCrc : slice byte (tag + 196) 4 = slice byte (tag + 224) 4
  rootfsCrc : slice byte (tag + 220) 4 = hostBytes order 0xffffffff
  headerCrc : slice byte (tag + 236) 4 = hostBytes order (crc32buf (slice byte tag 236))

/-- A tag that has no root file system is left as it is. Another one is fixed, nothing beside the
fields is changed, and another run changes nothing. -/
structure TagFixed (crc32buf : List UInt8 → UInt32) (order : ByteOrder) (d d' : Device)
    (before offset : ℕ) : Prop where
  device : d' = { d with byte := d'.byte }
  fixed : d' = d ∧ strntoul (slice d.byte (offset + 106) 10) = 0 ∨
    TagCovers crc32buf order d'.byte offset
  unchanged : ∀ address, d'.byte address ≠ d.byte address →
    offset + 62 ≤ address ∧ address < offset + 72 ∨
      offset + 106 ≤ address ∧ address < offset + 108 ∨
        offset + 196 ≤ address ∧ address < offset + 200 ∨
          offset + 216 ≤ address ∧ address < offset + 224 ∨
            offset + 236 ≤ address ∧ address < offset + 240
  again : ∀ d'', fixImagetag crc32buf order d' before offset = .done d'' → d'' = d'

/-- Both programs fix the headers. -/
structure Fixes (crc32buf : List UInt8 → UInt32) (trxmagic : UInt32) (order : ByteOrder)
    (d : Device) : Prop where
  trx : ∀ offset dataSize d', fixtrx crc32buf trxmagic d offset dataSize = .done d' →
    TrxFixed crc32buf trxmagic d d' offset dataSize
  tag : ∀ before offset d', fixImagetag crc32buf order d before offset = .done d' →
    TagFixed crc32buf order d d' before offset

/-! ## Blocks -/

section Blocks

variable {d d' : Device} {start count : ℕ}

theorem length_store32Le (value : ℕ) : (store32Le value).length = 4 := rfl

theorem Device.block_le (address : ℕ) : d.block address ≤ address := Nat.div_mul_le_self _ _

theorem Device.pos_erasesize : 0 < d.erasesize := Nat.lt_of_lt_of_le (by decide) d.le_erasesize

theorem Device.block_add_of_lt {i : ℕ} (h : i < d.erasesize - start % d.erasesize) :
    d.block (start + i) = d.block start := by
  unfold block
  have hdiv : (start + i) / d.erasesize = start / d.erasesize := by
    have hmod := Nat.div_add_mod start d.erasesize
    refine Nat.div_eq_of_lt_le ?_ ?_
    · rw [Nat.mul_comm]
      omega
    · rw [Nat.mul_comm, Nat.mul_add, Nat.mul_one]
      omega
  rw [hdiv]

theorem Device.writeBlock_eq {byte : ℕ → UInt8}
    (h : ∀ i, i < start ∨ start + d.erasesize ≤ i → byte i = d.byte i) :
    (d.writeBlock start fun i => byte (start + i)) = { d with byte } := by
  unfold writeBlock
  rw [store_slice_eq h]

theorem goodBytes_congr (hbad : d'.isBad = d.isBad) (hsize : d'.erasesize = d.erasesize)
    (h : ∀ address, start ≤ address → d'.byte address = d.byte address) :
    goodBytes d' start count = goodBytes d start count := by
  unfold goodBytes Device.block
  rw [hbad, hsize]
  refine List.map_congr_left fun address haddress => ?_
  exact h address (List.mem_range'_1.mp (List.mem_filter.mp haddress).1).1

theorem goodBytes_add (n : ℕ) :
    goodBytes d start (count + n) = goodBytes d start count ++ goodBytes d (start + count) n := by
  unfold goodBytes
  rw [← List.range'_append_1, List.filter_append, List.map_append]

theorem bootRead_goodBytes (h : start + count ≤ d.size) :
    bootRead d start (goodBytes d start count).length = goodBytes d start count := by
  unfold bootRead
  obtain ⟨n, hn⟩ := Nat.exists_eq_add_of_le h
  have hsize : d.size - start = count + n := by omega
  rw [hsize, goodBytes_add, List.take_left]

theorem goodBytes_of_lt (h : count ≤ d.erasesize - start % d.erasesize) :
    goodBytes d start count =
      if d.isBad (d.block start) then [] else slice d.byte start count := by
  have hblock : ∀ address ∈ List.range' start count, d.block address = d.block start := by
    intro address haddress
    obtain ⟨hle, hlt⟩ := List.mem_range'_1.mp haddress
    obtain ⟨i, rfl⟩ := Nat.exists_eq_add_of_le hle
    exact Device.block_add_of_lt (by omega)
  unfold goodBytes
  split
  case isTrue hbad =>
    rw [List.map_eq_nil_iff, List.filter_eq_nil_iff]
    intro address haddress
    rw [hblock address haddress, hbad]
    exact Bool.false_ne_true
  case isFalse hgood =>
    rw [List.filter_eq_self.mpr]
    · unfold slice
      rw [List.range'_eq_map_range, List.map_map]
      rfl
    · intro address haddress
      rw [hblock address haddress, Bool.not_eq_true', Bool.eq_false_iff]
      exact hgood

/-- The loop reads what is in good blocks. -/
theorem gather_eq {fuel : ℕ} (hfuel : count ≤ fuel) (hsize : start + count ≤ d.size) :
    gather d fuel start count = some (goodBytes d start count) := by
  induction fuel generalizing start count with
  | zero =>
    rw [Nat.le_zero.mp hfuel]
    rfl
  | succ fuel ih =>
    cases count with
    | zero => rfl
    | succ count =>
      have hmod := Nat.mod_lt start (Device.pos_erasesize (d := d))
      rw [gather]
      generalize hchunk : min (d.erasesize - start % d.erasesize) (count + 1) = chunk
      have hpos : 0 < chunk := by omega
      have hrest : gather d fuel (start + chunk) (count + 1 - chunk) = _ :=
        ih (by omega) (by omega)
      have hsplit : goodBytes d start (count + 1) =
          goodBytes d start chunk ++ goodBytes d (start + chunk) (count + 1 - chunk) := by
        rw [← goodBytes_add]
        congr 1
        omega
      have hfirst : goodBytes d start chunk =
          if d.isBad (d.block start) then [] else slice d.byte start chunk :=
        goodBytes_of_lt (by omega)
      rw [hrest, hsplit, hfirst]
      split
      case isTrue => rfl
      case isFalse =>
        rw [Device.read, if_pos (by omega), Option.bind_some, Option.map_some]

end Blocks

/-! ## TRX -/

section Trx

variable {crc32buf : List UInt8 → UInt32} {trxmagic : UInt32} {d d' : Device}
  {offset dataSize : ℕ}

/-- A header that is found, in a block, with its data in the device. -/
structure Accepted (trxmagic : UInt32) (d : Device) (offset dataSize : ℕ) : Prop where
  block : d.block offset + d.erasesize ≤ d.size
  header : offset + 12 ≤ d.block offset + d.erasesize
  data : offset + crcDataOffset + trxDataSize d dataSize ≤ d.size
  magic : (store32Le trxmagic.toNat).reverse = slice d.byte offset 4
  malloc : trxDataSize d dataSize < 2 ^ 31

def covered (d : Device) (offset dataSize : ℕ) : List UInt8 :=
  goodBytes d (offset + crcDataOffset) (trxDataSize d dataSize)

/-- The length and the checksum are in the header. -/
structure HasHeader (crc32buf : List UInt8 → UInt32) (byte : ℕ → UInt8) (offset : ℕ)
    (data : List UInt8) : Prop where
  length : slice byte (offset + 4) 4 = store32Le (data.length + crcDataOffset)
  crc : slice byte (offset + 8) 4 = store32Le (crc32buf data).toNat

def withHeader (crc32buf : List UInt8 → UInt32) (byte : ℕ → UInt8) (offset : ℕ)
    (data : List UInt8) : ℕ → UInt8 :=
  store (store byte (offset + 4) (store32Le (data.length + crcDataOffset))) (offset + 8)
    (store32Le (crc32buf data).toNat)

theorem slice_block (k count : ℕ) :
    slice (fun i => d.byte (d.block offset + i)) (offset - d.block offset + k) count =
      slice d.byte (offset + k) count := by
  have hle := Device.block_le (d := d) offset
  have hstart : d.block offset + (offset - d.block offset + k) = offset + k := by omega
  rw [slice_shift, hstart]

theorem gather_of_accepted (h : Accepted trxmagic d offset dataSize) :
    gather d (trxDataSize d dataSize) ((offset + crcDataOffset) % 2 ^ 32)
      (trxDataSize d dataSize) = some (covered d offset dataSize) := by
  have hdata := h.data
  have hsize := d.size_lt
  rw [Nat.mod_eq_of_lt (by omega)]
  exact gather_eq (Nat.le_refl _) hdata

/-- Where a run ends well the header was found. -/
theorem accepted_of_done (h : fixtrx crc32buf trxmagic d offset dataSize = .done d') :
    Accepted trxmagic d offset dataSize := by
  have hle := Device.block_le (d := d) offset
  have hlt := d.size_lt
  unfold fixtrx at h
  dsimp only at h
  split at h
  case isTrue => cases h
  case isFalse hfits =>
    split at h
    case isTrue => cases h
    case isFalse hblock =>
      split at h
      case isTrue => cases h
      case isFalse =>
        split at h
        case isTrue => cases h
        case isFalse hmagic =>
          split at h
          case isTrue => cases h
          case isFalse hmalloc =>
            split at h
            case h_1 => cases h
            case h_2 =>
              split at h
              case isTrue => cases h
              case isFalse hheader =>
                have hmagic := Decidable.not_not.mp hmagic
                have hslice : slice (fun i => d.byte (d.block offset + i)) _ _ = _ :=
                  slice_block 0 4
                rw [Nat.add_zero, Nat.add_zero] at hslice
                have hoffset : (offset + crcDataOffset) % 2 ^ 32 =
                    offset + crcDataOffset := by
                  unfold crcDataOffset
                  omega
                rw [hoffset] at hfits
                unfold crcDataOffset at hfits
                refine ⟨by omega, by omega, ?_, hmagic.trans hslice, by omega⟩
                unfold crcDataOffset
                omega

variable (crc32buf) in
/-- A header that is found is compared, and put into its block where it is not right yet. -/
theorem fixtrx_of_accepted (h : Accepted trxmagic d offset dataSize) :
    (HasHeader crc32buf d.byte offset (covered d offset dataSize) →
      fixtrx crc32buf trxmagic d offset dataSize = .done d) ∧
    (¬ HasHeader crc32buf d.byte offset (covered d offset dataSize) →
      fixtrx crc32buf trxmagic d offset dataSize =
        if d.erases (d.block offset) then
          .done { d with byte := withHeader crc32buf d.byte offset (covered d offset dataSize) }
        else .failed) := by
  have hle := Device.block_le (d := d) offset
  have hlt := d.size_lt
  have hblock := h.block
  have hheader := h.header
  have hdata := h.data
  have hgather := gather_of_accepted h
  have hslice : slice (fun i => d.byte (d.block offset + i)) _ _ = _ := slice_block 0 4
  rw [Nat.add_zero, Nat.add_zero] at hslice
  have hwrite : (d.writeBlock (d.block offset) fun i =>
    withHeader crc32buf d.byte offset (covered d offset dataSize) (d.block offset + i)) =
      { d with byte := withHeader crc32buf d.byte offset (covered d offset dataSize) } := by
    refine Device.writeBlock_eq fun i hi => ?_
    unfold withHeader
    have hlen := length_store32Le ((covered d offset dataSize).length + crcDataOffset)
    have hlen' := length_store32Le (crc32buf (covered d offset dataSize)).toNat
    rcases hi with hi | hi
    · rw [store_of_lt (by omega), store_of_lt (by omega)]
    · rw [store_of_ge (by omega), store_of_ge (by omega)]
  have hfixed : (store (store (fun i => d.byte (d.block offset + i))
      (offset - d.block offset + 4) (store32Le ((covered d offset dataSize).length + crcDataOffset)))
        (offset - d.block offset + 8) (store32Le (crc32buf (covered d offset dataSize)).toNat)) =
      fun i => withHeader crc32buf d.byte offset (covered d offset dataSize)
        (d.block offset + i) := by
    have hfour : d.block offset + (offset - d.block offset + 4) = offset + 4 := by omega
    have height : d.block offset + (offset - d.block offset + 8) = offset + 8 := by omega
    unfold withHeader
    rw [store_shift, store_shift, hfour, height]
  unfold fixtrx
  dsimp only
  rw [hgather, if_neg, if_neg (by omega), if_neg (by omega), hslice,
    if_neg (not_not_intro h.magic), if_neg (Nat.not_le_of_lt h.malloc)]
  · dsimp only
    rw [if_neg (by omega), slice_block, slice_block, hfixed]
    constructor
    · intro hhas
      rw [if_pos ⟨hhas.length, hhas.crc⟩]
    · intro hnot
      rw [if_neg fun hhas => hnot ⟨hhas.1, hhas.2⟩]
      rw [hwrite]
  · unfold crcDataOffset at hdata ⊢
    omega

variable {byte : ℕ → UInt8} {data : List UInt8}

theorem hasHeader_withHeader :
    HasHeader crc32buf (withHeader crc32buf byte offset data) offset data := by
  have hlen := length_store32Le (data.length + crcDataOffset)
  have hlen' := length_store32Le (crc32buf data).toNat
  constructor
  · unfold withHeader
    rw [slice_store_of_disjoint (.inl (by omega)), slice_store hlen]
  · unfold withHeader
    rw [slice_store hlen']

theorem of_withHeader_ne {address : ℕ}
    (h : withHeader crc32buf byte offset data address ≠ byte address) :
    offset + 4 ≤ address ∧ address < offset + 12 := by
  unfold withHeader at h
  by_cases hcrc : store (store byte (offset + 4) (store32Le (data.length + crcDataOffset)))
      (offset + 8) (store32Le (crc32buf data).toNat) address =
        store byte (offset + 4) (store32Le (data.length + crcDataOffset)) address
  · rw [hcrc] at h
    obtain ⟨hle, hlt⟩ := mem_of_store_ne h
    rw [length_store32Le] at hlt
    omega
  · obtain ⟨hle, hlt⟩ := mem_of_store_ne hcrc
    rw [length_store32Le] at hlt
    omega

/-- A header that was not right is right after the run. -/
theorem trxFixed_of_done (h : fixtrx crc32buf trxmagic d offset dataSize = .done d') :
    TrxFixed crc32buf trxmagic d d' offset dataSize := by
  have haccepted := accepted_of_done h
  obtain ⟨hdone, hwrite⟩ := fixtrx_of_accepted crc32buf haccepted
  by_cases hhas : HasHeader crc32buf d.byte offset (covered d offset dataSize)
  · have hsame := h
    rw [hdone hhas] at h
    cases h
    refine ⟨rfl, hhas.length, ?_, fun address hne => absurd rfl hne, hsame⟩
    rw [bootRead_goodBytes haccepted.data]
    exact hhas.crc
  · rw [hwrite hhas] at h
    split at h
    case isFalse => cases h
    case isTrue =>
      cases h
      -- what is covered is behind the fields that are changed
      have hcovered : goodBytes
          { d with byte := withHeader crc32buf d.byte offset (covered d offset dataSize) }
            (offset + crcDataOffset) (trxDataSize d dataSize) = covered d offset dataSize := by
        refine goodBytes_congr rfl rfl fun address haddress =>
          Decidable.byContradiction fun hne => ?_
        have hlt := (of_withHeader_ne hne).2
        unfold crcDataOffset at haddress
        omega
      have hhas' : HasHeader crc32buf
          (withHeader crc32buf d.byte offset (covered d offset dataSize)) offset
            (covered d offset dataSize) := hasHeader_withHeader
      have haccepted' : Accepted trxmagic
          { d with byte := withHeader crc32buf d.byte offset (covered d offset dataSize) } offset
            dataSize := by
        refine ⟨haccepted.block, haccepted.header, haccepted.data, haccepted.magic.trans ?_,
          haccepted.malloc⟩
        refine slice_congr fun i hi => Decidable.byContradiction fun hne => ?_
        have hle := (of_withHeader_ne (Ne.symm hne)).1
        omega
      refine ⟨rfl, ?_, ?_, fun address hne => of_withHeader_ne hne, ?_⟩
      · rw [hcovered]
        exact hhas'.length
      · have hboot : bootRead
            { d with byte := withHeader crc32buf d.byte offset (covered d offset dataSize) }
            (offset + crcDataOffset) (goodBytes
              { d with byte := withHeader crc32buf d.byte offset (covered d offset dataSize) }
              (offset + crcDataOffset) (trxDataSize d dataSize)).length =
                covered d offset dataSize :=
          (bootRead_goodBytes haccepted'.data).trans hcovered
        rw [hboot]
        exact hhas'.crc
      · refine (fixtrx_of_accepted crc32buf haccepted').1 ?_
        have hsame : covered
            { d with byte := withHeader crc32buf d.byte offset (covered d offset dataSize) } offset
              dataSize = covered d offset dataSize := hcovered
        rw [hsame]
        exact hhas'

end Trx

/-! ## The image tag -/

section Tag

variable {crc32buf : List UInt8 → UInt32} {order : ByteOrder} {d d' : Device}
  {byte : ℕ → UInt8} {tag before offset address : ℕ}

theorem length_hostBytes (value : UInt32) : (hostBytes order value).length = 4 := by
  cases order <;> rfl

theorem length_strncpy (field : List UInt8) : (strncpy field).length = field.length := by
  have hle := (List.takeWhile_sublist (l := field) (· ≠ 0)).length_le
  unfold strncpy
  rw [List.length_append, List.length_replicate]
  omega

theorem strntoul_zero (rest : List UInt8) : strntoul (48 :: 0 :: rest) = 0 := rfl

theorem tagCovers_fixTag : TagCovers crc32buf order (fixTag crc32buf order byte tag) tag := by
  unfold fixTag
  dsimp only
  generalize hroot : store byte (tag + 106) [48, 0] = root
  have hname := length_strncpy (slice root (tag + 128) 10)
  rw [length_slice] at hname
  generalize htotal : store root (tag + 62) (strncpy (slice root (tag + 128) 10)) = total
  have hkernel : (slice total (tag + 224) 4).length = 4 := length_slice
  generalize himage : store total (tag + 216) (slice total (tag + 224) 4) = image
  have hkernel' : (slice image (tag + 224) 4).length = 4 := length_slice
  generalize hfskernel : store image (tag + 196) (slice image (tag + 224) 4) = fskernel
  have hones : (hostBytes order 0xffffffff).length = 4 := length_hostBytes _
  generalize hrootfs : store fskernel (tag + 220) (hostBytes order 0xffffffff) = rootfs
  have hcrc : (hostBytes order (crc32buf (slice rootfs tag 236))).length = 4 := length_hostBytes _
  -- what is read of a part that was stored earlier
  have hheader : ∀ first count, first + count ≤ tag + 236 →
      slice (store rootfs (tag + 236) (hostBytes order (crc32buf (slice rootfs tag 236)))) first
        count = slice rootfs first count :=
    fun first count hle => slice_store_of_disjoint (.inl hle)
  have hrootfs' : ∀ first count, first + count ≤ tag + 220 ∨ tag + 224 ≤ first →
      slice rootfs first count = slice fskernel first count := by
    intro first count hdisjoint
    rw [← hrootfs]
    exact slice_store_of_disjoint (by omega)
  have hfskernel' : ∀ first count, first + count ≤ tag + 196 ∨ tag + 200 ≤ first →
      slice fskernel first count = slice image first count := by
    intro first count hdisjoint
    rw [← hfskernel]
    exact slice_store_of_disjoint (by omega)
  have himage' : ∀ first count, first + count ≤ tag + 216 ∨ tag + 220 ≤ first →
      slice image first count = slice total first count := by
    intro first count hdisjoint
    rw [← himage]
    exact slice_store_of_disjoint (by omega)
  have htotal' : ∀ first count, first + count ≤ tag + 62 ∨ tag + 72 ≤ first →
      slice total first count = slice root first count := by
    intro first count hdisjoint
    rw [← htotal]
    exact slice_store_of_disjoint (by omega)
  refine ⟨?_, ?_, ?_, ?_, ?_, ?_⟩
  · rw [hheader _ _ (by omega), hrootfs' _ _ (by omega), hfskernel' _ _ (by omega),
      himage' _ _ (by omega), htotal' _ _ (by omega)]
    have hzero : slice root (tag + 106) 2 = [48, 0] := by
      rw [← hroot]
      exact slice_store rfl
    have hsplit : slice root (tag + 106) (2 + 8) = _ := slice_add 8
    rw [hsplit, hzero]
    exact strntoul_zero _
  · rw [hheader (tag + 62) _ (by omega), hrootfs' (tag + 62) _ (by omega),
      hfskernel' (tag + 62) _ (by omega), himage' (tag + 62) _ (by omega),
      hheader (tag + 128) _ (by omega), hrootfs' (tag + 128) _ (by omega),
      hfskernel' (tag + 128) _ (by omega), himage' (tag + 128) _ (by omega),
      htotal' (tag + 128) _ (by omega), ← htotal]
    exact slice_store hname
  · rw [hheader (tag + 216) _ (by omega), hrootfs' (tag + 216) _ (by omega),
      hfskernel' (tag + 216) _ (by omega), hheader (tag + 224) _ (by omega),
      hrootfs' (tag + 224) _ (by omega), hfskernel' (tag + 224) _ (by omega),
      himage' (tag + 224) _ (by omega), ← himage]
    exact slice_store hkernel
  · rw [hheader (tag + 196) _ (by omega), hrootfs' (tag + 196) _ (by omega),
      hheader (tag + 224) _ (by omega), hrootfs' (tag + 224) _ (by omega),
      hfskernel' (tag + 224) _ (by omega), ← hfskernel]
    exact slice_store hkernel'
  · rw [hheader (tag + 220) _ (by omega), ← hrootfs]
    exact slice_store hones
  · rw [hheader tag 236 (by omega)]
    exact slice_store hcrc

/-- Nothing but the fields is changed. -/
theorem of_fixTag_ne (h : fixTag crc32buf order byte tag address ≠ byte address) :
    tag + 62 ≤ address ∧ address < tag + 72 ∨ tag + 106 ≤ address ∧ address < tag + 108 ∨
      tag + 196 ≤ address ∧ address < tag + 200 ∨ tag + 216 ≤ address ∧ address < tag + 224 ∨
        tag + 236 ≤ address ∧ address < tag + 240 := by
  have hstore : ∀ (memory : ℕ → UInt8) (start count : ℕ) (values : List UInt8),
      values.length = count → address < start ∨ start + count ≤ address →
        store memory start values address = memory address := by
    rintro memory start count values rfl (hlt | hge)
    · exact store_of_lt hlt
    · exact store_of_ge hge
  refine Decidable.byContradiction fun hnot => h ?_
  unfold fixTag
  have hname := length_strncpy (slice (store byte (tag + 106) [48, 0]) (tag + 128) 10)
  rw [length_slice] at hname
  rw [hstore _ _ 4 _ (length_hostBytes _) (by omega),
    hstore _ _ 4 _ (length_hostBytes _) (by omega), hstore _ _ 4 _ length_slice (by omega),
    hstore _ _ 4 _ length_slice (by omega), hstore _ _ 10 _ hname (by omega),
    hstore _ _ 2 _ rfl (by omega)]

theorem fixTag_shift (shift : ℕ) :
    fixTag crc32buf order (fun i => byte (shift + i)) tag =
      fun i => fixTag crc32buf order byte (shift + tag) (shift + i) := by
  simp only [fixTag, store_shift, slice_shift, Nat.add_assoc]

theorem tagFixed_of_done (h : fixImagetag crc32buf order d before offset = .done d') :
    TagFixed crc32buf order d d' before offset := by
  have hle : (if before = 0 then 0 else offset / before * before) ≤ offset := by
    split
    · exact Nat.zero_le _
    · exact Nat.div_mul_le_self _ _
  -- a tag without a root file system is left as it is
  have hagain : ∀ e e' : Device, strntoul (slice e.byte (offset + 106) 10) = 0 →
      fixImagetag crc32buf order e before offset = .done e' → e' = e := by
    intro e e' hroot hdone
    unfold fixImagetag at hdone
    generalize (if before = 0 then 0 else offset / before * before) = blockOffset at hle hdone
    have hstart : blockOffset + (offset - blockOffset + 106) = offset + 106 := by omega
    dsimp only at hdone
    have hslice : slice (fun i => e.byte (blockOffset + i)) (offset - blockOffset + 106) 10 = _ :=
      slice_shift blockOffset
    rw [hslice, hstart, hroot, if_pos rfl] at hdone
    split at hdone
    · cases hdone
    · split at hdone
      · cases hdone
      · split at hdone
        · cases hdone
        · split at hdone
          · cases hdone
          · split at hdone <;> cases hdone
            rfl
  have hdone := h
  unfold fixImagetag at h
  generalize (if before = 0 then 0 else offset / before * before) = blockOffset at hle h
  have hstart : blockOffset + (offset - blockOffset + 106) = offset + 106 := by omega
  have htag : blockOffset + (offset - blockOffset) = offset := by omega
  dsimp only at h
  split at h
  case isTrue => cases h
  case isFalse hsize =>
    split at h
    case isTrue => cases h
    case isFalse =>
      split at h
      case isTrue => cases h
      case isFalse =>
        split at h
        case isTrue => cases h
        case isFalse hinside =>
          split at h
          case isTrue => cases h
          case isFalse =>
            split at h
            case isTrue hroot =>
              cases h
              rw [slice_shift, hstart] at hroot
              exact ⟨rfl, .inl ⟨rfl, hroot⟩, fun address hne => absurd rfl hne,
                fun d'' => hagain d d'' hroot⟩
            case isFalse =>
              split at h
              case isFalse => cases h
              case isTrue =>
                cases h
                have hwrite : d.writeBlock blockOffset (fixTag crc32buf order
                    (fun i => d.byte (blockOffset + i)) (offset - blockOffset)) =
                      { d with byte := fixTag crc32buf order d.byte offset } := by
                  rw [fixTag_shift, htag]
                  refine Device.writeBlock_eq fun i hi =>
                    Decidable.byContradiction fun hne => ?_
                  have hranges := of_fixTag_ne hne
                  omega
                rw [hwrite]
                refine ⟨rfl, .inr tagCovers_fixTag, fun address => of_fixTag_ne,
                  fun d'' => hagain _ d'' ?_⟩
                exact tagCovers_fixTag.rootLength

end Tag

/-! ## A stale checksum -/

/-- `crc32buf` -/
def crc32buf : List UInt8 → UInt32 := Bcm4908img.crc32 Bcm4908img.crcInit

/-- A tag with a root file system of 4 bytes and a kernel of 16, whose checksum is not there. -/
def staleTag (address : ℕ) : UInt8 :=
  if address = 106 then 52
  else if address = 128 then 49
  else if address = 129 then 54
  else if 236 ≤ address then [7, 189, 111, 95].getD (address - 236) 0
  else 0

/-- The tag is at the start of a device with two blocks, and zeros are behind it. -/
def staleDevice : Device where
  size := 8192
  erasesize := 4096
  byte := staleTag
  isBad _ := false
  erases _ := true
  le_erasesize := by decide
  size_lt := by decide

/-- The checksum of the image is the one that the tag had for its kernel. -/
theorem not_imageCrc_of_staleDevice :
    ¬ ∀ d', fixImagetag crc32buf .little staleDevice 0 0 = .done d' →
      slice d'.byte 216 4 = hostBytes .little (crc32buf (bootRead d' 256 16)) := by
  intro h
  obtain ⟨d', hrun⟩ : ∃ d', fixImagetag crc32buf .little staleDevice 0 0 = .done d' := by
    unfold fixImagetag
    dsimp only
    rw [if_neg (by decide +kernel), if_neg (by decide +kernel), if_neg (by decide +kernel),
      if_neg (by decide +kernel), if_neg (by decide +kernel), if_neg (by decide +kernel),
      if_pos (by decide +kernel)]
    exact ⟨_, rfl⟩
  have hfixed := tagFixed_of_done hrun
  have hcrc := h d' hrun
  rcases hfixed.fixed with ⟨-, hroot⟩ | hcovers
  · exact absurd hroot (by decide +kernel)
  · have hkernel : slice d'.byte 224 4 = slice staleDevice.byte 224 4 := by
      refine slice_congr fun i hi => Decidable.byContradiction fun hne => ?_
      have hranges := hfixed.unchanged _ hne
      omega
    have hdata : bootRead d' 256 16 = bootRead staleDevice 256 16 := by
      unfold bootRead
      rw [hfixed.device]
      refine congrArg (List.take 16) (goodBytes_congr rfl rfl fun address haddress =>
        Decidable.byContradiction fun hne => ?_)
      have hranges := hfixed.unchanged _ hne
      omega
    have himage : slice d'.byte 216 4 = slice d'.byte 224 4 := hcovers.imageCrc
    rw [himage, hkernel, hdata] at hcrc
    revert hcrc
    decide +kernel

/-! ## The result -/

/-- Where a program ends well, the header covers the data as it should. -/
theorem fixes (crc32buf : List UInt8 → UInt32) (trxmagic : UInt32) (order : ByteOrder)
    (d : Device) : Fixes crc32buf trxmagic order d where
  trx _ _ _ := trxFixed_of_done
  tag _ _ _ := tagFixed_of_done

end OpenWrt.Mtd.FixTrx
