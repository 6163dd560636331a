/-
# Copying a block with its spare bytes

Moving a block reads each page with some of its spare bytes and writes it to the other
block. The requests to the driver are set up anew for every page, and the length of
the spare bytes to write is only put into a request that was already sent. So the
spare area of the destination stays as it was, and a copy that succeeds moved the
data alone.

The driver is a parameter. What it promises is that a successful read returns what the
page holds, and that a successful write clears the bits that are clear in what is
written, and nothing else.
-/

import OpenWrt.MtkBmt.Nand

namespace OpenWrt.MtkBmt.NandCopy

/-! ## Requests to the driver -/

/-- The lengths of a request in `MTD_OPS_PLACE_OOB`, of data and of spare bytes. -/
structure MtdOobOps where
  len : ℕ
  ooblen : ℕ

/-- The buffers of the copy, `bmtd.data_buf` and one for spare bytes. -/
structure Buffers where
  datbuf : ℕ → BitVec 8
  oobbuf : ℕ → BitVec 8

/-- What a read returns: its result, how much was read, and the buffers. -/
structure Readout where
  ret : ℤ
  retlen : ℕ
  oobretlen : ℕ
  bufs : Buffers

/-- The operations of the driver below. -/
structure Mtd (σ : Type) where
  readOob : σ → (addr : ℕ) → MtdOobOps → Buffers → Readout × σ
  writeOob : σ → (addr : ℕ) → MtdOobOps → Buffers → ℤ × σ

/-- A result tells of bits that were corrected. -/
def mtdIsBitflip (ret : ℤ) : Bool := ret = eUclean

/-- The layout of the flash. Sizes of pages and blocks are powers of two. -/
structure Geometry where
  pgShift : ℕ
  blkShift : ℕ
  /-- Spare bytes of a page. -/
  oobsize : ℕ
  pgShift_le : pgShift ≤ blkShift

namespace Geometry

variable (g : Geometry)

def pgSize : ℕ := 2 ^ g.pgShift

def blkSize : ℕ := 2 ^ g.blkShift

def pages : ℕ := g.blkSize >>> g.pgShift

def pageAddr (block page : ℕ) : ℕ := block * g.blkSize + page * g.pgSize

end Geometry

/-! ## The copy -/

section Copy

variable {σ : Type} (mtd : Mtd σ) (g : Geometry)

/-- At most `pages` turns of the loop from an offset on. -/
def copyLoop (dest src : ℕ) (maxOffset : ℤ) : (pages offset : ℕ) → Buffers → σ → ℤ × σ
  | 0, _, _, s => (0, s)
  | pages + 1, offset, bufs, s =>
    let rdOps : MtdOobOps := { len := g.pgSize, ooblen := min (g.oobsize / g.pages) 64 }
    let wrOps : MtdOobOps := { len := g.pgSize, ooblen := 0 }
    if maxOffset ≤ offset then (0, s)
    else
      match mtd.readOob s (src + offset) rdOps bufs with
      | (rd, s) =>
        if rd.ret < 0 ∧ ¬ mtdIsBitflip rd.ret then (rd.ret, s)
        else if rd.retlen = 0 then (0, s)
        else
          match mtd.writeOob s (dest + offset) wrOps rd.bufs with
          | (ret, s) =>
            if ret < 0 then (ret, s)
            -- `wr_ops.ooblen` is set here, and the next turn has a new `wr_ops`
            else copyLoop dest src maxOffset pages (offset + rd.retlen) rd.bufs s

/-- Copy the pages of a block below an offset. -/
def bbtNandCopy (destBlk srcBlk : ℕ) (maxOffset : ℤ) (bufs : Buffers) (s : σ) : ℤ × σ :=
  copyLoop mtd g (destBlk * g.blkSize) (srcBlk * g.blkSize) maxOffset g.pages 0 bufs s

end Copy

/-! ## What the driver promises -/

/-- The contents of the flash as the driver's state shows them. -/
structure Contents (σ : Type) where
  /-- The byte of data at an address. -/
  data : σ → ℕ → BitVec 8
  /-- The spare bytes of the page at an address, those that the correction does not use. -/
  oob : σ → ℕ → ℕ → BitVec 8

section Promise

variable {σ : Type} (mtd : Mtd σ) (flash : Contents σ)

/-- Reads that succeed, or had bits to correct, return what the flash holds. Writes that
succeed clear bits in the bytes that they are given the length of. -/
structure Documented : Prop where
  read_full {s : σ} {addr : ℕ} {ops : MtdOobOps} {bufs : Buffers}
    (h : 0 ≤ (mtd.readOob s addr ops bufs).1.ret ∨
      mtdIsBitflip (mtd.readOob s addr ops bufs).1.ret = true) :
    (mtd.readOob s addr ops bufs).1.retlen = ops.len ∧
      ∀ i < ops.len, (mtd.readOob s addr ops bufs).1.bufs.datbuf i = flash.data s (addr + i)
  read_keeps (s : σ) (addr : ℕ) (ops : MtdOobOps) (bufs : Buffers) :
    flash.data (mtd.readOob s addr ops bufs).2 = flash.data s ∧
      flash.oob (mtd.readOob s addr ops bufs).2 = flash.oob s
  write_data {s : σ} {addr : ℕ} {ops : MtdOobOps} {bufs : Buffers}
    (h : 0 ≤ (mtd.writeOob s addr ops bufs).1) (a : ℕ) :
    flash.data (mtd.writeOob s addr ops bufs).2 a =
      if addr ≤ a ∧ a < addr + ops.len then flash.data s a &&& bufs.datbuf (a - addr)
      else flash.data s a
  write_oob {s : σ} {addr : ℕ} {ops : MtdOobOps} {bufs : Buffers}
    (h : 0 ≤ (mtd.writeOob s addr ops bufs).1) (page i : ℕ) :
    flash.oob (mtd.writeOob s addr ops bufs).2 page i =
      if page = addr ∧ i < ops.ooblen then flash.oob s page i &&& bufs.oobbuf i
      else flash.oob s page i

/-- The pages of the destination below the offset hold the data and the spare bytes of
the source's. -/
def SamePages (g : Geometry) (destBlk srcBlk : ℕ) (maxOffset : ℤ) (s : σ) : Prop :=
  ∀ page < g.pages, ((page * g.pgSize : ℕ) : ℤ) < maxOffset →
    (∀ i < g.pgSize,
      flash.data s (g.pageAddr destBlk page + i) = flash.data s (g.pageAddr srcBlk page + i)) ∧
    ∀ i < g.oobsize,
      flash.oob s (g.pageAddr destBlk page) i = flash.oob s (g.pageAddr srcBlk page) i

/-- No bit of the source's data is clear in the destination, as after an erase, and the
spare bytes are the same already. -/
def ReadyFor (g : Geometry) (destBlk srcBlk : ℕ) (maxOffset : ℤ) (s : σ) : Prop :=
  ∀ page < g.pages, ((page * g.pgSize : ℕ) : ℤ) < maxOffset →
    (∀ i < g.pgSize,
      flash.data s (g.pageAddr destBlk page + i) &&& flash.data s (g.pageAddr srcBlk page + i) =
        flash.data s (g.pageAddr srcBlk page + i)) ∧
    ∀ i < g.oobsize,
      flash.oob s (g.pageAddr destBlk page) i = flash.oob s (g.pageAddr srcBlk page) i

end Promise

/-! ## The state after some pages -/

section Spec

variable {σ : Type} {mtd : Mtd σ} {flash : Contents σ} {g : Geometry}

theorem Geometry.pgSize_pos (g : Geometry) : 0 < g.pgSize := Nat.two_pow_pos _

theorem Geometry.pages_mul (g : Geometry) : g.pages * g.pgSize = g.blkSize := by
  unfold Geometry.pages Geometry.pgSize Geometry.blkSize
  rw [Nat.shiftRight_eq_div_pow]
  exact Nat.div_mul_cancel (Nat.pow_dvd_pow 2 g.pgShift_le)

/-- The first `k` pages of the destination were programmed from the source. -/
structure Copied (flash : Contents σ) (g : Geometry) (dest src k : ℕ) (s t : σ) : Prop where
  data (a : ℕ) : flash.data t a =
    if dest ≤ a ∧ a < dest + k * g.pgSize then flash.data s a &&& flash.data s (a - dest + src)
    else flash.data s a
  oob : flash.oob t = flash.oob s

theorem Copied.refl (dest src : ℕ) (s : σ) : Copied flash g dest src 0 s s where
  data a := by rw [if_neg (by omega)]
  oob := rfl

theorem Copied.read {dest src k : ℕ} {s t u : σ} (h : Copied flash g dest src k s t)
    (hdata : flash.data u = flash.data t) (hoob : flash.oob u = flash.oob t) :
    Copied flash g dest src k s u where
  data a := by rw [hdata, h.data]
  oob := hoob.trans h.oob

theorem block_apart {a b x y n : ℕ} (hne : a ≠ b) (hx : x < n) (hy : y < n) :
    a * n + x ≠ b * n + y := by
  intro heq
  have hdiv : ∀ c z, z < n → (c * n + z) / n = c := by
    intro c z hz
    rw [Nat.mul_comm, Nat.mul_add_div (by omega), Nat.div_eq_of_lt hz, Nat.add_zero]
  exact hne ((hdiv a x hx).symm.trans (heq ▸ hdiv b y hy))

/-- The page to be read next was not written before. -/
theorem Copied.source {destBlk srcBlk k i : ℕ} {s t : σ}
    (h : Copied flash g (destBlk * g.blkSize) (srcBlk * g.blkSize) k s t)
    (hk : k * g.pgSize + i < g.blkSize) :
    flash.data t (srcBlk * g.blkSize + k * g.pgSize + i) =
      flash.data s (srcBlk * g.blkSize + k * g.pgSize + i) := by
  rw [h.data, if_neg]
  rintro ⟨hle, hlt⟩
  by_cases hsame : destBlk = srcBlk
  · subst hsame
    omega
  · obtain ⟨x, hx⟩ := Nat.exists_eq_add_of_le hle
    refine block_apart hsame (show x < g.blkSize by omega) hk ?_
    omega

theorem Copied.programmed {destBlk srcBlk k page i : ℕ} {s t : σ}
    (h : Copied flash g (destBlk * g.blkSize) (srcBlk * g.blkSize) k s t) (hpage : page < k)
    (hi : i < g.pgSize) :
    flash.data t (g.pageAddr destBlk page + i) =
      flash.data s (g.pageAddr destBlk page + i) &&& flash.data s (g.pageAddr srcBlk page + i) := by
  have hend := Nat.mul_le_mul_right g.pgSize (show page + 1 ≤ k by omega)
  have hnext : (page + 1) * g.pgSize = page * g.pgSize + g.pgSize := Nat.succ_mul _ _
  unfold Geometry.pageAddr
  rw [h.data, if_pos (by omega)]
  congr 2
  omega

/-- Another block keeps its data. -/
theorem Copied.untouched {destBlk srcBlk k page i : ℕ} {s t : σ}
    (h : Copied flash g (destBlk * g.blkSize) (srcBlk * g.blkSize) k s t)
    (hne : destBlk ≠ srcBlk) (hk : k ≤ g.pages) (hpage : page < g.pages) (hi : i < g.pgSize) :
    flash.data t (g.pageAddr srcBlk page + i) = flash.data s (g.pageAddr srcBlk page + i) := by
  have hroom := Nat.mul_le_mul_right g.pgSize hk
  have hend := Nat.mul_le_mul_right g.pgSize (show page + 1 ≤ g.pages by omega)
  have hnext : (page + 1) * g.pgSize = page * g.pgSize + g.pgSize := Nat.succ_mul _ _
  rw [g.pages_mul] at hroom hend
  unfold Geometry.pageAddr
  rw [h.data, if_neg]
  rintro ⟨hle, hlt⟩
  obtain ⟨x, hx⟩ := Nat.exists_eq_add_of_le hle
  refine block_apart hne (show x < g.blkSize by omega)
    (show page * g.pgSize + i < g.blkSize by omega) ?_
  omega

/-- Programming the next page. -/
theorem Copied.succ {dest src k : ℕ} {s t u : σ} {datbuf : ℕ → BitVec 8}
    (h : Copied flash g dest src k s t)
    (hread : ∀ i < g.pgSize, datbuf i = flash.data s (src + k * g.pgSize + i))
    (hdata : ∀ a, flash.data u a =
      if dest + k * g.pgSize ≤ a ∧ a < dest + k * g.pgSize + g.pgSize then
        flash.data t a &&& datbuf (a - (dest + k * g.pgSize))
      else flash.data t a)
    (hoob : flash.oob u = flash.oob t) : Copied flash g dest src (k + 1) s u where
  oob := hoob.trans h.oob
  data a := by
    have hnext : (k + 1) * g.pgSize = k * g.pgSize + g.pgSize := Nat.succ_mul _ _
    rw [hdata, hnext]
    split
    case isTrue hin =>
      have hold := h.data a
      rw [if_neg (by omega)] at hold
      have hat : src + k * g.pgSize + (a - (dest + k * g.pgSize)) = a - dest + src := by omega
      rw [if_pos (by omega), hold, hread _ (by omega), hat]
    case isFalse hout =>
      rw [h.data]
      by_cases hbefore : dest ≤ a ∧ a < dest + k * g.pgSize
      · rw [if_pos hbefore, if_pos (by omega)]
      · rw [if_neg hbefore, if_neg (by omega)]

/-- A turn of the loop, by what the driver returns. -/
theorem copyLoop_succ {dest src pages offset : ℕ} {maxOffset : ℤ} {bufs : Buffers} {t u v : σ}
    {rd : Readout} {ret : ℤ}
    (hrd : mtd.readOob t (src + offset)
      { len := g.pgSize, ooblen := min (g.oobsize / g.pages) 64 } bufs = (rd, u))
    (hwr : mtd.writeOob u (dest + offset) { len := g.pgSize, ooblen := 0 } rd.bufs = (ret, v)) :
    copyLoop mtd g dest src maxOffset (pages + 1) offset bufs t =
      if maxOffset ≤ offset then (0, t)
      else if rd.ret < 0 ∧ ¬ mtdIsBitflip rd.ret then (rd.ret, u)
      else if rd.retlen = 0 then (0, u)
      else if ret < 0 then (ret, v)
      else copyLoop mtd g dest src maxOffset pages (offset + rd.retlen) rd.bufs v := by
  simp only [copyLoop, hrd, hwr]

/-- A loop that ends well has copied all pages below the offset. -/
theorem copyLoop_spec (hmtd : Documented mtd flash) {destBlk srcBlk : ℕ} {maxOffset : ℤ} {s : σ}
    (pages : ℕ) {k : ℕ} {bufs : Buffers} {t : σ} (hk : k + pages = g.pages)
    (h : Copied flash g (destBlk * g.blkSize) (srcBlk * g.blkSize) k s t)
    (hbelow : ∀ page < k, ((page * g.pgSize : ℕ) : ℤ) < maxOffset)
    (hret : (copyLoop mtd g (destBlk * g.blkSize) (srcBlk * g.blkSize) maxOffset pages
      (k * g.pgSize) bufs t).1 = 0) :
    ∃ n ≤ g.pages, (∀ page < g.pages, page < n ↔ ((page * g.pgSize : ℕ) : ℤ) < maxOffset) ∧
      Copied flash g (destBlk * g.blkSize) (srcBlk * g.blkSize) n s
        (copyLoop mtd g (destBlk * g.blkSize) (srcBlk * g.blkSize) maxOffset pages
          (k * g.pgSize) bufs t).2 := by
  induction pages generalizing k bufs t with
  | zero =>
    exact ⟨k, by omega, fun page hpage => ⟨hbelow page, fun _ => by omega⟩, h⟩
  | succ pages ih =>
    have hroom : (k + 1) * g.pgSize ≤ g.blkSize := by
      rw [← g.pages_mul]
      exact Nat.mul_le_mul_right _ (by omega)
    have hnext : (k + 1) * g.pgSize = k * g.pgSize + g.pgSize := Nat.succ_mul _ _
    have hpos := g.pgSize_pos
    rcases hrd : mtd.readOob t (srcBlk * g.blkSize + k * g.pgSize)
      { len := g.pgSize, ooblen := min (g.oobsize / g.pages) 64 } bufs with ⟨rd, u⟩
    rcases hwr : mtd.writeOob u (destBlk * g.blkSize + k * g.pgSize)
      { len := g.pgSize, ooblen := 0 } rd.bufs with ⟨ret, v⟩
    rw [copyLoop_succ hrd hwr] at hret ⊢
    by_cases hend : maxOffset ≤ ((k * g.pgSize : ℕ) : ℤ)
    · rw [if_pos hend]
      refine ⟨k, by omega, fun page hpage => ⟨hbelow page, fun hlt => ?_⟩, h⟩
      by_contra hge
      have hmul := Nat.mul_le_mul_right g.pgSize (show k ≤ page by omega)
      omega
    rw [if_neg hend] at hret ⊢
    by_cases hfail : rd.ret < 0 ∧ ¬ mtdIsBitflip rd.ret = true
    · rw [if_pos hfail] at hret
      exact absurd hret (ne_of_lt hfail.1)
    have hread : 0 ≤ rd.ret ∨ mtdIsBitflip rd.ret = true := by
      by_contra hnone
      obtain ⟨hneg, hflip⟩ := not_or.mp hnone
      exact hfail ⟨not_le.mp hneg, hflip⟩
    have hfull := @Documented.read_full _ _ _ hmtd t (srcBlk * g.blkSize + k * g.pgSize)
      { len := g.pgSize, ooblen := min (g.oobsize / g.pages) 64 } bufs
    have hkept := hmtd.read_keeps t (srcBlk * g.blkSize + k * g.pgSize)
      { len := g.pgSize, ooblen := min (g.oobsize / g.pages) 64 } bufs
    rw [hrd] at hfull hkept
    obtain ⟨hlen, hdat⟩ := hfull hread
    dsimp only at hlen hdat
    rw [if_neg hfail, if_neg (by omega)] at hret ⊢
    by_cases hwrote : ret < 0
    · rw [if_pos hwrote] at hret
      exact absurd hret (ne_of_lt hwrote)
    have hwdata := @Documented.write_data _ _ _ hmtd u (destBlk * g.blkSize + k * g.pgSize)
      { len := g.pgSize, ooblen := 0 } rd.bufs
    have hwoob := @Documented.write_oob _ _ _ hmtd u (destBlk * g.blkSize + k * g.pgSize)
      { len := g.pgSize, ooblen := 0 } rd.bufs
    rw [hwr] at hwdata hwoob
    rw [if_neg hwrote, hlen, ← hnext] at hret ⊢
    have hcopied := h.read hkept.1 hkept.2
    refine ih (by omega) (hcopied.succ (fun i hi => ?_) (hwdata (not_lt.mp hwrote)) ?_) ?_ hret
    · rw [hdat i hi]
      exact h.source (by omega)
    · funext page i
      -- no spare byte is in the request
      rw [hwoob (not_lt.mp hwrote) page i, if_neg (by simp)]
    · intro page hpage
      rcases Nat.lt_succ_iff_lt_or_eq.mp hpage with hlt | rfl
      · exact hbelow page hlt
      · exact not_le.mp hend

theorem bbtNandCopy_spec (hmtd : Documented mtd flash) {destBlk srcBlk : ℕ} {maxOffset : ℤ}
    {bufs : Buffers} {s : σ} (hret : (bbtNandCopy mtd g destBlk srcBlk maxOffset bufs s).1 = 0) :
    ∃ n ≤ g.pages, (∀ page < g.pages, page < n ↔ ((page * g.pgSize : ℕ) : ℤ) < maxOffset) ∧
      Copied flash g (destBlk * g.blkSize) (srcBlk * g.blkSize) n s
        (bbtNandCopy mtd g destBlk srcBlk maxOffset bufs s).2 := by
  have hcopy : Copied flash g (destBlk * g.blkSize) (srcBlk * g.blkSize) 0 s s := .refl _ _ s
  unfold bbtNandCopy at hret ⊢
  rw [← Nat.zero_mul g.pgSize] at hret ⊢
  exact copyLoop_spec hmtd g.pages (Nat.zero_add _) hcopy
    (fun page hpage => absurd hpage (Nat.not_lt_zero page)) hret

end Spec

/-! ## A driver in memory -/

section Memory

/-- The bytes of data and the spare bytes. -/
structure Memory where
  data : ℕ → BitVec 8
  oob : ℕ → ℕ → BitVec 8

/-- A driver whose operations all succeed. -/
def memoryMtd : Mtd Memory where
  readOob s addr ops bufs :=
    ({ ret := 0
       retlen := ops.len
       oobretlen := ops.ooblen
       bufs :=
        { datbuf := fun i => if i < ops.len then s.data (addr + i) else bufs.datbuf i
          oobbuf := fun i => if i < ops.ooblen then s.oob addr i else bufs.oobbuf i } }, s)
  writeOob s addr ops bufs :=
    (0,
      { data := fun a =>
        if addr ≤ a ∧ a < addr + ops.len then s.data a &&& bufs.datbuf (a - addr) else s.data a
        oob := fun page i =>
          if page = addr ∧ i < ops.ooblen then s.oob page i &&& bufs.oobbuf i else s.oob page i })

def memoryContents : Contents Memory where
  data := Memory.data
  oob := Memory.oob

theorem documented_memoryMtd : Documented memoryMtd memoryContents where
  read_full _ := ⟨rfl, fun _ hi => if_pos hi⟩
  read_keeps _ _ _ _ := ⟨rfl, rfl⟩
  write_data _ _ := rfl
  write_oob _ _ _ := rfl

theorem bbtNandCopy_memoryMtd (g : Geometry) (destBlk srcBlk : ℕ) (maxOffset : ℤ) (bufs : Buffers)
    (s : Memory) : (bbtNandCopy memoryMtd g destBlk srcBlk maxOffset bufs s).1 = 0 := by
  unfold bbtNandCopy
  generalize g.pages = pages
  generalize 0 = offset
  induction pages generalizing offset bufs s with
  | zero => rfl
  | succ pages ih =>
    rw [copyLoop_succ rfl rfl]
    split
    · rfl
    · rw [if_neg (fun hneg => absurd hneg.1 (lt_irrefl 0))]
      split
      · rfl
      · split
        case isTrue hneg => exact absurd hneg (lt_irrefl (0 : ℤ))
        case isFalse => exact ih _ _ _

/-- Pages of 2 KiB with 64 spare bytes, 64 in a block. -/
def smallPages : Geometry where
  pgShift := 11
  blkShift := 17
  oobsize := 64
  pgShift_le := by decide

/-- An erased flash, but for one spare byte of the first page of block 1. -/
def oneSpareByte : Memory where
  data _ := 0xff
  oob page i := if page = 131072 ∧ i = 1 then 0x12 else 0xff

def blankBuffers : Buffers where
  datbuf _ := 0xff
  oobbuf _ := 0

end Memory

/-! ## When the copy is one -/

section Exact

variable {σ : Type} {mtd : Mtd σ} {flash : Contents σ}

/-- After a copy that returns 0 the pages are the same if and only if the spare bytes were
the same before and the destination had room for the data. -/
theorem samePages_iff_readyFor (hmtd : Documented mtd flash) (g : Geometry) (destBlk srcBlk : ℕ)
    (maxOffset : ℤ) (bufs : Buffers) (s : σ)
    (hret : (bbtNandCopy mtd g destBlk srcBlk maxOffset bufs s).1 = 0) :
    SamePages flash g destBlk srcBlk maxOffset
        (bbtNandCopy mtd g destBlk srcBlk maxOffset bufs s).2 ↔
      ReadyFor flash g destBlk srcBlk maxOffset s := by
  obtain ⟨n, hn, hbelow, hafter⟩ := bbtNandCopy_spec hmtd hret
  refine forall_congr' fun page => forall_congr' fun hpage => forall_congr' fun hlt => ?_
  have hpagen := (hbelow page hpage).mpr hlt
  by_cases hsame : destBlk = srcBlk
  · subst hsame
    exact iff_of_true ⟨fun _ _ => rfl, fun _ _ => rfl⟩ ⟨fun _ _ => BitVec.and_self, fun _ _ => rfl⟩
  refine and_congr (forall_congr' fun i => forall_congr' fun hi => ?_) ?_
  · rw [hafter.programmed hpagen hi, hafter.untouched hsame hn hpage hi]
  · rw [hafter.oob]

/-- A copy of the block to the erased block 2. -/
theorem samePages_iff_readyFor_memory :
    (bbtNandCopy memoryMtd smallPages 2 1 131072 blankBuffers oneSpareByte).1 = 0 ∧
      (SamePages memoryContents smallPages 2 1 131072
          (bbtNandCopy memoryMtd smallPages 2 1 131072 blankBuffers oneSpareByte).2 ↔
        ReadyFor memoryContents smallPages 2 1 131072 oneSpareByte) :=
  ⟨bbtNandCopy_memoryMtd smallPages 2 1 131072 blankBuffers oneSpareByte,
    samePages_iff_readyFor documented_memoryMtd smallPages 2 1 131072 blankBuffers oneSpareByte
      (bbtNandCopy_memoryMtd smallPages 2 1 131072 blankBuffers oneSpareByte)⟩

/-- That copy succeeds and loses the spare byte. -/
theorem not_samePages_of_spareByte :
    (bbtNandCopy memoryMtd smallPages 2 1 131072 blankBuffers oneSpareByte).1 = 0 ∧
      ¬ SamePages memoryContents smallPages 2 1 131072
        (bbtNandCopy memoryMtd smallPages 2 1 131072 blankBuffers oneSpareByte).2 := by
  have hret := bbtNandCopy_memoryMtd smallPages 2 1 131072 blankBuffers oneSpareByte
  refine ⟨hret, fun hsame => ?_⟩
  obtain ⟨n, -, -, hafter⟩ := bbtNandCopy_spec documented_memoryMtd hret
  have hspare := (hsame 0 (by decide) (by decide)).2 1 (by decide)
  rw [hafter.oob] at hspare
  exact absurd hspare (by decide)

end Exact

end OpenWrt.MtkBmt.NandCopy
