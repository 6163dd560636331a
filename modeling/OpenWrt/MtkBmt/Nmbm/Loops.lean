/-
# The loops of NMBM

Two loops are not bounded by a count. The search for the signature goes down from the
end of the chip to a limit, in 32-bit words. A limit of zero is below no address, so
the search then ends only at a signature, and without one goes on from the highest
address. The rounds of an update are repeated while a block is lost.
-/

import OpenWrt.Lib.Loop
import OpenWrt.MtkBmt.Nmbm.Stored

namespace OpenWrt.MtkBmt.Nmbm

open OpenWrt.Lib OpenWrt.Lib.Loop

/-! ## The signature -/

section Search

variable {σ : Type} (g : Chip) (mtd : Mtd σ)

def bytes (words : List Word) : List (BitVec 8) :=
  words.flatMap fun word : BitVec 32 =>
    [word.setWidth 8, (word >>> 8).setWidth 8, (word >>> 16).setWidth 8, (word >>> 24).setWidth 8]

/-- The checksum of bytes. -/
def nmbmCrc32 (crc : Word) (data : List (BitVec 8)) : Word :=
  data.foldl (fun crc byte => crcShift 8 (crc ^^^ byte.setWidth 32)) crc

/-- Whether a structure of `size` bytes has a valid header, the first four words. -/
def checkHeader (data : List Word) (size : ℕ) : Bool :=
  let headerSize := (data.getD 2 0).toNat
  if size < headerSize then false
  else
    let nhdr := bytes ((data.take 4).set 3 0)
    let newChecksum := nmbmCrc32 0 nhdr
    let newChecksum :=
      if 16 < headerSize then
        nmbmCrc32 newChecksum (((bytes data).drop 16).take (headerSize - 16))
      else newChecksum
    data.getD 3 0 == newChecksum

/-- Read words from a page on; `fuel` pages suffice. Correctable pages count as read. -/
def readDataFrom (s : σ) (ba : ℕ) : (fuel page size : ℕ) → Except ℤ (List Word)
  | 0, _, _ => .ok []
  | fuel + 1, page, size =>
    if size = 0 then .ok []
    else
      let (ret, data) :=
        readPhysPage g mtd s (ba + page / g.pagesPerBlk) (page % g.pagesPerBlk)
      if ret < 0 then .error ret
      else
        match readDataFrom s ba fuel (page + 1) (size - g.pgWords) with
        | .error ret => .error ret
        | .ok rest => .ok (data.take (min size g.pgWords) ++ rest)

/-- Read the words at the start of a page. -/
def readData (s : σ) (ba page size : ℕ) : Except ℤ (List Word) :=
  readDataFrom g mtd s ba size page size

def signatureWords : ℕ := 12

def Signature.ofWords (words : List Word) : Signature where
  magic := words.getD 0 0
  version := words.getD 1 0
  size := words.getD 2 0
  checksum := words.getD 3 0
  nandSizeLow := words.getD 4 0
  nandSizeHigh := words.getD 5 0
  blockSize := words.getD 6 0
  pageSize := words.getD 7 0
  spareSize := words.getD 8 0
  mgmtStartPb := words.getD 9 0
  maxTryCount := words.getD 10 0
  tail := words.getD 11 0

def signatureInPage (s : σ) (ba page : ℕ) : Option Signature :=
  match readData g mtd s ba page signatureWords with
  | .error _ => none
  | .ok words =>
    if ¬ checkHeader words (4 * signatureWords) then none
    else if words.getD 0 0 = magicSignature then some (.ofWords words)
    else none

/-- The signature in a block that is not marked bad, in the first page with a valid
one. -/
def signatureIn (s : σ) (ba : ℕ) : Option Signature :=
  if mtd.blockIsBad s ba then none
  else (List.range g.pagesPerBlk).findSome? (signatureInPage g mtd s ba)

def Chip.count : Word := BitVec.ofNat 32 g.blockCount

/-- Where the search ends, in 32-bit words. -/
def Chip.searchLimit : Word :=
  let limit := g.count / 16 * (16 - BitVec.ofNat 32 g.maxRatio)
  let maxReservedBlocks := BitVec.ofNat 32 g.maxReservedBlocks
  if maxReservedBlocks ≠ 0 ∧ maxReservedBlocks < g.count - limit then g.count - maxReservedBlocks
  else limit

/-- A round of the search: one block down. -/
def findSignatureRound (s : σ) (ba : Word) : Word ⊕ Option (Word × Signature) :=
  if ba < g.searchLimit then .inr none
  else
    let ba := ba - 1
    match signatureIn g mtd s ba.toNat with
    | some signature => .inr (some (ba, signature))
    | none => .inl ba

/-- The blocks that the first rounds from `ba` look at. -/
def visited (s : σ) : ℕ → Word → List Word
  | 0, _ => []
  | n + 1, ba =>
    if ba < g.searchLimit then []
    else
      (ba - 1) ::
        match findSignatureRound g mtd s ba with
        | .inl ba => visited s n ba
        | .inr _ => []

/-- The search ends, and looks at blocks of the chip only, at none of them twice. -/
structure FindSignatureEnds (s : σ) : Prop where
  ends : Ends (findSignatureRound g mtd s) g.count
  once : ∀ n, (visited g mtd s n g.count).Nodup
  within : ∀ n, ∀ ba ∈ visited g mtd s n g.count, ba.toNat < g.blockCount

/-- Something stops the search within the chip: a limit, or a signature. -/
def SearchStops (s : σ) : Prop :=
  g.searchLimit ≠ 0 ∨ ∃ ba < g.blockCount, (signatureIn g mtd s ba).isSome

variable {g mtd} {s : σ}

theorem Chip.toNat_count (g : Chip) : g.count.toNat = g.blockCount := by
  have hlt := g.blockCount_lt
  unfold count
  simp only [BitVec.toNat_ofNat]
  omega

/-- The search is above the limit and something stops it below. -/
def Stopped (g : Chip) (mtd : Mtd σ) (s : σ) (ba : Word) : Prop :=
  ba.toNat ≤ g.blockCount ∧
    (g.searchLimit ≠ 0 ∨ ∃ k < ba.toNat, (signatureIn g mtd s k).isSome)

/-- A round that goes on is one block further down. -/
theorem Stopped.round {ba : Word} (h : Stopped g mtd s ba) (hlimit : ¬ ba < g.searchLimit) :
    (ba - 1).toNat + 1 = ba.toNat ∧
      (signatureIn g mtd s (ba - 1).toNat = none → Stopped g mtd s (ba - 1)) := by
  have hpos : 0 < ba.toNat := by
    rcases h.2 with hne | ⟨k, hk, -⟩
    · have hlow : 0 < g.searchLimit.toNat := by
        rw [Nat.pos_iff_ne_zero]
        intro hzero
        exact hne (BitVec.eq_of_toNat_eq hzero)
      have hle : g.searchLimit.toNat ≤ ba.toNat := by
        rw [BitVec.lt_def] at hlimit
        omega
      omega
    · omega
  have hdown : (ba - 1).toNat + 1 = ba.toNat := by
    have hlt := ba.isLt
    bv_omega
  refine ⟨hdown, fun hnone => ⟨by have := h.1; omega, h.2.imp id ?_⟩⟩
  rintro ⟨k, hk, hsome⟩
  refine ⟨k, ?_, hsome⟩
  have hne : k ≠ (ba - 1).toNat := by
    rintro rfl
    rw [hnone] at hsome
    cases hsome
  omega

theorem findSignatureRound_inl {ba next : Word} (h : findSignatureRound g mtd s ba = .inl next) :
    ¬ ba < g.searchLimit ∧ next = ba - 1 ∧ signatureIn g mtd s (ba - 1).toNat = none := by
  unfold findSignatureRound at h
  split at h
  case isTrue => cases h
  case isFalse hlimit =>
    dsimp only at h
    split at h
    case h_1 => cases h
    case h_2 hnone =>
      cases h
      exact ⟨hlimit, rfl, hnone⟩

theorem Stopped.ends {ba : Word} (h : Stopped g mtd s ba) :
    Ends (findSignatureRound g mtd s) ba := by
  apply ends_of_measure (Stopped g mtd s) BitVec.toNat h
  intro x y hx hround
  obtain ⟨hlimit, rfl, hnone⟩ := findSignatureRound_inl hround
  obtain ⟨hdown, hnext⟩ := hx.round hlimit
  exact ⟨hnext hnone, by omega⟩

/-- The blocks looked at go down. -/
theorem Stopped.visited {ba : Word} (h : Stopped g mtd s ba) (n : ℕ) :
    (visited g mtd s n ba).Nodup ∧ ∀ k ∈ visited g mtd s n ba, k.toNat < ba.toNat := by
  induction n generalizing ba with
  | zero => exact ⟨List.nodup_nil, fun k hk => nomatch hk⟩
  | succ n ih =>
    unfold Nmbm.visited
    split
    case isTrue => exact ⟨List.nodup_nil, fun k hk => nomatch hk⟩
    case isFalse hlimit =>
      obtain ⟨hdown, hnext⟩ := h.round hlimit
      cases hround : findSignatureRound g mtd s ba with
      | inr found =>
        refine ⟨by simp, fun k hk => ?_⟩
        rw [List.mem_singleton.mp hk]
        omega
      | inl next =>
        obtain ⟨-, rfl, hnone⟩ := findSignatureRound_inl hround
        obtain ⟨hnodup, hbelow⟩ := ih (hnext hnone)
        refine ⟨List.nodup_cons.mpr ⟨fun hmem => ?_, hnodup⟩, fun k hk => ?_⟩
        · exact absurd (hbelow _ hmem) (lt_irrefl _)
        · rcases List.mem_cons.mp hk with rfl | hk
          · omega
          · exact (hbelow k hk).trans (by omega)

/-- Without a limit and a signature the search leaves the chip at its lower end. -/
theorem mem_visited_of_not_stops (hlimit : g.searchLimit = 0)
    (hnone : ∀ k < g.blockCount, signatureIn g mtd s k = none) {ba : Word}
    (hle : ba.toNat ≤ g.blockCount) :
    ∃ n, BitVec.allOnes 32 ∈ visited g mtd s n ba := by
  have habove : ∀ ba : Word, ¬ ba < g.searchLimit := by
    intro ba
    rw [hlimit, BitVec.lt_def]
    simp
  induction hk : ba.toNat generalizing ba with
  | zero =>
    have hba : ba = 0 := BitVec.eq_of_toNat_eq hk
    refine ⟨1, ?_⟩
    unfold Nmbm.visited
    rw [if_neg (habove ba), hba]
    exact List.mem_cons_self
  | succ k ih =>
    have hdown : (ba - 1).toNat = k := by
      bv_omega
    have hround : findSignatureRound g mtd s ba = .inl (ba - 1) := by
      unfold findSignatureRound
      rw [if_neg (habove ba)]
      simp only [hnone (ba - 1).toNat (by omega)]
    obtain ⟨n, hmem⟩ := ih (by omega) hdown
    refine ⟨n + 1, ?_⟩
    unfold Nmbm.visited
    rw [if_neg (habove ba), hround]
    exact List.mem_cons_of_mem _ hmem

/-- The search ends within the chip exactly when something stops it there. -/
theorem findSignatureEnds_iff : FindSignatureEnds g mtd s ↔ SearchStops g mtd s := by
  constructor
  · intro h
    by_contra hstops
    unfold SearchStops at hstops
    push Not at hstops
    obtain ⟨n, hmem⟩ : ∃ n, BitVec.allOnes 32 ∈ visited g mtd s n g.count :=
      mem_visited_of_not_stops hstops.1 (fun k hk => by simpa using hstops.2 k hk) g.toNat_count.le
    have hlt := h.within n _ hmem
    have hcount := g.blockCount_lt
    simp only [BitVec.toNat_allOnes] at hlt
    omega
  · intro h
    have hstopped : Stopped g mtd s g.count := by
      refine ⟨g.toNat_count.le, h.imp id ?_⟩
      rintro ⟨ba, hba, hsome⟩
      exact ⟨ba, g.toNat_count.symm ▸ hba, hsome⟩
    refine ⟨hstopped.ends, fun n => (hstopped.visited n).1, fun n ba hmem => ?_⟩
    rw [← g.toNat_count]
    exact (hstopped.visited n).2 ba hmem

end Search

/-! ## The rounds of an update -/

section Rounds

variable {σ : Type} (g : Chip) (crc : Crc) (mtd : Mtd σ)

/-- A round of an update, while there is something to write. -/
def updateInfoTableRound (x : Sys σ) : Sys σ ⊕ (Bool × Sys σ) :=
  if x.ni.Changed then
    match updateInfoTableOnce g crc mtd false x with
    | (false, x) => .inr (false, x)
    | (true, x) => .inl x
  else .inr (true, x)

/-- An update ends, and a round that is repeated has lost a good block. -/
structure UpdateEnds (x : Sys σ) : Prop where
  ends : Ends (updateInfoTableRound g crc mtd) x
  decreases : ∀ y z, Reaches (updateInfoTableRound g crc mtd) x y →
    updateInfoTableRound g crc mtd y = .inl z → z.ni.Changed →
      z.ni.goodCount g.blockCount < y.ni.goodCount g.blockCount

variable {g crc mtd}

theorem updateInfoTableRound_inl {x y : Sys σ} (h : updateInfoTableRound g crc mtd x = .inl y) :
    x.ni.Changed ∧ updateInfoTableOnce g crc mtd false x = (true, y) := by
  unfold updateInfoTableRound at h
  split at h
  case isFalse => cases h
  case isTrue hchanged =>
    split at h
    case h_1 => cases h
    case h_2 z honce =>
      cases h
      exact ⟨hchanged, honce⟩

theorem updateInfoTableRound_top {x y : Sys σ} (h : updateInfoTableRound g crc mtd x = .inl y) :
    y.ni.mappingBlocksTopBa = x.ni.mappingBlocksTopBa := by
  obtain ⟨hchanged, honce⟩ := updateInfoTableRound_inl h
  have hworn := (updateInfoTableOnce_finished g crc mtd hchanged).found.worn
  rw [honce] at hworn
  exact hworn.top

theorem updateEnds {x : Sys σ} (htop : x.ni.mappingBlocksTopBa ≤ g.blockCount) :
    UpdateEnds g crc mtd x where
  ends := by
    -- a round that follows a repeated one has fewer good blocks, the last one less to write
    apply ends_of_measure (fun x : Sys σ => x.ni.mappingBlocksTopBa ≤ g.blockCount)
      (fun x => if x.ni.Changed then x.ni.goodCount g.blockCount + 1 else 0) htop
    intro x y hx hround
    obtain ⟨hchanged, honce⟩ := updateInfoTableRound_inl hround
    refine ⟨(updateInfoTableRound_top hround).trans_le hx, ?_⟩
    rw [if_pos hchanged]
    by_cases hagain : y.ni.Changed
    · rw [if_pos hagain]
      have := goodCount_lt_of_updateInfoTableOnce hx hchanged honce hagain
      omega
    · rw [if_neg hagain]
      omega
  decreases y z hreach hround hagain := by
    have hy : y.ni.mappingBlocksTopBa ≤ g.blockCount :=
      hreach.invariant (P := fun x => x.ni.mappingBlocksTopBa ≤ g.blockCount)
        (fun a b ha hab => (updateInfoTableRound_top hab).trans_le ha) htop
    obtain ⟨hchanged, honce⟩ := updateInfoTableRound_inl hround
    exact goodCount_lt_of_updateInfoTableOnce hy hchanged honce hagain

/-- The search for the signature and the rounds of every update end within their bounds
exactly when something stops the search in the chip. -/
theorem loops_end_iff (g : Chip) (crc : Crc) (mtd : Mtd σ) (s : σ) :
    (FindSignatureEnds g mtd s ∧
      ∀ x : Sys σ, x.ni.mappingBlocksTopBa ≤ g.blockCount → UpdateEnds g crc mtd x) ↔
        SearchStops g mtd s := by
  constructor
  · rintro ⟨hfind, -⟩
    exact findSignatureEnds_iff.mp hfind
  · intro hstops
    exact ⟨findSignatureEnds_iff.mpr hstops, fun x htop => updateEnds htop⟩

end Rounds

/-! ## A chip that is all management -/

section Whole

/-- The small chip with all its sixteenths reserved, without a bound. -/
def wholeChip : Chip := { smallGeometry.toChip with maxRatio := 16, maxReservedBlocks := 0 }

/-- On the erased chip the search leaves its lower end. -/
theorem not_loops_end_of_whole :
    ¬ (FindSignatureEnds wholeChip smallMtd smallChip.dev ∧
      ∀ x : Sys (ℕ → ℕ → Page), x.ni.mappingBlocksTopBa ≤ wholeChip.blockCount →
        UpdateEnds wholeChip crc32Le smallMtd x) := by
  have hnone : ∀ ba < wholeChip.blockCount,
      ¬ (signatureIn wholeChip smallMtd smallChip.dev ba).isSome := by decide +kernel
  have hlimit : wholeChip.searchLimit = 0 := by decide +kernel
  rintro ⟨hfind, -⟩
  rcases findSignatureEnds_iff.mp hfind with hne | ⟨ba, hba, hsome⟩
  · exact hne hlimit
  · exact hnone ba hba hsome

end Whole

end OpenWrt.MtkBmt.Nmbm
