/-
# The flush helper and its marks

`mwan3ct` is written in C and has its own way to spread the bits of a number over the
mask: it walks the set bits of the mask by clearing the lowest one. This module shows
that it computes what the scripts compute, and that both lists of marks that are built
on it, the one of the rulesets and the one of the flush, have every nonzero value within
the mask once. The scripts need two bits for that, the helper refuses more than sixteen.
-/

import OpenWrt.Mwan3.Marks

namespace OpenWrt.Mwan3.Mwan3ct

open OpenWrt.Lib

/-! ## The helper -/

/-- The loop of `id2mask` over the set bits of the mask. -/
def id2maskLoop (id : BitVec 32) : (fuel : ℕ) → (m bit result : BitVec 32) → BitVec 32
  | 0, _, _, result => result
  | fuel + 1, m, bit, result =>
    if m = 0 then result
    else
      id2maskLoop id fuel (m &&& (m - 1)) (bit <<< 1)
        (if id &&& bit ≠ 0 then result ||| (m &&& -m) else result)

/-- Each turn clears a bit of the mask. -/
def id2mask (id mask : BitVec 32) : BitVec 32 := id2maskLoop id 32 mask 1 0

/-- `__builtin_popcount`: the number of set bits. -/
def popcount (mask : BitVec 32) : ℕ := (List.range 32).countP mask.getLsbD

/-- Flush one mark after another, from `id` on, until a query fails. Returned are the
result and the marks that were asked for. -/
def flushLoop (flushFiltered : BitVec 32 → Int) (mask : BitVec 32) :
    (count : ℕ) → (id : BitVec 32) → Int × List (BitVec 32)
  | 0, _ => (0, [])
  | count + 1, id =>
    let markVal := id2mask id mask
    let ret := flushFiltered markVal
    if ret < 0 then (ret, [markVal])
    else
      let rest := flushLoop flushFiltered mask count (id + 1)
      (rest.1, markVal :: rest.2)

/-- `flush_any_marked`. A query is a parameter, by the mark and with what it returns. -/
def flushAnyMarked (flushFiltered : BitVec 32 → Int) (mask : BitVec 32) :
    Int × List (BitVec 32) :=
  let bitcount := popcount mask
  if 16 < bitcount then (-1, [])
  else
    let maxId := (1#32 <<< bitcount) - 1
    flushLoop flushFiltered mask maxId.toNat 1

/-! ## The lowest bit -/

/-- The bits of `m & (m - 1)` and of `m & -m`. -/
theorem exists_lowest {m : BitVec 32} (hm : m ≠ 0) :
    ∃ low < 32, m.getLsbD low = true ∧ (∀ i < low, m.getLsbD i = false) ∧
      (∀ i < 32, (m &&& (m - 1)).getLsbD i = (m.getLsbD i && decide (i ≠ low))) ∧
      ∀ i < 32, (m &&& -m).getLsbD i = decide (i = low) := by
  have hpos : 0 < m.toNat := by
    by_contra hzero
    exact hm (BitVec.eq_of_toNat_eq (by simpa using hzero))
  have hpred : (m - 1).toNat = m.toNat - 1 := by
    have hlt := m.isLt
    rw [BitVec.toNat_sub]
    simp only [BitVec.ofNat_eq_ofNat, BitVec.toNat_ofNat]
    omega
  have hneg : -m = ~~~(m - 1) := by
    apply BitVec.eq_of_toNat_eq
    have hlt := m.isLt
    rw [BitVec.toNat_neg, BitVec.toNat_not, hpred]
    omega
  obtain ⟨low, hlow, hbelow, hbits⟩ := exists_testBit_sub_one hpos
  have hsub : ∀ i, (m - 1).getLsbD i =
      if i < low then true else if i = low then false else m.getLsbD i := by
    intro i
    exact (congrArg (Nat.testBit · i) hpred).trans (hbits i)
  refine ⟨low, BitVec.lt_of_getLsbD hlow, hlow, hbelow, fun i _ => ?_, fun i hi => ?_⟩
  · rw [BitVec.getLsbD_and, hsub]
    rcases Nat.lt_trichotomy i low with hlt | rfl | hgt
    · rw [show m.getLsbD i = false from hbelow i hlt, Bool.false_and, Bool.false_and]
    · simp
    · simp [Nat.not_lt.mpr hgt.le, Nat.ne_of_gt hgt]
  · rw [BitVec.getLsbD_and, hneg, BitVec.getLsbD_not, hsub, decide_eq_true hi, Bool.true_and]
    rcases Nat.lt_trichotomy i low with hlt | rfl | hgt
    · simp [hlt, Nat.ne_of_lt hlt]
    · simp [show m.getLsbD i = true from hlow]
    · cases hm : m.getLsbD i <;> simp [Nat.not_lt.mpr hgt.le, Nat.ne_of_gt hgt]

/-! ## Spreading -/

/-- Where the loop is: the mask is cleared below a position, `bit` stands at its rank,
and the bits below are deposited. -/
structure Spread (id mask : BitVec 32) (position : ℕ) (m bit result : BitVec 32) : Prop where
  rest : ∀ i < 32, m.getLsbD i = (mask.getLsbD i && decide (position ≤ i))
  bit_eq : bit = BitVec.twoPow 32 (rank mask position)
  done : ∀ i < 32, result.getLsbD i =
    (decide (i < position) && (mask.getLsbD i && id.getLsbD (rank mask i)))

variable {id mask : BitVec 32}

/-- Nothing is left when the mask is clear from the position on. -/
theorem Spread.isDeposit {position : ℕ} {m bit result : BitVec 32}
    (h : Spread id mask position m bit result) (hm : m = 0) :
    IsDeposit mask id.toNat result := by
  intro i hi
  rw [h.done i hi]
  have hrest := h.rest i hi
  rw [hm, BitVec.ofNat_eq_ofNat, BitVec.getLsbD_zero] at hrest
  by_cases hlt : i < position
  · rw [decide_eq_true hlt, Bool.true_and]
    rfl
  · rw [decide_eq_true (not_lt.mp hlt), Bool.and_true] at hrest
    rw [← hrest, Bool.false_and, Bool.false_and, Bool.and_false]

theorem and_twoPow_ne_zero {r : ℕ} (hr : r < 32) :
    id &&& BitVec.twoPow 32 r ≠ 0 ↔ id.getLsbD r = true := by
  constructor
  · intro hne
    by_contra hclear
    apply hne
    apply BitVec.eq_of_getLsbD_eq
    intro i hi
    rw [BitVec.getLsbD_and, BitVec.getLsbD_twoPow]
    by_cases heq : r = i
    · subst heq
      rw [eq_false_of_ne_true hclear]
      simp
    · simp [heq]
  · intro hset heq
    have hbit : (id &&& BitVec.twoPow 32 r).getLsbD r = true := by
      rw [BitVec.getLsbD_and, BitVec.getLsbD_twoPow, hset]
      simp [hr]
    rw [heq] at hbit
    simp at hbit

/-- A turn deposits one bit at the lowest position of the mask that is left. -/
theorem Spread.step {position : ℕ} {m bit result : BitVec 32}
    (h : Spread id mask position m bit result) (hm : m ≠ 0) :
    ∃ next, position < next ∧
      Spread id mask next (m &&& (m - 1)) (bit <<< 1)
        (if id &&& bit ≠ 0 then result ||| (m &&& -m) else result) := by
  obtain ⟨low, hlow, hset, hbelow, hcleared, hlowest⟩ := exists_lowest hm
  have hat := h.rest low hlow
  rw [hset] at hat
  obtain ⟨hmask, hle⟩ := Bool.and_eq_true_iff.mp hat.symm
  have hle : position ≤ low := of_decide_eq_true hle
  -- between the position and the lowest bit the mask is clear
  have hclear : ∀ i, position ≤ i → i < low → mask.getLsbD i = false := by
    intro i hi hilow
    have hrest := h.rest i (by omega)
    rw [hbelow i hilow, decide_eq_true hi, Bool.and_true] at hrest
    exact hrest.symm
  have hrank : rank mask low = rank mask position := rank_eq_of_clear hle hclear
  have hrlt : rank mask position < 32 := by
    have := rank_le mask position
    omega
  refine ⟨low + 1, by omega, ⟨fun i hi => ?_, ?_, fun i hi => ?_⟩⟩
  · rw [hcleared i hi, h.rest i hi]
    rcases Nat.lt_trichotomy i low with hlt | rfl | hgt
    · by_cases hpi : position ≤ i
      · rw [hclear i hpi hlt]
        simp
      · simp [hpi, show ¬ low + 1 ≤ i by omega]
    · simp
    · simp [Nat.ne_of_gt hgt, show position ≤ i by omega, show low + 1 ≤ i by omega]
  · rw [rank_succ, hmask, hrank, h.bit_eq]
    apply BitVec.eq_of_getLsbD_eq
    intro i hi
    rw [BitVec.getLsbD_shiftLeft, BitVec.getLsbD_twoPow, BitVec.getLsbD_twoPow]
    cases i with
    | zero => simp
    | succ i =>
      by_cases hr : rank mask position = i
      · simp [hr, hi, show i < 32 by omega]
      · simp [hr]
  · have hbit : (if id &&& bit ≠ 0 then result ||| (m &&& -m) else result).getLsbD i =
        (result.getLsbD i || (decide (i = low) && id.getLsbD (rank mask low))) := by
      rw [hrank]
      have htest : id &&& BitVec.twoPow 32 (rank mask position) ≠ 0 ↔
          id.getLsbD (rank mask position) = true := and_twoPow_ne_zero hrlt
      rw [← h.bit_eq] at htest
      by_cases hid : id.getLsbD (rank mask position) = true
      · rw [if_pos (htest.mpr hid), BitVec.getLsbD_or, hlowest i hi, hid, Bool.and_true]
      · rw [if_neg (mt htest.mp hid), eq_false_of_ne_true hid, Bool.and_false, Bool.or_false]
    rw [hbit, h.done i hi]
    rcases Nat.lt_trichotomy i low with hlt | rfl | hgt
    · by_cases hpi : position ≤ i
      · rw [hclear i hpi hlt]
        simp [Nat.ne_of_lt hlt]
      · simp [Nat.not_le.mp hpi, Nat.ne_of_lt hlt, show i < low + 1 by omega]
    · simp [hmask]
    · simp [Nat.ne_of_gt hgt, show ¬ i < position by omega, show ¬ i < low + 1 by omega]

theorem Spread.loop {fuel position : ℕ} {m bit result : BitVec 32}
    (h : Spread id mask position m bit result) (hfuel : 32 ≤ fuel + position) :
    IsDeposit mask id.toNat (id2maskLoop id fuel m bit result) := by
  induction fuel generalizing position m bit result with
  | zero =>
    refine h.isDeposit (BitVec.eq_of_getLsbD_eq fun i hi => ?_)
    rw [h.rest i hi, decide_eq_false (by omega), Bool.and_false]
    simp
  | succ fuel ih =>
    unfold id2maskLoop
    split
    case isTrue hm => exact h.isDeposit hm
    case isFalse hm =>
      obtain ⟨next, hlt, hnext⟩ := h.step hm
      exact ih hnext (by omega)

theorem isDeposit_id2mask (id mask : BitVec 32) : IsDeposit mask id.toNat (id2mask id mask) := by
  have hstart : Spread id mask 0 mask 1 0 := by
    refine ⟨fun i hi => ?_, ?_, fun i hi => ?_⟩
    · simp
    · rfl
    · simp
  exact hstart.loop (by omega)

theorem id2mask_eq (id mask : BitVec 32) : id2mask id mask = Mwan3.id2mask id.toNat mask :=
  (isDeposit_id2mask id mask).unique (Mwan3.isDeposit_id2mask _ mask)

/-! ## Enumerations -/

theorem popcount_eq (mask : BitVec 32) : popcount mask = rank mask 32 := by
  have hcount : ∀ n, (List.range n).countP mask.getLsbD = rank mask n := by
    intro n
    induction n with
    | zero => rfl
    | succ n ih =>
      rw [List.range_succ, List.countP_append, ih, rank_succ, List.countP_singleton]
  exact hcount 32

/-- The numbers below two to the number of set bits are spread over all values within
the mask, each over another one. -/
theorem bijOn_id2mask (mask : BitVec 32) :
    Set.BijOn (fun id : ℕ => Mwan3.id2mask id mask) {id | id < 2 ^ popcount mask}
      {mark | mark &&& ~~~mask = 0} := by
  rw [popcount_eq]
  refine ⟨fun id _ => id2mask_and_not_mask id mask, fun a ha b hb heq => ?_, fun mark hmark => ?_⟩
  · have hb' := Mwan3.isDeposit_id2mask b mask
    rw [← show Mwan3.id2mask a mask = Mwan3.id2mask b mask from heq] at hb'
    exact (Mwan3.isDeposit_id2mask a mask).injective hb' ha hb
  · obtain ⟨id, hlt, hdeposit⟩ := exists_isDeposit hmark
    exact ⟨id, hlt, (Mwan3.isDeposit_id2mask _ mask).unique hdeposit⟩

/-- A list has every nonzero value within the mask once, and nothing else. -/
def Lists (marks : List (BitVec 32)) (mask : BitVec 32) : Prop :=
  marks.Nodup ∧ ∀ mark, mark ∈ marks ↔ mark ≠ 0 ∧ mark &&& ~~~mask = 0

/-- The positive numbers that fit, in any order, enumerate the marks. -/
theorem lists_of_ids {ids : List ℕ} (hnodup : ids.Nodup)
    (hmem : ∀ id, id ∈ ids ↔ 0 < id ∧ id < 2 ^ popcount mask) :
    Lists (ids.map fun id : ℕ => Mwan3.id2mask id mask) mask := by
  obtain ⟨hmaps, hinj, hsurj⟩ := bijOn_id2mask mask
  refine ⟨List.Nodup.map_on (fun a ha b hb heq => ?_) hnodup, fun mark => ?_⟩
  · exact hinj ((hmem a).mp ha).2 ((hmem b).mp hb).2 heq
  constructor
  · intro hin
    obtain ⟨id, hid, rfl⟩ := List.mem_map.mp hin
    obtain ⟨hpos, hlt⟩ := (hmem id).mp hid
    refine ⟨fun hzero => ?_, hmaps hlt⟩
    have heq : id = 0 := hinj hlt (Nat.two_pow_pos _) (hzero.trans (id2mask_zero mask).symm)
    omega
  · rintro ⟨hne, hwithin⟩
    obtain ⟨id, hlt, rfl⟩ := hsurj hwithin
    refine List.mem_map.mpr ⟨id, (hmem id).mpr ⟨Nat.pos_of_ne_zero fun hzero => hne ?_, hlt⟩, rfl⟩
    subst hzero
    exact id2mask_zero mask

/-! ### The list of the rulesets -/

/-- The numbers in the order of the list: those of the interfaces and then the special ones. -/
def allIds (n : ℕ) : List ℕ := (List.range (n - 4)).map (· + 1) ++ [n - 1, n - 3, n - 2]

theorem allMarks_eq (h : 2 ≤ popcount mask) :
    allMarks mask = (allIds (2 ^ popcount mask)).map fun id : ℕ => Mwan3.id2mask id mask := by
  have hfour : 4 ≤ 2 ^ popcount mask := Nat.pow_le_pow_right (n := 2) (by decide) h
  have hdefault : mmDefault mask = ((2 ^ popcount mask : ℕ) : Int) - 1 := by
    rw [mmDefault_eq, popcount_eq]
    push_cast
    rfl
  generalize 2 ^ popcount mask = n at hfour hdefault
  have hseq : seqFromOne (interfaceMax mask) =
      (List.range (n - 4)).map fun k : ℕ => ((k + 1 : ℕ) : Int) := by
    unfold seqFromOne interfaceMax
    rw [hdefault]
    congr 2
    omega
  unfold allMarks allIds mmxDefault mmxBlackhole mmxUnreachable mmBlackhole mmUnreachable
  rw [hseq, hdefault, List.map_append, List.map_map, List.map_map]
  congr 1
  have h₁ : ((n : ℕ) : Int) - 1 = ((n - 1 : ℕ) : Int) := by omega
  have h₂ : ((n : ℕ) : Int) - 1 - 2 = ((n - 3 : ℕ) : Int) := by omega
  have h₃ : ((n : ℕ) : Int) - 1 - 1 = ((n - 2 : ℕ) : Int) := by omega
  rw [h₂, h₃, h₁]
  rfl

theorem nodup_allIds {n : ℕ} (h : 4 ≤ n) : (allIds n).Nodup := by
  unfold allIds
  refine List.nodup_append'.mpr ⟨?_, ?_, ?_⟩
  · exact List.nodup_range.map fun a b hab => Nat.succ.inj hab
  · simp
    omega
  · intro id hid hspecial
    obtain ⟨k, hk, rfl⟩ := List.mem_map.mp hid
    have hk := List.mem_range.mp hk
    simp at hspecial
    omega

theorem mem_allIds {n id : ℕ} (h : 4 ≤ n) : id ∈ allIds n ↔ 0 < id ∧ id < n := by
  unfold allIds
  simp only [List.mem_append, List.mem_map, List.mem_range, List.mem_cons, List.not_mem_nil,
    or_false]
  constructor
  · rintro (⟨k, hk, rfl⟩ | h) <;> omega
  · intro hid
    by_cases hlow : id ≤ n - 4
    · exact .inl ⟨id - 1, by omega, by omega⟩
    · right
      omega

/-- The list of the rulesets is right for masks of at least two bits. -/
theorem lists_allMarks_iff : Lists (allMarks mask) mask ↔ 2 ≤ popcount mask := by
  constructor
  · intro hlists
    by_contra hfew
    -- with fewer bits the number of a special mark is zero
    have hzero : (0 : BitVec 32) ∈ allMarks mask := by
      have hcases : popcount mask = 0 ∨ popcount mask = 1 := by omega
      have hdefault := mmDefault_eq mask
      rw [← popcount_eq] at hdefault
      unfold allMarks
      refine List.mem_append_right _ ?_
      rcases hcases with hnone | hone
      · rw [hnone] at hdefault
        have : mmxDefault mask = 0 := by
          rw [mmxDefault, hdefault]
          exact id2mask_zero mask
        rw [this]
        exact List.mem_cons_self
      · rw [hone] at hdefault
        have : mmxUnreachable mask = 0 := by
          rw [mmxUnreachable, mmUnreachable, hdefault]
          exact id2mask_zero mask
        rw [this]
        simp
    exact ((hlists.2 0).mp hzero).1 rfl
  · intro h
    have hfour : 4 ≤ 2 ^ popcount mask := Nat.pow_le_pow_right (n := 2) (by decide) h
    rw [allMarks_eq h]
    exact lists_of_ids (nodup_allIds hfour) fun id => mem_allIds hfour

/-! ### The list of the flush -/

variable {flush : BitVec 32 → Int}

/-- Where no query fails the loop asks for one mark after another. -/
theorem flushLoop_of_ok (hok : ∀ mark, 0 ≤ flush mark) (count : ℕ) (id : BitVec 32) :
    flushLoop flush mask count id =
      (0, (List.range count).map fun k => id2mask (id + BitVec.ofNat 32 k) mask) := by
  induction count generalizing id with
  | zero => rfl
  | succ count ih =>
    unfold flushLoop
    dsimp only
    rw [if_neg (not_lt.mpr (hok _)), ih, List.range_succ_eq_map, List.map_cons, List.map_map]
    have hnext : ∀ k : ℕ, id + 1 + BitVec.ofNat 32 k = id + BitVec.ofNat 32 (k + 1) := by
      intro k
      rw [BitVec.add_assoc]
      congr 1
      apply BitVec.eq_of_toNat_eq
      simp [Nat.add_comm]
    simp only [hnext]
    congr 2
    simp

/-- Up to sixteen bits the flush asks for every nonzero mark once. -/
theorem flushAnyMarked_of_ok (hok : ∀ mark, 0 ≤ flush mark) (h : popcount mask ≤ 16) :
    (flushAnyMarked flush mask).1 = 0 ∧ Lists (flushAnyMarked flush mask).2 mask := by
  have hsmall : 2 ^ popcount mask ≤ 2 ^ 16 := Nat.pow_le_pow_right (by decide) h
  have hpos : 0 < 2 ^ popcount mask := Nat.two_pow_pos _
  have hmax : ((1#32 <<< popcount mask) - 1).toNat = 2 ^ popcount mask - 1 := by
    rw [BitVec.toNat_sub, BitVec.toNat_shiftLeft, Nat.shiftLeft_eq]
    simp only [BitVec.ofNat_eq_ofNat, BitVec.toNat_ofNat]
    omega
  have hrun : flushAnyMarked flush mask =
      (0, ((List.range (2 ^ popcount mask - 1)).map (· + 1)).map fun id : ℕ =>
        Mwan3.id2mask id mask) := by
    unfold flushAnyMarked
    dsimp only
    rw [if_neg (by omega), hmax, flushLoop_of_ok hok, List.map_map]
    congr 1
    refine List.map_congr_left fun k hk => ?_
    have hk := List.mem_range.mp hk
    have hid : (1 + BitVec.ofNat 32 k : BitVec 32).toNat = k + 1 := by
      rw [BitVec.toNat_add]
      simp only [BitVec.ofNat_eq_ofNat, BitVec.toNat_ofNat]
      omega
    rw [id2mask_eq, hid]
    rfl
  rw [hrun]
  refine ⟨rfl, lists_of_ids ?_ fun id => ?_⟩
  · exact List.nodup_range.map fun a b hab => Nat.succ.inj hab
  · rw [List.mem_map]
    constructor
    · rintro ⟨k, hk, rfl⟩
      have hk := List.mem_range.mp hk
      omega
    · intro hid
      exact ⟨id - 1, List.mem_range.mpr (by omega), by omega⟩

theorem flushAnyMarked_of_wide (h : 16 < popcount mask) : flushAnyMarked flush mask = (-1, []) := by
  unfold flushAnyMarked
  exact if_pos h

/-! ## Marks and masks -/

/-- Both programs spread numbers alike, the numbers that fit one to one over the values
within the mask. The rulesets list every nonzero one once for masks of at least two bits,
the flush for masks of at most sixteen, and it refuses the others. -/
theorem marks_of_mask (mask : BitVec 32) :
    (∀ id : BitVec 32, id2mask id mask = Mwan3.id2mask id.toNat mask) ∧
      Set.BijOn (fun id : ℕ => Mwan3.id2mask id mask) {id | id < 2 ^ popcount mask}
        {mark | mark &&& ~~~mask = 0} ∧
      (Lists (allMarks mask) mask ↔ 2 ≤ popcount mask) ∧
      ∀ flush : BitVec 32 → Int, (∀ mark, 0 ≤ flush mark) →
        if popcount mask ≤ 16 then
          (flushAnyMarked flush mask).1 = 0 ∧ Lists (flushAnyMarked flush mask).2 mask
        else flushAnyMarked flush mask = (-1, []) := by
  refine ⟨fun id => id2mask_eq id mask, bijOn_id2mask mask, lists_allMarks_iff, fun flush hok => ?_⟩
  split
  case isTrue h => exact flushAnyMarked_of_ok hok h
  case isFalse h => exact flushAnyMarked_of_wide (not_le.mp h)

/-- A mask of one bit is listed twice, and none of seventeen is flushed. -/
theorem not_lists_of_oneBit :
    allMarks 0x100 = [0x100, 0x100, 0] ∧ ¬ Lists (allMarks 0x100) 0x100 ∧
      flushAnyMarked (fun _ => 0) 0x1ffff = (-1, []) := by
  have hmarks : allMarks 0x100 = [0x100, 0x100, 0] := by decide +kernel
  refine ⟨hmarks, fun hlists => ?_, by decide +kernel⟩
  rw [hmarks] at hlists
  exact absurd hlists.1 (by decide)

end OpenWrt.Mwan3.Mwan3ct
