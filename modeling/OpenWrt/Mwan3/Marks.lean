/-
# The marks of mwan3

Interfaces are numbered from 1, and a number becomes a firewall mark by spreading
its bits over the set bits of the configured mask. The three largest numbers
that fit are the default, unreachable and blackhole marks. The rulesets
enumerate all marks; this module proves that the enumeration has every nonzero
value within the mask, whatever the mask.
-/

import OpenWrt.Lib.Bits

namespace OpenWrt.Mwan3

open OpenWrt.Lib

/-! ## Spreading and counting bits -/

/-- One turn of the loop of `mwan3_id2mask`, on its `bit_val` and `result`. -/
def id2maskStep (id : Int) (mask : BitVec 32) (acc : ℕ × BitVec 32) (bitMsk : ℕ) :
    ℕ × BitVec 32 :=
  if mask.getLsbD bitMsk then
    (acc.1 + 1, if id.testBit acc.1 then acc.2 ||| BitVec.twoPow 32 bitMsk else acc.2)
  else acc

/-- `mwan3_id2mask`: spread the bits of the number over the set bits of the
mask. -/
def id2mask (id : Int) (mask : BitVec 32) : BitVec 32 :=
  ((List.range 32).foldl (id2maskStep id mask) (0, 0#32)).2

/-- The loop of `mwan3_count_one_bits`; each turn makes the number smaller. -/
def countOneBitsLoop : ℕ → ℕ → ℕ → ℕ
  | 0, _, count => count
  | fuel + 1, n, count =>
    if 0 < n then countOneBitsLoop fuel (n &&& (n - 1)) (count + 1) else count

/-- `mwan3_count_one_bits`. -/
def countOneBits (n : ℕ) : ℕ :=
  countOneBitsLoop n n 0

/-! ## The constants of `mwan3_init` -/

/-- `mmdefault`. -/
def mmDefault (mask : BitVec 32) : Int :=
  2 ^ countOneBits mask.toNat - 1

/-- `MWAN3_INTERFACE_MAX`. -/
def interfaceMax (mask : BitVec 32) : Int :=
  mmDefault mask - 3

/-- `MM_BLACKHOLE`. -/
def mmBlackhole (mask : BitVec 32) : Int :=
  mmDefault mask - 2

/-- `MM_UNREACHABLE`. -/
def mmUnreachable (mask : BitVec 32) : Int :=
  mmDefault mask - 1

/-- `MMX_DEFAULT`. -/
def mmxDefault (mask : BitVec 32) : BitVec 32 :=
  id2mask (mmDefault mask) mask

/-- `MMX_BLACKHOLE`. -/
def mmxBlackhole (mask : BitVec 32) : BitVec 32 :=
  id2mask (mmBlackhole mask) mask

/-- `MMX_UNREACHABLE`. -/
def mmxUnreachable (mask : BitVec 32) : BitVec 32 :=
  id2mask (mmUnreachable mask) mask

/-- `seq 1 last`, which is empty for a last number below 1. -/
def seqFromOne (last : Int) : List Int :=
  (List.range last.toNat).map fun (k : ℕ) => (k : Int) + 1

/-- `mwan3_all_marks`. -/
def allMarks (mask : BitVec 32) : List (BitVec 32) :=
  (seqFromOne (interfaceMax mask)).map (id2mask · mask) ++
    [mmxDefault mask, mmxBlackhole mask, mmxUnreachable mask]

/-! ## What they compute -/

/-- What one turn adds to the result. -/
theorem getLsbD_id2maskStep (id : Int) (mask : BitVec 32) (acc : ℕ × BitVec 32)
    {bitMsk i : ℕ} (hi : i < 32) :
    (id2maskStep id mask acc bitMsk).2.getLsbD i =
      (acc.2.getLsbD i ||
        (decide (i = bitMsk) && (mask.getLsbD bitMsk && id.testBit acc.1))) := by
  have hcomm : decide (bitMsk = i) = decide (i = bitMsk) := decide_eq_decide.mpr eq_comm
  cases hbit : mask.getLsbD bitMsk with
  | false => simp [id2maskStep, hbit]
  | true =>
    cases hset : id.testBit acc.1 with
    | false => simp [id2maskStep, hbit, hset]
    | true =>
      have hwidth : bitMsk < 32 := BitVec.lt_of_getLsbD hbit
      rw [id2maskStep, if_pos hbit, if_pos hset, BitVec.getLsbD_or, BitVec.getLsbD_twoPow,
        hcomm]
      simp [hi, hwidth]

/-- After the turns for the bits below `n`, `bit_val` is the rank of `n` and the
result is the deposit so far. -/
theorem foldl_id2maskStep (id : Int) (mask : BitVec 32) (n : ℕ) :
    ((List.range n).foldl (id2maskStep id mask) (0, 0#32)).1 = rank mask n ∧
      ∀ i < 32, ((List.range n).foldl (id2maskStep id mask) (0, 0#32)).2.getLsbD i =
        (decide (i < n) && (mask.getLsbD i && id.testBit (rank mask i))) := by
  induction n with
  | zero => exact ⟨rfl, fun i hi => by simp⟩
  | succ n ih =>
    obtain ⟨hrank, hbits⟩ := ih
    rw [List.range_succ, List.foldl_append, List.foldl_cons, List.foldl_nil]
    refine ⟨?_, fun i hi => ?_⟩
    · rw [rank_succ, ← hrank, id2maskStep]
      split <;> rfl
    · rw [getLsbD_id2maskStep id mask _ hi, hbits i hi, hrank]
      rcases Nat.lt_trichotomy i n with hlt | rfl | hgt
      · simp [hlt, Nat.lt_succ_of_lt hlt, Nat.ne_of_lt hlt]
      · simp
      · simp [Nat.not_lt.mpr (Nat.le_of_lt hgt), Nat.ne_of_gt hgt,
          show ¬ i < n + 1 by omega]

theorem isDeposit_id2mask (id : Int) (mask : BitVec 32) :
    IsDeposit mask id (id2mask id mask) := by
  intro i hi
  simpa [id2mask, hi] using (foldl_id2maskStep id mask 32).2 i hi

/-- The loop counts the set bits, given as many turns as the number allows. -/
theorem countOneBitsLoop_eq {fuel n w : ℕ} (hfuel : n ≤ fuel) (hn : n < 2 ^ w) (count : ℕ) :
    countOneBitsLoop fuel n count = count + Nat.count (fun i => n.testBit i = true) w := by
  induction fuel generalizing n count with
  | zero =>
    obtain rfl : n = 0 := by omega
    simp [countOneBitsLoop]
  | succ fuel ih =>
    rw [countOneBitsLoop]
    split
    case isTrue hpos =>
      obtain ⟨low, hlow, hbits⟩ := exists_testBit_and_sub_one hpos
      have hle : n &&& (n - 1) ≤ n - 1 := Nat.and_le_right
      have hw : low < w := by
        by_contra hge
        have hpow : 2 ^ w ≤ 2 ^ low := Nat.pow_le_pow_right (by decide) (by omega)
        simp [Nat.testBit_lt_two_pow (show n < 2 ^ low by omega)] at hlow
      have hcount : Nat.count (fun i => n.testBit i = true) w =
          Nat.count (fun i => (n &&& (n - 1)).testBit i = true) w + 1 :=
        count_eq_succ_of_erase hlow hw (fun i => by rw [hbits i]; simp)
      rw [ih (by omega) (by omega), hcount]
      omega
    case isFalse hzero =>
      obtain rfl : n = 0 := by omega
      simp

variable (mask : BitVec 32)

theorem countOneBits_eq_rank : countOneBits mask.toNat = rank mask 32 := by
  unfold countOneBits
  rw [countOneBitsLoop_eq (Nat.le_refl _) mask.isLt, Nat.zero_add]
  rfl

theorem mmDefault_eq : mmDefault mask = 2 ^ rank mask 32 - 1 := by
  unfold mmDefault
  rw [countOneBits_eq_rank]

/-! ## The marks and the mask -/

@[simp]
theorem id2mask_and_mask (id : Int) (mask : BitVec 32) :
    id2mask id mask &&& mask = id2mask id mask :=
  (isDeposit_id2mask id mask).and_eq_self

@[simp]
theorem id2mask_and_not_mask (id : Int) (mask : BitVec 32) : id2mask id mask &&& ~~~mask = 0 :=
  (isDeposit_id2mask id mask).and_not_eq_zero

@[simp]
theorem id2mask_zero : id2mask 0 mask = 0 := by
  apply BitVec.eq_of_getLsbD_eq
  intro i hi
  rw [isDeposit_id2mask 0 mask i hi]
  simp [Int.testBit]

theorem and_not_mask_of_mem_allMarks {mask mark : BitVec 32} (h : mark ∈ allMarks mask) :
    mark &&& ~~~mask = 0 := by
  simp only [allMarks, List.mem_append, List.mem_map, List.mem_cons, List.not_mem_nil,
    or_false] at h
  rcases h with ⟨id, -, rfl⟩ | rfl | rfl | rfl <;> exact id2mask_and_not_mask _ mask

theorem mem_seqFromOne {id last : Int} : id ∈ seqFromOne last ↔ 1 ≤ id ∧ id ≤ last := by
  simp only [seqFromOne, List.mem_map, List.mem_range]
  constructor
  · rintro ⟨k, hk, rfl⟩
    omega
  · rintro ⟨hlow, hhigh⟩
    exact ⟨(id - 1).toNat, by omega, by omega⟩

/-- The enumeration has every nonzero value within the mask. -/
theorem mem_allMarks {mask value : BitVec 32} (hvalue : value &&& ~~~mask = 0)
    (hne : value ≠ 0) : value ∈ allMarks mask := by
  obtain ⟨number, hlt, hdeposit⟩ := exists_isDeposit hvalue
  have heq : ∀ {id : Int}, id = (number : Int) → id2mask id mask = value := by
    rintro id rfl
    exact (isDeposit_id2mask _ mask).unique hdeposit
  have hpos : 0 < number := by
    by_contra hzero
    obtain rfl : number = 0 := by omega
    exact hne ((heq rfl).symm.trans (id2mask_zero mask))
  have hdefault := mmDefault_eq mask
  have hltInt : (number : Int) < 2 ^ rank mask 32 := by exact_mod_cast hlt
  simp only [allMarks, List.mem_append, List.mem_map, List.mem_cons, List.not_mem_nil,
    or_false]
  by_cases hiface : (number : Int) ≤ interfaceMax mask
  · exact .inl ⟨number, mem_seqFromOne.mpr ⟨by omega, hiface⟩, heq rfl⟩
  · -- one of the three specials
    unfold interfaceMax at hiface
    have hspecial : mmDefault mask = number ∨ mmBlackhole mask = number ∨
        mmUnreachable mask = number := by
      unfold mmBlackhole mmUnreachable
      omega
    rcases hspecial with h | h | h
    · exact .inr (.inl (heq h).symm)
    · exact .inr (.inr (.inl (heq h).symm))
    · exact .inr (.inr (.inr (heq h).symm))

/-- The default mark is the mask itself. -/
@[simp]
theorem mmxDefault_eq_mask : mmxDefault mask = mask := by
  apply BitVec.eq_of_getLsbD_eq
  intro i hi
  unfold mmxDefault
  rw [isDeposit_id2mask _ mask i hi]
  by_cases hbit : mask.getLsbD i = true
  · have hrank := rank_lt hbit hi
    have hcast : mmDefault mask = ((2 ^ rank mask 32 - 1 : ℕ) : Int) := by
      rw [mmDefault_eq, Nat.cast_sub Nat.one_le_two_pow]
      push_cast
      rfl
    rw [hbit, hcast, Bool.true_and]
    exact (Nat.testBit_two_pow_sub_one ..).trans (decide_eq_true hrank)
  · simp [hbit]

theorem id2mask_injective {mask : BitVec 32} {a b : ℕ} (ha : a ≤ mmDefault mask)
    (hb : b ≤ mmDefault mask) (h : id2mask a mask = id2mask b mask) : a = b := by
  have hdefault := mmDefault_eq mask
  have hpow : ((2 ^ rank mask 32 : ℕ) : Int) = 2 ^ rank mask 32 := by push_cast; rfl
  exact (h ▸ isDeposit_id2mask a mask).injective (isDeposit_id2mask b mask)
    (by omega) (by omega)

end OpenWrt.Mwan3
