/-
# The code of the counts

`rb_lz77_decode_count` with the arithmetic of its types, for any first shift, initial count and
bound on the bits that leave an `int` its sign. What it accepts is a prefix-free code of a range of
counts.
-/

import OpenWrt.RbLz77.Reading

namespace OpenWrt.RbLz77

open OpenWrt.Lib

/-! ## The function with its types -/

/-- Why there is no count: a stop of the functions below, or a shift of an `int` by too many bits. -/
inductive CountStop where
  | stop (stop : Stop)
  | shift (bits : UInt8)
  deriving DecidableEq, Repr

/-- What a bit adds: `1 << shift`, which is an `int`, when it is set. -/
def bitValue (bit : Bool) (shift : UInt8) : Except CountStop (BitVec 32) :=
  if bit = false then .ok 0
  else if shift.toNat < 31 then .ok (1#32 <<< shift.toNat)
  else .error (.shift shift)

/-- The loop of `rb_lz77_decode_count`, with so many bits before `max_pos`; a `size_t` has `w` bits. -/
def countLoop (inp : List UInt8) {w : ℕ} :
    ℕ → ℕ → UInt8 → BitVec w → Bool → Except CountStop (ℕ × BitVec w)
  | 0, _, _, _, _ => .error (.stop (.err .efbig))
  | left + 1, pos, shift, count, up => do
      let bit ← (getBit inp pos).mapError .stop
      let value ← bitValue bit shift
      let count := count + value.signExtend w
      let up := up && bit
      if up then countLoop inp left (pos + 1) (shift + 1) count up
      else if shift = 0 then .ok (pos, count)
      else countLoop inp left (pos + 1) (shift - 1) count up

/-- The arguments that do not change with the input. A run of ones shifts no further than below the
sign of an `int`, and the initial count is half of the way to it. -/
structure CountArgs where
  sizeBits : ℕ
  shift : UInt8
  count : BitVec sizeBits
  maxBits : UInt8
  int_le_size : 32 ≤ sizeBits
  shift_add_le : shift.toNat + maxBits.toNat ≤ 31
  count_le : count.toNat ≤ 2 ^ 30

namespace CountArgs

/-- `rb_lz77_decode_count`: the `int` that it returns, and `bits_used`. -/
def decodeCount (args : CountArgs) (inp : List UInt8) (inOffsetBit : ℕ) :
    Except CountStop (ℤ × UInt8) := do
  let maxPos := min (inOffsetBit + args.maxBits.toNat) (inp.length * 8)
  let (pos, count) ← countLoop inp (maxPos - inOffsetBit) inOffsetBit args.shift args.count true
  return ((count.setWidth 32).toInt, (pos - inOffsetBit + 1).toUInt8)

/-- The word is what a call reads that returns this count. -/
def IsCodeword (args : CountArgs) (word : List Bool) (count : ℤ) : Prop :=
  ∃ inp pos bitsUsed, args.decodeCount inp pos = .ok (count, bitsUsed) ∧
    word = (bitsFrom inp pos).take bitsUsed.toNat

def range (args : CountArgs) : ℕ :=
  2 ^ args.shift.toNat * (2 ^ ((args.maxBits.toNat + 1 - args.shift.toNat) / 2) - 1)

/-- The calls that succeed read a prefix-free code of the counts from the initial one on. -/
structure IsPrefixFreeCode (args : CountArgs) : Prop where
  nonneg : ∀ inp pos count bitsUsed,
    args.decodeCount inp pos = .ok (count, bitsUsed) → 0 ≤ count
  determined : ∀ inp pos inp' pos' count bitsUsed,
    args.decodeCount inp pos = .ok (count, bitsUsed) →
    (bitsFrom inp' pos').take bitsUsed.toNat = (bitsFrom inp pos).take bitsUsed.toNat →
      args.decodeCount inp' pos' = .ok (count, bitsUsed)
  prefix_free : ∀ word count word' count', args.IsCodeword word count →
    args.IsCodeword word' count' → word <+: word' → count = count'
  unique : ∀ word word' count, args.IsCodeword word count → args.IsCodeword word' count →
    word = word'
  covered : ∀ count : ℤ, (∃ word, args.IsCodeword word count) ↔
    (args.count.toNat : ℤ) ≤ count ∧ count < args.count.toNat + args.range
  bitsUsed_eq : ∀ inp pos count bitsUsed, args.decodeCount inp pos = .ok (count, bitsUsed) →
    ∀ word, args.IsCodeword word count → bitsUsed.toNat = word.length

end CountArgs

/-! ## The arithmetic -/

/-- A bit adds what it adds to a number. -/
theorem exists_bitValue {w : ℕ} {shift : UInt8} (hshift : shift.toNat < 31) (bit : Bool)
    (count : ℕ) :
    ∃ value, bitValue bit shift = .ok value ∧ BitVec.ofNat w count + value.signExtend w =
      BitVec.ofNat w (if bit then count + 1 <<< shift.toNat else count) := by
  cases bit with
  | false =>
    have hzero : (0#32).signExtend w = 0#w := by
      rw [BitVec.signExtend_eq_setWidth_of_msb_false rfl]
      exact BitVec.setWidth_zero w 32
    refine ⟨0#32, rfl, ?_⟩
    rw [hzero, BitVec.add_zero, if_neg Bool.false_ne_true]
  | true =>
    have hpow : 2 ^ shift.toNat < 2 ^ 31 := Nat.pow_lt_pow_right (by decide) hshift
    have hvalue : (1#32 <<< shift.toNat).toNat = 2 ^ shift.toNat := by
      rw [BitVec.toNat_shiftLeft, BitVec.toNat_ofNat, Nat.shiftLeft_eq]
      omega
    have hmsb : (1#32 <<< shift.toNat).msb = false := by
      rw [BitVec.msb_eq_false_iff_two_mul_lt, hvalue]
      omega
    have hword : (1#32 <<< shift.toNat).signExtend w = BitVec.ofNat w (2 ^ shift.toNat) := by
      rw [BitVec.signExtend_eq_setWidth_of_msb_false hmsb]
      apply BitVec.eq_of_toNat_eq
      rw [BitVec.toNat_setWidth, BitVec.toNat_ofNat, hvalue]
    refine ⟨1#32 <<< shift.toNat, ?_, ?_⟩
    · unfold bitValue
      rw [if_neg (by decide), if_pos hshift]
    · rw [hword, if_pos rfl, Nat.shiftLeft_eq, Nat.one_mul, BitVec.ofNat_add]

/-- The loop on the words of the machine is the one on numbers, when no shift goes too far. -/
theorem countLoop_eq (inp : List UInt8) {w left pos count : ℕ} {shift : UInt8}
    {up : Bool} (h : shift.toNat + left ≤ 31) :
    countLoop inp left pos shift (BitVec.ofNat w count) up =
      match decodeCountLoop inp left pos shift.toNat count up with
      | .ok (pos, count) => .ok (pos, BitVec.ofNat w count)
      | .error stop => .error (.stop stop) := by
  induction left generalizing pos count shift up with
  | zero => rfl
  | succ left ih =>
    rw [countLoop, decodeCountLoop]
    cases hbit : getBit inp pos with
    | error stop => rfl
    | ok bit =>
      have hlt : shift.toNat < 31 := by omega
      obtain ⟨value, hvalue, hcount⟩ := exists_bitValue (w := w) hlt bit count
      dsimp only [Except.mapError, bind, Except.bind]
      rw [hvalue]
      dsimp only
      rw [hcount]
      generalize (if bit then count + 1 <<< shift.toNat else count) = count'
      cases hup : (up && bit) with
      | true =>
        have hnext : (shift + 1).toNat = shift.toNat + 1 := by
          rw [UInt8.toNat_add, UInt8.toNat_one, Nat.mod_eq_of_lt (by omega)]
        have hrest := @ih (pos + 1) count' (shift + 1) true (by omega)
        rw [hnext] at hrest
        exact hrest
      | false =>
        by_cases hzero : shift = 0
        · subst hzero
          rfl
        · have hpos : shift.toNat ≠ 0 := fun h => hzero (UInt8.toNat_inj.mp h)
          have hnext : (shift - 1).toNat = shift.toNat - 1 := by
            apply UInt8.toNat_sub_of_le
            rw [UInt8.le_iff_toNat_le, UInt8.toNat_one]
            omega
          have hrest := @ih (pos + 1) count' (shift - 1) false (by omega)
          rw [hnext] at hrest
          rw [if_neg Bool.false_ne_true, if_neg Bool.false_ne_true, if_neg hzero, if_neg hpos]
          exact hrest

/-! ## What a call reads -/

/-- Whole bytes have any bits. -/
theorem exists_bitsOf {n : ℕ} {bs : List Bool} (h : bs.length = n * 8) :
    ∃ inp : List UInt8, bitsOf inp = bs := by
  induction n generalizing bs with
  | zero =>
    rw [Nat.zero_mul] at h
    exact ⟨[], (List.length_eq_zero_iff.mp h).symm⟩
  | succ n ih =>
    have hrest : (bs.drop 8).length = n * 8 := by
      rw [List.length_drop]
      omega
    obtain ⟨inp, hinp⟩ := ih hrest
    have hlen : (bs.take 8).reverse.length = 8 := by
      rw [List.length_reverse]
      exact List.length_take_of_le (by omega)
    have hbyte : (List.range 8).map (fun i =>
      (UInt8.ofNat (ofBits (bs.take 8).reverse)).toNat.testBit i) = bs.take 8 := by
      change (byteBits (UInt8.ofNat (ofBits (bs.take 8).reverse))).reverse = bs.take 8
      rw [byteBits_ofNat_ofBits hlen, List.reverse_reverse]
    refine ⟨UInt8.ofNat (ofBits (bs.take 8).reverse) :: inp, ?_⟩
    have hcons : ∀ byte : UInt8, bitsOf (byte :: inp) =
        (List.range 8).map (fun i => byte.toNat.testBit i) ++ bitsOf inp := fun _ => rfl
    rw [hcons, hbyte, hinp, List.take_append_drop]

theorem exists_prefix_bitsFrom (word : List Bool) : ∃ inp, word <+: bitsFrom inp 0 := by
  have hlen : (word ++ List.replicate (word.length * 7) false).length = word.length * 8 := by
    rw [List.length_append, List.length_replicate]
    omega
  obtain ⟨inp, hinp⟩ := exists_bitsOf hlen
  refine ⟨inp, ?_⟩
  unfold bitsFrom
  rw [List.drop_zero, hinp]
  exact List.prefix_append _ _

namespace CountArgs

variable {args : CountArgs} {inp : List UInt8} {pos : ℕ} {count : ℤ} {bitsUsed : UInt8}

theorem lt_range_iff {n : ℕ} :
    (ExpGolomb.encode args.shift.toNat n).length ≤ args.maxBits.toNat ↔ n < args.range :=
  ExpGolomb.length_encode_le_iff

theorem range_le (args : CountArgs) : args.range ≤ 2 ^ 16 := by
  have hsum := args.shift_add_le
  unfold range
  by_cases hle : args.shift.toNat ≤ args.maxBits.toNat
  · calc 2 ^ args.shift.toNat * (2 ^ ((args.maxBits.toNat + 1 - args.shift.toNat) / 2) - 1)
      _ ≤ 2 ^ args.shift.toNat * 2 ^ ((args.maxBits.toNat + 1 - args.shift.toNat) / 2) :=
        Nat.mul_le_mul_left _ (Nat.sub_le _ 1)
      _ = 2 ^ (args.shift.toNat + (args.maxBits.toNat + 1 - args.shift.toNat) / 2) :=
        (Nat.pow_add 2 _ _).symm
      _ ≤ 2 ^ 16 := Nat.pow_le_pow_right (by decide) (by omega)
  · have hzero : (args.maxBits.toNat + 1 - args.shift.toNat) / 2 = 0 := by omega
    rw [hzero, Nat.pow_zero, Nat.sub_self, Nat.mul_zero]
    exact Nat.zero_le _

/-- The `int` that is returned is the count. -/
theorem toInt_count {n : ℕ} (hn : n < args.range) :
    ((BitVec.ofNat args.sizeBits (args.count.toNat + n)).setWidth 32).toInt =
      (args.count.toNat + n : ℕ) := by
  have hrange := args.range_le
  have hcount := args.count_le
  have hsmall : args.count.toNat + n < 2 ^ 31 := by omega
  rw [BitVec.setWidth_ofNat_of_le args.int_le_size]
  have hvalue : (BitVec.ofNat 32 (args.count.toNat + n)).toNat = args.count.toNat + n := by
    rw [BitVec.toNat_ofNat]
    omega
  rw [BitVec.toInt_eq_toNat_cond, hvalue, if_pos (by omega)]

/-- A call reads a code that is short enough, and is an error when there is none. -/
theorem decodeCount_cases (args : CountArgs) (inp : List UInt8) (pos : ℕ) :
    (∃ n, n < args.range ∧ ExpGolomb.encode args.shift.toNat n <+: bitsFrom inp pos ∧
        args.decodeCount inp pos = .ok ((args.count.toNat + n : ℕ),
          (ExpGolomb.encode args.shift.toNat n).length.toUInt8)) ∨
      (∀ n < args.range, ¬ ExpGolomb.encode args.shift.toNat n <+: bitsFrom inp pos) ∧
        args.decodeCount inp pos = .error (.stop (.err .efbig)) := by
  have hsum := args.shift_add_le
  have hcount : BitVec.ofNat args.sizeBits args.count.toNat = args.count := by
    rw [BitVec.ofNat_toNat, BitVec.setWidth_eq]
  have hloop := @countLoop_eq inp args.sizeBits
    (min (pos + args.maxBits.toNat) (inp.length * 8) - pos) pos args.count.toNat args.shift true
    (by omega)
  rw [hcount] at hloop
  unfold decodeCount
  dsimp only
  rw [hloop]
  rcases decodeCountLoop_cases inp args.maxBits.toNat pos args.shift.toNat args.count.toNat with
    ⟨n, rest, hbits, hshort, hok⟩ | ⟨hnone, herror⟩
  · have hn : n < args.range := lt_range_iff.mp hshort
    have hpos : 0 < (ExpGolomb.encode args.shift.toNat n).length :=
      ExpGolomb.length_encode_pos args.shift.toNat n
    refine .inl ⟨n, hn, hbits ▸ List.prefix_append _ rest, ?_⟩
    rw [hok]
    change Except.ok (((BitVec.ofNat args.sizeBits (args.count.toNat + n)).setWidth 32).toInt,
      (pos + _ - 1 - pos + 1).toUInt8) = _
    rw [toInt_count hn]
    congr 3
    omega
  · refine .inr ⟨fun n hn hstarts => ?_, by rw [herror]; rfl⟩
    exact Nat.not_lt.mpr (lt_range_iff.mpr hn) (hnone n hstarts)

/-- The successful calls. -/
theorem decodeCount_eq_ok_iff :
    args.decodeCount inp pos = .ok (count, bitsUsed) ↔
      ∃ n, n < args.range ∧ ExpGolomb.encode args.shift.toNat n <+: bitsFrom inp pos ∧
        count = (args.count.toNat + n : ℕ) ∧
        bitsUsed.toNat = (ExpGolomb.encode args.shift.toNat n).length := by
  have hsum := args.shift_add_le
  have hlen : ∀ n < args.range, (ExpGolomb.encode args.shift.toNat n).length.toUInt8.toNat =
      (ExpGolomb.encode args.shift.toNat n).length := by
    intro n hn
    have hshort := lt_range_iff.mpr hn
    exact UInt8.toNat_ofNat_of_lt' (Nat.lt_of_le_of_lt hshort args.maxBits.toNat_lt)
  constructor
  · intro h
    rcases decodeCount_cases args inp pos with ⟨n, hn, hstarts, hok⟩ | ⟨-, herror⟩
    · rw [hok] at h
      obtain ⟨rfl, rfl⟩ := Prod.mk.inj (Except.ok.inj h)
      exact ⟨n, hn, hstarts, rfl, hlen n hn⟩
    · rw [herror] at h
      cases h
  · rintro ⟨n, hn, hstarts, rfl, hbits⟩
    rcases decodeCount_cases args inp pos with ⟨m, hm, hother, hok⟩ | ⟨hnone, -⟩
    · obtain rfl : m = n := ExpGolomb.encode_prefix_inj hother hstarts
      rw [hok, UInt8.toNat_inj.mp (hbits.trans (hlen m hm).symm)]
    · exact absurd hstarts (hnone n hn)

/-- The codewords are the codes of the numbers below the range. -/
theorem isCodeword_iff {word : List Bool} :
    args.IsCodeword word count ↔
      ∃ n, n < args.range ∧ word = ExpGolomb.encode args.shift.toNat n ∧
        count = (args.count.toNat + n : ℕ) := by
  constructor
  · rintro ⟨inp, pos, bitsUsed, hok, rfl⟩
    obtain ⟨n, hn, hstarts, hcount, hbits⟩ := decodeCount_eq_ok_iff.mp hok
    refine ⟨n, hn, ?_, hcount⟩
    rw [hbits, ← List.prefix_iff_eq_take.mp hstarts]
  · rintro ⟨n, hn, rfl, rfl⟩
    obtain ⟨inp, hstarts⟩ := exists_prefix_bitsFrom (ExpGolomb.encode args.shift.toNat n)
    rcases decodeCount_cases args inp 0 with ⟨m, hm, hother, hok⟩ | ⟨hnone, -⟩
    · obtain rfl : m = n := ExpGolomb.encode_prefix_inj hother hstarts
      obtain ⟨k, -, hk, -, hbits⟩ := decodeCount_eq_ok_iff.mp hok
      obtain rfl : k = m := ExpGolomb.encode_prefix_inj hk hstarts
      exact ⟨inp, 0, _, hok, by rw [hbits, ← List.prefix_iff_eq_take.mp hstarts]⟩
    · exact absurd hstarts (hnone n hn)

end CountArgs

/-! ## The calls of the decompressor -/

namespace CountCall

end CountCall

end OpenWrt.RbLz77
