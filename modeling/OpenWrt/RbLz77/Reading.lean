/-
# What the decompressor reads

The functions that read the input, in terms of the bits from a position on: a bit is
the first of these, a byte their first eight, and a count is an exponential Golomb code
of at most 27 bits.
-/

import OpenWrt.RbLz77.Decompress
import OpenWrt.RbLz77.Format

namespace OpenWrt.RbLz77

open OpenWrt.Lib

def bitsFrom (inp : List UInt8) (pos : ℕ) : List Bool :=
  (bitsOf inp).drop pos

section Bits

variable {inp : List UInt8} {pos : ℕ}

@[simp]
theorem length_bitsOf (inp : List UInt8) : (bitsOf inp).length = inp.length * 8 := by
  unfold bitsOf
  induction inp with
  | nil => rfl
  | cons byte inp ih =>
    rw [List.flatMap_cons, List.length_append, List.length_map, List.length_range, ih,
      List.length_cons]
    omega

theorem getElem?_bitsOf (inp : List UInt8) (i : ℕ) :
    (bitsOf inp)[i]? = inp[i / 8]?.map fun byte => byte.toNat.testBit (i % 8) := by
  unfold bitsOf
  induction inp generalizing i with
  | nil => rfl
  | cons byte inp ih =>
    rw [List.flatMap_cons]
    by_cases hi : i < 8
    · rw [List.getElem?_append_left (by simpa using hi), Nat.div_eq_of_lt hi,
        Nat.mod_eq_of_lt hi, List.getElem?_map, List.getElem?_range hi]
      rfl
    · obtain ⟨j, rfl⟩ := Nat.exists_eq_add_of_le (Nat.le_of_not_lt hi)
      have hdiv : (8 + j) / 8 = j / 8 + 1 := by omega
      have hmod : (8 + j) % 8 = j % 8 := by omega
      rw [List.getElem?_append_right (by simp), List.length_map, List.length_range,
        Nat.add_sub_cancel_left, ih, hdiv, hmod, List.getElem?_cons_succ]

theorem length_bitsFrom (inp : List UInt8) (pos : ℕ) :
    (bitsFrom inp pos).length = inp.length * 8 - pos := by
  unfold bitsFrom
  rw [List.length_drop, length_bitsOf]

theorem bitsFrom_add (inp : List UInt8) (pos n : ℕ) :
    bitsFrom inp (pos + n) = (bitsFrom inp pos).drop n := by
  unfold bitsFrom
  rw [List.drop_drop]

theorem bitsFrom_succ {b : Bool} {bs : List Bool} (h : bitsFrom inp pos = b :: bs) :
    bitsFrom inp (pos + 1) = bs := by
  rw [bitsFrom_add, h, List.drop_one, List.tail_cons]

theorem bitsFrom_length (code : List Bool) {bs : List Bool}
    (h : bitsFrom inp pos = code ++ bs) :
    bitsFrom inp (pos + code.length) = bs := by
  rw [bitsFrom_add, h, List.drop_left]

theorem getBit_eq (inp : List UInt8) (pos : ℕ) :
    getBit inp pos =
      match bitsFrom inp pos with
      | [] => .error (.fault (.read (pos / 8)))
      | b :: _ => .ok b := by
  have hhead : (bitsFrom inp pos).head? =
      inp[pos / 8]?.map fun byte => byte.toNat.testBit (pos % 8) := by
    unfold bitsFrom
    rw [List.head?_drop, getElem?_bitsOf]
  unfold getBit
  cases hbits : bitsFrom inp pos with
  | nil =>
    rw [hbits, List.head?_nil, eq_comm, Option.map_eq_none_iff] at hhead
    rw [hhead]
  | cons b bs =>
    rw [hbits, List.head?_cons, eq_comm, Option.map_eq_some_iff] at hhead
    obtain ⟨byte, hbyte, rfl⟩ := hhead
    rw [hbyte]

theorem getBit_cons {b : Bool} {bs : List Bool} (h : bitsFrom inp pos = b :: bs) :
    getBit inp pos = .ok b := by
  rw [getBit_eq, h]

theorem getBit_nil (h : bitsFrom inp pos = []) :
    getBit inp pos = .error (.fault (.read (pos / 8))) := by
  rw [getBit_eq, h]

end Bits

/-! ## Bytes -/

section Bytes

variable {inp : List UInt8}

theorem ofNat_bit (b : Bool) {i : ℕ} (hi : i < 8) :
    (if b then 1 <<< i.toUInt8 else 0 : UInt8) = UInt8.ofNat (b.toNat * 2 ^ i) := by
  cases b with
  | false => simp
  | true =>
    have hcases : i = 0 ∨ i = 1 ∨ i = 2 ∨ i = 3 ∨ i = 4 ∨ i = 5 ∨ i = 6 ∨ i = 7 := by omega
    rcases hcases with rfl | rfl | rfl | rfl | rfl | rfl | rfl | rfl <;> decide

theorem getByteLoop_eq {n pos : ℕ} (hn : n ≤ 8) (hlen : n ≤ (bitsFrom inp pos).length)
    (buf : UInt8) :
    getByteLoop inp n pos buf =
      .ok (buf + UInt8.ofNat (ofBits ((bitsFrom inp pos).take n))) := by
  induction n generalizing pos buf with
  | zero =>
    rw [getByteLoop, List.take_zero, ofBits]
    exact congrArg Except.ok (UInt8.add_zero buf).symm
  | succ n ih =>
    cases hbits : bitsFrom inp pos with
    | nil =>
      rw [hbits] at hlen
      cases hlen
    | cons b bs =>
      have hnext := bitsFrom_succ hbits
      have hbs : n ≤ bs.length := by
        rw [hbits] at hlen
        exact Nat.le_of_succ_le_succ hlen
      rw [getByteLoop, getBit_cons hbits]
      change getByteLoop inp n (pos + 1) (buf + if b then 1 <<< n.toUInt8 else 0) = _
      rw [ih (by omega) (by rw [hnext]; exact hbs), hnext, List.take_succ_cons, ofBits,
        List.length_take_of_le hbs, ofNat_bit b (by omega), UInt8.add_assoc,
        ← UInt8.ofNat_add]

theorem getByte_eq {byte : UInt8} {pos : ℕ} {rest : List Bool}
    (h : bitsFrom inp pos = byteBits byte ++ rest) : getByte inp pos = .ok byte := by
  have hlen := length_byteBits byte
  unfold getByte
  rw [getByteLoop_eq (Nat.le_refl 8) (by rw [h, List.length_append]; omega), h, List.take_left' hlen,
    ofNat_ofBits_byteBits]
  exact congrArg Except.ok (UInt8.zero_add byte)

/-- A byte that is not all there is read past the end. -/
theorem getByteLoop_fault {n pos : ℕ} (hlen : (bitsFrom inp pos).length < n) (buf : UInt8) :
    ∃ i, inp.length ≤ i ∧ getByteLoop inp n pos buf = .error (.fault (.read i)) := by
  induction n generalizing pos buf with
  | zero => cases hlen
  | succ n ih =>
    cases hbits : bitsFrom inp pos with
    | nil =>
      have hend := length_bitsFrom inp pos
      rw [hbits, List.length_nil] at hend
      refine ⟨pos / 8, by omega, ?_⟩
      rw [getByteLoop, getBit_nil hbits]
      rfl
    | cons b bs =>
      rw [hbits, List.length_cons] at hlen
      have hnext : (bitsFrom inp (pos + 1)).length < n := by
        rw [bitsFrom_succ hbits]
        omega
      obtain ⟨i, hi, hfault⟩ := ih hnext (buf + if b then 1 <<< n.toUInt8 else 0)
      refine ⟨i, hi, ?_⟩
      rw [getByteLoop, getBit_cons hbits]
      exact hfault

end Bytes

/-! ## Counts -/

section Counts

variable {inp : List UInt8}

theorem decodeCountLoop_cons {left pos shift count : ℕ} {up b : Bool} {bs : List Bool}
    (h : bitsFrom inp pos = b :: bs) :
    decodeCountLoop inp (left + 1) pos shift count up =
      if (up && b) = true then
        decodeCountLoop inp left (pos + 1) (shift + 1) (count + b.toNat * 2 ^ shift) true
      else if shift = 0 then .ok (pos, count + b.toNat * 2 ^ shift)
      else decodeCountLoop inp left (pos + 1) (shift - 1) (count + b.toNat * 2 ^ shift) false := by
  have hcount : (if b then count + 1 <<< shift else count) = count + b.toNat * 2 ^ shift := by
    cases b
    · simp
    · simp [Nat.shiftLeft_eq]
  rw [decodeCountLoop, getBit_cons h, ← hcount]
  change (if (up && b) = true then _ else _) = _
  cases hup : (up && b) <;> rfl

/-- After the first zero the shift goes down to the last bit. -/
theorem decodeCountLoop_down {left pos shift : ℕ} (hleft : left ≤ (bitsFrom inp pos).length)
    (count : ℕ) :
    decodeCountLoop inp left pos shift count false =
      if shift + 1 ≤ left then
        .ok (pos + shift, count + ofBits ((bitsFrom inp pos).take (shift + 1)))
      else .error (.err .efbig) := by
  induction left generalizing pos shift count with
  | zero => rfl
  | succ left ih =>
    cases hbits : bitsFrom inp pos with
    | nil =>
      rw [hbits] at hleft
      cases hleft
    | cons b bs =>
      have hnext := bitsFrom_succ hbits
      have hbs : left ≤ bs.length := by
        rw [hbits] at hleft
        exact Nat.le_of_succ_le_succ hleft
      rw [decodeCountLoop_cons hbits, Bool.false_and, if_neg Bool.false_ne_true]
      cases shift with
      | zero =>
        rw [if_pos rfl, if_pos (by omega)]
        simp [ofBits]
      | succ shift =>
        rw [if_neg (Nat.succ_ne_zero shift), Nat.add_sub_cancel,
          ih (by rw [hnext]; exact hbs), hnext]
        by_cases hle : shift + 1 ≤ left
        · rw [if_pos hle, if_pos (by omega), List.take_succ_cons, ofBits,
            List.length_take_of_le (by omega)]
          congr 2
          · omega
          · omega
        · rw [if_neg hle, if_neg (by omega)]

/-- The loop reads the code of the order of its first shift. -/
theorem decodeCountLoop_up {left pos shift : ℕ} (hleft : left ≤ (bitsFrom inp pos).length)
    (count : ℕ) :
    decodeCountLoop inp left pos shift count true =
      match ExpGolomb.decode shift ((bitsFrom inp pos).take left) with
      | some (n, rest) => .ok (pos + (left - rest.length) - 1, count + n)
      | none => .error (.err .efbig) := by
  induction left generalizing pos shift count with
  | zero => rfl
  | succ left ih =>
    cases hbits : bitsFrom inp pos with
    | nil =>
      rw [hbits] at hleft
      cases hleft
    | cons b bs =>
      have hnext := bitsFrom_succ hbits
      have hbs : left ≤ bs.length := by
        rw [hbits] at hleft
        exact Nat.le_of_succ_le_succ hleft
      rw [decodeCountLoop_cons hbits, List.take_succ_cons]
      cases b with
      | true =>
        rw [Bool.and_self, if_pos rfl, Bool.toNat_true, Nat.one_mul,
          ih (by rw [hnext]; exact hbs), hnext, ExpGolomb.decode]
        cases hdec : ExpGolomb.decode (shift + 1) (bs.take left) with
        | none => rfl
        | some r =>
          obtain ⟨n, rest⟩ := r
          have hlen := congrArg List.length (ExpGolomb.eq_encode_of_decode hdec)
          rw [List.length_append, List.length_take_of_le hbs] at hlen
          simp only [Option.map_some]
          congr 2
          · omega
          · omega
      | false =>
        rw [Bool.and_false, if_neg Bool.false_ne_true, Bool.toNat_false, Nat.zero_mul,
          Nat.add_zero, ExpGolomb.decode, List.length_take_of_le hbs]
        cases shift with
        | zero =>
          rw [if_pos rfl, if_pos (Nat.zero_le left)]
          simp only [List.take_zero, List.drop_zero, ofBits, List.length_take_of_le hbs]
          congr 2
          omega
        | succ shift =>
          rw [if_neg (Nat.succ_ne_zero shift), Nat.add_sub_cancel,
            decodeCountLoop_down (by rw [hnext]; exact hbs), hnext]
          by_cases hle : shift + 1 ≤ left
          · rw [if_pos hle, if_pos hle, List.take_take, Nat.min_eq_left hle]
            simp only [List.length_drop, List.length_take_of_le hbs]
            congr 2
            omega
          · rw [if_neg hle, if_neg hle]

/-- The loop reads a count when its code is in the input and short enough, and it is an error
otherwise. -/
theorem decodeCountLoop_cases (inp : List UInt8) (bound pos shift init : ℕ) :
    (∃ n rest, bitsFrom inp pos = ExpGolomb.encode shift n ++ rest ∧
        (ExpGolomb.encode shift n).length ≤ bound ∧
        decodeCountLoop inp (min (pos + bound) (inp.length * 8) - pos) pos shift init true =
          .ok (pos + (ExpGolomb.encode shift n).length - 1, init + n)) ∨
      (∀ n, ExpGolomb.encode shift n <+: bitsFrom inp pos →
        bound < (ExpGolomb.encode shift n).length) ∧
        decodeCountLoop inp (min (pos + bound) (inp.length * 8) - pos) pos shift init true =
          .error (.err .efbig) := by
  have hlen := length_bitsFrom inp pos
  have hleft : min (pos + bound) (inp.length * 8) - pos =
      min bound (bitsFrom inp pos).length := by
    omega
  have htake : (bitsFrom inp pos).take (min bound (bitsFrom inp pos).length) =
      (bitsFrom inp pos).take bound := by
    rw [← List.take_take, List.take_length]
  have hloop := @decodeCountLoop_up inp _ pos shift
    (Nat.min_le_right bound (bitsFrom inp pos).length) init
  rw [htake] at hloop
  rw [hleft, hloop]
  cases hdec : ExpGolomb.decode shift ((bitsFrom inp pos).take bound) with
  | none =>
    refine .inr ⟨fun n hstarts => ?_, rfl⟩
    by_contra hshort
    obtain ⟨rest, hsome⟩ :=
      ExpGolomb.decode_take_iff.mpr ⟨hstarts, Nat.le_of_not_lt hshort⟩
    rw [hdec] at hsome
    cases hsome
  | some r =>
    obtain ⟨n, tail⟩ := r
    obtain ⟨⟨rest, hrest⟩, hshort⟩ := ExpGolomb.decode_take_iff.mp ⟨tail, hdec⟩
    have htail := congrArg List.length (ExpGolomb.eq_encode_of_decode hdec)
    rw [List.length_append, List.length_take] at htail
    refine .inl ⟨n, rest, hrest.symm, hshort, ?_⟩
    change Except.ok (pos + (_ - tail.length) - 1, init + n) = _
    congr 2
    omega

/-- A count is read when its code is in the input and has at most 27 bits, and it is an
error otherwise. -/
theorem decodeCount_cases (inp : List UInt8) (pos shift init : ℕ) :
    (∃ n rest, bitsFrom inp pos = ExpGolomb.encode shift n ++ rest ∧
        (ExpGolomb.encode shift n).length ≤ 27 ∧
        decodeCount inp pos shift init = .ok (init + n, (ExpGolomb.encode shift n).length)) ∨
      (∀ n, ExpGolomb.encode shift n <+: bitsFrom inp pos →
        27 < (ExpGolomb.encode shift n).length) ∧
        decodeCount inp pos shift init = .error (.err .efbig) := by
  unfold decodeCount maxCountBitLen
  dsimp only
  rcases decodeCountLoop_cases inp 27 pos shift init with ⟨n, rest, hbits, hshort, hloop⟩ | ⟨hnone, hloop⟩
  · refine .inl ⟨n, rest, hbits, hshort, ?_⟩
    have hpos : 0 < (ExpGolomb.encode shift n).length := ExpGolomb.length_encode_pos shift n
    rw [hloop]
    change Except.ok (init + n, pos + _ - 1 - pos + 1) = _
    congr 2
    omega
  · refine .inr ⟨hnone, ?_⟩
    rw [hloop]
    rfl

theorem decodeCount_eq {pos shift n : ℕ} {rest : List Bool}
    (h : bitsFrom inp pos = ExpGolomb.encode shift n ++ rest)
    (hshort : (ExpGolomb.encode shift n).length ≤ 27) (init : ℕ) :
    decodeCount inp pos shift init = .ok (init + n, (ExpGolomb.encode shift n).length) := by
  rcases decodeCount_cases inp pos shift init with ⟨m, rest', hm, -, heq⟩ | ⟨hnone, -⟩
  · have hsame := ExpGolomb.decode_encode shift n rest
    rw [← h, hm, ExpGolomb.decode_encode] at hsame
    obtain ⟨rfl, -⟩ := Prod.mk.inj (Option.some.inj hsame)
    exact heq
  · exact absurd (hnone n (h ▸ List.prefix_append _ _)) (Nat.not_lt.mpr hshort)

end Counts

end OpenWrt.RbLz77
