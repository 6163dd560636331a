/-
# The run-length code of RouterBoot

A run byte below 128 and a byte stand for so many of the byte; a larger run byte is a negative
number, and as many bytes as its amount follow as they are. `routerboot_rle_decode` counts its output
in an `int`. The input is a list of bytes with the position in it and the number of bytes that are
left; an access outside of a buffer stops the run as a fault.
-/

import OpenWrt.Lib.Loop
import Mathlib.Data.Nat.Bitwise

namespace OpenWrt.RouterBoot

open OpenWrt.Lib

/-! ## The decoder -/

/-- The output buffer: the bits of a `size_t`, and `*outlen`. An object takes less than half of the
addresses. -/
structure OutBuffer where
  sizeBits : ℕ
  cap : ℕ
  int_le_size : 32 ≤ sizeBits
  cap_lt : cap < 2 ^ (sizeBits - 1)

/-- The variables of the loop, and what is written. -/
structure RleState where
  pos : ℕ
  inlen : ℕ
  nbytes : BitVec 32
  out : List UInt8

/-- How a call ends. -/
inductive RleResult where
  | fault
  | einval
  | enospc (outlen : ℕ)
  | success (out : List UInt8) (outlen : ℕ)

/-- The loop that copies so many bytes. -/
def copyRun (inp : List UInt8) (cap : ℕ) : ℕ → ℕ → List UInt8 → Option (List UInt8)
  | 0, _, out => some out
  | run + 1, pos, out =>
    match inp[pos]? with
    | none => none
    | some byte => if out.length < cap then copyRun inp cap run (pos + 1) (out ++ [byte]) else none

/-- The loop that writes a byte so many times. -/
def fillRun (cap : ℕ) (byte : UInt8) : ℕ → List UInt8 → Option (List UInt8)
  | 0, out => some out
  | run + 1, out => if out.length < cap then fillRun cap byte run (out ++ [byte]) else none

namespace OutBuffer

variable (o : OutBuffer)

/-- `nbytes` as a `size_t`. -/
def size (nbytes : BitVec 32) : ℕ := (nbytes.signExtend o.sizeBits).toNat

/-- The check of the output, and the state after the bytes are written. -/
def write (s : RleState) (run pos inlen : ℕ) (written : Option (List UInt8)) : RleState ⊕ RleResult :=
  let nbytes := s.nbytes + BitVec.ofNat 32 run
  if o.cap < o.size nbytes then .inr (.enospc (o.size nbytes))
  else
    match written with
    | none => .inr .fault
    | some out => .inl ⟨pos, inlen, nbytes, out⟩

def turn (inp : List UInt8) (s : RleState) : RleState ⊕ RleResult :=
  if s.inlen < 2 then .inr (.success s.out (o.size s.nbytes))
  else
    match inp[s.pos]? with
    | none => .inr .fault
    | some head =>
      let pos := s.pos + 1
      let inlen := s.inlen - 1
      if head &&& 0x80 ≠ 0 then
        let run := (~~~head).toNat + 1
        if inlen < run then .inr (.enospc (o.size s.nbytes))
        else o.write s run (pos + run) (inlen - run) (copyRun inp o.cap run pos s.out)
      else
        match inp[pos]? with
        | none => .inr .fault
        | some byte =>
          o.write s head.toNat (pos + 1) (inlen - 1) (fillRun o.cap byte head.toNat s.out)

def start (inp : List UInt8) : RleState := ⟨0, inp.length, 0, []⟩

/-- `routerboot_rle_decode` returns this. -/
def Returns (inp : List UInt8) (result : RleResult) : Prop :=
  if inp.length < 2 then result = .einval
  else ∃ turns, Loop.after (o.turn inp) turns (start inp) = .inr result

end OutBuffer

/-! ## The code -/

/-- A run or a literal. -/
inductive RleItem where
  | fill (run : ℕ) (byte : UInt8) (short : run < 128)
  | literal (bytes : List UInt8) (nonempty : 0 < bytes.length) (short : bytes.length ≤ 128)

namespace RleItem

def encode : RleItem → List UInt8
  | fill run byte _ => [UInt8.ofNat run, byte]
  | literal bytes _ _ => UInt8.ofNat (256 - bytes.length) :: bytes

def value : RleItem → List UInt8
  | fill run byte _ => List.replicate run byte
  | literal bytes _ _ => bytes

theorem length_value_le (item : RleItem) : item.value.length ≤ 128 := by
  cases item with
  | fill run byte short =>
    rw [value, List.length_replicate]
    omega
  | literal bytes nonempty short => exact short

theorem two_le_length_encode (item : RleItem) : 2 ≤ item.encode.length := by
  cases item with
  | fill run byte short => exact Nat.le_refl 2
  | literal bytes nonempty short =>
    rw [encode, List.length_cons]
    omega

/-- A byte string as literals. -/
def literals (bytes : List UInt8) : List RleItem :=
  if h : bytes = [] then []
  else
    .literal (bytes.take 128)
      (by
        have hpos := List.length_pos_iff.mpr h
        rw [List.length_take]
        omega)
      (by
        rw [List.length_take]
        omega) :: literals (bytes.drop 128)
termination_by bytes.length
decreasing_by
  have hpos := List.length_pos_iff.mpr h
  rw [List.length_drop]
  omega

theorem flatMap_literals (bytes : List UInt8) : (literals bytes).flatMap value = bytes := by
  induction bytes using literals.induct with
  | case1 =>
    rw [literals, dif_pos rfl]
    rfl
  | case2 bytes h ih =>
    rw [literals, dif_neg h, List.flatMap_cons, ih]
    exact List.take_append_drop 128 bytes

end RleItem

/-! ## The loops that write -/

section Writing

variable {inp : List UInt8} {cap : ℕ}

theorem copyRun_eq {bytes more : List UInt8} {pos : ℕ} (h : inp.drop pos = bytes ++ more)
    {out : List UInt8} (hcap : out.length + bytes.length ≤ cap) :
    copyRun inp cap bytes.length pos out = some (out ++ bytes) := by
  induction bytes generalizing pos out with
  | nil => rw [List.length_nil, copyRun, List.append_nil]
  | cons byte bytes ih =>
    have hbyte : inp[pos]? = some byte := by
      rw [← Nat.add_zero pos, ← List.getElem?_drop, h]
      rfl
    have hnext : inp.drop (pos + 1) = bytes ++ more := by
      rw [← List.drop_drop, h]
      rfl
    rw [List.length_cons] at hcap
    rw [List.length_cons, copyRun, hbyte]
    dsimp only
    rw [if_pos (by omega), ih hnext (by rw [List.length_append, List.length_singleton]; omega),
      List.append_assoc, List.singleton_append]

theorem fillRun_eq (byte : UInt8) {run : ℕ} {out : List UInt8} (hcap : out.length + run ≤ cap) :
    fillRun cap byte run out = some (out ++ List.replicate run byte) := by
  induction run generalizing out with
  | zero => rw [fillRun, List.replicate_zero, List.append_nil]
  | succ run ih =>
    rw [fillRun, if_pos (by omega), ih (by rw [List.length_append, List.length_singleton]; omega),
      List.append_assoc, List.singleton_append, List.replicate_succ]

end Writing

/-! ## The counter of the output -/

namespace OutBuffer

variable {o : OutBuffer}

theorem size_ofNat {n : ℕ} (h : n < 2 ^ 31) : o.size (BitVec.ofNat 32 n) = n := by
  have hvalue : (BitVec.ofNat 32 n).toNat = n := by
    rw [BitVec.toNat_ofNat]
    omega
  have hmsb : (BitVec.ofNat 32 n).msb = false := by
    rw [BitVec.msb_eq_false_iff_two_mul_lt, hvalue]
    omega
  have hle : 2 ^ 32 ≤ 2 ^ o.sizeBits := Nat.pow_le_pow_right (by decide) o.int_le_size
  unfold size
  rw [BitVec.signExtend_eq_setWidth_of_msb_false hmsb, BitVec.toNat_setWidth, hvalue,
    Nat.mod_eq_of_lt (by omega)]

/-- The check refuses what does not fit, and a count that is negative. -/
theorem cap_lt_size_iff {n run : ℕ} (hn : n < 2 ^ 31) (hrun : run ≤ 128) :
    o.cap < o.size (BitVec.ofNat 32 n + BitVec.ofNat 32 run) ↔
      ¬ (n + run ≤ o.cap ∧ n + run < 2 ^ 31) := by
  rw [← BitVec.ofNat_add]
  by_cases hsmall : n + run < 2 ^ 31
  · rw [size_ofNat hsmall]
    omega
  · have hvalue : (BitVec.ofNat 32 (n + run)).toNat = n + run := by
      rw [BitVec.toNat_ofNat]
      omega
    have hmsb : (BitVec.ofNat 32 (n + run)).msb = true := by
      rw [BitVec.msb_eq_true_iff_two_mul_ge, hvalue]
      omega
    have hcap := o.cap_lt
    have hle : 2 ^ 31 ≤ 2 ^ (o.sizeBits - 1) := by
      have hbits := o.int_le_size
      exact Nat.pow_le_pow_right (by decide) (by omega)
    have htwice : 2 ^ o.sizeBits = 2 ^ (o.sizeBits - 1) * 2 := by
      have hbits := o.int_le_size
      rw [← Nat.pow_succ]
      congr 1
      omega
    have hsize : o.size (BitVec.ofNat 32 (n + run)) = n + run + (2 ^ o.sizeBits - 2 ^ 32) := by
      unfold size
      rw [BitVec.toNat_signExtend, BitVec.toNat_setWidth, hvalue, hmsb, if_pos rfl,
        Nat.mod_eq_of_lt (by omega)]
    rw [hsize]
    omega

/-! ## One turn -/

/-- The run byte of a literal. -/
theorem and_0x80_ne_zero_iff (head : UInt8) : head &&& 0x80 ≠ 0 ↔ 128 ≤ head.toNat := by
  have hlt := head.toNat_lt
  have hand : (head &&& 0x80).toNat = (head.toNat.testBit 7).toNat * 2 ^ 7 := by
    rw [UInt8.toNat_and]
    exact Nat.and_two_pow head.toNat 7
  have hzero : head &&& 0x80 = 0 ↔ (head &&& 0x80).toNat = 0 := by
    rw [← UInt8.toNat_inj]
    rfl
  rw [Ne, hzero, hand, Nat.testBit_eq_decide_div_mod_eq]
  by_cases hbit : head.toNat / 2 ^ 7 % 2 = 1
  · rw [decide_eq_true hbit, Bool.toNat_true]
    omega
  · rw [decide_eq_false hbit, Bool.toNat_false]
    omega

theorem toNat_not_add_one (head : UInt8) : (~~~head).toNat + 1 = 256 - head.toNat := by
  have hlt := head.toNat_lt
  rw [UInt8.toNat_not]
  have hsize : UInt8.size = 256 := rfl
  omega

def next (s : RleState) (item : RleItem) : RleState where
  pos := s.pos + item.encode.length
  inlen := s.inlen - item.encode.length
  nbytes := s.nbytes + BitVec.ofNat 32 item.value.length
  out := s.out ++ item.value

/-- What the loop has read and written are these items. -/
structure Decoded (o : OutBuffer) (inp : List UInt8) (s : RleState) (items : List RleItem) : Prop where
  pos_add : s.pos + s.inlen = inp.length
  read : inp.take s.pos = items.flatMap RleItem.encode
  out : s.out = items.flatMap RleItem.value
  nbytes : s.nbytes = BitVec.ofNat 32 s.out.length
  out_le : s.out.length ≤ o.cap
  out_lt : s.out.length < 2 ^ 31

variable {s : RleState} {items : List RleItem} {inp : List UInt8}

/-- The check and the loops that write, where there is room for the item or not. -/
theorem write_item (hs : Decoded o inp s items) (item : RleItem) {written : Option (List UInt8)}
    (hwritten : s.out.length + item.value.length ≤ o.cap → written = some (s.out ++ item.value)) :
    (s.out.length + item.value.length ≤ o.cap → s.out.length + item.value.length < 2 ^ 31 →
      o.write s item.value.length (next s item).pos (next s item).inlen written =
        .inl (next s item)) ∧
    (¬ (s.out.length + item.value.length ≤ o.cap ∧ s.out.length + item.value.length < 2 ^ 31) →
      ∃ outlen, o.write s item.value.length (next s item).pos (next s item).inlen written =
        .inr (.enospc outlen)) := by
  have hcheck := cap_lt_size_iff (o := o) hs.out_lt item.length_value_le
  unfold write
  dsimp only
  rw [hs.nbytes]
  constructor
  · intro hcap hint
    rw [if_neg (fun hfull => hcheck.mp hfull ⟨hcap, hint⟩), hwritten hcap]
    unfold next
    rw [hs.nbytes]
  · intro hfull
    rw [if_pos (hcheck.mpr hfull)]
    exact ⟨_, rfl⟩

theorem turn_item (hs : Decoded o inp s items) {item : RleItem} {more : List UInt8}
    (h : inp.drop s.pos = item.encode ++ more) :
    ∃ written, (s.out.length + item.value.length ≤ o.cap → written = some (s.out ++ item.value)) ∧
      o.turn inp s = o.write s item.value.length (next s item).pos (next s item).inlen written := by
  have hlen := congrArg List.length h
  rw [List.length_drop, List.length_append] at hlen
  have htwo := item.two_le_length_encode
  have hpos := hs.pos_add
  unfold turn
  rw [if_neg (by omega)]
  cases item with
  | fill run byte short =>
    have hhead : inp[s.pos]? = some (UInt8.ofNat run) := by
      rw [← Nat.add_zero s.pos, ← List.getElem?_drop, h]
      rfl
    have hbyte : inp[s.pos + 1]? = some byte := by
      rw [← List.getElem?_drop, h]
      rfl
    have hrun : (UInt8.ofNat run).toNat = run :=
      UInt8.toNat_ofNat_of_lt' (Nat.lt_trans short (by decide))
    have hplain : ¬ (UInt8.ofNat run &&& 0x80 ≠ 0) := by
      rw [and_0x80_ne_zero_iff, hrun]
      omega
    rw [hhead]
    dsimp only
    rw [if_neg hplain, hbyte]
    dsimp only
    rw [hrun]
    refine ⟨fillRun o.cap byte run s.out, fun hcap => fillRun_eq byte ?_, ?_⟩
    · exact Nat.le_trans (Nat.le_of_eq (by rw [RleItem.value, List.length_replicate])) hcap
    · rw [RleItem.value, List.length_replicate]
      rfl
  | literal bytes nonempty short =>
    have hhead : inp[s.pos]? = some (UInt8.ofNat (256 - bytes.length)) := by
      rw [← Nat.add_zero s.pos, ← List.getElem?_drop, h]
      rfl
    have hrest : inp.drop (s.pos + 1) = bytes ++ more := by
      rw [← List.drop_drop, h]
      rfl
    have hnegative : (UInt8.ofNat (256 - bytes.length)).toNat = 256 - bytes.length :=
      UInt8.toNat_ofNat_of_lt' (Nat.sub_lt (by decide) nonempty)
    have hrun : (~~~ UInt8.ofNat (256 - bytes.length)).toNat + 1 = bytes.length := by
      rw [toNat_not_add_one, hnegative]
      omega
    have hliteral : UInt8.ofNat (256 - bytes.length) &&& 0x80 ≠ 0 := by
      rw [and_0x80_ne_zero_iff, hnegative]
      omega
    rw [RleItem.encode, List.length_cons] at hlen
    rw [hhead]
    dsimp only
    rw [if_pos hliteral, hrun, if_neg (by omega)]
    refine ⟨copyRun inp o.cap bytes.length (s.pos + 1) s.out, copyRun_eq hrest, ?_⟩
    unfold next RleItem.encode RleItem.value
    dsimp only
    rw [List.length_cons]
    congr 1 <;> omega

/-- What is left of the input starts with an item, or the call fails. -/
theorem item_or_enospc (hs : Decoded o inp s items) (htwo : 2 ≤ s.inlen) :
    (∃ (item : RleItem) (more : List UInt8), inp.drop s.pos = item.encode ++ more) ∨
      ∃ outlen, o.turn inp s = .inr (.enospc outlen) := by
  have hpos := hs.pos_add
  have hlen : (inp.drop s.pos).length = s.inlen := by
    rw [List.length_drop]
    omega
  match hdrop : inp.drop s.pos with
  | [] =>
    rw [hdrop, List.length_nil] at hlen
    omega
  | [_] =>
    rw [hdrop, List.length_singleton] at hlen
    omega
  | head :: second :: tail =>
    rw [hdrop, List.length_cons, List.length_cons] at hlen
    have hlt := head.toNat_lt
    by_cases hplain : head.toNat < 128
    · refine .inl ⟨.fill head.toNat second hplain, tail, ?_⟩
      rw [RleItem.encode, UInt8.ofNat_toNat]
      rfl
    · by_cases hroom : 256 - head.toNat ≤ tail.length + 1
      · have htake : ((second :: tail).take (256 - head.toNat)).length = 256 - head.toNat := by
          rw [List.length_take, List.length_cons]
          omega
        have hhead : UInt8.ofNat (256 - (256 - head.toNat)) = head := by
          have hsame : 256 - (256 - head.toNat) = head.toNat := by omega
          rw [hsame, UInt8.ofNat_toNat]
        refine .inl ⟨.literal ((second :: tail).take (256 - head.toNat)) (by omega) (by omega),
          (second :: tail).drop (256 - head.toNat), ?_⟩
        rw [RleItem.encode, htake, hhead, List.cons_append, List.take_append_drop]
      · have hhead : inp[s.pos]? = some head := by
          rw [← Nat.add_zero s.pos, ← List.getElem?_drop, hdrop]
          rfl
        have hliteral : head &&& 0x80 ≠ 0 := (and_0x80_ne_zero_iff head).mpr (by omega)
        refine .inr ⟨o.size s.nbytes, ?_⟩
        unfold turn
        rw [if_neg (by omega), hhead]
        dsimp only
        rw [if_pos hliteral, toNat_not_add_one, if_pos (by omega)]

/-- The items that are read grow by one. -/
theorem Decoded.next {inp : List UInt8} {s : RleState} {items : List RleItem}
    (hs : Decoded o inp s items) {item : RleItem} {more : List UInt8}
    (h : inp.drop s.pos = item.encode ++ more) (hcap : s.out.length + item.value.length ≤ o.cap)
    (hint : s.out.length + item.value.length < 2 ^ 31) :
    Decoded o inp (OutBuffer.next s item) (items ++ [item]) := by
  have hlen := congrArg List.length h
  rw [List.length_drop, List.length_append] at hlen
  have hpos := hs.pos_add
  have htwo := item.two_le_length_encode
  have hvalue : (OutBuffer.next s item).out.length = s.out.length + item.value.length :=
    List.length_append
  exact {
    pos_add := by
      unfold OutBuffer.next
      dsimp only
      omega
    read := by
      unfold OutBuffer.next
      dsimp only
      rw [List.take_add, hs.read, h, List.take_left, List.flatMap_append, List.flatMap_singleton]
    out := by
      unfold OutBuffer.next
      rw [hs.out, List.flatMap_append, List.flatMap_singleton]
    nbytes := by
      rw [hvalue, BitVec.ofNat_add, ← hs.nbytes]
      rfl
    out_le := by
      rw [hvalue]
      exact hcap
    out_lt := by
      rw [hvalue]
      exact hint }

theorem turn_end (hs : Decoded o inp s items) (hend : s.inlen < 2) :
    o.turn inp s = .inr (.success s.out s.out.length) := by
  unfold turn
  rw [if_pos hend, hs.nbytes, size_ofNat hs.out_lt]

theorem turn_cases (hs : Decoded o inp s items) :
    (s.inlen < 2 ∧ o.turn inp s = .inr (.success s.out s.out.length)) ∨
      (∃ outlen, o.turn inp s = .inr (.enospc outlen)) ∨
      ∃ item, o.turn inp s = .inl (next s item) ∧ Decoded o inp (next s item) (items ++ [item]) ∧
        (next s item).inlen < s.inlen := by
  by_cases hend : s.inlen < 2
  · exact .inl ⟨hend, turn_end hs hend⟩
  · rcases item_or_enospc hs (by omega) with ⟨item, more, hitem⟩ | henospc
    · obtain ⟨written, hwritten, hturn⟩ := turn_item hs hitem
      obtain ⟨hroom, hfull⟩ := write_item hs item hwritten
      by_cases hfits : s.out.length + item.value.length ≤ o.cap ∧
          s.out.length + item.value.length < 2 ^ 31
      · have htwo := item.two_le_length_encode
        have hlt : s.inlen - item.encode.length < s.inlen := by omega
        exact .inr (.inr ⟨item, hturn.trans (hroom hfits.1 hfits.2),
          hs.next hitem hfits.1 hfits.2, hlt⟩)
      · obtain ⟨outlen, houtlen⟩ := hfull hfits
        exact .inr (.inl ⟨outlen, hturn.trans houtlen⟩)
    · exact .inr (.inl henospc)

theorem decoded_start (o : OutBuffer) (inp : List UInt8) : Decoded o inp (start inp) [] where
  pos_add := Nat.zero_add _
  read := rfl
  out := rfl
  nbytes := rfl
  out_le := Nat.zero_le _
  out_lt := Nat.two_pow_pos 31

/-! ## The runs -/

/-- The call ends, no access is out of bounds, and the output of a success is the one of the items of
the input, up to one byte behind them. -/
structure Correct (o : OutBuffer) (inp : List UInt8) : Prop where
  ends : ∃ result, o.Returns inp result
  in_bounds : ¬ o.Returns inp .fault
  success : ∀ out outlen, o.Returns inp (.success out outlen) →
    outlen = out.length ∧ out.length ≤ o.cap ∧
      ∃ (items : List RleItem) (tail : List UInt8), tail.length < 2 ∧
        inp = items.flatMap RleItem.encode ++ tail ∧ out = items.flatMap RleItem.value

/-- What a run comes to. -/
theorem after_cases (hs : Decoded o inp s items) {turns : ℕ} {result : RleResult}
    (h : Loop.after (o.turn inp) turns s = .inr result) :
    (∃ outlen, result = .enospc outlen) ∨
      ∃ s' items', Decoded o inp s' items' ∧ s'.inlen < 2 ∧ result = .success s'.out s'.out.length := by
  induction turns generalizing s items with
  | zero => cases h
  | succ turns ih =>
    rcases turn_cases hs with ⟨hend, hturn⟩ | ⟨outlen, hturn⟩ | ⟨item, hturn, hnext, -⟩
    · rw [Loop.after_succ_of_inr turns hturn] at h
      exact .inr ⟨s, items, hs, hend, (Sum.inr.inj h).symm⟩
    · rw [Loop.after_succ_of_inr turns hturn] at h
      exact .inl ⟨outlen, (Sum.inr.inj h).symm⟩
    · rw [Loop.after_succ_of_inl turns hturn] at h
      exact ih hnext h

theorem ends_turn (o : OutBuffer) (inp : List UInt8) : Loop.Ends (o.turn inp) (start inp) := by
  apply Loop.ends_of_measure (fun s => ∃ items, Decoded o inp s items) RleState.inlen
    ⟨[], decoded_start o inp⟩
  rintro s s' ⟨items, hs⟩ hstep
  rcases turn_cases hs with ⟨-, hturn⟩ | ⟨outlen, hturn⟩ | ⟨item, hturn, hnext, hlt⟩
  · rw [hturn] at hstep
    cases hstep
  · rw [hturn] at hstep
    cases hstep
  · rw [hturn] at hstep
    obtain rfl := Sum.inl.inj hstep
    exact ⟨⟨_, hnext⟩, hlt⟩

theorem returns_cases {result : RleResult} (h : o.Returns inp result) :
    result = .einval ∨ (∃ outlen, result = .enospc outlen) ∨
      ∃ s items, Decoded o inp s items ∧ s.inlen < 2 ∧ result = .success s.out s.out.length := by
  unfold Returns at h
  by_cases hshort : inp.length < 2
  · rw [if_pos hshort] at h
    exact .inl h
  · rw [if_neg hshort] at h
    obtain ⟨turns, hturns⟩ := h
    exact .inr (after_cases (decoded_start o inp) hturns)

/-- Every call is right. -/
theorem correct (o : OutBuffer) (inp : List UInt8) : o.Correct inp where
  ends := by
    unfold Returns
    by_cases hshort : inp.length < 2
    · exact ⟨.einval, by rw [if_pos hshort]⟩
    · obtain ⟨turns, result, hturns⟩ := o.ends_turn inp
      refine ⟨result, ?_⟩
      rw [if_neg hshort]
      exact ⟨turns, hturns⟩
  in_bounds := by
    intro h
    rcases returns_cases h with heq | ⟨outlen, heq⟩ | ⟨s, items, -, -, heq⟩ <;> cases heq
  success := by
    intro out outlen h
    rcases returns_cases h with heq | ⟨outlen, heq⟩ | ⟨s, items, hs, hend, heq⟩
    · cases heq
    · cases heq
    · obtain ⟨rfl, rfl⟩ := RleResult.success.inj heq
      have hpos := hs.pos_add
      refine ⟨rfl, hs.out_le, items, inp.drop s.pos, ?_, ?_, hs.out⟩
      · rw [List.length_drop]
        omega
      · rw [← hs.read, List.take_append_drop]

/-- Items that fit are read to their end. -/
theorem after_items {inp : List UInt8} {s : RleState} {items rest : List RleItem}
    (hs : Decoded o inp s items) (h : inp.drop s.pos = rest.flatMap RleItem.encode)
    (hcap : (s.out ++ rest.flatMap RleItem.value).length ≤ o.cap)
    (hint : (s.out ++ rest.flatMap RleItem.value).length < 2 ^ 31) :
    ∃ turns, Loop.after (o.turn inp) turns s =
      .inr (.success (s.out ++ rest.flatMap RleItem.value)
        (s.out ++ rest.flatMap RleItem.value).length) := by
  induction rest generalizing s items with
  | nil =>
    have hlen := congrArg List.length h
    rw [List.length_drop, List.flatMap_nil, List.length_nil] at hlen
    have hpos := hs.pos_add
    rw [List.flatMap_nil, List.append_nil]
    exact ⟨1, Loop.after_succ_of_inr 0 (turn_end hs (by omega))⟩
  | cons item rest ih =>
    rw [List.flatMap_cons] at h hcap hint
    rw [List.flatMap_cons]
    rw [← List.append_assoc] at hcap hint
    have hvalue : (s.out ++ item.value).length = s.out.length + item.value.length :=
      List.length_append
    have hfits : (s.out ++ item.value).length ≤ o.cap ∧ (s.out ++ item.value).length < 2 ^ 31 := by
      rw [List.length_append] at hcap hint
      omega
    rw [hvalue] at hfits
    obtain ⟨written, hwritten, hturn⟩ := turn_item hs h
    obtain ⟨hroom, -⟩ := write_item hs item hwritten
    have hnext := hs.next h hfits.1 hfits.2
    have hdrop : inp.drop (next s item).pos = rest.flatMap RleItem.encode := by
      unfold next
      rw [← List.drop_drop, h, List.drop_left]
    obtain ⟨turns, hturns⟩ := ih hnext hdrop hcap hint
    rw [← List.append_assoc]
    exact ⟨turns + 1,
      (Loop.after_succ_of_inl turns (hturn.trans (hroom hfits.1 hfits.2))).trans hturns⟩

/-- A byte string has an encoding that is decoded to it exactly when it fits in the buffer and its
length is an `int`. -/
theorem decodes_iff (o : OutBuffer) (bytes : List UInt8) :
    (∃ inp, o.Returns inp (.success bytes bytes.length)) ↔
      bytes.length ≤ o.cap ∧ bytes.length < 2 ^ 31 := by
  constructor
  · rintro ⟨inp, h⟩
    rcases returns_cases h with heq | ⟨outlen, heq⟩ | ⟨s, items, hs, -, heq⟩
    · cases heq
    · cases heq
    · obtain ⟨rfl, -⟩ := RleResult.success.inj heq
      exact ⟨hs.out_le, hs.out_lt⟩
  · rintro ⟨hcap, hint⟩
    have hvalue : (RleItem.fill 0 0 (by decide) :: RleItem.literals bytes).flatMap RleItem.value =
        bytes := by
      rw [List.flatMap_cons, RleItem.flatMap_literals]
      rfl
    refine ⟨(RleItem.fill 0 0 (by decide) :: RleItem.literals bytes).flatMap RleItem.encode, ?_⟩
    have hrun := @after_items o _ _ _ (RleItem.fill 0 0 (by decide) :: RleItem.literals bytes)
      (decoded_start o _) rfl
    rw [hvalue] at hrun
    unfold Returns
    rw [if_neg (by rw [List.flatMap_cons, List.length_append]; exact Nat.not_lt.mpr (Nat.le_add_right 2 _))]
    exact hrun hcap hint

end OutBuffer

end OpenWrt.RouterBoot
