/-
# The compressed format

What a compressed stream is, apart from any decoder: a sequence of instructions, each
with its code of bits, closed by the end marker, and the bytes that the sequence means.
The end marker is the head of a group of twelve bytes with too little input after it
for these bytes; what follows it pads the input.
-/

import OpenWrt.Lib.ExpGolomb
import OpenWrt.Lib.BackCopy

namespace OpenWrt.RbLz77

open OpenWrt.Lib

/-! ## Instructions -/

/-- The bits of the input, the lowest of each byte first. -/
def bitsOf (inp : List UInt8) : List Bool :=
  inp.flatMap fun byte => (List.range 8).map fun i => byte.toNat.testBit i

/-- The code of a byte, the highest bit first. -/
def byteBits (byte : UInt8) : List Bool :=
  toBits 8 byte.toNat

/-- An instruction of a stream. -/
inductive Instr where
  /-- One byte. -/
  | byte (value : UInt8)
  /-- A long group of bytes. -/
  | group (bytes : List UInt8) (long : 12 ≤ bytes.length)
  /-- A match with its offset. -/
  | copy (offset length : ℕ) (hoffset : 0 < offset) (hlength : 2 ≤ length)
  /-- A match with the offset of the last one. -/
  | again (length : ℕ) (hlength : 0 < length)

/-- The head of a group of so many bytes. -/
def groupHead (length : ℕ) : List Bool :=
  true :: true :: (ExpGolomb.encode 4 0 ++ ExpGolomb.encode 4 (length - 12))

/-- The head of a group of twelve bytes, which also closes a stream. -/
def endMark : List Bool :=
  groupHead 12

namespace Instr

def encode : Instr → List Bool
  | byte value => false :: byteBits value
  | group bytes _ => groupHead bytes.length ++ bytes.flatMap byteBits
  | copy offset length _ _ =>
    true :: true :: (ExpGolomb.encode 4 offset ++ ExpGolomb.encode 0 (length - 2))
  | again length _ => true :: false :: ExpGolomb.encode 0 (length - 1)

/-- What an instruction does with the output and the last offset. -/
def run : Instr → List UInt8 × ℕ → Option (List UInt8 × ℕ)
  | byte value, (out, last) => some (out ++ [value], last)
  | group bytes _, (out, last) => some (out ++ bytes, last)
  | copy offset length _ _, (out, _) => (copyBack offset length out).map (·, offset)
  | again length _, (out, last) => (copyBack last length out).map (·, last)

/-- The counts of an instruction have at most 27 bits each. -/
def Short : Instr → Prop
  | byte _ => True
  | group bytes _ => (ExpGolomb.encode 4 (bytes.length - 12)).length ≤ 27
  | copy offset length _ _ =>
    (ExpGolomb.encode 4 offset).length ≤ 27 ∧ (ExpGolomb.encode 0 (length - 2)).length ≤ 27
  | again length _ => (ExpGolomb.encode 0 (length - 1)).length ≤ 27

end Instr

/-- The output of a sequence of instructions, from an output and a last offset. -/
def runAll (instrs : List Instr) (s : List UInt8 × ℕ) : Option (List UInt8 × ℕ) :=
  instrs.foldlM (fun s instr => instr.run s) s

/-- The input is a stream of this output: complete instructions, the end marker, and
padding in which no group of twelve bytes has room. -/
def IsStream (inp out : List UInt8) : Prop :=
  ∃ instrs pad last, bitsOf inp = instrs.flatMap Instr.encode ++ endMark ++ pad ∧
    pad.length < 96 ∧ runAll instrs ([], 0) = some (out, last)

/-! ## Reading an instruction -/

def readBytes : ℕ → List Bool → Option (List UInt8 × List Bool)
  | 0, bs => some ([], bs)
  | n + 1, bs =>
    if 8 ≤ bs.length then
      (readBytes n (bs.drop 8)).map fun (bytes, rest) =>
        (UInt8.ofNat (ofBits (bs.take 8)) :: bytes, rest)
    else none

def readInstr : List Bool → Option (Instr × List Bool)
  | [] | [true] => none
  | false :: bs =>
    if 8 ≤ bs.length then some (.byte (UInt8.ofNat (ofBits (bs.take 8))), bs.drop 8) else none
  | true :: false :: bs =>
    (ExpGolomb.decode 0 bs).map fun (n, rest) => (.again (n + 1) n.succ_pos, rest)
  | true :: true :: bs =>
    (ExpGolomb.decode 4 bs).bind fun (offset, bs) =>
      if hoffset : 0 < offset then
        (ExpGolomb.decode 0 bs).map fun (n, rest) =>
          (.copy offset (n + 2) hoffset (Nat.le_add_left 2 n), rest)
      else
        (ExpGolomb.decode 4 bs).bind fun (n, bs) =>
          (readBytes (n + 12) bs).bind fun (bytes, rest) =>
            if long : 12 ≤ bytes.length then some (.group bytes long, rest) else none

@[simp]
theorem length_byteBits (byte : UInt8) : (byteBits byte).length = 8 :=
  length_toBits 8 _

theorem length_flatMap_byteBits (bytes : List UInt8) :
    (bytes.flatMap byteBits).length = bytes.length * 8 := by
  induction bytes with
  | nil => rfl
  | cons byte bytes ih =>
    rw [List.flatMap_cons, List.length_append, length_byteBits, ih, List.length_cons]
    omega

theorem ofNat_ofBits_byteBits (byte : UInt8) : UInt8.ofNat (ofBits (byteBits byte)) = byte := by
  unfold byteBits
  rw [ofBits_toBits_of_lt byte.toNat_lt, UInt8.ofNat_toNat]

theorem byteBits_ofNat_ofBits {bs : List Bool} (hlen : bs.length = 8) :
    byteBits (UInt8.ofNat (ofBits bs)) = bs := by
  have hlt : ofBits bs < 2 ^ 8 := hlen ▸ ofBits_lt bs
  unfold byteBits
  rw [UInt8.toNat_ofNat_of_lt' hlt]
  simpa only [hlen] using toBits_ofBits bs

theorem readBytes_encode (bytes : List UInt8) (rest : List Bool) :
    readBytes bytes.length (bytes.flatMap byteBits ++ rest) = some (bytes, rest) := by
  induction bytes with
  | nil => rfl
  | cons byte bytes ih =>
    have hlen := length_byteBits byte
    rw [List.length_cons, readBytes, List.flatMap_cons, List.append_assoc,
      List.drop_left' hlen, List.take_left' hlen, ih, ofNat_ofBits_byteBits, Option.map_some,
      if_pos (by rw [List.length_append]; omega)]

/-- The bytes that are read are the ones in the string. -/
theorem eq_encode_of_readBytes {n : ℕ} {bs rest : List Bool} {bytes : List UInt8}
    (h : readBytes n bs = some (bytes, rest)) :
    bytes.length = n ∧ bs = bytes.flatMap byteBits ++ rest := by
  induction n generalizing bs bytes with
  | zero =>
    obtain ⟨rfl, rfl⟩ := Prod.mk.inj (Option.some.inj h)
    exact ⟨rfl, rfl⟩
  | succ n ih =>
    rw [readBytes] at h
    split at h
    case isTrue hle =>
      obtain ⟨⟨tail, rest'⟩, htail, heq⟩ := Option.map_eq_some_iff.mp h
      obtain ⟨rfl, rfl⟩ := Prod.mk.inj heq
      obtain ⟨hlen, hbs⟩ := ih htail
      refine ⟨by rw [List.length_cons, hlen], ?_⟩
      rw [List.flatMap_cons, byteBits_ofNat_ofBits (List.length_take_of_le hle),
        List.append_assoc, ← hbs, List.take_append_drop]
    case isFalse => cases h

/-- An instruction is read back from its code, whatever follows. -/
theorem readInstr_encode (instr : Instr) (rest : List Bool) :
    readInstr (instr.encode ++ rest) = some (instr, rest) := by
  cases instr with
  | byte value =>
    have hlen := length_byteBits value
    rw [Instr.encode, List.cons_append, readInstr, List.take_left' hlen, List.drop_left' hlen,
      ofNat_ofBits_byteBits, if_pos (by rw [List.length_append]; omega)]
  | group bytes long =>
    have hcount : bytes.length - 12 + 12 = bytes.length := Nat.sub_add_cancel long
    rw [Instr.encode, groupHead, List.append_assoc, List.cons_append, List.cons_append,
      readInstr, List.append_assoc, ExpGolomb.decode_encode, Option.bind_some]
    dsimp only
    rw [dif_neg (Nat.lt_irrefl 0), ExpGolomb.decode_encode, Option.bind_some]
    dsimp only
    rw [hcount, readBytes_encode, Option.bind_some]
    dsimp only
    rw [dif_pos long]
  | copy offset length hoffset hlength =>
    have hcount : length - 2 + 2 = length := Nat.sub_add_cancel hlength
    rw [Instr.encode, List.cons_append, List.cons_append, readInstr, List.append_assoc,
      ExpGolomb.decode_encode, Option.bind_some]
    dsimp only
    rw [dif_pos hoffset, ExpGolomb.decode_encode, Option.map_some]
    simp only [hcount]
  | again length hlength =>
    have hcount : length - 1 + 1 = length := Nat.sub_add_cancel hlength
    rw [Instr.encode, List.cons_append, List.cons_append, readInstr,
      ExpGolomb.decode_encode, Option.map_some]
    simp only [hcount]

theorem encode_inj {i j : Instr} {r r' : List Bool} (h : i.encode ++ r = j.encode ++ r') :
    i = j ∧ r = r' := by
  have hread := readInstr_encode i r
  rw [h, readInstr_encode] at hread
  obtain ⟨rfl, rfl⟩ := Prod.mk.inj (Option.some.inj hread)
  exact ⟨rfl, rfl⟩

/-- What starts with the end marker is the group of the next twelve bytes, if it is an
instruction at all. -/
theorem length_of_endMark {instr : Instr} {r pad : List Bool}
    (h : instr.encode ++ r = endMark ++ pad) : 96 ≤ pad.length ∧
      ∃ bytes long, instr = .group bytes long ∧ bytes.length = 12 := by
  have hread := readInstr_encode instr r
  rw [h, endMark, groupHead, List.cons_append, List.cons_append, readInstr, List.append_assoc,
    ExpGolomb.decode_encode, Option.bind_some] at hread
  dsimp only at hread
  rw [dif_neg (Nat.lt_irrefl 0), ExpGolomb.decode_encode, Option.bind_some] at hread
  obtain ⟨⟨bytes, rest⟩, hbytes, hgroup⟩ := Option.bind_eq_some_iff.mp hread
  dsimp only at hgroup
  split at hgroup
  case isTrue long =>
    obtain ⟨rfl, rfl⟩ := Prod.mk.inj (Option.some.inj hgroup)
    obtain ⟨hlen, hpad⟩ := eq_encode_of_readBytes hbytes
    refine ⟨?_, bytes, long, rfl, hlen⟩
    have hbits := congrArg List.length hpad
    rw [List.length_append, length_flatMap_byteBits, hlen] at hbits
    dsimp only at hbits
    omega
  case isFalse => cases hgroup

end OpenWrt.RbLz77
