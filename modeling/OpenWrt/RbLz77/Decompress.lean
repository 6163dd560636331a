/-
# The LZ77 decompressor of the RouterBoot calibration data

The input is a string of bits, the lowest of each byte first. Instructions stand
anywhere in it: a byte, a long group of bytes, or a match, whose offset is its own or
that of the last match. The functions follow the source; an access outside of a buffer,
after which C promises nothing, stops the run as a fault.

Sizes and positions are unbounded numbers: a buffer in memory is short enough for its
bits to be counted, so the check of the bit count against `SIZE_MAX` is left out, and
so is the failure of the allocation, which is an early error.
-/

import Mathlib.Data.Nat.Notation

namespace OpenWrt.RbLz77

/-! ## Outcomes -/

/-- An access outside of a buffer: to a byte of the input, to a byte of the output, or to
`n` bytes from `offset` before the end of the output that are not all written. -/
inductive Access where
  | read (index : ℕ)
  | write (index : ℕ)
  | source (offset n : ℕ)
  deriving DecidableEq, Repr

/-- The negative return values. -/
inductive Errno where
  | efbig
  | eoverflow
  | enodata
  | ebadmsg
  | enobufs
  | espipe
  | einval
  deriving DecidableEq, Repr

/-- Why a run does not go on. -/
inductive Stop where
  | fault (access : Access)
  | err (code : Errno)
  deriving DecidableEq, Repr

instance decidableEqExcept {ε α : Type} [DecidableEq ε] [DecidableEq α] : DecidableEq (Except ε α)
  | .ok a, .ok b => decidable_of_iff (a = b) ⟨congrArg _, Except.ok.inj⟩
  | .error e, .error e' => decidable_of_iff (e = e') ⟨congrArg _, Except.error.inj⟩
  | .ok _, .error _ => isFalse fun h => by cases h
  | .error _, .ok _ => isFalse fun h => by cases h

/-! ## Reading the input -/

/-- `rb_lz77_get_bit`. -/
def getBit (inp : List UInt8) (inOffsetBit : ℕ) : Except Stop Bool :=
  match inp[inOffsetBit / 8]? with
  | some byte => .ok (byte.toNat.testBit (inOffsetBit % 8))
  | none => .error (.fault (.read (inOffsetBit / 8)))

/-- The loop of `rb_lz77_get_byte`, with so many bits to go. -/
def getByteLoop (inp : List UInt8) : ℕ → ℕ → UInt8 → Except Stop UInt8
  | 0, _, buf => .ok buf
  | i + 1, pos, buf => do
      let bit ← getBit inp pos
      getByteLoop inp i (pos + 1) (buf + if bit then 1 <<< i.toUInt8 else 0)

/-- `rb_lz77_get_byte`: the first bit is the highest. -/
def getByte (inp : List UInt8) (inOffsetBit : ℕ) : Except Stop UInt8 :=
  getByteLoop inp 8 inOffsetBit 0

/-- The loop of `rb_lz77_decode_count`, with so many bits before `max_pos`: the position
of the last bit, and the count. -/
def decodeCountLoop (inp : List UInt8) : ℕ → ℕ → ℕ → ℕ → Bool → Except Stop (ℕ × ℕ)
  | 0, _, _, _, _ => .error (.err .efbig)
  | left + 1, pos, shift, count, up => do
      let bit ← getBit inp pos
      let count := if bit then count + 1 <<< shift else count
      let up := up && bit
      if up then decodeCountLoop inp left (pos + 1) (shift + 1) count up
      else if shift = 0 then .ok (pos, count)
      else decodeCountLoop inp left (pos + 1) (shift - 1) count up

/-- `MIKRO_LZ77_MAX_COUNT_BIT_LEN`. -/
def maxCountBitLen : ℕ := 27

/-- `rb_lz77_decode_count`: the count and the number of its bits. -/
def decodeCount (inp : List UInt8) (inOffsetBit shift count : ℕ) : Except Stop (ℕ × ℕ) := do
  let maxPos := min (inOffsetBit + maxCountBitLen) (inp.length * 8)
  let (pos, count) ← decodeCountLoop inp (maxPos - inOffsetBit) inOffsetBit shift count true
  return (count, pos - inOffsetBit + 1)

/-- `rb_lz77_instruction`. -/
inductive Instruction where
  | literalByte
  | previousOffset
  | long
  deriving DecidableEq, Repr

/-- `rb_lz77_decode_instruction`: the instruction and the number of its bits. -/
def decodeInstruction (inp : List UInt8) (inOffsetBit : ℕ) : Except Stop (Instruction × ℕ) := do
  if ← getBit inp inOffsetBit then
    if ← getBit inp (inOffsetBit + 1) then return (.long, 2) else return (.previousOffset, 2)
  else return (.literalByte, 1)

/-- `rb_lz77_instr_opcodes`, as far as it is read. -/
structure Opcode where
  instruction : Instruction
  offset : ℕ
  length : ℕ
  bitsUsed : ℕ
  deriving DecidableEq, Repr

/-- `rb_lz77_decode_instruction_operators`. -/
def decodeInstructionOperators (inp : List UInt8) (inOffsetBit previousOffset : ℕ) :
    Except Stop Opcode := do
  let (instruction, bitsUsed) ← decodeInstruction inp inOffsetBit
  match instruction with
  | .literalByte => return ⟨instruction, 0, 1, bitsUsed⟩
  | .previousOffset =>
    let (length, bits) ← decodeCount inp (inOffsetBit + bitsUsed) 0 1
    return ⟨instruction, previousOffset, length, bitsUsed + bits⟩
  | .long =>
    let (offset, bits) ← decodeCount inp (inOffsetBit + bitsUsed) 4 0
    let bitsUsed := bitsUsed + bits
    if offset = 0 then
      let (length, bits) ← decodeCount inp (inOffsetBit + bitsUsed) 4 12
      return ⟨instruction, offset, length, bitsUsed + bits⟩
    else
      let (length, bits) ← decodeCount inp (inOffsetBit + bitsUsed) 0 2
      return ⟨instruction, offset, length, bitsUsed + bits⟩

/-! ## Writing the output -/

/-- The loop that copies the bytes of a group into an output of `cap` bytes. -/
def copyLiteral (inp : List UInt8) (cap : ℕ) : ℕ → ℕ → List UInt8 → Except Stop (List UInt8)
  | 0, _, out => .ok out
  | i + 1, inputBit, out => do
      let byte ← getByte inp inputBit
      if out.length < cap then copyLiteral inp cap i (inputBit + 8) (out ++ [byte])
      else .error (.fault (.write out.length))

/-- `memcpy` of `n` bytes from `offset` before the end of the written output. -/
def memcpyBack (cap offset n : ℕ) (out : List UInt8) : Except Stop (List UInt8) :=
  if out.length < offset ∨ offset < n then .error (.fault (.source offset n))
  else if cap < out.length + n then .error (.fault (.write cap))
  else .ok (out ++ (out.drop (out.length - offset)).take n)

/-- The loop that copies a match in chunks. An offset is positive, so that a match has
at most as many turns as bytes. -/
def copyMatch (cap offset : ℕ) : ℕ → ℕ → List UInt8 → Except Stop (List UInt8)
  | 0, matchLength, out => memcpyBack cap offset matchLength out
  | turns + 1, matchLength, out =>
    if offset < matchLength then do
      let out ← memcpyBack cap offset offset out
      copyMatch cap offset turns (matchLength - offset) out
    else memcpyBack cap offset matchLength out

/-! ## The main loop -/

/-- The variables of the main loop; the output pointer stands after what is written. -/
structure State where
  inputBit : ℕ
  out : List UInt8
  matchOffset : ℕ
  deriving DecidableEq, Repr

/-- The input position after the operands of an end marker, whose bytes would end too
far; the position counts bits and the length bytes. -/
def IsEnd (inp : List UInt8) (length inputBit : ℕ) : Prop :=
  length = 0xc ∧ inp.length < inputBit + length * 8

instance (inp : List UInt8) (length inputBit : ℕ) : Decidable (IsEnd inp length inputBit) :=
  inferInstanceAs (Decidable (_ ∧ _))

/-- What one turn of the main loop does after the operands are read: the next state, or
the output of a finished run. -/
def apply (inp : List UInt8) (cap : ℕ) (s : State) (opcode : Opcode) :
    Except Stop (State ⊕ List UInt8) :=
  let inputBit := s.inputBit + opcode.bitsUsed
  if opcode.instruction ≠ .previousOffset ∧ opcode.offset = 0 then
    if IsEnd inp opcode.length inputBit then .ok (.inr s.out)
    else do
      let out ← copyLiteral inp cap opcode.length inputBit s.out
      return .inl { s with inputBit := inputBit + opcode.length * 8, out }
  else
    let matchOffset :=
      if opcode.instruction = .previousOffset then s.matchOffset else opcode.offset
    if opcode.offset = 0 then .error (.err .ebadmsg)
    else if cap < s.out.length + opcode.length then .error (.err .enobufs)
    else if s.out.length < opcode.offset then .error (.err .espipe)
    else do
      let out ← copyMatch cap opcode.offset opcode.length opcode.length s.out
      return .inl { inputBit, out, matchOffset }

/-- One turn of the main loop. -/
def turn (inp : List UInt8) (cap : ℕ) (s : State) : Except Stop (State ⊕ List UInt8) :=
  if cap < s.out.length then .error (.err .eoverflow)
  else if inp.length * 8 < s.inputBit then .error (.err .enodata)
  else do
    let opcode ← decodeInstructionOperators inp s.inputBit s.matchOffset
    apply inp cap s opcode

/-- The main loop for so many turns; the source has an error for the case that it is
left otherwise. -/
def decompressLoop (inp : List UInt8) (cap : ℕ) : ℕ → State → Except Stop (List UInt8)
  | 0, _ => .error (.err .einval)
  | turns + 1, s => do
      match ← turn inp cap s with
      | .inl s => decompressLoop inp cap turns s
      | .inr out => return out

/-- `rb_lz77_decompress` into an output of `cap` bytes. Every turn takes a bit. -/
def decompress (inp : List UInt8) (cap : ℕ) : Except Stop (List UInt8) :=
  decompressLoop inp cap (inp.length * 8 + 2) ⟨0, [], 0⟩

end OpenWrt.RbLz77
