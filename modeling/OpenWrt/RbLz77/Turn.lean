/-
# One turn of the decompressor

What one turn of the main loop does, in terms of the format: it runs the next
instruction, or takes a group of twelve bytes for the end, or goes past the end of a
buffer with the bits of the instruction itself or with the bytes of a group, or it
returns an error. A match never goes past the end of anything.
-/

import OpenWrt.RbLz77.Reading

namespace OpenWrt.RbLz77

open OpenWrt.Lib

@[simp]
theorem ok_bind {ε α β : Type} (a : α) (f : α → Except ε β) : (Except.ok a >>= f) = f a :=
  rfl

/-! ## Copying -/

section Copying

variable {inp : List UInt8} {cap : ℕ}

theorem exists_bytes {n : ℕ} {bs : List Bool} (h : n * 8 ≤ bs.length) :
    ∃ (bytes : List UInt8) (rest : List Bool),
      bytes.length = n ∧ bs = bytes.flatMap byteBits ++ rest := by
  induction n generalizing bs with
  | zero => exact ⟨[], bs, rfl, rfl⟩
  | succ n ih =>
    have hbits : n * 8 ≤ (bs.drop 8).length := by
      rw [List.length_drop]
      omega
    obtain ⟨bytes, rest, hlen, hrest⟩ := ih hbits
    refine ⟨UInt8.ofNat (ofBits (bs.take 8)) :: bytes, rest, by rw [List.length_cons, hlen], ?_⟩
    rw [List.flatMap_cons, byteBits_ofNat_ofBits (List.length_take_of_le (by omega)),
      List.append_assoc, ← hrest, List.take_append_drop]

variable {out : List UInt8}

/-- A group with its bytes in the input and room in the output. -/
theorem copyLiteral_eq {bytes : List UInt8} {rest : List Bool} {pos : ℕ}
    (h : bitsFrom inp pos = bytes.flatMap byteBits ++ rest) (hcap : out.length + bytes.length ≤ cap) :
    copyLiteral inp cap bytes.length pos out = .ok (out ++ bytes) := by
  induction bytes generalizing pos out with
  | nil => rw [List.length_nil, copyLiteral, List.append_nil]
  | cons byte bytes ih =>
    rw [List.flatMap_cons, List.append_assoc] at h
    rw [List.length_cons] at hcap
    have hnext : bitsFrom inp (pos + 8) = bytes.flatMap byteBits ++ rest := by
      simpa only [length_byteBits] using bitsFrom_length _ h
    rw [List.length_cons, copyLiteral, getByte_eq h]
    change (if out.length < cap then _ else _) = _
    rw [if_pos (by omega), ih hnext (by rw [List.length_append, List.length_singleton]; omega),
      List.append_assoc, List.singleton_append]

/-- A group without that goes past an end. -/
theorem copyLiteral_fault {n pos : ℕ} (h : (bitsFrom inp pos).length < n * 8 ∨ cap < out.length + n)
    (hcap : out.length ≤ cap) :
    ∃ access, copyLiteral inp cap n pos out = .error (.fault access) := by
  induction n generalizing pos out with
  | zero => omega
  | succ n ih =>
    by_cases hbits : (bitsFrom inp pos).length < 8
    · obtain ⟨i, -, hfault⟩ := getByteLoop_fault hbits 0
      refine ⟨.read i, ?_⟩
      rw [copyLiteral]
      unfold getByte
      rw [hfault]
      rfl
    · obtain ⟨bytes, rest, hlen, hbytes⟩ :=
        exists_bytes (n := 1) (Nat.le_of_not_lt hbits)
      obtain ⟨byte, rfl⟩ := List.length_eq_one_iff.mp hlen
      rw [List.flatMap_singleton] at hbytes
      rw [copyLiteral, getByte_eq hbytes]
      change ∃ access, (if out.length < cap then _ else _) = _
      by_cases hroom : out.length < cap
      · rw [if_pos hroom]
        refine ih ?_ (by rw [List.length_append, List.length_singleton]; omega)
        rw [bitsFrom_add, List.length_drop, List.length_append, List.length_singleton]
        omega
      · rw [if_neg hroom]
        exact ⟨_, rfl⟩

theorem memcpyBack_eq {offset n : ℕ} (hoffset : offset ≤ out.length) (hn : n ≤ offset)
    (hcap : out.length + n ≤ cap) :
    memcpyBack cap offset n out = .ok (out ++ lastChunk offset n out) := by
  unfold memcpyBack
  rw [if_neg (by omega), if_neg (by omega)]
  rfl

/-- The chunks of a match make the copy of the format. -/
theorem copyMatch_eq {offset turns matchLength : ℕ} (hpos : 0 < offset)
    (hoffset : offset ≤ out.length) (hturns : matchLength ≤ turns)
    (hcap : out.length + matchLength ≤ cap) :
    ∃ copied, copyBack offset matchLength out = some copied ∧
      copyMatch cap offset turns matchLength out = .ok copied := by
  induction turns generalizing matchLength out with
  | zero =>
    obtain rfl : matchLength = 0 := by omega
    exact ⟨_, copyBack_chunk hoffset (Nat.zero_le offset),
      memcpyBack_eq hoffset (Nat.zero_le offset) hcap⟩
  | succ turns ih =>
    rw [copyMatch]
    by_cases hlong : offset < matchLength
    · have hlen : (out ++ lastChunk offset offset out).length = out.length + offset := by
        rw [List.length_append, length_lastChunk hoffset (Nat.le_refl offset)]
      have hroom : (out ++ lastChunk offset offset out).length + (matchLength - offset) ≤ cap := by
        omega
      obtain ⟨copied, hcopied, hloop⟩ := ih (by omega) (by omega) hroom
      have hsplit : matchLength = offset + (matchLength - offset) := by omega
      refine ⟨copied, ?_, ?_⟩
      · rw [hsplit, copyBack_add, copyBack_chunk hoffset (Nat.le_refl offset)]
        exact hcopied
      · rw [if_pos hlong, memcpyBack_eq hoffset (Nat.le_refl offset) (by omega)]
        exact hloop
    · rw [if_neg hlong]
      exact ⟨_, copyBack_chunk hoffset (by omega), memcpyBack_eq hoffset (by omega) hcap⟩

end Copying

/-! ## Operands -/

section Operands

variable {inp : List UInt8} {pos : ℕ} {rest : List Bool}

theorem decodeInstruction_cons {b : Bool} {bs : List Bool} (h : bitsFrom inp pos = b :: bs) :
    decodeInstruction inp pos =
      if b then do
        if ← getBit inp (pos + 1) then return (.long, 2) else return (.previousOffset, 2)
      else .ok (.literalByte, 1) := by
  unfold decodeInstruction
  rw [getBit_cons h]
  rfl

theorem operators_byte (h : bitsFrom inp pos = false :: rest) (previousOffset : ℕ) :
    decodeInstructionOperators inp pos previousOffset = .ok ⟨.literalByte, 0, 1, 1⟩ := by
  unfold decodeInstructionOperators
  rw [decodeInstruction_cons h]
  rfl

theorem operators_fault (h : bitsFrom inp pos = [] ∨ bitsFrom inp pos = [true])
    (previousOffset : ℕ) :
    ∃ i, decodeInstructionOperators inp pos previousOffset = .error (.fault (.read i)) := by
  unfold decodeInstructionOperators
  rcases h with h | h
  · unfold decodeInstruction
    rw [getBit_nil h]
    exact ⟨_, rfl⟩
  · rw [decodeInstruction_cons h, if_pos rfl, getBit_nil (bitsFrom_succ h)]
    exact ⟨_, rfl⟩

theorem operators_again (h : bitsFrom inp pos = true :: false :: rest) (previousOffset : ℕ) :
    decodeInstructionOperators inp pos previousOffset =
      decodeCount inp (pos + 2) 0 1 >>= fun r =>
        .ok ⟨.previousOffset, previousOffset, r.1, 2 + r.2⟩ := by
  unfold decodeInstructionOperators
  rw [decodeInstruction_cons h, if_pos rfl, getBit_cons (bitsFrom_succ h)]
  rfl

theorem operators_long (h : bitsFrom inp pos = true :: true :: rest) (previousOffset : ℕ) :
    decodeInstructionOperators inp pos previousOffset =
      decodeCount inp (pos + 2) 4 0 >>= fun r =>
        (if r.1 = 0 then decodeCount inp (pos + (2 + r.2)) 4 12
          else decodeCount inp (pos + (2 + r.2)) 0 2) >>= fun r' =>
            .ok ⟨.long, r.1, r'.1, 2 + r.2 + r'.2⟩ := by
  unfold decodeInstructionOperators
  rw [decodeInstruction_cons h, if_pos rfl, getBit_cons (bitsFrom_succ h)]
  change (decodeCount inp (pos + 2) 4 0 >>= _) = _
  refine congrArg _ (funext fun r => ?_)
  obtain ⟨offset, bits⟩ := r
  by_cases hzero : offset = 0
  · subst hzero
    rfl
  · simp only [if_neg hzero]
    rfl

end Operands

/-! ## The outcomes of a turn -/

/-- The head of a byte or of a group, for so many bytes. -/
inductive LiteralHead : ℕ → List Bool → Prop
  | byte : LiteralHead 1 [false]
  | group {n : ℕ} (long : 12 ≤ n) (short : (ExpGolomb.encode 4 (n - 12)).length ≤ 27) :
      LiteralHead n (groupHead n)

/-- The loop takes the instruction for the end. -/
def Instr.TakenAsEnd (inp : List UInt8) (pos : ℕ) : Instr → Prop
  | .group bytes _ => IsEnd inp bytes.length (pos + (groupHead bytes.length).length)
  | _ => False

/-- The next instruction is complete, has short counts, is not taken for the end, and its
output has room. -/
structure Next (inp : List UInt8) (cap : ℕ) (s s' : State) (instr : Instr) : Prop where
  code : ∃ rest, bitsFrom inp s.inputBit = instr.encode ++ rest
  short : instr.Short
  goesOn : ¬ instr.TakenAsEnd inp s.inputBit
  run : instr.run (s.out, s.matchOffset) = some (s'.out, s'.matchOffset)
  room : s'.out.length ≤ cap
  pos : s'.inputBit = s.inputBit + instr.encode.length

/-- The next bits are the end marker, or the head of a group that is taken for it. -/
structure AtEnd (inp : List UInt8) (s : State) : Prop where
  mark : ∃ rest, bitsFrom inp s.inputBit = endMark ++ rest
  isEnd : IsEnd inp 12 (s.inputBit + endMark.length)

/-- The instruction's own bits are not all in the input, or the bytes of a group are not
all there or have no room. -/
inductive Overrun (inp : List UInt8) (cap : ℕ) (s : State) : Prop
  | head (h : bitsFrom inp s.inputBit = [] ∨ bitsFrom inp s.inputBit = [true])
  | literal {n : ℕ} {code rest : List Bool} (head : LiteralHead n code)
      (h : bitsFrom inp s.inputBit = code ++ rest)
      (goesOn : ¬ IsEnd inp n (s.inputBit + code.length))
      (room : rest.length < n * 8 ∨ cap < s.out.length + n)

section Turn

variable {inp : List UInt8} {cap : ℕ} {s s' : State} {instr : Instr}

/-- The loop's own checks hold between two turns. -/
structure State.Fits (inp : List UInt8) (cap : ℕ) (s : State) : Prop where
  out : s.out.length ≤ cap
  inputBit : s.inputBit ≤ inp.length * 8

theorem turn_eq (hs : s.Fits inp cap) :
    turn inp cap s =
      decodeInstructionOperators inp s.inputBit s.matchOffset >>= apply inp cap s := by
  unfold turn
  rw [if_neg (Nat.not_lt.mpr hs.out), if_neg (Nat.not_lt.mpr hs.inputBit)]

theorem length_groupHead (n : ℕ) :
    (groupHead n).length =
      2 + (ExpGolomb.encode 4 0).length + (ExpGolomb.encode 4 (n - 12)).length := by
  unfold groupHead
  rw [List.length_cons, List.length_cons, List.length_append]
  omega

theorem operators_literal {n : ℕ} {code rest : List Bool} (head : LiteralHead n code)
    {pos : ℕ} (h : bitsFrom inp pos = code ++ rest) (previousOffset : ℕ) :
    ∃ instruction, instruction ≠ .previousOffset ∧
      decodeInstructionOperators inp pos previousOffset =
        .ok ⟨instruction, 0, n, code.length⟩ := by
  cases head with
  | byte => exact ⟨.literalByte, by decide, operators_byte h previousOffset⟩
  | group long short =>
    have hzero : (ExpGolomb.encode 4 0).length ≤ 27 := by
      rw [ExpGolomb.encode_of_lt (by decide)]
      decide
    have hhead : bitsFrom inp pos = true :: true ::
        (ExpGolomb.encode 4 0 ++ (ExpGolomb.encode 4 (n - 12) ++ rest)) := by
      rw [h, groupHead, List.cons_append, List.cons_append, List.append_assoc]
    have hoffset : bitsFrom inp (pos + 2) =
        ExpGolomb.encode 4 0 ++ (ExpGolomb.encode 4 (n - 12) ++ rest) :=
      bitsFrom_length [true, true] hhead
    have hlength := bitsFrom_length (true :: true :: ExpGolomb.encode 4 0) hhead
    have hpos : pos + (true :: true :: ExpGolomb.encode 4 0).length =
        pos + (2 + (ExpGolomb.encode 4 0).length) := by
      rw [List.length_cons, List.length_cons]
      omega
    rw [hpos] at hlength
    refine ⟨.long, by decide, ?_⟩
    rw [operators_long hhead, decodeCount_eq hoffset hzero, length_groupHead, ok_bind]
    dsimp only
    rw [if_pos rfl, decodeCount_eq hlength short, ok_bind, Nat.add_sub_cancel' long]

/-- A turn on a byte or a group. -/
theorem turn_literal (hs : s.Fits inp cap) {n : ℕ} {code rest : List Bool}
    (head : LiteralHead n code) (h : bitsFrom inp s.inputBit = code ++ rest) :
    turn inp cap s =
      if IsEnd inp n (s.inputBit + code.length) then .ok (.inr s.out)
      else do
        let out ← copyLiteral inp cap n (s.inputBit + code.length) s.out
        return .inl { s with inputBit := s.inputBit + code.length + n * 8, out } := by
  obtain ⟨instruction, hne, hops⟩ := operators_literal head h s.matchOffset
  rw [turn_eq hs, hops, ok_bind]
  unfold apply
  rw [if_pos ⟨hne, rfl⟩]

/-- Nothing past an end is touched by a match; it is an error when its bytes have no room
or its offset is not inside the output. -/
theorem apply_match (inp : List UInt8) (cap : ℕ) (s : State) {instruction : Instruction}
    {offset : ℕ} (length bits : ℕ)
    (hkind : instruction = .previousOffset ∨ 0 < offset)
    (hlast : instruction = .previousOffset → offset = s.matchOffset) :
    (∃ copied, copyBack offset length s.out = some copied ∧ 0 < offset ∧
        offset ≤ s.out.length ∧ s.out.length + length ≤ cap ∧
        apply inp cap s ⟨instruction, offset, length, bits⟩ =
          .ok (.inl ⟨s.inputBit + bits, copied, offset⟩)) ∨
      (¬ (0 < offset ∧ offset ≤ s.out.length ∧ s.out.length + length ≤ cap) ∧
        ∃ e, apply inp cap s ⟨instruction, offset, length, bits⟩ = .error (.err e)) := by
  have hmatch : ¬ (instruction ≠ .previousOffset ∧ offset = 0) := by
    rintro ⟨hne, hzero⟩
    exact Nat.ne_of_gt (hkind.resolve_left hne) hzero
  have hoffset : (if instruction = .previousOffset then s.matchOffset else offset) = offset := by
    split
    case isTrue h => exact (hlast h).symm
    case isFalse => rfl
  unfold apply
  dsimp only
  rw [if_neg hmatch, hoffset]
  by_cases hzero : offset = 0
  · rw [if_pos hzero]
    exact .inr ⟨by omega, _, rfl⟩
  · rw [if_neg hzero]
    by_cases hroom : cap < s.out.length + length
    · rw [if_pos hroom]
      exact .inr ⟨by omega, _, rfl⟩
    · rw [if_neg hroom]
      by_cases hunder : s.out.length < offset
      · rw [if_pos hunder]
        exact .inr ⟨by omega, _, rfl⟩
      · have hpos : 0 < offset := Nat.pos_of_ne_zero hzero
        obtain ⟨copied, hcopied, hloop⟩ := copyMatch_eq hpos (Nat.le_of_not_lt hunder)
          (Nat.le_refl length) (Nat.le_of_not_lt hroom)
        rw [if_neg hunder, hloop]
        exact .inl ⟨copied, hcopied, by omega, by omega, by omega, rfl⟩

theorem operators_copy {offset n pos : ℕ} {rest : List Bool} (hpos : 0 < offset)
    (h : bitsFrom inp pos =
      true :: true :: (ExpGolomb.encode 4 offset ++ ExpGolomb.encode 0 n ++ rest))
    (hoffset : (ExpGolomb.encode 4 offset).length ≤ 27)
    (hlength : (ExpGolomb.encode 0 n).length ≤ 27) (previousOffset : ℕ) :
    decodeInstructionOperators inp pos previousOffset =
      .ok ⟨.long, offset, n + 2,
        2 + (ExpGolomb.encode 4 offset).length + (ExpGolomb.encode 0 n).length⟩ := by
  rw [List.append_assoc] at h
  have hfirst : bitsFrom inp (pos + 2) =
      ExpGolomb.encode 4 offset ++ (ExpGolomb.encode 0 n ++ rest) :=
    bitsFrom_length [true, true] h
  have hsecond : bitsFrom inp (pos + (2 + (ExpGolomb.encode 4 offset).length)) =
      ExpGolomb.encode 0 n ++ rest := by
    rw [← Nat.add_assoc]
    exact bitsFrom_length _ hfirst
  rw [operators_long h, decodeCount_eq hfirst hoffset, ok_bind]
  dsimp only
  rw [Nat.zero_add, if_neg (Nat.ne_of_gt hpos), decodeCount_eq hsecond hlength, ok_bind,
    Nat.add_comm 2 n]

theorem operators_last {n pos : ℕ} {rest : List Bool}
    (h : bitsFrom inp pos = true :: false :: (ExpGolomb.encode 0 n ++ rest))
    (hlength : (ExpGolomb.encode 0 n).length ≤ 27) (previousOffset : ℕ) :
    decodeInstructionOperators inp pos previousOffset =
      .ok ⟨.previousOffset, previousOffset, n + 1, 2 + (ExpGolomb.encode 0 n).length⟩ := by
  have hcount : bitsFrom inp (pos + 2) = ExpGolomb.encode 0 n ++ rest :=
    bitsFrom_length [true, false] h
  rw [operators_again h, decodeCount_eq hcount hlength, ok_bind, Nat.add_comm 1 n]

/-! ## From the format to the turn -/

theorem turn_of_next (hs : s.Fits inp cap) (h : Next inp cap s s' instr) :
    turn inp cap s = .ok (.inl s') := by
  obtain ⟨⟨rest, hcode⟩, hshort, hgoesOn, hrun, hroom, hpos⟩ := h
  obtain ⟨pos', out', last'⟩ := s'
  dsimp only at hrun hroom hpos
  subst hpos
  -- a match that runs has an offset inside the output, and its bytes have room
  have hmatch : ∀ {offset length : ℕ}, 0 < length →
      copyBack offset length s.out = some out' →
        0 < offset ∧ offset ≤ s.out.length ∧ s.out.length + length ≤ cap := by
    intro offset length hlength hcopied
    obtain ⟨hzero, hunder⟩ := distance_of_copyBack hlength hcopied
    obtain ⟨copied, hcopied', hlen⟩ := exists_copyBack hzero hunder length
    obtain rfl := Option.some.inj (hcopied.symm.trans hcopied')
    exact ⟨hzero, hunder, by omega⟩
  cases instr with
  | byte value =>
    obtain ⟨rfl, rfl⟩ := Prod.mk.inj (Option.some.inj hrun)
    have hbits : bitsFrom inp (s.inputBit + [false].length) =
        [value].flatMap byteBits ++ rest := by
      rw [List.flatMap_singleton]
      exact bitsFrom_length [false] hcode
    have hhead : bitsFrom inp s.inputBit = [false] ++ (byteBits value ++ rest) := hcode
    rw [turn_literal hs .byte hhead, if_neg (fun hend => by cases hend.1)]
    rw [List.length_append, List.length_singleton] at hroom
    have hcopy := copyLiteral_eq hbits hroom
    rw [List.length_singleton] at hcopy
    rw [hcopy, ok_bind]
    simp only [Instr.encode, List.length_cons, length_byteBits, List.length_nil]
    rfl
  | group bytes long =>
    obtain ⟨rfl, rfl⟩ := Prod.mk.inj (Option.some.inj hrun)
    rw [Instr.encode, List.append_assoc] at hcode
    have hbits := bitsFrom_length _ hcode
    have hgoesOn : ¬ IsEnd inp bytes.length (s.inputBit + (groupHead bytes.length).length) :=
      hgoesOn
    rw [List.length_append] at hroom
    rw [turn_literal hs (.group long hshort) hcode, if_neg hgoesOn,
      copyLiteral_eq hbits hroom, ok_bind]
    simp only [Instr.encode, List.length_append, length_flatMap_byteBits, Nat.add_assoc]
    rfl
  | copy offset length hoffset hlength =>
    obtain ⟨copied, hcopied, heq⟩ := Option.map_eq_some_iff.mp hrun
    obtain ⟨rfl, rfl⟩ := Prod.mk.inj heq
    obtain ⟨-, hunder, hroom'⟩ := hmatch (by omega) hcopied
    have hcount : length - 2 + 2 = length := Nat.sub_add_cancel hlength
    rw [turn_eq hs, operators_copy hoffset hcode hshort.1 hshort.2, hcount, ok_bind]
    have hlong : Instruction.long = .previousOffset → offset = s.matchOffset := by
      intro h
      cases h
    rcases apply_match inp cap s length
      (2 + (ExpGolomb.encode 4 offset).length + (ExpGolomb.encode 0 (length - 2)).length)
      (.inr hoffset) hlong with ⟨copied', hcopied', -, -, -, happly⟩ | ⟨hbad, -⟩
    · obtain rfl := Option.some.inj (hcopied.symm.trans hcopied')
      rw [happly]
      simp only [Instr.encode, List.length_cons, List.length_append]
      congr 3
      omega
    · exact absurd ⟨hoffset, hunder, hroom'⟩ hbad
  | again length hlength =>
    obtain ⟨copied, hcopied, heq⟩ := Option.map_eq_some_iff.mp hrun
    obtain ⟨rfl, rfl⟩ := Prod.mk.inj heq
    obtain ⟨hzero, hunder, hroom'⟩ := hmatch hlength hcopied
    have hcount : length - 1 + 1 = length := Nat.sub_add_cancel hlength
    rw [turn_eq hs, operators_last hcode hshort, hcount, ok_bind]
    have hlast : Instruction.previousOffset = .previousOffset → s.matchOffset = s.matchOffset :=
      fun _ => rfl
    rcases apply_match inp cap s length (2 + (ExpGolomb.encode 0 (length - 1)).length)
      (.inl rfl) hlast with ⟨copied', hcopied', -, -, -, happly⟩ | ⟨hbad, -⟩
    · obtain rfl := Option.some.inj (hcopied.symm.trans hcopied')
      rw [happly]
      simp only [Instr.encode, List.length_cons]
      congr 3
      omega
    · exact absurd ⟨hzero, hunder, hroom'⟩ hbad

theorem turn_of_atEnd (hs : s.Fits inp cap) (h : AtEnd inp s) :
    turn inp cap s = .ok (.inr s.out) := by
  obtain ⟨⟨rest, hmark⟩, hend⟩ := h
  have hshort : (ExpGolomb.encode 4 (12 - 12)).length ≤ 27 := by
    rw [ExpGolomb.encode_of_lt (by decide)]
    decide
  exact (turn_literal hs (.group (Nat.le_refl 12) hshort) hmark).trans (if_pos hend)

/-- The loop goes past an end. -/
theorem turn_of_overrun (hs : s.Fits inp cap) (h : Overrun inp cap s) :
    ∃ access, turn inp cap s = .error (.fault access) := by
  cases h with
  | head h =>
    obtain ⟨i, hfault⟩ := operators_fault h s.matchOffset
    refine ⟨.read i, ?_⟩
    rw [turn_eq hs, hfault]
    rfl
  | literal head h goesOn room =>
    have hroom := room
    rw [← bitsFrom_length _ h] at hroom
    obtain ⟨access, hfault⟩ := copyLiteral_fault hroom hs.out
    refine ⟨access, ?_⟩
    rw [turn_literal hs head h, if_neg goesOn, hfault]
    rfl

/-! ## From the turn to the format -/

/-- A byte or a group is run, taken for the end, or goes past an end. -/
theorem literal_cases {n : ℕ} {code rest : List Bool}
    (head : LiteralHead n code) (h : bitsFrom inp s.inputBit = code ++ rest) :
    (∃ s' instr, Next inp cap s s' instr) ∨ AtEnd inp s ∨ Overrun inp cap s := by
  by_cases hend : IsEnd inp n (s.inputBit + code.length)
  · refine .inr (.inl ?_)
    cases head with
    | byte => exact absurd hend.1 (by decide)
    | group long short =>
      obtain rfl : n = 12 := hend.1
      exact ⟨⟨rest, h⟩, hend⟩
  · by_cases hroom : rest.length < n * 8 ∨ cap < s.out.length + n
    · exact .inr (.inr (.literal head h hend hroom))
    · obtain ⟨hbits, hcap⟩ := not_or.mp hroom
      obtain ⟨bytes, tail, hlen, hrest⟩ := exists_bytes (Nat.le_of_not_lt hbits)
      rw [hrest] at h
      refine .inl ⟨⟨s.inputBit + code.length + n * 8, s.out ++ bytes, s.matchOffset⟩, ?_⟩
      have hcap' : (s.out ++ bytes).length ≤ cap := by
        rw [List.length_append]
        omega
      cases head with
      | byte =>
        obtain ⟨byte, rfl⟩ := List.length_eq_one_iff.mp hlen
        rw [List.flatMap_singleton] at h
        exact ⟨.byte byte, ⟨tail, h⟩, trivial, id, rfl, hcap', by
          simp [Instr.encode]⟩
      | group long short =>
        subst hlen
        refine ⟨.group bytes long, ⟨tail, ?_⟩, short, hend, rfl, hcap', ?_⟩
        · rw [h, Instr.encode, List.append_assoc]
        · rw [Instr.encode, List.length_append, length_flatMap_byteBits, Nat.add_assoc]

/-- A match whose operands are read is run, or it is an error. -/
theorem match_cases (hs : s.Fits inp cap) (instruction : Instruction) (instr : Instr)
    {offset length : ℕ} {rest : List Bool}
    (hkind : instruction = .previousOffset ∨ 0 < offset)
    (hlast : instruction = .previousOffset → offset = s.matchOffset)
    (hops : decodeInstructionOperators inp s.inputBit s.matchOffset =
      .ok ⟨instruction, offset, length, instr.encode.length⟩)
    (h : bitsFrom inp s.inputBit = instr.encode ++ rest) (hshort : instr.Short)
    (hgoesOn : ¬ instr.TakenAsEnd inp s.inputBit)
    (hrun : instr.run (s.out, s.matchOffset) = (copyBack offset length s.out).map (·, offset)) :
    (∃ s', Next inp cap s s' instr) ∨ ∃ e, turn inp cap s = .error (.err e) := by
  rcases apply_match inp cap s length instr.encode.length hkind hlast with
    ⟨copied, hcopied, hzero, hunder, hroom, -⟩ | ⟨-, e, he⟩
  · obtain ⟨copied', hcopied', hlen⟩ := exists_copyBack hzero hunder length
    obtain rfl := Option.some.inj (hcopied.symm.trans hcopied')
    exact .inl ⟨⟨s.inputBit + instr.encode.length, copied, offset⟩, ⟨rest, h⟩, hshort, hgoesOn,
      by rw [hrun, hcopied]; rfl, by dsimp only; omega, rfl⟩
  · refine .inr ⟨e, ?_⟩
    rw [turn_eq hs, hops, ok_bind, he]

theorem turn_cases (hs : s.Fits inp cap) :
    (∃ s' instr, Next inp cap s s' instr) ∨ AtEnd inp s ∨ Overrun inp cap s ∨
      ∃ e, turn inp cap s = .error (.err e) := by
  have hliteral : ∀ {n code rest}, LiteralHead n code → bitsFrom inp s.inputBit = code ++ rest →
      (∃ s' instr, Next inp cap s s' instr) ∨ AtEnd inp s ∨ Overrun inp cap s ∨
        ∃ e, turn inp cap s = .error (.err e) := by
    intro n code rest head h
    rcases literal_cases head h with hnext | hend | hover
    exacts [.inl hnext, .inr (.inl hend), .inr (.inr (.inl hover))]
  match hbits : bitsFrom inp s.inputBit with
  | [] => exact .inr (.inr (.inl (.head (.inl hbits))))
  | [true] => exact .inr (.inr (.inl (.head (.inr hbits))))
  | false :: bs => exact hliteral .byte hbits
  | true :: false :: bs =>
    rcases decodeCount_cases inp (s.inputBit + 2) 0 1 with ⟨n, rest, hn, hshort, -⟩ | ⟨-, herr⟩
    · have hcode : bs = ExpGolomb.encode 0 n ++ rest :=
        (bitsFrom_length [true, false] hbits).symm.trans hn
      subst hcode
      rcases match_cases hs .previousOffset (.again (n + 1) n.succ_pos) (.inl rfl)
        (fun _ => rfl) (by
          rw [operators_last hbits hshort, Instr.encode, List.length_cons, List.length_cons,
            Nat.add_sub_cancel, Nat.add_comm 2]) hbits hshort id rfl with ⟨s', hnext⟩ | herr
      exacts [.inl ⟨s', _, hnext⟩, .inr (.inr (.inr herr))]
    · refine .inr (.inr (.inr ⟨.efbig, ?_⟩))
      rw [turn_eq hs, operators_again hbits, herr]
      rfl
  | true :: true :: bs =>
    rcases decodeCount_cases inp (s.inputBit + 2) 4 0 with
      ⟨offset, rest, hoffset, hshort, hcount⟩ | ⟨-, herr⟩
    · have hcode : bs = ExpGolomb.encode 4 offset ++ rest :=
        (bitsFrom_length [true, true] hbits).symm.trans hoffset
      subst hcode
      have hrest : bitsFrom inp (s.inputBit + (2 + (ExpGolomb.encode 4 offset).length)) = rest := by
        rw [← Nat.add_assoc]
        exact bitsFrom_length _ hoffset
      have hops := operators_long hbits s.matchOffset
      rw [hcount, ok_bind] at hops
      dsimp only at hops
      rw [Nat.zero_add] at hops
      rcases Nat.eq_zero_or_pos offset with rfl | hpos
      · rw [if_pos rfl] at hops
        rcases decodeCount_cases inp (s.inputBit + (2 + (ExpGolomb.encode 4 0).length)) 4 12 with
          ⟨n, rest', hn, hshort', -⟩ | ⟨-, herr⟩
        · have hgroup : rest = ExpGolomb.encode 4 n ++ rest' := hrest.symm.trans hn
          subst hgroup
          refine @hliteral _ _ rest' (.group (Nat.le_add_left 12 n) ?_) ?_
          · rw [Nat.add_sub_cancel]
            exact hshort'
          · rw [hbits, groupHead, Nat.add_sub_cancel, List.cons_append, List.cons_append,
              List.append_assoc]
        · refine .inr (.inr (.inr ⟨.efbig, ?_⟩))
          rw [turn_eq hs, hops, herr]
          rfl
      · rw [if_neg (Nat.ne_of_gt hpos)] at hops
        rcases decodeCount_cases inp (s.inputBit + (2 + (ExpGolomb.encode 4 offset).length)) 0 2
          with ⟨n, rest', hn, hshort', -⟩ | ⟨-, herr⟩
        · have hcopy : rest = ExpGolomb.encode 0 n ++ rest' := hrest.symm.trans hn
          subst hcopy
          rw [← List.append_assoc] at hbits
          have hlen : (Instr.copy offset (n + 2) hpos (Nat.le_add_left 2 n)).encode.length =
              2 + (ExpGolomb.encode 4 offset).length + (ExpGolomb.encode 0 n).length := by
            rw [Instr.encode, List.length_cons, List.length_cons, List.length_append,
              Nat.add_sub_cancel]
            omega
          rcases match_cases hs .long (.copy offset (n + 2) hpos (Nat.le_add_left 2 n))
            (.inr hpos) (fun h => by cases h) (by rw [operators_copy hpos hbits hshort hshort', hlen]) hbits
            ⟨hshort, hshort'⟩ id rfl with ⟨s', hnext⟩ | herr
          exacts [.inl ⟨s', _, hnext⟩, .inr (.inr (.inr herr))]
        · refine .inr (.inr (.inr ⟨.efbig, ?_⟩))
          rw [turn_eq hs, hops, herr]
          rfl
    · refine .inr (.inr (.inr ⟨.efbig, ?_⟩))
      rw [turn_eq hs, operators_long hbits, herr]
      rfl

end Turn

end OpenWrt.RbLz77
