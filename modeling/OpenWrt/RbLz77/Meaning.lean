/-
# What a success of the decompressor means

The loop takes the head of a group of twelve bytes for the end of the stream when the
bytes of the group would end too far, and compares a position in bits with a length in
bytes to find out. This module proves that this comparison is all that stands between a
success and the meaning of the stream.
-/

import OpenWrt.RbLz77.Bounds

namespace OpenWrt.RbLz77

open OpenWrt.Lib

/-! ## The meaning of a stream is unique -/

section Format

/-- Every instruction writes something. -/
theorem length_lt_of_run {instr : Instr} {s s' : List UInt8 × ℕ} (h : instr.run s = some s') :
    s.1.length < s'.1.length := by
  have hcopy : ∀ {offset length : ℕ} {out copied : List UInt8}, 0 < length →
      copyBack offset length out = some copied → out.length < copied.length := by
    intro offset length out copied hlength hcopied
    obtain ⟨hzero, hunder⟩ := distance_of_copyBack hlength hcopied
    obtain ⟨copied', hcopied', hlen⟩ := exists_copyBack hzero hunder length
    obtain rfl := Option.some.inj (hcopied.symm.trans hcopied')
    omega
  obtain ⟨out, last⟩ := s
  cases instr with
  | byte value =>
    obtain rfl := Option.some.inj h
    simp
  | group bytes long =>
    obtain rfl := Option.some.inj h
    simp only [List.length_append]
    omega
  | copy offset length hoffset hlength =>
    obtain ⟨copied, hcopied, rfl⟩ := Option.map_eq_some_iff.mp h
    exact hcopy (by omega) hcopied
  | again length hlength =>
    obtain ⟨copied, hcopied, rfl⟩ := Option.map_eq_some_iff.mp h
    exact hcopy hlength hcopied

theorem runAll_cons (instr : Instr) (instrs : List Instr) (s : List UInt8 × ℕ) :
    runAll (instr :: instrs) s = (instr.run s).bind (runAll instrs) := by
  unfold runAll
  rw [List.foldlM_cons]
  rfl

theorem runAll_append (first second : List Instr) (s : List UInt8 × ℕ) :
    runAll (first ++ second) s = (runAll first s).bind (runAll second) := by
  unfold runAll
  rw [List.foldlM_append]
  rfl

theorem length_le_of_runAll {instrs : List Instr} {s s' : List UInt8 × ℕ}
    (h : runAll instrs s = some s') : s.1.length ≤ s'.1.length := by
  induction instrs generalizing s with
  | nil =>
    obtain rfl := Option.some.inj h
    exact Nat.le_refl _
  | cons instr instrs ih =>
    rw [runAll_cons, Option.bind_eq_some_iff] at h
    obtain ⟨middle, hfirst, hrest⟩ := h
    exact Nat.le_of_lt (Nat.lt_of_lt_of_le (length_lt_of_run hfirst) (ih hrest))

/-- Before an end marker without room for a group, the instructions of a string are
determined as far as another end marker follows them. -/
theorem instrs_prefix {first second : List Instr} {rest pad : List Bool} (hpad : pad.length < 96)
    (h : first.flatMap Instr.encode ++ (endMark ++ rest) =
      second.flatMap Instr.encode ++ (endMark ++ pad)) :
    ∃ tail, second = first ++ tail ∧
      endMark ++ rest = tail.flatMap Instr.encode ++ (endMark ++ pad) := by
  induction first generalizing second with
  | nil => exact ⟨second, rfl, h⟩
  | cons instr first ih =>
    rw [List.flatMap_cons, List.append_assoc] at h
    cases second with
    | nil => exact absurd (length_of_endMark h).1 (Nat.not_le.mpr hpad)
    | cons instr' second =>
      rw [List.flatMap_cons, List.append_assoc] at h
      obtain ⟨rfl, hrest⟩ := encode_inj h
      obtain ⟨tail, rfl, htail⟩ := ih hrest
      exact ⟨tail, rfl, htail⟩

/-- An input is a stream of one output only. -/
theorem IsStream.unique {inp out out' : List UInt8} (h : IsStream inp out)
    (h' : IsStream inp out') : out = out' := by
  obtain ⟨instrs, pad, last, hbits, hpad, hrun⟩ := h
  obtain ⟨instrs', pad', last', hbits', hpad', hrun'⟩ := h'
  rw [List.append_assoc] at hbits hbits'
  obtain ⟨tail, rfl, htail⟩ := instrs_prefix hpad' (hbits.symm.trans hbits')
  cases tail with
  | nil =>
    rw [List.append_nil] at hrun'
    exact congrArg Prod.fst (Option.some.inj (hrun.symm.trans hrun'))
  | cons instr tail =>
    rw [List.flatMap_cons, List.append_assoc] at htail
    exact absurd (length_of_endMark htail.symm).1 (Nat.not_le.mpr hpad)

end Format

/-! ## Successes -/

section Meaning

variable {inp : List UInt8} {cap : ℕ} {s : State}

/-- What has been run so far is what the bits so far say. -/
theorem parsed_of_reachable (h : (instructions inp cap).Reachable s) :
    ∃ instrs, bitsOf inp = instrs.flatMap Instr.encode ++ bitsFrom inp s.inputBit ∧
      runAll instrs ([], 0) = some (s.out, s.matchOffset) := by
  induction h with
  | start hinit =>
    obtain rfl := hinit
    exact ⟨[], rfl, rfl⟩
  | @step s s' prior instr hnext ih =>
    obtain ⟨instrs, hbits, hrun⟩ := ih
    obtain ⟨rest, hcode⟩ := hnext.code
    refine ⟨instrs ++ [instr], ?_, ?_⟩
    · rw [hbits, hcode, hnext.pos, bitsFrom_length _ hcode, List.flatMap_append,
        List.flatMap_singleton, List.append_assoc]
    · rw [runAll_append, hrun, Option.bind_some, runAll_cons, hnext.run, Option.bind_some]
      rfl

theorem isStream_of_atEnd (h : (instructions inp cap).Reachable s) (hend : AtEnd inp s)
    (hpad : (bitsFrom inp s.inputBit).length < endMark.length + 96) : IsStream inp s.out := by
  obtain ⟨instrs, hbits, hrun⟩ := parsed_of_reachable h
  obtain ⟨pad, hmark⟩ := hend.mark
  refine ⟨instrs, pad, s.matchOffset, ?_, ?_, hrun⟩
  · rw [hbits, hmark, List.append_assoc]
  · rw [hmark, List.length_append] at hpad
    omega

/-- A group that is taken for the end leaves its bytes out. -/
theorem not_isStream_of_atEnd (h : (instructions inp cap).Reachable s) (hend : AtEnd inp s)
    (hgroup : endMark.length + 96 ≤ (bitsFrom inp s.inputBit).length) :
    ¬ IsStream inp s.out := by
  rintro ⟨instrs', pad', last', hbits', hpad', hrun'⟩
  obtain ⟨instrs, hbits, hrun⟩ := parsed_of_reachable h
  obtain ⟨rest, hmark⟩ := hend.mark
  rw [hmark] at hbits hgroup
  rw [List.append_assoc] at hbits'
  obtain ⟨tail, rfl, htail⟩ := instrs_prefix hpad' (hbits.symm.trans hbits')
  cases tail with
  | nil =>
    have hlen := congrArg List.length htail
    simp only [List.flatMap_nil, List.nil_append, List.length_append] at hlen hgroup
    omega
  | cons instr tail =>
    rw [runAll_append, hrun, Option.bind_some, runAll_cons, Option.bind_eq_some_iff] at hrun'
    obtain ⟨middle, hfirst, hrest⟩ := hrun'
    have hlt := length_lt_of_run hfirst
    have hle := length_le_of_runAll hrest
    exact absurd (Nat.lt_of_lt_of_le hlt hle) (Nat.lt_irrefl _)

/-- A success gives the bytes of a stream exactly when no group of twelve bytes that is
taken for the end has its bytes in the input. -/
theorem success_isStream_iff (inp : List UInt8) (cap : ℕ) :
    (∀ out, decompress inp cap = .ok out → IsStream inp out) ↔
      ∀ s, (instructions inp cap).Reachable s → AtEnd inp s →
        (bitsFrom inp s.inputBit).length < endMark.length + 96 := by
  constructor
  · intro hmeaning s hs hend
    by_contra hgroup
    exact not_isStream_of_atEnd hs hend (Nat.le_of_not_lt hgroup)
      (hmeaning s.out (decompress_of_atEnd hs hend))
  · intro hright out hout
    obtain ⟨s, hs, ⟨hend, hok⟩ | hover | ⟨e, he⟩⟩ := decompress_cases inp cap
    · obtain rfl := Except.ok.inj (hok.symm.trans hout)
      exact isStream_of_atEnd hs hend (hright s hs hend)
    · obtain ⟨access, hfault⟩ := decompress_of_overrun hs hover
      rw [hout] at hfault
      cases hfault
    · rw [hout] at he
      cases he

/-- A stream of one group of twelve zeros: the head of the group is taken for the end. -/
theorem not_success_isStream_of_group :
    ∃ inp : List UInt8, inp.length = 15 ∧ IsStream inp (List.replicate 12 0) ∧
      decompress inp 64 = .ok [] ∧ ¬ IsStream inp [] := by
  have hstream : IsStream ([0x03] ++ List.replicate 12 0 ++ [0x30, 0]) (List.replicate 12 0) := by
    refine ⟨[.group (List.replicate 12 0) (by decide)], [], 0, ?_, by decide, rfl⟩
    have hzero : ExpGolomb.encode 4 0 = [false, false, false, false, false] := by
      rw [ExpGolomb.encode_of_lt (by decide)]
      rfl
    simp only [List.flatMap_singleton, Instr.encode, endMark, groupHead, List.length_replicate,
      Nat.sub_self, hzero]
    decide
  refine ⟨_, rfl, hstream, by decide, fun hnil => ?_⟩
  cases hstream.unique hnil

/-- The loop runs the instructions of a stream one after the other, up to its end marker. -/
theorem reachable_of_stream {inp : List UInt8} {cap : ℕ} {pad : List Bool} {out : List UInt8}
    {last : ℕ} (hcap : out.length ≤ cap) {instrs : List Instr}
    (hshort : ∀ instr ∈ instrs, instr.Short)
    (hgroups : ∀ bytes long, .group bytes long ∈ instrs → bytes.length ≠ 12) {s : State}
    (hs : (instructions inp cap).Reachable s)
    (hbits : bitsFrom inp s.inputBit = instrs.flatMap Instr.encode ++ (endMark ++ pad))
    (hrun : runAll instrs (s.out, s.matchOffset) = some (out, last)) :
    ∃ s', (instructions inp cap).Reachable s' ∧ bitsFrom inp s'.inputBit = endMark ++ pad ∧
      s'.out = out := by
  induction instrs generalizing s with
  | nil => exact ⟨s, hs, hbits, congrArg Prod.fst (Option.some.inj hrun)⟩
  | cons instr instrs ih =>
    rw [List.flatMap_cons, List.append_assoc] at hbits
    rw [runAll_cons, Option.bind_eq_some_iff] at hrun
    obtain ⟨⟨out', last'⟩, hone, hrest⟩ := hrun
    refine ih (fun i hi => hshort i (.tail _ hi)) (fun b l hi => hgroups b l (.tail _ hi))
      (s := ⟨s.inputBit + instr.encode.length, out', last'⟩) (hs.step instr ?_) ?_ hrest
    · refine ⟨⟨_, hbits⟩, hshort instr List.mem_cons_self, ?_, hone,
        Nat.le_trans (length_le_of_runAll hrest) hcap, rfl⟩
      cases instr with
      | group bytes long => exact fun hend => hgroups bytes long List.mem_cons_self hend.1
      | byte | copy | again => exact id
    · rw [bitsFrom_add, hbits, List.drop_left]

end Meaning

end OpenWrt.RbLz77
