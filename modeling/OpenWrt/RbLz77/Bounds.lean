/-
# Whole runs of the decompressor, and its bounds

A run goes from instruction to instruction until the end marker, an error or an access
outside of a buffer. Every turn takes a bit of the input, so the run always comes to one
of these. The reads of counts and the copies of matches are checked and never leave the
buffers; the bits of an instruction and the bytes of a group are not, and this module says
exactly which inputs get past them.
-/

import OpenWrt.Lib.Run
import OpenWrt.RbLz77.Turn

namespace OpenWrt.RbLz77

open OpenWrt.Lib

/-- The states between two turns: from the start, one complete instruction after the
other. -/
def instructions (inp : List UInt8) (cap : ℕ) : System State Instr where
  init s := s = ⟨0, [], 0⟩
  step s instr s' := Next inp cap s s' instr

section Runs

variable {inp : List UInt8} {cap : ℕ} {s : State}

theorem encode_length_pos (instr : Instr) : 0 < instr.encode.length := by
  cases instr <;> exact Nat.succ_pos _

theorem Next.fits {s' : State} {instr : Instr} (h : Next inp cap s s' instr) :
    s'.Fits inp cap := by
  obtain ⟨rest, hcode⟩ := h.code
  have hlen := congrArg List.length hcode
  have hpos := encode_length_pos instr
  rw [length_bitsFrom, List.length_append] at hlen
  refine ⟨h.room, ?_⟩
  rw [h.pos]
  omega

theorem fits_of_reachable (h : (instructions inp cap).Reachable s) : s.Fits inp cap := by
  cases h with
  | start hinit =>
    obtain rfl := hinit
    exact ⟨Nat.zero_le cap, Nat.zero_le _⟩
  | step prior instr hnext => exact hnext.fits

/-- The run is still going in every state it reaches, with turns to spare. -/
theorem decompress_eq_of_reachable (h : (instructions inp cap).Reachable s) :
    ∃ turns, inp.length * 8 + 2 ≤ turns + s.inputBit ∧
      decompress inp cap = decompressLoop inp cap turns s := by
  induction h with
  | start hinit =>
    obtain rfl := hinit
    exact ⟨_, Nat.le_refl _, rfl⟩
  | @step s s' prior instr hnext ih =>
    obtain ⟨turns, hturns, heq⟩ := ih
    have hfits := fits_of_reachable prior
    have hbit := hfits.inputBit
    have hpos := encode_length_pos instr
    obtain ⟨left, rfl⟩ : ∃ left, turns = left + 1 := ⟨turns - 1, by omega⟩
    refine ⟨left, ?_, ?_⟩
    · rw [hnext.pos]
      omega
    · rw [heq, decompressLoop, turn_of_next hfits hnext]
      rfl

theorem decompress_of_atEnd (h : (instructions inp cap).Reachable s) (hend : AtEnd inp s) :
    decompress inp cap = .ok s.out := by
  obtain ⟨turns, hturns, heq⟩ := decompress_eq_of_reachable h
  have hfits := fits_of_reachable h
  have hbit := hfits.inputBit
  obtain ⟨left, rfl⟩ : ∃ left, turns = left + 1 := ⟨turns - 1, by omega⟩
  rw [heq, decompressLoop, turn_of_atEnd hfits hend]
  rfl

theorem decompress_of_overrun (h : (instructions inp cap).Reachable s)
    (hover : Overrun inp cap s) : ∃ access, decompress inp cap = .error (.fault access) := by
  obtain ⟨turns, hturns, heq⟩ := decompress_eq_of_reachable h
  have hfits := fits_of_reachable h
  have hbit := hfits.inputBit
  obtain ⟨left, rfl⟩ : ∃ left, turns = left + 1 := ⟨turns - 1, by omega⟩
  obtain ⟨access, hfault⟩ := turn_of_overrun hfits hover
  refine ⟨access, ?_⟩
  rw [heq, decompressLoop, hfault]
  rfl

/-- What the loop comes to from a reachable state, with turns to spare. -/
theorem decompressLoop_cases {turns : ℕ} (h : (instructions inp cap).Reachable s)
    (hturns : inp.length * 8 + 2 ≤ turns + s.inputBit) :
    ∃ t, (instructions inp cap).Reachable t ∧
      ((AtEnd inp t ∧ decompressLoop inp cap turns s = .ok t.out) ∨ Overrun inp cap t ∨
        ∃ e, decompressLoop inp cap turns s = .error (.err e)) := by
  induction turns generalizing s with
  | zero =>
    have hbit := (fits_of_reachable h).inputBit
    omega
  | succ turns ih =>
    have hfits := fits_of_reachable h
    rcases turn_cases hfits with ⟨s', instr, hnext⟩ | hend | hover | ⟨e, he⟩
    · have hpos := encode_length_pos instr
      have hreach : (instructions inp cap).Reachable s' := h.step instr hnext
      obtain ⟨t, ht, hcases⟩ := ih hreach (by rw [hnext.pos]; omega)
      refine ⟨t, ht, ?_⟩
      rw [decompressLoop, turn_of_next hfits hnext]
      exact hcases
    · refine ⟨s, h, .inl ⟨hend, ?_⟩⟩
      rw [decompressLoop, turn_of_atEnd hfits hend]
      rfl
    · exact ⟨s, h, .inr (.inl hover)⟩
    · refine ⟨s, h, .inr (.inr ⟨e, ?_⟩)⟩
      rw [decompressLoop, he]
      rfl

theorem decompress_cases (inp : List UInt8) (cap : ℕ) :
    ∃ s, (instructions inp cap).Reachable s ∧
      ((AtEnd inp s ∧ decompress inp cap = .ok s.out) ∨ Overrun inp cap s ∨
        ∃ e, decompress inp cap = .error (.err e)) :=
  decompressLoop_cases (.start rfl) (Nat.le_refl _)

end Runs

/-! ## Bounds -/

/-- No access of the run is outside of a buffer, and no match copies what is not
written. -/
def InBounds (inp : List UInt8) (cap : ℕ) : Prop :=
  ∀ access, decompress inp cap ≠ .error (.fault access)

/-- The accesses are in bounds exactly when no instruction that is reached overruns. -/
theorem inBounds_iff (inp : List UInt8) (cap : ℕ) :
    InBounds inp cap ↔ ∀ s, (instructions inp cap).Reachable s → ¬ Overrun inp cap s := by
  constructor
  · intro hbounds s hs hover
    obtain ⟨access, hfault⟩ := decompress_of_overrun hs hover
    exact hbounds access hfault
  · intro hnone access hfault
    obtain ⟨s, hs, ⟨-, hok⟩ | hover | ⟨e, he⟩⟩ := decompress_cases inp cap
    · rw [hfault] at hok
      cases hok
    · exact hnone s hs hover
    · rw [hfault] at he
      cases he

/-- Two bytes into an output of one; the byte at the end of an input that ends in it. -/
theorem not_inBounds_of_byte :
    decompress [0, 0, 0] 1 = .error (.fault (.write 1)) ∧ ¬ InBounds [0, 0, 0] 1 ∧
      decompress [0] 1 = .error (.fault (.read 1)) ∧ ¬ InBounds [0] 1 := by
  have hwrite : decompress [0, 0, 0] 1 = .error (.fault (.write 1)) := by decide
  have hread : decompress [0] 1 = .error (.fault (.read 1)) := by decide
  exact ⟨hwrite, fun h => h _ hwrite, hread, fun h => h _ hread⟩

end OpenWrt.RbLz77
