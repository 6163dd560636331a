/-
# The positions of the display

The editor keeps the position of the cursor on the screen. A text moves it by the width
of what it shows, and the width is turned into lines and columns by a division by the
number of columns. Escape sequences in a text have no width; where one is cut off at the
end of the text the code reads past it. What is written to the terminal is left out.
-/

import Mathlib.Algebra.Group.Int.Defs
import Mathlib.Algebra.Group.Nat.Defs
import OpenWrt.Uline.LineBuf

namespace OpenWrt.Uline

def KEY_ESC : UInt8 := 27

/-- `struct pos`: two numbers of 16 bits. -/
structure Pos where
  x : Int
  y : Int
  deriving DecidableEq

def Pos.zero : Pos where
  x := 0
  y := 0

/-- The value of a number in 16 bits with a sign. -/
def int16 (n : Int) : Int :=
  n.bmod (2 ^ 16)

/-- `pos_convert`. -/
def posConvert (cols offset : ℕ) : Except Fault Pos :=
  if cols = 0 then .error .division
  else
    let y := int16 (offset / cols : ℕ)
    .ok { x := int16 (offset - y * cols % 2 ^ 32), y := y }

/-- `pos_add`. -/
def posAdd (cols : ℕ) (pos add : Pos) : Pos :=
  let x := int16 (pos.x + add.x)
  let y := int16 (pos.y + add.y)
  let (x, y) := if x ≥ int16 cols then (int16 (x - cols), int16 (y + 1)) else (x, y)
  let (x, y) := if x < 0 then (int16 (x + cols), int16 (y - 1)) else (x, y)
  { x := x, y := if y < 0 then 0 else y }

/-- `pos_add_ofs`. -/
def posAddOfs (cols : ℕ) (pos : Pos) (offset : ℕ) : Except Fault Pos := do
  let add ← posConvert cols offset
  pure (posAdd cols pos add)

/-- `pos_add_newline`. -/
def posAddNewline (pos : Pos) : Pos where
  x := 0
  y := int16 (pos.y + 1)

/-- What is left after an escape sequence, if it ends within the text. -/
def skipEscape : List UInt8 → Option (List UInt8)
  | [] => none
  | c :: rest =>
    if c = 91 ∨ c = 79 then
      match rest.dropWhile fun c => c ≤ 63 with
      | [] => none
      | _ :: rest => some rest
    else some rest

theorem length_skipEscape_lt {str rest : List UInt8} (h : skipEscape str = some rest) :
    rest.length < str.length := by
  cases str with
  | nil => cases h
  | cons c tail =>
    by_cases hopen : c = 91 ∨ c = 79
    · rw [skipEscape, if_pos hopen] at h
      have hle := (List.dropWhile_sublist (fun c : UInt8 => decide (c ≤ 63)) (l := tail)).length_le
      cases hdrop : tail.dropWhile fun c => c ≤ 63 with
      | nil =>
        rw [hdrop] at h
        cases h
      | cons d ds =>
        rw [hdrop] at h hle
        cases h
        simp only [List.length_cons] at hle ⊢
        omega
    · rw [skipEscape, if_neg hopen] at h
      cases h
      exact Nat.lt_succ_self _

/-- `__pos_add_string`. -/
def posAddChunk (cols : ℕ) (nsyms : List UInt8 → ℕ) (pos : Pos) (str : List UInt8) :
    Except Fault Pos :=
  match _hesc : str.dropWhile (· ≠ KEY_ESC) with
  | [] => posAddOfs cols pos (nsyms str)
  | _ :: next => do
      let pos ← posAddOfs cols pos (nsyms (str.takeWhile (· ≠ KEY_ESC)))
      match _hskip : skipEscape next with
      | none => .error .overread
      | some rest => posAddChunk cols nsyms pos rest
termination_by str.length
decreasing_by
  have hle := (List.dropWhile_sublist (p := fun c : UInt8 => decide (c ≠ KEY_ESC)) (l := str)).length_le
  rw [_hesc] at hle
  have hlt := length_skipEscape_lt _hskip
  simp only [List.length_cons] at hle
  omega

/-- `pos_add_string`: line by line. -/
def posAddString (cols : ℕ) (nsyms : List UInt8 → ℕ) (pos : Pos) (str : List UInt8) :
    Except Fault Pos :=
  match _hline : str.dropWhile (· ≠ newline) with
  | [] => if str = [] then .ok pos else posAddChunk cols nsyms pos str
  | _ :: rest =>
    if str.takeWhile (· ≠ newline) = [] then
      posAddString cols nsyms (posAddNewline pos) rest
    else do
      let pos ← posAddChunk cols nsyms pos (str.takeWhile (· ≠ newline))
      posAddString cols nsyms (posAddNewline pos) rest
termination_by str.length
decreasing_by
  all_goals
    have hle := (List.dropWhile_sublist (p := fun c : UInt8 => decide (c ≠ newline)) (l := str)).length_le
    rw [_hline] at hle
    simp only [List.length_cons] at hle
    omega

/-! ## How measuring may fault -/

section

variable {bad : Fault → Prop} {cols : ℕ}

open OpenWrt.Lib

theorem avoids_posAddOfs (hdivision : cols = 0 → ¬ bad .division) (pos : Pos) (offset : ℕ) :
    Avoids bad (fun _ => True) (posAddOfs cols pos offset) := by
  unfold posAddOfs posConvert
  split
  case isTrue hzero => exact hdivision hzero
  case isFalse => trivial

theorem avoids_posAddChunk (hdivision : cols = 0 → ¬ bad .division) (hoverread : ¬ bad .overread)
    (nsyms : List UInt8 → ℕ) (pos : Pos) (str : List UInt8) :
    Avoids bad (fun _ => True) (posAddChunk cols nsyms pos str) := by
  induction pos, str using posAddChunk.induct with
  | case1 pos str hesc =>
    rw [posAddChunk]
    split
    · exact avoids_posAddOfs hdivision pos _
    · rename_i hcons
      rw [hesc] at hcons
      exact nomatch hcons
  | case2 pos str head next hesc ih =>
    rw [posAddChunk]
    split
    · rename_i hnil
      rw [hesc] at hnil
      exact nomatch hnil
    · rename_i hcons
      rw [hesc] at hcons
      cases hcons
      refine avoids_bind (avoids_posAddOfs hdivision pos _) fun after _ => ?_
      split
      · exact hoverread
      · rename_i rest hskip
        exact ih after rest hskip

/-- Measuring a text divides by the number of columns, and may run past its end. -/
theorem avoids_posAddString (hdivision : cols = 0 → ¬ bad .division) (hoverread : ¬ bad .overread)
    (nsyms : List UInt8 → ℕ) (pos : Pos) (str : List UInt8) :
    Avoids bad (fun _ => True) (posAddString cols nsyms pos str) := by
  induction pos, str using posAddString.induct with
  | case1 pos hline =>
    rw [posAddString]
    exact trivial
  | case2 pos str hline hne =>
    rw [posAddString]
    split
    · rw [if_neg hne]
      exact avoids_posAddChunk hdivision hoverread nsyms pos str
    · rename_i hcons
      rw [hline] at hcons
      exact nomatch hcons
  | case3 pos str head rest hline hempty ih =>
    rw [posAddString]
    split
    · rename_i hnil
      rw [hline] at hnil
      exact nomatch hnil
    · rename_i hcons
      rw [hline] at hcons
      cases hcons
      rw [if_pos hempty]
      exact ih
  | case4 pos str head rest hline hne ih =>
    rw [posAddString]
    split
    · rename_i hnil
      rw [hline] at hnil
      exact nomatch hnil
    · rename_i hcons
      rw [hline] at hcons
      cases hcons
      rw [if_neg hne]
      exact avoids_bind (avoids_posAddChunk hdivision hoverread nsyms pos _)
        fun after _ => ih after

end

end OpenWrt.Uline
