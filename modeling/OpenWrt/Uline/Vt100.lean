/-
# The decoder of terminal sequences

`vt100_esc_decode` reads what follows the escape character: a key, or the answer to a
request for the cursor position, whose two numbers `strtoul` reads. A sequence is read
as a string that ends with its bytes or at a zero byte.
-/

import Mathlib.Algebra.Group.Int.Defs
import Mathlib.Algebra.Group.Nat.Defs
import OpenWrt.Uline.Args

namespace OpenWrt.Uline

/-- `enum vt100_escape`. -/
inductive Escape
  | incomplete | unknown | ignore | cursorUp | cursorDown | cursorLeft | cursorWordLeft
  | cursorRight | cursorWordRight | cursorPos | home | end_ | insert | delete | deleteLeft
  | deleteLeftWord | pageUp | pageDown
  deriving DecidableEq

/-- What the code relies on of the system it runs on: the width of an `unsigned long`, and the
width of a text in the tables of `utf8_nsyms`. -/
structure Host where
  ulongBits : ℕ
  utf8Nsyms : List UInt8 → ℕ

def isDigit (c : UInt8) : Bool :=
  48 ≤ c && c ≤ 57

def decimal (digits : List UInt8) : ℕ :=
  digits.foldl (fun value c => value * 10 + (c.toNat - 48)) 0

/-- `strtoul` with base ten: the value and what is left. White space and a sign may come first;
without a digit nothing is taken. -/
def strtoul (host : Host) (str : List UInt8) : ℕ × List UInt8 :=
  let start := str.dropWhile isSpace
  let negative := start.head? == some 45
  let body := if negative || start.head? == some 43 then start.tail else start
  let digits := body.takeWhile isDigit
  let value := decimal digits
  if digits = [] then (0, str)
  else if 2 ^ host.ulongBits ≤ value then (2 ^ host.ulongBits - 1, body.dropWhile isDigit)
  else if negative then ((2 ^ host.ulongBits - value) % 2 ^ host.ulongBits, body.dropWhile isDigit)
  else (value, body.dropWhile isDigit)

/-- The keys that are a number and a tilde. -/
def decodeTilde : ℕ → Escape
  | 1 => .home
  | 3 => .delete
  | 4 => .end_
  | 200 => .ignore
  | 201 => .ignore
  | _ => .unknown

/-- A sequence with a number: a key, or the row and the column of the cursor. -/
def decodeNumber (host : Host) (str : List UInt8) : Escape × ℕ :=
  let (code, err) := strtoul host str
  match err.headD 0 with
  | 0 => (.incomplete, 0)
  | 126 => (decodeTilde code, 0)
  | 59 =>
    let (code2, err) := strtoul host err.tail
    match err.headD 0 with
    | 0 => (.incomplete, 0)
    | 82 => (.cursorPos, ((code2 <<< 16) ||| (code &&& 0xffff)) % 2 ^ 32)
    | _ => (.unknown, 0)
  | _ => (.unknown, 0)

/-- What follows the bracket. -/
def decodeCsi (host : Host) (str : List UInt8) : Escape × ℕ :=
  match str.headD 0 with
  | 0 => (.incomplete, 0)
  | 65 => (.cursorUp, 0)
  | 66 => (.cursorDown, 0)
  | 67 => (.cursorRight, 0)
  | 68 => (.cursorLeft, 0)
  | 70 => (.end_, 0)
  | 72 => (.home, 0)
  | 53 =>
    match str.tail.headD 0 with
    | 67 => (.cursorWordRight, 0)
    | 68 => (.cursorWordLeft, 0)
    | _ => decodeNumber host str
  | c => if isDigit c then decodeNumber host str else (.unknown, 0)

/-- `vt100_esc_decode` and its `data`. -/
def vt100EscDecode (host : Host) (str : List UInt8) : Escape × ℕ :=
  match str.headD 0 with
  | 0 => (.incomplete, 0)
  | 91 => decodeCsi host str.tail
  | 79 => decodeCsi host str.tail
  | _ => (.unknown, 0)

end OpenWrt.Uline
