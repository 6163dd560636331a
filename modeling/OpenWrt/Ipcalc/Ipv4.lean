/-
# Addresses and masks in the shell

The functions of `ipv4.sh` go from dotted quads to numbers and back, and from masks to prefix
lengths and back. They run in a shell whose arithmetic has 64 bits with a sign; all numbers they
accept fit in 32 bits, so that no sign is ever met.

A failure is a status other than zero, or an arithmetic error that ends the shell.
-/

import Mathlib.Algebra.Group.Int.Defs
import Mathlib.Algebra.Group.Nat.Defs
import Mathlib.Data.List.Forall2
import OpenWrt.Lib.Decimal

namespace OpenWrt.Ipcalc

open OpenWrt.Lib

/-! ## Arithmetic of the shell -/

/-- A number of the shell. -/
abbrev Arith := BitVec 64

/-- What `$((…))` becomes. -/
def print (v : Arith) : List Char :=
  if v.toInt < 0 then '-' :: Nat.toDigits 10 v.toInt.natAbs else Nat.toDigits 10 v.toInt.toNat

/-- The value of a digit string inside of `$((…))`: octal after a leading zero, and up to the
largest number of 64 bits. -/
def arith (s : List Char) : Option Arith :=
  if s.head? = some '0' then
    if s.all (· < '8') then some (BitVec.ofNat 64 (min (Nat.ofDigitChars 8 s 0) (2 ^ 64 - 1)))
    else none
  else some (BitVec.ofNat 64 (min (Nat.ofDigitChars 10 s 0) (2 ^ 64 - 1)))

/-- `[ s -gt bound ]` for a digit string; it fails where the number has no 64 bits with a sign. -/
def testGt (s : List Char) (bound : ℕ) : Prop :=
  bound < Nat.ofDigitChars 10 s 0 ∧ Nat.ofDigitChars 10 s 0 < 2 ^ 63

instance (s : List Char) (bound : ℕ) : Decidable (testGt s bound) :=
  inferInstanceAs (Decidable (_ ∧ _))

/-- `uint_max` -/
def uintMax : ℕ := 4294967295

/-- `assert_uint32`, with the number on success. -/
def assertUint32 (n : List Char) : Option Arith :=
  if n = [] ∨ n.any (! ·.isDigit) then none
  else if testGt n uintMax then none
  else do
    let v ← arith n
    if print (v + 0) ≠ n then none else some v

/-! ## The functions -/

/-- A bracket expression of a pattern, as the first and the last character. -/
abbrev Range := Char × Char

def Range.Has (range : Range) (c : Char) : Prop := range.1 ≤ c ∧ c ≤ range.2

instance (range : Range) (c : Char) : Decidable (range.Has c) :=
  inferInstanceAs (Decidable (_ ∧ _))

/-- The string begins with characters of the ranges. -/
def startsWith : List Range → List Char → Bool
  | [], _ => true
  | range :: pattern, c :: s => decide (range.Has c) && startsWith pattern s
  | _ :: _, [] => false

def dot : Range := ('.', '.')

/-- The patterns of an octet with one, two and three digits. -/
def octet1 : List Range := [('0', '9')]

def octet2 : List Range := [('1', '9'), ('0', '9')]

def octet3 : List (List Range) :=
  [[('1', '1'), ('0', '9'), ('0', '9')], [('2', '2'), ('0', '4'), ('0', '9')],
    [('2', '2'), ('5', '5'), ('0', '5')]]

/-- One of the first three octets, and what follows its dot. -/
def octet (ip : List Char) : Option (List Char × List Char) :=
  if startsWith (octet1 ++ [dot]) ip then some (ip.take 1, ip.drop 2)
  else if startsWith (octet2 ++ [dot]) ip then some (ip.take 2, ip.drop 3)
  else if octet3.any fun pattern => startsWith (pattern ++ [dot]) ip then
    some (ip.take 3, ip.drop 4)
  else none

/-- The pattern matches the whole string. -/
def matchesAll (pattern : List Range) (s : List Char) : Bool :=
  s.length = pattern.length && startsWith pattern s

def lastOctet (ip : List Char) : Option (List Char × List Char) :=
  if matchesAll octet1 ip then some (ip.take 1, ip.drop 1)
  else if matchesAll octet2 ip then some (ip.take 2, ip.drop 2)
  else if octet3.any fun pattern => matchesAll pattern ip then some (ip.take 3, ip.drop 3)
  else none

/-- `str2ip` -/
def str2ip (ip : List Char) : Option (List Char) := do
  let (n, ip) ← octet ip
  let val := (← arith n) <<< 24
  let (n, ip) ← octet ip
  let val := val + (← arith n) <<< 16
  let (n, ip) ← octet ip
  let val := val + (← arith n) <<< 8
  let (n, ip) ← lastOctet ip
  let val := val + (← arith n)
  if ip ≠ [] then none else some (print val)

/-- `ip2str` -/
def ip2str (n : List Char) : Option (List Char) := do
  let n ← assertUint32 n
  some (print (n.sshiftRight 24) ++ '.' :: print (n.sshiftRight 16 &&& 255) ++
    '.' :: print (n.sshiftRight 8 &&& 255) ++ '.' :: print (n &&& 255))

/-- `bitcount` -/
def bitcount (c : List Char) : Option (List Char) := do
  let c ← assertUint32 c
  let c := (c.sshiftRight 1 &&& 0x55555555) + (c &&& 0x55555555)
  let c := (c.sshiftRight 2 &&& 0x33333333) + (c &&& 0x33333333)
  let c := (c.sshiftRight 4 &&& 0x0f0f0f0f) + (c &&& 0x0f0f0f0f)
  let c := (c.sshiftRight 8 &&& 0x00ff00ff) + (c &&& 0x00ff00ff)
  let c := (c.sshiftRight 16 &&& 0x0000ffff) + (c &&& 0x0000ffff)
  some (print c)

/-- `prefix2netmask` -/
def prefix2netmask (n : List Char) : Option (List Char) := do
  let v ← assertUint32 n
  if testGt n 32 then none
  else
    let ones : Arith := BitVec.ofNat 64 uintMax
    some (print (~~~(ones.sshiftRight v.toNat) &&& ones))

/-- `is_contiguous`, for a number that has passed the check: the value that is exported is one. -/
def isContiguous (x : Arith) : Bool :=
  let y := ~~~x &&& BitVec.ofNat 64 uintMax
  let z := (y + 1) &&& BitVec.ofNat 64 uintMax
  z &&& y = 0

/-- `netmask2prefix` -/
def netmask2prefix (n : List Char) : Option (List Char) := do
  let v ← assertUint32 n
  if isContiguous v then bitcount n else none

/-! ## Numbers and their digits -/

theorem toInt_ofNat_of_lt {n : ℕ} (h : n < 2 ^ 63) : (BitVec.ofNat 64 n).toInt = n := by
  have hnat : (BitVec.ofNat 64 n).toNat = n := by
    rw [BitVec.toNat_ofNat]
    exact Nat.mod_eq_of_lt (by omega)
  rw [BitVec.toInt_eq_toNat_of_lt (by rw [hnat]; omega), hnat]

theorem print_ofNat {n : ℕ} (h : n < 2 ^ 63) : print (BitVec.ofNat 64 n) = Nat.toDigits 10 n := by
  unfold print
  rw [toInt_ofNat_of_lt h, if_neg (by omega), Int.toNat_natCast]

theorem arith_toDigits {n : ℕ} (h : n < 2 ^ 64) :
    arith (Nat.toDigits 10 n) = some (BitVec.ofNat 64 n) := by
  unfold arith
  by_cases hhead : (Nat.toDigits 10 n).head? = some '0'
  · have hzero := (Decimal.numeral_toDigits n).leading hhead
    have hn : n = 0 := by
      rw [← @Nat.ofDigitChars_ten_toDigits n, hzero]
      rfl
    subst hn
    decide
  · rw [if_neg hhead, Nat.ofDigitChars_ten_toDigits, Nat.min_eq_left (by omega)]

theorem assertUint32_toDigits {n : ℕ} (h : n < 2 ^ 32) :
    assertUint32 (Nat.toDigits 10 n) = some (BitVec.ofNat 64 n) := by
  have hnumeral := Decimal.numeral_toDigits n
  have hdigits : ¬ (Nat.toDigits 10 n = [] ∨ (Nat.toDigits 10 n).any (! ·.isDigit)) := by
    rintro (hnil | hany)
    · exact hnumeral.nonempty hnil
    · obtain ⟨c, hc, hnot⟩ := List.any_eq_true.mp hany
      rw [hnumeral.digits c hc] at hnot
      cases hnot
  have hsmall : ¬ testGt (Nat.toDigits 10 n) uintMax := by
    unfold testGt uintMax
    rw [Nat.ofDigitChars_ten_toDigits]
    omega
  have hadd : BitVec.ofNat 64 n + 0 = BitVec.ofNat 64 n := BitVec.add_zero _
  unfold assertUint32
  rw [if_neg hdigits, if_neg hsmall, arith_toDigits (by omega), Option.bind_eq_bind,
    Option.bind_some, hadd, print_ofNat (by omega), if_neg (not_not.mpr rfl)]

theorem eq_toDigits_of_assertUint32 {s : List Char} {v : Arith} (h : assertUint32 s = some v) :
    ∃ n < 2 ^ 32, s = Nat.toDigits 10 n ∧ v = BitVec.ofNat 64 n := by
  unfold assertUint32 at h
  split at h
  case isTrue => cases h
  case isFalse hdigits =>
    split at h
    case isTrue => cases h
    case isFalse hsmall =>
      rw [Option.bind_eq_bind, Option.bind_eq_some_iff] at h
      obtain ⟨w, -, h⟩ := h
      rw [show w + 0 = w from BitVec.add_zero w] at h
      by_cases hprint : print w = s
      · rw [if_neg (not_not.mpr hprint)] at h
        obtain rfl := Option.some.inj h
        unfold print at hprint
        by_cases hneg : w.toInt < 0
        · rw [if_pos hneg] at hprint
          refine absurd (Or.inr (List.any_eq_true.mpr ⟨'-', ?_, by decide⟩)) hdigits
          rw [← hprint]
          exact List.mem_cons_self
        · rw [if_neg hneg] at hprint
          have hlt := BitVec.toInt_lt (x := w)
          have hvalue : Nat.ofDigitChars 10 s 0 = w.toInt.toNat := by
            rw [← hprint, Nat.ofDigitChars_ten_toDigits]
          unfold testGt uintMax at hsmall
          rw [hvalue] at hsmall
          refine ⟨w.toInt.toNat, by omega, hprint.symm, ?_⟩
          apply BitVec.eq_of_toInt_eq
          rw [toInt_ofNat_of_lt (by omega), Int.toNat_of_nonneg (by omega)]
      · rw [if_pos hprint] at h
        cases h

/-! ## Octets -/

abbrev Fit (pattern : List Range) (ds : List Char) : Prop := List.Forall₂ Range.Has pattern ds

variable {pattern : List Range} {ds : List Char} {s n rest : List Char}

theorem startsWith_dot_iff {s : List Char} :
    startsWith (pattern ++ [dot]) s = true ↔ ∃ ds rest, Fit pattern ds ∧ s = ds ++ '.' :: rest := by
  induction pattern generalizing s with
  | nil =>
    cases s with
    | nil =>
      refine iff_of_false Bool.false_ne_true ?_
      rintro ⟨ds, rest, -, heq⟩
      exact absurd heq.symm (List.append_ne_nil_of_right_ne_nil ds (List.cons_ne_nil _ _))
    | cons c s =>
      rw [List.nil_append, startsWith, startsWith, Bool.and_true, decide_eq_true_eq]
      constructor
      · rintro ⟨hlow, hhigh⟩
        obtain rfl : c = '.' := Char.le_antisymm hhigh hlow
        exact ⟨[], s, .nil, rfl⟩
      · rintro ⟨ds, rest, hfit, heq⟩
        cases hfit
        obtain ⟨rfl, rfl⟩ := List.cons.inj heq
        exact ⟨Char.le_refl _, Char.le_refl _⟩
  | cons range pattern ih =>
    cases s with
    | nil =>
      refine iff_of_false Bool.false_ne_true ?_
      rintro ⟨ds, rest, hfit, heq⟩
      exact absurd heq.symm (List.append_ne_nil_of_right_ne_nil ds (List.cons_ne_nil _ _))
    | cons c s =>
      rw [List.cons_append, startsWith, Bool.and_eq_true, decide_eq_true_eq, ih]
      constructor
      · rintro ⟨hhas, ds, rest, hfit, rfl⟩
        exact ⟨c :: ds, rest, .cons hhas hfit, rfl⟩
      · rintro ⟨ds, rest, hfit, heq⟩
        cases hfit with
        | cons hhas hfit =>
          obtain ⟨rfl, rfl⟩ := List.cons.inj heq
          exact ⟨hhas, _, rest, hfit, rfl⟩

theorem matchesAll_iff {s : List Char} : matchesAll pattern s = true ↔ Fit pattern s := by
  unfold matchesAll
  induction pattern generalizing s with
  | nil =>
    cases s with
    | nil => exact iff_of_true rfl .nil
    | cons c s => exact iff_of_false Bool.false_ne_true fun h => nomatch h
  | cons range pattern ih =>
    cases s with
    | nil => exact iff_of_false Bool.false_ne_true fun h => nomatch h
    | cons c s =>
      rw [Fit, List.forall₂_cons, ← Fit, ← ih, startsWith, List.length_cons, List.length_cons,
        Bool.and_eq_true, Bool.and_eq_true, Bool.and_eq_true, decide_eq_true_eq,
        decide_eq_true_eq, decide_eq_true_eq, Nat.add_right_cancel_iff]
      exact and_left_comm

/-- The decimal numeral of a number up to 255. -/
def IsOctet (ds : List Char) : Prop := ∃ k ≤ 255, ds = Nat.toDigits 10 k

def Fits (ds : List Char) : Prop := Fit octet1 ds ∨ Fit octet2 ds ∨ ∃ pattern ∈ octet3, Fit pattern ds

theorem fits_toDigits {k : ℕ} (h : k ≤ 255) : Fits (Nat.toDigits 10 k) := by
  have hall : ∀ k < 256, matchesAll octet1 (Nat.toDigits 10 k) = true ∨
      matchesAll octet2 (Nat.toDigits 10 k) = true ∨
        ∃ pattern ∈ octet3, matchesAll pattern (Nat.toDigits 10 k) = true := by decide +kernel
  simpa only [matchesAll_iff, Fits] using hall k (by omega)

theorem ofDigitChars_le_of_fit (hfit : Fit pattern ds) {low high : ℕ} (h : low ≤ high) :
    Nat.ofDigitChars 10 ds low ≤ Nat.ofDigitChars 10 (pattern.map Prod.snd) high := by
  induction hfit generalizing low high with
  | nil => exact h
  | @cons range c pattern ds hhas _ ih =>
    have hc : c.toNat ≤ range.2.toNat := hhas.2
    rw [List.map_cons, Nat.ofDigitChars_cons, Nat.ofDigitChars_cons]
    exact ih (by omega)

theorem isOctet_of_fit {range : Range} (hfit : Fit (range :: pattern) ds)
    (hdigits : ∀ r ∈ range :: pattern, '0' ≤ r.1 ∧ r.2 ≤ '9')
    (hleading : pattern = [] ∨ '0' < range.1)
    (hvalue : Nat.ofDigitChars 10 ((range :: pattern).map Prod.snd) 0 ≤ 255) : IsOctet ds := by
  have hall : ∀ {pattern : List Range} {ds : List Char}, Fit pattern ds →
      (∀ r ∈ pattern, '0' ≤ r.1 ∧ r.2 ≤ '9') → ∀ c ∈ ds, c.isDigit := by
    intro pattern ds hfit
    induction hfit with
    | nil => exact fun _ c hc => nomatch hc
    | @cons range c pattern ds hhas _ ih =>
      intro hdigits
      rw [List.forall_mem_cons] at hdigits ⊢
      refine ⟨?_, ih hdigits.2⟩
      unfold Char.isDigit
      rw [Bool.and_eq_true, decide_eq_true_eq, decide_eq_true_eq]
      exact ⟨Char.le_trans hdigits.1.1 hhas.1, Char.le_trans hhas.2 hdigits.1.2⟩
  have hle := Nat.le_trans (ofDigitChars_le_of_fit hfit (Nat.le_refl 0)) hvalue
  have hdigits' := hall hfit hdigits
  cases hfit with
  | @cons _ c _ ds hhas hrest =>
    refine ⟨_, hle, (Decimal.toDigits_ofDigitChars ⟨List.cons_ne_nil c ds, hdigits', ?_⟩).symm⟩
    intro hhead
    rw [List.head?_cons, Option.some_inj] at hhead
    subst hhead
    rcases hleading with rfl | hlow
    · cases hrest
      rfl
    · exact absurd hhas.1 (Char.not_le.mpr hlow)

theorem isOctet_of_fits (h : Fits ds) : IsOctet ds := by
  rcases h with h | h | ⟨pattern, hpattern, h⟩
  · exact isOctet_of_fit h (by decide) (.inl rfl) (by decide)
  · exact isOctet_of_fit h (by decide) (.inr (by decide)) (by decide)
  · simp only [octet3, List.mem_cons, List.not_mem_nil, or_false] at hpattern
    rcases hpattern with rfl | rfl | rfl
    · exact isOctet_of_fit h (by decide) (.inr (by decide)) (by decide)
    · exact isOctet_of_fit h (by decide) (.inr (by decide)) (by decide)
    · exact isOctet_of_fit h (by decide) (.inr (by decide)) (by decide)

theorem fits_iff : Fits ds ↔ IsOctet ds := by
  refine ⟨isOctet_of_fits, ?_⟩
  rintro ⟨k, hk, rfl⟩
  exact fits_toDigits hk

theorem IsOctet.dot_notMem (h : IsOctet ds) : '.' ∉ ds := by
  obtain ⟨k, -, rfl⟩ := h
  intro hmem
  exact absurd ((Decimal.numeral_toDigits k).digits '.' hmem) (by decide)

theorem take_drop_of_fit (hfit : Fit pattern ds) (rest : List Char) :
    (ds ++ '.' :: rest).take pattern.length = ds ∧
      (ds ++ '.' :: rest).drop (pattern.length + 1) = rest := by
  rw [hfit.length_eq]
  refine ⟨List.take_left, ?_⟩
  rw [List.drop_append, List.drop_eq_nil_of_le (Nat.le_succ _), Nat.add_sub_cancel_left]
  rfl

theorem append_dot_inj {n n' rest rest' : List Char} (h : IsOctet n) (h' : IsOctet n')
    (heq : n ++ '.' :: rest = n' ++ '.' :: rest') : n = n' ∧ rest = rest' := by
  have hlength := congrArg (List.idxOf '.') heq
  rw [List.idxOf_append_of_notMem h.dot_notMem, List.idxOf_append_of_notMem h'.dot_notMem,
    List.idxOf_cons_self, List.idxOf_cons_self] at hlength
  obtain ⟨rfl, hrest⟩ := List.append_inj heq hlength
  exact ⟨rfl, (List.cons.inj hrest).2⟩

theorem fits_of_octet (h : octet s = some (n, rest)) : Fits n ∧ s = n ++ '.' :: rest := by
  unfold octet at h
  split at h
  case isTrue hone =>
    obtain ⟨ds, tail, hfit, rfl⟩ := startsWith_dot_iff.mp hone
    obtain ⟨htake, hdrop⟩ := take_drop_of_fit hfit tail
    obtain ⟨rfl, rfl⟩ := Prod.mk.inj (Option.some.inj h)
    rw [show (ds ++ '.' :: tail).take 1 = ds from htake,
      show (ds ++ '.' :: tail).drop 2 = tail from hdrop]
    exact ⟨.inl hfit, rfl⟩
  case isFalse =>
    split at h
    case isTrue htwo =>
      obtain ⟨ds, tail, hfit, rfl⟩ := startsWith_dot_iff.mp htwo
      obtain ⟨htake, hdrop⟩ := take_drop_of_fit hfit tail
      obtain ⟨rfl, rfl⟩ := Prod.mk.inj (Option.some.inj h)
      rw [show (ds ++ '.' :: tail).take 2 = ds from htake,
        show (ds ++ '.' :: tail).drop 3 = tail from hdrop]
      exact ⟨.inr (.inl hfit), rfl⟩
    case isFalse =>
      split at h
      case isTrue hthree =>
        obtain ⟨pattern, hpattern, hstarts⟩ := List.any_eq_true.mp hthree
        obtain ⟨ds, tail, hfit, rfl⟩ := startsWith_dot_iff.mp hstarts
        have hlength : pattern.length = 3 :=
          (by decide : ∀ pattern ∈ octet3, pattern.length = 3) pattern hpattern
        obtain ⟨htake, hdrop⟩ := take_drop_of_fit hfit tail
        rw [hlength] at htake hdrop
        obtain ⟨rfl, rfl⟩ := Prod.mk.inj (Option.some.inj h)
        rw [htake, hdrop]
        exact ⟨.inr (.inr ⟨pattern, hpattern, hfit⟩), rfl⟩
      case isFalse => cases h

/-- An octet, a dot and a rest are taken apart in one way. -/
theorem octet_iff : octet s = some (n, rest) ↔ IsOctet n ∧ s = n ++ '.' :: rest := by
  constructor
  · intro h
    obtain ⟨hfits, heq⟩ := fits_of_octet h
    exact ⟨isOctet_of_fits hfits, heq⟩
  · rintro ⟨hoctet, rfl⟩
    have hsome : octet (n ++ '.' :: rest) ≠ none := by
      unfold octet
      rcases fits_iff.mpr hoctet with h | h | ⟨pattern, hpattern, h⟩
      · rw [if_pos (startsWith_dot_iff.mpr ⟨n, rest, h, rfl⟩)]
        exact Option.some_ne_none _
      · rw [if_pos (startsWith_dot_iff.mpr ⟨n, rest, h, rfl⟩)]
        split <;> exact Option.some_ne_none _
      · have hany : (octet3.any fun pattern => startsWith (pattern ++ [dot]) (n ++ '.' :: rest)) = true :=
          List.any_eq_true.mpr ⟨pattern, hpattern, startsWith_dot_iff.mpr ⟨n, rest, h, rfl⟩⟩
        rw [if_pos hany]
        split
        · exact Option.some_ne_none _
        · split <;> exact Option.some_ne_none _
    obtain ⟨⟨n', rest'⟩, hresult⟩ := Option.ne_none_iff_exists'.mp hsome
    obtain ⟨hfits, heq⟩ := fits_of_octet hresult
    obtain ⟨rfl, rfl⟩ := append_dot_inj hoctet (isOctet_of_fits hfits) heq
    exact hresult

theorem fits_of_lastOctet (h : lastOctet s = some (n, rest)) : Fits n ∧ s = n ∧ rest = [] := by
  have hwhole : ∀ {pattern : List Range}, Fit pattern s →
      s.take pattern.length = s ∧ s.drop pattern.length = [] := by
    intro pattern hfit
    rw [hfit.length_eq]
    exact ⟨List.take_length, List.drop_length⟩
  unfold lastOctet at h
  split at h
  case isTrue hone =>
    obtain ⟨htake, hdrop⟩ := hwhole (matchesAll_iff.mp hone)
    obtain ⟨rfl, rfl⟩ := Prod.mk.inj (Option.some.inj h)
    rw [show s.take 1 = s from htake]
    exact ⟨.inl (matchesAll_iff.mp hone), rfl, hdrop⟩
  case isFalse =>
    split at h
    case isTrue htwo =>
      obtain ⟨htake, hdrop⟩ := hwhole (matchesAll_iff.mp htwo)
      obtain ⟨rfl, rfl⟩ := Prod.mk.inj (Option.some.inj h)
      rw [show s.take 2 = s from htake]
      exact ⟨.inr (.inl (matchesAll_iff.mp htwo)), rfl, hdrop⟩
    case isFalse =>
      split at h
      case isTrue hthree =>
        obtain ⟨pattern, hpattern, hall⟩ := List.any_eq_true.mp hthree
        have hlength : pattern.length = 3 :=
          (by decide : ∀ pattern ∈ octet3, pattern.length = 3) pattern hpattern
        obtain ⟨htake, hdrop⟩ := hwhole (matchesAll_iff.mp hall)
        rw [hlength] at htake hdrop
        obtain ⟨rfl, rfl⟩ := Prod.mk.inj (Option.some.inj h)
        rw [htake]
        exact ⟨.inr (.inr ⟨pattern, hpattern, matchesAll_iff.mp hall⟩), rfl, hdrop⟩
      case isFalse => cases h

theorem lastOctet_iff : lastOctet s = some (n, rest) ↔ IsOctet n ∧ s = n ∧ rest = [] := by
  constructor
  · intro h
    obtain ⟨hfits, heq⟩ := fits_of_lastOctet h
    exact ⟨isOctet_of_fits hfits, heq⟩
  · rintro ⟨hoctet, rfl, rfl⟩
    have hsome : lastOctet s ≠ none := by
      unfold lastOctet
      rcases fits_iff.mpr hoctet with h | h | ⟨pattern, hpattern, h⟩
      · rw [if_pos (matchesAll_iff.mpr h)]
        exact Option.some_ne_none _
      · rw [if_pos (matchesAll_iff.mpr h)]
        split <;> exact Option.some_ne_none _
      · rw [if_pos (List.any_eq_true.mpr ⟨pattern, hpattern, matchesAll_iff.mpr h⟩)]
        split
        · exact Option.some_ne_none _
        · split <;> exact Option.some_ne_none _
    obtain ⟨⟨n, rest⟩, hresult⟩ := Option.ne_none_iff_exists'.mp hsome
    obtain ⟨-, rfl, rfl⟩ := fits_of_lastOctet hresult
    exact hresult

/-! ## Dotted quads -/

/-- The dotted quad of four numbers. -/
def dottedQuad (a b c d : ℕ) : List Char :=
  Nat.toDigits 10 a ++ '.' :: (Nat.toDigits 10 b ++ '.' :: (Nat.toDigits 10 c ++
    '.' :: Nat.toDigits 10 d))

/-- The number of a dotted quad. -/
def quadValue (a b c d : ℕ) : ℕ := a * 2 ^ 24 + b * 2 ^ 16 + c * 2 ^ 8 + d

theorem quad_eq (a b c d : ℕ) :
    BitVec.ofNat 64 a <<< 24 + BitVec.ofNat 64 b <<< 16 + BitVec.ofNat 64 c <<< 8 +
      BitVec.ofNat 64 d = BitVec.ofNat 64 (quadValue a b c d) := by
  apply BitVec.eq_of_toNat_eq
  unfold quadValue
  simp only [BitVec.toNat_add, BitVec.toNat_shiftLeft, BitVec.toNat_ofNat, Nat.shiftLeft_eq]
  omega

theorem quadValue_lt {a b c d : ℕ} (ha : a ≤ 255) (hb : b ≤ 255) (hc : c ≤ 255) (hd : d ≤ 255) :
    quadValue a b c d < 2 ^ 32 := by
  unfold quadValue
  omega

theorem str2ip_dottedQuad {a b c d : ℕ} (ha : a ≤ 255) (hb : b ≤ 255) (hc : c ≤ 255)
    (hd : d ≤ 255) :
    str2ip (dottedQuad a b c d) = some (Nat.toDigits 10 (quadValue a b c d)) := by
  have hlt := quadValue_lt ha hb hc hd
  unfold str2ip dottedQuad
  simp only [octet_iff.mpr ⟨⟨a, ha, rfl⟩, rfl⟩, octet_iff.mpr ⟨⟨b, hb, rfl⟩, rfl⟩,
    octet_iff.mpr ⟨⟨c, hc, rfl⟩, rfl⟩, lastOctet_iff.mpr ⟨⟨d, hd, rfl⟩, rfl, rfl⟩,
    Option.bind_eq_bind, Option.bind_some, arith_toDigits (show a < 2 ^ 64 by omega),
    arith_toDigits (show b < 2 ^ 64 by omega), arith_toDigits (show c < 2 ^ 64 by omega),
    arith_toDigits (show d < 2 ^ 64 by omega), quad_eq]
  rw [if_neg (not_not.mpr rfl), print_ofNat (by omega)]

theorem exists_quad_of_str2ip {s v : List Char} (h : str2ip s = some v) :
    ∃ a ≤ 255, ∃ b ≤ 255, ∃ c ≤ 255, ∃ d ≤ 255, s = dottedQuad a b c d := by
  unfold str2ip at h
  simp only [Option.bind_eq_bind, Option.bind_eq_some_iff] at h
  obtain ⟨⟨n₁, s₁⟩, h₁, -, -, ⟨n₂, s₂⟩, h₂, -, -, ⟨n₃, s₃⟩, h₃, -, -, ⟨n₄, s₄⟩, h₄, -⟩ := h
  obtain ⟨⟨a, ha, rfl⟩, rfl⟩ := octet_iff.mp h₁
  obtain ⟨⟨b, hb, rfl⟩, rfl⟩ := octet_iff.mp h₂
  obtain ⟨⟨c, hc, rfl⟩, rfl⟩ := octet_iff.mp h₃
  obtain ⟨⟨d, hd, rfl⟩, rfl, -⟩ := lastOctet_iff.mp h₄
  exact ⟨a, ha, b, hb, c, hc, d, hd, rfl⟩

/-! ## Numbers to dotted quads -/

theorem toNat_sshiftRight_ofNat {n k : ℕ} (h : n < 2 ^ 63) :
    ((BitVec.ofNat 64 n).sshiftRight k) = BitVec.ofNat 64 (n / 2 ^ k) := by
  have hmsb : (BitVec.ofNat 64 n).msb = false := by
    rw [BitVec.msb_eq_false_iff_two_mul_lt, BitVec.toNat_ofNat, Nat.mod_eq_of_lt (by omega)]
    omega
  apply BitVec.eq_of_toNat_eq
  have hle := Nat.div_le_self n (2 ^ k)
  rw [BitVec.toNat_sshiftRight_of_msb_false hmsb, BitVec.toNat_ofNat, BitVec.toNat_ofNat,
    Nat.mod_eq_of_lt (by omega), Nat.shiftRight_eq_div_pow, Nat.mod_eq_of_lt (by omega)]

theorem ofNat_and_mask (n k : ℕ) (h : k ≤ 64) :
    BitVec.ofNat 64 n &&& BitVec.ofNat 64 (2 ^ k - 1) = BitVec.ofNat 64 (n % 2 ^ k) := by
  apply BitVec.eq_of_toNat_eq
  have hpos := Nat.two_pow_pos k
  have hle : 2 ^ k ≤ 2 ^ 64 := Nat.pow_le_pow_right (by decide) h
  have hlt : n % 2 ^ k < 2 ^ k := Nat.mod_lt n hpos
  rw [BitVec.toNat_and, BitVec.toNat_ofNat, BitVec.toNat_ofNat, BitVec.toNat_ofNat,
    Nat.mod_eq_of_lt (show 2 ^ k - 1 < 2 ^ 64 by omega), Nat.and_two_pow_sub_one_eq_mod,
    Nat.mod_mod_of_dvd n (Nat.pow_dvd_pow 2 h), Nat.mod_eq_of_lt (show n % 2 ^ k < 2 ^ 64 by omega)]

theorem ofNat_and_255 (n : ℕ) : BitVec.ofNat 64 n &&& 255 = BitVec.ofNat 64 (n % 256) :=
  ofNat_and_mask n 8 (by decide)

theorem ip2str_toDigits {n : ℕ} (h : n < 2 ^ 32) :
    ip2str (Nat.toDigits 10 n) =
      some (dottedQuad (n / 2 ^ 24) (n / 2 ^ 16 % 256) (n / 2 ^ 8 % 256) (n % 256)) := by
  unfold ip2str
  rw [assertUint32_toDigits h, Option.bind_eq_bind, Option.bind_some,
    toNat_sshiftRight_ofNat (by omega), toNat_sshiftRight_ofNat (by omega),
    toNat_sshiftRight_ofNat (by omega), ofNat_and_255, ofNat_and_255, ofNat_and_255,
    print_ofNat (by omega), print_ofNat (by omega), print_ofNat (by omega), print_ofNat (by omega)]
  unfold dottedQuad
  simp only [List.append_assoc, List.cons_append]

/-! ## Masks -/

/-- The mask of a prefix length. -/
def maskOf (k : ℕ) : ℕ := 2 ^ 32 - 2 ^ (32 - k)

theorem maskOf_lt (k : ℕ) : maskOf k < 2 ^ 32 := by
  unfold maskOf
  have := Nat.two_pow_pos (32 - k)
  omega

theorem not_and_uintMax {n : ℕ} (h : n < 2 ^ 32) :
    ~~~(BitVec.ofNat 64 n) &&& BitVec.ofNat 64 uintMax = BitVec.ofNat 64 (2 ^ 32 - 1 - n) := by
  have hnot : ~~~(BitVec.ofNat 64 n) = BitVec.ofNat 64 (2 ^ 64 - 1 - n) := by
    apply BitVec.eq_of_toNat_eq
    rw [BitVec.toNat_not, BitVec.toNat_ofNat, BitVec.toNat_ofNat]
    omega
  rw [hnot, show uintMax = 2 ^ 32 - 1 from rfl, ofNat_and_mask _ 32 (by decide)]
  congr 1
  omega

/-- The test by `z & y` says that the complement is one less than a power of two. -/
theorem isContiguous_iff {n : ℕ} (h : n < 2 ^ 32) :
    isContiguous (BitVec.ofNat 64 n) = true ↔ ∃ k ≤ 32, n = maskOf k := by
  have hz : (BitVec.ofNat 64 (2 ^ 32 - 1 - n) + 1) &&& BitVec.ofNat 64 uintMax =
      BitVec.ofNat 64 ((2 ^ 32 - n) % 2 ^ 32) := by
    have hadd : BitVec.ofNat 64 (2 ^ 32 - 1 - n) + 1 = BitVec.ofNat 64 (2 ^ 32 - n) := by
      rw [show (1 : Arith) = BitVec.ofNat 64 1 from rfl, ← BitVec.ofNat_add]
      congr 1
      omega
    rw [hadd, show uintMax = 2 ^ 32 - 1 from rfl, ofNat_and_mask _ 32 (by decide)]
  have hand : isContiguous (BitVec.ofNat 64 n) = true ↔
      (2 ^ 32 - n) % 2 ^ 32 &&& (2 ^ 32 - 1 - n) = 0 := by
    unfold isContiguous
    rw [not_and_uintMax h]
    dsimp only
    rw [hz, decide_eq_true_eq, ← BitVec.toNat_inj, BitVec.toNat_and, BitVec.toNat_ofNat,
      BitVec.toNat_ofNat, Nat.mod_eq_of_lt (show (2 ^ 32 - n) % 2 ^ 32 < 2 ^ 64 by omega),
      Nat.mod_eq_of_lt (show 2 ^ 32 - 1 - n < 2 ^ 64 by omega)]
    rfl
  rw [hand]
  by_cases hn : n = 0
  · subst hn
    exact iff_of_true (by decide) ⟨0, by decide, rfl⟩
  · have hlt : 2 ^ 32 - n < 2 ^ 32 := by omega
    have hpred : 2 ^ 32 - 1 - n = 2 ^ 32 - n - 1 := by omega
    rw [Nat.mod_eq_of_lt hlt, hpred, Nat.and_sub_one_eq_zero_iff_isPowerOfTwo (by omega)]
    constructor
    · rintro ⟨j, hj⟩
      have hj32 : j < 32 := by
        rw [hj] at hlt
        exact (Nat.pow_lt_pow_iff_right (by decide)).mp hlt
      refine ⟨32 - j, by omega, ?_⟩
      unfold maskOf
      rw [show 32 - (32 - j) = j by omega]
      omega
    · rintro ⟨k, -, rfl⟩
      refine ⟨32 - k, ?_⟩
      exact Nat.sub_sub_self (Nat.pow_le_pow_right (by decide) (by omega))

theorem bitcount_maskOf {k : ℕ} (h : k ≤ 32) :
    bitcount (Nat.toDigits 10 (maskOf k)) = some (Nat.toDigits 10 k) := by
  have hall : ∀ k < 33, bitcount (Nat.toDigits 10 (maskOf k)) = some (Nat.toDigits 10 k) := by
    decide +kernel
  exact hall k (by omega)

theorem prefix2netmask_toDigits {k : ℕ} (h : k ≤ 32) :
    prefix2netmask (Nat.toDigits 10 k) = some (Nat.toDigits 10 (maskOf k)) := by
  have hall : ∀ k < 33, prefix2netmask (Nat.toDigits 10 k) = some (Nat.toDigits 10 (maskOf k)) := by
    decide +kernel
  exact hall k (by omega)

theorem netmask2prefix_iff {s v : List Char} :
    netmask2prefix s = some v ↔ ∃ k ≤ 32, s = Nat.toDigits 10 (maskOf k) ∧ v = Nat.toDigits 10 k := by
  constructor
  · intro h
    unfold netmask2prefix at h
    rw [Option.bind_eq_bind, Option.bind_eq_some_iff] at h
    obtain ⟨w, hw, h⟩ := h
    obtain ⟨n, hn, rfl, rfl⟩ := eq_toDigits_of_assertUint32 hw
    split at h
    case isTrue hcontiguous =>
      obtain ⟨k, hk, rfl⟩ := (isContiguous_iff hn).mp hcontiguous
      rw [bitcount_maskOf hk] at h
      exact ⟨k, hk, rfl, (Option.some.inj h).symm⟩
    case isFalse => cases h
  · rintro ⟨k, hk, rfl, rfl⟩
    unfold netmask2prefix
    rw [assertUint32_toDigits (maskOf_lt k), Option.bind_eq_bind, Option.bind_some,
      if_pos ((isContiguous_iff (maskOf_lt k)).mpr ⟨k, hk, rfl⟩), bitcount_maskOf hk]

/-- The number of 32 bits that are `k` ones and then zeros. -/
def IsMask (n k : ℕ) : Prop := n < 2 ^ 32 ∧ ∀ i < 32, n.testBit (31 - i) = decide (i < k)

theorem isMask_iff {n k : ℕ} (h : k ≤ 32) : IsMask n k ↔ n = maskOf k := by
  have hbits : ∀ i < 32, (maskOf k).testBit (31 - i) = decide (i < k) := by
    have hall : ∀ k < 33, ∀ i < 32, (maskOf k).testBit (31 - i) = decide (i < k) := by
      decide +kernel
    exact hall k (by omega)
  constructor
  · rintro ⟨hlt, hn⟩
    refine Nat.eq_of_testBit_eq fun i => ?_
    by_cases hi : i < 32
    · have hsame := (hn (31 - i) (by omega)).trans (hbits (31 - i) (by omega)).symm
      rwa [show 31 - (31 - i) = i by omega] at hsame
    · have hle : 2 ^ 32 ≤ 2 ^ i := Nat.pow_le_pow_right (by decide) (by omega)
      rw [Nat.testBit_lt_two_pow (Nat.lt_of_lt_of_le hlt hle),
        Nat.testBit_lt_two_pow (Nat.lt_of_lt_of_le (maskOf_lt k) hle)]
  · rintro rfl
    exact ⟨maskOf_lt k, hbits⟩

/-! ## The conversions -/

/-- `str2ip` takes the dotted quads of octets and returns their values, and `ip2str` is its
inverse; `netmask2prefix` takes the masks of ones followed by zeros, and `prefix2netmask` is its
inverse. -/
structure Conversions : Prop where
  str2ip : ∀ s v, str2ip s = some v ↔
    ∃ a ≤ 255, ∃ b ≤ 255, ∃ c ≤ 255, ∃ d ≤ 255, s = dottedQuad a b c d ∧
      v = Nat.toDigits 10 (quadValue a b c d)
  ip2str : ∀ n < 2 ^ 32, ∃ s, ip2str (Nat.toDigits 10 n) = some s ∧
    Ipcalc.str2ip s = some (Nat.toDigits 10 n)
  ip2str_str2ip : ∀ s v, Ipcalc.str2ip s = some v → Ipcalc.ip2str v = some s
  netmask2prefix : ∀ s v, netmask2prefix s = some v ↔
    ∃ k ≤ 32, ∃ n, IsMask n k ∧ s = Nat.toDigits 10 n ∧ v = Nat.toDigits 10 k
  prefix2netmask : ∀ k ≤ 32, ∃ s, prefix2netmask (Nat.toDigits 10 k) = some s ∧
    Ipcalc.netmask2prefix s = some (Nat.toDigits 10 k)
  prefix2netmask_netmask2prefix : ∀ s v, Ipcalc.netmask2prefix s = some v →
    Ipcalc.prefix2netmask v = some s

/-- The conversions of `ipv4.sh` are right and invert each other. -/
theorem conversions : Conversions where
  str2ip s v := by
    constructor
    · intro h
      obtain ⟨a, ha, b, hb, c, hc, d, hd, rfl⟩ := exists_quad_of_str2ip h
      rw [str2ip_dottedQuad ha hb hc hd] at h
      exact ⟨a, ha, b, hb, c, hc, d, hd, rfl, (Option.some.inj h).symm⟩
    · rintro ⟨a, ha, b, hb, c, hc, d, hd, rfl, rfl⟩
      exact str2ip_dottedQuad ha hb hc hd
  ip2str n hn := by
    have hvalue : quadValue (n / 2 ^ 24) (n / 2 ^ 16 % 256) (n / 2 ^ 8 % 256) (n % 256) = n := by
      unfold quadValue
      omega
    refine ⟨_, ip2str_toDigits hn, ?_⟩
    rw [str2ip_dottedQuad (by omega) (by omega) (by omega) (by omega), hvalue]
  ip2str_str2ip s v h := by
    obtain ⟨a, ha, b, hb, c, hc, d, hd, rfl⟩ := exists_quad_of_str2ip h
    rw [str2ip_dottedQuad ha hb hc hd] at h
    obtain rfl := Option.some.inj h
    rw [ip2str_toDigits (quadValue_lt ha hb hc hd)]
    unfold quadValue
    congr 2 <;> omega
  netmask2prefix s v := by
    rw [netmask2prefix_iff]
    refine exists_congr fun k => and_congr_right fun hk => ?_
    constructor
    · rintro ⟨rfl, rfl⟩
      exact ⟨maskOf k, (isMask_iff hk).mpr rfl, rfl, rfl⟩
    · rintro ⟨n, hmask, rfl, rfl⟩
      rw [(isMask_iff hk).mp hmask]
      exact ⟨rfl, rfl⟩
  prefix2netmask k hk := ⟨_, prefix2netmask_toDigits hk, netmask2prefix_iff.mpr ⟨k, hk, rfl, rfl⟩⟩
  prefix2netmask_netmask2prefix s v h := by
    obtain ⟨k, hk, rfl, rfl⟩ := netmask2prefix_iff.mp h
    exact prefix2netmask_toDigits hk

end OpenWrt.Ipcalc
