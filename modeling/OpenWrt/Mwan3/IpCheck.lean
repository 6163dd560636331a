/-
# The address check of a rule

A rule's source and destination are comma-separated lists of addresses and prefixes.
`mwan3ipcheck` classifies the text by family, and the renderer then pastes the text itself
into the match of the rule. A string is a list of bytes, and `inet_pton` is a parameter
with what POSIX says about the texts that it takes.
-/

import Mathlib.Data.List.DropRight
import OpenWrt.Lib.Decimal
import OpenWrt.Mwan3.Ruleset

namespace OpenWrt.Mwan3.IpCheck

open OpenWrt.Lib

/-! ## The C library -/

/-- A character of an address: a hexadecimal digit, a dot or a colon. -/
def isAddressChar (c : Char) : Bool :=
  c.isDigit || ('a' ≤ c && c ≤ 'f') || ('A' ≤ c && c ≤ 'F') || c = '.' || c = ':'

/-- The C library of the target: `inet_pton` and `LONG_MAX`. -/
structure Libc where
  /-- `inet_pton(family, text, addr) == 1`. -/
  inetPton : Family → List Char → Bool
  /-- `LONG_MAX`. -/
  longMax : ℕ
  inetPton_nil : ∀ family, inetPton family [] = false
  inetPton_chars : ∀ family text, inetPton family text = true → ∀ c ∈ text, isAddressChar c
  /-- An IPv6 address has a colon and an IPv4 address has none. -/
  inetPton_colon : ∀ family text, inetPton family text = true →
    (':' ∈ text ↔ family = .ipv6)
  /-- `INET6_ADDRSTRLEN` is 46, with the NUL. -/
  inetPton_length : ∀ family text, inetPton family text = true → text.length ≤ 45
  longMax_ge : 2 ^ 31 - 1 ≤ longMax

/-- `isspace` in the C locale. -/
def isSpace (c : Char) : Bool :=
  c = ' ' || ('\t' ≤ c && c ≤ '\r')

/-- What `strtok_r(_, ",", _)` returns one after the other: the nonempty stretches between
commas. -/
def strtok (text : List Char) : List (List Char) :=
  (text.splitOn ',').filter fun token => !token.isEmpty

section Strtol

variable (libc : Libc)

/-- The sign of `strtol`: whether it is a minus, and what follows it. -/
def splitSign : List Char → Bool × List Char
  | '-' :: text => (true, text)
  | '+' :: text => (false, text)
  | text => (false, text)

/-- `strtol(text, &end, 10)`: the value, and the text at `end`. Blanks and a sign come
before the digits; without a digit `end` is `text` itself. -/
def strtol (text : List Char) : Int × List Char :=
  let (negative, digits) := splitSign (text.dropWhile isSpace)
  let number := Nat.ofDigitChars 10 (digits.takeWhile Char.isDigit) 0
  if digits.takeWhile Char.isDigit = [] then (0, text)
  else if negative then
    (max (-(number : Int)) (-(libc.longMax : Int) - 1), digits.dropWhile Char.isDigit)
  else (min (number : Int) libc.longMax, digits.dropWhile Char.isDigit)

end Strtol

/-! ## `mwan3ipcheck` -/

/-- `max_pfx` -/
def maxPfx : Family → ℕ
  | .ipv4 => 32
  | .ipv6 => 128

section Check

variable (libc : Libc)

/-- The family that `inet_pton` takes the address for, IPv4 first. -/
def addressFamily (buf : List Char) : Option Family :=
  if libc.inetPton .ipv4 buf then some .ipv4
  else if libc.inetPton .ipv6 buf then some .ipv6
  else none

/-- The checks of a prefix length. -/
def prefixOk (family : Family) (pfxstr : List Char) : Bool :=
  if pfxstr.head? = some '0' ∧ pfxstr.tail ≠ [] then false
  else
    let (pfx, rest) := strtol libc pfxstr
    if rest ≠ [] ∨ rest = pfxstr then false
    else if pfx < 0 ∨ (maxPfx family : Int) < pfx then false
    else true

/-- The family of one token; `none` is zero. -/
def classify (arg : List Char) : Option Family :=
  if arg.length = 0 ∨ 64 ≤ arg.length then none
  else
    let buf := arg.takeWhile (· ≠ '/')
    match arg.dropWhile (· ≠ '/') with
    | [] => addressFamily libc buf
    | _ :: pfxstr =>
      if pfxstr = [] then none
      else (addressFamily libc buf).filter fun family => prefixOk libc family pfxstr

/-- The token without the whitespace around it. -/
def trim (token : List Char) : List Char :=
  (token.dropWhile isSpace).rdropWhile isSpace

/-- What `classify_list` returns: zero, minus one, or a family. -/
inductive Class
  | invalid | mixed | family (family : Family)
  deriving DecidableEq

/-- The loop over the tokens with `common_family`. -/
def classifyTokens : Option Family → List (List Char) → Class
  | none, [] => .invalid
  | some family, [] => .family family
  | common, token :: rest =>
    if trim token = [] then classifyTokens common rest
    else
      match classify libc (trim token) with
      | none => .invalid
      | some family =>
        match common with
        | none => classifyTokens (some family) rest
        | some commonFamily =>
          if family ≠ commonFamily then .mixed else classifyTokens common rest

/-- `classify_list` -/
def classifyList (arg : List Char) : Class :=
  if arg.length = 0 ∨ 512 ≤ arg.length then .invalid
  else classifyTokens libc none (strtok arg)

/-- What the program leaves: the line it prints and whether it exits with success. -/
structure Output where
  puts : String
  success : Bool
  deriving DecidableEq

/-- `main`, with the arguments after the program's name. -/
def main (args : List (List Char)) : Output :=
  let result := match args with
    | [arg] => classifyList libc arg
    | _ => .invalid
  match result with
  | .family .ipv4 => ⟨"ipv4", true⟩
  | .family .ipv6 => ⟨"ipv6", true⟩
  | .mixed => ⟨"mixed", false⟩
  | .invalid => ⟨"invalid", false⟩

/-- The program takes the string for a list of the family. -/
def Accepts (family : Family) (arg : List Char) : Prop :=
  main libc [arg] = match family with
    | .ipv4 => ⟨"ipv4", true⟩
    | .ipv6 => ⟨"ipv6", true⟩

end Check

/-- `nft_src_ip` and `nft_dest_ip`: a text with a comma becomes an anonymous set. -/
def nftIp (ip : List Char) : List Char :=
  if ',' ∈ ip then
    "\x7b ".toList ++ ip.flatMap (fun c => if c = ',' then [',', ' '] else [c]) ++ " \x7d".toList
  else ip

/-! ## The grammar -/

section Grammar

variable (libc : Libc) (family : Family)

/-- An address, or an address with a decimal prefix length of its family. -/
inductive IsElement : List Char → Prop
  | address {address} : libc.inetPton family address = true → IsElement address
  | network {address} {length : ℕ} : libc.inetPton family address = true →
      length ≤ maxPfx family → IsElement (address ++ '/' :: Nat.toDigits 10 length)

/-- Elements of the family separated by commas, each with whitespace around it. -/
def IsList (text : List Char) : Prop :=
  ∀ token ∈ text.splitOn ',', IsElement libc family (trim token)

/-- An element with blanks around it, as nft reads it: the only whitespace is spaces and
tabs. -/
def IsNftElement (text : List Char) : Prop :=
  (∀ c ∈ text, isSpace c → c = ' ' ∨ c = '\t') ∧ IsElement libc family (trim text)

/-- The elements of an nft set. -/
inductive NftElements : List Char → Prop
  | single {element} : IsNftElement libc family element → NftElements element
  | cons {element rest} : IsNftElement libc family element → NftElements rest →
      NftElements (element ++ ',' :: rest)

/-- What may follow `ip saddr`: one element, or a set of elements in braces. -/
inductive NftOperand : List Char → Prop
  | element {text} : IsNftElement libc family text → NftOperand text
  | set {body} : NftElements libc family body → NftOperand ('{' :: (body ++ ['}']))

end Grammar

/-- No token is empty, and in none has a slash whitespace or a sign right after it. -/
structure Plain (text : List Char) : Prop where
  tokens : ∀ token ∈ text.splitOn ',', trim token ≠ []
  slashes : ∀ token ∈ text.splitOn ',', ∀ before c after,
    trim token = before ++ '/' :: c :: after → isSpace c = false ∧ c ≠ '+' ∧ c ≠ '-'

/-! ## The prefix length -/

section Prefix

variable {libc : Libc} {family : Family}

theorem maxPfx_le (family : Family) : maxPfx family ≤ 128 := by
  cases family <;> decide

theorem splitSign_of_ne {c : Char} {rest : List Char} (hplus : c ≠ '+') (hminus : c ≠ '-') :
    splitSign (c :: rest) = (false, c :: rest) := by
  unfold splitSign
  split
  · rename_i heq
    injection heq with h
    exact absurd h hminus
  · rename_i heq
    injection heq with h
    exact absurd h hplus
  · rfl

/-- Digits are read to the end, up to `LONG_MAX`. -/
theorem strtol_digits {ds : List Char} (hds : ds ≠ []) (hdigits : ∀ c ∈ ds, c.isDigit) :
    strtol libc ds = (min (Nat.ofDigitChars 10 ds 0 : Int) libc.longMax, []) := by
  obtain ⟨c, rest, rfl⟩ := List.exists_cons_of_ne_nil hds
  have hc : c.isDigit := hdigits c List.mem_cons_self
  have hspace : isSpace c = false := by
    simp only [Char.isDigit, Bool.and_eq_true, decide_eq_true_eq] at hc
    simp only [isSpace, Bool.or_eq_false_iff, Bool.and_eq_false_iff, decide_eq_false_iff_not]
    refine ⟨?_, Or.inr ?_⟩
    · rintro rfl
      exact absurd hc.1 (by decide)
    · intro hle
      exact absurd (Nat.le_trans hc.1 hle) (by decide)
  have hsign : splitSign (c :: rest) = (false, c :: rest) := by
    refine splitSign_of_ne ?_ ?_
    all_goals
      rintro rfl
      exact absurd hc (by decide)
  have htake : (c :: rest).takeWhile Char.isDigit = c :: rest :=
    List.takeWhile_eq_self_iff.mpr hdigits
  have hdrop : (c :: rest).dropWhile Char.isDigit = [] :=
    List.dropWhile_eq_nil_iff.mpr hdigits
  have hblank : (c :: rest).dropWhile isSpace = c :: rest :=
    List.dropWhile_cons_of_neg (by rw [hspace]; decide)
  simp only [strtol, hblank, hsign, htake, hdrop]
  rw [if_neg hds, if_neg Bool.false_ne_true]

theorem digits_of_strtol {c : Char} {rest : List Char} (hspace : isSpace c = false)
    (hplus : c ≠ '+') (hminus : c ≠ '-') (hend : (strtol libc (c :: rest)).2 = []) :
    ∀ d ∈ c :: rest, d.isDigit := by
  have hblank : (c :: rest).dropWhile isSpace = c :: rest :=
    List.dropWhile_cons_of_neg (by rw [hspace]; decide)
  have hsign : splitSign (c :: rest) = (false, c :: rest) := splitSign_of_ne hplus hminus
  simp only [strtol, hblank, hsign] at hend
  split at hend
  · exact absurd hend (List.cons_ne_nil _ _)
  · exact List.dropWhile_eq_nil_iff.mp (by simpa using hend)

theorem prefixOk_toDigits {length : ℕ} (h : length ≤ maxPfx family) :
    prefixOk libc family (Nat.toDigits 10 length) = true := by
  have hnumeral := Decimal.numeral_toDigits length
  have hzero : ¬ ((Nat.toDigits 10 length).head? = some '0' ∧
      (Nat.toDigits 10 length).tail ≠ []) := by
    rintro ⟨hhead, htail⟩
    rw [hnumeral.leading hhead] at htail
    exact htail rfl
  have hlong := libc.longMax_ge
  have hmax := maxPfx_le family
  unfold prefixOk
  rw [if_neg hzero, strtol_digits hnumeral.nonempty hnumeral.digits,
    Nat.ofDigitChars_ten_toDigits]
  dsimp only
  rw [if_neg (by rintro (h | h); exacts [h rfl, hnumeral.nonempty h.symm]), if_neg (by omega)]

/-- A text that passes, without whitespace or a sign before it, is a prefix length of the
family. -/
theorem toDigits_of_prefixOk {c : Char} {rest : List Char} (hspace : isSpace c = false)
    (hplus : c ≠ '+') (hminus : c ≠ '-') (h : prefixOk libc family (c :: rest) = true) :
    ∃ length ≤ maxPfx family, Nat.toDigits 10 length = c :: rest := by
  unfold prefixOk at h
  split at h
  · exact absurd h Bool.false_ne_true
  · rename_i hzero
    dsimp only at h
    split at h
    · exact absurd h Bool.false_ne_true
    · rename_i hend
      push Not at hend
      have hdigits := digits_of_strtol hspace hplus hminus hend.1
      have hnumeral : Decimal.Numeral (c :: rest) := by
        refine ⟨List.cons_ne_nil _ _, hdigits, fun hhead => ?_⟩
        have htail : rest = [] := by
          by_contra hne
          exact hzero ⟨hhead, hne⟩
        rw [List.head?_cons, Option.some.injEq] at hhead
        rw [htail, hhead]
      refine ⟨Nat.ofDigitChars 10 (c :: rest) 0, ?_, Decimal.toDigits_ofDigitChars hnumeral⟩
      rw [strtol_digits (List.cons_ne_nil _ _) hdigits] at h
      have hlong := libc.longMax_ge
      have hmax := maxPfx_le family
      split at h
      · exact absurd h Bool.false_ne_true
      · dsimp only at *
        omega

end Prefix

/-! ## One token -/

section Token

variable {libc : Libc} {family : Family} {text : List Char}

theorem slash_notMem (h : libc.inetPton family text = true) : ∀ c ∈ text, c ≠ '/' := by
  rintro c hc rfl
  exact absurd (libc.inetPton_chars family text h '/' hc) (by decide)

theorem addressFamily_eq_some : addressFamily libc text = some family ↔
    libc.inetPton family text = true := by
  have hcolon := libc.inetPton_colon
  unfold addressFamily
  cases hfour : libc.inetPton .ipv4 text with
  | true =>
    cases family with
    | ipv4 => simp [hfour]
    | ipv6 =>
      have hno := hcolon .ipv4 text hfour
      have : libc.inetPton .ipv6 text ≠ true := by
        intro hsix
        exact absurd (hno.mp ((hcolon .ipv6 text hsix).mpr rfl)) (by decide)
      simp [this]
  | false =>
    cases family with
    | ipv4 => simp [hfour]
    | ipv6 => simp

theorem ne_nil_of_inetPton (h : libc.inetPton family text = true) : text ≠ [] := by
  rintro rfl
  rw [libc.inetPton_nil] at h
  exact absurd h Bool.false_ne_true

theorem takeWhile_address (h : libc.inetPton family text = true) (after : List Char) :
    (text ++ '/' :: after).takeWhile (· ≠ '/') = text ∧
      (text ++ '/' :: after).dropWhile (· ≠ '/') = '/' :: after := by
  have hslash : ∀ c ∈ text, decide (c ≠ '/') = true := fun c hc =>
    decide_eq_true (slash_notMem h c hc)
  constructor
  · rw [List.takeWhile_append_of_pos hslash]
    simp
  · rw [List.dropWhile_append_of_pos hslash]
    simp

/-- The program takes every element. -/
theorem classify_of_isElement (h : IsElement libc family text) :
    classify libc text = some family := by
  cases h with
  | address haddress =>
    have hlength := libc.inetPton_length family text haddress
    have hne := ne_nil_of_inetPton haddress
    have hpos := List.length_pos_iff.mpr hne
    have hslash : ∀ c ∈ text, decide (c ≠ '/') = true := fun c hc =>
      decide_eq_true (slash_notMem haddress c hc)
    unfold classify
    rw [if_neg (by omega), List.takeWhile_eq_self_iff.mpr hslash,
      List.dropWhile_eq_nil_iff.mpr hslash]
    exact addressFamily_eq_some.mpr haddress
  | @network address length haddress hmax =>
    have hlength := libc.inetPton_length family address haddress
    have hdigits : (Nat.toDigits 10 length).length ≤ 3 :=
      (Nat.length_toDigits_le_iff (by decide) (by decide)).mpr
        (Nat.lt_of_le_of_lt (Nat.le_trans hmax (maxPfx_le family)) (by decide))
    have hall : (address ++ '/' :: Nat.toDigits 10 length).length < 64 := by
      rw [List.length_append, List.length_cons]
      omega
    have hpos : (address ++ '/' :: Nat.toDigits 10 length).length ≠ 0 := by
      rw [List.length_append, List.length_cons]
      omega
    obtain ⟨htake, hdrop⟩ := takeWhile_address haddress (Nat.toDigits 10 length)
    unfold classify
    rw [if_neg (by omega), htake, hdrop]
    dsimp only
    rw [if_neg Nat.toDigits_ne_nil, addressFamily_eq_some.mpr haddress, Option.filter_some,
      prefixOk_toDigits hmax]
    rfl

/-- What it takes, without whitespace or a sign after a slash, is an element. -/
theorem isElement_of_classify (h : classify libc text = some family)
    (hslash : ∀ before c after, text = before ++ '/' :: c :: after →
      isSpace c = false ∧ c ≠ '+' ∧ c ≠ '-') : IsElement libc family text := by
  have hsplit := List.takeWhile_append_dropWhile (p := fun c => decide (c ≠ '/')) (l := text)
  have hhead := List.head?_dropWhile_not (fun c => decide (c ≠ '/')) text
  unfold classify at h
  split at h
  · exact absurd h (by simp)
  · dsimp only at h
    generalize text.takeWhile (fun c => decide (c ≠ '/')) = buf at *
    generalize text.dropWhile (fun c => decide (c ≠ '/')) = slashed at *
    cases slashed with
    | nil =>
      rw [List.append_nil] at hsplit
      rw [← hsplit]
      exact .address (addressFamily_eq_some.mp h)
    | cons slash pfxstr =>
      have hs : slash = '/' := by simpa using hhead
      subst hs
      cases pfxstr with
      | nil => exact absurd h (by simp)
      | cons c rest =>
        dsimp only at h
        rw [if_neg (List.cons_ne_nil _ _), Option.filter_eq_some_iff] at h
        obtain ⟨hspace, hplus, hminus⟩ := hslash buf c rest hsplit.symm
        obtain ⟨length, hmax, hdigits⟩ := toDigits_of_prefixOk hspace hplus hminus h.2
        rw [← hsplit, ← hdigits]
        exact .network (addressFamily_eq_some.mp h.1) hmax

end Token

/-! ## The list -/

section Tokens

variable {libc : Libc} {family : Family}

/-- The loop ends with a family exactly if every token that is not blank has it, and there
is such a token or there was one before. -/
theorem classifyTokens_eq_family {tokens : List (List Char)} : ∀ {common : Option Family},
    classifyTokens libc common tokens = .family family ↔
      (∀ f, common = some f → f = family) ∧
      (∀ token ∈ tokens, trim token ≠ [] → classify libc (trim token) = some family) ∧
      (common = none → ∃ token ∈ tokens, trim token ≠ []) := by
  induction tokens with
  | nil =>
    intro common
    cases common with
    | none => simp [classifyTokens]
    | some f => simp [classifyTokens]
  | cons token rest ih =>
    intro common
    have hstep : classifyTokens libc common (token :: rest) =
        if trim token = [] then classifyTokens libc common rest
        else
          match classify libc (trim token) with
          | none => .invalid
          | some family =>
            match common with
            | none => classifyTokens libc (some family) rest
            | some commonFamily =>
              if family ≠ commonFamily then .mixed
              else classifyTokens libc common rest := by
      cases common <;> rfl
    rw [hstep]
    by_cases hblank : trim token = []
    · rw [if_pos hblank, ih]
      simp [hblank]
    · rw [if_neg hblank]
      cases hclass : classify libc (trim token) with
      | none => simp [hblank, hclass]
      | some f =>
        cases common with
        | none =>
          dsimp only
          rw [ih]
          simp [hblank, hclass]
        | some commonFamily =>
          dsimp only
          by_cases hsame : f = commonFamily
          · subst hsame
            rw [if_neg (not_not.mpr rfl), ih]
            simp only [Option.some.injEq, List.mem_cons, forall_eq_or_imp, hclass]
            simp +contextual
          · rw [if_pos hsame]
            simp only [reduceCtorEq, Option.some.injEq, List.mem_cons, forall_eq_or_imp, hclass,
              false_iff]
            rintro ⟨hcommon, ⟨hfirst, -⟩, -⟩
            exact hsame ((hfirst hblank).trans (hcommon commonFamily rfl).symm)

theorem trim_nil : trim [] = [] := rfl

/-- When the program accepts a string for a family. -/
theorem acceptsArg_iff {arg : List Char} : Accepts libc family arg ↔
    arg.length ≤ 511 ∧
      (∀ token ∈ arg.splitOn ',', trim token ≠ [] →
        classify libc (trim token) = some family) ∧
      ∃ token ∈ arg.splitOn ',', trim token ≠ [] := by
  have hlist : Accepts libc family arg ↔ classifyList libc arg = .family family := by
    unfold Accepts main
    dsimp only
    cases classifyList libc arg with
    | invalid => cases family <;> simp
    | mixed => cases family <;> simp
    | family f => cases f <;> cases family <;> simp
  have hmem : ∀ {P : List Char → Prop}, (∀ token ∈ strtok arg, trim token ≠ [] → P token) ↔
      ∀ token ∈ arg.splitOn ',', trim token ≠ [] → P token := by
    intro P
    refine ⟨fun h token htoken hne => h token ?_ hne, fun h token htoken hne => ?_⟩
    · refine List.mem_filter.mpr ⟨htoken, ?_⟩
      cases token with
      | nil => exact absurd trim_nil hne
      | cons c rest => rfl
    · exact h token (List.mem_filter.mp htoken).1 hne
  have hexists : (∃ token ∈ strtok arg, trim token ≠ []) ↔
      ∃ token ∈ arg.splitOn ',', trim token ≠ [] := by
    simpa using not_congr (hmem (P := fun _ => False))
  rw [hlist]
  unfold classifyList
  by_cases hlength : arg.length = 0 ∨ 512 ≤ arg.length
  · rw [if_pos hlength]
    refine iff_of_false (by simp) ?_
    rintro ⟨hshort, -, token, htoken, hne⟩
    rcases hlength with hnil | hlong
    · rw [List.eq_nil_of_length_eq_zero hnil, List.splitOn_nil, List.mem_singleton] at htoken
      exact hne (htoken ▸ trim_nil)
    · omega
  · rw [if_neg hlength, classifyTokens_eq_family, hmem, hexists]
    have hshort : arg.length ≤ 511 := by omega
    simp [hshort]

theorem accepts_of_isList {arg : List Char} (hlist : IsList libc family arg)
    (hlength : arg.length ≤ 511) : Accepts libc family arg := by
  apply acceptsArg_iff.mpr
  have hclass : ∀ token ∈ arg.splitOn ',', classify libc (trim token) = some family :=
    fun token htoken => classify_of_isElement (hlist token htoken)
  obtain ⟨token, htoken⟩ := List.exists_mem_of_ne_nil _ (List.splitOn_ne_nil ',' arg)
  refine ⟨hlength, fun t ht _ => hclass t ht, token, htoken, fun hblank => ?_⟩
  have := hclass token htoken
  rw [hblank] at this
  exact absurd this (by simp [classify])

theorem isList_of_accepts {arg : List Char} (h : Accepts libc family arg) (hplain : Plain arg) :
    IsList libc family arg := by
  intro token htoken
  have hclass := (acceptsArg_iff.mp h).2.1 token htoken (hplain.tokens token htoken)
  exact isElement_of_classify hclass (hplain.slashes token htoken)

end Tokens

/-! ## What is pasted into the rule -/

section Paste

variable {libc : Libc} {family : Family}

theorem flatMap_comma {token : List Char} (h : ',' ∉ token) :
    token.flatMap (fun c => if c = ',' then [',', ' '] else [c]) = token := by
  induction token with
  | nil => rfl
  | cons c rest ih =>
    rw [List.mem_cons, not_or] at h
    rw [List.flatMap_cons, if_neg (Ne.symm h.1), ih h.2]
    rfl

theorem trim_cons_space (token : List Char) : trim (' ' :: token) = trim token := rfl

theorem trim_append_space (token : List Char) : trim (token ++ [' ']) = trim token := by
  unfold trim
  by_cases hall : ∀ c ∈ token, isSpace c = true
  · have hnil : ∀ c ∈ token ++ [' '], isSpace c = true := by
      intro c hc
      rcases List.mem_append.mp hc with hc | hc
      · exact hall c hc
      · rw [List.mem_singleton.mp hc]
        rfl
    rw [List.dropWhile_eq_nil_iff.mpr hnil, List.dropWhile_eq_nil_iff.mpr hall]
  · have hdrop : (token ++ [' ']).dropWhile isSpace = token.dropWhile isSpace ++ [' '] := by
      rw [List.dropWhile_append, if_neg]
      rwa [List.isEmpty_iff, List.dropWhile_eq_nil_iff]
    rw [hdrop, List.rdropWhile_concat_pos _ _ _ rfl]

theorem IsNftElement.cons {token : List Char} (h : IsNftElement libc family token) :
    IsNftElement libc family (' ' :: token) := by
  refine ⟨?_, (trim_cons_space token).symm ▸ h.2⟩
  simpa [isSpace] using h.1

theorem IsNftElement.concat {token : List Char} (h : IsNftElement libc family token) :
    IsNftElement libc family (token ++ [' ']) := by
  refine ⟨fun c hc hspace => ?_, (trim_append_space token).symm ▸ h.2⟩
  rcases List.mem_append.mp hc with hc | hc
  · exact h.1 c hc hspace
  · exact Or.inl (List.mem_singleton.mp hc)

theorem NftElements.cons_space {text : List Char} (h : NftElements libc family text) :
    NftElements libc family (' ' :: text) := by
  cases h with
  | single helement => exact .single helement.cons
  | cons helement hrest => exact .cons helement.cons hrest

/-- Elements joined by commas, each comma followed by a blank, are the elements of a set. -/
theorem nftElements_of_tokens {tokens : List (List Char)} (hne : tokens ≠ [])
    (hcomma : ∀ token ∈ tokens, ',' ∉ token)
    (helements : ∀ token ∈ tokens, IsNftElement libc family token) :
    NftElements libc family (([','].intercalate tokens).flatMap
      (fun c => if c = ',' then [',', ' '] else [c]) ++ [' ']) := by
  induction tokens with
  | nil => exact absurd rfl hne
  | cons token rest ih =>
    have htoken := helements token List.mem_cons_self
    have hflat := flatMap_comma (hcomma token List.mem_cons_self)
    cases rest with
    | nil =>
      rw [List.intercalate_singleton, hflat]
      exact .single htoken.concat
    | cons next rest =>
      have hrest := ih (List.cons_ne_nil _ _)
        (fun t ht => hcomma t (List.mem_cons_of_mem _ ht))
        (fun t ht => helements t (List.mem_cons_of_mem _ ht))
      rw [List.intercalate_cons_cons, List.flatMap_append, List.flatMap_append, hflat]
      have hsingle : [','].flatMap (fun c => if c = ',' then [',', ' '] else [c]) = [',', ' '] :=
        rfl
      rw [hsingle]
      have := NftElements.cons htoken hrest.cons_space
      simpa using this

/-- The stretches between commas have only characters of the text, and no comma. -/
theorem mem_of_mem_splitOn {text : List Char} : ∀ token ∈ text.splitOn ',',
    ∀ c ∈ token, c ∈ text ∧ c ≠ ',' := by
  induction text with
  | nil =>
    intro token htoken c hc
    rw [List.splitOn_nil, List.mem_singleton] at htoken
    rw [htoken] at hc
    exact absurd hc List.not_mem_nil
  | cons head rest ih =>
    intro token htoken c hc
    have hrest : ∀ t ∈ rest.splitOn ',', c ∈ t → c ∈ head :: rest ∧ c ≠ ',' := fun t ht hct =>
      ⟨List.mem_cons_of_mem _ (ih t ht c hct).1, (ih t ht c hct).2⟩
    rw [List.splitOn_cons_eq_if_modifyHead] at htoken
    by_cases hhead : head = ','
    · rw [if_pos (beq_iff_eq.mpr hhead), List.mem_cons] at htoken
      rcases htoken with rfl | htoken
      · exact absurd hc List.not_mem_nil
      · exact hrest token htoken hc
    · rw [if_neg (by simpa using hhead)] at htoken
      cases hsplit : rest.splitOn ',' with
      | nil => exact absurd hsplit (List.splitOn_ne_nil _ _)
      | cons first others =>
        rw [hsplit] at hrest htoken
        rw [List.modifyHead_cons, List.mem_cons] at htoken
        rcases htoken with rfl | htoken
        · rcases List.mem_cons.mp hc with rfl | hc
          · exact ⟨List.mem_cons_self, hhead⟩
          · exact hrest first List.mem_cons_self hc
        · exact hrest token (List.mem_cons_of_mem _ htoken) hc

/-- The text that a list of elements becomes in the rule. -/
theorem nftOperand_of_isList {ip : List Char} (hlist : IsList libc family ip)
    (hspace : ∀ c ∈ ip, isSpace c → c = ' ' ∨ c = '\t') :
    NftOperand libc family (nftIp ip) := by
  unfold nftIp
  by_cases hcomma : ',' ∈ ip
  · rw [if_pos hcomma]
    have helements : ∀ token ∈ ip.splitOn ',', IsNftElement libc family token := by
      intro token htoken
      exact ⟨fun c hc => hspace c (mem_of_mem_splitOn token htoken c hc).1, hlist token htoken⟩
    have hnone : ∀ token ∈ ip.splitOn ',', ',' ∉ token := fun token htoken hmem =>
      (mem_of_mem_splitOn token htoken ',' hmem).2 rfl
    have := nftElements_of_tokens (List.splitOn_ne_nil ',' ip) hnone helements
    rw [List.intercalate_splitOn] at this
    have hset := NftOperand.set this.cons_space
    simpa using hset
  · rw [if_neg hcomma]
    refine .element ⟨hspace, ?_⟩
    have htoken := hlist ip
    rw [List.splitOn_eq_singleton hcomma] at htoken
    exact htoken (List.mem_singleton.mpr rfl)

end Paste

/-! ## The check -/

/-- Every list of elements of a family that is shorter than 512 bytes is accepted for it.
What is accepted is shorter than 512 bytes, and where it has no empty token and nothing but
a digit after a slash it is a list of elements of the family, and with spaces and tabs as
its only whitespace the rule gets a valid operand. -/
theorem accepts_spec (libc : Libc) (family : Family) (arg : List Char) :
    (IsList libc family arg ∧ arg.length ≤ 511 → Accepts libc family arg) ∧
    (Accepts libc family arg → arg.length ≤ 511 ∧ (Plain arg → IsList libc family arg)) ∧
    (Accepts libc family arg → Plain arg → (∀ c ∈ arg, isSpace c → c = ' ' ∨ c = '\t') →
      NftOperand libc family (nftIp arg)) := by
  refine ⟨fun h => accepts_of_isList h.1 h.2, fun h => ⟨(acceptsArg_iff.mp h).1, ?_⟩, ?_⟩
  · exact isList_of_accepts h
  · intro h hplain hspace
    exact nftOperand_of_isList (isList_of_accepts h hplain) hspace

/-- A number of a dotted quad. -/
def isOctet (text : List Char) : Bool :=
  text ≠ [] && text.all Char.isDigit && Nat.ofDigitChars 10 text 0 ≤ 255 &&
    (text.head? ≠ some '0' || text.length = 1)

/-- The dotted quads, with two IPv6 addresses. -/
def sampleLibc : Libc where
  inetPton family text := match family with
    | .ipv4 => text.all (fun c => c.isDigit || c = '.') && text.length ≤ 15 && text ≠ [] &&
        (text.splitOn '.').length = 4 && (text.splitOn '.').all isOctet
    | .ipv6 => text = [':', ':'] || text = [':', ':', '1']
  longMax := 2 ^ 31 - 1
  inetPton_nil family := by cases family <;> rfl
  inetPton_chars family text h c hc := by
    cases family with
    | ipv4 =>
      simp only [Bool.and_eq_true, List.all_eq_true] at h
      have := h.1.1.1.1 c hc
      simp only [isAddressChar, Bool.or_eq_true] at this ⊢
      tauto
    | ipv6 =>
      have htext : text = [':', ':'] ∨ text = [':', ':', '1'] := by simpa using h
      have hmem : c = ':' ∨ c = '1' := by
        rcases htext with rfl | rfl
        · simp only [List.mem_cons, List.not_mem_nil, or_false] at hc
          tauto
        · simp only [List.mem_cons, List.not_mem_nil, or_false] at hc
          tauto
      rcases hmem with rfl | rfl
      · decide
      · decide
  inetPton_colon family text h := by
    cases family with
    | ipv4 =>
      simp only [Bool.and_eq_true, List.all_eq_true] at h
      refine iff_of_false (fun hc => ?_) (by decide)
      exact absurd (h.1.1.1.1 ':' hc) (by decide)
    | ipv6 =>
      have htext : text = [':', ':'] ∨ text = [':', ':', '1'] := by simpa using h
      rcases htext with rfl | rfl <;> decide
  inetPton_length family text h := by
    cases family with
    | ipv4 =>
      simp only [Bool.and_eq_true, decide_eq_true_eq] at h
      exact Nat.le_trans h.1.1.1.2 (by decide)
    | ipv6 =>
      have htext : text = [':', ':'] ∨ text = [':', ':', '1'] := by simpa using h
      rcases htext with rfl | rfl <;> decide
  longMax_ge := le_refl _

theorem IsElement.head {libc : Libc} {family : Family} {text : List Char}
    (h : IsElement libc family text) : ∀ c ∈ text.head?, isAddressChar c := by
  intro c hc
  cases h with
  | address haddress =>
    exact libc.inetPton_chars _ _ haddress c (List.mem_of_mem_head? hc)
  | network haddress _ =>
    rw [List.head?_append_of_ne_nil _ (ne_nil_of_inetPton haddress)] at hc
    exact libc.inetPton_chars _ _ haddress c (List.mem_of_mem_head? hc)

/-- A blank before an address is no part of the grammar, and the program accepts it. -/
theorem not_strict_of_blank :
    ¬ ∀ (libc : Libc) (family : Family) (arg : List Char), Accepts libc family arg ↔
      ∀ token ∈ arg.splitOn ',', IsElement libc family token := by
  intro h
  have haccepts : Accepts sampleLibc .ipv4 [' ', '1', '.', '2', '.', '3', '.', '4'] := by
    unfold Accepts
    decide +kernel
  have helement := (h _ _ _).mp haccepts _ (List.mem_singleton.mpr rfl)
  exact absurd (helement.head ' ' rfl) (by decide)

end OpenWrt.Mwan3.IpCheck
