/-
# The range of addresses

`ipcalc.sh` takes an address with its mask, and a start and a limit for a range of addresses to be
given out. It moves the start into the network and both ends off the address of the interface.
A network of one or two addresses has no address that is only the network's or the broadcast one.
-/

import OpenWrt.Ipcalc.Ipv4

namespace OpenWrt.Ipcalc

/-! ## The arguments -/

/-- How addresses are written. -/
inductive Format
  | dotted | decimal | hexadecimal
  deriving DecidableEq

/-- `-d` and `-x`. -/
def takeFormat : List (List Char) → Format × List (List Char)
  | ['-', 'd'] :: args => (.decimal, args)
  | ['-', 'x'] :: args => (.hexadecimal, args)
  | args => (.dotted, args)

/-- An address of an interface and its mask. -/
structure Net where
  ipaddr : Arith
  netmask : Arith
  prefixLen : Arith
  deriving DecidableEq

/-- `${1%/*}` -/
def beforeSlash (s : List Char) : List Char :=
  ((s.reverse.dropWhile (· ≠ '/')).drop 1).reverse

/-- `${1#*/}` -/
def afterSlash (s : List Char) : List Char :=
  (s.dropWhile (· ≠ '/')).drop 1

/-- `str2ip`, as a number. -/
def addrValue (s : List Char) : Option Arith :=
  (str2ip s).bind arith

def netOfMask (addr mask : List Char) : Option Net := do
  let ipaddr ← addrValue addr
  let netmask ← str2ip mask
  let prefixLen ← netmask2prefix netmask
  some ⟨ipaddr, ← arith netmask, ← arith prefixLen⟩

def netOfLength (addr length : List Char) : Option Net := do
  let ipaddr ← addrValue addr
  let prefixLen ← assertUint32 length
  if testGt length 32 then none
  else
    let netmask ← prefix2netmask length
    some ⟨ipaddr, ← arith netmask, prefixLen⟩

/-- The network, and the arguments after it. -/
def takeNet : List (List Char) → Option (Net × List (List Char))
  | [] => none
  | arg :: args =>
    if '/' ∈ arg then
      if '.' ∈ afterSlash arg then
        (netOfMask (beforeSlash arg) (afterSlash arg)).map fun net => (net, args)
      else (netOfLength (beforeSlash arg) (afterSlash arg)).map fun net => (net, args)
    else (netOfMask arg (args.headD [])).map fun net => (net, args.drop 1)

/-! ## The range -/

namespace Net

variable (net : Net)

def hostmask : Arith := net.netmask ^^^ 0xffffffff

def network : Arith := net.ipaddr &&& net.netmask

def broadcast : Arith := net.network ||| net.hostmask

def count : Arith := net.hostmask + 1

/-- The lowest address that may be given out. -/
def lower : Arith := if net.prefixLen.sle 30 then net.network + 1 else net.network

def upper : Arith :=
  if net.prefixLen.sle 30 then net.broadcast - 1
  else if net.prefixLen = 31 then net.broadcast
  else net.network

/-- The start in the network, and off the address of the interface. -/
def rangeStart (start : Arith) : Arith :=
  let start := net.network ||| (start &&& net.hostmask)
  let start := if start.slt net.lower then net.lower else start
  if start = net.ipaddr then start + 1 else start

/-- The end of that many addresses from a start on. -/
def rangeEnd (start range : Arith) : Arith :=
  let last := start + range - 1
  let last := if net.upper.slt last then net.upper else last
  if last = net.ipaddr then last - 1 else last

/-- The first and the last address. -/
def range (startArg limitArg : List Char) : Option (Arith × Arith) := do
  let start := net.rangeStart (← assertUint32 startArg)
  let last := net.rangeEnd start (← assertUint32 limitArg)
  if last.slt start then none
  else
    let start ← assertUint32 (print start)
    let last ← assertUint32 (print last)
    some (start, last)

end Net

/-! ## The output -/

/-- What a successful run prints. -/
structure Output where
  format : Format
  net : Net
  range : Option (Arith × Arith)
  deriving DecidableEq

/-- `ipcalc.sh`; every failure is an exit with an error. -/
def ipcalc (args : List (List Char)) : Option Output := do
  let (format, args) := takeFormat args
  let (net, args) ← takeNet args
  match args with
  | [] => some ⟨format, net, none⟩
  | [start, limit] =>
    if start ++ limit = [] then some ⟨format, net, none⟩
    else
      let range ← net.range start limit
      some ⟨format, net, some range⟩
  | _ => none

/-! ## What the numbers are -/

section Numbers

theorem toInt_add_of_small {a b : Arith} (hlow : -2 ^ 63 ≤ a.toInt + b.toInt)
    (hhigh : a.toInt + b.toInt < 2 ^ 63) : (a + b).toInt = a.toInt + b.toInt := by
  rw [BitVec.toInt_add]
  exact Int.bmod_eq_of_le (by omega) (by omega)

theorem toInt_sub_one {a : Arith} (hlow : -2 ^ 63 < a.toInt) : (a - 1).toInt = a.toInt - 1 := by
  have hlt := BitVec.toInt_lt (x := a)
  have hone : (1 : Arith).toInt = 1 := by decide
  rw [BitVec.toInt_sub, hone]
  exact Int.bmod_eq_of_le (by omega) (by omega)

theorem toInt_raise (a bound : Arith) :
    (if a.slt bound then bound else a).toInt = max a.toInt bound.toInt := by
  by_cases h : a.slt bound = true
  · rw [if_pos h]
    rw [BitVec.slt_iff_toInt_lt] at h
    omega
  · rw [if_neg h]
    rw [BitVec.slt_iff_toInt_lt] at h
    omega

theorem toInt_lower (a bound : Arith) :
    (if bound.slt a then bound else a).toInt = min a.toInt bound.toInt := by
  by_cases h : bound.slt a = true
  · rw [if_pos h]
    rw [BitVec.slt_iff_toInt_lt] at h
    omega
  · rw [if_neg h]
    rw [BitVec.slt_iff_toInt_lt] at h
    omega

/-- What passes the check is the number itself. -/
theorem eq_of_assertUint32_print {v w : Arith} (h : assertUint32 (print v) = some w) :
    w = v ∧ 0 ≤ v.toInt ∧ v.toInt < 2 ^ 32 := by
  obtain ⟨n, hn, hprint, rfl⟩ := eq_toDigits_of_assertUint32 h
  unfold print at hprint
  by_cases hneg : v.toInt < 0
  · rw [if_pos hneg] at hprint
    have hmem : '-' ∈ Nat.toDigits 10 n := hprint ▸ List.mem_cons_self
    exact absurd ((Lib.Decimal.numeral_toDigits n).digits '-' hmem) (by decide)
  · rw [if_neg hneg] at hprint
    have hvalue : v.toInt.toNat = n := by
      rw [← @Nat.ofDigitChars_ten_toDigits v.toInt.toNat, hprint, Nat.ofDigitChars_ten_toDigits]
    have hint : v.toInt = n := by omega
    refine ⟨?_, by omega, by omega⟩
    apply BitVec.eq_of_toInt_eq
    rw [toInt_ofNat_of_lt (by omega), hint]

end Numbers

/-- The mask keeps the high bits. -/
theorem and_maskOf {n k : ℕ} (hn : n < 2 ^ 32) (hk : k ≤ 32) :
    n &&& maskOf k = n / 2 ^ (32 - k) * 2 ^ (32 - k) := by
  obtain ⟨hmask, hbits⟩ := (isMask_iff hk).mpr rfl
  refine Nat.eq_of_testBit_eq fun i => ?_
  rw [Nat.testBit_and, Nat.testBit_mul_two_pow, Nat.testBit_div_two_pow]
  by_cases hi : i < 32
  · have hbit := hbits (31 - i) (by omega)
    rw [show 31 - (31 - i) = i by omega] at hbit
    rw [hbit]
    by_cases hlow : 32 - k ≤ i
    · rw [decide_eq_true (show 31 - i < k by omega), decide_eq_true hlow, Bool.and_true,
        Bool.true_and, Nat.sub_add_cancel hlow]
    · rw [decide_eq_false (show ¬ 31 - i < k by omega), decide_eq_false hlow, Bool.and_false,
        Bool.false_and]
  · have hle : 2 ^ 32 ≤ 2 ^ i := Nat.pow_le_pow_right (by decide) (by omega)
    rw [Nat.testBit_lt_two_pow (Nat.lt_of_lt_of_le hn hle), Bool.false_and,
      Nat.sub_add_cancel (by omega), Nat.testBit_lt_two_pow (Nat.lt_of_lt_of_le hn hle),
      Bool.and_false]

theorem maskOf_xor {k : ℕ} (hk : k ≤ 32) : maskOf k ^^^ 0xffffffff = 2 ^ (32 - k) - 1 := by
  have hall : ∀ k < 33, maskOf k ^^^ 0xffffffff = 2 ^ (32 - k) - 1 := by decide +kernel
  exact hall k (by omega)

/-- The network of an address and a prefix length. -/
def netOf (ip k : ℕ) : Net := ⟨BitVec.ofNat 64 ip, BitVec.ofNat 64 (maskOf k), BitVec.ofNat 64 k⟩

theorem exists_netOf_of_takeNet {args rest : List (List Char)} {net : Net}
    (h : takeNet args = some (net, rest)) : ∃ ip < 2 ^ 32, ∃ k ≤ 32, net = netOf ip k := by
  have haddr : ∀ {s v}, addrValue s = some v → ∃ ip < 2 ^ 32, v = BitVec.ofNat 64 ip := by
    intro s v hv
    obtain ⟨n, hn, hv⟩ := Option.bind_eq_some_iff.mp hv
    obtain ⟨a, ha, b, hb, c, hc, d, hd, -, rfl⟩ := (conversions.str2ip s n).mp hn
    have hlt := quadValue_lt ha hb hc hd
    rw [arith_toDigits (by omega)] at hv
    exact ⟨_, hlt, (Option.some.inj hv).symm⟩
  have hmask : ∀ {addr mask}, netOfMask addr mask = some net →
      ∃ ip < 2 ^ 32, ∃ k ≤ 32, net = netOf ip k := by
    intro addr mask hnet
    unfold netOfMask at hnet
    simp only [Option.bind_eq_bind, Option.bind_eq_some_iff] at hnet
    obtain ⟨v, hv, s, -, length, hlength, w, hw, l, hl, hnet⟩ := hnet
    obtain ⟨ip, hip, rfl⟩ := haddr hv
    obtain ⟨k, hk, rfl, rfl⟩ := netmask2prefix_iff.mp hlength
    have hlt := maskOf_lt k
    rw [arith_toDigits (by omega)] at hw hl
    exact ⟨ip, hip, k, hk, by rw [← Option.some.inj hnet, ← Option.some.inj hw, ← Option.some.inj hl, netOf]⟩
  have hlen : ∀ {addr length}, netOfLength addr length = some net →
      ∃ ip < 2 ^ 32, ∃ k ≤ 32, net = netOf ip k := by
    intro addr length hnet
    unfold netOfLength at hnet
    simp only [Option.bind_eq_bind, Option.bind_eq_some_iff] at hnet
    obtain ⟨v, hv, l, hl, hnet⟩ := hnet
    obtain ⟨ip, hip, rfl⟩ := haddr hv
    obtain ⟨k, hk, rfl, rfl⟩ := eq_toDigits_of_assertUint32 hl
    split at hnet
    case isTrue => cases hnet
    case isFalse hle =>
      have hk32 : k ≤ 32 := by
        unfold testGt at hle
        rw [Nat.ofDigitChars_ten_toDigits] at hle
        omega
      have hlt := maskOf_lt k
      rw [prefix2netmask_toDigits hk32, Option.bind_some, arith_toDigits (by omega),
        Option.bind_some] at hnet
      exact ⟨ip, hip, k, hk32, (Option.some.inj hnet).symm⟩
  cases args with
  | nil => cases h
  | cons arg args =>
    rw [takeNet] at h
    split at h
    · split at h
      · obtain ⟨net', hnet, heq⟩ := Option.map_eq_some_iff.mp h
        obtain ⟨rfl, -⟩ := Prod.mk.inj heq
        exact hmask hnet
      · obtain ⟨net', hnet, heq⟩ := Option.map_eq_some_iff.mp h
        obtain ⟨rfl, -⟩ := Prod.mk.inj heq
        exact hlen hnet
    · obtain ⟨net', hnet, heq⟩ := Option.map_eq_some_iff.mp h
      obtain ⟨rfl, -⟩ := Prod.mk.inj heq
      exact hmask hnet

/-- A network of `size` addresses from `first` on, with the interface in it. -/
structure Net.Spans (net : Net) (ip k first size : ℕ) : Prop where
  ipaddr : net.ipaddr.toInt = ip
  prefixLen : net.prefixLen.toInt = k
  network : net.network.toInt = first
  broadcast : net.broadcast.toInt = (first + (size - 1) : ℕ)
  size_eq : size = 2 ^ (32 - k)
  low : first ≤ ip
  high : ip < first + size
  fits : first + size ≤ 2 ^ 32
  start : ∀ n, ∃ off < size, (net.network ||| (BitVec.ofNat 64 n &&& net.hostmask)).toInt =
    (first + off : ℕ)

theorem spans_netOf {ip k : ℕ} (hip : ip < 2 ^ 32) (hk : k ≤ 32) :
    (netOf ip k).Spans ip k (ip / 2 ^ (32 - k) * 2 ^ (32 - k)) (2 ^ (32 - k)) := by
  set size := 2 ^ (32 - k) with hsize
  have hpos : 0 < size := Nat.two_pow_pos _
  have hprod : 2 ^ k * size = 2 ^ 32 := by
    rw [hsize, ← Nat.pow_add, Nat.add_sub_cancel' hk]
  have hsmall : size ≤ 2 ^ 32 := Nat.pow_le_pow_right (by decide) (by omega)
  have hquot : ip / size < 2 ^ k := by
    rw [Nat.div_lt_iff_lt_mul hpos, hprod]
    exact hip
  have hfits : ip / size * size + size ≤ 2 ^ 32 := by
    rw [← hprod, ← Nat.succ_mul]
    exact Nat.mul_le_mul_right size hquot
  have hmod := Nat.div_add_mod' ip size
  have hlt := Nat.mod_lt ip hpos
  have hmask := maskOf_lt k
  have hnetwork : (netOf ip k).network = BitVec.ofNat 64 (ip / size * size) := by
    apply BitVec.eq_of_toNat_eq
    unfold Net.network netOf
    dsimp only
    rw [BitVec.toNat_and, BitVec.toNat_ofNat, BitVec.toNat_ofNat, BitVec.toNat_ofNat,
      Nat.mod_eq_of_lt (by omega), Nat.mod_eq_of_lt (by omega), and_maskOf hip hk,
      Nat.mod_eq_of_lt (by omega)]
  have hhostmask : (netOf ip k).hostmask = BitVec.ofNat 64 (size - 1) := by
    apply BitVec.eq_of_toNat_eq
    unfold Net.hostmask netOf
    dsimp only
    rw [BitVec.toNat_xor, BitVec.toNat_ofNat, BitVec.toNat_ofNat, Nat.mod_eq_of_lt (by omega),
      show (4294967295 : Arith).toNat = 4294967295 from rfl, maskOf_xor hk, ← hsize,
      Nat.mod_eq_of_lt (by omega)]
  have hor : ∀ off < size, (netOf ip k).network ||| BitVec.ofNat 64 off =
      BitVec.ofNat 64 (ip / size * size + off) := by
    intro off hoff
    apply BitVec.eq_of_toNat_eq
    rw [hnetwork, BitVec.toNat_or, BitVec.toNat_ofNat, BitVec.toNat_ofNat, BitVec.toNat_ofNat,
      Nat.mod_eq_of_lt (by omega), Nat.mod_eq_of_lt (by omega), Nat.mod_eq_of_lt (by omega),
      Nat.mul_comm, hsize, Nat.two_pow_add_eq_or_of_lt hoff]
  refine ⟨toInt_ofNat_of_lt (by omega), toInt_ofNat_of_lt (by omega), ?_, ?_, rfl, by omega,
    by omega, hfits, fun n => ?_⟩
  · rw [hnetwork, toInt_ofNat_of_lt (by omega)]
  · unfold Net.broadcast
    rw [hhostmask, hor _ (by omega), toInt_ofNat_of_lt (by omega)]
  · have hoff := Nat.mod_lt n hpos
    refine ⟨n % size, hoff, ?_⟩
    rw [hhostmask, hsize, ofNat_and_mask _ _ (by omega), ← hsize, hor _ hoff,
      toInt_ofNat_of_lt (by omega)]

/-! ## The range is in the network -/

/-- A range that may be given out: the network address and the broadcast one are not in it, and in
a network of two addresses it has the other one. -/
structure Net.IsRange (net : Net) (limit : ℕ) (start last : Arith) : Prop where
  ordered : start.toInt ≤ last.toInt
  length : last.toInt - start.toInt + 1 ≤ limit
  start_ne : start ≠ net.ipaddr
  last_ne : last ≠ net.ipaddr
  inside : net.prefixLen.toInt ≤ 30 →
    net.network.toInt < start.toInt ∧ last.toInt < net.broadcast.toInt
  pair : net.prefixLen.toInt = 31 →
    net.network.toInt ≤ start.toInt ∧ last.toInt ≤ net.broadcast.toInt
  single : net.prefixLen.toInt ≠ 32

section Spans

variable {net : Net} {ip k first size : ℕ}

namespace Net

/-- The bounds of the range, in the three kinds of networks. -/
theorem Spans.bounds (h : net.Spans ip k first size) (hk : k ≤ 32) :
    (k ≤ 30 ∧ net.lower.toInt = first + 1 ∧ net.upper.toInt = (first + size : ℕ) - 2) ∨
      (k = 31 ∧ net.lower.toInt = first ∧ net.upper.toInt = (first + size : ℕ) - 1) ∨
      (k = 32 ∧ net.lower.toInt = first ∧ net.upper.toInt = first ∧ size = 1) := by
  have hpre := h.prefixLen
  have hnetwork := h.network
  have hbroadcast := h.broadcast
  have hfits := h.fits
  have hsize := h.size_eq
  have hpos : 0 < 2 ^ (32 - k) := Nat.two_pow_pos _
  have hone : (1 : Arith).toInt = 1 := by decide
  have h30 : (30 : Arith).toInt = 30 := by decide
  have h31 : (31 : Arith).toInt = 31 := by decide
  unfold lower upper
  by_cases hle : k ≤ 30
  · have hsle : net.prefixLen.sle 30 = true := by
      rw [BitVec.sle_iff_toInt_le, hpre, h30]
      omega
    rw [if_pos hsle, if_pos hsle, toInt_add_of_small (by omega) (by omega),
      toInt_sub_one (by omega)]
    exact .inl ⟨hle, by omega, by omega⟩
  · have hnot : ¬ net.prefixLen.sle 30 = true := by
      rw [BitVec.sle_iff_toInt_le, hpre, h30]
      omega
    rw [if_neg hnot, if_neg hnot]
    by_cases hpair : k = 31
    · have hlen : net.prefixLen = 31 := by
        apply BitVec.eq_of_toInt_eq
        rw [hpre, h31, hpair]
        rfl
      rw [if_pos hlen]
      exact .inr (.inl ⟨hpair, hnetwork, by omega⟩)
    · have hlen : net.prefixLen ≠ 31 := by
        intro heq
        rw [heq, h31] at hpre
        omega
      obtain rfl : k = 32 := by omega
      rw [if_neg hlen]
      exact .inr (.inr ⟨rfl, hnetwork, hnetwork, hsize⟩)

/-- The start is not below the range, and not the address of the interface. -/
theorem Spans.rangeStart (h : net.Spans ip k first size) (hk : k ≤ 32) (n : ℕ) :
    net.lower.toInt ≤ (net.rangeStart (BitVec.ofNat 64 n)).toInt ∧
      (net.rangeStart (BitVec.ofNat 64 n)).toInt ≤ (first + size : ℕ) + 1 ∧
      net.rangeStart (BitVec.ofNat 64 n) ≠ net.ipaddr := by
  obtain ⟨off, hoff, hstart⟩ := h.start n
  have hip := h.ipaddr
  have hfits := h.fits
  have hhigh := h.high
  have hlow := h.low
  have hone : (1 : Arith).toInt = 1 := by decide
  have hbounds := h.bounds hk
  unfold Net.rangeStart
  dsimp only
  generalize net.network ||| (BitVec.ofNat 64 n &&& net.hostmask) = start at hstart
  have hclip := toInt_raise start net.lower
  generalize (if start.slt net.lower then net.lower else start) = clipped at hclip
  by_cases hsame : clipped = net.ipaddr
  · have hadd := toInt_add_of_small (a := clipped) (b := 1) (by omega) (by omega)
    rw [if_pos hsame, hadd]
    refine ⟨by omega, by omega, fun heq => ?_⟩
    rw [heq, ← hsame] at hadd
    omega
  · rw [if_neg hsame]
    exact ⟨by omega, by omega, hsame⟩

/-- The end is not above the range, and not the address of the interface; it takes the limit or
less. -/
theorem Spans.rangeEnd (h : net.Spans ip k first size) {start : Arith} {n : ℕ}
    (hn : n < 2 ^ 32) (hlow : 0 ≤ start.toInt) (hhigh : start.toInt ≤ 2 ^ 32 + 1) :
    (net.rangeEnd start (BitVec.ofNat 64 n)).toInt ≤ net.upper.toInt ∧
      (net.rangeEnd start (BitVec.ofNat 64 n)).toInt - start.toInt + 1 ≤ n ∧
      net.rangeEnd start (BitVec.ofNat 64 n) ≠ net.ipaddr := by
  have hint : (BitVec.ofNat 64 n).toInt = n := toInt_ofNat_of_lt (by omega)
  have hip := h.ipaddr
  have hadd := toInt_add_of_small (a := start) (b := BitVec.ofNat 64 n) (by omega) (by omega)
  have hlast := toInt_sub_one (a := start + BitVec.ofNat 64 n) (by omega)
  unfold Net.rangeEnd
  dsimp only
  generalize start + BitVec.ofNat 64 n - 1 = last at hlast
  have hclip := toInt_lower last net.upper
  generalize (if net.upper.slt last then net.upper else last) = clipped at hclip
  by_cases hsame : clipped = net.ipaddr
  · have hsub := toInt_sub_one (a := clipped) (by rw [hsame]; omega)
    rw [if_pos hsame, hsub]
    refine ⟨by omega, by omega, fun heq => ?_⟩
    rw [heq, ← hsame] at hsub
    omega
  · rw [if_neg hsame]
    exact ⟨by omega, by omega, hsame⟩

/-- A range that is found is one that may be given out. -/
theorem Spans.isRange (h : net.Spans ip k first size) (hk : k ≤ 32) {startArg limitArg : List Char}
    {start last : Arith} (hrange : net.range startArg limitArg = some (start, last)) :
    net.IsRange (Nat.ofDigitChars 10 limitArg 0) start last := by
  unfold range at hrange
  simp only [Option.bind_eq_bind, Option.bind_eq_some_iff] at hrange
  obtain ⟨s, hs, l, hl, hrange⟩ := hrange
  obtain ⟨n, -, -, rfl⟩ := eq_toDigits_of_assertUint32 hs
  obtain ⟨limit, hlimit, rfl, rfl⟩ := eq_toDigits_of_assertUint32 hl
  rw [Nat.ofDigitChars_ten_toDigits]
  obtain ⟨hlow, hhigh, hstart⟩ := h.rangeStart hk n
  have hfits := h.fits
  have hbounds := h.bounds hk
  generalize net.rangeStart (BitVec.ofNat 64 n) = first at hlow hhigh hstart hrange
  have hrangeEnd : (net.rangeEnd first (BitVec.ofNat 64 limit)).toInt ≤ net.upper.toInt ∧ _ :=
    h.rangeEnd hlimit (by omega) (by omega)
  obtain ⟨hupper, hlength, hlast⟩ := hrangeEnd
  generalize net.rangeEnd first (BitVec.ofNat 64 limit) = final at hupper hlength hlast hrange
  by_cases hordered : final.slt first = true
  · rw [if_pos hordered] at hrange
    cases hrange
  · rw [if_neg hordered] at hrange
    simp only [Option.bind_eq_some_iff] at hrange
    rw [BitVec.slt_iff_toInt_lt] at hordered
    obtain ⟨start', hstart', last', hlast', heq⟩ := hrange
    obtain ⟨rfl, rfl⟩ := Prod.mk.inj (Option.some.inj heq)
    obtain ⟨rfl, -, -⟩ := eq_of_assertUint32_print hstart'
    obtain ⟨rfl, -, -⟩ := eq_of_assertUint32_print hlast'
    have hpre := h.prefixLen
    have hnetwork := h.network
    have hbroadcast := h.broadcast
    have hip := h.ipaddr
    have hne : start'.toInt ≠ net.ipaddr.toInt := fun heq => hstart (BitVec.eq_of_toInt_eq heq)
    refine ⟨by omega, hlength, hstart, hlast, fun hle => ?_, fun hpair => ?_, fun hsingle => ?_⟩
    · omega
    · omega
    · have hhigh := h.high
      have hlow := h.low
      omega

end Net

end Spans

theorem ipcalc_eq {args : List (List Char)} {net : Net} {startArg limitArg : List Char}
    (hargs : takeNet (takeFormat args).2 = some (net, [startArg, limitArg]))
    (hrange : startArg ++ limitArg ≠ []) :
    ipcalc args =
      (net.range startArg limitArg).map fun range => ⟨(takeFormat args).1, net, some range⟩ := by
  unfold ipcalc
  dsimp only
  rw [hargs, Option.bind_eq_bind, Option.bind_some]
  dsimp only
  rw [if_neg hrange]
  cases net.range startArg limitArg <;> rfl

/-- The arguments of a run that prints a range. -/
theorem args_of_range {args : List (List Char)} {out : Output} {range : Arith × Arith}
    (h : ipcalc args = some out) (hout : out.range = some range) :
    ∃ startArg limitArg, startArg ++ limitArg ≠ [] ∧
      takeNet (takeFormat args).2 = some (out.net, [startArg, limitArg]) := by
  unfold ipcalc at h
  dsimp only at h
  rw [Option.bind_eq_bind, Option.bind_eq_some_iff] at h
  obtain ⟨⟨net, rest⟩, hnet, h⟩ := h
  dsimp only at h
  split at h
  · obtain rfl := Option.some.inj h
    cases hout
  · rename_i startArg limitArg
    split at h
    case isTrue =>
      obtain rfl := Option.some.inj h
      cases hout
    case isFalse hne =>
      rw [Option.bind_eq_bind, Option.bind_eq_some_iff] at h
      obtain ⟨found, -, h⟩ := h
      obtain rfl := Option.some.inj h
      exact ⟨startArg, limitArg, hne, hnet⟩
  · cases h

/-- Where the script exits successfully with a range, the range may be given out, and where there
is no such range it exits with an error. -/
theorem ipcalc_range :
    (∀ args out start last, ipcalc args = some out → out.range = some (start, last) →
      ∃ startArg limitArg, takeNet (takeFormat args).2 = some (out.net, [startArg, limitArg]) ∧
        out.net.IsRange (Nat.ofDigitChars 10 limitArg 0) start last) ∧
    ∀ args net startArg limitArg,
      takeNet (takeFormat args).2 = some (net, [startArg, limitArg]) → startArg ++ limitArg ≠ [] →
        (∀ start last, ¬ net.IsRange (Nat.ofDigitChars 10 limitArg 0) start last) →
          ipcalc args = none := by
  have hsound : ∀ {args net startArg limitArg start last},
      takeNet args = some (net, [startArg, limitArg]) →
        net.range startArg limitArg = some (start, last) →
          net.IsRange (Nat.ofDigitChars 10 limitArg 0) start last := by
    intro args net startArg limitArg start last hnet hrange
    obtain ⟨ip, hip, k, hk, rfl⟩ := exists_netOf_of_takeNet hnet
    exact (spans_netOf hip hk).isRange hk hrange
  constructor
  · intro args out start last h hout
    obtain ⟨startArg, limitArg, hne, hnet⟩ := args_of_range h hout
    rw [ipcalc_eq hnet hne, Option.map_eq_some_iff] at h
    obtain ⟨range, hrange, heq⟩ := h
    rw [← heq] at hout
    obtain rfl := Option.some.inj hout
    exact ⟨startArg, limitArg, hnet, hsound hnet hrange⟩
  · intro args net startArg limitArg hnet hne hnone
    rw [ipcalc_eq hnet hne, Option.map_eq_none_iff]
    refine Option.eq_none_iff_forall_not_mem.mpr fun range hrange => ?_
    exact hnone range.1 range.2 (hsound hnet hrange)

/-- In a network of two addresses the range may begin with the network address. -/
theorem not_inside_pair :
    ¬ ∀ args out start last, ipcalc args = some out → out.range = some (start, last) →
      out.net.network.toInt < start.toInt ∧ last.toInt < out.net.broadcast.toInt := by
  intro h
  have hrun : ∃ out range, ipcalc ["10.0.0.1/31".toList, "0".toList, "1".toList] = some out ∧
      out.range = some range ∧ ¬ out.net.network.toInt < range.1.toInt := by
    refine ⟨⟨.dotted, netOf 167772161 31, some (167772160, 167772160)⟩, _, ?_, rfl, ?_⟩
    · decide +kernel
    · decide +kernel
  obtain ⟨out, range, hout, hrange, hnot⟩ := hrun
  exact hnot (h _ out range.1 range.2 hout hrange).1

end OpenWrt.Ipcalc
