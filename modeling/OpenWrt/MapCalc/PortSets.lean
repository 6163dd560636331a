/-
# The port sets of mapcalc

An address that several customers share is divided by ports: the first `offset`
bits of a port number a block, the next `psidlen` bits are the customer's PSID,
and the rest is free. `mapcalc` prints, for one rule, the ranges of ports that
its PSID has. This module follows `main` from the parsed options to these ranges
and proves that the ranges of all PSIDs divide the ports.

An option of `-1` is one that was not given. The PSID of the options is aligned to
the left of 16 bits, as it is in the messages that carry it.
-/

import Mathlib.Algebra.Group.Int.Defs
import Mathlib.Algebra.Order.Group.Nat
import Mathlib.Data.List.Basic

namespace OpenWrt.MapCalc

/-! ## Copying bits -/

/-- `bmemcpy`: the first bits of `b` over those of `a`. -/
def bmemcpy (a b : ℕ → UInt8) (bits : ℕ) : ℕ → UInt8 := fun i =>
  if i < bits / 8 then b i
  else if i = bits / 8 ∧ 0 < bits % 8 then
    let mask : UInt8 := (1 <<< (8 - bits % 8).toUInt8) - 1
    (a i &&& mask) ||| (~~~mask &&& b i)
  else a i

/-- `be64_to_cpu` of the eight bytes. -/
def be64ToCpu (buf : ℕ → UInt8) : BitVec 64 :=
  (List.range 8).foldl (fun acc i => acc <<< 8 ||| (buf i).toBitVec.setWidth 64) 0

/-- The eight bytes of `cpu_to_be64`. -/
def cpuToBe64 (value : BitVec 64) : ℕ → UInt8 := fun i =>
  ⟨(value >>> (8 * (7 - i))).setWidth 8⟩

/-- `bmemcpys64`: bits from the middle of `b` to the start of `a`. -/
def bmemcpys64 (a b : ℕ → UInt8) (frombits nbits : ℕ) : ℕ → UInt8 :=
  let frombyte := frombits / 8
  let tobyte := (frombits + nbits) / 8
  let buf : ℕ → UInt8 := fun i => if i < tobyte - frombyte + 1 then b (frombyte + i) else 0
  bmemcpy a (cpuToBe64 (be64ToCpu buf <<< (frombits % 8))) nbits

/-- `be16_to_cpu` of two bytes. -/
def be16ToCpu (bytes : ℕ → UInt8) : ℕ :=
  (bytes 0).toNat * 256 + (bytes 1).toNat

/-! ## From the options to the ports -/

/-- What the options of a rule, their defaults and the delegated prefix say about its
ports. -/
structure Rule where
  /-- The number of bits before the PSID. -/
  offset : ℕ
  /-- The number of embedded address bits; negative when unknown. -/
  ealen : ℤ
  prefix4len : ℤ
  prefix6len : ℤ
  /-- The delegated prefix and its length; negative when there is none. -/
  pd : ℕ → UInt8
  pdlen : ℤ
  /-- The two options about the PSID; negative when not given. -/
  psidlenOption : ℤ
  psidOption : ℤ

namespace Rule

variable (rule : Rule)

/-- `ealen`, found from the delegated prefix when it is not known. -/
def ealen' : ℤ :=
  if rule.ealen < 0 ∧ 0 ≤ rule.pdlen then rule.pdlen - rule.prefix6len else rule.ealen

/-- `psidlen`: the option, or what the embedded bits leave after the address. -/
def psidlen : ℤ :=
  if rule.psidlenOption ≤ 0 then max (rule.ealen' - (32 - rule.prefix4len)) 0
  else rule.psidlenOption

def Valid : Prop :=
  ¬ (rule.prefix4len < 0 ∨ rule.prefix6len < 0 ∨ rule.ealen' < 0 ∨ 16 < rule.psidlen ∨
    rule.ealen' < rule.psidlen)

instance : Decidable rule.Valid :=
  inferInstanceAs (Decidable (¬ _))

/-- `psid` in 16 bits: the option, unless the length was derived, and else the bits of
the delegated prefix. -/
def rawPsid : ℤ :=
  let psid := if rule.psidlenOption ≤ 0 then -1 else rule.psidOption
  if psid < 0 ∧ 0 ≤ rule.psidlen ∧ 0 ≤ rule.pdlen then
    be16ToCpu (bmemcpys64 (fun _ => 0) rule.pd
      (rule.prefix6len + rule.ealen' - rule.psidlen).toNat rule.psidlen.toNat)
  else psid

/-- `psid >> (16 - psidlen)`: the PSID, which `psid16` stores. -/
def psid : ℤ :=
  if 0 < rule.psidlen then rule.rawPsid / 2 ^ (16 - rule.psidlen).toNat else rule.rawPsid

/-- The range of the loop's turn `k`, unless it is empty. Of the ports of a customer,
port 0 is left out. -/
def portSet (offset psidlen psid k : ℕ) : Option (ℕ × ℕ) :=
  let start := k <<< (16 - offset) ||| psid >>> offset
  let stop := start + 1 <<< (16 - offset - psidlen) - 1
  let start := if start = 0 then 1 else start
  if start ≤ stop then some (start, stop) else none

/-- The loop over `k`, which starts after block 0 when there are blocks. -/
def portSets (offset psidlen psid : ℕ) : List (ℕ × ℕ) :=
  let first := if offset = 0 then 0 else 1
  (List.range' first (1 <<< offset - first)).filterMap (portSet offset psidlen psid)

/-- The `PORTSETS` line, when there is one. -/
def ports : Option (List (ℕ × ℕ)) :=
  if rule.Valid ∧ 0 < rule.psidlen ∧ 0 ≤ rule.psid then
    some (portSets rule.offset rule.psidlen.toNat
      (rule.psid.toNat <<< (16 - rule.psidlen).toNat))
  else none

/-- The rule is used and has this offset, PSID length and PSID. -/
structure Has (a k psid : ℕ) : Prop where
  valid : rule.Valid
  offset : rule.offset = a
  psidlen : rule.psidlen = k
  psid : rule.psid = psid

def Covers (p : ℕ) : Prop :=
  ∃ sets, rule.ports = some sets ∧ ∃ range ∈ sets, range.1 ≤ p ∧ p ≤ range.2

end Rule

/-! ## The ports of a PSID -/

/-- The ports with this PSID after the first `a` bits, which are not all zero. -/
structure HasPort (a k psid p : ℕ) : Prop where
  pos : 0 < p
  lt : p < 2 ^ 16
  psid : p / 2 ^ (16 - a - k) % 2 ^ k = psid
  block : 0 < a → p / 2 ^ (16 - a) ≠ 0

section Fields

variable {a k psid i p : ℕ}

theorem block_size (hak : a + k ≤ 16) : 2 ^ (16 - a) = 2 ^ k * 2 ^ (16 - a - k) := by
  rw [← Nat.pow_add]
  congr 1
  omega

theorem port_count (ha : a ≤ 16) : 2 ^ 16 = 2 ^ a * 2 ^ (16 - a) := by
  rw [← Nat.pow_add]
  congr 1
  omega

/-- The bits of the PSID below those of the block. -/
theorem start_eq (hak : a + k ≤ 16) (hpsid : psid < 2 ^ k) :
    i <<< (16 - a) ||| (psid <<< (16 - k)) >>> a = (i * 2 ^ k + psid) * 2 ^ (16 - a - k) := by
  have hlow : (psid <<< (16 - k)) >>> a = psid * 2 ^ (16 - a - k) := by
    have hsplit : 2 ^ (16 - k) = 2 ^ (16 - a - k) * 2 ^ a := by
      rw [← Nat.pow_add]
      congr 1
      omega
    rw [Nat.shiftLeft_eq, Nat.shiftRight_eq_div_pow, hsplit, ← Nat.mul_assoc,
      Nat.mul_div_cancel _ (Nat.two_pow_pos a)]
  have hlt : psid * 2 ^ (16 - a - k) < 2 ^ (16 - a) := by
    rw [block_size hak]
    exact Nat.mul_lt_mul_of_pos_right hpsid (Nat.two_pow_pos _)
  rw [hlow, ← Nat.shiftLeft_add_eq_or_of_lt hlt, Nat.shiftLeft_eq, block_size hak,
    Nat.add_mul, Nat.mul_assoc]

/-- What one turn of the loop prints. -/
theorem portSet_eq (hak : a + k ≤ 16) (hpsid : psid < 2 ^ k) {range : ℕ × ℕ} :
    Rule.portSet a k (psid <<< (16 - k)) i = some range ↔
      range.1 = max 1 ((i * 2 ^ k + psid) * 2 ^ (16 - a - k)) ∧
        range.2 + 1 = (i * 2 ^ k + psid + 1) * 2 ^ (16 - a - k) ∧ range.1 ≤ range.2 := by
  have hsize : 0 < 2 ^ (16 - a - k) := Nat.two_pow_pos _
  obtain ⟨start, stop⟩ := range
  unfold Rule.portSet
  dsimp only
  rw [start_eq hak hpsid, Nat.shiftLeft_eq, Nat.one_mul, Nat.add_mul _ 1, Nat.one_mul]
  generalize (i * 2 ^ k + psid) * 2 ^ (16 - a - k) = base
  have hfirst : (if base = 0 then 1 else base) = max 1 base := by
    split <;> omega
  rw [hfirst]
  by_cases hle : max 1 base ≤ base + 2 ^ (16 - a - k) - 1
  · rw [if_pos hle, Option.some.injEq, Prod.mk.injEq]
    omega
  · rw [if_neg hle]
    refine ⟨nofun, fun ⟨hstart, hstop, hnonempty⟩ => ?_⟩
    omega

/-- A port is in the range of the block whose number and PSID are its first bits. -/
theorem mem_portSet (hak : a + k ≤ 16) (hpsid : psid < 2 ^ k) :
    (∃ range, Rule.portSet a k (psid <<< (16 - k)) i = some range ∧
        range.1 ≤ p ∧ p ≤ range.2) ↔
      0 < p ∧ p / 2 ^ (16 - a - k) = i * 2 ^ k + psid := by
  have hsize : 0 < 2 ^ (16 - a - k) := Nat.two_pow_pos _
  rw [Nat.div_eq_iff hsize]
  constructor
  · rintro ⟨range, hrange, hlow, hhigh⟩
    obtain ⟨hstart, hstop, -⟩ := (portSet_eq hak hpsid).mp hrange
    rw [Nat.add_mul _ 1, Nat.one_mul] at hstop
    omega
  · rintro ⟨hpos, hlow, hhigh⟩
    refine ⟨⟨max 1 ((i * 2 ^ k + psid) * 2 ^ (16 - a - k)),
      (i * 2 ^ k + psid) * 2 ^ (16 - a - k) + 2 ^ (16 - a - k) - 1⟩,
      (portSet_eq hak hpsid).mpr ⟨rfl, ?_, ?_⟩, ?_, ?_⟩
    · rw [Nat.add_mul _ 1, Nat.one_mul]
      dsimp only
      omega
    all_goals dsimp only; omega

/-- The loop goes over the blocks, without block 0 when there is another. -/
theorem mem_portSets {sets : List (ℕ × ℕ)} {range : ℕ × ℕ}
    (hsets : sets = Rule.portSets a k (psid <<< (16 - k))) :
    range ∈ sets ↔ ∃ i < 2 ^ a, (0 < a → i ≠ 0) ∧
      Rule.portSet a k (psid <<< (16 - k)) i = some range := by
  subst hsets
  have hblocks : 1 <<< a = 2 ^ a := by rw [Nat.shiftLeft_eq, Nat.one_mul]
  have hpos : 0 < 2 ^ a := Nat.two_pow_pos a
  unfold Rule.portSets
  rw [hblocks, List.mem_filterMap]
  refine exists_congr fun i => ?_
  rw [List.mem_range'_1, ← and_assoc]
  refine and_congr_left fun _ => ?_
  by_cases ha : a = 0
  · subst ha
    simp
  · rw [if_neg ha]
    omega

theorem mem_portSets_iff_hasPort (hak : a + k ≤ 16) (hpsid : psid < 2 ^ k) :
    (∃ range ∈ Rule.portSets a k (psid <<< (16 - k)), range.1 ≤ p ∧ p ≤ range.2) ↔
      HasPort a k psid p := by
  have hcut : p / 2 ^ (16 - a) = p / 2 ^ (16 - a - k) / 2 ^ k := by
    rw [Nat.div_div_eq_div_mul, Nat.mul_comm, ← block_size hak]
  have hcount : p < 2 ^ 16 ↔ p / 2 ^ (16 - a) < 2 ^ a := by
    rw [port_count (show a ≤ 16 by omega), Nat.div_lt_iff_lt_mul (Nat.two_pow_pos _)]
  constructor
  · rintro ⟨range, hmem, hin⟩
    obtain ⟨i, hi, hfirst, hrange⟩ := (mem_portSets rfl).mp hmem
    obtain ⟨hpos, hbits⟩ := (mem_portSet hak hpsid).mp ⟨range, hrange, hin⟩
    have hblock : p / 2 ^ (16 - a) = i := by
      rw [hcut, hbits, Nat.mul_comm, Nat.mul_add_div (Nat.two_pow_pos k),
        Nat.div_eq_of_lt hpsid, Nat.add_zero]
    refine ⟨hpos, hcount.mpr (by omega), ?_, by rw [hblock]; exact hfirst⟩
    rw [hbits, Nat.mul_comm, Nat.mul_add_mod, Nat.mod_eq_of_lt hpsid]
  · rintro ⟨hpos, hlt, hbits, hfirst⟩
    have hwhole : p / 2 ^ (16 - a - k) = p / 2 ^ (16 - a) * 2 ^ k + psid := by
      rw [hcut, ← hbits, Nat.div_add_mod']
    obtain ⟨range, hrange, hin⟩ := (mem_portSet hak hpsid).mpr ⟨hpos, hwhole⟩
    exact ⟨range, (mem_portSets rfl).mpr ⟨_, hcount.mp hlt, hfirst, hrange⟩, hin⟩

/-- The ranges come in order, with no port in two of them. -/
theorem pairwise_portSets (hak : a + k ≤ 16) (hpsid : psid < 2 ^ k) :
    (Rule.portSets a k (psid <<< (16 - k))).Pairwise (fun r s => r.2 < s.1) := by
  unfold Rule.portSets
  refine List.Pairwise.filterMap _ (fun i j hij r hr s hs => ?_) List.pairwise_lt_range'
  obtain ⟨-, hstop, -⟩ := (portSet_eq hak hpsid).mp hr
  obtain ⟨hstart, -, -⟩ := (portSet_eq hak hpsid).mp hs
  have hblock : (i + 1) * 2 ^ k ≤ j * 2 ^ k := Nat.mul_le_mul_right _ hij
  have hle : (i * 2 ^ k + psid + 1) * 2 ^ (16 - a - k) ≤
      (j * 2 ^ k + psid) * 2 ^ (16 - a - k) := by
    refine Nat.mul_le_mul_right _ ?_
    have hwidth : 0 < 2 ^ k := Nat.two_pow_pos k
    rw [Nat.add_mul, Nat.one_mul] at hblock
    omega
  omega

theorem range_of_mem_portSets (hak : a + k ≤ 16) (hpsid : psid < 2 ^ k) {range : ℕ × ℕ}
    (hmem : range ∈ Rule.portSets a k (psid <<< (16 - k))) :
    1 ≤ range.1 ∧ range.1 ≤ range.2 ∧ range.2 ≤ 65535 := by
  obtain ⟨i, -, -, hrange⟩ := (mem_portSets rfl).mp hmem
  obtain ⟨hstart, -, hle⟩ := (portSet_eq hak hpsid).mp hrange
  have hport : HasPort a k psid range.2 :=
    (mem_portSets_iff_hasPort hak hpsid).mp ⟨range, hmem, hle, le_rfl⟩
  have hlt := hport.lt
  omega

end Fields

/-! ## The partition -/

section Partition

variable {a k psid : ℕ} {rule : Rule}

/-- The line that a rule prints. -/
theorem Rule.Has.ports_eq (h : rule.Has a k psid) (hk : 0 < k) :
    rule.ports = some (Rule.portSets a k (psid <<< (16 - k))) := by
  have hlen : (16 - rule.psidlen).toNat = 16 - k := by
    rw [h.psidlen]
    omega
  have hprinted : rule.Valid ∧ 0 < rule.psidlen ∧ 0 ≤ rule.psid := by
    refine ⟨h.valid, ?_, ?_⟩
    · rw [h.psidlen]
      exact_mod_cast hk
    · rw [h.psid]
      exact Int.natCast_nonneg _
  unfold Rule.ports
  rw [if_pos hprinted, hlen, h.offset, h.psidlen, h.psid, Int.toNat_natCast, Int.toNat_natCast]

theorem Rule.Has.covers_iff (h : rule.Has a k psid) (hk : 0 < k) (hak : a + k ≤ 16)
    (hpsid : psid < 2 ^ k) {p : ℕ} : rule.Covers p ↔ HasPort a k psid p := by
  unfold Rule.Covers
  rw [h.ports_eq hk, ← mem_portSets_iff_hasPort hak hpsid]
  simp only [Option.some.injEq, exists_eq_left']

/-- A rule whose option gives the PSID. -/
def optionRule (a k psid : ℕ) : Rule where
  offset := a
  ealen := k
  prefix4len := 32
  prefix6len := 0
  pd := fun _ => 0
  pdlen := -1
  psidlenOption := k
  psidOption := psid <<< (16 - k)

theorem optionRule_has (hk : 0 < k) (hak : a + k ≤ 16) :
    (optionRule a k psid).Has a k psid := by
  have hlen : (optionRule a k psid).psidlen = k := by
    unfold Rule.psidlen optionRule
    dsimp only
    rw [if_neg (by omega)]
  have hraw : (optionRule a k psid).rawPsid = ((psid <<< (16 - k) : ℕ) : ℤ) := by
    unfold Rule.rawPsid optionRule
    dsimp only
    rw [if_neg (show ¬ (k : ℤ) ≤ 0 by omega), if_neg (by omega)]
  refine ⟨?_, rfl, hlen, ?_⟩
  · unfold Rule.Valid
    rw [hlen]
    unfold Rule.ealen' optionRule
    dsimp only
    rw [if_neg (by omega)]
    omega
  · have hwidth : (16 - (k : ℤ)).toNat = 16 - k := by omega
    unfold Rule.psid
    rw [hraw, hlen, if_pos (by omega), hwidth, Nat.shiftLeft_eq]
    push_cast
    exact Int.mul_ediv_cancel _ (Int.ne_of_gt (Int.pow_pos (by decide)))

/-- For one offset and one positive PSID length: the ranges of a PSID are not empty,
in order, between 1 and 65535 and have exactly its ports, and the ports of all PSIDs are
a partition. -/
theorem ports_partition (hk : 0 < k) (hak : a + k ≤ 16) :
    (∀ psid < 2 ^ k, (∃ rule : Rule, rule.Has a k psid) ∧
      ∀ rule : Rule, rule.Has a k psid → ∃ sets, rule.ports = some sets ∧
        (∀ range ∈ sets, 1 ≤ range.1 ∧ range.1 ≤ range.2 ∧ range.2 ≤ 65535) ∧
        sets.Pairwise (fun r s => r.2 < s.1) ∧
        ∀ p, (∃ range ∈ sets, range.1 ≤ p ∧ p ≤ range.2) ↔ HasPort a k psid p) ∧
    (∀ psid < 2 ^ k, ∀ psid' < 2 ^ k, psid ≠ psid' → ∀ rule rule' : Rule,
      rule.Has a k psid → rule'.Has a k psid' → ∀ p, ¬ (rule.Covers p ∧ rule'.Covers p)) ∧
    ∀ p, 0 < p → p < 2 ^ 16 → (0 < a → p / 2 ^ (16 - a) ≠ 0) →
      ∃ psid < 2 ^ k, ∀ rule : Rule, rule.Has a k psid → rule.Covers p := by
  refine ⟨fun psid hpsid => ⟨⟨_, optionRule_has hk hak⟩, fun rule hrule => ?_⟩, ?_, ?_⟩
  · exact ⟨_, hrule.ports_eq hk, fun range => range_of_mem_portSets hak hpsid,
      pairwise_portSets hak hpsid, fun p => mem_portSets_iff_hasPort hak hpsid⟩
  · rintro psid hpsid psid' hpsid' hne rule rule' hrule hrule' p ⟨hp, hp'⟩
    have hport := (hrule.covers_iff hk hak hpsid).mp hp
    have hport' := (hrule'.covers_iff hk hak hpsid').mp hp'
    exact hne (hport.psid.symm.trans hport'.psid)
  · intro p hpos hlt hfirst
    have hpsid : p / 2 ^ (16 - a - k) % 2 ^ k < 2 ^ k := Nat.mod_lt _ (Nat.two_pow_pos k)
    exact ⟨_, hpsid, fun rule hrule =>
      (hrule.covers_iff hk hak hpsid).mpr ⟨hpos, hlt, rfl, hfirst⟩⟩

/-- Four bits of block and four of PSID. -/
theorem ports_partition_four :
    0 < 4 ∧ 4 + 4 ≤ 16 ∧ ∀ rule rule' : Rule, rule.Has 4 4 3 → rule'.Has 4 4 5 →
      ¬ (rule.Covers 4864 ∧ rule'.Covers 4864) :=
  ⟨by decide, by decide, fun rule rule' hrule hrule' =>
    (ports_partition (a := 4) (k := 4) (by decide) (by decide)).2.1 3 (by decide) 5 (by decide)
      (by decide) rule rule' hrule hrule' 4864⟩

/-- A rule without PSID bits prints no ranges at all, although its one PSID has every
port. -/
theorem not_ports_of_no_psid :
    ¬ ∀ a k : ℕ, a + k ≤ 16 → ∀ psid < 2 ^ k, ∀ rule : Rule, rule.Has a k psid →
      ∀ p, rule.Covers p ↔ HasPort a k psid p := by
  intro hclaim
  let rule : Rule := ⟨0, 0, 32, 64, fun _ => 0, 64, -1, -1⟩
  have hhas : rule.Has 0 0 0 := ⟨by decide, rfl, by decide, by decide⟩
  obtain ⟨sets, hsets, -⟩ := (hclaim 0 0 (by decide) 0 (by decide) rule hhas 1).mpr
    ⟨by decide, by decide, by decide, fun h => absurd h (by decide)⟩
  have hnone : rule.ports = none := by decide
  rw [hnone] at hsets
  cases hsets

end Partition

end OpenWrt.MapCalc
