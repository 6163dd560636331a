/-
# The addresses of mapcalc

From a rule and the delegated prefix `mapcalc` computes the IPv4 address of the customer, its PSID
and the IPv6 address of its end of the tunnel. They are put together here bit by bit: the embedded
bits of the delegated prefix follow the IPv4 prefix and make up the PSID, and the addresses are
those bits at their places, whatever the alignment.
-/

import OpenWrt.Lib.BigEndian
import OpenWrt.MapCalc.PortSets

namespace OpenWrt.MapCalc

open OpenWrt.Lib

/-! ## The addresses -/

/-- `ntohl` of the four bytes. -/
def be32ToCpu (buf : ℕ → UInt8) : BitVec 32 :=
  (List.range 4).foldl (fun acc i => acc <<< 8 ||| (buf i).toBitVec.setWidth 32) 0

/-- The four bytes of `htonl`. -/
def cpuToBe32 (value : BitVec 32) : ℕ → UInt8 := fun i =>
  ⟨(value >>> (8 * (3 - i))).setWidth 8⟩

/-- The two bytes of `cpu_to_be16`, of a number that is cut to 16 bits. -/
def cpuToBe16 (value : ℤ) : ℕ → UInt8 := fun i =>
  ⟨(BitVec.ofInt 16 value >>> (8 * (1 - i))).setWidth 8⟩

namespace Rule

variable (rule : Rule) ( ipv4prefix : ℕ → UInt8) (legacy : Bool)

/-- `ipv4addr`. -/
def ipv4addr : ℕ → UInt8 :=
  if 0 ≤ rule.pdlen ∨ rule.ealen' = rule.psidlen then
    let addr := bmemcpys64 (fun _ => 0) rule.pd rule.prefix6len.toNat
      (rule.ealen' - rule.psidlen).toNat
    let addr := cpuToBe32 (be32ToCpu addr >>> rule.prefix4len.toNat)
    bmemcpy addr ipv4prefix rule.prefix4len.toNat
  else fun _ => 0

/-- `psid16`: without a PSID it is what was copied from the delegated prefix, if there is one. -/
def psid16 : ℕ → UInt8 :=
  if 0 < rule.psidlen then cpuToBe16 rule.psid
  else if 0 ≤ rule.psidlen ∧ 0 ≤ rule.pdlen then
    bmemcpys64 (fun _ => 0) rule.pd (rule.prefix6len + rule.ealen' - rule.psidlen).toNat
      rule.psidlen.toNat
  else fun _ => 0

/-- `v4offset`. -/
def v4offset : ℕ := if legacy then 9 else 10

/-- `ipv6addr`: the interface identifier, and the delegated prefix over it. -/
def ipv6addr : ℕ → UInt8 :=
  if 0 ≤ rule.pdlen then
    let v4offset := v4offset legacy
    let addr : ℕ → UInt8 := fun i =>
      if v4offset + 4 ≤ i ∧ i < v4offset + 6 then rule.psid16 (i - (v4offset + 4))
      else if v4offset ≤ i ∧ i < v4offset + 4 then rule.ipv4addr ipv4prefix (i - v4offset)
      else 0
    bmemcpy addr rule.pd rule.pdlen.toNat
  else fun _ => 0

end Rule

/-! ## Copying, bit by bit -/

section Copying

variable {a b : ℕ → UInt8} {n i : ℕ}

theorem mask_getMsbD : ∀ m < 8, 0 < m → ∀ r < 8,
    (((1 : UInt8) <<< (8 - m).toUInt8) - 1).toBitVec.getMsbD r = decide (m ≤ r) := by
  decide

/-- A bit of the last byte, where the mask takes one of the two. -/
theorem getMsbD_masked (a b : UInt8) {mask : UInt8} {m r : ℕ}
    (hmask : mask.toBitVec.getMsbD r = decide (m ≤ r)) (hr : r < 8) :
    ((a &&& mask) ||| (~~~mask &&& b)).toBitVec.getMsbD r =
      if r < m then b.toBitVec.getMsbD r else a.toBitVec.getMsbD r := by
  rw [UInt8.toBitVec_or, UInt8.toBitVec_and, UInt8.toBitVec_and, UInt8.toBitVec_not,
    BitVec.getMsbD_or, BitVec.getMsbD_and, BitVec.getMsbD_and, BitVec.getMsbD_not, hmask,
    decide_eq_true hr]
  split
  case isTrue hlt =>
    rw [decide_eq_false (Nat.not_le.mpr hlt)]
    simp
  case isFalse hge =>
    rw [decide_eq_true (Nat.not_lt.mp hge)]
    simp

theorem bitAt_bmemcpy (a b : ℕ → UInt8) (n i : ℕ) :
    bitAt (bmemcpy a b n) i = if i < n then bitAt b i else bitAt a i := by
  have hr : i % 8 < 8 := Nat.mod_lt i (by decide)
  unfold bitAt bmemcpy
  dsimp only
  by_cases hbefore : i / 8 < n / 8
  · rw [if_pos hbefore, if_pos (by omega)]
  · rw [if_neg hbefore]
    by_cases hlast : i / 8 = n / 8 ∧ 0 < n % 8
    · have hmask := mask_getMsbD (n % 8) (Nat.mod_lt n (by decide)) hlast.2 (i % 8) hr
      rw [if_pos hlast, getMsbD_masked _ _ hmask hr]
      have hiff : i % 8 < n % 8 ↔ i < n := by omega
      rw [if_congr hiff rfl rfl]
    · rw [if_neg hlast, if_neg (by omega)]

theorem bitAt_bmemcpys64 (a b : ℕ → UInt8) {frombits n : ℕ} (hroom : frombits % 8 + n ≤ 64) (i : ℕ) :
    bitAt (bmemcpys64 a b frombits n) i = if i < n then bitAt b (frombits + i) else bitAt a i := by
  unfold bmemcpys64
  dsimp only
  rw [bitAt_bmemcpy]
  split
  case isFalse => rfl
  case isTrue hi =>
    generalize hbuf : (fun j => if j < (frombits + n) / 8 - frombits / 8 + 1 then b (frombits / 8 + j)
      else (0 : UInt8)) = buf
    have hbyte : buf ((frombits % 8 + i) / 8) = b ((frombits + i) / 8) := by
      rw [← hbuf]
      dsimp only
      rw [if_pos (by omega)]
      congr 1
      omega
    have hmod : (frombits % 8 + i) % 8 = (frombits + i) % 8 := by omega
    have hbytes : cpuToBe64 (be64ToCpu buf <<< (frombits % 8)) =
        toBytes 8 (ofBytes (8 * 8) buf 8 <<< (frombits % 8)) := rfl
    rw [hbytes, bitAt_toBytes _ (by omega), BitVec.getMsbD_shiftLeft, Nat.add_comm i,
      getMsbD_ofBytes (by omega)]
    unfold bitAt
    rw [hbyte, hmod]

theorem bitAt_shiftRight (a : ℕ → UInt8) (n : ℕ) {i : ℕ} (hi : i < 32) :
    bitAt (cpuToBe32 (be32ToCpu a >>> n)) i = if i < n then false else bitAt a (i - n) := by
  have hbytes : cpuToBe32 (be32ToCpu a >>> n) = toBytes 4 (ofBytes (8 * 4) a 4 >>> n) := rfl
  rw [hbytes, bitAt_toBytes _ (by omega), BitVec.getMsbD_ushiftRight]
  split
  case isTrue hlt => rw [decide_eq_true hlt]; simp
  case isFalse hge =>
    rw [getMsbD_ofBytes (by omega)]
    simp [hge, hi]

end Copying

/-! ## The PSID -/

section Psid

variable {bytes : ℕ → UInt8} {i : ℕ}

theorem bitAt_eq_testBit (bytes : ℕ → UInt8) (i : ℕ) :
    bitAt bytes i = (bytes (i / 8)).toNat.testBit (7 - i % 8) := by
  have hmod : i % 8 < 8 := Nat.mod_lt i (by decide)
  unfold bitAt
  rw [BitVec.getMsbD_eq_getLsbD, decide_eq_true hmod, Bool.true_and]
  rfl

theorem testBit_be16ToCpu (hi : i < 16) :
    (be16ToCpu bytes).testBit (15 - i) = bitAt bytes i := by
  have hlow : (bytes 1).toNat < 2 ^ 8 := (bytes 1).toNat_lt
  have hvalue : be16ToCpu bytes = 2 ^ 8 * (bytes 0).toNat + (bytes 1).toNat := by
    unfold be16ToCpu
    omega
  rw [hvalue, Nat.testBit_two_pow_mul_add _ hlow, bitAt_eq_testBit]
  split
  case isTrue hlt =>
    have hdiv : i / 8 = 1 := by omega
    have hbit : 15 - i = 7 - i % 8 := by omega
    rw [hdiv, hbit]
  case isFalse hge =>
    have hdiv : i / 8 = 0 := by omega
    have hbit : 15 - i - 8 = 7 - i % 8 := by omega
    rw [hdiv, hbit]

theorem be16ToCpu_lt (bytes : ℕ → UInt8) : be16ToCpu bytes < 2 ^ 16 := by
  have hhigh := (bytes 0).toNat_lt
  have hlow := (bytes 1).toNat_lt
  unfold be16ToCpu
  omega

theorem bitAt_cpuToBe16 (value : ℕ) (hi : i < 16) :
    bitAt (cpuToBe16 value) i = value.testBit (15 - i) := by
  have hbytes : cpuToBe16 value = toBytes 2 (BitVec.ofInt (8 * 2) value) := rfl
  rw [hbytes, bitAt_toBytes _ (by omega), BitVec.getMsbD_eq_getLsbD, decide_eq_true hi,
    BitVec.ofInt_natCast, BitVec.getLsbD_ofNat, decide_eq_true (by omega)]
  rfl

end Psid

/-! ## What the rule computes -/

namespace Rule

/-- A rule that is used, whose bits fit into an IPv4 address and into the delegated prefix. -/
structure Sufficient (rule : Rule) : Prop where
  valid : rule.Valid
  address : rule.prefix4len + (rule.ealen' - rule.psidlen) ≤ 32
  embedded : rule.prefix6len + rule.ealen' ≤ 128
  delegated : rule.prefix6len + rule.ealen' ≤ rule.pdlen
  /-- The bounds of the options. -/
  pdlen_le : rule.pdlen ≤ 128
  psid_le : rule.psidOption ≤ 65535

def GivesPsid (rule : Rule) : Prop := 0 < rule.psidlenOption ∧ 0 ≤ rule.psidOption

/-- What is computed from these numbers of bits: an IPv4 prefix of `p4`, `p6` before the embedded
bits, `e` embedded bits for the address and `k` for the PSID, and `d` bits of delegated prefix. -/
structure Assembled (rule : Rule) ( ipv4prefix : ℕ → UInt8) (legacy : Bool) (p4 p6 e k d : ℕ) :
    Prop where
  /-- The IPv4 prefix, the first embedded bits, and zeros if they leave room. -/
  ipv4 : ∀ i < 32, bitAt (rule.ipv4addr ipv4prefix) i =
    if i < p4 then bitAt ipv4prefix i
    else if i < p4 + e then bitAt rule.pd (p6 + (i - p4))
    else false
  /-- A PSID that is derived is the other embedded bits. -/
  derived : ¬ rule.GivesPsid → ∀ i < k,
    rule.psid.toNat.testBit (k - 1 - i) = bitAt rule.pd (p6 + e + i)
  /-- One that is given is the first bits of the option. -/
  given : rule.GivesPsid → ∀ i < k,
    rule.psid.toNat.testBit (k - 1 - i) = rule.psidOption.toNat.testBit (15 - i)
  psid : 0 ≤ rule.psid ∧ rule.psid < 2 ^ k
  /-- The delegated prefix, and of the rest of the address the IPv4 address and the PSID in zeros. -/
  ipv6 : ∀ i < 128, bitAt (rule.ipv6addr ipv4prefix legacy) i =
    if i < d then bitAt rule.pd i
    else if 8 * v4offset legacy ≤ i ∧ i < 8 * v4offset legacy + 32 then
      bitAt (rule.ipv4addr ipv4prefix) (i - 8 * v4offset legacy)
    else if 8 * v4offset legacy + 32 ≤ i ∧ i < 8 * v4offset legacy + 48 then
      rule.psid.toNat.testBit (15 - (i - (8 * v4offset legacy + 32)))
    else false

section

variable {rule : Rule} {p4 p6 e k d : ℕ}

/-- The numbers of bits of a rule. -/
structure Lengths (rule : Rule) (p4 p6 e k d : ℕ) : Prop where
  prefix4len : rule.prefix4len = p4
  prefix6len : rule.prefix6len = p6
  ealen : rule.ealen' = e + k
  psidlen : rule.psidlen = k
  pdlen : rule.pdlen = d
  psid_le : k ≤ 16
  address : p4 + e ≤ 32
  embedded : p6 + e + k ≤ 128
  delegated : p6 + e + k ≤ d
  pdlen_le : d ≤ 128

theorem psidlen_nonneg (rule : Rule) : 0 ≤ rule.psidlen := by
  unfold psidlen
  split <;> omega

/-- A sufficient rule has numbers of bits. -/
theorem Sufficient.lengths (h : rule.Sufficient) :
    rule.Lengths rule.prefix4len.toNat rule.prefix6len.toNat (rule.ealen' - rule.psidlen).toNat
      rule.psidlen.toNat rule.pdlen.toNat := by
  have hvalid := h.valid
  have hpsidlen := rule.psidlen_nonneg
  have haddress := h.address
  have hembedded := h.embedded
  have hdelegated := h.delegated
  have hpdlen := h.pdlen_le
  unfold Valid at hvalid
  constructor <;> omega

theorem Lengths.bitAt_ipv4addr (h : rule.Lengths p4 p6 e k d) ( ipv4prefix : ℕ → UInt8) {i : ℕ}
    (hi : i < 32) : bitAt (rule.ipv4addr ipv4prefix) i =
      if i < p4 then bitAt ipv4prefix i
      else if i < p4 + e then bitAt rule.pd (p6 + (i - p4))
      else false := by
  have haddress := h.address
  have hp4 : rule.prefix4len.toNat = p4 := by rw [h.prefix4len, Int.toNat_natCast]
  have hp6 : rule.prefix6len.toNat = p6 := by rw [h.prefix6len, Int.toNat_natCast]
  have he : (rule.ealen' - rule.psidlen).toNat = e := by
    rw [h.ealen, h.psidlen]
    omega
  have hpd : 0 ≤ rule.pdlen ∨ rule.ealen' = rule.psidlen := by
    rw [h.pdlen]
    exact Or.inl (Int.natCast_nonneg d)
  unfold ipv4addr
  rw [if_pos hpd, hp4, hp6, he]
  dsimp only
  rw [bitAt_bmemcpy]
  split
  case isTrue => rfl
  case isFalse hge =>
    rw [bitAt_shiftRight _ _ hi, if_neg hge, bitAt_bmemcpys64 _ _ (by omega)]
    have hiff : i - p4 < e ↔ i < p4 + e := by omega
    rw [if_congr hiff rfl rfl]
    have hzero : bitAt (fun _ => 0) (i - p4) = false := by
      rw [bitAt_eq_testBit]
      exact Nat.zero_testBit _
    rw [hzero]

theorem bitAt_zero (i : ℕ) : bitAt (fun _ => 0) i = false := by
  rw [bitAt_eq_testBit]
  exact Nat.zero_testBit _

theorem Lengths.rawPsid (h : rule.Lengths p4 p6 e k d) (hoption : rule.psidOption ≤ 65535) :
    ∃ raw : ℕ, rule.rawPsid = raw ∧ raw < 2 ^ 16 ∧ (k = 0 → raw = 0) ∧
      (¬ rule.GivesPsid → ∀ i < k, raw.testBit (15 - i) = bitAt rule.pd (p6 + e + i)) ∧
      (rule.GivesPsid → raw = rule.psidOption.toNat) := by
  have hk := h.psidlen
  by_cases hgives : rule.GivesPsid
  · have hraw : rule.rawPsid = rule.psidOption := by
      unfold Rule.rawPsid
      dsimp only
      rw [if_neg (Int.not_le.mpr hgives.1), if_neg]
      exact fun hneg => absurd hgives.2 (Int.not_le.mpr hneg.1)
    have hpositive : 0 < k := by
      have hlen : rule.psidlen = rule.psidlenOption := if_neg (Int.not_le.mpr hgives.1)
      have := hgives.1
      omega
    have hnonneg := hgives.2
    refine ⟨rule.psidOption.toNat, ?_, by omega, fun hzero => by omega, ?_, fun _ => rfl⟩
    · rw [hraw]
      omega
    · exact fun hnot => absurd hgives hnot
  · have hneg : (if rule.psidlenOption ≤ 0 then -1 else rule.psidOption) < 0 := by
      split
      · decide
      · rename_i hlen
        by_contra hge
        exact hgives ⟨Int.not_le.mp hlen, Int.not_lt.mp hge⟩
    have hfrom : (rule.prefix6len + rule.ealen' - rule.psidlen).toNat = p6 + e := by
      rw [h.prefix6len, h.ealen, h.psidlen]
      omega
    have hpdlen : 0 ≤ rule.pdlen := by
      rw [h.pdlen]
      exact Int.natCast_nonneg d
    have hraw : rule.rawPsid = be16ToCpu (bmemcpys64 (fun _ => 0) rule.pd (p6 + e) k) := by
      unfold Rule.rawPsid
      dsimp only
      rw [if_pos ⟨hneg, rule.psidlen_nonneg, hpdlen⟩, hfrom, hk, Int.toNat_natCast]
    have hwidth := h.psid_le
    have hbits : ∀ i < 16, (be16ToCpu (bmemcpys64 (fun _ => 0) rule.pd (p6 + e) k)).testBit (15 - i) =
        if i < k then bitAt rule.pd (p6 + e + i) else false := by
      intro i hi
      rw [testBit_be16ToCpu hi, bitAt_bmemcpys64 _ _ (by omega), bitAt_zero]
    refine ⟨_, hraw, be16ToCpu_lt _, ?_, ?_, fun hg => absurd hg hgives⟩
    · intro hzero
      apply Nat.eq_of_testBit_eq
      intro j
      rw [Nat.zero_testBit]
      by_cases hj : j < 16
      · have hbit := hbits (15 - j) (by omega)
        rw [if_neg (by omega), show 15 - (15 - j) = j by omega] at hbit
        exact hbit
      · exact Nat.testBit_lt_two_pow (Nat.lt_of_lt_of_le (be16ToCpu_lt _)
          (Nat.pow_le_pow_right (by decide) (by omega)))
    · intro _ i hi
      rw [hbits i (by omega), if_pos hi]

/-- The PSID is the first bits of those. -/
theorem Lengths.psid_eq (h : rule.Lengths p4 p6 e k d) {raw : ℕ} (hraw : rule.rawPsid = raw)
    (hzero : k = 0 → raw = 0) : rule.psid = (raw / 2 ^ (16 - k) : ℕ) := by
  have hwidth := h.psid_le
  have hshift : (16 - rule.psidlen).toNat = 16 - k := by
    rw [h.psidlen]
    omega
  unfold Rule.psid
  rw [hraw, hshift, h.psidlen]
  split
  case isTrue =>
    push_cast
    rfl
  case isFalse hk =>
    have hk0 : k = 0 := by omega
    rw [hzero hk0]
    simp

theorem Lengths.bitAt_psid16 (h : rule.Lengths p4 p6 e k d) {psid : ℕ} (hpsid : rule.psid = psid)
    (hzero : k = 0 → psid = 0) {i : ℕ} (hi : i < 16) :
    bitAt rule.psid16 i = psid.testBit (15 - i) := by
  have hpdlen : 0 ≤ rule.pdlen := by
    rw [h.pdlen]
    exact Int.natCast_nonneg d
  unfold psid16
  rw [hpsid, h.psidlen]
  split
  case isTrue => exact bitAt_cpuToBe16 psid hi
  case isFalse hk =>
    have hk0 : k = 0 := by omega
    rw [if_pos ⟨Int.natCast_nonneg k, hpdlen⟩, hk0, hzero hk0, Nat.zero_testBit, Int.toNat_natCast,
      bitAt_bmemcpys64 _ _ (by omega), if_neg (Nat.not_lt_zero i), bitAt_zero]

theorem bitAt_sub (bytes : ℕ → UInt8) {v i : ℕ} (hi : 8 * v ≤ i) :
    (bytes (i / 8 - v)).toBitVec.getMsbD (i % 8) = bitAt bytes (i - 8 * v) := by
  have hdiv : (i - 8 * v) / 8 = i / 8 - v := by omega
  have hmod : (i - 8 * v) % 8 = i % 8 := by omega
  unfold bitAt
  rw [hdiv, hmod]

theorem Lengths.bitAt_ipv6addr (h : rule.Lengths p4 p6 e k d) ( ipv4prefix : ℕ → UInt8)
    (legacy : Bool) {psid : ℕ} (hpsid : rule.psid = psid) (hzero : k = 0 → psid = 0) (i : ℕ) :
    bitAt (rule.ipv6addr ipv4prefix legacy) i =
      if i < d then bitAt rule.pd i
      else if 8 * v4offset legacy ≤ i ∧ i < 8 * v4offset legacy + 32 then
        bitAt (rule.ipv4addr ipv4prefix) (i - 8 * v4offset legacy)
      else if 8 * v4offset legacy + 32 ≤ i ∧ i < 8 * v4offset legacy + 48 then
        psid.testBit (15 - (i - (8 * v4offset legacy + 32)))
      else false := by
  have hpdlen : 0 ≤ rule.pdlen := by
    rw [h.pdlen]
    exact Int.natCast_nonneg d
  unfold ipv6addr
  rw [if_pos hpdlen, h.pdlen, Int.toNat_natCast]
  dsimp only
  rw [bitAt_bmemcpy]
  split
  case isTrue => rfl
  case isFalse =>
    generalize v4offset legacy = v
    rw [bitAt]
    by_cases hpsidBytes : v + 4 ≤ i / 8 ∧ i / 8 < v + 6
    · rw [if_pos hpsidBytes, if_neg (by omega), if_pos (by omega), bitAt_sub _ (by omega),
        h.bitAt_psid16 hpsid hzero (by omega)]
      congr 2
    · rw [if_neg hpsidBytes]
      by_cases hv4Bytes : v ≤ i / 8 ∧ i / 8 < v + 4
      · rw [if_pos hv4Bytes, if_pos (by omega), bitAt_sub _ (by omega)]
      · rw [if_neg hv4Bytes, if_neg (by omega), if_neg (by omega)]
        exact bitAt_zero i

end

/-- What a sufficient rule computes, bit for bit. -/
theorem assembled_of_sufficient (rule : Rule) ( ipv4prefix : ℕ → UInt8) (legacy : Bool)
    (h : rule.Sufficient) :
    rule.Assembled ipv4prefix legacy rule.prefix4len.toNat rule.prefix6len.toNat
      (rule.ealen' - rule.psidlen).toNat rule.psidlen.toNat rule.pdlen.toNat := by
  have hlengths := h.lengths
  have hwidth := hlengths.psid_le
  obtain ⟨raw, hraw, hlt, hzero, hderived, hgiven⟩ := hlengths.rawPsid h.psid_le
  have hpsid := hlengths.psid_eq hraw hzero
  generalize rule.psidlen.toNat = k at *
  have hpsidZero : k = 0 → raw / 2 ^ (16 - k) = 0 := by
    intro hk
    rw [hzero hk, Nat.zero_div]
  have hbit : ∀ i < k, (raw / 2 ^ (16 - k)).testBit (k - 1 - i) = raw.testBit (15 - i) := by
    intro i hi
    rw [Nat.testBit_div_two_pow]
    congr 1
    omega
  refine ⟨?_, ?_, ?_, ?_, ?_⟩
  · exact fun i hi => hlengths.bitAt_ipv4addr ipv4prefix hi
  · intro hnot i hi
    rw [hpsid, Int.toNat_natCast, hbit i hi]
    exact hderived hnot i hi
  · intro hgives i hi
    rw [hpsid, Int.toNat_natCast, hbit i hi, hgiven hgives]
  · rw [hpsid]
    have hbound : raw / 2 ^ (16 - k) < 2 ^ k := by
      rw [Nat.div_lt_iff_lt_mul (Nat.two_pow_pos _), ← Nat.pow_add, show k + (16 - k) = 16 by omega]
      exact hlt
    exact ⟨Int.natCast_nonneg _, by exact_mod_cast hbound⟩
  · intro i _
    rw [hlengths.bitAt_ipv6addr ipv4prefix legacy hpsid hpsidZero i, hpsid, Int.toNat_natCast]

/-- The prefix `2001:db8:12:3400::/56` of a rule with `2001:db8::/40` and 16 embedded bits. -/
def delegatedRule : Rule where
  offset := 6
  ealen := 16
  prefix4len := 24
  prefix6len := 40
  pd := fun i => [0x20, 0x01, 0x0d, 0xb8, 0x00, 0x12, 0x34].getD i 0
  pdlen := 56
  psidlenOption := -1
  psidOption := -1

/-- With `192.0.2.0/24` the address is `192.0.2.18`, the PSID 0x34 and the end of the tunnel
`2001:db8:12:3400:0:c000:212:34`. -/
theorem assembled_delegatedRule :
    delegatedRule.Assembled (fun i => [192, 0, 2, 0].getD i 0) false 24 40 8 8 56 ∧
      (List.range 4).map (delegatedRule.ipv4addr fun i => [192, 0, 2, 0].getD i 0) =
        [192, 0, 2, 18] ∧
      delegatedRule.psid = 0x34 ∧
      (List.range 16).map (delegatedRule.ipv6addr (fun i => [192, 0, 2, 0].getD i 0) false) =
        [0x20, 0x01, 0x0d, 0xb8, 0, 0x12, 0x34, 0, 0, 0, 192, 0, 2, 18, 0, 0x34] := by
  refine ⟨?_, by decide +kernel, by decide +kernel, by decide +kernel⟩
  exact assembled_of_sufficient delegatedRule _ false
    ⟨by decide, by decide, by decide, by decide, by decide, by decide⟩

/-- A rule whose PSID is longer than what the embedded bits leave after the address. -/
def longPsidRule : Rule where
  offset := 6
  ealen := 8
  prefix4len := 24
  prefix6len := 40
  pd := fun i => [0x20, 0x01, 0x0d, 0xb8, 0x00, 0xff].getD i 0
  pdlen := 48
  psidlenOption := 4
  psidOption := -1

/-- The bits of its PSID are not in the address, which ends in zeros. -/
theorem not_address_of_embedded :
    ¬ ∀ (rule : Rule) ( ipv4prefix : ℕ → UInt8), rule.Sufficient → ∀ i < 32,
      bitAt (rule.ipv4addr ipv4prefix) i =
        if i < rule.prefix4len.toNat then bitAt ipv4prefix i
        else bitAt rule.pd (rule.prefix6len.toNat + (i - rule.prefix4len.toNat)) := by
  intro hclaim
  have hbit := hclaim longPsidRule (fun _ => 0)
    ⟨by decide, by decide, by decide, by decide, by decide, by decide⟩ 28 (by decide)
  have hfalse : bitAt (longPsidRule.ipv4addr fun _ => 0) 28 = false := by decide +kernel
  rw [hfalse] at hbit
  exact absurd hbit (by decide +kernel)

end Rule

end OpenWrt.MapCalc
