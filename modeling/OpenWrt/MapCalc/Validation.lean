/-
# What mapcalc checks of a rule

The options of a rule are numbers that `strtoul` reads into an `int` and that have an upper bound
each. What is missing is derived from the others, some combinations are refused, and then the
lengths are used as shift counts and as bit positions in the addresses. Here the operations of a
rule that is not refused are listed, and the condition under which all of them are within their
bounds.
-/

import OpenWrt.MapCalc.Address

namespace OpenWrt.MapCalc

/-! ## The options -/

/-- What `strtoul` returns for a value, and whether it sets `errno`. -/
structure Number where
  value : ℕ
  errno : Bool

/-- A suboption of a rule. Those whose values are no numbers are left out but for the two flags. -/
inductive SubOption
  | type (lw4o6 : Bool)
  | fmr
  | ealen (number : Number)
  | prefix4len (number : Number)
  | prefix6len (number : Number)
  | offset (number : Number)
  | psidlen (number : Number)
  | pdlen (number : Number)
  | psid (number : Number)
  | other

/-- The variables of `main` for a rule. -/
structure Options where
  lw4o6 : Bool
  fmr : Bool
  ealen : ℤ
  prefix4len : ℤ
  prefix6len : ℤ
  pdlen : ℤ
  offset : ℤ
  psidlen : ℤ
  psid : ℤ

/-- `intval = strtoul(value, NULL, 0)`, cut to an `int`. -/
def Number.intval (number : Number) : ℤ := (BitVec.ofNat 32 number.value).toInt

/-- `(intval = strtoul(value, NULL, 0)) <= bound && !errno`. -/
def Number.accept (number : Number) (bound : ℤ) : Option ℤ :=
  if number.intval ≤ bound ∧ number.errno = false then some number.intval else none

namespace Options

def init : Options where
  lw4o6 := false
  fmr := false
  ealen := -1
  prefix4len := 32
  prefix6len := -1
  pdlen := -1
  offset := -1
  psidlen := -1
  psid := -1

/-- One suboption; a value that is refused leaves the variable as it is. -/
def read (o : Options) : SubOption → Options
  | .type lw4o6 => { o with lw4o6 }
  | .fmr => { o with fmr := true }
  | .ealen number => { o with ealen := (number.accept 48).getD o.ealen }
  | .prefix4len number => { o with prefix4len := (number.accept 32).getD o.prefix4len }
  | .prefix6len number => { o with prefix6len := (number.accept 128).getD o.prefix6len }
  | .offset number => { o with offset := (number.accept 16).getD o.offset }
  | .psidlen number => { o with psidlen := (number.accept 16).getD o.psidlen }
  | .pdlen number => { o with pdlen := (number.accept 128).getD o.pdlen }
  | .psid number => { o with psid := (number.accept 65535).getD o.psid }
  | .other => o

/-- The loop over the suboptions. -/
def parse (subOptions : List SubOption) : Options := subOptions.foldl read init

/-- The rule of the options, with the delegated prefix and the length that is found for it where
none is given; negative when there is none. -/
def rule (o : Options) (legacy : Bool) (pd : ℕ → UInt8) (found : ℤ) : Rule :=
  let offset := if o.offset < 0 then (if o.lw4o6 then 0 else if legacy then 4 else 6) else o.offset
  let psidlen := if o.lw4o6 ∧ o.psidlen < 0 then 0 else o.psidlen
  { offset := offset.toNat
    ealen := if o.lw4o6 then psidlen else o.ealen
    prefix4len := o.prefix4len
    prefix6len := o.prefix6len
    pd
    pdlen := if o.pdlen < 0 then found else o.pdlen
    psidlenOption := psidlen
    psidOption := o.psid }

end Options

/-! ## The operations -/

/-- What bits are copied from and to. -/
inductive Object
  | pd | ipv6addr | ipv4addr | ipv4prefix | psid16 | buf
  deriving DecidableEq

def Object.size : Object → ℕ
  | .pd => 16
  | .ipv6addr => 16
  | .ipv4addr => 4
  | Object.ipv4prefix => 4
  | .psid16 => 2
  | .buf => 8

/-- A shift of an operand of some bits, and an access to the bytes of an object before one. -/
inductive Op
  | shift (width : ℕ) (count : ℤ)
  | access (object : Object) (stop : ℕ)

/-- The operations of `bmemcpy`. -/
def bmemcpyOps (dst src : Object) (bits : ℕ) : List Op :=
  [.access dst ((bits + 7) / 8), .access src ((bits + 7) / 8)] ++
    if 0 < bits % 8 then [.shift 32 (8 - bits % 8 : ℕ)] else []

/-- The operations of `bmemcpys64`: the last byte is read also when no bit of it is copied. -/
def bmemcpys64Ops (dst src : Object) (frombits nbits : ℕ) : List Op :=
  [.access src ((frombits + nbits) / 8 + 1),
    .access .buf ((frombits + nbits) / 8 - frombits / 8 + 1), .shift 64 (frombits % 8 : ℕ)] ++
    bmemcpyOps dst .buf nbits

namespace Rule

variable (rule : Rule)

/-- `psid < 0 && psidlen >= 0 && pdlen >= 0`. -/
def copiesPsid : Bool :=
  (if rule.psidlenOption ≤ 0 then -1 else rule.psidOption) < 0 ∧ 0 ≤ rule.psidlen ∧ 0 ≤ rule.pdlen

/-- `pdlen >= 0 || ealen == psidlen`. -/
def computesAddress : Bool := 0 ≤ rule.pdlen ∨ rule.ealen' = rule.psidlen

/-- The shifts and the copies from the validation to the end of the rule. -/
def ops (legacy : Bool) : List Op :=
  (if rule.copiesPsid then
      bmemcpys64Ops .psid16 .pd (rule.prefix6len + rule.ealen' - rule.psidlen).toNat
        rule.psidlen.toNat
    else []) ++
  (if 0 < rule.psidlen then [.shift 32 (16 - rule.psidlen), .shift 32 (16 - rule.psidlen)]
    else []) ++
  (if rule.computesAddress then
      bmemcpys64Ops .ipv4addr .pd rule.prefix6len.toNat (rule.ealen' - rule.psidlen).toNat ++
        [.shift 32 rule.prefix4len] ++ bmemcpyOps .ipv4addr Object.ipv4prefix rule.prefix4len.toNat
    else []) ++
  (if 0 ≤ rule.pdlen then
      [.access .ipv6addr (v4offset legacy + 4), .access .ipv6addr (v4offset legacy + 6)] ++
        bmemcpyOps .ipv6addr .pd rule.pdlen.toNat
    else []) ++
  (if 0 < rule.psidlen ∧ 0 ≤ rule.psid then
      -- The counts are the same at every turn of the loop, which has at least one.
      [.shift 32 rule.offset, .shift 32 (16 - rule.offset), .shift 32 rule.offset,
        .shift 32 (16 - rule.offset - rule.psidlen)]
    else [])

/-- What the checks are for: the lengths fit together, no shift count is negative or too large, and
no copy goes past an address of 16 bytes. -/
structure Safe (legacy : Bool) : Prop where
  ports : rule.offset + rule.psidlen ≤ 16
  psidlen_nonneg : 0 ≤ rule.psidlen
  embedded : rule.prefix6len + rule.ealen' ≤ 128
  prefix4len : 0 ≤ 32 - rule.prefix4len
  shifts : ∀ (width : ℕ) (count : ℤ), .shift width count ∈ rule.ops legacy →
    0 ≤ count ∧ count < width
  copies : ∀ (object : Object) (stop : ℕ), .access object stop ∈ rule.ops legacy →
    object.size = 16 → stop ≤ 16

/-- The rule is not refused: it is complete, and it has a delegated prefix or is for forwarding. -/
def Passes (fmr : Bool) : Prop := rule.Valid ∧ ¬ (rule.pdlen < 0 ∧ fmr = false)

end Rule

/-! ## The condition -/

namespace Options

variable (o : Options) (legacy : Bool) (found : ℤ)

/-- The number of bits before the PSID in a port. -/
def offsetBits : ℤ :=
  if 0 ≤ o.offset then o.offset else if o.lw4o6 then 0 else if legacy then 4 else 6

/-- The length of the delegated prefix. -/
def delegatedBits : ℤ := if 0 ≤ o.pdlen then o.pdlen else found

def embeddedBits : ℤ :=
  if o.lw4o6 then max o.psidlen 0
  else if 0 ≤ o.ealen ∨ o.delegatedBits found < 0 then o.ealen
  else o.delegatedBits found - o.prefix6len

def psidBits : ℤ :=
  if 0 < o.psidlen then o.psidlen else max (o.embeddedBits found - (32 - o.prefix4len)) 0

/-- The lengths of the options fit together: the PSID into a port, the embedded bits into the
delegated prefix with a byte behind those that are read, and an IPv4 address is not made of its
prefix alone. -/
structure Fits : Prop where
  ports : o.offsetBits legacy + o.psidBits found ≤ 16
  embedded : o.prefix6len + o.embeddedBits found ≤ 128
  psid : 0 ≤ o.delegatedBits found → ¬ (0 < o.psidlen ∧ 0 ≤ o.psid) →
    o.prefix6len + o.embeddedBits found < 128
  address : 0 ≤ o.delegatedBits found ∨ o.embeddedBits found = o.psidBits found →
    o.prefix6len + o.embeddedBits found - o.psidBits found < 128 ∧ o.prefix4len < 32
  delegated : o.delegatedBits found ≤ 128

end Options

/-! ## The bounds of the options -/

namespace Options

variable {o : Options} {legacy : Bool} {pd : ℕ → UInt8} {found : ℤ}

theorem accept_le {number : Number} {bound old : ℤ} (hold : old ≤ bound) :
    (number.accept bound).getD old ≤ bound := by
  unfold Number.accept
  split
  case isTrue h =>
    rw [Option.getD_some]
    exact h.1
  case isFalse =>
    rw [Option.getD_none]
    exact hold

/-- The options that are read are within their upper bounds. -/
structure Bounded (o : Options) : Prop where
  prefix4len_le : o.prefix4len ≤ 32
  offset_le : o.offset ≤ 16

theorem Bounded.read (h : o.Bounded) (option : SubOption) : (o.read option).Bounded := by
  cases option with
  | prefix4len number => exact ⟨accept_le h.prefix4len_le, h.offset_le⟩
  | offset number => exact ⟨h.prefix4len_le, accept_le h.offset_le⟩
  | _ => exact ⟨h.prefix4len_le, h.offset_le⟩

theorem bounded_parse (subOptions : List SubOption) : (parse subOptions).Bounded := by
  have hrun : ∀ (l : List SubOption) (o : Options), o.Bounded → (l.foldl Options.read o).Bounded := by
    intro l
    induction l with
    | nil => exact fun _ h => h
    | cons option l ih => exact fun o h => ih _ (h.read option)
  exact hrun subOptions init ⟨by decide, by decide⟩

/-! ## The derived lengths -/

theorem rule_pdlen : (o.rule legacy pd found).pdlen = o.delegatedBits found := by
  unfold rule delegatedBits
  dsimp only
  split <;> split <;> omega

theorem rule_ealen' : (o.rule legacy pd found).ealen' = o.embeddedBits found := by
  have hpdlen : (o.rule legacy pd found).pdlen = o.delegatedBits found := rule_pdlen
  unfold Rule.ealen' embeddedBits
  rw [hpdlen]
  unfold rule
  dsimp only
  cases o.lw4o6 with
  | true =>
    simp only [true_and, if_true]
    split_ifs <;> omega
  | false =>
    simp only [Bool.false_eq_true, false_and, if_false]
    split_ifs <;> omega

theorem rule_psidlen : (o.rule legacy pd found).psidlen = o.psidBits found := by
  have healen : (o.rule legacy pd found).ealen' = o.embeddedBits found := rule_ealen'
  unfold Rule.psidlen psidBits
  rw [healen]
  unfold rule
  dsimp only
  split_ifs <;> omega

theorem rule_offset (h : o.Bounded) :
    ((o.rule legacy pd found).offset : ℤ) = o.offsetBits legacy ∧ (o.rule legacy pd found).offset ≤ 16 := by
  have hle := h.offset_le
  unfold rule offsetBits
  dsimp only
  constructor <;> split_ifs <;> omega

theorem rule_psid :
    (if (o.rule legacy pd found).psidlenOption ≤ 0 then -1 else (o.rule legacy pd found).psidOption) < 0 ↔
      ¬ (0 < o.psidlen ∧ 0 ≤ o.psid) := by
  unfold rule
  dsimp only
  split_ifs <;> omega

end Options

/-! ## The operations of a rule -/

/-- The count of a shift is below the width, and an access stays inside an address. -/
def Op.Ok : Op → Prop
  | .shift width count => 0 ≤ count ∧ count < width
  | .access object stop => object.size = 16 → stop ≤ 16

theorem ok_ite {c : Prop} [Decidable c] {l : List Op} :
    (∀ op ∈ (if c then l else []), op.Ok) ↔ (c → ∀ op ∈ l, op.Ok) := by
  by_cases hc : c
  · rw [if_pos hc]
    exact ⟨fun h _ => h, fun h => h hc⟩
  · rw [if_neg hc]
    exact ⟨fun _ h => absurd h hc, fun _ _ h => absurd h List.not_mem_nil⟩

theorem ok_bmemcpyOps {dst src : Object} {bits : ℕ} :
    (∀ op ∈ bmemcpyOps dst src bits, op.Ok) ↔
      (dst.size = 16 ∨ src.size = 16 → bits ≤ 128) := by
  unfold bmemcpyOps
  rw [List.forall_mem_append, ok_ite]
  simp only [List.forall_mem_cons, Op.Ok]
  have hbytes : (bits + 7) / 8 ≤ 16 ↔ bits ≤ 128 := by omega
  rw [hbytes]
  constructor
  · rintro ⟨⟨hdst, hsrc, -⟩, -⟩ (h | h)
    · exact hdst h
    · exact hsrc h
  · intro h
    refine ⟨⟨fun hdst => h (.inl hdst), fun hsrc => h (.inr hsrc), ?_⟩, ?_⟩
    · exact fun op hop => absurd hop List.not_mem_nil
    · intro hpos
      refine ⟨by omega, fun op hop => absurd hop List.not_mem_nil⟩

/-- A copy of bits of the delegated prefix needs a byte behind them. -/
theorem ok_bmemcpys64Ops {dst : Object} (hdst : dst.size ≠ 16) {frombits nbits : ℕ} :
    (∀ op ∈ bmemcpys64Ops dst .pd frombits nbits, op.Ok) ↔ frombits + nbits < 128 := by
  unfold bmemcpys64Ops
  rw [List.forall_mem_append, ok_bmemcpyOps]
  simp only [List.forall_mem_cons, Op.Ok]
  constructor
  · rintro ⟨⟨hpd, -⟩, -⟩
    have hstop := hpd rfl
    omega
  · intro hlt
    refine ⟨⟨fun _ => by omega, ?_, by omega, ?_⟩, ?_⟩
    · exact fun h => absurd h (by decide)
    · exact fun op hop => absurd hop List.not_mem_nil
    · rintro (h | h)
      · exact absurd h hdst
      · exact absurd h (by decide)

namespace Rule

variable {rule : Rule} {legacy : Bool}

theorem shifts_and_copies_iff :
    ((∀ (width : ℕ) (count : ℤ), .shift width count ∈ rule.ops legacy → 0 ≤ count ∧ count < width) ∧
      ∀ (object : Object) (stop : ℕ), .access object stop ∈ rule.ops legacy →
        object.size = 16 → stop ≤ 16) ↔
      ∀ op ∈ rule.ops legacy, op.Ok := by
  constructor
  · rintro ⟨hshifts, hcopies⟩ op hop
    cases op with
    | shift width count => exact hshifts width count hop
    | access object stop => exact hcopies object stop hop
  · intro h
    exact ⟨fun width count hop => h _ hop, fun object stop hop => h _ hop⟩

/-- The operations of a valid rule, in the order in which `main` makes them. -/
theorem ok_ops_iff (hvalid : rule.Valid) (hoffset : rule.offset ≤ 16)
    (hports : rule.offset + rule.psidlen ≤ 16) :
    (∀ op ∈ rule.ops legacy, op.Ok) ↔
      (rule.copiesPsid → rule.prefix6len + rule.ealen' < 128) ∧
        (rule.computesAddress →
          rule.prefix6len + rule.ealen' - rule.psidlen < 128 ∧ rule.prefix4len < 32) ∧
        rule.pdlen ≤ 128 := by
  have hpsidlen : 0 ≤ rule.psidlen := rule.psidlen_nonneg
  unfold Valid at hvalid
  have hcopy : (rule.prefix6len + rule.ealen' - rule.psidlen).toNat + rule.psidlen.toNat < 128 ↔
      rule.prefix6len + rule.ealen' < 128 := by omega
  have haddress : rule.prefix6len.toNat + (rule.ealen' - rule.psidlen).toNat < 128 ↔
      rule.prefix6len + rule.ealen' - rule.psidlen < 128 := by omega
  unfold ops
  simp only [List.forall_mem_append, ok_ite, ok_bmemcpyOps]
  rw [ok_bmemcpys64Ops (by decide), ok_bmemcpys64Ops (by decide), hcopy, haddress]
  simp only [List.forall_mem_cons, Op.Ok]
  constructor
  · rintro ⟨⟨⟨⟨hpsid, -⟩, haddr⟩, hdelegated⟩, -⟩
    refine ⟨hpsid, fun hc => ?_, ?_⟩
    · obtain ⟨⟨hlt, ⟨-, hshift⟩, -⟩, -⟩ := haddr hc
      exact ⟨hlt, hshift⟩
    · by_cases hpdlen : 0 ≤ rule.pdlen
      · have hle := (hdelegated hpdlen).2 (.inl rfl)
        omega
      · omega
  · rintro ⟨hpsid, haddr, hdelegated⟩
    have hnil : ∀ op ∈ ([] : List Op), op.Ok := fun op hop => absurd hop List.not_mem_nil
    have hv4 : v4offset legacy ≤ 10 := by cases legacy <;> decide
    refine ⟨⟨⟨⟨hpsid, fun _ => ⟨by omega, by omega, hnil⟩⟩, fun hc => ?_⟩, fun _ => ?_⟩, fun _ => ?_⟩
    · obtain ⟨hlt, hshift⟩ := haddr hc
      exact ⟨⟨hlt, ⟨by omega, hshift⟩, hnil⟩, fun h => absurd h (by decide)⟩
    · exact ⟨⟨fun _ => by omega, fun _ => by omega, hnil⟩, fun _ => by omega⟩
    · exact ⟨by omega, by omega, by omega, by omega, hnil⟩

/-- What is left of the bounds for a rule that passes. -/
theorem safe_iff_lengths (hvalid : rule.Valid) (hoffset : rule.offset ≤ 16)
    (hlen4 : rule.prefix4len ≤ 32) :
    rule.Safe legacy ↔
      rule.offset + rule.psidlen ≤ 16 ∧ rule.prefix6len + rule.ealen' ≤ 128 ∧
        (rule.copiesPsid → rule.prefix6len + rule.ealen' < 128) ∧
        (rule.computesAddress →
          rule.prefix6len + rule.ealen' - rule.psidlen < 128 ∧ rule.prefix4len < 32) ∧
        rule.pdlen ≤ 128 := by
  constructor
  · intro h
    have hops := shifts_and_copies_iff.mp ⟨h.shifts, h.copies⟩
    exact ⟨h.ports, h.embedded, (ok_ops_iff hvalid hoffset h.ports).mp hops⟩
  · rintro ⟨hports, hembedded, hlengths⟩
    have hok : ∀ op ∈ rule.ops legacy, op.Ok := (ok_ops_iff hvalid hoffset hports).mpr hlengths
    have hops := shifts_and_copies_iff.mpr hok
    exact {
      ports := hports
      psidlen_nonneg := rule.psidlen_nonneg
      embedded := hembedded
      prefix4len := by omega
      shifts := hops.1
      copies := hops.2 }

end Rule

namespace Options

/-- The operations of a rule that passes the checks are within their bounds exactly when the lengths
of its options fit together. -/
theorem safe_iff (subOptions : List SubOption) (legacy : Bool) (pd : ℕ → UInt8) (found : ℤ)
    (h : ((parse subOptions).rule legacy pd found).Passes (parse subOptions).fmr) :
    ((parse subOptions).rule legacy pd found).Safe legacy ↔ (parse subOptions).Fits legacy found := by
  have hbounded := bounded_parse subOptions
  obtain ⟨hoffset, hoffset_le⟩ := @rule_offset _ legacy pd found hbounded
  rw [Rule.safe_iff_lengths h.1 hoffset_le hbounded.prefix4len_le, hoffset]
  unfold Rule.copiesPsid Rule.computesAddress
  simp only [decide_eq_true_eq]
  rw [rule_psid, rule_pdlen, rule_ealen', rule_psidlen]
  have hpsidBits : 0 ≤ (parse subOptions).psidBits found := by
    unfold psidBits
    split <;> omega
  constructor
  · rintro ⟨hports, hembedded, hpsid, haddress, hdelegated⟩
    exact {
      ports := hports
      embedded := hembedded
      psid := fun hpd hoption => hpsid ⟨hoption, hpsidBits, hpd⟩
      address := haddress
      delegated := hdelegated }
  · intro hfits
    exact ⟨hfits.ports, hfits.embedded, fun hc => hfits.psid hc.2.2 hc.1, hfits.address,
      hfits.delegated⟩

/-- A number that is read without an error. -/
def number (value : ℕ) : Number := ⟨value, false⟩

/-- The options of a rule that shares an address, with a delegated prefix. -/
def sharedRule (offset : ℕ) : List SubOption :=
  [.type false, .ealen (number 16), .prefix4len (number 24), .prefix6len (number 40), .pdlen (number 56),
    .offset (number offset)]

theorem safe_sharedRule :
    ((parse (sharedRule 6)).rule false (fun _ => 0) (-1)).Passes (parse (sharedRule 6)).fmr ∧
      ((parse (sharedRule 6)).rule false (fun _ => 0) (-1)).Safe false := by
  have hpasses : ((parse (sharedRule 6)).rule false (fun _ => 0) (-1)).Passes
      (parse (sharedRule 6)).fmr := ⟨by decide, by decide⟩
  refine ⟨hpasses, (safe_iff (sharedRule 6) false (fun _ => 0) (-1) hpasses).mpr ?_⟩
  exact ⟨by decide, by decide, by decide, by decide, by decide⟩

/-- With an offset of 12 the PSID does not fit into a port, and the rule is used. -/
theorem not_safe_sharedRule :
    ¬ ∀ (subOptions : List SubOption) (legacy : Bool) (pd : ℕ → UInt8) (found : ℤ),
      ((parse subOptions).rule legacy pd found).Passes (parse subOptions).fmr →
        ((parse subOptions).rule legacy pd found).Safe legacy := by
  intro h
  have hsafe := h (sharedRule 12) false (fun _ => 0) (-1) ⟨by decide, by decide⟩
  have hports := hsafe.ports
  revert hports
  decide

end Options

end OpenWrt.MapCalc
