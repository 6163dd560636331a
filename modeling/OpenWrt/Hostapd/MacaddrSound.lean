/-
# The addresses that are tried

The addresses of a radio start from one base and one shift of the numbers, but for those of the
list. This gives the exact condition under which they are all well formed, different and, where
they are made by the addition, the sum; and the search fails only where all of them are taken.
-/

import OpenWrt.Hostapd.MacaddrDistinct

namespace OpenWrt.Hostapd

def MacSource.withFiles (source : MacSource) (base mask : MacAddr) : MacSource :=
  { source with macaddress := some base, addressMask := some mask }

/-! ## Where the addresses start -/

/-- The address of the list that a number gets: there is no radio index, and no other base. -/
def macListed (source : MacSource) (mask : List ℕ) (id : ℕ) : Option MacAddr :=
  if source.macaddrBase = none ∧ mask = fullMask ∧ source.radio = none ∧ source.numGlobal ≤ id then
    source.addresses[id]?
  else none

def macFrom (source : MacSource) (base : MacAddr) (mask : List ℕ) : MacAddr :=
  match source.macaddrBase with
  | some base => base
  | none =>
    if mask = fullMask then
      match source.radio with
      | some (radio + 1) => source.addresses[radio + 1]?.getD base
      | _ => base
    else base

/-- What is added to the number: a radio without an address in the list shifts it. -/
def macShift (source : MacSource) (mask : List ℕ) : ℕ :=
  if source.macaddrBase = none ∧ mask = fullMask ∧
      source.addresses.length ≤ source.radio.getD 0 then source.radio.getD 0 * 16
  else 0

section Source

variable (source : MacSource) (base : MacAddr) (mask : List ℕ) (id : ℕ)

theorem macStart_eq : macStart source base mask id =
    match macListed source mask id with
    | some addr => .listed addr
    | none => .base (macFrom source base mask) (id + macShift source mask) := by
  unfold macStart macListed macFrom macShift
  cases source.macaddrBase with
  | some base => simp
  | none =>
    by_cases hmask : mask = fullMask
    · cases hradio : source.radio with
      | none =>
        by_cases hid : source.numGlobal ≤ id
        · cases source.addresses[id]? <;> simp [hmask, hid]
        · simp [hmask, hid]
      | some radio =>
        cases radio with
        | zero => by_cases hid : source.numGlobal ≤ id <;> simp [hmask, hid]
        | succ radio =>
          by_cases hlength : radio + 1 < source.addresses.length
          · simp [hmask, hlength, Nat.not_le.mpr hlength]
          · simp [hmask, Nat.not_lt.mp hlength]
    · simp [hmask]

/-- How the base is changed: a number 0 without a shift leaves it, as the addition of 0 does. -/
def macKind : MacType :=
  if id + macShift source mask = 0 ∧ source.mbssid = false then .add else macType source mask id

def macMade : List ℕ :=
  changeMac source.mbssid (id + macShift source mask) (macFrom source base mask).octets
    (macKind source mask id)

def macOf : List ℕ :=
  match macListed source mask id with
  | some addr => addr.octets
  | none => macMade source base mask id

def macFinish : MacStart → Option (List ℕ)
  | .listed addr => some addr.octets
  | .base base idx =>
    if idx = 0 ∧ source.mbssid = false then some base.octets
    else some (changeMac source.mbssid idx base.octets (macType source mask id))

end Source

theorem macaddrGenerate_eq (source : MacSource) (base mask : MacAddr) (id : ℕ) :
    macaddrGenerate (source.withFiles base mask) id =
      some (macOf source base (baseMask mask) id) := by
  have hfinish : macaddrGenerate (source.withFiles base mask) id =
      macFinish source (baseMask mask) id (macStart source base (baseMask mask) id) := rfl
  rw [hfinish, macStart_eq]
  unfold macOf
  cases macListed source (baseMask mask) id with
  | some addr => rfl
  | none =>
    unfold macMade macKind macFinish
    dsimp only
    by_cases hzero : id + macShift source (baseMask mask) = 0 ∧ source.mbssid = false
    · obtain ⟨a, b, c, d, e, f, hfrom, hlt⟩ :=
        (macFrom source base (baseMask mask)).exists_octets
      rw [if_pos hzero, if_pos hzero, hzero.1, hfrom, changeMac_zero hlt]
    · rw [if_neg hzero, if_neg hzero]

/-! ## The kinds of the addresses -/

section Kind

variable {source : MacSource} {base : MacAddr} {mask : List ℕ} {id id' : ℕ}

theorem macKind_of_mbssid (h : source.mbssid = true) : macKind source mask id = .b5 := by
  simp [macKind, macType, h]

theorem of_macKind_b1 (h : macKind source mask id = .b1) : source.mbssid = false ∧
    source.numGlobal ≤ id ∧ 0 < mask.headD 0 ∧ 0 < id + macShift source mask := by
  unfold macKind macType at h
  grind

theorem of_macKind_b5 (hmbssid : source.mbssid = false) (h : macKind source mask id = .b5) :
    source.numGlobal ≤ id ∧ mask.headD 0 = 0 ∧ mask.getLastD 0 < 255 ∧
      0 < id + macShift source mask := by
  unfold macKind macType at h
  grind

theorem of_macShift_pos (h : 0 < macShift source mask) :
    mask = fullMask ∧ source.radio ≠ none ∧ 16 ∣ macShift source mask := by
  unfold macShift at h ⊢
  split at h
  case isTrue hshift =>
    rw [if_pos hshift]
    refine ⟨hshift.2.1, fun hnone => ?_, Nat.dvd_mul_left 16 _⟩
    rw [hnone] at h
    exact absurd h (Nat.lt_irrefl 0)
  case isFalse => exact absurd h (Nat.lt_irrefl 0)

theorem macShift_of_headD (h : mask.headD 0 = 0) : macShift source mask = 0 := by
  by_contra hshift
  rw [(of_macShift_pos (Nat.pos_of_ne_zero hshift)).1] at h
  cases h

theorem macListed_of_radio (h : source.radio ≠ none) : macListed source mask id = none :=
  if_neg fun hlisted => h hlisted.2.2.1

/-- An addition and an exclusive or of the last octet give no address twice. -/
def LastOctetsDiffer (source : MacSource) (base : MacAddr) (mask : List ℕ) : Prop :=
  source.mbssid = false → mask.headD 0 = 0 → mask.getLastD 0 < 255 →
    ∀ id id' : ℕ, (id : ℤ) < source.numGlobal → source.numGlobal ≤ id' → id' < 32 →
      (macFrom source base mask).octets.getLastD 0 + id ≠
        (macFrom source base mask).octets.getLastD 0 ^^^ id'

theorem macMade_ne_of_add_b5 (hmbssid : source.mbssid = false)
    (hlast : LastOctetsDiffer source base mask) (hid : id < 32) (hid' : id' < 32)
    (hadd : macKind source mask id = .add) (hb5 : macKind source mask id' = .b5) :
    macMade source base mask id ≠ macMade source base mask id' := by
  obtain ⟨hglobal, hhead, hmask, hpos⟩ := of_macKind_b5 hmbssid hb5
  obtain ⟨a, b, c, d, e, f, hfrom, hlt⟩ := (macFrom source base mask).exists_octets
  have hf : f < 256 := hlt f (by simp)
  have hshift : macShift source _ = 0 := macShift_of_headD hhead
  unfold macMade
  rw [hadd, hb5, hfrom, hshift, hmbssid, Nat.add_zero, Nat.add_zero, Ne,
    add_eq_b5_iff (by omega) hf (by omega)]
  by_cases hsmall : (id : ℤ) < source.numGlobal
  · have hne := hlast hmbssid hhead hmask id id' hsmall hglobal hid'
    rwa [hfrom] at hne
  · -- The number 0 leaves the base.
    have hzero : id = 0 := by
      unfold macKind macType at hadd
      grind
    rw [hzero, Nat.add_zero]
    intro heq
    have hxor : f ^^^ 0 = f ^^^ id' := (Nat.xor_zero f).trans heq
    rw [hshift] at hpos
    exact absurd (Nat.xor_right_injective hxor) (by omega)

/-- Different numbers give different addresses from the base. -/
theorem macMade_ne (hlast : LastOctetsDiffer source base mask) (hid : id < 32) (hid' : id' < 32)
    (hne : id ≠ id') : macMade source base mask id ≠ macMade source base mask id' := by
  obtain ⟨a, b, c, d, e, f, hfrom, hlt⟩ := (macFrom source base mask).exists_octets
  cases hmbssid : source.mbssid with
  | true =>
    unfold macMade
    rw [macKind_of_mbssid hmbssid, macKind_of_mbssid hmbssid, hfrom]
    exact b5_ne_b5 (by omega)
  | false =>
    cases hkind : macKind source mask id with
    | add =>
      cases hkind' : macKind source mask id' with
      | add =>
        unfold macMade
        rw [hkind, hkind', hfrom]
        exact add_ne_add (by omega)
      | b1 =>
        unfold macMade
        rw [hkind, hkind', hfrom]
        exact add_ne_b1 (of_macKind_b1 hkind').2.2.2
      | b5 => exact macMade_ne_of_add_b5 hmbssid hlast hid hid' hkind hkind'
    | b1 =>
      cases hkind' : macKind source mask id' with
      | add =>
        unfold macMade
        rw [hkind, hkind', hfrom]
        exact (add_ne_b1 (of_macKind_b1 hkind).2.2.2).symm
      | b1 =>
        unfold macMade
        rw [hkind, hkind', hfrom]
        exact b1_ne_b1 (of_macKind_b1 hkind).2.2.2 (of_macKind_b1 hkind').2.2.2 (by omega)
      | b5 =>
        have hhead := (of_macKind_b1 hkind).2.2.1
        rw [(of_macKind_b5 hmbssid hkind').2.1] at hhead
        exact absurd hhead (Nat.lt_irrefl 0)
    | b5 =>
      cases hkind' : macKind source mask id' with
      | add => exact (macMade_ne_of_add_b5 hmbssid hlast hid' hid hkind' hkind).symm
      | b1 =>
        have hhead := (of_macKind_b1 hkind').2.2.1
        rw [(of_macKind_b5 hmbssid hkind).2.1] at hhead
        exact absurd hhead (Nat.lt_irrefl 0)
      | b5 =>
        unfold macMade
        rw [hkind, hkind', hfrom]
        exact b5_ne_b5 (by omega)

end Kind

/-! ## All the addresses -/

/-- What the addresses of the numbers that are tried should be. -/
structure GeneratesSoundly (source : MacSource) (base mask : MacAddr) : Prop where
  unicast : ∀ id < 32, ∃ addr,
    macaddrGenerate (source.withFiles base mask) id = some addr ∧ IsUnicast addr
  distinct : ∀ id < 32, ∀ id' < 32, id ≠ id' →
    macaddrGenerate (source.withFiles base mask) id ≠
      macaddrGenerate (source.withFiles base mask) id'
  /-- The address that is made by the addition is the sum. -/
  adds : ∀ id < 32, ∀ start idx, macStart source base (baseMask mask) id = .base start idx →
    macType source (baseMask mask) id = .add →
      ∀ addr, macaddrGenerate (source.withFiles base mask) id = some addr →
        octetsValue addr.reverse = octetsValue start.octets.reverse + idx
  /-- The search fails only where all of them are taken. -/
  next : ∀ wdevMacaddrs list val reuse,
    ((source.withFiles base mask).phydev wdevMacaddrs).macaddrNext list val reuse = none →
      ∀ id < 32, ∀ addr, macaddrGenerate (source.withFiles base mask) id = some addr →
        list (macaddrJoin addr) ≠ none

/-- When they are. -/
structure FitsOctets (source : MacSource) (base : MacAddr) (mask : List ℕ) : Prop where
  /-- What is started from is a unicast address. -/
  unicast : ∀ id < 32, ((macListed source mask id).getD (macFrom source base mask)).octets.headD 0
    % 2 = 0
  /-- The shifted number fits into the octet it changes. -/
  shift : (source.mbssid = true → macShift source mask ≤ 224) ∧
    (source.mbssid = false → source.numGlobal < 32 → macShift source mask ≤ 32)
  lastOctets : LastOctetsDiffer source base mask
  /-- An address of the list is not that of another number. -/
  listed : ∀ id < 32, ∀ id' < 32, id ≠ id' → ∀ addr, macListed source mask id = some addr →
    addr.octets ≠ macOf source base mask id'
  /-- Nothing is carried but a one. -/
  adds : ∀ id < 32, macListed source mask id = none → macType source mask id = .add →
    AddsUp (id + macShift source mask) ((macFrom source base mask).octets.drop 1).reverse

section Generate

variable {source : MacSource} {base mask : MacAddr}

theorem isUnicast_macMade_iff {mask : List ℕ} {id : ℕ} :
    IsUnicast (macMade source base mask id) ↔
      (macFrom source base mask).octets.headD 0 % 2 = 0 ∧
        (macKind source mask id = .b1 → b1Idx ((macFrom source base mask).octets.headD 0)
          (id + macShift source mask) < 64) ∧
        (macKind source mask id = .b5 → id + macShift source mask < 256) := by
  obtain ⟨a, b, c, d, e, f, hfrom, hlt⟩ := (macFrom source base mask).exists_octets
  unfold macMade
  rw [hfrom]
  exact isUnicast_changeMac_iff hlt _

theorem MacAddr.isUnicast_iff (addr : MacAddr) :
    IsUnicast addr.octets ↔ addr.octets.headD 0 % 2 = 0 :=
  ⟨IsUnicast.even, fun h => ⟨addr.length_octets, addr.lt_of_mem, h⟩⟩

theorem b1Idx_le (first idx : ℕ) : b1Idx first idx ≤ idx := by
  unfold b1Idx
  split <;> omega

/-- The last number that is tried has the largest index. -/
theorem shift_of_isUnicast (h : ∀ id < 32, IsUnicast (macOf source base (baseMask mask) id)) :
    (source.mbssid = true → macShift source (baseMask mask) ≤ 224) ∧
      (source.mbssid = false → source.numGlobal < 32 → macShift source (baseMask mask) ≤ 32) := by
  rcases Nat.eq_zero_or_pos (macShift source (baseMask mask)) with hzero | hpos
  · rw [hzero]
    exact ⟨fun _ => Nat.zero_le _, fun _ _ => Nat.zero_le _⟩
  obtain ⟨hfull, hradio, hdvd⟩ := of_macShift_pos hpos
  have hlast := h 31 (by decide)
  rw [macOf, macListed_of_radio hradio] at hlast
  obtain ⟨-, hb1, hb5⟩ := isUnicast_macMade_iff.mp hlast
  constructor
  · intro hmbssid
    have hidx := hb5 (macKind_of_mbssid hmbssid)
    omega
  · intro hmbssid hglobal
    have hkind : macKind source (baseMask mask) 31 = .b1 := by
      unfold macKind macType
      rw [if_neg (by omega), hmbssid, if_neg Bool.false_ne_true, if_neg (by omega), hfull]
      rfl
    have hidx := hb1 hkind
    unfold b1Idx at hidx
    split at hidx <;> omega

theorem isUnicast_macOf (h : FitsOctets source base (baseMask mask)) {id : ℕ} (hid : id < 32) :
    IsUnicast (macOf source base (baseMask mask) id) := by
  have heven := h.unicast id hid
  unfold macOf
  cases hlisted : macListed source (baseMask mask) id with
  | some addr =>
    rw [hlisted] at heven
    exact addr.isUnicast_iff.mpr heven
  | none =>
    rw [hlisted] at heven
    refine isUnicast_macMade_iff.mpr ⟨heven, fun hkind => ?_, fun hkind => ?_⟩
    · obtain ⟨hmbssid, hglobal, -, -⟩ := of_macKind_b1 hkind
      have hshift := h.shift.2 hmbssid (by omega)
      have hle := b1Idx_le ((macFrom source base (baseMask mask)).octets.headD 0)
        (id + macShift source (baseMask mask))
      omega
    · cases hmbssid : source.mbssid with
      | true =>
        have hshift := h.shift.1 hmbssid
        omega
      | false =>
        rw [macShift_of_headD (of_macKind_b5 hmbssid hkind).2.1]
        omega

/-- The addition is the sum exactly when the index adds up. -/
theorem adds_iff {id : ℕ} (htype : macType source (baseMask mask) id = .add) :
    octetsValue (macMade source base (baseMask mask) id).reverse =
        octetsValue (macFrom source base (baseMask mask)).octets.reverse +
          (id + macShift source (baseMask mask)) ↔
      AddsUp (id + macShift source (baseMask mask))
        ((macFrom source base (baseMask mask)).octets.drop 1).reverse := by
  have hkind : macKind source (baseMask mask) id = .add := by
    unfold macKind
    rw [htype, ite_self]
  obtain ⟨a, b, c, d, e, f, hfrom, hlt⟩ := (macFrom source base (baseMask mask)).exists_octets
  unfold macMade
  rw [hkind, hfrom, changeMac_add]
  have hlow : ∀ octet ∈ [f, e, d, c, b], octet < 256 := fun octet hmem => hlt octet (by
    simp only [List.mem_cons, List.not_mem_nil, or_false] at hmem ⊢
    tauto)
  have hvalue : Nat.ofDigits 256 (addIdx (id + macShift source (baseMask mask)) [f, e, d, c, b]) =
      Nat.ofDigits 256 [f, e, d, c, b] + (id + macShift source (baseMask mask)) ↔
        AddsUp (id + macShift source (baseMask mask)) [f, e, d, c, b] :=
    value_addIdx_iff (by simp) hlow
  have hsplit : [a, b, c, d, e, f].reverse = [f, e, d, c, b] ++ [a] := rfl
  rw [List.reverse_cons, List.reverse_reverse, hsplit, octetsValue, octetsValue,
    Nat.ofDigits_append, Nat.ofDigits_append, length_addIdx,
    show ([a, b, c, d, e, f].drop 1).reverse = [f, e, d, c, b] from rfl,
    ← hvalue]
  omega

/-- Without a listed address a sum with the number is an exclusive or with another one, if the
condition for it fails. -/
theorem lastOctetsDiffer_of_distinct
    (h : ∀ id < 32, ∀ id' < 32, id ≠ id' →
      macOf source base (baseMask mask) id ≠ macOf source base (baseMask mask) id') :
    LastOctetsDiffer source base (baseMask mask) := by
  intro hmbssid hhead hlast id id' hid hglobal hid' heq
  have hshift : macShift source _ = 0 := macShift_of_headD hhead
  have hnone : ∀ id, macListed source (baseMask mask) id = none := fun id => if_neg fun hlisted => by
    rw [hlisted.2.1] at hhead
    cases hhead
  have hadd : macKind source (baseMask mask) id = .add := by
    unfold macKind macType
    rw [hmbssid, if_neg Bool.false_ne_true, if_pos hid, ite_self]
  have hb5 : macKind source (baseMask mask) id' = .b5 := by
    unfold macKind macType
    rw [if_neg (by omega), hmbssid, if_neg Bool.false_ne_true, if_neg (by omega), hhead,
      if_neg (Nat.lt_irrefl 0), if_pos hlast]
  obtain ⟨a, b, c, d, e, f, hfrom, hlt⟩ := (macFrom source base (baseMask mask)).exists_octets
  refine h id (by omega) id' hid' (by omega) ?_
  unfold macOf macMade
  rw [hnone, hnone, hadd, hb5, hmbssid, hshift, hfrom]
  rw [hfrom] at heq
  exact (add_eq_b5_iff (by omega) (hlt f (by simp)) (by omega)).mpr heq

/-- The search tries all the addresses before it fails. -/
theorem taken_of_macaddrNext {wdevMacaddrs : List String} {list : MacaddrList} {val : ℤ}
    {reuse : Option String}
    (h : ((source.withFiles base mask).phydev wdevMacaddrs).macaddrNext list val reuse = none)
    {id : ℕ} (hid : id < 32) :
    list (macaddrJoin (macOf source base (baseMask mask) id)) ≠ none := by
  intro hfree
  have hgenerated : ∀ ids : List ℕ,
      generated ((source.withFiles base mask).phydev wdevMacaddrs).macaddrGenerate ids =
        ids.map fun id => macaddrJoin (macOf source base (baseMask mask) id) := by
    intro ids
    induction ids with
    | nil => rfl
    | cons id ids ih =>
      have hid : ((source.withFiles base mask).phydev wdevMacaddrs).macaddrGenerate id =
          some (macaddrJoin (macOf source base (baseMask mask) id)) :=
        congrArg (Option.map macaddrJoin) (macaddrGenerate_eq source base mask id)
      rw [generated, hid, List.map_cons, ← ih]
  have hmem : macaddrJoin (macOf source base (baseMask mask) id) ∈
      generated ((source.withFiles base mask).phydev wdevMacaddrs).macaddrGenerate
        (List.range 32) := by
    rw [hgenerated]
    exact List.mem_map_of_mem (List.mem_range.mpr hid)
  have hfound : ∃ mac, macaddrSearch
      ((source.withFiles base mask).phydev wdevMacaddrs).macaddrGenerate list reuse
        (List.range 32) none = some mac := macaddrSearch_of_free ⟨_, hmem, hfree⟩
  obtain ⟨mac, hmac⟩ := hfound
  rw [PhyDev.macaddrNext, hmac] at h
  cases h

end Generate

/-- The addresses are well formed, different and, where they are added to the base, the sums,
exactly when the numbers fit; the search fails only where all are taken in any case. -/
theorem macaddrGenerate_sound_iff (source : MacSource) (base mask : MacAddr) :
    GeneratesSoundly source base mask ↔ FitsOctets source base (baseMask mask) := by
  constructor
  · intro h
    have hunicast : ∀ id < 32, IsUnicast (macOf source base (baseMask mask) id) := by
      intro id hid
      obtain ⟨addr, haddr, haddr'⟩ := h.unicast id hid
      rw [macaddrGenerate_eq, Option.some_inj] at haddr
      exact haddr ▸ haddr'
    have hdistinct : ∀ id < 32, ∀ id' < 32, id ≠ id' →
        macOf source base (baseMask mask) id ≠ macOf source base (baseMask mask) id' := by
      intro id hid id' hid' hne heq
      refine h.distinct id hid id' hid' hne ?_
      rw [macaddrGenerate_eq, macaddrGenerate_eq, heq]
    refine ⟨fun id hid => ?_, shift_of_isUnicast hunicast,
      lastOctetsDiffer_of_distinct hdistinct, fun id hid id' hid' hne addr hlisted => ?_,
      fun id hid hlisted htype => ?_⟩
    · have hone := hunicast id hid
      unfold macOf at hone
      cases hlisted : macListed source (baseMask mask) id with
      | some addr =>
        rw [hlisted] at hone
        exact hone.even
      | none =>
        rw [hlisted] at hone
        exact (isUnicast_macMade_iff.mp hone).1
    · have hone := hdistinct id hid id' hid' hne
      rwa [macOf, hlisted] at hone
    · have hstart : macStart source base (baseMask mask) id =
          .base (macFrom source base (baseMask mask)) (id + macShift source (baseMask mask)) := by
        rw [macStart_eq, hlisted]
      refine (adds_iff htype).mp (h.adds id hid _ _ hstart htype _ ?_)
      rw [macaddrGenerate_eq, macOf, hlisted]
  · intro h
    refine ⟨fun id hid => ⟨_, macaddrGenerate_eq source base mask id, isUnicast_macOf h hid⟩,
      fun id hid id' hid' hne heq => ?_, fun id hid start idx hstart htype addr haddr => ?_,
      fun wdevMacaddrs list val reuse hnext id hid addr haddr => ?_⟩
    · rw [macaddrGenerate_eq, macaddrGenerate_eq, Option.some_inj] at heq
      cases hlisted : macListed source (baseMask mask) id with
      | some addr =>
        refine h.listed id hid id' hid' hne addr hlisted ?_
        rwa [macOf, hlisted] at heq
      | none =>
        cases hlisted' : macListed source (baseMask mask) id' with
        | some addr =>
          have hother : macOf source base (baseMask mask) id' = addr.octets := by
            rw [macOf, hlisted']
          exact h.listed id' hid' id hid hne.symm addr hlisted' (hother.symm.trans heq.symm)
        | none =>
          rw [macOf, macOf, hlisted, hlisted'] at heq
          exact macMade_ne h.lastOctets hid hid' hne heq
    · rw [macStart_eq] at hstart
      cases hlisted : macListed source (baseMask mask) id with
      | some addr =>
        rw [hlisted] at hstart
        cases hstart
      | none =>
        rw [hlisted] at hstart
        obtain ⟨rfl, rfl⟩ := MacStart.base.inj hstart
        rw [macaddrGenerate_eq, Option.some_inj, macOf, hlisted] at haddr
        rw [← haddr]
        exact (adds_iff htype).mpr (h.adds id hid hlisted htype)
    · rw [macaddrGenerate_eq, Option.some_inj] at haddr
      rw [← haddr]
      exact taken_of_macaddrNext hnext hid

/-- The base ends with the octet `ff`: two is carried where one should be. -/
theorem carried_twice : ¬ ∀ source base mask, GeneratesSoundly source base mask := by
  intro h
  have hadds := (h ⟨none, none, [], none, false, 4, none⟩
    ⟨[0, 17, 34, 51, 68, 255], rfl, by decide⟩ ⟨[0, 0, 0, 0, 0, 0], rfl, by decide⟩).adds 2
      (by decide) ⟨[0, 17, 34, 51, 68, 255], rfl, by decide⟩ 2 rfl rfl [0, 17, 34, 51, 70, 1] rfl
  exact absurd hadds (by decide)

end OpenWrt.Hostapd
