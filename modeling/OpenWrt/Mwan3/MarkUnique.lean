/-
# Which interfaces have a mark of their own

The mark of an interface is the number of its section in the configuration, spread
over the mask; the three largest numbers are the special marks. The scripts compute
how many interfaces fit and never compare it with how many there are. This module
says exactly when the marks are apart.

The mask is whatever the shell reads from the option: a number of 64 bits, of which
`mwan3_id2mask` uses the low 32 and `mwan3_count_one_bits` counts all, or none when
the number is negative.
-/

import OpenWrt.Mwan3.Marks

namespace OpenWrt.Mwan3

open OpenWrt.Lib

/-- What the marks depend on. -/
structure MarkConfig where
  /-- The interface sections in their order. -/
  ifaces : List String
  /-- UCI has one section of a name. -/
  nodup : ifaces.Nodup
  /-- `MMX_MASK`. -/
  mask : BitVec 64

namespace MarkConfig

/-- `mwan3_update_iface_to_table`. -/
def ifaceTable (config : MarkConfig) : List (String × ℕ) :=
  config.ifaces.zipIdx 1

/-- `mwan3_get_iface_id`, which cuts the table after the last entry of the name. -/
def ifaceId (config : MarkConfig) (name : String) : Option ℕ :=
  (config.ifaceTable.reverse.find? fun entry => entry.1 == name).map Prod.snd

/-- The bits of the mask that `mwan3_id2mask` looks at. -/
def markMask (config : MarkConfig) : BitVec 32 :=
  config.mask.setWidth 32

/-- The `iface_mark` of `mwan3_create_iface_nft`. -/
def ifaceMark (config : MarkConfig) (name : String) : Option (BitVec 32) :=
  (config.ifaceId name).map fun id => id2mask id config.markMask

/-- `bitcnt`: the loop that counts does not start on a negative number. -/
def bitcnt (config : MarkConfig) : ℕ :=
  countOneBits config.mask.toInt.toNat

/-- `mmdefault`. -/
def defaultId (config : MarkConfig) : Int :=
  2 ^ config.bitcnt - 1

/-- `MMX_DEFAULT`, `MMX_BLACKHOLE` and `MMX_UNREACHABLE`. -/
def specialMarks (config : MarkConfig) : List (BitVec 32) :=
  [config.defaultId, config.defaultId - 2, config.defaultId - 1].map (id2mask · config.markMask)

/-- The marks of the interfaces are apart from each other, from zero and from the
special marks, and inside the mask. -/
structure MarksUnique (config : MarkConfig) : Prop where
  distinct : ∀ a ∈ config.ifaces, ∀ b ∈ config.ifaces,
    config.ifaceMark a = config.ifaceMark b → a = b
  each : ∀ a ∈ config.ifaces, ∃ mark, config.ifaceMark a = some mark ∧ mark ≠ 0 ∧
    mark.setWidth 64 &&& ~~~config.mask = 0 ∧ mark ∉ config.specialMarks

/-! ## Numbers of sections -/

variable (config : MarkConfig)

theorem mem_ifaceTable {name : String} {id : ℕ} :
    (name, id) ∈ config.ifaceTable ↔ 1 ≤ id ∧ config.ifaces[id - 1]? = some name := by
  unfold ifaceTable
  rw [List.mem_zipIdx_iff_le_and_getElem?_sub]

/-- The table gives every interface its position. -/
theorem ifaceId_eq {i : ℕ} {name : String} (hname : config.ifaces[i]? = some name) :
    config.ifaceId name = some (i + 1) := by
  have hmem : (name, i + 1) ∈ config.ifaceTable :=
    config.mem_ifaceTable.mpr ⟨by omega, hname⟩
  unfold ifaceId
  cases hfound : config.ifaceTable.reverse.find? fun entry => entry.1 == name with
  | none =>
    have hno := List.find?_eq_none.mp hfound (name, i + 1) (List.mem_reverse.mpr hmem)
    exact absurd (beq_self_eq_true name) hno
  | some entry =>
    obtain ⟨found, id⟩ := entry
    obtain rfl : found = name := by simpa using List.find?_some hfound
    obtain ⟨hpos, hid⟩ := config.mem_ifaceTable.mp
      (List.mem_reverse.mp (List.mem_of_find?_eq_some hfound))
    have hlt : i < config.ifaces.length := (List.getElem?_eq_some_iff.mp hname).1
    have hsame : i = id - 1 := (List.getElem?_inj hlt config.nodup).mp (hname.trans hid.symm)
    rw [Option.map_some]
    congr 1
    dsimp only
    omega

theorem ifaceMark_eq {i : ℕ} {name : String} (hname : config.ifaces[i]? = some name) :
    config.ifaceMark name = some (id2mask ((i + 1 : ℕ) : Int) config.markMask) := by
  unfold ifaceMark
  rw [config.ifaceId_eq hname]
  rfl

/-! ## Marks as remainders -/

/-- The number of marks within the mask, with the zero mark. -/
def markCount : Int :=
  2 ^ rank config.markMask 32

theorem markCount_pos : 0 < config.markCount :=
  Int.pow_pos (by decide)

theorem id2mask_eq_iff {a b : Int} :
    id2mask a config.markMask = id2mask b config.markMask ↔
      a % config.markCount = b % config.markCount := by
  have hdeposit : ∀ x : Int, IsDeposit config.markMask (x % config.markCount)
      (id2mask x config.markMask) := fun x => isDeposit_emod.mpr (isDeposit_id2mask x _)
  constructor
  · intro hsame
    exact (hsame ▸ isDeposit_id2mask a config.markMask).emod_eq (isDeposit_id2mask b _)
  · intro hsame
    exact (hsame ▸ hdeposit a).unique (hdeposit b)

/-- Where the default number stands below a multiple of the number of marks. -/
def defaultRem : Int :=
  if config.mask.msb then 0 else -1

/-- The count of a number that is not negative has the bits of the marks. -/
theorem rank_markMask_le (hmask : config.mask.msb = false) :
    rank config.markMask 32 ≤ config.bitcnt := by
  have hnat : config.mask.toInt.toNat = config.mask.toNat := by
    rw [BitVec.toInt_eq_toNat_of_msb hmask, Int.toNat_natCast]
  unfold bitcnt countOneBits
  rw [hnat, countOneBitsLoop_eq (Nat.le_refl _) config.mask.isLt, Nat.zero_add]
  refine Nat.le_trans (Nat.count_mono_left fun i hi hbit => ?_)
    (Nat.count_monotone _ (show 32 ≤ 64 by decide))
  unfold markMask at hbit
  rw [BitVec.getLsbD_setWidth] at hbit
  exact (Bool.and_eq_true_iff.mp hbit).2

/-- The special numbers, up to a multiple of the number of marks. -/
theorem defaultId_eq : ∃ q, config.defaultId = config.defaultRem + config.markCount * q := by
  unfold defaultId defaultRem
  cases hmask : config.mask.msb with
  | true =>
    have hneg : config.mask.toInt.toNat = 0 :=
      Int.toNat_of_nonpos (BitVec.toInt_neg_of_msb_true hmask).le
    have hnone : config.bitcnt = 0 := by
      unfold bitcnt
      rw [hneg]
      rfl
    exact ⟨0, by rw [hnone]; rfl⟩
  | false =>
    obtain ⟨d, hd⟩ := Nat.exists_eq_add_of_le (config.rank_markMask_le hmask)
    refine ⟨2 ^ d, ?_⟩
    rw [hd, pow_add]
    unfold markCount
    simp only [Bool.false_eq_true, if_false]
    omega

/-- The number of a special mark, below the number of marks. -/
theorem special_emod {j y : Int} (hlow : 0 ≤ y) (hhigh : y < config.markCount)
    (hy : y = config.defaultRem - j ∨ y = config.defaultRem - j + config.markCount) :
    (config.defaultId - j) % config.markCount = y := by
  obtain ⟨q, hq⟩ := config.defaultId_eq
  rcases hy with hy | hy
  · have hsum : config.defaultId - j = y + config.markCount * q := by omega
    rw [hsum, Int.add_mul_emod_self_left, Int.emod_eq_of_lt hlow hhigh]
  · have hsum : config.defaultId - j = y + config.markCount * (q - 1) := by
      rw [mul_sub, mul_one]
      omega
    rw [hsum, Int.add_mul_emod_self_left, Int.emod_eq_of_lt hlow hhigh]

theorem mem_specialMarks {mark : BitVec 32} : mark ∈ config.specialMarks ↔
    ∃ j : Int, 0 ≤ j ∧ j ≤ 2 ∧ id2mask (config.defaultId - j) config.markMask = mark := by
  unfold specialMarks
  rw [List.mem_map]
  constructor
  · rintro ⟨id, hid, rfl⟩
    simp only [List.mem_cons, List.not_mem_nil, or_false] at hid
    rcases hid with rfl | rfl | rfl
    · exact ⟨0, by decide, by decide, by rw [sub_zero]⟩
    · exact ⟨2, by decide, by decide, rfl⟩
    · exact ⟨1, by decide, by decide, rfl⟩
  · rintro ⟨j, hlow, hhigh, rfl⟩
    refine ⟨_, ?_, rfl⟩
    have hj : j = 0 ∨ j = 2 ∨ j = 1 := by omega
    rcases hj with rfl | rfl | rfl <;> simp

/-! ## When the marks are apart -/

/-- The number of interfaces that have room below the special marks. -/
def room : Int :=
  config.markCount - 3 + config.defaultRem

theorem defaultRem_cases : config.defaultRem = 0 ∨ config.defaultRem = -1 := by
  unfold defaultRem
  split
  · exact .inl rfl
  · exact .inr rfl

theorem mark_apart_of_le_room {id : Int} (hpos : 0 < id) (hroom : id ≤ config.room) :
    id2mask id config.markMask ≠ 0 ∧ id2mask id config.markMask ∉ config.specialMarks := by
  have hcount := config.markCount_pos
  have hrem := config.defaultRem_cases
  unfold room at hroom
  have hid : id % config.markCount = id := Int.emod_eq_of_lt hpos.le (by omega)
  constructor
  · intro hzero
    rw [← id2mask_zero config.markMask, config.id2mask_eq_iff, hid, Int.zero_emod] at hzero
    omega
  · intro hspecial
    obtain ⟨j, hlow, hhigh, hsame⟩ := config.mem_specialMarks.mp hspecial
    rw [config.id2mask_eq_iff, hid] at hsame
    -- a special number is at the top, or at zero for a negative mask
    by_cases hnonneg : 0 ≤ config.defaultRem - j
    · have hspecial := config.special_emod (j := j) hnonneg (by omega) (.inl rfl)
      omega
    · have hspecial := config.special_emod (j := j) (y := config.defaultRem - j + config.markCount)
        (by omega) (by omega) (.inr rfl)
      omega

/-- The first number without room has a mark that is zero or special. -/
theorem exists_mark_meets {n : Int} (hroom : config.room < n)
    (hpos : 0 < n) :
    ∃ id : ℕ, 0 < id ∧ (id : Int) ≤ n ∧
      (id2mask id config.markMask = 0 ∨ id2mask id config.markMask ∈ config.specialMarks) := by
  have hcount := config.markCount_pos
  have hrem := config.defaultRem_cases
  have hmeets : ∀ {id : ℕ} {j : Int}, 0 ≤ j → j ≤ 2 → (id : Int) < config.markCount →
      (id : Int) = config.defaultRem - j + config.markCount →
        id2mask id config.markMask ∈ config.specialMarks := by
    intro id j hlow hhigh hlt hid
    refine config.mem_specialMarks.mpr ⟨j, hlow, hhigh, config.id2mask_eq_iff.mpr ?_⟩
    rw [Int.emod_eq_of_lt (by omega) hlt, config.special_emod (by omega) hlt (.inr hid)]
  unfold room at hroom
  by_cases hone : config.markCount = 1
  · -- every mark is zero
    refine ⟨1, by decide, by omega, .inl ?_⟩
    rw [← id2mask_zero config.markMask, config.id2mask_eq_iff, hone, Int.emod_one, Int.emod_one]
  · by_cases htwo : config.markCount = 2
    · refine ⟨1, by decide, by omega, .inr ?_⟩
      exact hmeets (j := config.defaultRem + 1) (by omega) (by omega) (by omega) (by omega)
    · -- the lowest special number is positive
      have heven : ∃ r : ℕ, config.markCount = 2 ^ r := ⟨_, rfl⟩
      obtain ⟨r, hr⟩ := heven
      have hthree : config.markCount ≠ 3 := by
        intro hthree
        rw [hthree] at hr
        cases r with
        | zero => omega
        | succ r =>
          rw [pow_succ] at hr
          omega
      refine ⟨(config.defaultRem - 2 + config.markCount).toNat, by omega, by omega, .inr ?_⟩
      exact hmeets (j := 2) (by decide) (by decide) (by omega) (by omega)

/-- The marks of the interfaces are unique exactly when there is room for them. -/
theorem marksUnique_iff :
    config.MarksUnique ↔
      config.ifaces = [] ∨ (config.ifaces.length : Int) ≤ config.room := by
  constructor
  · intro hunique
    by_contra hnone
    obtain ⟨hne, hroom⟩ := not_or.mp hnone
    have hpos : 0 < config.ifaces.length := List.length_pos_iff.mpr hne
    obtain ⟨id, hid, hle, hmeets⟩ :=
      config.exists_mark_meets (n := config.ifaces.length) (by omega) (by omega)
    have hlt : id - 1 < config.ifaces.length := by omega
    have hname : config.ifaces[id - 1]? = some config.ifaces[id - 1] :=
      List.getElem?_eq_getElem hlt
    obtain ⟨mark, hmark, hzero, -, hspecial⟩ := hunique.each _ (List.getElem_mem hlt)
    rw [config.ifaceMark_eq hname, Nat.sub_add_cancel hid, Option.some.injEq] at hmark
    subst hmark
    exact hmeets.elim hzero hspecial
  · intro hroom
    have hbound : ∀ {i : ℕ} {name : String}, config.ifaces[i]? = some name →
        ((i + 1 : ℕ) : Int) ≤ config.room := by
      intro i name hname
      have hlt : i < config.ifaces.length := (List.getElem?_eq_some_iff.mp hname).1
      rcases hroom with hnil | hroom
      · rw [hnil, List.length_nil] at hlt
        omega
      · omega
    constructor
    · intro a ha b hb hsame
      obtain ⟨i, hi⟩ := List.mem_iff_getElem?.mp ha
      obtain ⟨j, hj⟩ := List.mem_iff_getElem?.mp hb
      rw [config.ifaceMark_eq hi, config.ifaceMark_eq hj, Option.some.injEq,
        config.id2mask_eq_iff] at hsame
      have hrem := config.defaultRem_cases
      have hi' := hbound hi
      have hj' := hbound hj
      unfold room at hi' hj'
      rw [Int.emod_eq_of_lt (by omega) (by omega), Int.emod_eq_of_lt (by omega) (by omega)] at hsame
      obtain rfl : i = j := by omega
      exact Option.some.inj (hi.symm.trans hj)
    · intro a ha
      obtain ⟨i, hi⟩ := List.mem_iff_getElem?.mp ha
      obtain ⟨hzero, hspecial⟩ := config.mark_apart_of_le_room (by omega) (hbound hi)
      refine ⟨_, config.ifaceMark_eq hi, hzero, ?_, hspecial⟩
      apply BitVec.eq_of_getLsbD_eq
      intro bit hbit
      have hin := isDeposit_id2mask ((i + 1 : ℕ) : Int) config.markMask
      have hzero : (0 : BitVec 64).getLsbD bit = false := BitVec.getLsbD_zero
      rw [BitVec.getLsbD_and, BitVec.getLsbD_setWidth, BitVec.getLsbD_not, hzero,
        decide_eq_true hbit, Bool.true_and, Bool.true_and]
      by_cases hlow : bit < 32
      · rw [hin bit hlow]
        unfold markMask
        rw [BitVec.getLsbD_setWidth, decide_eq_true hlow, Bool.true_and]
        cases config.mask.getLsbD bit <;> simp
      · rw [BitVec.getLsbD_of_ge _ _ (by omega), Bool.false_and]

/-- A mask with three bits, as the comment on the mask asks for, and five
interfaces: the fifth has the mark of the blackhole. -/
theorem not_marksUnique_of_five :
    ∃ config : MarkConfig, config.ifaces = ["a", "b", "c", "d", "e"] ∧ config.mask = 0x700 ∧
      config.ifaceMark "e" = some 0x500 ∧ 0x500 ∈ config.specialMarks ∧ ¬ config.MarksUnique := by
  let config : MarkConfig := ⟨["a", "b", "c", "d", "e"], by decide, 0x700⟩
  have hmark : config.ifaceMark "e" = some 0x500 := by decide +kernel
  have hspecial : 0x500 ∈ config.specialMarks := by decide +kernel
  refine ⟨config, rfl, rfl, hmark, hspecial, fun hunique => ?_⟩
  obtain ⟨mark, hsome, -, -, hapart⟩ := hunique.each "e" (by decide)
  rw [hmark, Option.some.injEq] at hsome
  exact hapart (hsome ▸ hspecial)

end MarkConfig

end OpenWrt.Mwan3
