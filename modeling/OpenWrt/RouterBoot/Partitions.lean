/-
# The partitions of a RouterBOOT device

`routerboot_partitions_parse` goes once over the nodes of the device tree. A node has a place of its
own, or the one of a known partition that the scan has found, or it starts where the last one ends;
a partition without a size ends where the next one starts. The sums of offsets and sizes are made in
a `size_t`, the ones of the partitions in 64 bits.
-/

import OpenWrt.RouterBoot.DynParts

namespace OpenWrt.RouterBoot

open OpenWrt.Lib

/-! ## The parser -/

/-- A node of the device tree: its name, the cells of `reg` and of `size`, the numbers of cells for
an address and a size, and the two flags. -/
structure PartNode where
  partname : String
  reg : Option (List (BitVec 32))
  sz : Option (List (BitVec 32))
  aCells : ℕ
  sCells : ℕ
  readOnly : Bool
  lock : Bool

/-- An `mtd_partition`. -/
structure Partition where
  name : String
  offset : ℕ
  size : ℕ
  readOnly : Bool
  lock : Bool

/-- `of_read_number`. -/
def ofReadNumber (cells : List (BitVec 32)) : ℕ :=
  (cells.foldl (fun (r : BitVec 64) cell => r <<< 32 ||| cell.setWidth 64) 0).toNat

namespace Master

variable (m : Master)

/-- The offset and the size of a node, unless its cells do not fit. -/
def place (dynparts : List DynPart) (masterOfs : ℕ) (pp : PartNode) : Option (ℕ × ℕ) :=
  match pp.reg with
  | some reg =>
    if reg.length ≠ pp.aCells + pp.sCells then none
    else some (ofReadNumber (reg.take pp.aCells) % 2 ^ m.sizeBits,
      ofReadNumber (reg.drop pp.aCells) % 2 ^ m.sizeBits)
  | none =>
    let (offset, size) :=
      match dynparts.find? fun part => pp.partname = part.name ∧ part.found with
      -- The numbers of the table are of the type `size_t`.
      | some part => (part.offset % 2 ^ m.sizeBits, part.size % 2 ^ m.sizeBits)
      | none => (masterOfs, 0)
    match pp.sz with
    | none => some (offset, size)
    | some sz =>
      if sz.length ≠ pp.sCells then none
      else some (offset, ofReadNumber sz % 2 ^ m.sizeBits)

/-- `offset + size`. -/
def sum (offset size : ℕ) : ℕ := (offset + size) % 2 ^ m.sizeBits

/-- `ALIGN(offset + size, RB_BLOCK_SIZE)`. -/
def nextOfs (offset size : ℕ) : ℕ :=
  (m.sum offset size + (rbBlockSize - 1)) / rbBlockSize * rbBlockSize % 2 ^ m.sizeBits

/-- The partitions before, the last one first, with the end of the last one, unless it overlaps. -/
def fixPrevious (offset : ℕ) : List Partition → Option (List Partition)
  | [] => some []
  | last :: before =>
    if offset < (last.offset + last.size) % 2 ^ 64 then none
    else if last.size = 0 then some ({ last with size := offset - last.offset } :: before)
    else some (last :: before)

/-- The loop over the nodes, with the partitions so far, the last one first. -/
def parseNodes (dynparts : List DynPart) :
    List Partition → ℕ → List PartNode → Option (List Partition)
  | parts, _, [] => some parts.reverse
  | parts, masterOfs, pp :: nodes =>
    match m.place dynparts masterOfs pp with
    | none => none
    | some (offset, size) =>
      match fixPrevious offset parts with
      | none => none
      | some parts =>
        if m.size < m.sum offset size then none
        else parseNodes dynparts (⟨pp.partname, offset, size, pp.readOnly, pp.lock⟩ :: parts)
          (m.nextOfs offset size) nodes

/-- `routerboot_partitions_parse` after the scan. -/
def parse (dynparts : List DynPart) (nodes : List PartNode) : Option (List Partition) :=
  m.parseNodes dynparts [] 0 nodes

/-- The partitions are in ascending order, do not overlap, and are inside the master device. -/
structure Proper (parts : List Partition) : Prop where
  ascending : parts.Pairwise fun a b => a.offset + a.size ≤ b.offset
  inside : ∀ part ∈ parts, part.offset + part.size ≤ m.size

/-- The scan ends, and the partitions that are returned are proper. -/
structure Correct (table : List DynPart) (nodes : List PartNode) : Prop where
  ends : Loop.Ends m.turn (start table)
  proper : ∀ found parts, m.Finds table found → m.parse found nodes = some parts → m.Proper parts

def places (dynparts : List DynPart) : ℕ → List PartNode → Option (List (ℕ × ℕ))
  | _, [] => some []
  | masterOfs, pp :: nodes => do
      let p ← m.place dynparts masterOfs pp
      let rest ← places dynparts (m.nextOfs p.1 p.2) nodes
      return p :: rest

/-- No place ends behind the device and behind what a `size_t` can count. -/
def Counted (dynparts : List DynPart) (nodes : List PartNode) : Prop :=
  ∀ ps, m.places dynparts 0 nodes = some ps → ∀ p ∈ ps, p.1 + p.2 < 2 ^ m.sizeBits ∨ p.1 + p.2 ≤ m.size

end Master

/-! ## The places -/

namespace Master

variable {m : Master} {dynparts : List DynPart} {masterOfs : ℕ}

theorem place_lt {pp : PartNode} {p : ℕ × ℕ} (hofs : masterOfs < 2 ^ m.sizeBits)
    (h : m.place dynparts masterOfs pp = some p) : p.1 < 2 ^ m.sizeBits ∧ p.2 < 2 ^ m.sizeBits := by
  have hmod : ∀ n, n % 2 ^ m.sizeBits < 2 ^ m.sizeBits := fun n => Nat.mod_lt n (Nat.two_pow_pos _)
  unfold place at h
  cases hreg : pp.reg with
  | some reg =>
    rw [hreg] at h
    dsimp only at h
    split at h
    case isTrue => cases h
    case isFalse =>
      obtain rfl := Option.some.inj h
      exact ⟨hmod _, hmod _⟩
  | none =>
    rw [hreg] at h
    dsimp only at h
    generalize hdefault : (match dynparts.find? fun part => pp.partname = part.name ∧ part.found with
      | some part => (part.offset % 2 ^ m.sizeBits, part.size % 2 ^ m.sizeBits)
      | none => (masterOfs, 0)) = place at h
    have hplace : place.1 < 2 ^ m.sizeBits ∧ place.2 < 2 ^ m.sizeBits := by
      rw [← hdefault]
      split
      · exact ⟨hmod _, hmod _⟩
      · exact ⟨hofs, Nat.two_pow_pos _⟩
    cases hsz : pp.sz with
    | none =>
      rw [hsz] at h
      obtain rfl := Option.some.inj h
      exact hplace
    | some sz =>
      rw [hsz] at h
      dsimp only at h
      split at h
      case isTrue => cases h
      case isFalse =>
        obtain rfl := Option.some.inj h
        exact ⟨hplace.1, hmod _⟩

theorem nextOfs_lt (m : Master) (offset size : ℕ) : m.nextOfs offset size < 2 ^ m.sizeBits :=
  Nat.mod_lt _ (Nat.two_pow_pos _)

variable {nodes : List PartNode} {parts result : List Partition}

theorem places_cons {pp : PartNode} {ps : List (ℕ × ℕ)} :
    m.places dynparts masterOfs (pp :: nodes) = some ps ↔
      ∃ p rest, m.place dynparts masterOfs pp = some p ∧
        m.places dynparts (m.nextOfs p.1 p.2) nodes = some rest ∧ ps = p :: rest := by
  rw [places, Option.bind_eq_bind, Option.bind_eq_some_iff]
  constructor
  · rintro ⟨p, hp, h⟩
    rw [Option.bind_eq_bind, Option.bind_eq_some_iff] at h
    obtain ⟨rest, hrest, heq⟩ := h
    exact ⟨p, rest, hp, hrest, (Option.some.inj heq).symm⟩
  · rintro ⟨p, rest, hp, hrest, rfl⟩
    refine ⟨p, hp, ?_⟩
    rw [Option.bind_eq_bind, Option.bind_eq_some_iff]
    exact ⟨rest, hrest, rfl⟩

theorem places_lt {ps : List (ℕ × ℕ)} (hofs : masterOfs < 2 ^ m.sizeBits)
    (h : m.places dynparts masterOfs nodes = some ps) : ∀ p ∈ ps, p.1 < 2 ^ m.sizeBits := by
  induction nodes generalizing masterOfs ps with
  | nil =>
    obtain rfl := Option.some.inj h
    exact fun p hp => absurd hp List.not_mem_nil
  | cons pp nodes ih =>
    obtain ⟨p, rest, hp, hrest, rfl⟩ := places_cons.mp h
    rw [List.forall_mem_cons]
    exact ⟨(place_lt hofs hp).1, ih (m.nextOfs_lt _ _) hrest⟩

/-! ## The loop over the nodes -/

/-- The partitions so far, the last one first. -/
structure Below (m : Master) (parts : List Partition) (bound : ℕ) : Prop where
  descending : parts.Pairwise fun b a => a.offset + a.size ≤ b.offset
  below : ∀ part ∈ parts, part.offset + part.size ≤ bound

/-- The partitions before a place end there. -/
theorem Below.fixPrevious {parts parts' : List Partition} {offset : ℕ} (h : m.Below parts m.size)
    (hfix : Master.fixPrevious offset parts = some parts') : m.Below parts' offset := by
  have hsize := m.size_lt
  cases parts with
  | nil =>
    obtain rfl := Option.some.inj hfix
    exact ⟨.nil, fun part hpart => absurd hpart List.not_mem_nil⟩
  | cons last before =>
    obtain ⟨hlast, hbefore⟩ := List.pairwise_cons.mp h.descending
    have hend := h.below last List.mem_cons_self
    unfold Master.fixPrevious at hfix
    dsimp only at hfix
    rw [Nat.mod_eq_of_lt (by omega)] at hfix
    by_cases hover : offset < last.offset + last.size
    · rw [if_pos hover] at hfix
      cases hfix
    · rw [if_neg hover] at hfix
      by_cases hzero : last.size = 0
      · rw [if_pos hzero] at hfix
        obtain rfl := Option.some.inj hfix
        refine ⟨List.pairwise_cons.mpr ⟨hlast, hbefore⟩, ?_⟩
        rw [List.forall_mem_cons]
        dsimp only
        refine ⟨by omega, fun part hpart => ?_⟩
        have hle := hlast part hpart
        omega
      · rw [if_neg hzero] at hfix
        obtain rfl := Option.some.inj hfix
        refine ⟨h.descending, ?_⟩
        rw [List.forall_mem_cons]
        refine ⟨by omega, fun part hpart => ?_⟩
        have hle := hlast part hpart
        omega

theorem mem_fixPrevious {parts parts' : List Partition} {offset : ℕ}
    (hfix : Master.fixPrevious offset parts = some parts') {part : Partition} (hpart : part ∈ parts)
    (hsize : part.size ≠ 0) : part ∈ parts' := by
  cases parts with
  | nil => cases hpart
  | cons last before =>
    unfold Master.fixPrevious at hfix
    dsimp only at hfix
    split at hfix
    case isTrue => cases hfix
    case isFalse =>
      split at hfix
      case isTrue hzero =>
        obtain rfl := Option.some.inj hfix
        rcases List.mem_cons.mp hpart with rfl | hbefore
        · exact absurd hzero hsize
        · exact List.mem_cons_of_mem _ hbefore
      case isFalse =>
        obtain rfl := Option.some.inj hfix
        exact hpart

/-- One node of a loop that succeeds. -/
theorem parseNodes_cons {pp : PartNode}
    (h : m.parseNodes dynparts parts masterOfs (pp :: nodes) = some result) :
    ∃ p parts', m.place dynparts masterOfs pp = some p ∧ fixPrevious p.1 parts = some parts' ∧
      m.sum p.1 p.2 ≤ m.size ∧
      m.parseNodes dynparts (⟨pp.partname, p.1, p.2, pp.readOnly, pp.lock⟩ :: parts')
        (m.nextOfs p.1 p.2) nodes = some result := by
  rw [parseNodes] at h
  cases hp : m.place dynparts masterOfs pp with
  | none =>
    rw [hp] at h
    cases h
  | some p =>
    rw [hp] at h
    dsimp only at h
    cases hfix : fixPrevious p.1 parts with
    | none =>
      rw [hfix] at h
      cases h
    | some parts' =>
      rw [hfix] at h
      dsimp only at h
      by_cases hover : m.size < m.sum p.1 p.2
      · rw [if_pos hover] at h
        cases h
      · rw [if_neg hover] at h
        exact ⟨p, parts', rfl, hfix, Nat.le_of_not_lt hover, h⟩

/-- A loop that succeeds has placed all nodes, and keeps the partitions with a size. -/
theorem exists_places (h : m.parseNodes dynparts parts masterOfs nodes = some result) :
    ∃ ps, m.places dynparts masterOfs nodes = some ps ∧
      (∀ part ∈ parts, part.size ≠ 0 → part ∈ result) ∧
      ∀ p ∈ ps, p.2 ≠ 0 → ∃ part ∈ result, part.offset = p.1 ∧ part.size = p.2 := by
  induction nodes generalizing parts masterOfs with
  | nil =>
    obtain rfl := Option.some.inj h
    exact ⟨[], rfl, fun part hpart _ => List.mem_reverse.mpr hpart,
      fun p hp => absurd hp List.not_mem_nil⟩
  | cons pp nodes ih =>
    obtain ⟨p, parts', hp, hfix, -, hrest⟩ := parseNodes_cons h
    obtain ⟨ps, hps, hkeep, hsizes⟩ := ih hrest
    refine ⟨p :: ps, places_cons.mpr ⟨p, ps, hp, hps, rfl⟩, fun part hpart hsize => ?_, ?_⟩
    · exact hkeep part (List.mem_cons_of_mem _ (mem_fixPrevious hfix hpart hsize)) hsize
    · rw [List.forall_mem_cons]
      exact ⟨fun hsize => ⟨_, hkeep _ List.mem_cons_self hsize, rfl, rfl⟩, hsizes⟩

/-- The partitions are proper when no sum is cut. -/
theorem proper_of_counted (hparts : m.Below parts m.size)
    (h : m.parseNodes dynparts parts masterOfs nodes = some result)
    (hcounted : ∀ ps, m.places dynparts masterOfs nodes = some ps →
      ∀ p ∈ ps, p.1 + p.2 < 2 ^ m.sizeBits ∨ p.1 + p.2 ≤ m.size) : m.Proper result := by
  induction nodes generalizing parts masterOfs with
  | nil =>
    obtain rfl := Option.some.inj h
    refine ⟨List.pairwise_reverse.mpr hparts.descending, fun part hpart => ?_⟩
    exact hparts.below part (List.mem_reverse.mp hpart)
  | cons pp nodes ih =>
    obtain ⟨p, parts', hp, hfix, hsum, hrest⟩ := parseNodes_cons h
    obtain ⟨ps, hps, -, -⟩ := exists_places hrest
    have hps' : m.places dynparts masterOfs (pp :: nodes) = some (p :: ps) :=
      places_cons.mpr ⟨p, ps, hp, hps, rfl⟩
    have hle : p.1 + p.2 ≤ m.size := by
      rcases hcounted _ hps' p List.mem_cons_self with hlt | hle
      · unfold sum at hsum
        rwa [Nat.mod_eq_of_lt hlt] at hsum
      · exact hle
    have hbelow := hparts.fixPrevious hfix
    have hnext : m.Below (⟨pp.partname, p.1, p.2, pp.readOnly, pp.lock⟩ :: parts') m.size := by
      refine ⟨List.pairwise_cons.mpr ⟨hbelow.below, hbelow.descending⟩, ?_⟩
      rw [List.forall_mem_cons]
      refine ⟨hle, fun part hpart => ?_⟩
      have hend := hbelow.below part hpart
      omega
    refine ih hnext hrest fun ps' hps'' q hq => ?_
    exact hcounted _ (places_cons.mpr ⟨p, ps', hp, hps'', rfl⟩) q (List.mem_cons_of_mem p hq)

theorem proper_iff {parts : List Partition} (h : m.parse dynparts nodes = some parts) :
    m.Proper parts ↔ m.Counted dynparts nodes := by
  constructor
  · intro hproper ps hps p hp
    by_cases hzero : p.2 = 0
    · have hlt := places_lt (Nat.two_pow_pos _) hps p hp
      left
      omega
    · obtain ⟨ps', hps', -, hsizes⟩ := exists_places h
      obtain rfl : ps' = ps := Option.some.inj (hps'.symm.trans hps)
      obtain ⟨part, hpart, hoffset, hsize⟩ := hsizes p hp hzero
      have hinside := hproper.inside part hpart
      right
      omega
  · exact proper_of_counted ⟨.nil, fun part hpart => absurd hpart List.not_mem_nil⟩ h

/-- The scan ends and the partitions are proper exactly when the scan can be made and no sum of an
offset and a size is cut. -/
theorem correct_iff_readable (m : Master) (table : List DynPart) (nodes : List PartNode) :
    m.Correct table nodes ↔
      m.Readable table ∧ ∀ found parts, m.Finds table found → m.parse found nodes = some parts →
        m.Counted found nodes := by
  constructor
  · intro h
    exact ⟨(m.ends_iff table).mp h.ends, fun found parts hfinds hparse =>
      (proper_iff hparse).mp (h.proper found parts hfinds hparse)⟩
  · rintro ⟨hreadable, hcounted⟩
    exact ⟨(m.ends_iff table).mpr hreadable, fun found parts hfinds hparse =>
      (proper_iff hparse).mpr (hcounted found parts hfinds hparse)⟩

/-- A device of one block that cannot be read. -/
def unreadable : Master where
  sizeBits := 32
  size := 0x1000
  word _ := 0
  totalsize _ := 0
  fails _ := true
  le_sizeBits := by decide
  sizeBits_le := by decide
  size_lt := by decide

def hardConfigNode : PartNode where
  partname := "hard_config"
  reg := none
  sz := none
  aCells := 1
  sCells := 1
  readOnly := true
  lock := false

theorem not_correct_unreadable :
    ¬ ∀ (m : Master) (table : List DynPart) (nodes : List PartNode), m.Correct table nodes := by
  intro h
  have hends := (h unreadable (rbDynparts false) [hardConfigNode]).ends
  have hreadable := (unreadable.ends_iff (rbDynparts false)).mp hends
  obtain ⟨n, -, hn⟩ := hreadable.read (start (rbDynparts false)) (.refl _) (by decide)
  cases hn

end Master

end OpenWrt.RouterBoot
