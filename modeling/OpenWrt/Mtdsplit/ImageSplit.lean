/-
# The partitions of an image

The size in the header of an image is checked against the device in the type `size_t`, so that an
image in front of which there is a root file system may wrap around. When the image of the last
block is too large its size is kept, and the kernel is put behind the device. And behind an image
at the start the search for the root file system may come around to the start.

Where nothing of this happens the partitions are right, and nothing else goes wrong.
-/

import OpenWrt.Mtdsplit.Image

namespace OpenWrt.Mtdsplit

open Lib Relation
open Master (Split)

/-- The partitions are not empty, inside of the device, and apart. -/
structure Master.Split.Valid (s : Split) (m : Master) : Prop where
  kernel_pos : 0 < s.kernel.size
  rootfs_pos : 0 < s.rootfs.size
  kernel_inside : s.kernel.offset + s.kernel.size ≤ m.size
  rootfs_inside : s.rootfs.offset + s.rootfs.size ≤ m.size
  disjoint : s.kernel.offset + s.kernel.size ≤ s.rootfs.offset ∨
    s.rootfs.offset + s.rootfs.size ≤ s.kernel.offset

namespace Master

variable (m : Master) (fmt : Format)

/-- Whatever is returned is right. -/
def SplitsRight : Prop := ∀ fuel s, m.parseImage fmt fuel = some (.ok s) → s.Valid m

/-! ## The condition -/

/-- There is an image at an offset, whose end as a `size_t` is not behind the device. -/
def Accepts (offset imageSize : ℕ) : Prop :=
  offset < m.size ∧ m.header fmt offset = some imageSize ∧ m.sizeT (offset + imageSize) ≤ m.size

/-- There is none at an offset, and then the next block is looked at. -/
def Passes (offset next : ℕ) : Prop :=
  offset < m.size ∧ (∀ imageSize, ¬ m.Accepts fmt offset imageSize) ∧
    next = m.sizeT (offset + m.erasesize)

/-- A root file system is at an offset. -/
def HasRootfs (offset : ℕ) : Prop := ∃ type, m.checkRootfsMagic offset = .ok type

/-- None is at an offset, and then the next block is looked at. -/
def Misses (limit offset next : ℕ) : Prop :=
  offset < limit ∧ ¬ m.HasRootfs offset ∧ next = m.nextEb offset

/-- The images that the device has are such that the partitions are right. -/
structure ImageFits : Prop where
  /-- An image behind a root file system ends in the device. -/
  inside : ∀ offset imageSize, ReflTransGen (m.Passes fmt) 0 offset →
    m.Accepts fmt offset imageSize → offset ≠ 0 → imageSize ≠ 0 → m.HasRootfs 0 →
      offset + imageSize ≤ m.size
  /-- When there is no image, the last block has no header of one that is too large. -/
  last : ∀ offset next imageSize, ReflTransGen (m.Passes fmt) 0 offset → m.Passes fmt offset next →
    m.size ≤ next → m.header fmt offset = some imageSize → imageSize ≠ 0 → ¬ m.HasRootfs 0
  /-- The root file system behind an image at the start is not found at the start. -/
  back : ∀ imageSize, m.Accepts fmt 0 imageSize → imageSize ≠ 0 → m.HasRootfs 0 →
    0 < m.sizeT m.size → ¬ ReflTransGen (m.Misses (m.sizeT m.size)) (m.sizeT imageSize) 0

variable {m fmt} {offset next imageSize last limit : ℕ}

/-! ## The blocks -/

theorem imageRound_of_passes (h : m.Passes fmt offset next) :
    m.imageRound fmt (offset, last) = .inl (next, (m.header fmt offset).getD 0) := by
  obtain ⟨hlt, hnone, rfl⟩ := h
  unfold imageRound
  dsimp only
  rw [if_pos hlt]
  cases hheader : m.header fmt offset with
  | none => rfl
  | some imageSize => exact if_pos (Nat.lt_of_not_le fun hle => hnone imageSize ⟨hlt, hheader, hle⟩)

theorem imageRound_of_accepts (h : m.Accepts fmt offset imageSize) :
    m.imageRound fmt (offset, last) = .inr (offset, imageSize) := by
  obtain ⟨hlt, hheader, hle⟩ := h
  unfold imageRound
  dsimp only
  rw [if_pos hlt, hheader]
  exact if_neg (Nat.not_lt.mpr hle)

theorem imageRound_of_le (h : m.size ≤ offset) :
    m.imageRound fmt (offset, last) = .inr (offset, last) := if_neg (Nat.not_lt.mpr h)

theorem passes_or_accepts (fmt : Format) (offset : ℕ) : (∃ next, m.Passes fmt offset next) ∨
    (∃ imageSize, m.Accepts fmt offset imageSize) ∨ m.size ≤ offset := by
  by_cases hlt : offset < m.size
  · by_cases haccepts : ∃ imageSize, m.Accepts fmt offset imageSize
    · exact .inr (.inl haccepts)
    · exact .inl ⟨_, hlt, fun imageSize h => haccepts ⟨imageSize, h⟩, rfl⟩
  · exact .inr (.inr (Nat.le_of_not_lt hlt))

/-- The size that is kept is that of an image which is too large. -/
def Kept (m : Master) (fmt : Format) (s : ℕ × ℕ) : Prop :=
  ReflTransGen (m.Passes fmt) 0 s.1 ∧ (s.2 ≠ 0 → ∃ prev, ReflTransGen (m.Passes fmt) 0 prev ∧
    m.Passes fmt prev s.1 ∧ m.header fmt prev = some s.2)

theorem kept_of_reaches {s : ℕ × ℕ} (h : Loop.Reaches (m.imageRound fmt) (0, 0) s) :
    Kept m fmt s := by
  refine h.invariant (P := Kept m fmt) ?_ ⟨.refl, fun h => absurd rfl h⟩
  rintro ⟨offset, last⟩ s ⟨hreach, -⟩ hround
  rcases passes_or_accepts fmt offset with ⟨next, hpasses⟩ | ⟨imageSize, haccepts⟩ | hle
  · rw [imageRound_of_passes hpasses] at hround
    cases hround
    refine ⟨hreach.tail hpasses, fun hne => ⟨offset, hreach, hpasses, ?_⟩⟩
    change (m.header fmt offset).getD 0 ≠ 0 at hne
    change m.header fmt offset = some ((m.header fmt offset).getD 0)
    cases hheader : m.header fmt offset with
    | none =>
      rw [hheader] at hne
      exact absurd rfl hne
    | some imageSize => rfl
  · rw [imageRound_of_accepts haccepts] at hround
    cases hround
  · rw [imageRound_of_le hle] at hround
    cases hround

theorem exists_reaches (h : ReflTransGen (m.Passes fmt) 0 offset) :
    ∃ last, Loop.Reaches (m.imageRound fmt) (0, 0) (offset, last) := by
  induction h with
  | refl => exact ⟨0, .refl _⟩
  | tail _ hpasses ih =>
    obtain ⟨last, hreach⟩ := ih
    exact ⟨_, hreach.trans (.next (imageRound_of_passes hpasses) (.refl _))⟩

/-! ## The root file system -/

theorem rootfsRound_of_misses (h : m.Misses limit offset next) :
    m.rootfsRound limit offset = .inl next := by
  obtain ⟨hlt, hnone, rfl⟩ := h
  unfold rootfsRound
  rw [if_pos hlt]
  cases hcheck : m.checkRootfsMagic offset with
  | error code => rfl
  | ok type => exact absurd ⟨type, hcheck⟩ hnone

theorem rootfsRound_of_hasRootfs {type : PartType} (hlt : offset < limit)
    (h : m.checkRootfsMagic offset = .ok type) :
    m.rootfsRound limit offset = .inr (.ok (offset, type)) := by
  unfold rootfsRound
  rw [if_pos hlt, h]

theorem misses_of_rootfsRound (h : m.rootfsRound limit offset = .inl next) :
    m.Misses limit offset next := by
  unfold rootfsRound at h
  split at h
  case isTrue hlt =>
    cases hcheck : m.checkRootfsMagic offset with
    | error code =>
      rw [hcheck] at h
      cases h
      refine ⟨hlt, ?_, rfl⟩
      rintro ⟨type, htype⟩
      rw [hcheck] at htype
      cases htype
    | ok type =>
      rw [hcheck] at h
      cases h
  case isFalse => cases h

/-- A root file system that is found is behind others blocks where there is none. -/
theorem of_findRootfsFrom {fuel start rootfsOffset : ℕ} {type : PartType}
    (h : m.findRootfsFrom fuel start limit = some (.ok (rootfsOffset, type))) :
    ReflTransGen (m.Misses limit) start rootfsOffset ∧ rootfsOffset < limit ∧
      m.HasRootfs rootfsOffset := by
  unfold findRootfsFrom at h
  cases hafter : Loop.after (m.rootfsRound limit) fuel start with
  | inl y =>
    rw [hafter] at h
    cases h
  | inr found =>
    rw [hafter] at h
    cases h
    obtain ⟨last, hreach, hlast⟩ := Loop.exists_last hafter
    have hchain : ReflTransGen (m.Misses limit) start last :=
      hreach.invariant (P := ReflTransGen (m.Misses limit) start)
        (fun x y hx hround => hx.tail (misses_of_rootfsRound hround)) .refl
    unfold rootfsRound at hlast
    split at hlast
    case isTrue hlt =>
      cases hcheck : m.checkRootfsMagic last with
      | error code =>
        rw [hcheck] at hlast
        cases hlast
      | ok type' =>
        rw [hcheck] at hlast
        cases hlast
        exact ⟨hchain, hlt, _, hcheck⟩
    case isFalse => cases hlast

theorem reaches_of_misses {start : ℕ} (h : ReflTransGen (m.Misses limit) start offset) :
    Loop.Reaches (m.rootfsRound limit) start offset := by
  induction h with
  | refl => exact .refl _
  | tail _ hmisses ih => exact ih.trans (.next (rootfsRound_of_misses hmisses) (.refl _))

theorem exists_findRootfsFrom {start : ℕ} (hchain : ReflTransGen (m.Misses limit) start offset)
    (hlt : offset < limit) (h : m.HasRootfs offset) : ∃ n type, ∀ fuel, n ≤ fuel →
      m.findRootfsFrom fuel start limit = some (.ok (offset, type)) := by
  obtain ⟨type, htype⟩ := h
  obtain ⟨n, hn⟩ :=
    (reaches_of_misses hchain).exists_after (rootfsRound_of_hasRootfs hlt htype)
  refine ⟨n, type, fun fuel hfuel => ?_⟩
  unfold findRootfsFrom
  rw [Loop.after_of_le hn hfuel]
  rfl

/-! ## The partitions -/

/-- Once an image was found, the rest of the parser has its turns. -/
theorem exists_parseImage {s : Split} {offset' last' : ℕ}
    (hreach : Loop.Reaches (m.imageRound fmt) (0, 0) (offset', last'))
    (hround : m.imageRound fmt (offset', last') = .inr (offset, imageSize))
    (hsplit : ∃ n, ∀ fuel, n ≤ fuel → m.splitAt fmt fuel offset imageSize = some (.ok s)) :
    ∃ fuel, m.parseImage fmt fuel = some (.ok s) := by
  obtain ⟨n, hn⟩ := hreach.exists_after hround
  obtain ⟨n', hn'⟩ := hsplit
  refine ⟨max n n', ?_⟩
  unfold parseImage
  rw [Loop.after_of_le hn (Nat.le_max_left _ _)]
  exact hn' _ (Nat.le_max_right _ _)

theorem splitAt_of_hasRootfs (fmt : Format) (hsize : imageSize ≠ 0) (hoffset : offset ≠ 0) (h : m.HasRootfs 0) :
    ∃ name, ∀ fuel, m.splitAt fmt fuel offset imageSize =
      some (.ok ⟨⟨kernelPartName, offset, imageSize⟩, ⟨name, 0, offset⟩⟩) := by
  obtain ⟨type, htype⟩ := h
  refine ⟨type.partName, fun fuel => ?_⟩
  unfold splitAt
  rw [if_neg hsize, if_neg hoffset, htype]

/-- The partitions behind an image in front are right unless the root file system is there too. -/
theorem valid_of_rootfs {rootfsOffset : ℕ} {name name' : String}
    (hlt : rootfsOffset < m.sizeT m.size) (hne : rootfsOffset ≠ 0)
    (hsize : m.sizeT (m.size - rootfsOffset) ≠ 0) :
    Split.Valid ⟨⟨name, 0, rootfsOffset⟩, ⟨name', rootfsOffset, m.sizeT (m.size - rootfsOffset)⟩⟩
      m := by
  have hle : m.sizeT m.size ≤ m.size := Nat.mod_le _ _
  have hrest : m.sizeT (m.size - rootfsOffset) ≤ m.size - rootfsOffset := Nat.mod_le _ _
  exact
    { kernel_pos := Nat.pos_of_ne_zero hne
      rootfs_pos := Nat.pos_of_ne_zero hsize
      kernel_inside := by change 0 + rootfsOffset ≤ m.size; omega
      rootfs_inside := by
        change rootfsOffset + m.sizeT (m.size - rootfsOffset) ≤ m.size
        omega
      disjoint := .inl (Nat.le_of_eq (Nat.zero_add rootfsOffset)) }

theorem of_splitAt {fuel : ℕ} {s : Split} (h : m.splitAt fmt fuel offset imageSize = some (.ok s)) :
    imageSize ≠ 0 ∧ (offset = 0 ∧ (∃ rootfsOffset type,
      m.findRootfsFrom fuel (m.sizeT imageSize) (m.sizeT m.size) = some (.ok (rootfsOffset, type)) ∧
        m.sizeT (m.size - rootfsOffset) ≠ 0 ∧
          s = ⟨⟨kernelPartName, 0, rootfsOffset⟩,
            ⟨type.partName, rootfsOffset, m.sizeT (m.size - rootfsOffset)⟩⟩) ∨
      offset ≠ 0 ∧ m.HasRootfs 0 ∧
        ∃ name, s = ⟨⟨kernelPartName, offset, imageSize⟩, ⟨name, 0, offset⟩⟩) := by
  unfold splitAt at h
  split at h
  case isTrue => cases h
  case isFalse hsize =>
    refine ⟨hsize, ?_⟩
    split at h
    case isTrue hzero =>
      subst hzero
      rw [Nat.zero_add] at h
      obtain ⟨found, hfound, hbind⟩ := Option.map_eq_some_iff.mp h
      cases found with
      | error code => cases hbind
      | ok found =>
        obtain ⟨rootfsOffset, type⟩ := found
        change (if m.sizeT (m.size - rootfsOffset) = 0 then _ else _) = _ at hbind
        split at hbind
        case isTrue => cases hbind
        case isFalse hrest =>
          cases hbind
          exact .inl ⟨rfl, rootfsOffset, type, hfound, hrest, rfl⟩
    case isFalse hne =>
      cases hcheck : m.checkRootfsMagic 0 with
      | error code =>
        rw [hcheck] at h
        cases h
      | ok type =>
        rw [hcheck] at h
        cases h
        exact .inr ⟨hne, ⟨type, hcheck⟩, _, rfl⟩

/-- The image that was found, or else the size that was kept at the end. -/
theorem of_imageRound {offset' last' : ℕ}
    (hround : m.imageRound fmt (offset', last') = .inr (offset, imageSize)) :
    offset = offset' ∧ (m.Accepts fmt offset imageSize ∨ m.size ≤ offset ∧ imageSize = last') := by
  rcases passes_or_accepts fmt offset' with ⟨next, hpasses⟩ | ⟨size, haccepts⟩ | hle
  · rw [imageRound_of_passes hpasses] at hround
    cases hround
  · rw [imageRound_of_accepts haccepts] at hround
    cases hround
    exact ⟨rfl, .inl haccepts⟩
  · rw [imageRound_of_le hle] at hround
    cases hround
    exact ⟨rfl, .inr ⟨hle, rfl⟩⟩

/-- The parser gives the right partitions where the images fit. -/
theorem ImageFits.splitsRight (h : m.ImageFits fmt) : m.SplitsRight fmt := by
  intro fuel s hparse
  unfold parseImage at hparse
  cases hafter : Loop.after (m.imageRound fmt) fuel (0, 0) with
  | inl y =>
    rw [hafter] at hparse
    cases hparse
  | inr found =>
    obtain ⟨offset, imageSize⟩ := found
    rw [hafter] at hparse
    obtain ⟨⟨offset', last⟩, hreach, hround⟩ := Loop.exists_last hafter
    obtain ⟨hchain, hkept⟩ := kept_of_reaches hreach
    dsimp only at hchain hkept
    obtain ⟨rfl, haccepts | ⟨hle, rfl⟩⟩ := of_imageRound hround
    · obtain ⟨hsize, ⟨rfl, rootfsOffset, type, hfound, hrest, rfl⟩ | ⟨hne, hrootfs, name, rfl⟩⟩ :=
        of_splitAt hparse
      · obtain ⟨hmisses, hlt, hthere⟩ := of_findRootfsFrom hfound
        refine valid_of_rootfs hlt (fun hzero => ?_) hrest
        subst hzero
        exact h.back imageSize haccepts hsize hthere hlt hmisses
      · have hinside := h.inside offset imageSize hchain haccepts hne hsize hrootfs
        exact
          { kernel_pos := Nat.pos_of_ne_zero hsize
            rootfs_pos := Nat.pos_of_ne_zero hne
            kernel_inside := hinside
            rootfs_inside := by
              change 0 + offset ≤ m.size
              omega
            disjoint := .inr (Nat.le_of_eq (Nat.zero_add offset)) }
    · obtain ⟨hsize, hcases⟩ := of_splitAt hparse
      obtain ⟨prev, hprev, hpasses, hheader⟩ := hkept hsize
      rcases hcases with ⟨rfl, -⟩ | ⟨-, hrootfs, -⟩
      · exact absurd hpasses.1 (by omega)
      · exact absurd hrootfs (h.last prev offset imageSize hprev hpasses hle hheader hsize)

/-- The images fit where the parser gives the right partitions. -/
theorem SplitsRight.imageFits (h : m.SplitsRight fmt) : m.ImageFits fmt where
  inside offset imageSize hchain haccepts hne hsize hrootfs := by
    obtain ⟨last, hreach⟩ := exists_reaches hchain
    obtain ⟨name, hsplit⟩ := splitAt_of_hasRootfs fmt hsize hne hrootfs
    obtain ⟨fuel, hfuel⟩ := exists_parseImage hreach (imageRound_of_accepts haccepts)
      ⟨0, fun fuel _ => hsplit fuel⟩
    exact (h fuel _ hfuel).kernel_inside
  last offset next imageSize hchain hpasses hle hheader hsize hrootfs := by
    obtain ⟨last, hreach⟩ := exists_reaches hchain
    have hkept : Loop.Reaches (m.imageRound fmt) (0, 0) (next, imageSize) := by
      have hround : m.imageRound fmt (offset, last) = .inl _ := imageRound_of_passes hpasses
      rw [hheader] at hround
      exact hreach.trans (.next hround (.refl _))
    have hne : next ≠ 0 := by
      have hlt := hpasses.1
      omega
    obtain ⟨name, hsplit⟩ := splitAt_of_hasRootfs fmt hsize hne hrootfs
    obtain ⟨fuel, hfuel⟩ := exists_parseImage hkept (imageRound_of_le hle)
      ⟨0, fun fuel _ => hsplit fuel⟩
    have hinside := (h fuel _ hfuel).kernel_inside
    change next + imageSize ≤ m.size at hinside
    omega
  back imageSize haccepts hsize hrootfs hlt hmisses := by
    obtain ⟨n, type, hfound⟩ := exists_findRootfsFrom hmisses hlt hrootfs
    have hsplit : ∀ fuel, n ≤ fuel → m.splitAt fmt fuel 0 imageSize = some (.ok
        ⟨⟨kernelPartName, 0, 0⟩, ⟨type.partName, 0, m.sizeT (m.size - 0)⟩⟩) := by
      intro fuel hfuel
      unfold splitAt
      rw [if_neg hsize, if_pos rfl, Nat.zero_add, hfound fuel hfuel]
      change some (if m.sizeT (m.size - 0) = 0 then _ else _) = _
      rw [if_neg (by rw [Nat.sub_zero]; omega)]
    obtain ⟨fuel, hfuel⟩ := exists_parseImage (.refl _) (imageRound_of_accepts haccepts)
      ⟨n, hsplit⟩
    exact Nat.lt_irrefl 0 (h fuel _ hfuel).kernel_pos

/-- The partitions of both formats are right exactly where the images of a device fit. -/
theorem images_splitsRight_iff (m : Master) :
    (∀ np, m.SplitsRight (uimage m np) ↔ m.ImageFits (uimage m np)) ∧
      (m.SplitsRight (jimage m) ↔ m.ImageFits (jimage m)) :=
  ⟨fun _ => ⟨SplitsRight.imageFits, ImageFits.splitsRight⟩, SplitsRight.imageFits,
    ImageFits.splitsRight⟩

end Master

/-- A device with a root file system in the first block, and in the second and last one the header
of an image that is larger than the device. -/
def oversizeMaster : Master where
  size := 0x20000
  erasesize := 0x10000
  byte offset :=
    if offset < 4 then [0x68, 0x73, 0x71, 0x73].getD offset 0
    else if offset < 0x10000 then 0
    else if offset < 0x10010 then
      [0x27, 0x05, 0x19, 0x56, 0, 0, 0, 0, 0, 0, 0, 0, 0, 2, 0, 0].getD (offset - 0x10000) 0
    else if offset = 0x1001c then 5
    else if offset = 0x1001e then 2
    else 0
  read offset len := if offset + len ≤ 0x20000 then .ok () else .error einval
  bits := 64
  isBig := false
  behind _ := 0
  erasesize_pos := by decide

theorem parseImage_oversizeMaster : oversizeMaster.parseImage (uimage oversizeMaster none) 3 =
    some (.ok ⟨⟨kernelPartName, 0x20000, 0x20040⟩, ⟨rootfsPartName, 0, 0x20000⟩⟩) := by
  decide +kernel

/-- The kernel is put behind the device. -/
theorem not_splitsRight_of_oversize :
    ¬ oversizeMaster.SplitsRight (uimage oversizeMaster none) := by
  intro h
  have hinside := (h 3 _ parseImage_oversizeMaster).kernel_inside
  exact absurd hinside (by decide)

end OpenWrt.Mtdsplit
