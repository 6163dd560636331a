/-
# The parser accepts what create writes

The checksum in the tail is that of the files alone: the zeros that an option adds are not
counted. The parser counts all bytes, so it accepts an image exactly if the zeros make no
difference, and if it can read what it looks at: it reads 256 bytes at the start of the
rootfs unless it has seen a padding before.
-/

import Mathlib.Tactic.Common
import OpenWrt.Bcm4908img.Image

namespace OpenWrt.Bcm4908img

/-! ## The checksum in the tail -/

/-- The bytes of an option that the checksum counts. -/
def counted : Opt → List UInt8
  | .file (some content) taken => countedBytes content taken
  | .file none _ | .align _ _ | .padTo _ _ => []

theorem countedBytes_of_le {content : List UInt8} {taken : ℕ} (h : content.length ≤ taken) :
    countedBytes content taken = content :=
  if_pos h

theorem appendFile_of_le (image : Image) {content : List UInt8} {taken : ℕ}
    (h : content.length ≤ taken) :
    image.appendFile content taken =
      ⟨image.content ++ content, crc32 image.crc32 content, image.curOffset + content.length⟩ := by
  unfold Image.appendFile
  rw [List.take_of_length_le h, countedBytes_of_le h, if_pos h]

theorem content_build_file {content : List UInt8} {taken : ℕ} (h : content.length ≤ taken) :
    (build [.file (some content) taken]).content = content := by
  unfold build
  rw [List.foldl_cons, List.foldl_nil, Image.apply, appendFile_of_le _ h]
  rfl

/-- A file that is one byte short of a block, the zero that aligns it, and another file. -/
theorem content_build_align {content rest : List UInt8} {taken : ℕ}
    (hlength : content.length = blockSize - 1) (h : content.length ≤ taken)
    (hrest : rest.length ≤ taken) :
    (build [.file (some content) taken, .align 17 taken, .file (some rest) taken]).content =
      content ++ [0] ++ rest := by
  have htaken : min 1 taken = 1 := by
    rw [hlength] at h
    unfold blockSize at h
    omega
  have hoff : (0 + (blockSize - 1)) &&& (2 ^ 17 - 1) ≠ 0 := by decide
  have hzeros : 2 ^ 17 - (0 + (blockSize - 1)) % 2 ^ 17 = 1 := by decide
  unfold build
  rw [List.foldl_cons, Image.apply, appendFile_of_le _ h, List.foldl_cons, List.foldl_cons,
    List.foldl_nil, Image.apply, hlength, Image.apply, appendFile_of_le _ hrest, List.nil_append,
    if_pos hoff]
  unfold Image.appendZeros
  rw [hzeros, htaken]
  rfl

variable (crc : UInt32)

theorem crc32_append (first second : List UInt8) :
    crc32 crc (first ++ second) = crc32 (crc32 crc first) second :=
  List.foldl_append

theorem apply_crc32 (image : Image) (opt : Opt) :
    (image.apply opt).crc32 = crc32 image.crc32 (counted opt) := by
  cases opt with
  | file content taken =>
    cases content with
    | none => rfl
    | some content => rfl
  | align exp taken =>
    unfold Image.apply
    dsimp only
    split <;> rfl
  | padTo size taken =>
    unfold Image.apply
    dsimp only
    split <;> rfl

theorem build_crc32 (opts : List Opt) :
    (build opts).crc32 = crc32 crcInit (opts.flatMap counted) := by
  have hfold : ∀ image : Image,
      (opts.foldl Image.apply image).crc32 = crc32 image.crc32 (opts.flatMap counted) := by
    induction opts with
    | nil => exact fun _ => rfl
    | cons opt opts ih =>
      intro image
      rw [List.foldl_cons, ih, apply_crc32, List.flatMap_cons, crc32_append]
  exact hfold _

theorem ofLe32_le32 (n : UInt32) : ofLe32 (le32 n) = n := by
  unfold ofLe32 le32
  apply UInt32.toBitVec_inj.mp
  refine BitVec.eq_of_getLsbD_eq fun i hi => ?_
  have hwidth : BitVec.toNat (32 : BitVec 32) = 32 := rfl
  simp only [UInt32.toBitVec_or, UInt32.toBitVec_shiftLeft, UInt8.toBitVec_toUInt32,
    UInt32.toBitVec_toUInt8, UInt32.toBitVec_shiftRight, BitVec.getLsbD_or,
    BitVec.getLsbD_setWidth, BitVec.shiftLeft_eq', BitVec.ushiftRight_eq',
    BitVec.getLsbD_shiftLeft, BitVec.getLsbD_ushiftRight, UInt32.toBitVec_ofNat,
    BitVec.toNat_umod, BitVec.toNat_ofNat, hwidth, Nat.reduceMod, Nat.reducePow, hi, decide_true,
    Bool.true_and]
  have hsub : ∀ k ≤ i, k + (i - k) = i := fun k hk => Nat.add_sub_of_le hk
  -- the byte that has the bit
  rcases Nat.lt_or_ge i 8 with h8 | h8
  · simp [h8, show i < 16 by omega, show i < 24 by omega]
  rcases Nat.lt_or_ge i 16 with h16 | h16
  · simp [h16, hsub 8 h8, show ¬ i < 8 by omega, show i < 24 by omega, show i - 8 < 8 by omega,
      show i - 8 < 32 by omega]
  rcases Nat.lt_or_ge i 24 with h24 | h24
  · simp [h24, hsub 16 h16, show ¬ i < 8 by omega, show ¬ i < 16 by omega,
      show ¬ i - 8 < 8 by omega, show i - 16 < 8 by omega, show i - 16 < 32 by omega]
  · simp [hsub 24 h24, show ¬ i < 8 by omega, show ¬ i < 16 by omega, show ¬ i < 24 by omega,
      show ¬ i - 8 < 8 by omega, show ¬ i - 16 < 8 by omega, show i - 24 < 8 by omega,
      show i - 24 < 32 by omega]

/-! ## Where the file systems are -/

def HasAt (content magic : List UInt8) (offset : ℕ) : Prop :=
  (content.drop offset).take magic.length = magic

/-- The first aligned offset, from a start on, that has the bytes. -/
structure FirstAt (content magic : List UInt8) (start offset : ℕ) : Prop where
  aligned : blockSize ∣ offset
  start_le : start ≤ offset
  here : HasAt content magic offset
  first : ∀ other, blockSize ∣ other → start ≤ other → other < offset → ¬ HasAt content magic other

/-- The 256 bytes at the offset are all `0xff`. -/
def AllFf (content : List UInt8) (offset : ℕ) : Prop :=
  ((content.drop offset).take 256).all (· = 0xff) = true

/-- There is a padding at an aligned offset between the two. -/
def Padded (content : List UInt8) (start stop : ℕ) : Prop :=
  ∃ offset, blockSize ∣ offset ∧ start ≤ offset ∧ offset < stop ∧ AllFf content offset

variable {content tail magic : List UInt8} {boot root offset padding : ℕ}

theorem HasAt.le_length (h : HasAt content magic offset) (hmagic : magic ≠ []) :
    offset + magic.length ≤ content.length := by
  have hlen := congrArg List.length h
  rw [List.length_take, List.length_drop] at hlen
  have hpos := List.length_pos_iff.mpr hmagic
  omega

theorem fread_content {length : ℕ} (h : offset + length ≤ content.length) :
    fread (content ++ tail) offset length = some ((content.drop offset).take length) := by
  unfold fread
  rw [if_pos (by rw [List.length_append]; omega),
    List.drop_append_of_le_length (by omega),
    List.take_append_of_le_length (by rw [List.length_drop]; omega)]

theorem aligned_next (hoffset : blockSize ∣ offset) {other : ℕ} (hother : blockSize ∣ other)
    (hlt : offset < other) : offset + blockSize ≤ other := by
  obtain ⟨i, rfl⟩ := hoffset
  obtain ⟨j, rfl⟩ := hother
  have hij : i < j := Nat.lt_of_mul_lt_mul_left hlt
  rw [← Nat.mul_succ]
  exact Nat.mul_le_mul_left _ hij

/-- The loop stops at the first aligned offset with the magic of the bootfs. -/
theorem findBootfs_eq (h : FirstAt content jffs2Magic 0 boot) (turns : ℕ)
    (hoffset : blockSize ∣ offset) (hturns : offset + turns * blockSize = boot) :
    findBootfs (content ++ tail) content.length offset = .ok boot := by
  have hle : boot + 2 ≤ content.length := h.here.le_length (by decide)
  induction turns generalizing offset with
  | zero =>
    rw [Nat.zero_mul, Nat.add_zero] at hturns
    subst hturns
    rw [findBootfs, if_pos (by omega), fread_content hle]
    exact if_pos h.here
  | succ turns ih =>
    rw [Nat.succ_mul] at hturns
    have hnext : offset + blockSize ≤ boot := by omega
    have hblock : 2 ≤ blockSize := by decide
    have hnot : (content.drop offset).take 2 ≠ jffs2Magic :=
      h.first offset hoffset (Nat.zero_le _) (by omega)
    rw [findBootfs, if_pos (by omega), fread_content (by omega)]
    dsimp only
    rw [if_neg hnot]
    exact ih (Nat.dvd_add hoffset (Nat.dvd_refl _)) (by omega)

/-- The parser can read what it wants at the start of the rootfs: it has seen a padding, or
there are 256 bytes. -/
def Readable (content : List UInt8) (length start root padding : ℕ) : Prop :=
  padding ≠ 0 ∨ root + 256 ≤ length ∨ Padded content start root

theorem findRootfs_turn (h : FirstAt content ubiMagic boot root) (hoffset : blockSize ∣ offset)
    (hboot : boot ≤ offset) (hlt : offset < root) (hzero : offset = 0 → ¬ AllFf content 0) :
    ∃ padding', findRootfs (content ++ tail) content.length offset padding =
        findRootfs (content ++ tail) content.length (offset + blockSize) padding' ∧
      ∀ length, Readable content length offset root padding ↔
        Readable content length (offset + blockSize) root padding' := by
  have hle : root + 4 ≤ content.length := h.here.le_length (by decide)
  have hnext : offset + blockSize ≤ root := aligned_next hoffset h.aligned hlt
  have hblock : 256 ≤ blockSize := by decide
  have hread : offset + (if padding ≠ 0 then 4 else 256) ≤ content.length := by
    split <;> omega
  have hmagic : ((content.drop offset).take (if padding ≠ 0 then 4 else 256)).take 4 ≠ ubiMagic := by
    rw [List.take_take, Nat.min_eq_left (by split <;> omega)]
    exact h.first offset hoffset hboot hlt
  have hpadded : Padded content offset root ↔
      AllFf content offset ∨ Padded content (offset + blockSize) root := by
    constructor
    · rintro ⟨other, hother, hge, hlt', hff⟩
      rcases Nat.eq_or_lt_of_le hge with rfl | hgt
      · exact .inl hff
      · exact .inr ⟨other, hother, aligned_next hoffset hother hgt, hlt', hff⟩
    · rintro (hff | ⟨other, hother, hge, hlt', hff⟩)
      · exact ⟨offset, hoffset, Nat.le_refl _, hlt, hff⟩
      · exact ⟨other, hother, by omega, hlt', hff⟩
  rw [findRootfs, if_pos (by omega), fread_content hread]
  dsimp only
  rw [if_neg hmagic]
  refine ⟨_, rfl, fun length => ?_⟩
  unfold Readable
  by_cases hseen : padding = 0
  · subst hseen
    by_cases hff : AllFf content offset
    · have hpos : offset ≠ 0 := fun heq => hzero heq (heq ▸ hff)
      rw [if_pos ⟨rfl, hff⟩]
      exact iff_of_true (.inr (.inr (hpadded.mpr (.inl hff)))) (.inl hpos)
    · rw [if_neg fun hboth => hff hboth.2, hpadded]
      tauto
  · rw [if_neg fun hboth => hseen hboth.1]
    exact iff_of_true (.inl hseen) (.inl hseen)

/-- The loop finds the rootfs exactly if it can be read. -/
theorem findRootfs_eq (h : FirstAt content ubiMagic boot root) (htail : tail.length = tailSize)
    (turns : ℕ) (hoffset : blockSize ∣ offset) (hboot : boot ≤ offset)
    (hturns : offset + turns * blockSize = root) (hzero : offset = 0 → ¬ AllFf content 0) :
    (Readable content (content ++ tail).length offset root padding →
        ∃ padding', findRootfs (content ++ tail) content.length offset padding =
          .ok (root, padding')) ∧
      (¬ Readable content (content ++ tail).length offset root padding →
        findRootfs (content ++ tail) content.length offset padding = .error .io) := by
  have hle : root + 4 ≤ content.length := h.here.le_length (by decide)
  induction turns generalizing offset padding with
  | succ turns ih =>
    rw [Nat.succ_mul] at hturns
    have hblock : 0 < blockSize := by decide
    obtain ⟨padding', heq, hiff⟩ := @findRootfs_turn _ tail _ _ _ padding h hoffset
      hboot (by omega) hzero
    rw [heq, hiff]
    exact ih (Nat.dvd_add hoffset (Nat.dvd_refl _)) (by omega) (by omega) fun hnone => by omega
  | zero =>
    rw [Nat.zero_mul, Nat.add_zero] at hturns
    subst hturns
    have hnone : ¬ Padded content offset offset := fun ⟨other, _, hge, hlt, _⟩ => by omega
    have hmagic : ∀ length, 4 ≤ length →
        (((content ++ tail).drop offset).take length).take 4 = ubiMagic := by
      intro length hlength
      rw [List.take_take, Nat.min_eq_left hlength, List.drop_append_of_le_length (by omega),
        List.take_append_of_le_length (by rw [List.length_drop]; omega)]
      exact h.here
    rw [findRootfs, if_pos (by omega)]
    unfold fread Readable
    by_cases hfits : offset + (if padding ≠ 0 then 4 else 256) ≤ (content ++ tail).length
    · rw [if_pos hfits]
      dsimp only
      rw [if_pos (hmagic _ (by split <;> omega))]
      refine ⟨fun _ => ⟨_, rfl⟩, fun hbad => absurd ?_ hbad⟩
      by_cases hseen : padding = 0
      · rw [if_neg (not_not.mpr hseen)] at hfits
        exact .inr (.inl hfits)
      · exact .inl hseen
    · rw [if_neg hfits]
      refine ⟨fun hreadable => absurd ?_ hfits, fun _ => rfl⟩
      rcases hreadable with hseen | hlength | hpadded
      · rw [if_pos hseen, List.length_append]
        omega
      · split
        · omega
        · exact hlength
      · exact absurd hpadded hnone

/-! ## The parser -/

theorem length_tailBytes : (tailBytes crc).length = tailSize := rfl

/-- What the parser does with an image that has nothing around it. -/
theorem parse_create {opts : List Opt} (hchk : ¬ isChk (create opts))
    (hlinksys : ¬ isLinksys (create opts))
    (hboot : FirstAt (build opts).content jffs2Magic 0 boot)
    (hroot : FirstAt (build opts).content ubiMagic boot root) :
    parse (create opts) =
      match findRootfs (create opts) (build opts).content.length boot 0 with
      | .error error => .error error
      | .ok (rootfsOffset, paddingOffset) =>
        if crc32 crcInit (build opts).content ≠ (build opts).crc32 then .error .proto
        else
          .ok
            { cferomOffset := 0
              bootfsOffset := boot
              paddingOffset
              rootfsOffset
              tailOffset := (build opts).content.length
              crc32 := crc32 crcInit (build opts).content
              tailCrc32 := (build opts).crc32 } := by
  have hle : root + 4 ≤ (build opts).content.length := hroot.here.le_length (by decide)
  have hne : root ≠ boot := by
    rintro rfl
    have hjffs2 := hboot.here
    have hubi := hroot.here
    unfold HasAt at hjffs2 hubi
    have htwo := congrArg (List.take 2) hubi
    rw [List.take_take] at htwo
    exact absurd (hjffs2.symm.trans htwo) (by decide)
  have hblock : boot + blockSize ≤ root :=
    aligned_next hboot.aligned hroot.aligned (Nat.lt_of_le_of_ne hroot.start_le (Ne.symm hne))
  have hsize : 1024 ≤ blockSize := by decide
  have hlength : (create opts).length = (build opts).content.length + 20 := by
    unfold create
    rw [List.length_append, length_tailBytes]
    rfl
  have htail : (create opts).length - tailSize - 0 = (build opts).content.length := by
    rw [hlength]
    rfl
  obtain ⟨turns, hturns⟩ := hboot.aligned
  have hfound : findBootfs (create opts) (build opts).content.length 0 = .ok boot :=
    findBootfs_eq hboot turns (Nat.dvd_zero _) (by rw [hturns, Nat.mul_comm, Nat.zero_add])
  have hcontent : ((create opts).drop 0).take ((build opts).content.length - 0) =
      (build opts).content := List.take_left
  have hcrc : ofLe32 (((create opts).drop (build opts).content.length).take 4) =
      (build opts).crc32 := by
    unfold create
    rw [List.drop_left]
    exact ofLe32_le32 _
  unfold parse
  rw [if_neg (by omega), if_neg hchk, if_neg hlinksys, htail]
  simp only [bind, Except.bind, pure, Except.pure, hfound, hcontent, hcrc]
  cases findRootfs (create opts) (build opts).content.length boot 0 with
  | error error => rfl
  | ok found =>
    dsimp only
    split <;> rfl

/-- The parser accepts the image with the offsets of the file systems, and the checksum in the
tail is the one over all bytes before. -/
def Accepts (opts : List Opt) (boot root : ℕ) : Prop :=
  ∃ info, parse (create opts) = .ok info ∧ info.bootfsOffset = boot ∧ info.rootfsOffset = root ∧
    info.crc32 = crc32 crcInit (build opts).content ∧ info.tailCrc32 = info.crc32

theorem accepts_of_parse {opts : List Opt} (hchk : ¬ isChk (create opts))
    (hlinksys : ¬ isLinksys (create opts))
    (hboot : FirstAt (build opts).content jffs2Magic 0 boot)
    (hroot : FirstAt (build opts).content ubiMagic boot root) :
    Accepts opts boot root ↔
      crc32 crcInit (build opts).content = crc32 crcInit (opts.flatMap counted) ∧
        Readable (build opts).content (create opts).length boot root 0 := by
  have hparse := parse_create hchk hlinksys hboot hroot
  rw [← build_crc32 opts]
  have hff : boot = 0 → ¬ AllFf (build opts).content 0 := by
    rintro rfl hff
    have hbytes : ∀ byte ∈ (build opts).content.take 256, byte = 0xff := fun byte hbyte =>
      of_decide_eq_true (List.all_eq_true.mp hff byte hbyte)
    have hhere : (build opts).content.take 2 = jffs2Magic := hboot.here
    have hfirst : (0x85 : UInt8) ∈ (build opts).content.take 2 := by
      rw [hhere]
      decide
    exact absurd (hbytes 0x85 ((List.take_subset_take_left _ (by decide)) hfirst)) (by decide)
  obtain ⟨d, hd⟩ : ∃ turns, boot + turns * blockSize = root := by
    obtain ⟨i, rfl⟩ := hboot.aligned
    obtain ⟨j, rfl⟩ := hroot.aligned
    have hij : i ≤ j := Nat.le_of_mul_le_mul_left hroot.start_le (by decide)
    refine ⟨j - i, ?_⟩
    rw [Nat.mul_comm (j - i), ← Nat.mul_add, Nat.add_sub_of_le hij]
  obtain ⟨hreads, hfails⟩ := @findRootfs_eq _ _ _ _ _ 0 hroot (length_tailBytes _) d
    hboot.aligned (Nat.le_refl _) hd hff
  constructor
  · rintro ⟨info, hok, -, -, hcrc, htail⟩
    by_cases hreadable : Readable (build opts).content (create opts).length boot root 0
    · obtain ⟨padding, hfound⟩ := hreads hreadable
      rw [hparse, show findRootfs (create opts) _ _ _ = _ from hfound] at hok
      dsimp only at hok
      split at hok
      · cases hok
      case isFalse hsame => exact ⟨not_not.mp hsame, hreadable⟩
    · rw [hparse, show findRootfs (create opts) _ _ _ = _ from hfails hreadable] at hok
      cases hok
  · rintro ⟨hcrc, hreadable⟩
    obtain ⟨padding, hfound⟩ := hreads hreadable
    rw [show findRootfs (create opts) _ _ _ = _ from hfound] at hparse
    dsimp only at hparse
    rw [if_neg (not_not.mpr hcrc)] at hparse
    exact ⟨_, hparse, rfl, rfl, rfl, hcrc.symm⟩

/-- The parser accepts an image that has nothing around it exactly if the zeros of the options
make no difference to the checksum, and there is a padding before the rootfs or enough of the
rootfs to read. -/
theorem accepts_iff (opts : List Opt) (hchk : ¬ isChk (create opts))
    (hlinksys : ¬ isLinksys (create opts))
    (hboot : FirstAt (build opts).content jffs2Magic 0 boot)
    (hroot : FirstAt (build opts).content ubiMagic boot root) :
    Accepts opts boot root ↔
      crc32 crcInit (build opts).content = crc32 crcInit (opts.flatMap counted) ∧
        (root + 236 ≤ (build opts).content.length ∨ Padded (build opts).content boot root) := by
  have hlength : (create opts).length = (build opts).content.length + 20 := by
    unfold create
    rw [List.length_append, length_tailBytes]
    rfl
  rw [accepts_of_parse hchk hlinksys hboot hroot]
  refine and_congr_right fun _ => ?_
  unfold Readable
  rw [hlength]
  constructor
  · rintro (hne | hle | hpadded)
    · exact absurd rfl hne
    · exact .inl (by omega)
    · exact .inr hpadded
  · rintro (hle | hpadded)
    · exact .inr (.inl (by omega))
    · exact .inr (.inr hpadded)

/-! ## A bootfs of one block -/

def ubiImage : List UInt8 :=
  ubiMagic ++ List.replicate 252 0

theorem length_ubiImage : ubiImage.length = 256 := by
  unfold ubiImage
  rw [List.length_append, List.length_replicate]
  rfl

/-- One block of bootfs. -/
structure IsBoot (block : List UInt8) : Prop where
  length : block.length = blockSize
  start : block.take 4 = [0x85, 0x19, 0, 0]

variable {block : List UInt8}

theorem IsBoot.firstAt_jffs2 (h : IsBoot block) : FirstAt (block ++ ubiImage) jffs2Magic 0 0 := by
  refine ⟨Nat.dvd_zero _, Nat.le_refl _, ?_, fun other _ _ hlt => absurd hlt (Nat.not_lt_zero _)⟩
  unfold HasAt
  have hle : 2 ≤ block.length := by
    rw [h.length]
    decide
  rw [List.drop_zero, show jffs2Magic.length = 2 from rfl, List.take_append_of_le_length hle]
  have htwo := congrArg (List.take 2) h.start
  rw [List.take_take] at htwo
  exact htwo

theorem IsBoot.firstAt_ubi (h : IsBoot block) :
    FirstAt (block ++ ubiImage) ubiMagic 0 blockSize := by
  refine ⟨Nat.dvd_refl _, Nat.zero_le _, ?_, fun other hother _ hlt hhas => ?_⟩
  · unfold HasAt
    rw [← h.length, List.drop_left]
    rfl
  · have hzero : other = 0 := Nat.eq_zero_of_dvd_of_lt hother hlt
    subst hzero
    unfold HasAt at hhas
    have hle : 4 ≤ block.length := by
      rw [h.length]
      decide
    rw [List.drop_zero, show ubiMagic.length = 4 from rfl, List.take_append_of_le_length hle,
      h.start] at hhas
    exact absurd hhas (by decide)

theorem IsBoot.plain (h : IsBoot block) (crc : UInt32) :
    ¬ isChk (block ++ ubiImage ++ tailBytes crc) ∧
      ¬ isLinksys (block ++ ubiImage ++ tailBytes crc) := by
  have hle : 4 ≤ block.length := by
    rw [h.length]
    decide
  rw [List.append_assoc]
  constructor
  · unfold isChk
    rw [List.take_append_of_le_length hle, h.start]
    decide
  · intro hlinksys
    have hdrop : (block ++ (ubiImage ++ tailBytes crc)).length - linksysSize =
        block.length + 20 := by
      rw [List.length_append, List.length_append, length_tailBytes, length_ubiImage]
      change block.length + (256 + 20) - 256 = _
      omega
    -- the first byte that is looked at is one of the zeros
    have hfirst := congrArg (·[0]?) hlinksys
    rw [hdrop, List.drop_length_add_append, List.getElem?_take_of_lt (by decide),
      List.getElem?_drop, List.getElem?_append_left (by rw [length_ubiImage]; decide)] at hfirst
    unfold ubiImage at hfirst
    rw [List.getElem?_append_right (by decide), List.getElem?_replicate] at hfirst
    exact absurd hfirst (by decide)

/-- One block of bootfs, filled with zeros. -/
def bootBlock : List UInt8 :=
  [0x85, 0x19] ++ List.replicate 131070 0

theorem isBoot_bootBlock : IsBoot bootBlock := by
  refine ⟨?_, rfl⟩
  unfold bootBlock
  rw [List.length_append, List.length_replicate]
  rfl

def oneFile : List Opt :=
  [.file (some (bootBlock ++ ubiImage)) 1048576]

/-- The parser accepts the image. -/
theorem accepts_of_oneFile : Accepts oneFile 0 blockSize := by
  have hlength : (bootBlock ++ ubiImage).length = blockSize + 256 := by
    rw [List.length_append, isBoot_bootBlock.length, length_ubiImage]
  have hle : (bootBlock ++ ubiImage).length ≤ 1048576 := by
    rw [hlength]
    decide
  have hcontent : (build oneFile).content = bootBlock ++ ubiImage := content_build_file hle
  have hcounted : oneFile.flatMap counted = bootBlock ++ ubiImage := by
    unfold oneFile
    rw [List.flatMap_singleton, counted, countedBytes_of_le hle]
  have hcreate : create oneFile = bootBlock ++ ubiImage ++ tailBytes (build oneFile).crc32 := by
    unfold create
    rw [hcontent]
  obtain ⟨hchk, hlinksys⟩ := isBoot_bootBlock.plain (build oneFile).crc32
  rw [← hcreate] at hchk hlinksys
  refine (accepts_iff oneFile hchk hlinksys ?_ ?_).mpr ⟨?_, .inl ?_⟩
  · rw [hcontent]
    exact isBoot_bootBlock.firstAt_jffs2
  · rw [hcontent]
    exact isBoot_bootBlock.firstAt_ubi
  · rw [hcontent, hcounted]
  · rw [hcontent, hlength]
    omega

/-- A byte that is the low one of the checksum takes it out. -/
theorem crcByte_toUInt8 : crcByte crc crc.toUInt8 = crc >>> 8 := by
  have hmask : ∀ i < 32, (UInt32.toBitVec 0xff).getLsbD i = decide (i < 8) := by decide
  have hindex : (crc ^^^ crc.toUInt8.toUInt32) &&& 0xff = 0 := by
    apply UInt32.toBitVec_inj.mp
    refine BitVec.eq_of_getLsbD_eq fun i hi => ?_
    rw [UInt32.toBitVec_and, UInt32.toBitVec_xor, UInt8.toBitVec_toUInt32,
      UInt32.toBitVec_toUInt8, BitVec.getLsbD_and, BitVec.getLsbD_xor, BitVec.getLsbD_setWidth,
      BitVec.getLsbD_setWidth, hmask i hi, decide_eq_true hi]
    by_cases h8 : i < 8
    · simp [h8]
    · simp [h8]
  have hzero : crc32Tbl.getD (0 : UInt32).toNat 0 = 0 := by decide +kernel
  unfold crcByte
  rw [hindex, hzero, UInt32.zero_xor]

theorem shiftRight_shiftRight : (crc >>> 8) >>> 8 = crc >>> 16 ∧
    (crc >>> 16) >>> 8 = crc >>> 24 ∧ (crc >>> 24) >>> 8 = 0 := by
  refine ⟨UInt32.toNat_inj.mp ?_, UInt32.toNat_inj.mp ?_, UInt32.toNat_inj.mp ?_⟩
  · rw [UInt32.toNat_shiftRight, UInt32.toNat_shiftRight, UInt32.toNat_shiftRight]
    exact (Nat.shiftRight_add _ 8 8).symm
  · rw [UInt32.toNat_shiftRight, UInt32.toNat_shiftRight, UInt32.toNat_shiftRight]
    exact (Nat.shiftRight_add _ 16 8).symm
  · rw [UInt32.toNat_shiftRight, UInt32.toNat_shiftRight]
    refine (Nat.shiftRight_add _ 24 8).symm.trans ?_
    rw [Nat.shiftRight_eq_div_pow]
    exact Nat.div_eq_of_lt crc.toNat_lt

theorem crc32_le32 : crc32 crc (le32 crc) = 0 := by
  obtain ⟨h16, h24, h32⟩ := shiftRight_shiftRight crc
  unfold crc32 le32
  rw [List.foldl_cons, crcByte_toUInt8, List.foldl_cons, crcByte_toUInt8, h16, List.foldl_cons,
    crcByte_toUInt8, h24, List.foldl_cons, crcByte_toUInt8, h32]
  rfl

/-- The start of a bootfs, up to five bytes before the end of its block. -/
def bootStart : List UInt8 :=
  [0x85, 0x19] ++ List.replicate 131064 0

/-- A bootfs that is one byte short of a block. Its last bytes fix the checksum. -/
def shortBoot : List UInt8 :=
  bootStart ++ le32 (crc32 crcInit bootStart) ++ [1]

/-- The short bootfs, aligned to the block, and a rootfs. -/
def alignedFiles : List Opt :=
  [.file (some shortBoot) 1048576, .align 17 1048576, .file (some ubiImage) 1048576]

theorem length_shortBoot : shortBoot.length = 131071 := by
  unfold shortBoot bootStart le32
  rw [List.length_append, List.length_append, List.length_append, List.length_replicate]
  rfl

theorem crc32_shortBoot : crc32 crcInit shortBoot = crc32 0 [1] := by
  unfold shortBoot
  rw [crc32_append, crc32_append, crc32_le32]

theorem isBoot_shortBoot : IsBoot (shortBoot ++ [0]) := by
  refine ⟨?_, rfl⟩
  rw [List.length_append, length_shortBoot]
  rfl

theorem content_alignedFiles : (build alignedFiles).content = shortBoot ++ [0] ++ ubiImage :=
  content_build_align length_shortBoot (by rw [length_shortBoot]; omega)
    (by rw [length_ubiImage]; omega)

/-- The zero of the alignment is not in the checksum of the tail, and the parser does not
accept the image. -/
theorem not_accepts_of_alignedFiles :
    (¬ isChk (create alignedFiles) ∧ ¬ isLinksys (create alignedFiles) ∧
      FirstAt (build alignedFiles).content jffs2Magic 0 0 ∧
      FirstAt (build alignedFiles).content ubiMagic 0 blockSize) ∧
      ¬ Accepts alignedFiles 0 blockSize := by
  have hcreate : create alignedFiles =
      shortBoot ++ [0] ++ ubiImage ++ tailBytes (build alignedFiles).crc32 := by
    unfold create
    rw [content_alignedFiles]
  obtain ⟨hchk, hlinksys⟩ := isBoot_shortBoot.plain (build alignedFiles).crc32
  rw [← hcreate] at hchk hlinksys
  have hjffs2 : FirstAt (build alignedFiles).content jffs2Magic 0 0 := by
    rw [content_alignedFiles]
    exact isBoot_shortBoot.firstAt_jffs2
  have hubi : FirstAt (build alignedFiles).content ubiMagic 0 blockSize := by
    rw [content_alignedFiles]
    exact isBoot_shortBoot.firstAt_ubi
  refine ⟨⟨hchk, hlinksys, hjffs2, hubi⟩, fun haccepts => ?_⟩
  have hsame := ((accepts_of_parse hchk hlinksys hjffs2 hubi).mp haccepts).1
  have hcounted : alignedFiles.flatMap counted = shortBoot ++ ubiImage := by
    have hshort : countedBytes shortBoot 1048576 = shortBoot :=
      countedBytes_of_le (by rw [length_shortBoot]; omega)
    have hrest : countedBytes ubiImage 1048576 = ubiImage :=
      countedBytes_of_le (by rw [length_ubiImage]; omega)
    unfold alignedFiles
    simp only [List.flatMap_cons, List.flatMap_nil, counted, hshort, hrest, List.nil_append,
      List.append_nil]
  rw [content_alignedFiles, hcounted, crc32_append, crc32_append, crc32_append,
    crc32_shortBoot] at hsame
  exact absurd hsame (by decide +kernel)

end OpenWrt.Bcm4908img
