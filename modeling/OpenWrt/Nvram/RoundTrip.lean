/-
# What is committed is read back

Where the text of all variables has room in the partition, a commit writes it whole, and
the partition that a commit leaves opens as the handle that it leaves. That handle has the
variables there were, and the SDRAM variables that were not set, from the header.
-/

import OpenWrt.Nvram.Invariant
import Mathlib.Data.List.GetD

namespace OpenWrt.Nvram

/-! ## Words -/

theorem wordAt_congr {bytes bytes' : List UInt8} {pos pos' : ℕ}
    (h : ∀ i < 4, bytes'.getD (pos' + i) 0 = bytes.getD (pos + i) 0) :
    wordAt bytes' pos' = wordAt bytes pos := by
  unfold wordAt
  rw [h 1 (by omega), h 2 (by omega), h 3 (by omega)]
  have h0 := h 0 (by omega)
  rw [Nat.add_zero, Nat.add_zero] at h0
  rw [h0]

/-- A word reads back. -/
theorem wordAt_wordBytes (w : UInt32) (rest : List UInt8) : wordAt (wordBytes w ++ rest) 0 = w := by
  apply UInt32.eq_of_toBitVec_eq
  change (w.toBitVec.setWidth 8).setWidth 32 ||| ((w.toBitVec >>> 8).setWidth 8).setWidth 32 <<< 8 |||
    ((w.toBitVec >>> 16).setWidth 8).setWidth 32 <<< 16 |||
    ((w.toBitVec >>> 24).setWidth 8).setWidth 32 <<< 24 = w.toBitVec
  refine BitVec.eq_of_getLsbD_eq fun i hi => ?_
  simp only [BitVec.getLsbD_or, BitVec.getLsbD_shiftLeft, BitVec.getLsbD_setWidth,
    BitVec.getLsbD_ushiftRight]
  -- The bit is in one of the four bytes.
  rcases (by omega : i < 8 ∨ 8 ≤ i ∧ i < 16 ∨ 16 ≤ i ∧ i < 24 ∨ 24 ≤ i) with h | h | h | h
  all_goals grind

theorem wordAt_append (before : List UInt8) (w : UInt32) (rest : List UInt8) :
    wordAt (before ++ (wordBytes w ++ rest)) before.length = w := by
  rw [← wordAt_wordBytes w rest]
  refine wordAt_congr fun i _ => ?_
  rw [List.getD_append_right _ _ _ _ (by omega), Nat.add_sub_cancel_left, Nat.zero_add,
    wordAt_wordBytes]

theorem length_bytes (header : Header) : header.bytes.length = headerSize := rfl

/-- A header reads back from where it stands. -/
theorem headerAt_append (before : List UInt8) (header : Header) (rest : List UInt8) :
    headerAt (before ++ (header.bytes ++ rest)) before.length = header := by
  have hword : ∀ (prior : List UInt8) (w : UInt32), (∃ after, prior ++ (wordBytes w ++ after) =
      header.bytes ++ rest) →
        wordAt (before ++ (header.bytes ++ rest)) (before.length + prior.length) = w := by
    rintro prior w ⟨after, hsplit⟩
    rw [← hsplit, ← List.append_assoc, ← List.length_append]
    exact wordAt_append _ w after
  obtain ⟨magic, len, crcVerInit, configRefresh, configNcdl⟩ := header
  unfold headerAt
  rw [Header.mk.injEq]
  exact ⟨hword [] magic ⟨_, rfl⟩, hword (wordBytes magic) len ⟨_, rfl⟩,
    hword (wordBytes magic ++ wordBytes len) crcVerInit ⟨_, rfl⟩,
    hword (wordBytes magic ++ wordBytes len ++ wordBytes crcVerInit) configRefresh ⟨_, rfl⟩,
    hword (wordBytes magic ++ wordBytes len ++ wordBytes crcVerInit ++ wordBytes configRefresh)
      configNcdl ⟨_, rfl⟩⟩

/-! ## The magic number -/

/-- The first magic number stays where nothing before it changes. -/
theorem findMagic_congr {machine : Machine} {image image' : List UInt8} {offset : ℕ}
    (hlength : image'.length = image.length)
    (hbefore : ∀ pos < offset, image'.getD pos 0 = image.getD pos 0)
    (hmagic : wordAt image' offset = NVRAM_MAGIC)
    (hfind : findMagic machine image = some offset) : findMagic machine image' = some offset := by
  unfold findMagic at hfind ⊢
  obtain ⟨i, hi, rfl⟩ := Option.map_eq_some_iff.mp hfind
  rw [hlength]
  refine Option.map_eq_some_iff.mpr ⟨i, ?_, rfl⟩
  rw [List.find?_range_eq_some] at hi ⊢
  obtain ⟨hfound, hrange, hfirst⟩ := hi
  refine ⟨?_, hrange, fun j hj => ?_⟩
  · rw [Bool.and_eq_true] at hfound ⊢
    exact ⟨hfound.1, by rw [hmagic]; exact beq_self_eq_true _⟩
  · have hword : wordAt image' (4 * j) = wordAt image (4 * j) :=
      wordAt_congr fun k hk => hbefore _ (by omega)
    rw [hword]
    exact hfirst j hj

theorem offset_lt_of_findMagic {machine : Machine} {image : List UInt8} {offset : ℕ}
    (hfind : findMagic machine image = some offset) : offset < image.length := by
  unfold findMagic at hfind
  obtain ⟨i, hi, rfl⟩ := Option.map_eq_some_iff.mp hfind
  rw [List.find?_range_eq_some] at hi
  have hrange := List.mem_range.mp hi.2.1
  omega

/-! ## The SDRAM variables -/

/-- The SDRAM variables that a header stands for. -/
def sdramTuples (header : Header) : List Tuple :=
  [⟨str "sdram_init", hexString 4 (header.crcVerInit >>> 16).toNat⟩,
    ⟨str "sdram_config", hexString 4 (header.configRefresh &&& 0xffff).toNat⟩,
    ⟨str "sdram_refresh", hexString 4 ((header.configRefresh >>> 16) &&& 0xffff).toNat⟩,
    ⟨str "sdram_ncdl", hexString 8 header.configNcdl.toNat⟩]

/-- The SDRAM variables of the header that is written where one of them is not set. -/
def defaultTuples : List Tuple :=
  [⟨str "sdram_init", str "0x0419"⟩, ⟨str "sdram_config", str "0x0000"⟩,
    ⟨str "sdram_refresh", str "0x8040"⟩, ⟨str "sdram_ncdl", str "0x00000000"⟩]

theorem or_crc_shiftRight (w : UInt32) (crc : UInt8) : (w ||| crc.toUInt32) >>> 16 = w >>> 16 := by
  apply UInt32.eq_of_toBitVec_eq
  change (w.toBitVec ||| crc.toBitVec.setWidth 32) >>> 16 = w.toBitVec >>> 16
  refine BitVec.eq_of_getLsbD_eq fun i hi => ?_
  simp only [BitVec.getLsbD_or, BitVec.getLsbD_setWidth, BitVec.getLsbD_ushiftRight]
  rw [BitVec.getLsbD_of_ge crc.toBitVec (16 + i) (by omega), Bool.and_false, Bool.or_false]

/-- A new header stands for the defaults, unless all four variables are set. -/
theorem newHeader_cases (machine : Machine) (h : Handle) :
    (∀ name ∈ defaultTuples.keys, (h.nvramGet machine name).isSome) ∨
      ∀ data len, sdramTuples (withCrc { newHeader machine h with len } data) = defaultTuples := by
  refine or_iff_not_imp_left.mpr fun hmissing data len => ?_
  have hnew : newHeader machine h =
      { magic := NVRAM_MAGIC
        len := 0
        crcVerInit := NVRAM_VERSION <<< 8 ||| SDRAM_INIT <<< 16
        configRefresh := SDRAM_CONFIG ||| SDRAM_REFRESH <<< 16
        configNcdl := 0 } := by
    unfold newHeader
    split
    case h_1 init config refresh ncdl hinit hconfig hrefresh hncdl =>
      refine absurd (fun name hname => ?_) hmissing
      simp only [defaultTuples, List.keys_cons, List.keys_nil, List.mem_cons, List.not_mem_nil,
        or_false] at hname
      rcases hname with rfl | rfl | rfl | rfl
      · rw [hinit]; rfl
      · rw [hconfig]; rfl
      · rw [hrefresh]; rfl
      · rw [hncdl]; rfl
    case h_2 => rfl
  rw [hnew]
  simp only [sdramTuples, withCrc, or_crc_shiftRight]
  decide +kernel

namespace Handle

variable {machine : Machine} {h h' : Handle}

/-! ## The table read again -/

/-- Values that have room are set one after the other. -/
theorem setTuples_eq {l : List Tuple}
    (hroom : ∀ t ∈ l, t.2.length + 1 ≤ h.length - h.offset) :
    h.setTuples machine l = { h with hash := h.hash.setAll (bucket machine) l } := by
  induction l generalizing h with
  | nil => rfl
  | cons t l ih =>
    have hset : (h.nvramSet machine t.1 t.2).2 =
        { h with hash := h.hash.set (bucket machine) t.1 t.2 } := by
      have ht := hroom t (by simp)
      rw [nvramSet_snd, if_neg (by omega)]
    change setTuples machine l (h.nvramSet machine t.1 t.2).2 = _
    rw [hset]
    exact ih (h := { h with hash := h.hash.set (bucket machine) t.1 t.2 })
      fun u hu => hroom u (by simp [hu])

theorem room_setMissing (name value : Str) :
    (h.setMissing machine name value).length - (h.setMissing machine name value).offset =
      h.length - h.offset := by
  unfold setMissing
  split
  case isTrue =>
    rw [nvramSet_snd]
    split <;> rfl
  case isFalse => rfl

theorem nvramGet_setMissing {name value : Str} (hroom : value.length + 1 ≤ h.length - h.offset)
    (other : Str) :
    (h.setMissing machine name value).nvramGet machine other =
      (h.nvramGet machine other).or (if other = name then some value else none) := by
  unfold setMissing
  split
  case isTrue hnone =>
    rw [nvramGet_nvramSet hroom]
    split
    case isTrue hother =>
      subst hother
      rw [Option.isNone_iff_eq_none.mp hnone]
      rfl
    case isFalse => rw [Option.or_none]
  case isFalse hsome =>
    split
    case isTrue hother =>
      subst hother
      cases hget : h.nvramGet machine other with
      | none => exact absurd (by rw [hget]; rfl) hsome
      | some _ => rfl
    case isFalse => rw [Option.or_none]

theorem nvramGet_setSdram {header : Header} (hroom : 11 ≤ h.length - h.offset) (name : Str) :
    (h.setSdram machine header).nvramGet machine name =
      (h.nvramGet machine name).or ((sdramTuples header).dlookup name) := by
  have hfold : ∀ (l : List Tuple) (h : Handle),
      (∀ t ∈ l, t.2.length + 1 ≤ h.length - h.offset) →
      (l.foldl (fun h t => h.setMissing machine t.1 t.2) h).nvramGet machine name =
        (h.nvramGet machine name).or (l.dlookup name) := by
    intro l
    induction l with
    | nil => exact fun h _ => (Option.or_none).symm
    | cons t l ih =>
      intro h hl
      rw [List.foldl_cons, ih _ fun u hu => by rw [room_setMissing]; exact hl u (by simp [hu]),
        nvramGet_setMissing (hl t (by simp)), Option.or_assoc, Lib.Entries.dlookup_cons]
      split <;> simp
  refine hfold (sdramTuples header) h fun t ht => ?_
  have hlength : ∀ t ∈ sdramTuples header, t.2.length ≤ 10 := by
    simp [sdramTuples, hexString, str]
  have := hlength t ht
  omega

/-- What the table has that is read from a text. -/
theorem nvramGet_nvramRehash {before : List UInt8} {header : Header} {l : List Tuple}
    {rest : List UInt8} (hmmap : h.mmap = before ++ (header.bytes ++ (text l ++ 0 :: rest)))
    (hbefore : before.length = h.offset) (hroom : headerSize + (text l).length ≤ h.length - h.offset)
    (hl : ∀ t ∈ l, IsName t.1 ∧ IsValue t.2) (hnodup : l.NodupKeys)
    (hrehash : h.nvramRehash machine = some h') (name : Str) :
    h'.nvramGet machine name = (l.dlookup name).or ((sdramTuples header).dlookup name) := by
  have htext : h.mmap.drop (h.offset + headerSize) = text l ++ 0 :: rest := by
    rw [hmmap, ← hbefore, ← length_bytes header, ← List.append_assoc, ← List.length_append]
    exact List.drop_left
  have hheader : h.nvramHeader = header := by
    unfold nvramHeader
    rw [hmmap, ← hbefore]
    exact headerAt_append before header _
  have hvalues : ∀ t ∈ l, t.2.length + 1 ≤ h.length - h.offset := by
    intro t ht
    have := length_le_text ht
    omega
  unfold nvramRehash at hrehash
  rw [htext, tuples_text hl, hheader, Option.map_some, Option.some_inj] at hrehash
  subst hrehash
  have hset : setTuples machine l { h with hash := fun _ => [] } =
      { h with hash := Lib.Buckets.setAll (bucket machine) l fun _ => [] } := setTuples_eq hvalues
  rw [hset]
  refine (nvramGet_setSdram (by dsimp only [headerSize] at *; omega) name).trans ?_
  congr 1
  unfold nvramGet
  rw [Lib.Buckets.get_setAll hnodup]
  simp [Lib.Buckets.get]

/-- Reading the table again changes nothing else. -/
theorem frame_of_nvramRehash (hrehash : h.nvramRehash machine = some h') :
    h'.mmap = h.mmap ∧ h'.length = h.length ∧ h'.offset = h.offset := by
  have hset : ∀ (name value : Str) (g : Handle),
      (g.nvramSet machine name value).2.mmap = g.mmap ∧
        (g.nvramSet machine name value).2.length = g.length ∧
          (g.nvramSet machine name value).2.offset = g.offset := by
    intro name value g
    rw [nvramSet_snd]
    split <;> exact ⟨rfl, rfl, rfl⟩
  have htuples : ∀ (l : List Tuple) (g : Handle), (g.setTuples machine l).mmap = g.mmap ∧
      (g.setTuples machine l).length = g.length ∧ (g.setTuples machine l).offset = g.offset := by
    intro l
    induction l with
    | nil => exact fun g => ⟨rfl, rfl, rfl⟩
    | cons t l ih =>
      intro g
      obtain ⟨hmmap, hlength, hoffset⟩ := ih (g.nvramSet machine t.1 t.2).2
      obtain ⟨hmmap', hlength', hoffset'⟩ := hset t.1 t.2 g
      exact ⟨hmmap.trans hmmap', hlength.trans hlength', hoffset.trans hoffset'⟩
  have hmissing : ∀ (name value : Str) (g : Handle),
      (g.setMissing machine name value).mmap = g.mmap ∧
        (g.setMissing machine name value).length = g.length ∧
          (g.setMissing machine name value).offset = g.offset := by
    intro name value g
    unfold setMissing
    split
    case isTrue => exact hset name value g
    case isFalse => exact ⟨rfl, rfl, rfl⟩
  obtain ⟨l, -, rfl⟩ := Option.map_eq_some_iff.mp hrehash
  have hl := htuples l { h with hash := fun _ => [] }
  simp only [setSdram, hmissing]
  exact hl

/-! ## A commit -/

/-- The text of the variables that a commit writes. -/
def written (h : Handle) : List UInt8 := writeTuples (h.length - h.offset - 2 - headerSize) h.hash

/-- The header of a commit, without its checksum. -/
def committedHeader (machine : Machine) (h : Handle) : Header :=
  { newHeader machine h with len := UInt32.ofNat (roundUp4 (headerSize + h.written.length + 2)) }

/-- The bytes that the variables need. -/
def used (h : Handle) : ℕ := headerSize + (text h.hash.entries).length + 2

/-- All variables have room. -/
def Fits (h : Handle) : Prop := h.used ≤ h.length - h.offset

theorem fits_of_roundUp4 (hlen : roundUp4 h.used < h.length - h.offset) : h.Fits := by
  unfold Fits
  unfold roundUp4 at hlen
  omega

theorem written_of_fits (hfits : h.Fits) : h.written = text h.hash.entries := by
  have hused : headerSize + (text h.hash.entries).length + 2 ≤ h.length - h.offset := hfits
  exact writeTuples_of_fits (by omega)

/-- What a commit writes, and reads again. -/
theorem exists_of_nvramCommit {address : ℕ} (hcommit : h.nvramCommit machine address = some h') :
    ∃ rest : List UInt8,
      headerSize + (h.written ++ 0 :: rest).length = h.length - h.offset ∧
        nvramRehash machine
          { h with
            mmap := h.mmap.take h.offset ++
              ((withCrc (committedHeader machine h) (h.written ++ 0 :: rest)).bytes ++
                (h.written ++ 0 :: rest)) } = some h' := by
  unfold nvramCommit at hcommit
  dsimp only at hcommit
  have hwritten : writeTuples (h.length - h.offset - 2 - headerSize) h.hash = h.written := rfl
  rw [hwritten] at hcommit
  generalize padding _ = pad at hcommit
  split at hcommit
  case isTrue => cases hcommit
  case isFalse hroom =>
    rw [not_or, Nat.not_lt] at hroom
    refine ⟨List.replicate pad 0 ++ List.replicate
      (h.length - h.offset - (headerSize + h.written.length + 1 + pad)) 0xff, ?_, ?_⟩
    · simp only [List.length_append, List.length_cons, List.length_replicate]
      omega
    · rw [← hcommit]
      simp only [committedHeader, List.append_assoc, List.cons_append]

theorem magic_committedHeader : (committedHeader machine h).magic = NVRAM_MAGIC := by
  unfold committedHeader newHeader
  split <;> rfl

theorem len_committedHeader_le (data : List UInt8) :
    (withCrc (committedHeader machine h) data).len.toNat ≤
      roundUp4 (headerSize + h.written.length + 2) := by
  have hlen : (withCrc (committedHeader machine h) data).len =
      UInt32.ofNat (roundUp4 (headerSize + h.written.length + 2)) := rfl
  rw [hlen, UInt32.toNat_ofNat']
  exact Nat.mod_le _ _

/-- What a commit leaves has its mapping, with the first magic number in its place. -/
theorem Wf.of_nvramCommit (hwf : h.Wf machine) {address : ℕ}
    (hcommit : h.nvramCommit machine address = some h') : h'.Wf machine := by
  obtain ⟨rest, hlength, hrehash⟩ := exists_of_nvramCommit hcommit
  have hoffset := offset_lt_of_findMagic hwf.magic
  have hsize := hwf.size
  have htake : (h.mmap.take h.offset).length = h.offset := by
    rw [List.length_take]
    omega
  refine Wf.of_nvramRehash ?_ ?_ hrehash
  · dsimp only
    rw [List.length_append, List.length_append, length_bytes, htake]
    omega
  · refine findMagic_congr ?_ (fun pos hpos => ?_) ?_ hwf.magic
    · dsimp only
      rw [List.length_append, List.length_append, length_bytes, htake]
      omega
    · change pos < h.offset at hpos
      dsimp only
      rw [List.getD_append _ _ _ _ (by omega), List.getD_eq_getElem?_getD, List.getElem?_take,
        if_pos hpos, List.getD_eq_getElem?_getD]
    · have hheader := headerAt_append (h.mmap.take h.offset)
        (withCrc (committedHeader machine h) (h.written ++ 0 :: rest)) (h.written ++ 0 :: rest)
      rw [htake] at hheader
      exact (congrArg Header.magic hheader).trans magic_committedHeader

/-- The variables that can be told from what a commit wrote: the ones that were set, and the
SDRAM variables with their defaults. -/
theorem Wf.nvramGet_of_nvramCommit (hwf : h.Wf machine) (hfits : h.Fits) {address : ℕ}
    (hcommit : h.nvramCommit machine address = some h') (name : Str) :
    h'.nvramGet machine name = (h.nvramGet machine name).or (defaultTuples.dlookup name) := by
  obtain ⟨rest, -, hrehash⟩ := exists_of_nvramCommit hcommit
  rw [written_of_fits hfits] at hrehash
  have hoffset := offset_lt_of_findMagic hwf.magic
  have hvalid : ∀ t ∈ h.hash.entries, IsName t.1 ∧ IsValue t.2 := fun t ht =>
    hwf.valid t.1 t.2 (hwf.hash.dlookup_entries.symm.trans
      ((List.mem_dlookup_iff hwf.hash.nodupKeys_entries).mpr ht))
  have hused : h.used ≤ h.length - h.offset := hfits
  have hget := nvramGet_nvramRehash rfl (by rw [List.length_take]; dsimp only; omega)
    (by unfold used at hused; dsimp only; omega) hvalid hwf.hash.nodupKeys_entries hrehash name
  rw [hget, hwf.hash.dlookup_entries]
  change (h.nvramGet machine name).or _ = _
  rcases newHeader_cases machine h with hall | hdefault
  · -- All four are set, so that no variable comes from a header.
    by_cases hname : name ∈ defaultTuples.keys
    · obtain ⟨value, hvalue⟩ := Option.isSome_iff_exists.mp (hall name hname)
      rw [hvalue]
      rfl
    · have hkeys : ∀ header, name ∉ (sdramTuples header).keys := fun header => hname
      rw [List.dlookup_eq_none.mpr hname, List.dlookup_eq_none.mpr (hkeys _)]
  · unfold committedHeader
    rw [hdefault]

end Handle

/-! ## Every run -/

variable {machine : Machine} {h h' : Handle}

theorem wf_of_reachable (hreach : (system machine).Reachable h) : h.Wf machine := by
  refine Lib.System.Reachable.invariant (I := Handle.Wf machine) ?_ ?_ hreach
  · rintro h ⟨image, rdonly, hopen⟩
    exact wf_of_nvramOpen hopen
  · rintro h op h' hwf ⟨hvalid, happly⟩
    cases op with
    | get name =>
      cases happly
      exact hwf
    | set name value =>
      cases happly
      exact hwf.nvramSet hvalid.1 hvalid.2
    | unset name =>
      cases happly
      exact hwf.nvramUnset name
    | commit address =>
      have hcommit : h.nvramCommit machine address = some h' := happly
      exact hwf.of_nvramCommit hcommit

/-- The partition that a commit leaves opens as the handle that it leaves. -/
theorem nvramOpen_of_nvramCommit (hwf : h.Wf machine) {address : ℕ}
    (hcommit : h.nvramCommit machine address = some h') {rdonly : Bool}
    (hlen : rdonly = true ∨
      roundUp4 (headerSize + h.written.length + 2) < h.length - h.offset) :
    nvramOpen machine h'.mmap rdonly = some h' := by
  have hwf' := hwf.of_nvramCommit hcommit
  obtain ⟨rest, -, hrehash⟩ := Handle.exists_of_nvramCommit hcommit
  obtain ⟨hmmap, hlength, hoffset⟩ := Handle.frame_of_nvramRehash hrehash
  dsimp only at hmmap hlength hoffset
  unfold nvramOpen
  rw [hwf'.magic]
  dsimp only
  rw [hwf'.size, hlength, hoffset, if_pos ?_]
  · rw [← hrehash, ← hmmap]
    rfl
  · rw [Bool.or_eq_true, decide_eq_true_eq]
    refine hlen.imp_right fun hlen => Nat.lt_of_le_of_lt ?_ hlen
    have htake : (h.mmap.take h.offset).length = h.offset := by
      have := offset_lt_of_findMagic hwf.magic
      rw [List.length_take]
      omega
    have hheader := headerAt_append (h.mmap.take h.offset)
      (withCrc (h.committedHeader machine) (h.written ++ 0 :: rest)) (h.written ++ 0 :: rest)
    rw [htake, ← hmmap] at hheader
    unfold Handle.nvramHeader
    dsimp only
    rw [hheader]
    exact Handle.len_committedHeader_le _

/-- From any partition, after any calls: where all variables have room, a commit that succeeds
leaves a partition that opens with them, and with the defaults of the SDRAM variables that
were not set. -/
theorem read_back_of_reachable (hreach : (system machine).Reachable h) (hfits : h.Fits)
    {address : ℕ} (hcommit : h.nvramCommit machine address = some h') {rdonly : Bool}
    (hlen : rdonly = true ∨ roundUp4 h.used < h.length - h.offset) :
    ∃ h'', nvramOpen machine h'.mmap rdonly = some h'' ∧ h''.hash.entries.NodupKeys ∧
      ∀ name, h''.nvramGet machine name =
        (h.nvramGet machine name).or (defaultTuples.dlookup name) := by
  have hwf := wf_of_reachable hreach
  refine ⟨h', nvramOpen_of_nvramCommit hwf hcommit ?_,
    (hwf.of_nvramCommit hcommit).hash.nodupKeys_entries, hwf.nvramGet_of_nvramCommit hfits hcommit⟩
  rw [Handle.written_of_fits hfits]
  exact hlen

/-! ## A partition as it comes -/

/-- A 32-bit machine whose `char` is signed. -/
def machine32 : Machine := ⟨true, 4⟩

/-- A partition of some bytes with one variable. -/
def factoryImage (size : ℕ) : List UInt8 :=
  Header.bytes ⟨NVRAM_MAGIC, 36, 0x04190100, 0x80400000, 0⟩ ++
    (str "boot_wait=on" ++ 0 :: 0 :: List.replicate (size - 34) 0xff)

/-- A run that opens the partition, takes out an SDRAM variable and commits. -/
theorem exists_unset_sdram : ∃ h h', (system machine32).Reachable h ∧
    h.nvramCommit machine32 0 = some h' ∧ h.nvramGet machine32 (str "sdram_init") = none ∧
      roundUp4 h.used < h.length - h.offset := by
  have hrun : ((nvramOpen machine32 (factoryImage 0x8000) false).bind fun h =>
    let h := h.nvramUnset machine32 (str "sdram_init")
    (h.nvramCommit machine32 0).map fun _ => (h.nvramGet machine32 (str "sdram_init"),
      decide (roundUp4 h.used < h.length - h.offset))) = some (none, true) := by
    decide +kernel
  obtain ⟨h, hopen, hrun⟩ := Option.bind_eq_some_iff.mp hrun
  obtain ⟨h', hcommit, hrun⟩ := Option.map_eq_some_iff.mp hrun
  rw [Prod.mk.injEq, decide_eq_true_eq] at hrun
  have hstart : (system machine32).Reachable h := .start ⟨_, _, hopen⟩
  exact ⟨_, h', hstart.step (.unset (str "sdram_init")) ⟨trivial, rfl⟩, hcommit, hrun.1, hrun.2⟩

/-- The variables are read back after an SDRAM variable was taken out. -/
theorem read_back_of_unset : ∃ h h' h'', (system machine32).Reachable h ∧
    h.nvramCommit machine32 0 = some h' ∧ nvramOpen machine32 h'.mmap false = some h'' ∧
      h''.hash.entries.NodupKeys ∧ ∀ name, h''.nvramGet machine32 name =
        (h.nvramGet machine32 name).or (defaultTuples.dlookup name) := by
  obtain ⟨h, h', hreach, hcommit, -, hlen⟩ := exists_unset_sdram
  have hfits := Handle.fits_of_roundUp4 hlen
  obtain ⟨h'', hread⟩ := read_back_of_reachable hreach hfits hcommit
    (Or.inr hlen : false = true ∨ _)
  exact ⟨h, h', h'', hreach, hcommit, hread⟩

/-- What is read back is not always what there was. An SDRAM variable that was taken out is
there again, and where two values have no room together one of them is lost, both after a
commit that succeeds. -/
theorem not_read_back_same :
    (∃ h h' h'', (system machine32).Reachable h ∧ h.nvramCommit machine32 0 = some h' ∧
      nvramOpen machine32 h'.mmap false = some h'' ∧
        h.nvramGet machine32 (str "sdram_init") = none ∧
          h''.nvramGet machine32 (str "sdram_init") = some (str "0x0419")) ∧
    ∃ h h' h'', (system machine32).Reachable h ∧ h.nvramCommit machine32 0 = some h' ∧
      nvramOpen machine32 h'.mmap false = some h'' ∧
        (h.nvramGet machine32 (str "a")).isSome ∧ h''.nvramGet machine32 (str "a") = none := by
  constructor
  · obtain ⟨h, h', hreach, hcommit, hget, hlen⟩ := exists_unset_sdram
    have hwf := wf_of_reachable hreach
    have hfits := Handle.fits_of_roundUp4 hlen
    refine ⟨h, h', h', hreach, hcommit, nvramOpen_of_nvramCommit hwf hcommit (.inr ?_), hget, ?_⟩
    · rw [Handle.written_of_fits hfits]
      exact hlen
    · rw [hwf.nvramGet_of_nvramCommit hfits hcommit, hget]
      decide +kernel
  · have hrun : ((nvramOpen machine32 (factoryImage 256) false).bind fun h =>
        let h := (h.nvramSet machine32 (str "a") (List.replicate 120 65)).2
        let h := (h.nvramSet machine32 (str "b") (List.replicate 120 66)).2
        (h.nvramCommit machine32 0).bind fun h' =>
          (nvramOpen machine32 h'.mmap false).map fun h'' =>
            ((h.nvramGet machine32 (str "a")).isSome, h''.nvramGet machine32 (str "a"))) =
        some (true, none) := by
      decide +kernel
    obtain ⟨h, hopen, hrun⟩ := Option.bind_eq_some_iff.mp hrun
    obtain ⟨h', hcommit, hrun⟩ := Option.bind_eq_some_iff.mp hrun
    obtain ⟨h'', hread, hrun⟩ := Option.map_eq_some_iff.mp hrun
    rw [Prod.mk.injEq] at hrun
    have hstart : (system machine32).Reachable h := .start ⟨_, _, hopen⟩
    have hvalid : IsName (str "a") ∧ IsValue (List.replicate 120 65) ∧ IsName (str "b") ∧
        IsValue (List.replicate 120 66) := by
      unfold IsName IsValue
      decide +kernel
    have hset := hstart.step (.set (str "a") (List.replicate 120 65))
      ⟨⟨hvalid.1, hvalid.2.1⟩, rfl⟩
    exact ⟨_, h', h'', hset.step (.set (str "b") (List.replicate 120 66)) ⟨hvalid.2.2, rfl⟩,
      hcommit, hread, hrun.1, hrun.2⟩

end OpenWrt.Nvram
