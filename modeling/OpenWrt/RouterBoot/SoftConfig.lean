/-
# The commit state of the soft configuration

The driver keeps the partition in a buffer. A store changes a payload in the buffer and clears the
CRC in it, which marks the buffer as dirty; a commit puts the CRC back and writes the buffer, and
clears it again when the flash does not take it; a discard reads the buffer anew. The functions of
the kernel that the driver calls are given, and what the flash does in a call is any outcome in which
a success of full length has done what it says.
-/

import OpenWrt.Lib.Run
import OpenWrt.RouterBoot.TagFind

namespace OpenWrt.RouterBoot

open OpenWrt.Lib

/-! ## The driver -/

/-- The processors that the tables of the frequencies distinguish. -/
inductive Soc where
  | ar7161 | ar71xx | ar724x | ar9344 | qca953x | qca9556 | qca9558 | other
  deriving DecidableEq, Repr

/-- The attributes, one for each known tag. -/
inductive ScAttr where
  | uartSpeed | bootDelay | bootDevice | bootKey | cpuMode | biosVersion | bootProto | cpufreqIndex
  | booter | silentBoot
  deriving DecidableEq, Repr

/-- The error codes that are returned. -/
inductive ScErrno where
  | eopnotsupp | eacces | enoent | einval | enodev | eio
  | other (ret : ℤ)
  deriving DecidableEq, Repr

/-- The machine and the kernel: the byte order, the size of the partition, `CONFIG_ATH79` with the
processor, and the functions that are called. -/
structure Driver where
  bigEndian : Bool
  scBuflen : ℕ
  soc : Option Soc
  crc32 : BitVec 32 → (ℕ → UInt8) → ℕ → BitVec 32
  sysfsStreq : String → String → Bool
  kstrtou32 : String → Except ScErrno (BitVec 32)
  kstrtobool : String → Except ScErrno Bool

/-- The buffer, the partition, and the offsets and lengths of the payloads. -/
structure SoftConfig where
  scBuf : ℕ → UInt8
  flash : ℕ → UInt8
  pld : ScAttr → ℕ × ℕ

/-- What the flash does in one call: whether the device is there, and of each operation the returned
value, the number of bytes, and what it leaves in the buffer or in the partition. -/
structure MtdCall where
  device : Bool
  readRet : ℤ
  bytesRead : ℕ
  readBuf : ℕ → UInt8
  eraseRet : ℤ
  erased : ℕ → UInt8
  writeRet : ℤ
  bytesWritten : ℕ
  written : ℕ → UInt8

namespace ScAttr

/-- `tag_id`. -/
def tagId : ScAttr → ℕ
  | uartSpeed => 0x01
  | bootDelay => 0x02
  | bootDevice => 0x03
  | bootKey => 0x04
  | cpuMode => 0x05
  | biosVersion => 0x06
  | bootProto => 0x09
  | cpufreqIndex => 0x0C
  | booter => 0x0D
  | silentBoot => 0x0F

end ScAttr

/-! ### The values of the tags -/

def scUartspeeds : List (BitVec 32 × String) :=
  [(8, "off"), (7, "1200"), (6, "2400"), (5, "4800"), (4, "9600"), (3, "19200"), (2, "38400"),
    (1, "57600"), (0, "115200")]

def scBootdevices : List (BitVec 32 × String) :=
  [(0, "eth"), (1, "flasheth"), (3, "ethonce"), (5, "flash"), (7, "cfg"), (8, "cfgonce")]

def scCpufreqIndexesAth799x : List (BitVec 32 × String) :=
  [(0, "a"), (0x8, "b"), (0x10, "c"), (0x18, "d"), (0x20, "e"), (0x28, "f")]

def scCpufreqIndexesAth797x : List (BitVec 32 × String) :=
  [(0, "a"), (0x90, "b"), (0x120, "c"), (0x1b0, "d"), (0x240, "e"), (0x2d0, "f"), (0x360, "g"),
    (0x3f0, "h")]

/-- `sc_tag_cpufreq_ath79_arraysize`. -/
def cpufreqArraysize : Soc → Except ScErrno ℕ
  | .ar7161 => .ok 8
  | .ar724x => .ok 4
  | .ar9344 => .ok 6
  | .qca953x => .ok 5
  | .qca9556 => .ok 3
  | .qca9558 => .ok 4
  | .ar71xx => .error .eopnotsupp
  | .other => .error .eopnotsupp

namespace Driver

variable (d : Driver)

/-! ### The stores -/

/-- `sc_tag_store_u32tvs`: the value to store. -/
def storeU32tvs (tvs : List (BitVec 32 × String)) (tvselmts : Except ScErrno ℕ) (pldLen : ℕ)
    (buf : String) : Except ScErrno (BitVec 32) :=
  match tvselmts with
  | .error code => .error code
  | .ok tvselmts =>
    if pldLen ≠ 4 then .error .einval
    else
      match (tvs.take tvselmts).find? fun tv => d.sysfsStreq buf tv.2 with
      | some tv => .ok tv.1
      | none => .error .einval

/-- `sc_tag_store_boolts`. -/
def storeBoolts (strfalse strtrue : String) (pldLen : ℕ) (buf : String) :
    Except ScErrno (BitVec 32) :=
  if pldLen ≠ 4 then .error .einval
  else if d.sysfsStreq buf strfalse then .ok 0
  else if d.sysfsStreq buf strtrue then .ok 1
  else .error .einval

/-- `sc_tag_store_bootdelays`. -/
def storeBootdelays (pldLen : ℕ) (buf : String) : Except ScErrno (BitVec 32) :=
  if pldLen ≠ 4 then .error .einval
  else
    match d.kstrtou32 buf with
    | .error code => .error code
    | .ok data => if data < 1 ∨ 9 < data then .error .einval else .ok data

/-- `sc_tag_store_cpufreq_indexes`. -/
def storeCpufreqIndexes (soc : Soc) : ℕ → String → Except ScErrno (BitVec 32) :=
  let tvs :=
    if soc = .ar7161 ∨ soc = .ar71xx ∨ soc = .ar724x then scCpufreqIndexesAth797x
    else scCpufreqIndexesAth799x
  d.storeU32tvs tvs (cpufreqArraysize soc)

/-- `tstore`. -/
def tstore : ScAttr → Option (ℕ → String → Except ScErrno (BitVec 32))
  | .uartSpeed => some (d.storeU32tvs scUartspeeds (.ok 9))
  | .bootDelay => some d.storeBootdelays
  | .bootDevice => some (d.storeU32tvs scBootdevices (.ok 6))
  | .bootKey => some (d.storeBoolts "any" "del")
  | .cpuMode => some (d.storeBoolts "powersave" "regular")
  | .biosVersion => none
  | .bootProto => some (d.storeBoolts "bootp" "dhcp")
  | .cpufreqIndex => d.soc.map d.storeCpufreqIndexes
  | .booter => some (d.storeBoolts "regular" "backup")
  | .silentBoot => some (d.storeBoolts "off" "on")

/-! ### The buffer -/

def getU32 (mem : ℕ → UInt8) (ofs : ℕ) : ℕ := (TagBuffer.mk mem d.scBuflen d.bigEndian).node ofs

/-- The buffer with a word in it. -/
def putU32 (mem : ℕ → UInt8) (ofs : ℕ) (value : BitVec 32) : ℕ → UInt8 := fun i =>
  if ofs ≤ i ∧ i < ofs + 4 then
    let byte := if d.bigEndian then 3 - (i - ofs) else i - ofs
    ⟨(value >>> (8 * byte)).setWidth 8⟩
  else mem i

/-- `RB_SC_GETCRC`. -/
def getCrc (mem : ℕ → UInt8) : ℕ := d.getU32 mem 4

/-- `RB_SC_SETCRC`. -/
def setCrc (mem : ℕ → UInt8) (crc : BitVec 32) : ℕ → UInt8 := d.putU32 mem 4 crc

/-- `RB_SC_CLRCRC`. -/
def clrCrc (mem : ℕ → UInt8) : ℕ → UInt8 := d.putU32 mem 4 0

/-! ### The calls -/

/-- `sc_attr_store`, by a process with or without the capability. -/
def attrStore (s : SoftConfig) (capable : Bool) (attr : ScAttr) (buf : String) :
    Except ScErrno Unit × SoftConfig :=
  if capable = false then (.error .eacces, s)
  else
    match d.tstore attr with
    | none => (.error .eopnotsupp, s)
    | some store =>
      let (pldOfs, pldLen) := s.pld attr
      if pldLen = 0 then (.error .enoent, s)
      else
        match store pldLen buf with
        | .error code => (.error code, s)
        | .ok data => (.ok (), { s with scBuf := d.clrCrc (d.putU32 s.scBuf pldOfs data) })

/-- `sc_commit_show`. -/
def commitShow (s : SoftConfig) : String := if d.getCrc s.scBuf ≠ 0 then "clean" else "dirty"

/-- The end of `sc_commit_store`, from the lock on. -/
def commitEnd (ret : ℤ) (bytesRw : ℕ) (s : SoftConfig) : Except ScErrno Unit × SoftConfig :=
  if ret ≠ 0 then (.error (.other ret), { s with scBuf := d.clrCrc s.scBuf })
  else if bytesRw ≠ d.scBuflen then (.error .eio, { s with scBuf := d.clrCrc s.scBuf })
  else (.ok (), s)

def withCrc (mem : ℕ → UInt8) : ℕ → UInt8 := d.setCrc mem (~~~ d.crc32 (~~~ 0) mem d.scBuflen)

/-- `sc_commit_store`. -/
def commitStore (s : SoftConfig) (buf : String) (mtd : MtdCall) : Except ScErrno Unit × SoftConfig :=
  if d.getCrc s.scBuf ≠ 0 then (.ok (), s)
  else
    match d.kstrtobool buf with
    | .error code => (.error code, s)
    | .ok flush =>
      if mtd.device = false then (.error .enodev, s)
      else if flush = false then
        d.commitEnd mtd.readRet mtd.bytesRead
          { s with scBuf := fun i => if i < d.scBuflen then mtd.readBuf i else s.scBuf i }
      else if mtd.eraseRet ≠ 0 then
        d.commitEnd mtd.eraseRet 0 { s with scBuf := d.withCrc s.scBuf, flash := mtd.erased }
      else
        d.commitEnd mtd.writeRet mtd.bytesWritten
          { s with scBuf := d.withCrc s.scBuf, flash := mtd.written }

/-! ### The runs -/

/-- The buffer and the partition are the same. -/
def Synced (s : SoftConfig) : Prop := ∀ i < d.scBuflen, s.scBuf i = s.flash i

/-- A read or a write that returns no error and the full length has read or written. -/
structure Lawful (s : SoftConfig) (mtd : MtdCall) : Prop where
  read : mtd.readRet = 0 → mtd.bytesRead = d.scBuflen →
    ∀ i < d.scBuflen, mtd.readBuf i = s.flash i
  write : mtd.eraseRet = 0 → mtd.writeRet = 0 → mtd.bytesWritten = d.scBuflen →
    ∀ i < d.scBuflen, mtd.written i = d.withCrc s.scBuf i

/-- The tag of an attribute is found behind the magic number and the CRC, or it is not. -/
def Located (s : SoftConfig) (attr : ScAttr) : Prop :=
  let tags : TagBuffer := ⟨fun i => s.scBuf (i + 8), d.scBuflen - 8, d.bigEndian⟩
  (∃ pldOfs pldLen, tags.Returns attr.tagId (.found pldOfs pldLen) ∧
      s.pld attr = ((pldOfs + 8) % 2 ^ 16, pldLen)) ∨
    (∀ pldOfs pldLen, ¬ tags.Returns attr.tagId (.found pldOfs pldLen)) ∧ s.pld attr = (0, 0)

/-- The state after `rb_softconfig_init`. -/
structure Loaded (s : SoftConfig) : Prop where
  read : d.Synced s
  magic : d.getU32 s.scBuf 0 = 0x74666f53
  located : ∀ attr, d.Located s attr

/-- A call: a store in an attribute, or one in `commit`, which commits or discards. -/
inductive Call where
  | store (capable : Bool) (attr : ScAttr) (buf : String)
  | commit (buf : String) (mtd : MtdCall)

/-- What a call may do. -/
def Step (s : SoftConfig) : Call → SoftConfig → Prop
  | .store capable attr buf, s' => s' = (d.attrStore s capable attr buf).2
  | .commit buf mtd, s' => d.Lawful s mtd ∧ s' = (d.commitStore s buf mtd).2

/-- The driver under calls in any order. -/
def system : System SoftConfig Call := ⟨d.Loaded, d.Step⟩

/-- A buffer that is reported as clean is the partition, and a commit that fails leaves its changes
in the buffer, which is reported as dirty. -/
structure CommitState : Prop where
  clean : ∀ s, d.system.Reachable s → d.commitShow s = "clean" → d.Synced s
  pending : ∀ s buf mtd code s', d.system.Reachable s →
    d.commitStore s buf mtd = (.error code, s') →
      d.commitShow s' = "dirty" ∧ (d.kstrtobool buf = .ok true → s'.scBuf = s.scBuf)

end Driver

/-! ## The word of the CRC -/

namespace Driver

variable {d : Driver} {s : SoftConfig}

theorem getCrc_eq_zero_iff (mem : ℕ → UInt8) :
    d.getCrc mem = 0 ↔ ∀ i, 4 ≤ i → i < 8 → mem i = 0 := by
  have hbyte : ∀ i, mem i = 0 ↔ (mem i).toNat = 0 := fun i => by
    rw [← UInt8.toNat_inj]
    rfl
  have hsum : d.getCrc mem = 0 ↔ (mem 4).toNat = 0 ∧ (mem 5).toNat = 0 ∧ (mem 6).toNat = 0 ∧
      (mem 7).toNat = 0 := by
    unfold getCrc getU32 TagBuffer.node
    dsimp only
    cases d.bigEndian with
    | true =>
      change (mem 7).toNat + (mem 6).toNat * 2 ^ 8 + (mem 5).toNat * 2 ^ 16 +
        (mem 4).toNat * 2 ^ 24 = 0 ↔ _
      omega
    | false =>
      change (mem 4).toNat + (mem 5).toNat * 2 ^ 8 + (mem 6).toNat * 2 ^ 16 +
        (mem 7).toNat * 2 ^ 24 = 0 ↔ _
      omega
  rw [hsum, ← hbyte, ← hbyte, ← hbyte, ← hbyte]
  constructor
  · rintro ⟨h4, h5, h6, h7⟩ i hle hlt
    obtain rfl | rfl | rfl | rfl : i = 4 ∨ i = 5 ∨ i = 6 ∨ i = 7 := by omega
    · exact h4
    · exact h5
    · exact h6
    · exact h7
  · intro h
    exact ⟨h 4 (by decide) (by decide), h 5 (by decide) (by decide), h 6 (by decide) (by decide),
      h 7 (by decide) (by decide)⟩

theorem clrCrc_apply (d : Driver) (mem : ℕ → UInt8) (i : ℕ) :
    d.clrCrc mem i = if 4 ≤ i ∧ i < 8 then 0 else mem i := by
  have hzero : ∀ n : ℕ, (⟨((0 : BitVec 32) >>> n).setWidth 8⟩ : UInt8) = 0 := fun n => by
    have hshift : (0 : BitVec 32) >>> n = 0 := BitVec.zero_ushiftRight
    rw [hshift]
    rfl
  unfold clrCrc putU32
  dsimp only
  rw [hzero]

theorem getCrc_clrCrc (d : Driver) (mem : ℕ → UInt8) : d.getCrc (d.clrCrc mem) = 0 := by
  rw [getCrc_eq_zero_iff]
  intro i hle hlt
  rw [clrCrc_apply, if_pos ⟨hle, hlt⟩]

theorem clrCrc_withCrc {mem : ℕ → UInt8} (h : d.getCrc mem = 0) :
    d.clrCrc (d.withCrc mem) = mem := by
  rw [getCrc_eq_zero_iff] at h
  ext i
  rw [clrCrc_apply]
  by_cases hin : 4 ≤ i ∧ i < 8
  · rw [if_pos hin, h i hin.1 hin.2]
  · rw [if_neg hin]
    unfold withCrc setCrc putU32
    rw [if_neg hin]

theorem commitShow_eq_clean_iff : d.commitShow s = "clean" ↔ d.getCrc s.scBuf ≠ 0 := by
  unfold commitShow
  split
  case isTrue h => exact ⟨fun _ => h, fun _ => rfl⟩
  case isFalse h => exact ⟨fun heq => absurd heq (by decide), fun hne => absurd hne h⟩

theorem commitShow_of_zero (h : d.getCrc s.scBuf = 0) : d.commitShow s = "dirty" := by
  unfold commitShow
  rw [if_neg (fun hne => hne h)]

/-! ## The calls -/

/-- The buffer is dirty or the partition. -/
def Marked (d : Driver) (s : SoftConfig) : Prop := d.getCrc s.scBuf ≠ 0 → d.Synced s

/-- A store marks the buffer as dirty, or leaves it. -/
theorem marked_attrStore (h : d.Marked s) (capable : Bool) (attr : ScAttr) (buf : String) :
    d.Marked (d.attrStore s capable attr buf).2 := by
  unfold attrStore
  split
  · exact h
  · split
    · exact h
    · dsimp only
      split
      · exact h
      · split
        · exact h
        · exact fun hclean => absurd (getCrc_clrCrc d _) hclean

/-- The end of a commit marks the buffer as dirty, or has made it the partition. -/
theorem marked_commitEnd {ret : ℤ} {bytesRw : ℕ}
    (h : ret = 0 → bytesRw = d.scBuflen → d.Synced s) : d.Marked (d.commitEnd ret bytesRw s).2 := by
  unfold commitEnd
  by_cases hret : ret ≠ 0
  · rw [if_pos hret]
    exact fun hclean => absurd (getCrc_clrCrc d _) hclean
  · rw [if_neg hret]
    by_cases hlen : bytesRw ≠ d.scBuflen
    · rw [if_pos hlen]
      exact fun hclean => absurd (getCrc_clrCrc d _) hclean
    · rw [if_neg hlen]
      exact fun _ => h (not_not.mp hret) (not_not.mp hlen)

theorem marked_commitStore (h : d.Marked s) (buf : String) {mtd : MtdCall} (hmtd : d.Lawful s mtd) :
    d.Marked (d.commitStore s buf mtd).2 := by
  unfold commitStore
  split
  · exact h
  · split
    · exact h
    · split
      · exact h
      · split
        · apply marked_commitEnd
          intro hret hlen i hi
          dsimp only
          rw [if_pos hi]
          exact hmtd.read hret hlen i hi
        · split
          case isTrue herase => exact marked_commitEnd fun hret => absurd hret herase
          case isFalse herase =>
            apply marked_commitEnd
            intro hret hlen i hi
            exact (hmtd.write (not_not.mp herase) hret hlen i hi).symm

/-- In every run the buffer is dirty or the partition. -/
theorem marked_of_reachable (h : d.system.Reachable s) : d.Marked s := by
  apply h.invariant
  · exact fun s hs _ => hs.read
  · intro s call s' hs hstep
    cases call with
    | store capable attr buf =>
      obtain rfl := hstep
      exact marked_attrStore hs capable attr buf
    | commit buf mtd =>
      obtain ⟨hmtd, rfl⟩ := hstep
      exact marked_commitStore hs buf hmtd

theorem commitEnd_error {ret : ℤ} {bytesRw : ℕ} {code : ScErrno} {s' : SoftConfig}
    (h : d.commitEnd ret bytesRw s = (.error code, s')) : s'.scBuf = d.clrCrc s.scBuf := by
  unfold commitEnd at h
  split at h
  · obtain ⟨-, rfl⟩ := Prod.mk.inj h
    rfl
  · split at h
    · obtain ⟨-, rfl⟩ := Prod.mk.inj h
      rfl
    · cases h

theorem commitStore_error {buf : String} {mtd : MtdCall} {code : ScErrno} {s' : SoftConfig}
    (h : d.commitStore s buf mtd = (.error code, s')) :
    d.getCrc s'.scBuf = 0 ∧ (d.kstrtobool buf = .ok true → s'.scBuf = s.scBuf) := by
  unfold commitStore at h
  by_cases hclean : d.getCrc s.scBuf ≠ 0
  · rw [if_pos hclean] at h
    cases h
  · rw [if_neg hclean] at h
    have hzero : d.getCrc s.scBuf = 0 := not_not.mp hclean
    cases hflush : d.kstrtobool buf with
    | error code' =>
      rw [hflush] at h
      obtain ⟨-, rfl⟩ := Prod.mk.inj h
      exact ⟨hzero, fun _ => rfl⟩
    | ok flush =>
      rw [hflush] at h
      dsimp only at h
      by_cases hdevice : mtd.device = false
      · rw [if_pos hdevice] at h
        obtain ⟨-, rfl⟩ := Prod.mk.inj h
        exact ⟨hzero, fun _ => rfl⟩
      · rw [if_neg hdevice] at h
        cases flush with
        | false =>
          rw [if_pos rfl] at h
          rw [commitEnd_error h]
          exact ⟨getCrc_clrCrc d _, fun hno => absurd (Except.ok.inj hno) Bool.false_ne_true⟩
        | true =>
          rw [if_neg (by decide)] at h
          split at h
          · rw [commitEnd_error h]
            exact ⟨getCrc_clrCrc d _, fun _ => clrCrc_withCrc hzero⟩
          · rw [commitEnd_error h]
            exact ⟨getCrc_clrCrc d _, fun _ => clrCrc_withCrc hzero⟩

/-- The commit state is right in every run. -/
theorem commitState (d : Driver) : d.CommitState where
  clean s hs hclean := marked_of_reachable hs (commitShow_eq_clean_iff.mp hclean)
  pending s buf mtd code s' _ h := by
    obtain ⟨hzero, hsame⟩ := commitStore_error h
    exact ⟨commitShow_of_zero hzero, hsame⟩

end Driver

end OpenWrt.RouterBoot
