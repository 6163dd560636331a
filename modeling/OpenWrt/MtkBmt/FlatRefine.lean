/-
# The layer refines the flat flash

Each iteration of a loop keeps what is known of the flat flash on the device, and
either brings the request closer to its end or answers it as the flat flash would.
-/

import OpenWrt.MtkBmt.FlatFlash

namespace OpenWrt.MtkBmt.Layer

open OpenWrt.Lib

section Shown

variable {σ : Type} {c : Chip} {ops : Ops σ} {view : View σ} {flat flat' : Flat} {s t : σ}

/-! ## What the operations leave -/

theorem OnlyBlock.sameAt {p : ℕ} (h : OnlyBlock ops view s t p) {b : ℕ}
    (hne : ops.getMappingBlock s b ≠ p) : SameAt c ops view s t b := by
  refine ⟨h.1 b, fun q hq => ?_⟩
  have hqp : q ≠ p := by
    rintro rfl
    exact hne hq
  exact ⟨fun off _ => (h.2 q hqp).1 off, fun off _ => (h.2 q hqp).2 off⟩

/-- A device on which nothing changes for the logical blocks. -/
theorem ShownBy.of_sameAt (h : ShownBy c ops view flat s)
    (hsame : ∀ b < c.totalBlks, SameAt c ops view s t b) : ShownBy c ops view flat t := by
  constructor
  · intro b hb p hp off hoff v hv
    rw [(hsame b hb).1] at hp
    rw [((hsame b hb).2 p hp).1 off hoff]
    exact h.data b hb p hp off hoff v hv
  · intro b hb p hp off hoff v hv
    rw [(hsame b hb).1] at hp
    rw [((hsame b hb).2 p hp).2 off hoff]
    exact h.oob b hb p hp off hoff v hv

theorem ShownBy.weaken (h : ShownBy c ops view flat s)
    (hdata : ∀ a v, flat'.data a = some v → flat.data a = some v)
    (hoob : ∀ a v, flat'.oob a = some v → flat.oob a = some v) : ShownBy c ops view flat' s :=
  ⟨fun b hb p hp off hoff v hv => h.data b hb p hp off hoff v (hdata _ v hv),
    fun b hb p hp off hoff v hv => h.oob b hb p hp off hoff v (hoob _ v hv)⟩

/-- A change of one logical block, in both. -/
theorem ShownBy.update (h : ShownBy c ops view flat s) {b : ℕ}
    (hother : ∀ b' < c.totalBlks, b' ≠ b → SameAt c ops view s t b')
    (hdata : ∀ b' < c.totalBlks, b' ≠ b → ∀ off < c.blkSize,
      flat'.data (b' * c.blkSize + off) = flat.data (b' * c.blkSize + off))
    (hoob : ∀ b' < c.totalBlks, b' ≠ b → ∀ off < c.spareSize,
      flat'.oob (b' * c.spareSize + off) = flat.oob (b' * c.spareSize + off))
    (hself : b < c.totalBlks → ∀ p : ℕ, ops.getMappingBlock t b = p →
      (∀ off < c.blkSize, ∀ v, flat'.data (b * c.blkSize + off) = some v →
        view.cell t p off = v) ∧
      ∀ off < c.spareSize, ∀ v, flat'.oob (b * c.spareSize + off) = some v →
        view.spare t p off = v) :
    ShownBy c ops view flat' t where
  data := h.data.update (fun b' hb' hne => (hother b' hb' hne).1)
    (fun b' hb' hne p hp => ((hother b' hb' hne).2 p hp).1) hdata
    fun hb p hp => (hself hb p hp).1
  oob := h.oob.update (fun b' hb' hne => (hother b' hb' hne).1)
    (fun b' hb' hne p hp => ((hother b' hb' hne).2 p hp).2) hoob
    fun hb p hp => (hself hb p hp).2

variable (hlaw : Lawful c ops view)

include hlaw in
/-- A remap keeps what is known, when the bytes it does not copy are erased or not
known. -/
theorem ShownBy.remap (h : ShownBy c ops view flat s) {b p copyLen : ℕ} (hb : b < c.totalBlks)
    (hp : ops.getMappingBlock s b = p)
    (hblank : (mtkBmtRemapBlock c ops b p copyLen s).1 = true →
      (∀ off < c.blkSize, copyLen ≤ off → ∀ v, flat.data (b * c.blkSize + off) = some v →
        v = 0xff) ∧
      ∀ off < c.spareSize, ∀ v, flat.oob (b * c.spareSize + off) = some v → v = 0xff) :
    ShownBy c ops view flat (mtkBmtRemapBlock c ops b p copyLen s).2 := by
  unfold mtkBmtRemapBlock at hblank ⊢
  cases hrange : c.mappingBlockInRange b with
  | none => exact h
  | some r =>
    rw [hrange] at hblank
    dsimp only at hblank ⊢
    cases hok : (ops.remapBlock b p copyLen s).1 with
    | false => exact h.of_sameAt fun b' hb' => hlaw.remap_leaves hb' (.inr hok)
    | true =>
      obtain ⟨hdata, hoob⟩ := hblank hok
      obtain ⟨q, hq, hcopied, hspare⟩ := hlaw.remap_copies hb hp hok
      refine h.update (fun b' hb' hne => hlaw.remap_leaves hb' (.inl hne))
        (fun _ _ _ _ _ => rfl) (fun _ _ _ _ _ => rfl) fun _ q' hq' => ?_
      have hqq : q' = q := by
        rw [hq] at hq'
        exact (Int.ofNat.inj hq').symm
      subst hqq
      refine ⟨fun off hoff v hv => ?_, fun off hoff v hv => ?_⟩
      · rw [hcopied off hoff]
        split
        case isTrue => exact h.data b hb p hp off hoff v hv
        case isFalse hle => exact (hdata off hoff (Nat.le_of_not_lt hle) v hv).symm
      · rw [hspare off hoff]
        exact (hoob off hoff v hv).symm

end Shown

/-! ## Reading -/

section Read

variable {σ : Type} {c : Chip} {ops : Ops σ} {view : View σ} {flat : Flat} {s t : σ}

/-- What holds in the loop of a read. -/
structure Reading.Inv (c : Chip) (flat : Flat) (r : Reading) : Prop where
  onFlash : Request.OnFlash c (.read r.ops)
  fits : OobFits c r.ops.ooblen (r.ops.addr % c.blkSize) r.ops.ooboffs
  data_le : r.data.length ≤ r.ops.len
  pos : r.data.length < r.ops.len → r.pos = r.ops.addr + r.data.length
  spares : (r.data = [] ∧ r.oob = [] ∧ r.pos = r.ops.addr ∧ r.curOoblen = r.ops.ooblen ∧
      r.curOoboffs = r.ops.ooboffs) ∨
    (r.oob.length = r.ops.ooblen ∧ r.curOoblen = 0)
  reads : flat.data.Reads r.ops.addr r.data
  readsOob : flat.oob.Reads (c.spareAddr r.ops.addr r.ops.ooboffs) r.oob
  ret : r.ret < 0 → r.Busy
  bitflips : 0 ≤ r.maxBitflips
  retry : r.retryCount ≤ 10

/-- How far a read is from its end. -/
def Reading.measure (r : Reading) : ℕ :=
  12 * (r.ops.len - r.data.length + (r.ops.ooblen - r.oob.length)) + (10 - r.retryCount)

theorem Reading.start_inv {request : ReadOps} (hflash : Request.OnFlash c (.read request))
    (hfits : OobFits c request.ooblen (request.addr % c.blkSize) request.ooboffs) :
    (Reading.start request).Inv c flat where
  onFlash := hflash
  fits := hfits
  data_le := Nat.zero_le _
  pos _ := rfl
  spares := .inl ⟨rfl, rfl, rfl, rfl, rfl⟩
  reads := Store.reads_nil _ _
  readsOob := Store.reads_nil _ _
  ret h := absurd h (lt_irrefl 0)
  bitflips := le_rfl
  retry := Nat.zero_le _

namespace Reading.Inv

variable {r : Reading} (h : r.Inv c flat)

include h

theorem pos_lt (hbusy : r.Busy) : r.pos < c.totalBlks * c.blkSize := by
  obtain ⟨hlen, hoob⟩ := h.onFlash
  by_cases hdata : r.data.length < r.ops.len
  · have := h.pos hdata
    omega
  · have hspare : r.oob.length < r.ops.ooblen := hbusy.resolve_left hdata
    rcases h.spares with ⟨-, -, hpos, -, -⟩ | ⟨hdone, -⟩
    · have := hoob (by omega)
      omega
    · omega

theorem block_lt (hbusy : r.Busy) : r.pos / c.blkSize < c.totalBlks :=
  Nat.div_lt_of_lt_mul (by rw [Nat.mul_comm]; exact h.pos_lt hbusy)

omit h in
theorem piece_le : r.pos % c.blkSize + r.pieceLen c ≤ c.blkSize := by
  have := Nat.mod_lt r.pos c.blkSize_pos
  unfold Reading.pieceLen
  omega

theorem oobFits : OobFits c r.curOoblen (r.pos % c.blkSize) r.curOoboffs := by
  rcases h.spares with ⟨-, -, hpos, hlen, hoffs⟩ | ⟨-, hlen⟩
  · rw [hpos, hlen, hoffs]
    exact h.fits
  · exact .inl hlen

/-- The end of the loop. -/
theorem answers (hdone : ¬ r.Busy) : flat.Answers c (.read r.ops) (r.answer false) := by
  have hret : ¬ r.ret < 0 := fun hneg => hdone (h.ret hneg)
  have hdata : ¬ r.data.length < r.ops.len := fun hlt => hdone (.inl hlt)
  have hoob : ¬ r.oob.length < r.ops.ooblen := fun hlt => hdone (.inr hlt)
  refine ⟨⟨r.maxBitflips, ?_, ?_⟩, ?_, nofun, nofun⟩
  · unfold Reading.answer
    rw [if_neg hret]
  · have := h.bitflips
    exact iff_of_false (by omega) (by simp [Reading.answer])
  · rintro _ ⟨rfl⟩
    refine ⟨h.reads, h.readsOob, rfl, rfl, fun _ => ⟨?_, ?_⟩⟩
    · exact le_antisymm h.data_le (Nat.le_of_not_lt hdata)
    · rcases h.spares with ⟨-, hnil, -, -, -⟩ | ⟨hall, -⟩
      · change r.oob.length = _
        rw [hnil] at hoob ⊢
        simp only [List.length_nil] at hoob ⊢
        omega
      · exact hall

/-- The read is left because a piece failed. -/
theorem answers_failed {q : Reading} {ret : ℤ} (hret : ret < 0) (hdata : q.data = r.data)
    (hoob : q.oob = r.oob) :
    flat.Answers c (.read r.ops) { q.answer true with ret := some ret } := by
  refine ⟨⟨ret, rfl, iff_of_true hret rfl⟩, ?_, nofun, nofun⟩
  rintro _ ⟨rfl⟩
  refine ⟨?_, ?_, rfl, rfl, nofun⟩
  · change flat.data.Reads r.ops.addr q.data
    rw [hdata]
    exact h.reads
  · change flat.oob.Reads (c.spareAddr r.ops.addr r.ops.ooboffs) q.oob
    rw [hoob]
    exact h.readsOob

theorem retry_inv (hbusy : r.Busy) {ret : ℤ} (hret : ret < 0) (hretry : r.retryCount < 10) :
    ({ r.note ret with retryCount := r.retryCount + 1 } : Reading).Inv c flat ∧
      ({ r.note ret with retryCount := r.retryCount + 1 } : Reading).measure < r.measure := by
  unfold Reading.note
  rw [if_pos hret]
  refine ⟨⟨h.onFlash, h.fits, h.data_le, h.pos, h.spares, h.reads, h.readsOob, fun _ => hbusy,
    h.bitflips, hretry⟩, ?_⟩
  unfold Reading.measure
  dsimp only
  omega

theorem advance_inv (hshown : ShownBy c ops view flat s) (hbusy : r.Busy) {reply : ReadReply}
    {p : ℕ} (hp : ops.getMappingBlock s (r.pos / c.blkSize) = p)
    (hdata : reply.data = (List.range (r.pieceLen c)).map fun i =>
      view.cell s p (r.pos % c.blkSize + i))
    (hoob : reply.oob = (List.range r.curOoblen).map fun i =>
      view.spare s p (c.spareOff (r.pos % c.blkSize) r.curOoboffs + i))
    (hret : 0 ≤ reply.ret) (hclean : 0 ≤ r.ret) :
    ((r.note reply.ret).advance c reply).Inv c flat ∧
      ((r.note reply.ret).advance c reply).measure < r.measure := by
  have hnote : r.note reply.ret = { r with maxBitflips := max r.maxBitflips reply.ret } :=
    if_neg (by omega)
  have hpieceLen : reply.data.length = r.pieceLen c := by
    rw [hdata, List.length_map, List.length_range]
  have hoobLen : reply.oob.length = r.curOoblen := by
    rw [hoob, List.length_map, List.length_range]
  have hle : r.pieceLen c ≤ r.ops.len - r.data.length := Nat.min_le_right _ _
  have hmod : r.pos % c.blkSize < c.blkSize := Nat.mod_lt _ c.blkSize_pos
  have hposLt : r.data.length < r.ops.len → 0 < r.pieceLen c := by
    intro hlt
    unfold Reading.pieceLen
    omega
  have hdataLe := h.data_le
  rw [hnote]
  refine ⟨⟨h.onFlash, h.fits, ?_, fun hlt => ?_, .inr ?_, ?_, ?_, fun hneg => ?_, ?_,
    Nat.zero_le _⟩, ?_⟩
  · change (r.data ++ reply.data).length ≤ r.ops.len
    rw [List.length_append, hpieceLen]
    omega
  · change (r.data ++ reply.data).length < r.ops.len at hlt
    change r.pos + (if r.pieceLen c = 0 then _ else r.pieceLen c) =
      r.ops.addr + (r.data ++ reply.data).length
    rw [List.length_append, hpieceLen] at hlt ⊢
    have hpos := hposLt (by omega)
    rw [if_neg (by omega), h.pos (by omega)]
    omega
  · change (r.oob ++ reply.oob).length = r.ops.ooblen ∧ r.curOoblen - reply.oob.length = 0
    rw [List.length_append, hoobLen, Nat.sub_self]
    rcases h.spares with ⟨-, hnil, -, hlen, -⟩ | ⟨hall, hlen⟩
    · rw [hnil, hlen]
      exact ⟨Nat.zero_add _, rfl⟩
    · rw [hall, hlen]
      exact ⟨rfl, rfl⟩
  · refine h.reads.append ?_
    by_cases hdone : r.data.length < r.ops.len
    · have haddr : r.ops.addr + r.data.length =
          r.pos / c.blkSize * c.blkSize + r.pos % c.blkSize := by
        rw [← h.pos hdone, Nat.mul_comm]
        exact (Nat.div_add_mod _ _).symm
      rw [haddr, hdata]
      exact hshown.data.reads (h.block_lt hbusy) hp piece_le
    · rw [List.length_eq_zero_iff.mp (hpieceLen.trans (by omega))]
      exact Store.reads_nil _ _
  · refine h.readsOob.append ?_
    rcases h.spares with ⟨-, hnil, hpos, hlen, hoffs⟩ | ⟨-, hlen⟩
    · rcases h.oobFits with hzero | hfits
      · rw [List.length_eq_zero_iff.mp (hoobLen.trans hzero)]
        exact Store.reads_nil _ _
      · have haddr : c.spareAddr r.ops.addr r.ops.ooboffs + r.oob.length =
            r.pos / c.blkSize * c.spareSize + c.spareOff (r.pos % c.blkSize) r.curOoboffs := by
          rw [hnil, hpos, hoffs]
          rfl
        change flat.oob.Reads (c.spareAddr r.ops.addr r.ops.ooboffs + r.oob.length) reply.oob
        rw [haddr, hoob]
        exact hshown.oob.reads (h.block_lt hbusy) hp hfits
    · rw [List.length_eq_zero_iff.mp (hoobLen.trans hlen)]
      exact Store.reads_nil _ _
  · exact absurd hneg (not_lt.mpr hclean)
  · exact le_max_of_le_left h.bitflips
  · have hsome : 0 < r.pieceLen c ∨ (0 < r.curOoblen ∧ r.oob.length + r.curOoblen ≤ r.ops.ooblen) := by
      rcases hbusy with hlt | hlt
      · exact .inl (hposLt hlt)
      · rcases h.spares with ⟨-, hnil, -, hlen, -⟩ | ⟨hall, -⟩
        · rw [hnil] at hlt ⊢
          simp only [List.length_nil] at hlt ⊢
          omega
        · omega
    have hretry := h.retry
    unfold Reading.measure
    change 12 * (r.ops.len - (r.data ++ reply.data).length +
      (r.ops.ooblen - (r.oob ++ reply.oob).length)) + (10 - 0) < _
    rw [List.length_append, List.length_append, hpieceLen, hoobLen]
    omega

end Reading.Inv

variable (hlaw : Lawful c ops view)

include hlaw in
theorem ShownBy.moved (h : ShownBy c ops view flat t) {b p : ℕ} (hb : b < c.totalBlks)
    (hp : ops.getMappingBlock s b = p) (hsame : SameAt c ops view s t b)
    (hblank : (mtkBmtRemapBlock c ops b p c.blkSize t).1 = true → BlankSpare c view s p 0 0) :
    ShownBy c ops view flat (mtkBmtRemapBlock c ops b p c.blkSize t).2 := by
  have hpt : ops.getMappingBlock t b = p := hsame.1.trans hp
  refine h.remap hlaw hb hpt fun hok => ⟨fun off hoff hle => absurd hoff (not_lt.mpr hle), ?_⟩
  intro off hoff v hv
  rw [← h.oob b hb p hpt off hoff v hv, (hsame.2 p hp).2 off hoff]
  exact hblank hok off hoff (.inr (Nat.zero_le off))

include hlaw in
theorem Reading.iterate_spec {r : Reading} (hinv : r.Inv c flat) (hshown : ShownBy c ops view flat s)
    (hsteady : r.Steady c ops view s) :
    match r.iterate c ops s with
    | (.inl r', t) => r'.ops = r.ops ∧ r'.Inv c flat ∧ r'.measure < r.measure ∧
        ShownBy c ops view flat t
    | (.inr answer, t) => flat.Answers c (.read r.ops) answer ∧ ShownBy c ops view flat t := by
  unfold Reading.iterate
  by_cases hbusy : r.Busy
  case neg =>
    rw [if_neg hbusy]
    exact ⟨hinv.answers hbusy, hshown⟩
  rw [if_pos hbusy]
  dsimp only
  by_cases hmapped : ops.getMappingBlock s (r.pos / c.blkSize) < 0
  · rw [if_pos hmapped]
    exact ⟨hinv.answers_failed (by decide) rfl rfl, hshown⟩
  rw [if_neg hmapped]
  obtain ⟨hclean, hfirst, hblank⟩ := hsteady hbusy (by omega)
  have hb := hinv.block_lt hbusy
  generalize hpos : (ops.getMappingBlock s (r.pos / c.blkSize)).toNat = p at *
  have hp : ops.getMappingBlock s (r.pos / c.blkSize) = p := by omega
  have hleaves : ∀ b, SameAt c ops view s (r.attempt c ops p s).2 b :=
    hlaw.read_leaves _ _ _ _ s
  have hread : 0 ≤ (r.attempt c ops p s).1.ret → _ ∧ _ :=
    hlaw.read_reply (Nat.mod_lt _ c.blkSize_pos) Reading.Inv.piece_le hinv.oobFits
  have htShown : ShownBy c ops view flat (r.attempt c ops p s).2 :=
    hshown.of_sameAt fun b _ => hleaves b
  have hmoved := htShown.moved hlaw hb hp (hleaves _)
  change 0 ≤ (r.attempt c ops p s).1.ret → (r.attempt c ops p s).1.data = _ ∧
    (r.attempt c ops p s).1.oob = _ at hread
  generalize r.attempt c ops p s = result at *
  obtain ⟨reply, t⟩ := result
  dsimp only at *
  by_cases herr : reply.ret < 0
  · have hmoved := hmoved (hblank (.inl herr))
    rw [if_pos ⟨herr, hclean⟩]
    cases hremap : mtkBmtRemapBlock c ops (r.pos / c.blkSize) p c.blkSize t with
    | mk ok u =>
      rw [hremap] at hmoved
      have hfailed : flat.Answers c (.read r.ops) ((r.note reply.ret).answer true) := by
        have hnote : r.note reply.ret = { r with ret := reply.ret } := if_pos herr
        rw [hnote]
        have hans := hinv.answers_failed (q := { r with ret := reply.ret }) herr rfl rfl
        unfold Reading.answer at hans ⊢
        rwa [if_pos herr]
      cases ok with
      | false => exact ⟨hfailed, hmoved⟩
      | true =>
        dsimp only
        by_cases hretry : (r.note reply.ret).retryCount < 10
        · rw [if_pos hretry]
          have hcount : (r.note reply.ret).retryCount = r.retryCount := by
            unfold Reading.note
            rw [if_pos herr]
          rw [hcount] at hretry ⊢
          obtain ⟨hnext, hless⟩ := hinv.retry_inv hbusy herr hretry
          refine ⟨?_, hnext, hless, hmoved⟩
          unfold Reading.note
          rw [if_pos herr]
        · rw [if_neg hretry]
          exact ⟨hfailed, hmoved⟩
  · have hok : 0 ≤ reply.ret := by omega
    rw [if_neg fun hneg => herr hneg.1]
    obtain ⟨hdata, hoob⟩ := hread hok
    obtain ⟨hnext, hless⟩ := hinv.advance_inv hshown hbusy hp hdata hoob hok (hfirst hok)
    refine ⟨?_, hnext, hless, ?_⟩
    · unfold Reading.note Reading.advance
      rw [if_neg herr]
    · split
      case isTrue hbitflips => exact hmoved (hblank (.inr hbitflips))
      case isFalse => exact htShown

end Read

/-! ## Writing -/

section Write

variable {σ : Type} {c : Chip} {ops : Ops σ} {view : View σ} {flat : Flat} {s t : σ}

/-- What holds in the loop of a write. -/
structure Writing.Inv (c : Chip) (w : Writing) : Prop where
  onFlash : Request.OnFlash c (.write w.ops)
  fits : OobFits c w.ops.oob.length (w.ops.addr % c.blkSize) w.ops.ooboffs
  len_le : w.retlen ≤ w.ops.data.length
  pos : w.retlen < w.ops.data.length → w.pos = w.ops.addr + w.retlen
  spares : (w.retlen = 0 ∧ w.oobretlen = 0 ∧ w.pos = w.ops.addr ∧ w.curOob = w.ops.oob ∧
      w.curOoboffs = w.ops.ooboffs) ∨
    (w.oobretlen = w.ops.oob.length ∧ w.curOob = [])
  retry : w.retryCount ≤ 10

/-- How far a write is from its end. -/
def Writing.measure (w : Writing) : ℕ :=
  12 * (w.ops.data.length - w.retlen + (w.ops.oob.length - w.oobretlen)) + (10 - w.retryCount)

theorem Writing.start_inv {request : WriteOps} (hflash : Request.OnFlash c (.write request))
    (hfits : OobFits c request.oob.length (request.addr % c.blkSize) request.ooboffs) :
    (Writing.start request).Inv c where
  onFlash := hflash
  fits := hfits
  len_le := Nat.zero_le _
  pos _ := rfl
  spares := .inl ⟨rfl, rfl, rfl, rfl, rfl⟩
  retry := Nat.zero_le _

theorem some_of_forget {m : Store UInt8} {addr n a : ℕ} {v : UInt8}
    (h : m.forget addr n a = some v) : m a = some v := by
  unfold Store.forget at h
  split at h
  case isTrue => cases h
  case isFalse => exact h

theorem ShownBy.start (h : ShownBy c ops view flat s) (request : WriteOps) :
    ShownBy c ops view (flat.written c request 0 0) s := by
  refine h.weaken (fun a v hv => ?_) fun a v hv => ?_
  · have := some_of_forget hv
    rwa [List.take_zero, Store.write_nil] at this
  · have := some_of_forget hv
    rwa [List.take_zero, Store.write_nil] at this

namespace Writing.Inv

variable {w : Writing} (h : w.Inv c)

include h

theorem pos_lt (hbusy : w.Busy) : w.pos < c.totalBlks * c.blkSize := by
  obtain ⟨hlen, hoob⟩ := h.onFlash
  by_cases hdata : w.retlen < w.ops.data.length
  · have := h.pos hdata
    omega
  · have hspare : w.oobretlen < w.ops.oob.length := hbusy.resolve_left hdata
    rcases h.spares with ⟨-, -, hpos, -, -⟩ | ⟨hdone, -⟩
    · have := hoob (by omega)
      omega
    · omega

theorem block_lt (hbusy : w.Busy) : w.pos / c.blkSize < c.totalBlks :=
  Nat.div_lt_of_lt_mul (by rw [Nat.mul_comm]; exact h.pos_lt hbusy)

omit h in
theorem piece_length : (w.piece c).length =
    min (c.blkSize - w.pos % c.blkSize) (w.ops.data.length - w.retlen) := by
  unfold Writing.piece
  rw [List.length_take, List.length_drop]
  omega

omit h in
theorem piece_le : w.pos % c.blkSize + (w.piece c).length ≤ c.blkSize := by
  have := Nat.mod_lt w.pos c.blkSize_pos
  rw [piece_length]
  omega

theorem oobFits : OobFits c w.curOob.length (w.pos % c.blkSize) w.curOoboffs := by
  rcases h.spares with ⟨-, -, hpos, hlen, hoffs⟩ | ⟨-, hlen⟩
  · rw [hpos, hlen, hoffs]
    exact h.fits
  · rw [hlen]
    exact .inl rfl

theorem written_data : (flat.written c w.ops w.retlen w.oobretlen).data =
    (flat.data.write w.ops.addr (w.ops.data.take w.retlen)).forget
      (w.pos / c.blkSize * c.blkSize + w.pos % c.blkSize) (w.piece c).length := by
  rw [Nat.mul_comm, Nat.div_add_mod, piece_length]
  by_cases hdata : w.retlen < w.ops.data.length
  · rw [h.pos hdata]
    rfl
  · have hzero : ∀ k, min k (w.ops.data.length - w.retlen) = 0 := fun k => by omega
    change Store.forget _ _ (min _ _) = _
    rw [hzero, hzero, Store.forget_zero, Store.forget_zero]

theorem written_oob : (flat.written c w.ops w.retlen w.oobretlen).oob =
    (flat.oob.write (c.spareAddr w.ops.addr w.ops.ooboffs) (w.ops.oob.take w.oobretlen)).forget
      (w.pos / c.blkSize * c.spareSize + c.spareOff (w.pos % c.blkSize) w.curOoboffs)
      w.curOob.length := by
  change Store.forget _ _ _ = _
  rcases h.spares with ⟨-, hzero, hpos, hoob, hoffs⟩ | ⟨hall, hnil⟩
  · rw [hzero, hpos, hoob, hoffs]
    rfl
  · rw [hall, hnil, Nat.sub_self, List.length_nil, Store.forget_zero, Store.forget_zero]

theorem answers (hdone : ¬ w.Busy) : flat.Answers c (.write w.ops) (w.answer 0 false) := by
  have hdata : ¬ w.retlen < w.ops.data.length := fun hlt => hdone (.inl hlt)
  have hoob : ¬ w.oobretlen < w.ops.oob.length := fun hlt => hdone (.inr hlt)
  refine ⟨⟨0, rfl, iff_of_false (by decide) (by simp [Writing.answer])⟩, nofun, ?_, nofun⟩
  rintro _ ⟨rfl⟩ -
  refine ⟨le_antisymm h.len_le (Nat.le_of_not_lt hdata), ?_⟩
  change w.oobretlen = _
  rcases h.spares with ⟨-, hzero, -, -, -⟩ | ⟨hall, -⟩
  · omega
  · exact hall

omit h in
theorem answers_failed {ret : ℤ} (hret : ret < 0) :
    flat.Answers c (.write w.ops) (w.answer ret true) :=
  ⟨⟨ret, rfl, iff_of_true hret rfl⟩, nofun, nofun, nofun⟩

theorem advance_inv (hbusy : w.Busy) {reply : WriteReply}
    (hlen : reply.retlen = (w.piece c).length) (hoob : reply.oobretlen = w.curOob.length) :
    (w.advance c reply).Inv c ∧ (w.advance c reply).measure < w.measure := by
  have hpiece := piece_length (c := c) (w := w)
  have hmod : w.pos % c.blkSize < c.blkSize := Nat.mod_lt _ c.blkSize_pos
  have hle := h.len_le
  refine ⟨⟨h.onFlash, h.fits, ?_, fun hlt => ?_, .inr ?_, Nat.zero_le _⟩, ?_⟩
  · change w.retlen + reply.retlen ≤ w.ops.data.length
    omega
  · change w.retlen + reply.retlen < w.ops.data.length at hlt
    change w.pos + (if (w.piece c).length = 0 then _ else (w.piece c).length) =
      w.ops.addr + (w.retlen + reply.retlen)
    rw [if_neg (by omega), h.pos (by omega)]
    omega
  · change w.oobretlen + reply.oobretlen = w.ops.oob.length ∧ w.curOob.drop reply.oobretlen = []
    rw [hoob, List.drop_length]
    rcases h.spares with ⟨-, hzero, -, hcur, -⟩ | ⟨hall, hnil⟩
    · rw [hzero, hcur]
      exact ⟨Nat.zero_add _, rfl⟩
    · rw [hall, hnil]
      exact ⟨rfl, rfl⟩
  · have hretry := h.retry
    unfold Writing.measure
    change 12 * (w.ops.data.length - (w.retlen + reply.retlen) +
      (w.ops.oob.length - (w.oobretlen + reply.oobretlen))) + (10 - 0) < _
    rcases h.spares with ⟨hstart, hzero, -, hcur, -⟩ | ⟨hall, hnil⟩
    · rw [hcur] at hoob
      rcases hbusy with hlt | hlt <;> omega
    · rcases hbusy with hlt | hlt <;> omega

end Writing.Inv

variable (hlaw : Lawful c ops view)

include hlaw in
theorem Lawful.ne_of_ne {b p : ℕ} (hb : b < c.totalBlks) (hp : ops.getMappingBlock s b = p) :
    ∀ b' < c.totalBlks, b' ≠ b → ops.getMappingBlock s b' ≠ p := by
  intro b' hb' hne hp'
  exact hne (hlaw.injective hb' hb (by omega) (hp'.trans hp.symm))

section Attempt

variable {w : Writing} (hinv : w.Inv c) (hbusy : w.Busy) {p : ℕ}
  (hp : ops.getMappingBlock s (w.pos / c.blkSize) = p)
  (hshown : ShownBy c ops view (flat.written c w.ops w.retlen w.oobretlen) s)

include hlaw hinv hbusy hp hshown

/-- An attempt leaves everything that is known but for its own piece, which is not. -/
theorem ShownBy.attempt :
    ShownBy c ops view (flat.written c w.ops w.retlen w.oobretlen) (w.attempt c ops p s).2 := by
  obtain ⟨⟨hmap, honly⟩, hdata, hoob⟩ := hlaw.write_leaves (s := s) (p := p)
    (Nat.mod_lt _ c.blkSize_pos) Writing.Inv.piece_le hinv.oobFits
  have hne := hlaw.ne_of_ne (hinv.block_lt hbusy) hp
  have hforget : ∀ {m : Store UInt8} {addr n a : ℕ}, a < addr ∨ addr + n ≤ a →
      m.forget addr n a = m a := fun ha => if_neg (by omega)
  have hinside : ∀ {m : Store UInt8} {addr n i : ℕ} {v : UInt8}, i < n →
      m.forget addr n (addr + i) = some v → False := by
    intro m addr n i v hi hv
    unfold Store.forget at hv
    rw [if_pos (by omega)] at hv
    cases hv
  constructor
  · have hold := hshown.data
    rw [hinv.written_data] at hold ⊢
    exact hold.touch (.inr Writing.Inv.piece_le) hmap hp hne (fun q hq => (honly q hq).1)
      (fun o _ => hdata o) (fun a ha => hforget ha) fun i hi v hv => (hinside hi hv).elim
  · have hold := hshown.oob
    rw [hinv.written_oob] at hold ⊢
    exact hold.touch hinv.oobFits hmap hp hne (fun q hq => (honly q hq).2)
      (fun o _ => hoob o) (fun a ha => hforget ha) fun i hi v hv => (hinside hi hv).elim

theorem ShownBy.piece (hok : 0 ≤ (w.attempt c ops p s).1.ret) :
    (w.attempt c ops p s).1.retlen = (w.piece c).length ∧
      (w.attempt c ops p s).1.oobretlen = w.curOob.length ∧
      ShownBy c ops view (flat.written c w.ops (w.retlen + (w.piece c).length)
        (w.oobretlen + w.curOob.length)) (w.attempt c ops p s).2 := by
  obtain ⟨⟨hmap, honly⟩, hdata, hoob⟩ := hlaw.write_leaves (s := s) (p := p)
    (Nat.mod_lt _ c.blkSize_pos) Writing.Inv.piece_le hinv.oobFits
  obtain ⟨hlen, hooblen, hcell, hspare⟩ := hlaw.write_reply (Nat.mod_lt _ c.blkSize_pos)
    Writing.Inv.piece_le hinv.oobFits hok
  have hne := hlaw.ne_of_ne (hinv.block_lt hbusy) hp
  have hwrite : ∀ {m : Store UInt8} {addr a : ℕ} {values : List UInt8},
      a < addr ∨ addr + values.length ≤ a → m.write addr values a = m a :=
    fun ha => if_neg (by omega)
  have hinside : ∀ {m : Store UInt8} {addr i : ℕ} {values : List UInt8} {v : UInt8},
      i < values.length → m.write addr values (addr + i) = some v → values[i]? = some v := by
    intro m addr i values v hi hv
    unfold Store.write at hv
    rwa [if_pos (by omega), Nat.add_sub_cancel_left] at hv
  refine ⟨hlen, hooblen, ?_⟩
  -- the piece goes in, and then less is known of the one after it
  have hmid : ShownBy c ops view
      { data := (flat.data.write w.ops.addr (w.ops.data.take w.retlen)).write
          (w.pos / c.blkSize * c.blkSize + w.pos % c.blkSize) (w.piece c)
        oob := (flat.oob.write (c.spareAddr w.ops.addr w.ops.ooboffs)
          (w.ops.oob.take w.oobretlen)).write
            (w.pos / c.blkSize * c.spareSize + c.spareOff (w.pos % c.blkSize) w.curOoboffs)
            w.curOob } (w.attempt c ops p s).2 := by
    constructor
    · have hold := hshown.data
      rw [hinv.written_data] at hold
      exact hold.touch (.inr Writing.Inv.piece_le) hmap hp hne (fun q hq => (honly q hq).1)
        (fun o _ => hdata o) (fun a ha => hwrite ha) fun i hi v hv => hcell i v (hinside hi hv)
    · have hold := hshown.oob
      rw [hinv.written_oob] at hold
      exact hold.touch hinv.oobFits hmap hp hne (fun q hq => (honly q hq).2)
        (fun o _ => hoob o) (fun a ha => hwrite ha) fun i hi v hv => hspare i v (hinside hi hv)
  refine hmid.weaken (fun a v hv => ?_) fun a v hv => ?_
  · have hv := some_of_forget hv
    have htake : w.ops.data.take (w.retlen + (w.piece c).length) =
        w.ops.data.take w.retlen ++ w.piece c := by
      have hlength := Writing.Inv.piece_length (c := c) (w := w)
      rw [hlength, List.take_add]
      rfl
    rw [htake, Store.write_append] at hv
    by_cases hdone : w.retlen < w.ops.data.length
    · rw [← hv, Nat.mul_comm, Nat.div_add_mod, hinv.pos hdone, List.length_take,
        Nat.min_eq_left hinv.len_le]
    · have hnil : w.piece c = [] := by
        rw [← List.length_eq_zero_iff, Writing.Inv.piece_length]
        omega
      rw [hnil, Store.write_nil] at hv ⊢
      exact hv
  · have hv := some_of_forget hv
    rcases hinv.spares with ⟨-, hzero, hpos, hcur, hoffs⟩ | ⟨hall, hnil⟩
    · rw [hzero, hcur, Nat.zero_add, List.take_length] at hv
      rw [hzero, hcur, hpos, hoffs, List.take_zero, Store.write_nil]
      exact hv
    · rw [hnil, hall, List.length_nil, Nat.add_zero] at hv
      rw [hnil, hall, Store.write_nil]
      exact hv

end Attempt

include hlaw in
theorem Writing.iterate_spec {w : Writing} (hinv : w.Inv c)
    (hshown : ShownBy c ops view (flat.written c w.ops w.retlen w.oobretlen) s)
    (hsteady : w.Steady c ops view s) :
    match w.iterate c ops s with
    | (.inl w', t) => w'.ops = w.ops ∧ w'.Inv c ∧ w'.measure < w.measure ∧
        ShownBy c ops view (flat.written c w'.ops w'.retlen w'.oobretlen) t
    | (.inr answer, t) => flat.Answers c (.write w.ops) answer ∧
        ShownBy c ops view (flat.after c answer (.write w.ops)) t := by
  unfold Writing.iterate
  by_cases hbusy : w.Busy
  case neg =>
    rw [if_neg hbusy]
    exact ⟨hinv.answers hbusy, hshown⟩
  rw [if_pos hbusy]
  dsimp only
  by_cases hmapped : ops.getMappingBlock s (w.pos / c.blkSize) < 0
  · rw [if_pos hmapped]
    exact ⟨Writing.Inv.answers_failed (by decide), hshown⟩
  rw [if_neg hmapped]
  have hblank := hsteady hbusy (by omega)
  have hb := hinv.block_lt hbusy
  generalize hpos : (ops.getMappingBlock s (w.pos / c.blkSize)).toNat = p at *
  have hp : ops.getMappingBlock s (w.pos / c.blkSize) = p := by omega
  have hleaves := hlaw.write_leaves (s := s) (p := p) (Nat.mod_lt _ c.blkSize_pos)
    Writing.Inv.piece_le hinv.oobFits
  have hattempt := hshown.attempt hlaw hinv hbusy hp
  have hpiece := hshown.piece hlaw hinv hbusy hp
  change OnlyBlock ops view s (w.attempt c ops p s).2 p ∧ _ at hleaves
  generalize w.attempt c ops p s = result at *
  obtain ⟨reply, t⟩ := result
  dsimp only at *
  by_cases herr : reply.ret < 0
  · rw [if_pos herr]
    have hpt : ops.getMappingBlock t (w.pos / c.blkSize) = p := (hleaves.1.1 _).trans hp
    have hremapped : ShownBy c ops view (flat.written c w.ops w.retlen w.oobretlen)
        (mtkBmtRemapBlock c ops (w.pos / c.blkSize) p (w.pos % c.blkSize) t).2 := by
      refine hattempt.remap hlaw hb hpt fun hok => ?_
      obtain ⟨hcells, hspares⟩ := hblank herr hok
      refine ⟨fun off hoff hle v hv => ?_, fun off hoff v hv => ?_⟩
      · -- a known byte is after the piece
        have hafter : w.pos % c.blkSize + (w.piece c).length ≤ off := by
          by_contra hin
          rw [hinv.written_data] at hv
          unfold Store.forget at hv
          rw [if_pos (by omega)] at hv
          cases hv
        rw [← hshown.data _ hb p hp off hoff v hv]
        exact hcells off hoff hafter
      · have hother : off < c.spareOff (w.pos % c.blkSize) w.curOoboffs ∨
            c.spareOff (w.pos % c.blkSize) w.curOoboffs + w.curOob.length ≤ off := by
          by_contra hin
          rw [hinv.written_oob] at hv
          unfold Store.forget at hv
          rw [if_pos (by omega)] at hv
          cases hv
        rw [← hshown.oob _ hb p hp off hoff v hv]
        exact hspares off hoff hother
    cases hremap : mtkBmtRemapBlock c ops (w.pos / c.blkSize) p (w.pos % c.blkSize) t with
    | mk ok u =>
      rw [hremap] at hremapped
      cases ok with
      | false => exact ⟨Writing.Inv.answers_failed herr, hremapped⟩
      | true =>
        dsimp only
        by_cases hretry : w.retryCount < 10
        · rw [if_pos hretry]
          refine ⟨rfl, ⟨hinv.onFlash, hinv.fits, hinv.len_le, hinv.pos, hinv.spares, hretry⟩,
            ?_, hremapped⟩
          unfold Writing.measure
          dsimp only
          omega
        · rw [if_neg hretry]
          exact ⟨Writing.Inv.answers_failed herr, hremapped⟩
  · rw [if_neg herr]
    obtain ⟨hlen, hoob, hknown⟩ := hpiece (by omega)
    obtain ⟨hnext, hless⟩ := hinv.advance_inv hbusy hlen hoob
    refine ⟨rfl, hnext, hless, ?_⟩
    change ShownBy c ops view (flat.written c w.ops (w.retlen + reply.retlen)
      (w.oobretlen + reply.oobretlen)) t
    rw [hlen, hoob]
    exact hknown

end Write

/-! ## Erasing -/

section Erase

variable {σ : Type} {c : Chip} {ops : Ops σ} {view : View σ} {flat : Flat} {s t : σ}

/-- What holds in the loop of an erase after `k` blocks. -/
structure Erasing.Inv (c : Chip) (e : Erasing) (k : ℕ) : Prop where
  onFlash : Request.OnFlash c (.erase e.instr)
  startAddr : e.startAddr = (e.instr.addr / c.blkSize + k) * c.blkSize
  ret : e.Busy ∨ e.ret = some 0
  retry : e.retryCount ≤ 10

/-- How far an erase is from its end. -/
def Erasing.measure (e : Erasing) : ℕ :=
  12 * (e.instr.addr + e.instr.len - e.startAddr) + (10 - e.retryCount)

/-- The block at hand is not known. -/
def Erasing.lost (e : Erasing) : ℕ := if e.Busy then 1 else 0

theorem Erasing.start_inv {instr : EraseInfo} (hflash : Request.OnFlash c (.erase instr))
    (hlen : 0 < instr.len) : (Erasing.start c instr).Inv c 0 := by
  refine ⟨hflash, rfl, .inl ?_, Nat.zero_le _⟩
  have := Nat.div_mul_le_self instr.addr c.blkSize
  change instr.addr / c.blkSize * c.blkSize < instr.addr + instr.len
  omega

theorem ShownBy.startErase (h : ShownBy c ops view flat s) (start lost : ℕ) :
    ShownBy c ops view (flat.erased c start 0 lost) s := by
  have hfill : ∀ {m : Store UInt8} {addr n a : ℕ} {v : UInt8},
      m.fill addr (0 * n) 0xff a = some v → m a = some v := by
    intro m addr n a v hv
    unfold Store.fill at hv
    rwa [if_neg (by omega)] at hv
  exact h.weaken (fun a v hv => hfill (some_of_forget hv))
    fun a v hv => hfill (some_of_forget hv)

namespace Erasing.Inv

variable {e : Erasing} {k : ℕ} (h : e.Inv c k)

include h

theorem div_startAddr : e.startAddr / c.blkSize = e.instr.addr / c.blkSize + k := by
  rw [h.startAddr, Nat.mul_div_cancel _ c.blkSize_pos]

theorem block_lt (hbusy : e.Busy) : e.instr.addr / c.blkSize + k < c.totalBlks := by
  rw [← h.div_startAddr]
  refine Nat.div_lt_of_lt_mul ?_
  have := h.onFlash.2
  rw [Nat.mul_comm]
  exact Nat.lt_of_lt_of_le hbusy this

theorem origBlock (hbusy : e.Busy) :
    e.startAddr / c.blkSize % 0x10000 = e.instr.addr / c.blkSize + k := by
  rw [h.div_startAddr]
  exact Nat.mod_eq_of_lt ((h.block_lt hbusy).trans c.total_u16)

theorem after_answer (ret : Option ℤ) (failed : Bool) :
    flat.after c (e.answer c ret failed) (.erase e.instr) =
      flat.erased c (e.instr.addr / c.blkSize) k (if failed then 1 else 0) := by
  have hdone : (e.startAddr - e.instr.addr / c.blkSize * c.blkSize) / c.blkSize = k := by
    rw [h.startAddr, Nat.add_mul, Nat.add_sub_cancel_left, Nat.mul_div_cancel _ c.blkSize_pos]
  change flat.erased c _ ((e.startAddr - e.instr.addr / c.blkSize * c.blkSize) / c.blkSize) _ = _
  rw [hdone]
  rfl

/-- The end of the loop. -/
theorem answers (hdone : ¬ e.Busy) :
    flat.Answers c (.erase e.instr) (e.answer c e.ret false) := by
  refine ⟨⟨0, h.ret.resolve_left hdone, iff_of_false (by decide) (by simp [Erasing.answer])⟩,
    nofun, nofun, ?_⟩
  rintro _ ⟨rfl⟩ -
  have hend : e.instr.addr + e.instr.len ≤ e.startAddr := Nat.le_of_not_lt hdone
  change _ ≤ e.instr.addr / c.blkSize * c.blkSize +
    (e.startAddr - e.instr.addr / c.blkSize * c.blkSize)
  have := h.startAddr
  rw [Nat.add_mul] at this
  omega

omit h in
theorem answers_failed {ret : ℤ} (hret : ret < 0) :
    flat.Answers c (.erase e.instr) (e.answer c (some ret) true) :=
  ⟨⟨ret, rfl, iff_of_true hret rfl⟩, nofun, nofun, nofun⟩

end Erasing.Inv

variable (hlaw : Lawful c ops view)

section Attempt

variable {b k p : ℕ} (hb : b + k < c.totalBlks) (hp : ops.getMappingBlock s (b + k) = p)
  (hshown : ShownBy c ops view (flat.erased c b k 1) s)

include hlaw hb hp hshown

/-- An attempt leaves everything that is known; its block is not. -/
theorem ShownBy.eraseAttempt :
    ShownBy c ops view (flat.erased c b k 1) (ops.erase (p * c.blkSize) s).2 := by
  obtain ⟨hmap, honly⟩ := hlaw.erase_leaves p s
  have hne := hlaw.ne_of_ne hb hp
  refine hshown.update (b := b + k) (fun b' hb' hbb => ?_) (fun _ _ _ _ _ => rfl)
    (fun _ _ _ _ _ => rfl) fun _ q _ => ⟨fun off hoff v hv => ?_, fun off hoff v hv => ?_⟩
  · exact OnlyBlock.sameAt ⟨hmap, honly⟩ (hne b' hb' hbb)
  · change Store.forget _ ((b + k) * c.blkSize) (1 * c.blkSize) _ = _ at hv
    unfold Store.forget at hv
    rw [if_pos (by omega)] at hv
    cases hv
  · change Store.forget _ ((b + k) * c.spareSize) (1 * c.spareSize) _ = _ at hv
    unfold Store.forget at hv
    rw [if_pos (by omega)] at hv
    cases hv

theorem ShownBy.eraseBlock (hok : (ops.erase (p * c.blkSize) s).1 = 0) (lost : ℕ) :
    ShownBy c ops view (flat.erased c b (k + 1) lost) (ops.erase (p * c.blkSize) s).2 := by
  obtain ⟨hmap, honly⟩ := hlaw.erase_leaves p s
  obtain ⟨hcell, hspare⟩ := hlaw.erase_reply hok
  have hne := hlaw.ne_of_ne hb hp
  have hstore : ∀ (m : Store UInt8) (size a : ℕ),
      a < (b + k) * size + 0 ∨ (b + k) * size + 0 + size ≤ a →
        m.fill (b * size) ((k + 1) * size) 0xff a = m.fill (b * size) (k * size) 0xff a := by
    intro m size a ha
    unfold Store.fill
    rw [Nat.add_mul b k size] at ha
    rw [Nat.add_mul k 1 size, Nat.one_mul]
    by_cases hin : b * size ≤ a ∧ a < b * size + k * size
    · rw [if_pos hin, if_pos (by omega)]
    · rw [if_neg hin, if_neg (by omega)]
  have hinside : ∀ (m : Store UInt8) (size i : ℕ) (v : UInt8), i < size →
      m.fill (b * size) ((k + 1) * size) 0xff ((b + k) * size + 0 + i) = some v → v = 0xff := by
    intro m size i v hi hv
    unfold Store.fill at hv
    rw [Nat.add_mul b k size, Nat.add_mul k 1 size, Nat.one_mul, if_pos (by omega)] at hv
    exact (Option.some.inj hv).symm
  have hold : ShownBy c ops view (flat.erased c b k 1) s := hshown
  have hmid : ShownBy c ops view
      { data := flat.data.fill (b * c.blkSize) ((k + 1) * c.blkSize) 0xff
        oob := flat.oob.fill (b * c.spareSize) ((k + 1) * c.spareSize) 0xff }
      (ops.erase (p * c.blkSize) s).2 := by
    constructor
    · have hdata := hold.data
      change Shows _ _ _ _ (Store.forget _ ((b + k) * c.blkSize + 0) (1 * c.blkSize)) at hdata
      rw [Nat.one_mul] at hdata
      refine hdata.touch (.inr (Nat.zero_add _).le) hmap hp hne (fun q hq => (honly q hq).1)
        (fun o ho ha => ?_) (fun a ha => hstore _ _ a ha) fun i hi v hv => ?_
      · omega
      · rw [hinside _ _ i v hi hv, Nat.zero_add]
        exact hcell i hi
    · have hoob := hold.oob
      change Shows _ _ _ _ (Store.forget _ ((b + k) * c.spareSize + 0) (1 * c.spareSize)) at hoob
      rw [Nat.one_mul] at hoob
      refine hoob.touch (.inr (Nat.zero_add _).le) hmap hp hne (fun q hq => (honly q hq).2)
        (fun o ho ha => ?_) (fun a ha => hstore _ _ a ha) fun i hi v hv => ?_
      · omega
      · rw [hinside _ _ i v hi hv, Nat.zero_add]
        exact hspare i hi
  exact hmid.weaken (fun a v hv => some_of_forget hv) fun a v hv => some_of_forget hv

end Attempt

include hlaw in
theorem Erasing.iterate_spec {e : Erasing} {k : ℕ} (hinv : e.Inv c k)
    (hshown : ShownBy c ops view (flat.erased c (e.instr.addr / c.blkSize) k e.lost) s) :
    match e.iterate c ops s with
    | (.inl e', t) => e'.instr = e.instr ∧ e'.measure < e.measure ∧ ∃ k', e'.Inv c k' ∧
        ShownBy c ops view (flat.erased c (e'.instr.addr / c.blkSize) k' e'.lost) t
    | (.inr answer, t) => flat.Answers c (.erase e.instr) answer ∧
        ShownBy c ops view (flat.after c answer (.erase e.instr)) t := by
  unfold Erasing.iterate
  by_cases hbusy : e.Busy
  case neg =>
    rw [if_neg hbusy]
    refine ⟨hinv.answers hbusy, ?_⟩
    rw [hinv.after_answer]
    unfold Erasing.lost at hshown
    rwa [if_neg hbusy] at hshown
  have hlost : e.lost = 1 := if_pos hbusy
  rw [hlost] at hshown
  rw [if_pos hbusy]
  dsimp only
  have hb := hinv.block_lt hbusy
  rw [hinv.origBlock hbusy]
  have hfailed : ∀ {ret : ℤ} {t : σ}, ret < 0 →
      ShownBy c ops view (flat.erased c (e.instr.addr / c.blkSize) k 1) t →
      flat.Answers c (.erase e.instr) (e.answer c (some ret) true) ∧
        ShownBy c ops view (flat.after c (e.answer c (some ret) true) (.erase e.instr)) t := by
    intro ret t hret ht
    refine ⟨Erasing.Inv.answers_failed hret, ?_⟩
    rw [hinv.after_answer]
    exact ht
  by_cases hmapped : ops.getMappingBlock s (e.instr.addr / c.blkSize + k) < 0
  · rw [if_pos hmapped]
    exact hfailed (by decide) hshown
  rw [if_neg hmapped]
  generalize hpos : (ops.getMappingBlock s (e.instr.addr / c.blkSize + k)).toNat = p
  have hp : ops.getMappingBlock s (e.instr.addr / c.blkSize + k) = p := by omega
  have hleaves : OnlyBlock ops view s (Erasing.attempt c ops p s).2 p := hlaw.erase_leaves p s
  have hattempt : ShownBy c ops view _ (Erasing.attempt c ops p s).2 :=
    hshown.eraseAttempt hlaw hb hp
  have hblock : (Erasing.attempt c ops p s).1 = 0 → ∀ lost,
      ShownBy c ops view _ (Erasing.attempt c ops p s).2 := hshown.eraseBlock hlaw hb hp
  have hret : (Erasing.attempt c ops p s).1 ≤ 0 := hlaw.erase_ret p s
  generalize Erasing.attempt c ops p s = result at *
  obtain ⟨ret, t⟩ := result
  dsimp only at *
  by_cases herr : ret ≠ 0
  · rw [if_pos herr]
    have hneg : ret < 0 := by omega
    have hremapped : ShownBy c ops view (flat.erased c (e.instr.addr / c.blkSize) k 1)
        (mtkBmtRemapBlock c ops (e.instr.addr / c.blkSize + k) p 0 t).2 := by
      refine hattempt.remap hlaw hb ((hleaves.1 _).trans hp) fun _ =>
        ⟨fun off hoff _ v hv => ?_, fun off hoff v hv => ?_⟩
      · change Store.forget _ ((e.instr.addr / c.blkSize + k) * c.blkSize) (1 * c.blkSize) _ = _
          at hv
        unfold Store.forget at hv
        rw [if_pos (by omega)] at hv
        cases hv
      · change Store.forget _ ((e.instr.addr / c.blkSize + k) * c.spareSize) (1 * c.spareSize) _ = _
          at hv
        unfold Store.forget at hv
        rw [if_pos (by omega)] at hv
        cases hv
    cases hremap : mtkBmtRemapBlock c ops (e.instr.addr / c.blkSize + k) p 0 t with
    | mk ok u =>
      rw [hremap] at hremapped
      cases ok with
      | false => exact hfailed hneg hremapped
      | true =>
        dsimp only
        by_cases hretry : e.retryCount < 10
        · rw [if_pos hretry]
          refine ⟨rfl, ?_, k, ⟨hinv.onFlash, hinv.startAddr, .inl hbusy, hretry⟩, ?_⟩
          · unfold Erasing.measure
            dsimp only
            omega
          · change ShownBy c ops view (flat.erased c _ k e.lost) u
            rw [hlost]
            exact hremapped
        · rw [if_neg hretry]
          exact hfailed hneg hremapped
  · rw [if_neg herr]
    have hzero : ret = 0 := not_not.mp herr
    refine ⟨rfl, ?_, k + 1, ⟨hinv.onFlash, ?_, ?_, Nat.zero_le _⟩, hblock hzero _⟩
    · have hsize := c.blkSize_pos
      have hlt : e.startAddr < e.instr.addr + e.instr.len := hbusy
      have hretry := hinv.retry
      unfold Erasing.measure
      dsimp only
      omega
    · change e.startAddr + c.blkSize = _
      rw [hinv.startAddr, ← Nat.add_assoc, Nat.add_mul _ 1, Nat.one_mul]
    · exact .inr (congrArg some hzero)

end Erase

/-! ## Runs -/

section Runs

variable {σ : Type} {c : Chip} {ops : Ops σ} {view : View σ}

/-- What every run without a slip keeps. -/
def Machine.Inv (c : Chip) (ops : Ops σ) (view : View σ) (m : Machine σ) : Prop :=
  match m.phase with
  | .idle => ShownBy c ops view m.flat m.dev
  | .reading r => r.Inv c m.flat ∧ ShownBy c ops view m.flat m.dev
  | .writing w => w.Inv c ∧
      ShownBy c ops view (m.flat.written c w.ops w.retlen w.oobretlen) m.dev
  | .erasing e => ∃ k, e.Inv c k ∧
      ShownBy c ops view (m.flat.erased c (e.instr.addr / c.blkSize) k e.lost) m.dev
  | .returned request answer => m.flat.Answers c request answer ∧
      ShownBy c ops view m.flat m.dev

/-- What a request is answered with is what a flat flash may answer. -/
def Machine.Agrees (c : Chip) (m : Machine σ) : Prop :=
  match m.phase with
  | .returned request answer => m.flat.Answers c request answer
  | _ => True

/-- How far the request at hand is from its answer. -/
def Machine.measure (m : Machine σ) : ℕ :=
  match m.phase with
  | .idle | .returned _ _ => 0
  | .reading r => r.measure + 1
  | .writing w => w.measure + 1
  | .erasing e => e.measure + 1

theorem Flat.Answers.after {flat : Flat} {request : Request} {answer : Answer}
    (h : flat.Answers c request answer) :
    (flat.after c answer request).Answers c request answer := by
  cases request with
  | read r => exact h
  | write w => exact ⟨h.code, nofun, h.writes, nofun⟩
  | erase e => exact ⟨h.code, nofun, nofun, h.erases⟩

theorem Machine.next_inv (hlaw : Lawful c ops view) {m m' : Machine σ} {event : Event}
    (hinv : m.Inv c ops view) (hsteady : m.Steady c ops view event)
    (h : m.next c ops event = some m') :
    m'.Inv c ops view ∧ (event = .iterate → m'.measure < m.measure) := by
  obtain ⟨phase, s, flat⟩ := m
  cases event with
  | start request =>
    have hbegin : ∀ {flat : Flat}, ShownBy c ops view flat s → request.OnFlash c →
        (⟨request.begin c, s, flat⟩ : Machine σ).Inv c ops view := by
      intro flat hshown hflash
      cases request with
      | read r => exact ⟨Reading.start_inv hflash hsteady, hshown⟩
      | write w => exact ⟨Writing.start_inv hflash hsteady, hshown.start w⟩
      | erase e => exact ⟨0, Erasing.start_inv hflash hsteady, hshown.startErase _ _⟩
    refine ⟨?_, nofun⟩
    cases phase with
    | idle =>
      simp only [Machine.next] at h
      split at h
      case isTrue hflash =>
        cases h
        exact hbegin hinv hflash
      case isFalse => cases h
    | returned request' answer =>
      simp only [Machine.next] at h
      split at h
      case isTrue hflash =>
        cases h
        exact hbegin hinv.2 hflash
      case isFalse => cases h
    | reading r => cases h
    | writing w => cases h
    | erasing e => cases h
  | iterate =>
    cases phase with
    | idle => cases h
    | returned request answer => cases h
    | reading r =>
      have hspec := Reading.iterate_spec hlaw hinv.1 hinv.2 hsteady
      simp only [Machine.next] at h
      rcases hresult : r.iterate c ops s with ⟨r' | answer, t⟩
      · rw [hresult] at h hspec
        cases h
        obtain ⟨-, hnext, hless, hshown⟩ := hspec
        exact ⟨⟨hnext, hshown⟩, fun _ => Nat.succ_lt_succ hless⟩
      · rw [hresult] at h hspec
        cases h
        exact ⟨⟨hspec.1.after, hspec.2⟩, fun _ => Nat.succ_pos _⟩
    | writing w =>
      have hspec := Writing.iterate_spec hlaw hinv.1 hinv.2 hsteady
      simp only [Machine.next] at h
      rcases hresult : w.iterate c ops s with ⟨w' | answer, t⟩
      · rw [hresult] at h hspec
        cases h
        obtain ⟨-, hnext, hless, hshown⟩ := hspec
        exact ⟨⟨hnext, hshown⟩, fun _ => Nat.succ_lt_succ hless⟩
      · rw [hresult] at h hspec
        cases h
        exact ⟨⟨hspec.1.after, hspec.2⟩, fun _ => Nat.succ_pos _⟩
    | erasing e =>
      obtain ⟨k, hk, hshown⟩ := hinv
      have hspec := Erasing.iterate_spec hlaw hk hshown
      simp only [Machine.next] at h
      rcases hresult : e.iterate c ops s with ⟨e' | answer, t⟩
      · rw [hresult] at h hspec
        cases h
        obtain ⟨-, hless, hnext⟩ := hspec
        exact ⟨hnext, fun _ => Nat.succ_lt_succ hless⟩
      · rw [hresult] at h hspec
        cases h
        exact ⟨⟨hspec.1.after, hspec.2⟩, fun _ => Nat.succ_pos _⟩

theorem inv_of_reachable (hlaw : Lawful c ops view) {m : Machine σ}
    (h : ((system c ops view).restrict (Machine.Steady c ops view)).Reachable m) :
    m.Inv c ops view := by
  refine h.invariant (I := Machine.Inv c ops view) ?_ ?_
  · rintro ⟨phase, s, flat⟩ ⟨hidle, hshown⟩
    cases hidle
    exact hshown
  · rintro source event target hinv ⟨hsteady, hstep⟩
    exact (Machine.next_inv hlaw hinv hsteady hstep).1

/-- A loop that has begun goes on until it answers. -/
theorem Machine.exists_next {m : Machine σ} (h : 0 < m.measure) :
    ∃ m', m.next c ops .iterate = some m' := by
  obtain ⟨phase, s, flat⟩ := m
  cases phase with
  | idle => cases h
  | returned request answer => cases h
  | reading r =>
    simp only [Machine.next]
    rcases r.iterate c ops s with ⟨r' | answer, t⟩ <;> exact ⟨_, rfl⟩
  | writing w =>
    simp only [Machine.next]
    rcases w.iterate c ops s with ⟨w' | answer, t⟩ <;> exact ⟨_, rfl⟩
  | erasing e =>
    simp only [Machine.next]
    rcases e.iterate c ops s with ⟨e' | answer, t⟩ <;> exact ⟨_, rfl⟩

/-- Along every run without a slip, each request is answered as a flat flash would:
its loop goes on for a bounded time, and the answer agrees with what was written. -/
theorem agrees_of_reachable (hlaw : Lawful c ops view) {m : Machine σ}
    (h : ((system c ops view).restrict (Machine.Steady c ops view)).Reachable m) :
    m.Agrees c ∧ (0 < m.measure → ∃ m', m.next c ops .iterate = some m') ∧
      ∀ m', m.Steady c ops view .iterate → m.next c ops .iterate = some m' →
        m'.measure < m.measure := by
  have hinv := inv_of_reachable hlaw h
  refine ⟨?_, Machine.exists_next, fun m' hsteady hnext =>
    (Machine.next_inv hlaw hinv hsteady hnext).2 rfl⟩
  obtain ⟨phase, s, flat⟩ := m
  cases phase with
  | returned request answer => exact hinv.1
  | idle | reading r | writing w | erasing e => trivial

end Runs

/-! ## A stale error -/

section Stale

/-- Three blocks of two pages. -/
def smallChip : Chip where
  totalBlks := 3
  blkShift := 2
  ranges := []
  size_le := by decide
  total_lt := by decide
  aligned := nofun
  range_le := nofun
  apart := nofun
  pgSize := 2
  oobAvail := 1
  bitflipThreshold := 0
  total_u16 := by decide

/-- A device that fails as often as it is told to, with a backend that gives out one
fresh block after the other. -/
structure SmallDevice where
  cell : ℕ → ℕ → UInt8
  spare : ℕ → ℕ → UInt8
  mapping : ℕ → ℕ
  next : ℕ
  badReads : ℕ
  badWrites : ℕ
  injective : ∀ b < 3, ∀ b' < 3, mapping b = mapping b' → b = b'
  fresh : ∀ b < 3, mapping b < next

namespace SmallDevice

/-- Erased, each block at the one of its number. -/
def blank (badReads badWrites : ℕ) : SmallDevice where
  cell _ _ := 0xff
  spare _ _ := 0xff
  mapping b := b
  next := 3
  badReads := badReads
  badWrites := badWrites
  injective _ _ _ _ h := h
  fresh _ h := h

/-- Give a block a fresh one. -/
def move (s : SmallDevice) (b p copyLen : ℕ) : SmallDevice where
  cell := Function.update s.cell s.next fun off => if off < copyLen then s.cell p off else 0xff
  spare := Function.update s.spare s.next fun _ => 0xff
  mapping := Function.update s.mapping b s.next
  next := s.next + 1
  badReads := s.badReads
  badWrites := s.badWrites
  injective i hi j hj hij := by
    have hfi := s.fresh i hi
    have hfj := s.fresh j hj
    by_cases hib : i = b <;> by_cases hjb : j = b
    · rw [hib, hjb]
    · rw [hib, Function.update_self, Function.update_of_ne hjb] at hij
      omega
    · rw [hjb, Function.update_self, Function.update_of_ne hib] at hij
      omega
    · rw [Function.update_of_ne hib, Function.update_of_ne hjb] at hij
      exact s.injective i hi j hj hij
  fresh i hi := by
    have hfi := s.fresh i hi
    by_cases hib : i = b
    · rw [hib, Function.update_self]
      omega
    · rw [Function.update_of_ne hib]
      omega

def put (cell : ℕ → ℕ → UInt8) (p off : ℕ) (bytes : List UInt8) : ℕ → ℕ → UInt8 :=
  Function.update cell p fun o =>
    if off ≤ o ∧ o < off + bytes.length then bytes.getD (o - off) 0 else cell p o

variable {cell : ℕ → ℕ → UInt8}

theorem put_other {p q off o : ℕ} {bytes : List UInt8} (hq : q ≠ p) :
    put cell p off bytes q o = cell q o := by
  unfold put
  rw [Function.update_of_ne hq]

theorem put_outside {p off o : ℕ} {bytes : List UInt8} (ho : o < off ∨ off + bytes.length ≤ o) :
    put cell p off bytes p o = cell p o := by
  unfold put
  rw [Function.update_self]
  exact if_neg (by omega)

theorem put_inside {p off i : ℕ} {bytes : List UInt8} {x : UInt8} (hx : bytes[i]? = some x) :
    put cell p off bytes p (off + i) = x := by
  have hi : i < bytes.length := (List.getElem?_eq_some_iff.mp hx).1
  unfold put
  rw [Function.update_self, if_pos (by omega), Nat.add_sub_cancel_left, List.getD_eq_getElem?_getD,
    hx, Option.getD_some]

end SmallDevice

/-- The driver and the backend of this device. -/
def smallOps : Ops SmallDevice where
  readOob addr len ooblen ooboffs s :=
    match s.badReads with
    | badReads + 1 => (⟨eBadMsg, [], []⟩, { s with badReads := badReads })
    | 0 =>
      (⟨0, (List.range len).map fun i => s.cell (addr / 4) (addr % 4 + i),
        (List.range ooblen).map fun i =>
          s.spare (addr / 4) (smallChip.spareOff (addr % 4) ooboffs + i)⟩, s)
  writeOob addr data oob ooboffs s :=
    match s.badWrites with
    | badWrites + 1 => (⟨eIo, 0, 0⟩, { s with badWrites := badWrites })
    | 0 =>
      (⟨0, data.length, oob.length⟩,
        { s with
          cell := SmallDevice.put s.cell (addr / 4) (addr % 4) data
          spare := SmallDevice.put s.spare (addr / 4) (smallChip.spareOff (addr % 4) ooboffs) oob })
  erase addr s :=
    (0, { s with
      cell := Function.update s.cell (addr / 4) fun _ => 0xff
      spare := Function.update s.spare (addr / 4) fun _ => 0xff })
  getMappingBlock s b := s.mapping b
  remapBlock b p copyLen s := if b < 3 then (true, s.move b p copyLen) else (false, s)

def smallView : View SmallDevice := ⟨SmallDevice.cell, SmallDevice.spare⟩

theorem small_addr {p off : ℕ} (hoff : off < smallChip.blkSize) :
    (p * smallChip.blkSize + off) / 4 = p ∧ (p * smallChip.blkSize + off) % 4 = off := by
  change off < 4 at hoff
  change (p * 4 + off) / 4 = p ∧ (p * 4 + off) % 4 = off
  omega

theorem small_lawful : Lawful smallChip smallOps smallView where
  injective {s b b'} hb hb' _ hsame := s.injective b hb b' hb' (Int.ofNat.inj hsame)
  read_leaves addr len ooblen ooboffs s b := by
    have hsame : ∀ n, SameAt smallChip smallOps smallView s { s with badReads := n } b :=
      fun n => ⟨rfl, fun _ _ => ⟨fun _ _ => rfl, fun _ _ => rfl⟩⟩
    unfold smallOps
    dsimp only
    split
    · exact hsame _
    · exact hsame s.badReads
  read_reply {s p off len ooblen ooboffs} hoff _ _ hok := by
    obtain ⟨hdiv, hmod⟩ := small_addr (p := p) hoff
    unfold smallOps at hok ⊢
    dsimp only at hok ⊢
    split at hok
    case h_1 =>
      have hneg : (0 : ℤ) ≤ eBadMsg := hok
      exact absurd hneg (by decide)
    case h_2 hzero =>
      rw [hdiv, hmod]
      exact ⟨rfl, rfl⟩
  write_leaves {s p off ooboffs data oob} hoff _ _ := by
    obtain ⟨hdiv, hmod⟩ := small_addr (p := p) hoff
    unfold smallOps
    dsimp only
    rw [hdiv, hmod]
    split
    case h_1 =>
      exact ⟨⟨fun _ => rfl, fun _ _ => ⟨fun _ => rfl, fun _ => rfl⟩⟩, fun _ _ => rfl, fun _ _ => rfl⟩
    case h_2 =>
      exact ⟨⟨fun _ => rfl, fun q hq => ⟨fun _ => SmallDevice.put_other hq,
        fun _ => SmallDevice.put_other hq⟩⟩, fun _ ho => SmallDevice.put_outside ho,
          fun _ ho => SmallDevice.put_outside ho⟩
  write_reply {s p off ooboffs data oob} hoff _ _ hok := by
    obtain ⟨hdiv, hmod⟩ := small_addr (p := p) hoff
    unfold smallOps at hok ⊢
    dsimp only at hok ⊢
    split at hok
    case h_1 =>
      have hneg : (0 : ℤ) ≤ eIo := hok
      exact absurd hneg (by decide)
    case h_2 hzero =>
      rw [hdiv, hmod]
      exact ⟨rfl, rfl, fun _ _ hx => SmallDevice.put_inside hx,
        fun _ _ hx => SmallDevice.put_inside hx⟩
  erase_leaves p s := by
    have hdiv : p * smallChip.blkSize / 4 = p := Nat.mul_div_cancel p (by decide)
    refine ⟨fun _ => rfl, fun q hq => ⟨fun off => ?_, fun off => ?_⟩⟩
    · change Function.update s.cell (p * smallChip.blkSize / 4) _ q off = s.cell q off
      rw [hdiv, Function.update_of_ne hq]
    · change Function.update s.spare (p * smallChip.blkSize / 4) _ q off = s.spare q off
      rw [hdiv, Function.update_of_ne hq]
  erase_reply {p s} _ := by
    have hdiv : p * smallChip.blkSize / 4 = p := Nat.mul_div_cancel p (by decide)
    refine ⟨fun off _ => ?_, fun off _ => ?_⟩
    · change Function.update s.cell (p * smallChip.blkSize / 4) _ p off = _
      rw [hdiv, Function.update_self]
    · change Function.update s.spare (p * smallChip.blkSize / 4) _ p off = _
      rw [hdiv, Function.update_self]
  erase_ret _ _ := le_rfl
  remap_leaves {b p copyLen s b'} hb' h := by
    unfold smallOps at h ⊢
    dsimp only at h ⊢
    by_cases hb : b < 3
    · rw [if_pos hb] at h ⊢
      have hne : b' ≠ b := h.resolve_right Bool.noConfusion
      have hmap : Function.update s.mapping b s.next b' = s.mapping b' :=
        Function.update_of_ne hne _ _
      refine ⟨congrArg Int.ofNat hmap, fun q hq => ?_⟩
      have hfresh : q ≠ s.next := by
        have hlt := s.fresh b' hb'
        have hq : (s.mapping b' : ℤ) = q := hq
        omega
      refine ⟨fun off _ => ?_, fun off _ => ?_⟩
      · change Function.update s.cell s.next _ q off = s.cell q off
        rw [Function.update_of_ne hfresh]
      · change Function.update s.spare s.next _ q off = s.spare q off
        rw [Function.update_of_ne hfresh]
    · rw [if_neg hb]
      exact ⟨rfl, fun _ _ => ⟨fun _ _ => rfl, fun _ _ => rfl⟩⟩
  remap_copies {b p copyLen s} hb _ _ := by
    change b < 3 at hb
    refine ⟨s.next, ?_⟩
    unfold smallOps
    dsimp only
    rw [if_pos hb]
    refine ⟨?_, fun off _ => ?_, fun off _ => ?_⟩
    · change ((Function.update s.mapping b s.next b : ℕ) : ℤ) = _
      rw [Function.update_self]
    · change Function.update s.cell s.next _ s.next off = _
      rw [Function.update_self]
      rfl
    · change Function.update s.spare s.next _ s.next off = _
      rw [Function.update_self]

/-- The device before the first request, with so many operations that will fail. -/
def smallMachine (badReads badWrites : ℕ) : Machine SmallDevice :=
  ⟨.idle, .blank badReads badWrites, ⟨fun _ => none, fun _ => none⟩⟩

theorem smallMachine_init (badReads badWrites : ℕ) :
    (system smallChip smallOps smallView).init (smallMachine badReads badWrites) :=
  have hblank : ∀ {size n : ℕ} {map : ℕ → ℤ} {cell : ℕ → ℕ → UInt8},
      Shows size n map cell fun _ => none := by
    intro size n map cell b hb p hp off hoff v hv
    cases hv
  ⟨rfl, hblank, hblank⟩

/-- What the last request was answered with: the code, the data, and whether a piece
failed for good. -/
def Machine.outcome {σ : Type} (m : Machine σ) : Option (Option ℤ × List UInt8 × Bool) :=
  match m.phase with
  | .returned _ answer => some (answer.ret, answer.data, answer.failed)
  | _ => none

/-- A write over the end of a block, its second piece failing at first, and a read. -/
def smallRequests : List Event :=
  [.start (.write ⟨2, [1, 2, 3, 4], [], 0⟩), .iterate, .iterate, .iterate, .iterate,
    .start (.read ⟨1, 5, 0, 0⟩), .iterate, .iterate, .iterate]

def smallSteadyNext (m : Machine SmallDevice) (event : Event) : Option (Machine SmallDevice) :=
  if m.Steady smallChip smallOps smallView event then m.next smallChip smallOps event else none

theorem agrees_after_retry :
    ∃ m, smallRequests.foldlM smallSteadyNext (smallMachine 0 1) = some m ∧
      m.outcome = some (some 0, [0xff, 1, 2, 3, 4], false) ∧ m.Agrees smallChip := by
  have hrun : (smallRequests.foldlM smallSteadyNext (smallMachine 0 1)).bind Machine.outcome =
      some (some 0, [0xff, 1, 2, 3, 4], false) := by decide +kernel
  obtain ⟨m, hm, houtcome⟩ := Option.bind_eq_some_iff.mp hrun
  exact ⟨m, hm, houtcome, (agrees_of_reachable small_lawful
    (System.reachable_restrict_of_foldlM (.start (smallMachine_init 0 1)) _ hm)).1⟩

/-- The first attempt of a read fails, the second succeeds on the remapped block. All
bytes are there, and the code is still that of the first. -/
theorem not_agrees_of_stale_error :
    Lawful smallChip smallOps smallView ∧
      ∃ m, (system smallChip smallOps smallView).Reachable m ∧
        m.outcome = some (some eBadMsg, [0xff, 0xff], false) ∧ ¬ m.Agrees smallChip := by
  have hrun : ([Event.start (.read ⟨0, 2, 0, 0⟩), .iterate, .iterate, .iterate].foldlM
      (Machine.next smallChip smallOps) (smallMachine 1 0)).bind Machine.outcome =
        some (some eBadMsg, [0xff, 0xff], false) := by decide +kernel
  obtain ⟨m, hm, houtcome⟩ := Option.bind_eq_some_iff.mp hrun
  refine ⟨small_lawful, m, System.reachable_of_foldlM (.start (smallMachine_init 1 0)) _ hm,
    houtcome, fun hagrees => ?_⟩
  unfold Machine.outcome at houtcome
  unfold Machine.Agrees at hagrees
  split at houtcome
  case h_2 => cases houtcome
  case h_1 request answer hphase =>
    rw [hphase] at hagrees
    obtain ⟨ret, hret, hcode⟩ := hagrees.code
    obtain ⟨hanswer, hrest⟩ := Prod.mk.inj (Option.some.inj houtcome)
    rw [hret] at hanswer
    have hfailed : answer.failed = false := (Prod.mk.inj hrest).2
    have hneg : answer.failed = true := hcode.mp (by
      rw [Option.some.inj hanswer]
      decide)
    rw [hfailed] at hneg
    cases hneg

end Stale

end OpenWrt.MtkBmt.Layer
