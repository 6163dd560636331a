/-
# The accounts of the spanning tree slots

Every slot should count the VLANs that have it in their row of the VLAN table, be free when
there are none, and be the only one of its instance. The slots agree with a number of
users of each; taking and putting a slot changes that number at one place, as giving a
VLAN another slot does.

Adding the first port to a VLAN clears the slot in its row without putting it, so an
instance that was set while the VLAN had no ports is never put. Taking over a slot leaves
the port states of the old instance in it. A run in which neither happens keeps the
accounts.
-/

import OpenWrt.Lib.Fibers
import OpenWrt.Rtl83xx.Mst

namespace OpenWrt.Rtl83xx

open OpenWrt.Lib

/-! ## Slots and their users -/

section Slots

variable {board : Board} {nMst : ℕ}

/-- The slots agree with the number of users of each. -/
structure Counted (nMst : ℕ) (msts : ℕ → MstSlot) (users : ℕ → ℕ) : Prop where
  refcount_eq : ∀ i < nMst - 1, (msts i).refcount = users (i + 1)
  free_iff : ∀ i < nMst - 1, (msts i).msti = 0 ↔ users (i + 1) = 0
  distinct : ∀ i < nMst - 1, ∀ j < nMst - 1,
    (msts i).msti ≠ 0 → (msts i).msti = (msts j).msti → i = j

def SlotOf (nMst : ℕ) (msts : ℕ → MstSlot) (msti slot : ℕ) : Prop :=
  if msti = 0 then slot = 0 else ∃ i < nMst - 1, slot = i + 1 ∧ (msts i).msti = msti

variable {msts : ℕ → MstSlot}

theorem Counted.congr {users users' : ℕ → ℕ} (hc : Counted nMst msts users)
    (heq : ∀ i < nMst - 1, users (i + 1) = users' (i + 1)) :
    Counted nMst msts users' where
  refcount_eq i hi := (hc.refcount_eq i hi).trans (heq i hi)
  free_iff i hi := heq i hi ▸ hc.free_iff i hi
  distinct := hc.distinct

theorem slotOf_zero : SlotOf nMst msts 0 0 := by simp [SlotOf]

theorem slotOf_succ {msti i : ℕ} (hmsti : msti ≠ 0) (hi : i < nMst - 1)
    (howns : (msts i).msti = msti) : SlotOf nMst msts msti (i + 1) :=
  (if_neg hmsti).mpr ⟨i, hi, rfl, howns⟩

/-- The slot of an instance stays its slot while the slot keeps its instance. -/
theorem SlotOf.of_keeps {msts msts' : ℕ → MstSlot} {msti slot : ℕ}
    (hslot : SlotOf nMst msts msti slot)
    (hkeeps : ∀ i < nMst - 1, slot = i + 1 → (msts i).msti = msti → msti ≠ 0 →
      (msts' i).msti = msti) : SlotOf nMst msts' msti slot := by
  unfold SlotOf at hslot ⊢
  split
  next h => rwa [if_pos h] at hslot
  next h =>
    rw [if_neg h] at hslot
    obtain ⟨i, hi, rfl, howns⟩ := hslot
    exact ⟨i, hi, rfl, hkeeps i hi rfl howns h⟩

/-! ### Taking a slot -/

/-- What `rtldsa_mst_get` does when it has a slot. -/
inductive Got (board : Board) (nMst : ℕ) (s : Msts) (msti : ℕ) (ports : PortStates) :
    ℕ → Msts → Prop
  | common (hmsti : msti = 0) : Got board nMst s msti ports 0 s
  | found {i : ℕ} (hi : i < nMst - 1) (hmsti : msti ≠ 0) (howns : (s.msts i).msti = msti) :
      Got board nMst s msti ports (i + 1) { s with
        msts := Function.update s.msts i
          { s.msts i with refcount := (s.msts i).refcount + 1 } }
  | fresh {i : ℕ} (hi : i < nMst - 1) (hmsti : msti ≠ 0) (hfree : (s.msts i).msti = 0)
      (hnone : ∀ j < nMst - 1, (s.msts j).msti ≠ msti) :
      Got board nMst s msti ports (i + 1) { s with
        msts := Function.update s.msts i ⟨msti, 1⟩
        stp := rtldsaMstInit board ports s.stp (i + 1) }

/-- No slot is of the instance, and none is free. -/
def Full (nMst : ℕ) (s : Msts) (msti : ℕ) : Prop :=
  msti ≠ 0 ∧ ∀ i < nMst - 1, (s.msts i).msti ≠ msti ∧ (s.msts i).msti ≠ 0

instance (s : Msts) (msti : ℕ) : Decidable (Full nMst s msti) :=
  inferInstanceAs (Decidable (_ ∧ _))

/-- Without a slot `rtldsa_mst_get` changes nothing. -/
theorem got_or_error_of_get {s : Msts} {msti : ℕ} (hmsti : msti ≤ 4095) (ports : PortStates) :
    (∃ slot s', rtldsaMstGet board nMst s msti ports = (.ok slot, s') ∧
      Got board nMst s msti ports slot s' ∧ ¬ Full nMst s msti) ∨
    (rtldsaMstGet board nMst s msti ports = (.error enospc, s) ∧ Full nMst s msti) := by
  unfold rtldsaMstGet rtldsaMstFind
  by_cases hzero : msti = 0
  · left
    rw [if_pos hzero]
    exact ⟨0, s, rfl, .common hzero, fun h => h.1 hzero⟩
  rw [if_neg hzero, if_neg (by omega)]
  cases hfind : (List.range (nMst - 1)).find? fun i => (s.msts i).msti = msti with
  | some i =>
    left
    have howns : (s.msts i).msti = msti := by simpa using List.find?_some hfind
    have hi : i < nMst - 1 := by simpa using List.mem_of_find?_eq_some hfind
    exact ⟨_, _, rfl, .found hi hzero howns, fun h => (h.2 i hi).1 howns⟩
  | none =>
    have hnone : ∀ j < nMst - 1, (s.msts j).msti ≠ msti := by simpa using hfind
    simp only [ne_eq, not_true_eq_false, if_false]
    cases hfree : (List.range (nMst - 1)).find? fun i => (s.msts i).msti = 0 with
    | some i =>
      left
      have hfreeI : (s.msts i).msti = 0 := by simpa using List.find?_some hfree
      have hi : i < nMst - 1 := by simpa using List.mem_of_find?_eq_some hfree
      exact ⟨_, _, rfl, .fresh hi hzero hfreeI hnone, fun h => (h.2 i hi).2 hfreeI⟩
    | none =>
      right
      have hused : ∀ j < nMst - 1, (s.msts j).msti ≠ 0 := by simpa using hfree
      exact ⟨rfl, hzero, fun i hi => ⟨hnone i hi, hused i hi⟩⟩

variable {s s' : Msts} {msti slot : ℕ} {ports : PortStates} {users : ℕ → ℕ}

theorem Got.vlans_eq (hgot : Got board nMst s msti ports slot s') : s'.vlans = s.vlans := by
  cases hgot <;> rfl

/-- The slot that is taken has one user more. -/
theorem Got.counted (hgot : Got board nMst s msti ports slot s') (hc : Counted nMst s.msts users) :
    Counted nMst s'.msts (Function.update users slot (users slot + 1)) := by
  cases hgot with
  | common => exact hc.congr fun i _ => by rw [Function.update_of_ne (by omega)]
  | @found i hi hmsti howns =>
    have hused : users (i + 1) ≠ 0 := fun h => hmsti (howns ▸ (hc.free_iff i hi).mpr h)
    refine ⟨fun j hj => ?_, fun j hj => ?_, fun j hj k hk => ?_⟩
    · by_cases h : j = i
      · subst h
        simp [hc.refcount_eq j hj]
      · simp [h, hc.refcount_eq j hj]
    · by_cases h : j = i
      · subst h
        simp [howns, hmsti]
      · simp [h, hc.free_iff j hj]
    · have hkeeps : ∀ l, (Function.update s.msts i
          { s.msts i with refcount := (s.msts i).refcount + 1 } l).msti = (s.msts l).msti := by
        intro l
        by_cases h : l = i
        · rw [h, Function.update_self]
        · rw [Function.update_of_ne h]
      rw [hkeeps, hkeeps]
      exact hc.distinct j hj k hk
  | @fresh i hi hmsti hfree hnone =>
    have hunused : users (i + 1) = 0 := (hc.free_iff i hi).mp hfree
    refine ⟨fun j hj => ?_, fun j hj => ?_, fun j hj k hk => ?_⟩
    · by_cases h : j = i
      · simp [h, hunused]
      · simp [h, hc.refcount_eq j hj]
    · by_cases h : j = i
      · simp [h, hmsti]
      · simp [h, hc.free_iff j hj]
    · by_cases hji : j = i <;> by_cases hki : k = i
      · exact fun _ _ => hji.trans hki.symm
      · simp only [hji, Function.update_self, Function.update_of_ne hki]
        exact fun _ h => absurd h.symm (hnone k hk)
      · simp only [hki, Function.update_self, Function.update_of_ne hji]
        exact fun _ h => absurd h (hnone j hj)
      · simp only [Function.update_of_ne hji, Function.update_of_ne hki]
        exact hc.distinct j hj k hk

theorem Got.slotOf (hgot : Got board nMst s msti ports slot s') : SlotOf nMst s'.msts msti slot := by
  cases hgot with
  | common hmsti =>
    rw [hmsti]
    exact slotOf_zero
  | found hi hmsti howns => exact slotOf_succ hmsti hi (by simp [howns])
  | fresh hi hmsti => exact slotOf_succ hmsti hi (by simp)

/-- Taking a slot leaves every instance its slot. -/
theorem Got.slotOf_keeps (hgot : Got board nMst s msti ports slot s') {msti' slot' : ℕ}
    (hslot : SlotOf nMst s.msts msti' slot') : SlotOf nMst s'.msts msti' slot' := by
  apply hslot.of_keeps
  intro j hj _ howns' hmsti'
  cases hgot with
  | common => exact howns'
  | @found i =>
    by_cases h : j = i
    · simpa [h] using h ▸ howns'
    · simpa [h] using howns'
  | @fresh i hi hmsti hfree =>
    have h : j ≠ i := fun h => hmsti' (howns' ▸ h ▸ hfree)
    simpa [h] using howns'

/-- A slot that gets another instance has its port states initialised. -/
theorem Got.initialised (hgot : Got board nMst s msti ports slot s') {i : ℕ}
    (hne : (s'.msts i).msti ≠ (s.msts i).msti) :
    s'.stp (i + 1) = rtldsaMstInit board ports s.stp (i + 1) (i + 1) := by
  cases hgot with
  | common => exact absurd rfl hne
  | @found j =>
    by_cases h : i = j
    · exact absurd (by simp [h]) hne
    · exact absurd (by simp [h]) hne
  | @fresh j =>
    by_cases h : i = j
    · rw [h]
    · exact absurd (by simp [h]) hne

/-! ### Putting a slot -/

@[simp]
theorem vlans_putSlot (s : Msts) (slot : ℕ) : (rtldsaMstPutSlot nMst s slot).vlans = s.vlans := by
  unfold rtldsaMstPutSlot
  dsimp only
  split_ifs <;> rfl

@[simp]
theorem stp_putSlot (s : Msts) (slot : ℕ) : (rtldsaMstPutSlot nMst s slot).stp = s.stp := by
  unfold rtldsaMstPutSlot
  dsimp only
  split_ifs <;> rfl

theorem msts_putSlot_congr {s s' : Msts} (hmsts : s.msts = s'.msts) (slot : ℕ) :
    (rtldsaMstPutSlot nMst s slot).msts = (rtldsaMstPutSlot nMst s' slot).msts := by
  unfold rtldsaMstPutSlot
  rw [hmsts]
  dsimp only
  split_ifs <;> first | rfl | exact hmsts

theorem putSlot_succ {i : ℕ} (hc : Counted nMst s.msts users) (hi : i < nMst - 1)
    (hpos : 0 < users (i + 1)) :
    (rtldsaMstPutSlot nMst s (i + 1)).msts = Function.update s.msts i
      ⟨if users (i + 1) - 1 = 0 then 0 else (s.msts i).msti, users (i + 1) - 1⟩ := by
  have hused : (s.msts i).msti ≠ 0 := fun h => by
    have := (hc.free_iff i hi).mp h
    omega
  simp [rtldsaMstPutSlot, show ¬ nMst ≤ i + 1 by omega, hused, hc.refcount_eq i hi]

theorem putSlot_eq_self {slot : ℕ} (hslot : slot = 0 ∨ nMst ≤ slot) :
    rtldsaMstPutSlot nMst s slot = s := by
  unfold rtldsaMstPutSlot
  cases hslot with
  | inl h => rw [if_pos h]
  | inr h =>
    rw [if_pos h]
    split_ifs <;> rfl

theorem Counted.putSlot (hc : Counted nMst s.msts users) (hpos : 0 < users slot) :
    Counted nMst (rtldsaMstPutSlot nMst s slot).msts
      (Function.update users slot (users slot - 1)) := by
  by_cases hrange : slot = 0 ∨ nMst ≤ slot
  · rw [putSlot_eq_self hrange]
    exact hc.congr fun i hi => by rw [Function.update_of_ne (by omega)]
  · obtain ⟨i, rfl⟩ : ∃ i, slot = i + 1 := ⟨slot - 1, by omega⟩
    have hi : i < nMst - 1 := by omega
    have hused : (s.msts i).msti ≠ 0 := fun h => by
      have := (hc.free_iff i hi).mp h
      omega
    rw [putSlot_succ hc hi hpos]
    have hmsti : ∀ j, (Function.update s.msts i
        ⟨if users (i + 1) - 1 = 0 then 0 else (s.msts i).msti, users (i + 1) - 1⟩ j).msti ≠ 0 →
        (Function.update s.msts i
          ⟨if users (i + 1) - 1 = 0 then 0 else (s.msts i).msti, users (i + 1) - 1⟩ j).msti =
          (s.msts j).msti := by
      intro j
      by_cases h : j = i
      · subst h
        rw [Function.update_self]
        intro hne
        exact if_neg fun hz => hne (if_pos hz)
      · rw [Function.update_of_ne h]
        exact fun _ => rfl
    refine ⟨fun j hj => ?_, fun j hj => ?_, fun j hj k hk hne heq => ?_⟩
    · by_cases h : j = i
      · simp [h]
      · simp [h, hc.refcount_eq j hj]
    · by_cases h : j = i
      · simp [h, hused]
      · simp [h, hc.free_iff j hj]
    · have hj' := hmsti j hne
      have hk' := hmsti k (heq ▸ hne)
      exact hc.distinct j hj k hk (hj' ▸ hne) (hj' ▸ hk' ▸ heq)

/-- Putting a slot leaves an instance its slot when users of it remain. -/
theorem SlotOf.putSlot {msti' slot' : ℕ} (hslot : SlotOf nMst s.msts msti' slot')
    (hc : Counted nMst s.msts users) (hpos : 0 < users slot)
    (hremain : slot' ≠ slot ∨ 1 < users slot) :
    SlotOf nMst (rtldsaMstPutSlot nMst s slot).msts msti' slot' := by
  by_cases hrange : slot = 0 ∨ nMst ≤ slot
  · rwa [putSlot_eq_self hrange]
  · obtain ⟨i, rfl⟩ : ∃ i, slot = i + 1 := ⟨slot - 1, by omega⟩
    apply hslot.of_keeps
    intro j hj hslot' howns _
    rw [putSlot_succ hc (by omega) hpos]
    by_cases h : j = i
    · subst h
      rw [Function.update_self, if_neg (by omega), howns]
    · rw [Function.update_of_ne h, howns]

/-- A slot that is put gets no other instance. -/
theorem putSlot_msti (s : Msts) (slot i : ℕ)
    (hne : ((rtldsaMstPutSlot nMst s slot).msts i).msti ≠ 0) :
    ((rtldsaMstPutSlot nMst s slot).msts i).msti = (s.msts i).msti := by
  unfold rtldsaMstPutSlot at hne ⊢
  dsimp only at hne ⊢
  split_ifs at hne ⊢ with h₁ h₂ h₃ h₄
  · rfl
  · rfl
  · rfl
  · by_cases h : i = slot - 1
    · exact absurd (by simp [h]) hne
    · simp [h]
  · by_cases h : i = slot - 1 <;> simp [h]

/-! ### Taking over a slot -/

/-- The slot that the instance of a VLAN would be taken over from. -/
def Recycles (nMst : ℕ) (s : Msts) (msti old : ℕ) : Prop :=
  Full nMst s msti ∧ 0 < old ∧ old < nMst ∧ (s.msts (old - 1)).refcount = 1

instance (s : Msts) (msti old : ℕ) : Decidable (Recycles nMst s msti old) :=
  inferInstanceAs (Decidable (_ ∧ _))

/-- `rtldsa_mst_recycle_slot` gives the slot to the instance, or changes nothing. -/
theorem recycle_cases (hmsti : msti ≤ 4095) (hfull : Full nMst s msti) (old : ℕ) :
    (∃ i < nMst - 1, old = i + 1 ∧ (s.msts i).refcount = 1 ∧
      rtldsaMstRecycleSlot nMst s msti old = (.ok old, { s with
        msts := Function.update s.msts i { s.msts i with msti := msti } })) ∨
    (∃ err, rtldsaMstRecycleSlot nMst s msti old = (.error err, s) ∧ err ≠ 0 ∧
      ¬ Recycles nMst s msti old) := by
  unfold rtldsaMstRecycleSlot
  rw [if_neg hfull.1]
  by_cases hzero : old = 0
  · rw [if_pos hzero]
    exact .inr ⟨_, rfl, by decide, fun h => by have := h.2.1; omega⟩
  rw [if_neg hzero, if_neg (by omega)]
  by_cases hrange : nMst ≤ old
  · rw [if_pos hrange]
    exact .inr ⟨_, rfl, by decide, fun h => by have := h.2.2.1; omega⟩
  have hi : old - 1 < nMst - 1 := by omega
  rw [if_neg hrange]
  simp only [if_neg (hfull.2 _ hi).2]
  by_cases hone : (s.msts (old - 1)).refcount = 1
  · rw [if_neg (not_not.mpr hone)]
    exact .inl ⟨old - 1, hi, by omega, hone, rfl⟩
  · rw [if_pos hone]
    exact .inr ⟨_, rfl, by decide, fun h => hone h.2.2.2⟩

end Slots

/-! ## Calls -/

section Calls

variable (board : Board) (nMst : ℕ)

/-- The slot in each row of the VLAN table. -/
def Msts.fids (s : Msts) (vid : Vid) : ℕ := (s.vlans vid).fid

/-- How many VLANs have the slot in their row. -/
def Msts.users (s : Msts) (slot : ℕ) : ℕ := fiberCard s.fids slot

/-- A run of the driver: its state, and the instance last set for each VLAN. A VLAN that
loses its last member goes back to the common tree. -/
structure MstLog where
  state : Msts
  last : Vid → ℕ

def MstLog.apply (log : MstLog) (call : MstCall) : MstLog :=
  let (ret, state) := call.run board nMst log.state
  let last :=
    match call with
    | .vlanAdd .. => log.last
    | .vlanDel _ vid =>
      if vid ≠ 0 ∧ (state.vlans vid).memberPorts = 0 then Function.update log.last vid 0
      else log.last
    | .mstiSet vid msti _ =>
      if ret = 0 then Function.update log.last vid msti else log.last
  { state, last }

/-- Nothing was set after setup. -/
def MstLog.probed : MstLog := ⟨.probed board, fun _ => 0⟩

/-- The accounts of the slots: each counts its VLANs, and those with members have the slot
of the instance last set for them. -/
structure MstLog.Accounts (log : MstLog) : Prop where
  counted : Counted nMst log.state.msts log.state.users
  slotOf : ∀ vid, (log.state.vlans vid).memberPorts ≠ 0 →
    SlotOf nMst log.state.msts (log.last vid) (log.state.fids vid)

/-- A failing call changes nothing, and a slot that gets another instance has its port
states initialised. -/
structure MstCall.Faithful (s : Msts) (call : MstCall) : Prop where
  error : (call.run board nMst s).1 ≠ 0 → (call.run board nMst s).2 = s
  initialised : ∀ i < nMst - 1, ((call.run board nMst s).2.msts i).msti ≠ 0 →
    ((call.run board nMst s).2.msts i).msti ≠ (s.msts i).msti →
    ∃ vid msti ports, call = .mstiSet vid msti ports ∧
      (call.run board nMst s).2.stp (i + 1) = rtldsaMstInit board ports s.stp (i + 1) (i + 1)

/-- No slot is lost and none is taken over with other port states: a VLAN that gets its first
member has no slot, and the port states of a slot that is taken over are as they are
initialised. -/
def MstCall.Sound (s : Msts) : MstCall → Prop
  | .vlanAdd _ vid _ _ => vid ≠ 0 → (s.vlans vid).memberPorts = 0 → (s.vlans vid).fid = 0
  | .vlanDel _ _ => True
  | .mstiSet vid msti ports =>
    Recycles nMst s msti (s.vlans vid).fid →
      s.stp (s.vlans vid).fid =
        rtldsaMstInit board ports s.stp (s.vlans vid).fid (s.vlans vid).fid

end Calls

/-! ### What the calls do to the rows -/

section Rows

variable {board : Board} {nMst : ℕ} {s : Msts} {vid : Vid}

@[simp]
theorem fids_vlanSetTagged (s : Msts) (vid : Vid) (info : VlanInfo) :
    (vlanSetTagged s vid info).fids = Function.update s.fids vid info.fid := by
  ext v
  by_cases h : v = vid <;> simp [Msts.fids, vlanSetTagged, h]

@[simp]
theorem fids_vlanSetUntagged (s : Msts) (vid : Vid) (ports : U64) :
    (vlanSetUntagged s vid ports).fids = s.fids := by
  ext v
  by_cases h : v = vid <;> simp [Msts.fids, vlanSetUntagged, h]

@[simp]
theorem fids_putSlot (s : Msts) (slot : ℕ) : (rtldsaMstPutSlot nMst s slot).fids = s.fids := by
  ext v
  simp [Msts.fids]

theorem rtldsaVlanPrepare_eq (s : Msts) : rtldsaVlanPrepare s = s := by
  simp [rtldsaVlanPrepare, vlanSetTagged, vlanSetUntagged]

/-- A VLAN that gets its first member loses its slot. -/
theorem vlanAdd_effect (s : Msts) (port : ℕ) (pvid untagged : Bool) (hvid : vid ≠ 0) :
    (rtldsaVlanAdd board s port vid pvid untagged).msts = s.msts ∧
    (rtldsaVlanAdd board s port vid pvid untagged).fids =
      Function.update s.fids vid (if (s.vlans vid).memberPorts = 0 then 0 else s.fids vid) := by
  unfold rtldsaVlanAdd
  rw [if_neg hvid, rtldsaVlanPrepare_eq]
  dsimp only
  -- the PVIDs are of no account here
  have hpvid : ∀ s' : Msts, s'.msts = s.msts → s'.vlans = s.vlans →
      ∀ (untaggedPorts : U64) (info : VlanInfo),
        info.fid = (if (s.vlans vid).memberPorts = 0 then 0 else s.fids vid) →
        (vlanSetTagged (vlanSetUntagged s' vid untaggedPorts) vid info).msts = s.msts ∧
        (vlanSetTagged (vlanSetUntagged s' vid untaggedPorts) vid info).fids =
          Function.update s.fids vid
            (if (s.vlans vid).memberPorts = 0 then 0 else s.fids vid) := by
    intro s' hmsts hvlans untaggedPorts info hfid
    have hfids : s'.fids = s.fids := by
      ext v
      simp [Msts.fids, hvlans]
    exact ⟨hmsts, by rw [fids_vlanSetTagged, fids_vlanSetUntagged, hfids, hfid]⟩
  have hstate : ∀ (p q r : Prop) [Decidable p] [Decidable q] [Decidable r] (a b : ℕ),
      (if p then if q then rtldsaVlanSetPvid s port a else if r then rtldsaVlanSetPvid s port b
        else s else s).msts = s.msts ∧
      (if p then if q then rtldsaVlanSetPvid s port a else if r then rtldsaVlanSetPvid s port b
        else s else s).vlans = s.vlans := by
    intro p q r _ _ _ a b
    split_ifs <;> exact ⟨rfl, rfl⟩
  obtain ⟨hmsts, hvlans⟩ := hstate (port ≠ board.cpuPort) (pvid = true)
    (s.pvid port = (vid : ℕ)) vid 0
  apply hpvid _ hmsts hvlans
  rw [hvlans]
  split <;> rfl

/-- A VLAN that loses its last member gives its slot back. -/
theorem vlanDel_effect (s : Msts) (port : ℕ) (hvid : vid ≠ 0) :
    let members := ((rtldsaVlanDel nMst s port vid).vlans vid).memberPorts
    (members = 0 → (rtldsaVlanDel nMst s port vid).msts =
        (rtldsaMstPutSlot nMst s (s.fids vid)).msts ∧
      (rtldsaVlanDel nMst s port vid).fids = Function.update s.fids vid 0) ∧
    (members ≠ 0 → (rtldsaVlanDel nMst s port vid).msts = s.msts ∧
      (rtldsaVlanDel nMst s port vid).fids = s.fids) := by
  unfold rtldsaVlanDel
  rw [if_neg hvid]
  dsimp only
  have hstate : ∀ (p : Prop) [Decidable p],
      (if p then rtldsaVlanSetPvid s port 0 else s) =
        { s with pvid := if p then Function.update s.pvid port 0 else s.pvid } := by
    intro p _
    split <;> rfl
  rw [hstate]
  generalize (if s.pvid port = (vid : ℕ) then Function.update s.pvid port 0 else s.pvid) = pvids
  by_cases hlast : (s.vlans vid).memberPorts &&& ~~~ bitUll port = 0
  · rw [if_pos hlast]
    have hmembers : ((vlanSetTagged (vlanSetUntagged (rtldsaMstPutSlot nMst { s with pvid := pvids }
        (s.vlans vid).fid) vid ((s.vlans vid).untaggedPorts &&& ~~~ bitUll port)) vid
        { s.vlans vid with
          untaggedPorts := (s.vlans vid).untaggedPorts &&& ~~~ bitUll port
          memberPorts := (s.vlans vid).memberPorts &&& ~~~ bitUll port
          fid := 0 }).vlans vid).memberPorts = 0 := by
      simpa [vlanSetTagged] using hlast
    refine ⟨fun _ => ⟨?_, ?_⟩, fun h => absurd hmembers h⟩
    · have hmsts : ({ s with pvid := pvids } : Msts).msts = s.msts := rfl
      exact msts_putSlot_congr hmsts _
    · rw [fids_vlanSetTagged, fids_vlanSetUntagged, fids_putSlot]
      rfl
  · rw [if_neg hlast]
    refine ⟨fun h => absurd (by simpa [vlanSetTagged] using h) hlast, fun _ => ⟨rfl, ?_⟩⟩
    rw [fids_vlanSetTagged, fids_vlanSetUntagged]
    exact Function.update_eq_self vid s.fids

end Rows

/-! ## Steps -/

section Steps

variable {board : Board} {nMst : ℕ}

/-- The accounts, with the VLANs that have no members among those that have the slot of
their instance. -/
structure Kept (nMst : ℕ) (msts : ℕ → MstSlot) (fids last : Vid → ℕ) : Prop where
  counted : Counted nMst msts (fiberCard fids)
  slotOf : ∀ vid, SlotOf nMst msts (last vid) (fids vid)

/-- The accounts of a run are kept. -/
def MstLog.Kept (nMst : ℕ) (log : MstLog) : Prop :=
  Rtl83xx.Kept nMst log.state.msts log.state.fids log.last

theorem MstLog.Kept.accounts {log : MstLog} (hkept : log.Kept nMst) : log.Accounts nMst :=
  ⟨hkept.counted, fun vid _ => hkept.slotOf vid⟩

theorem kept_probed (board : Board) (nMst : ℕ) : (MstLog.probed board).Kept nMst where
  counted := by
    have hnone : ∀ i, fiberCard (Msts.probed board).fids (i + 1) = 0 := fun i =>
      fiberCard_eq_zero_iff.mpr fun _ => (Nat.succ_ne_zero i).symm
    exact ⟨fun i _ => (hnone i).symm, fun i _ => iff_of_true rfl (hnone i),
      fun i _ j _ h => absurd rfl h⟩
  slotOf _ := slotOf_zero

variable {s s' : Msts} {fids last : Vid → ℕ} {msti slot : ℕ} {ports : PortStates}

/-- Taking the slot of an instance for a VLAN and putting the one the VLAN had. -/
theorem Kept.replace (hkept : Kept nMst s.msts fids last)
    (hgot : Got board nMst s msti ports slot s') (vid : Vid) :
    Kept nMst (rtldsaMstPutSlot nMst s' (fids vid)).msts (Function.update fids vid slot)
      (Function.update last vid msti) := by
  have hcounted := hgot.counted hkept.counted
  have hold : 0 < fiberCard fids (fids vid) := fiberCard_pos fids vid
  have hle : fiberCard fids (fids vid) ≤
      Function.update (fiberCard fids) slot (fiberCard fids slot + 1) (fids vid) := by
    by_cases h : fids vid = slot
    · simp [h]
    · simp [h]
  refine ⟨(hcounted.putSlot (by omega)).congr fun i _ => ?_, fun w => ?_⟩
  · have hmove := fiberCard_update fids vid slot (i + 1)
    by_cases hnew : slot = i + 1 <;> by_cases hvid : fids vid = i + 1
    · rw [if_pos hnew, if_pos hvid] at hmove
      subst hnew
      rw [hvid, Function.update_self, Function.update_self]
      omega
    · rw [if_pos hnew, if_neg hvid] at hmove
      subst hnew
      rw [Function.update_of_ne (Ne.symm hvid), Function.update_self]
      omega
    · rw [if_neg hnew, if_pos hvid] at hmove
      rw [hvid, Function.update_self, Function.update_of_ne (Ne.symm hnew)]
      omega
    · rw [if_neg hnew, if_neg hvid] at hmove
      rw [Function.update_of_ne (Ne.symm hvid), Function.update_of_ne (Ne.symm hnew)]
      omega
  · by_cases hw : w = vid
    · subst hw
      rw [Function.update_self, Function.update_self]
      apply hgot.slotOf.putSlot hcounted (by omega)
      by_cases h : slot = fids w
      · exact .inr (by rw [h, Function.update_self]; omega)
      · exact .inl h
    · rw [Function.update_of_ne hw, Function.update_of_ne hw]
      apply (hgot.slotOf_keeps (hkept.slotOf w)).putSlot hcounted (by omega)
      by_cases h : fids w = fids vid
      · -- the other VLAN is one more user of the slot
        have := one_lt_fiberCard hw h
        rw [h] at this
        exact .inr (by omega)
      · exact .inl h

/-- Taking over the slot of a VLAN that is its only user. -/
theorem Kept.recycle (hkept : Kept nMst s.msts fids last) (hfull : Full nMst s msti) {vid : Vid}
    {i : ℕ} (hi : i < nMst - 1) (hvid : fids vid = i + 1) (hone : (s.msts i).refcount = 1) :
    Kept nMst (Function.update s.msts i { s.msts i with msti := msti })
      (Function.update fids vid (i + 1)) (Function.update last vid msti) := by
  obtain ⟨hzero, hnone⟩ := hfull
  have huser : fiberCard fids (i + 1) = 1 := (hkept.counted.refcount_eq i hi).symm.trans hone
  rw [← hvid, Function.update_eq_self]
  refine ⟨⟨fun j hj => ?_, fun j hj => ?_, fun j hj k hk => ?_⟩, fun w => ?_⟩
  · by_cases h : j = i
    · subst h
      simp [hkept.counted.refcount_eq j hj]
    · simp [h, hkept.counted.refcount_eq j hj]
  · by_cases h : j = i
    · simp [h, hzero, huser]
    · simp [h, hkept.counted.free_iff j hj]
  · by_cases hji : j = i <;> by_cases hki : k = i
    · exact fun _ _ => hji.trans hki.symm
    · simp only [hji, Function.update_self, Function.update_of_ne hki]
      exact fun _ h => absurd h.symm (hnone k hk).1
    · simp only [hki, Function.update_self, Function.update_of_ne hji]
      exact fun _ h => absurd h (hnone j hj).1
    · simp only [Function.update_of_ne hji, Function.update_of_ne hki]
      exact hkept.counted.distinct j hj k hk
  · by_cases hw : w = vid
    · subst hw
      rw [Function.update_self, hvid]
      exact slotOf_succ hzero hi (by simp)
    · rw [Function.update_of_ne hw]
      apply (hkept.slotOf w).of_keeps
      intro j hj hslot howns _
      have hne : j ≠ i := by
        rintro rfl
        have := one_lt_fiberCard hw (hslot.trans hvid.symm)
        rw [hslot, huser] at this
        omega
      rw [Function.update_of_ne hne, howns]

/-- What setting the instance of a VLAN comes to: a slot is taken and the old one put, the
old one is taken over, or nothing happens. -/
theorem mstiSet_cases (board : Board) (nMst : ℕ) (s : Msts) (vid : Vid) {msti : ℕ}
    (hmsti : msti ≤ 4095) (ports : PortStates) :
    (∃ slot s', Got board nMst s msti ports slot s' ∧ ¬ Full nMst s msti ∧
      rtldsaVlanMstiSet board nMst s vid msti ports =
        (0, vlanSetTagged (rtldsaMstPutSlot nMst s' (s.fids vid)) vid
          { s.vlans vid with fid := slot })) ∨
    (∃ i < nMst - 1, s.fids vid = i + 1 ∧ (s.msts i).refcount = 1 ∧ Full nMst s msti ∧
      rtldsaVlanMstiSet board nMst s vid msti ports =
        (0, vlanSetTagged { s with
            msts := Function.update s.msts i { s.msts i with msti := msti } } vid
          { s.vlans vid with fid := i + 1 })) ∨
    (∃ err, err ≠ 0 ∧ ¬ Recycles nMst s msti (s.fids vid) ∧
      rtldsaVlanMstiSet board nMst s vid msti ports = (err, s)) := by
  unfold rtldsaVlanMstiSet rtldsaMstReplace
  obtain ⟨slot, s', hget, hgot, hnot⟩ | ⟨hget, hfull⟩ :=
    @got_or_error_of_get board nMst s msti hmsti ports
  · left
    refine ⟨slot, s', hgot, hnot, ?_⟩
    rw [hget]
    rfl
  · right
    rw [hget]
    simp only [if_true]
    obtain ⟨i, hi, hold, hone, hrecycle⟩ | ⟨err, hrecycle, herr, hnot⟩ :=
      recycle_cases hmsti hfull (s.fids vid)
    · left
      refine ⟨i, hi, hold, hone, hfull, ?_⟩
      rw [← hold]
      simp only [Msts.fids] at hrecycle ⊢
      rw [hrecycle]
    · right
      refine ⟨err, herr, hnot, ?_⟩
      simp only [Msts.fids] at hrecycle
      rw [hrecycle]

/-- The accounts survive a call that loses no slot. -/
theorem MstLog.Kept.apply {log : MstLog} (hkept : log.Kept nMst) {call : MstCall}
    (hsound : call.Sound board nMst log.state) : (log.apply board nMst call).Kept nMst := by
  cases call with
  | vlanAdd port vid pvid untagged =>
    by_cases hvid : vid = 0
    · have hstate : rtldsaVlanAdd board log.state port vid pvid untagged = log.state :=
        if_pos hvid
      change Rtl83xx.Kept nMst (rtldsaVlanAdd board log.state port vid pvid untagged).msts
        (rtldsaVlanAdd board log.state port vid pvid untagged).fids log.last
      rw [hstate]
      exact hkept
    · obtain ⟨hmsts, hfids⟩ := @vlanAdd_effect board vid log.state port pvid untagged hvid
      have hsame : (if (log.state.vlans vid).memberPorts = 0 then 0 else log.state.fids vid) =
          log.state.fids vid := by
        split
        next hnew => exact (hsound hvid hnew).symm
        next => rfl
      change Rtl83xx.Kept nMst (rtldsaVlanAdd board log.state port vid pvid untagged).msts
        (rtldsaVlanAdd board log.state port vid pvid untagged).fids log.last
      rw [hmsts, hfids, hsame, Function.update_eq_self]
      exact hkept
  | vlanDel port vid =>
    change Rtl83xx.Kept nMst (rtldsaVlanDel nMst log.state port vid).msts
      (rtldsaVlanDel nMst log.state port vid).fids
      (if vid ≠ 0 ∧ ((rtldsaVlanDel nMst log.state port vid).vlans vid).memberPorts = 0 then
        Function.update log.last vid 0 else log.last)
    by_cases hvid : vid = 0
    · have hstate : rtldsaVlanDel nMst log.state port vid = log.state := if_pos hvid
      rw [if_neg fun h => h.1 hvid, hstate]
      exact hkept
    · obtain ⟨hlast, hmore⟩ := @vlanDel_effect nMst vid log.state (port : ℕ) hvid
      by_cases hmembers : ((rtldsaVlanDel nMst log.state port vid).vlans vid).memberPorts = 0
      · obtain ⟨hmsts, hfids⟩ := hlast hmembers
        rw [if_pos ⟨hvid, hmembers⟩, hmsts, hfids]
        have hcommon : Got board nMst log.state 0 ⟨fun _ => false, fun _ => .disabled⟩ 0 log.state :=
          .common rfl
        exact hkept.replace hcommon vid
      · obtain ⟨hmsts, hfids⟩ := hmore hmembers
        rw [if_neg fun h => hmembers h.2, hmsts, hfids]
        exact hkept
  | mstiSet vid msti ports =>
    obtain ⟨slot, s', hgot, -, hrun⟩ | ⟨i, hi, hold, hone, hfull, hrun⟩ | ⟨err, herr, -, hrun⟩ :=
      mstiSet_cases board nMst log.state vid (Nat.le_of_lt_succ msti.isLt) ports
    all_goals
      change Rtl83xx.Kept nMst (rtldsaVlanMstiSet board nMst log.state vid msti ports).2.msts
        (rtldsaVlanMstiSet board nMst log.state vid msti ports).2.fids
        (if (rtldsaVlanMstiSet board nMst log.state vid msti ports).1 = 0 then
          Function.update log.last vid msti else log.last)
      rw [hrun]
    · have hfids : s'.fids = log.state.fids := by
        ext v
        rw [Msts.fids, Msts.fids, hgot.vlans_eq]
      rw [if_pos rfl, fids_vlanSetTagged, fids_putSlot, hfids]
      exact hkept.replace hgot vid
    · rw [if_pos rfl, fids_vlanSetTagged]
      exact hkept.recycle hfull hi hold hone
    · rw [if_neg herr]
      exact hkept

theorem msts_vlanAdd (s : Msts) (port : ℕ) (vid : Vid) (pvid untagged : Bool) :
    (rtldsaVlanAdd board s port vid pvid untagged).msts = s.msts := by
  by_cases hvid : vid = 0
  · exact congrArg Msts.msts (if_pos hvid)
  · exact (vlanAdd_effect s port pvid untagged hvid).1

theorem msti_vlanDel (s : Msts) (port : ℕ) (vid : Vid) (i : ℕ)
    (hused : ((rtldsaVlanDel nMst s port vid).msts i).msti ≠ 0) :
    ((rtldsaVlanDel nMst s port vid).msts i).msti = (s.msts i).msti := by
  by_cases hvid : vid = 0
  · rw [show rtldsaVlanDel nMst s port vid = s from if_pos hvid]
  · obtain ⟨hlast, hmore⟩ := @vlanDel_effect nMst vid s port hvid
    by_cases hmembers : ((rtldsaVlanDel nMst s port vid).vlans vid).memberPorts = 0
    · rw [(hlast hmembers).1] at hused ⊢
      exact putSlot_msti _ _ i hused
    · rw [(hmore hmembers).1]

/-- Setting an instance leaves other port states than it should in a slot that is taken over,
and only there. -/
theorem faithful_mstiSet_iff (s : Msts) (vid : Vid) (msti : Fin 4096) (ports : PortStates) :
    (MstCall.mstiSet vid msti ports).Faithful board nMst s ↔
      (MstCall.mstiSet vid msti ports).Sound board nMst s := by
  have hle : (msti : ℕ) ≤ 4095 := Nat.le_of_lt_succ msti.isLt
  obtain ⟨slot, s', hgot, hnot, hrun⟩ | ⟨i, hi, hold, hone, hfull, hrun⟩ | ⟨err, herr, hnot, hrun⟩ :=
    mstiSet_cases board nMst s vid hle ports
  · refine iff_of_true ⟨fun h => ?_, fun i _ hused hne => ?_⟩ fun h => absurd h.1 hnot
    · exact absurd (congrArg Prod.fst hrun) h
    · have hstate : ((MstCall.mstiSet vid msti ports).run board nMst s).2 = _ :=
        congrArg Prod.snd hrun
      rw [hstate] at hused hne ⊢
      have hkeep := putSlot_msti s' (s.fids vid) i hused
      refine ⟨vid, msti, ports, rfl, ?_⟩
      change (rtldsaMstPutSlot nMst s' (s.fids vid)).stp (i + 1) = _
      rw [stp_putSlot]
      exact hgot.initialised fun h => hne (hkeep.trans h)
  · have hstate : ((MstCall.mstiSet vid msti ports).run board nMst s).2 = _ :=
      congrArg Prod.snd hrun
    have hrecycles : Recycles nMst s msti (s.fids vid) :=
      ⟨hfull, by omega, by omega, by rw [hold]; exact hone⟩
    constructor
    · intro hfaithful _
      have hassigned : (((MstCall.mstiSet vid msti ports).run board nMst s).2.msts i).msti = msti := by
        rw [hstate]
        simp [vlanSetTagged]
      obtain ⟨vid', msti', ports', heq, hstp⟩ := hfaithful.initialised i hi
        (by rw [hassigned]; exact hfull.1)
        (by rw [hassigned]; exact (hfull.2 i hi).1.symm)
      cases heq
      rw [hstate] at hstp
      change s.stp (s.fids vid) = rtldsaMstInit board ports s.stp (s.fids vid) (s.fids vid)
      rw [hold]
      exact hstp
    · intro hsound
      refine ⟨fun h => absurd (congrArg Prod.fst hrun) h, fun j _ _ hne => ?_⟩
      refine ⟨vid, msti, ports, rfl, ?_⟩
      rw [hstate] at hne ⊢
      have hji : j = i := by
        by_contra h
        exact hne (by simp [vlanSetTagged, h])
      have hrow := hsound hrecycles
      change s.stp (s.fids vid) = rtldsaMstInit board ports s.stp (s.fids vid) (s.fids vid) at hrow
      rw [hold] at hrow
      rw [hji]
      exact hrow
  · refine iff_of_true ⟨fun _ => congrArg Prod.snd hrun, fun i _ _ hne => ?_⟩
      fun h => absurd h hnot
    have hstate : ((MstCall.mstiSet vid msti ports).run board nMst s).2 = s :=
      congrArg Prod.snd hrun
    exact absurd (by rw [hstate]) hne

/-- A VLAN that gets its first member should have no slot: it counts for one that it no longer
has. -/
theorem MstLog.Kept.fid_of_accounts_vlanAdd {log : MstLog} (hkept : log.Kept nMst) {port : Fin 64}
    {vid : Vid} {pvid untagged : Bool}
    (hafter : (log.apply board nMst (.vlanAdd port vid pvid untagged)).Accounts nMst) :
    (MstCall.vlanAdd port vid pvid untagged).Sound board nMst log.state := by
  intro hvid hnew
  by_contra hfid
  have hslot := hkept.slotOf vid
  have hlast : log.last vid ≠ 0 := fun h => by
    rw [h] at hslot
    simp only [SlotOf, if_true] at hslot
    exact hfid hslot
  rw [SlotOf, if_neg hlast] at hslot
  obtain ⟨i, hi, hold, -⟩ := hslot
  obtain ⟨hmsts, hfids⟩ := @vlanAdd_effect board vid log.state (port : ℕ) pvid untagged hvid
  rw [if_pos hnew] at hfids
  have hbefore := hkept.counted.refcount_eq i hi
  have hcount := hafter.counted.refcount_eq i hi
  change ((rtldsaVlanAdd board log.state port vid pvid untagged).msts i).refcount =
    fiberCard (rtldsaVlanAdd board log.state port vid pvid untagged).fids (i + 1) at hcount
  rw [hmsts, hfids] at hcount
  have hmove := fiberCard_update log.state.fids vid 0 (i + 1)
  rw [if_pos hold, if_neg (by omega)] at hmove
  omega

/-- A call that loses no slot is one after which the accounts are right and the port states
are those of the instances. -/
theorem MstLog.Kept.sound_iff {log : MstLog} (hkept : log.Kept nMst) (call : MstCall) :
    call.Sound board nMst log.state ↔
      (log.apply board nMst call).Accounts nMst ∧ call.Faithful board nMst log.state := by
  refine ⟨fun hsound => ⟨(hkept.apply hsound).accounts, ?_⟩, fun ⟨hafter, hfaithful⟩ => ?_⟩
  · cases call with
    | vlanAdd port vid pvid untagged =>
      refine ⟨fun h => absurd rfl h, fun i _ _ hne => ?_⟩
      exact absurd (congrArg (fun msts => (msts i).msti) (msts_vlanAdd ..)) hne
    | vlanDel port vid =>
      exact ⟨fun h => absurd rfl h, fun i _ hused hne => absurd (msti_vlanDel _ _ _ i hused) hne⟩
    | mstiSet vid msti ports => exact (faithful_mstiSet_iff ..).mpr hsound
  · cases call with
    | vlanAdd port vid pvid untagged => exact hkept.fid_of_accounts_vlanAdd hafter
    | vlanDel port vid => trivial
    | mstiSet vid msti ports => exact (faithful_mstiSet_iff ..).mp hfaithful

end Steps

/-! ## Runs -/

/-- In a run of the driver the accounts are right after every call, a failing call changes
nothing and a slot that gets another instance has its port states initialised, exactly when
no call loses a slot or takes one over with other port states. -/
theorem mst_accounts_iff (board : Board) (nMst : ℕ) (calls : List MstCall) :
    Along (MstLog.apply board nMst) (fun log call => call.Sound board nMst log.state) calls
        (.probed board) ↔
      ∀ n, ((calls.take n).foldl (MstLog.apply board nMst) (.probed board)).Accounts nMst ∧
        ∀ call, calls[n]? = some call →
          call.Faithful board nMst
            ((calls.take n).foldl (MstLog.apply board nMst) (.probed board)).state :=
  along_iff_forall_take_and_getElem? (fun _ hkept => hkept.accounts)
    (fun _ _ _ hkept hsound => hkept.apply hsound)
    (fun _ _ _ hkept hsound => ((hkept.sound_iff _).mp hsound).2)
    (fun _ _ _ hkept hafter hfaithful => (hkept.sound_iff _).mpr ⟨hafter, hfaithful⟩)
    (kept_probed board nMst)

/-- An instance is set for a VLAN without members, which then gets its first. -/
def lateMember : List MstCall :=
  [.mstiSet 2 5 ⟨fun _ => false, fun _ => .disabled⟩, .vlanAdd 0 2 false false]

/-- The slot that the VLAN had counts it still. -/
theorem not_mst_accounts_of_lateMember :
    ¬ ∀ n, ((lateMember.take n).foldl (MstLog.apply fourPorts 64) (.probed fourPorts)).Accounts 64 := by
  intro hall
  have hfirst : (MstCall.mstiSet 2 5 ⟨fun _ => false, fun _ => .disabled⟩).Sound fourPorts 64
      (MstLog.probed fourPorts).state := by
    intro hrecycles
    exact absurd hrecycles.2.1 (by decide)
  have hsound := ((kept_probed fourPorts 64).apply hfirst).fid_of_accounts_vlanAdd (hall 2)
  exact absurd (hsound (by decide) rfl) (by decide)

end OpenWrt.Rtl83xx
