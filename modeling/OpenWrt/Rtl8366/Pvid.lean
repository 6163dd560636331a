/-
# The PVID of a port

The member configurations always agree with the table of the VLANs, and no VLAN has two of them.
What a port is given is right as well, but an entry that looks empty may be the one of other ports:
when it is filled, they get the VLAN too.
-/

import OpenWrt.Lib.Run
import OpenWrt.Rtl8366.Vlan

namespace OpenWrt.Rtl8366

open Lib

/-! ## What should hold -/

/-- The member configurations that are in use agree with the table, and each VLAN has one. -/
structure Consistent (smi : Smi) (switch : Switch) : Prop where
  agrees : ∀ index < smi.numVlanMc, (switch.vlanMc index).vid ≠ 0 →
    (switch.vlanMc index).toMembership = switch.vlan4k (switch.vlanMc index).vid.toNat
  distinct : ∀ index < smi.numVlanMc, ∀ other < smi.numVlanMc,
    (switch.vlanMc index).vid ≠ 0 → (switch.vlanMc other).vid = (switch.vlanMc index).vid →
      other = index

/-- After a success the port has the VLAN, and the others have theirs as before. -/
def Outcome.SetsPvid (smi : Smi) (switch : Switch) (port vid : ℕ) (outcome : Outcome) : Prop :=
  outcome.err = none →
    outcome.switch.getPvid smi port = some vid ∧
      ∀ other, other ≠ port → outcome.switch.getPvid smi other = switch.getPvid smi other

def Call.PvidRight (smi : Smi) (switch : Switch) : Call → Prop
  | .setPvid port vid => (switch.setPvid smi port vid).SetsPvid smi switch port vid
  | _ => True

/-- A VLAN without a member configuration is given an empty one only if that is no other port's. -/
def Switch.Spares (smi : Smi) (switch : Switch) (port vid : ℕ) : Prop :=
  port < smi.numPorts → vid < 4096 → switch.mcOf smi vid = none →
    ∀ index, switch.emptyMc smi = some index → ∀ other < smi.numPorts, other ≠ port →
      switch.mcIndex other ≠ index

def Call.Spares (smi : Smi) (switch : Switch) : Call → Prop
  | .setPvid port vid => switch.Spares smi port vid
  | _ => True

/-! ## The search for an entry -/

namespace Switch

variable {smi : Smi} {switch : Switch} {p : ℕ → Bool} {index vid port : ℕ}

theorem findMc_eq_some (h : findMc smi p = some index) : index < smi.numVlanMc ∧ p index = true :=
  ⟨List.mem_range.mp (List.mem_of_find?_eq_some h), List.find?_some h⟩

theorem findMc_eq_none : findMc smi p = none ↔ ∀ index < smi.numVlanMc, ¬ p index = true := by
  unfold findMc
  rw [List.find?_eq_none]
  exact forall_congr' fun index => by rw [List.mem_range]

theorem mcOf_eq_some (h : switch.mcOf smi vid = some index) :
    index < smi.numVlanMc ∧ (switch.vlanMc index).vid.toNat = vid := by
  obtain ⟨hlt, hvid⟩ := findMc_eq_some h
  exact ⟨hlt, (of_decide_eq_true hvid).symm⟩

theorem mcOf_eq_none (h : switch.mcOf smi vid = none) (hlt : index < smi.numVlanMc) :
    (switch.vlanMc index).vid.toNat ≠ vid := fun heq =>
  findMc_eq_none.mp h index hlt (decide_eq_true heq.symm)

theorem emptyMc_eq_some (h : switch.emptyMc smi = some index) :
    index < smi.numVlanMc ∧ (switch.vlanMc index).vid = 0 := by
  obtain ⟨hlt, hempty⟩ := findMc_eq_some h
  exact ⟨hlt, (of_decide_eq_true hempty).1⟩

theorem unusedMc_eq_some (h : switch.unusedMc smi = some index) :
    index < smi.numVlanMc ∧ ∀ port < smi.numPorts, switch.mcIndex port ≠ index := by
  obtain ⟨hlt, hunused⟩ := findMc_eq_some h
  refine ⟨hlt, fun port hport heq => ?_⟩
  have hused : mcIsUsed smi switch index = true :=
    List.any_eq_true.mpr ⟨port, List.mem_range.mpr hport, decide_eq_true heq.symm⟩
  rw [hused] at hunused
  cases hunused

/-! ## What a call changes -/

theorem getVlan4k_of_lt (h : vid < 4096) :
    switch.getVlan4k vid = some { switch.vlan4k vid with vid := UInt16.ofNat vid } := if_pos h

theorem toNat_vid (h : vid < 4096) : (UInt16.ofNat vid).toNat = vid := by
  rw [UInt16.toNat_ofNat', Nat.mod_eq_of_lt (by omega)]

/-- An entry is written and given to a port. -/
def give (smi : Smi) (switch : Switch) (port index : ℕ) (vlanmc : VlanMc) : Outcome :=
  (switch.setVlanMc index vlanmc).setMcIndex smi port index

/-- The entry of a VLAN as it is in the table. -/
def filled (switch : Switch) (vid : ℕ) (priority : UInt8) : VlanMc :=
  { switch.vlan4k vid with vid := UInt16.ofNat vid, priority }

/-- The ways of `setPvid`: the VLAN has its entry, or one is filled, or nothing is done. -/
inductive SetPvid (smi : Smi) (switch : Switch) (port vid : ℕ) : Outcome → Prop
  | found {index : ℕ} (hfound : switch.mcOf smi vid = some index) :
      SetPvid smi switch port vid (give smi switch port index (switch.vlanMc index))
  | filled {index : ℕ} (hnone : switch.mcOf smi vid = none) (hvid : vid < 4096)
      (hindex : switch.emptyMc smi = some index ∨
        switch.emptyMc smi = none ∧ switch.unusedMc smi = some index) (priority : UInt8) :
      SetPvid smi switch port vid (give smi switch port index (switch.filled vid priority))
  | refused (hnone : switch.mcOf smi vid = none)
      (hvid : 4096 ≤ vid ∨ switch.emptyMc smi = none) (err : Errno) :
      SetPvid smi switch port vid ⟨some err, switch⟩

theorem setPvid_fillMc (hnone : switch.mcOf smi vid = none)
    (hindex : switch.emptyMc smi = some index ∨
      switch.emptyMc smi = none ∧ switch.unusedMc smi = some index) (priority : UInt8) :
    SetPvid smi switch port vid (switch.fillMc smi port vid index priority) := by
  unfold fillMc
  by_cases hvid : vid < 4096
  · rw [getVlan4k_of_lt hvid]
    exact .filled hnone hvid hindex priority
  · rw [getVlan4k, if_neg hvid]
    exact .refused hnone (.inl (Nat.le_of_not_lt hvid)) .einval

theorem setPvid_spec : SetPvid smi switch port vid (switch.setPvid smi port vid) := by
  unfold setPvid
  cases hfound : switch.mcOf smi vid with
  | some index => exact .found hfound
  | none =>
    cases hempty : switch.emptyMc smi with
    | some index => exact setPvid_fillMc hfound (.inl hempty) _
    | none =>
      cases hunused : switch.unusedMc smi with
      | some index => exact setPvid_fillMc hfound (.inr ⟨hempty, hunused⟩) _
      | none => exact .refused hfound (.inr hempty) .enospc

theorem tables_setMcIndex :
    (switch.setMcIndex smi port index).switch.vlanMc = switch.vlanMc ∧
      (switch.setMcIndex smi port index).switch.vlan4k = switch.vlan4k := by
  unfold setMcIndex
  split <;> exact ⟨rfl, rfl⟩

theorem getPvid_eq (hport : port < smi.numPorts) (heq : switch.mcIndex port = index)
    (hindex : index < smi.numVlanMc) :
    switch.getPvid smi port = some (switch.vlanMc index).vid.toNat := by
  subst heq
  exact if_pos ⟨hport, hindex⟩

theorem getPvid_congr {switch' : Switch} (hindex : switch'.mcIndex port = switch.mcIndex port)
    (hmc : switch'.vlanMc (switch.mcIndex port) = switch.vlanMc (switch.mcIndex port)) :
    switch'.getPvid smi port = switch.getPvid smi port := by
  simp only [getPvid, hindex, hmc]

section Give

variable {vlanmc : VlanMc} {other : ℕ}

theorem err_give (hindex : index < smi.numVlanMc) :
    (give smi switch port index vlanmc).err = none ↔ port < smi.numPorts := by
  unfold give setMcIndex
  split
  case isTrue h =>
    refine ⟨nofun, fun hport => ?_⟩
    omega
  case isFalse h =>
    refine ⟨fun _ => ?_, fun _ => rfl⟩
    omega

theorem switch_give (hindex : index < smi.numVlanMc) (hport : port < smi.numPorts) :
    (give smi switch port index vlanmc).switch =
      { switch.setVlanMc index vlanmc with
        mcIndex := Function.update switch.mcIndex port index } := by
  unfold give setMcIndex
  rw [if_neg (by omega)]
  rfl

theorem getPvid_give (hindex : index < smi.numVlanMc) (hport : port < smi.numPorts) :
    (give smi switch port index vlanmc).switch.getPvid smi port = some vlanmc.vid.toNat := by
  rw [switch_give hindex hport, getPvid_eq hport (Function.update_self ..) hindex]
  simp only [setVlanMc, Function.update_self]

theorem getPvid_give_of_ne (hindex : index < smi.numVlanMc) (hport : port < smi.numPorts)
    (hne : other ≠ port) (h : switch.mcIndex other ≠ index ∨ switch.vlanMc index = vlanmc) :
    (give smi switch port index vlanmc).switch.getPvid smi other = switch.getPvid smi other := by
  rw [switch_give hindex hport]
  refine getPvid_congr (Function.update_of_ne hne ..) ?_
  rcases h with hother | hsame
  · exact Function.update_of_ne hother ..
  · rw [← hsame]
    exact congrFun (Function.update_eq_self index switch.vlanMc) _

theorem getPvid_give_of_eq (hindex : index < smi.numVlanMc) (hport : port < smi.numPorts)
    (hother : other < smi.numPorts) (hne : other ≠ port) (h : switch.mcIndex other = index) :
    (give smi switch port index vlanmc).switch.getPvid smi other = some vlanmc.vid.toNat := by
  have hsame : Function.update switch.mcIndex port index other = index := by
    rw [Function.update_of_ne hne, h]
  rw [switch_give hindex hport, getPvid_eq hother hsame hindex]
  simp only [setVlanMc, Function.update_self]

end Give

end Switch

/-! ## One call -/

section Call

variable {smi : Smi} {switch : Switch} {port vid : ℕ} {outcome : Outcome}

theorem Switch.SetPvid.getPvid_self (h : SetPvid smi switch port vid outcome)
    (hok : outcome.err = none) : outcome.switch.getPvid smi port = some vid := by
  cases h with
  | found hfound =>
    obtain ⟨hlt, hvid⟩ := mcOf_eq_some hfound
    rw [getPvid_give hlt ((err_give hlt).mp hok), hvid]
  | @filled index _ hvid hindex =>
    have hlt : index < smi.numVlanMc :=
      hindex.elim (fun h => (emptyMc_eq_some h).1) fun h => (unusedMc_eq_some h.2).1
    rw [getPvid_give hlt ((err_give hlt).mp hok)]
    exact congrArg some (toNat_vid hvid)
  | refused => cases hok

/-- A PVID is set right exactly when the entry that is filled is no other port's. -/
theorem Switch.SetPvid.setsPvid_iff (h : SetPvid smi switch port vid outcome) :
    outcome.SetsPvid smi switch port vid ↔ switch.Spares smi port vid := by
  cases h with
  | @found index hfound =>
    obtain ⟨hindex, -⟩ := mcOf_eq_some hfound
    refine ⟨fun _ _ _ hnone => (nomatch hfound.symm.trans hnone), fun _ hok => ?_⟩
    refine ⟨getPvid_self (.found hfound) hok, fun other hne => ?_⟩
    exact getPvid_give_of_ne hindex ((err_give hindex).mp hok) hne (.inr rfl)
  | @filled index hnone hvid hindex priority =>
    have hlt : index < smi.numVlanMc :=
      hindex.elim (fun h => (emptyMc_eq_some h).1) fun h => (unusedMc_eq_some h.2).1
    have hfilled : (switch.filled vid priority).vid.toNat = vid := toNat_vid hvid
    constructor
    · intro hright hport _ _ found hempty other hother hne heq
      obtain ⟨hfound, hzero⟩ := emptyMc_eq_some hempty
      obtain rfl : found = index := by
        rcases hindex with h | h
        · exact Option.some.inj (hempty.symm.trans h)
        · exact nomatch hempty.symm.trans h.1
      -- the port that shares the entry had no VLAN
      have hbefore := getPvid_eq hother heq hfound
      have hafter := (hright ((err_give hlt).mpr hport)).2 other hne
      rw [getPvid_give_of_eq hlt hport hother hne heq, hbefore, hfilled] at hafter
      exact mcOf_eq_none hnone hfound (Option.some.inj hafter).symm
    · intro hspares hok
      have hport := (err_give hlt).mp hok
      refine ⟨getPvid_self (.filled hnone hvid hindex priority) hok, fun other hne => ?_⟩
      by_cases hother : other < smi.numPorts
      · refine getPvid_give_of_ne hlt hport hne (.inl ?_)
        rcases hindex with h | h
        · exact hspares hport hvid hnone index h other hother hne
        · exact (unusedMc_eq_some h.2).2 other hother
      · rw [getPvid, getPvid, if_neg fun h => hother h.1, if_neg fun h => hother h.1]
  | refused hnone hvid err =>
    refine ⟨fun _ _ hlt _ index hempty => ?_, fun _ hok => nomatch hok⟩
    rcases hvid with hge | hfull
    · exact absurd hlt (Nat.not_lt_of_le hge)
    · exact nomatch hfull.symm.trans hempty

theorem Call.pvidRight_iff (call : Call) : call.PvidRight smi switch ↔ call.Spares smi switch := by
  cases call with
  | setPvid port vid => exact Switch.setPvid_spec.setsPvid_iff
  | _ => exact Iff.rfl

/-! ## Consistency -/

theorem Consistent.congr {switch' : Switch} (h : Consistent smi switch)
    (hmc : switch'.vlanMc = switch.vlanMc) (htable : switch'.vlan4k = switch.vlan4k) :
    Consistent smi switch' := by
  constructor
  · rw [hmc, htable]
    exact h.agrees
  · rw [hmc]
    exact h.distinct

/-- An entry may be written for a VLAN that has no other, as the table has it. -/
theorem Consistent.setVlanMc (h : Consistent smi switch) {index : ℕ} {vlanmc : VlanMc}
    (hagrees : vlanmc.toMembership = switch.vlan4k vlanmc.vid.toNat)
    (hnew : ∀ other < smi.numVlanMc, other ≠ index → (switch.vlanMc other).vid ≠ vlanmc.vid) :
    Consistent smi (switch.setVlanMc index vlanmc) := by
  unfold Switch.setVlanMc
  constructor
  case agrees =>
    intro other hother hvid
    dsimp only at hvid ⊢
    by_cases heq : other = index
    · rw [heq, Function.update_self]
      exact hagrees
    · rw [Function.update_of_ne heq] at hvid ⊢
      exact h.agrees other hother hvid
  case distinct =>
    intro first hfirst second hsecond hvid hsame
    dsimp only at hvid hsame
    by_cases heq : first = index
    · by_cases heq' : second = index
      · rw [heq, heq']
      · rw [heq, Function.update_self, Function.update_of_ne heq'] at hsame
        exact absurd hsame (hnew second hsecond heq')
    · rw [Function.update_of_ne heq] at hvid hsame
      by_cases heq' : second = index
      · rw [heq', Function.update_self] at hsame
        exact absurd hsame.symm (hnew first hfirst heq)
      · rw [Function.update_of_ne heq'] at hsame
        exact h.distinct first hfirst second hsecond hvid hsame

theorem Consistent.give {index : ℕ} {vlanmc : VlanMc}
    (h : Consistent smi (switch.setVlanMc index vlanmc)) :
    Consistent smi (Switch.give smi switch port index vlanmc).switch :=
  h.congr Switch.tables_setMcIndex.1 Switch.tables_setMcIndex.2

theorem Consistent.setPvid (h : Consistent smi switch)
    (hspec : Switch.SetPvid smi switch port vid outcome) : Consistent smi outcome.switch := by
  cases hspec with
  | found =>
    refine Consistent.give (h.congr ?_ rfl)
    exact Function.update_eq_self ..
  | filled hnone hvid _ priority =>
    have hfilled : (switch.filled vid priority).vid.toNat = vid := Switch.toNat_vid hvid
    refine Consistent.give (h.setVlanMc ?_ fun other hother _ heq => ?_)
    · rw [hfilled]
      rfl
    · exact Switch.mcOf_eq_none hnone hother (by rw [heq, hfilled])
  | refused => exact h

theorem Consistent.setVlan4k (h : Consistent smi switch) {vlan4k : Vlan4k}
    (hnone : ∀ index < smi.numVlanMc, (switch.vlanMc index).vid ≠ vlan4k.vid) :
    Consistent smi (switch.setVlan4k vlan4k) := by
  refine ⟨fun index hindex hvid => ?_, h.distinct⟩
  have hne : (switch.vlanMc index).vid.toNat ≠ vlan4k.vid.toNat := fun heq =>
    hnone index hindex (UInt16.toNat_inj.mp heq)
  refine (h.agrees index hindex hvid).trans ?_
  exact (Function.update_of_ne hne ..).symm

/-- The entry of a VLAN changes with the table. -/
theorem Consistent.setVlan4k_setVlanMc (h : Consistent smi switch) {vlan4k : Vlan4k}
    {vlanmc : VlanMc} {index : ℕ} (hindex : index < smi.numVlanMc)
    (hfound : (switch.vlanMc index).vid = vlan4k.vid) (hvid : vlanmc.vid = vlan4k.vid)
    (hmembership : vlanmc.toMembership = vlan4k.toMembership) :
    Consistent smi ((switch.setVlan4k vlan4k).setVlanMc index vlanmc) := by
  have hvids : ∀ other, (Function.update switch.vlanMc index vlanmc other).vid =
      (switch.vlanMc other).vid := by
    intro other
    by_cases heq : other = index
    · rw [heq, Function.update_self, hvid, hfound]
    · rw [Function.update_of_ne heq]
  unfold Switch.setVlan4k Switch.setVlanMc
  constructor
  case agrees =>
    intro other hother hzero
    dsimp only at hzero ⊢
    rw [hvids] at hzero ⊢
    by_cases heq : other = index
    · rw [heq, Function.update_self, hfound, Function.update_self, hmembership]
    · have hne : (switch.vlanMc other).vid.toNat ≠ vlan4k.vid.toNat := by
        intro hsame
        rw [← hfound, UInt16.toNat_inj] at hsame
        exact heq (h.distinct index hindex other hother (hsame ▸ hzero) hsame)
      rw [Function.update_of_ne heq, Function.update_of_ne hne]
      exact h.agrees other hother hzero
  case distinct =>
    intro first hfirst second hsecond hzero hsame
    dsimp only at hzero hsame
    rw [hvids] at hzero
    rw [hvids, hvids] at hsame
    exact h.distinct first hfirst second hsecond hzero hsame

/-- A VLAN is changed in both tables. -/
theorem Consistent.setVlan (h : Consistent smi switch) (member untag fid : UInt32) :
    Consistent smi (switch.setVlan smi vid member untag fid).switch := by
  unfold Switch.setVlan
  by_cases hvid : vid < 4096
  case neg =>
    rw [Switch.getVlan4k, if_neg hvid]
    exact h
  case pos =>
    rw [Switch.getVlan4k_of_lt hvid]
    dsimp only
    split
    case h_1 hnone =>
      have hmc : switch.mcOf smi vid = none := hnone
      refine h.setVlan4k fun index hindex heq => Switch.mcOf_eq_none hmc hindex ?_
      rw [heq, Switch.toNat_vid hvid]
    case h_2 found hfound =>
      obtain ⟨hlt, heq⟩ := Switch.mcOf_eq_some hfound
      have hsame : (switch.vlanMc found).vid = UInt16.ofNat vid :=
        UInt16.toNat_inj.mp (heq.trans (Switch.toNat_vid hvid).symm)
      exact h.setVlan4k_setVlanMc hlt hsame hsame rfl

theorem Consistent.andThen (h : Consistent smi outcome.switch) {f : Switch → Outcome}
    (hf : ∀ switch, Consistent smi switch → Consistent smi (f switch).switch) :
    Consistent smi (outcome.andThen f).switch := by
  unfold Outcome.andThen
  split
  case h_1 => exact h
  case h_2 => exact hf _ h

theorem consistent_resetVlan : Consistent smi (switch.resetVlan smi) := by
  have hclear : ∀ index < smi.numVlanMc, ((switch.resetVlan smi).vlanMc index).vid = 0 := by
    intro index hindex
    unfold Switch.resetVlan
    dsimp only
    rw [if_pos hindex]
  exact ⟨fun index hindex hvid => absurd (hclear index hindex) hvid,
    fun index hindex _ _ hvid => absurd (hclear index hindex) hvid⟩

theorem Consistent.initPort (h : Consistent smi switch) :
    Consistent smi (switch.initPort smi port).switch :=
  (h.setVlan _ _ _).andThen fun _ h' => h'.setPvid Switch.setPvid_spec

theorem consistent_initVlan : Consistent smi (switch.initVlan smi).switch := by
  have hfold : ∀ (ports : List ℕ) (outcome : Outcome), Consistent smi outcome.switch →
      Consistent smi (ports.foldl (fun outcome port =>
        outcome.andThen fun switch => switch.initPort smi port) outcome).switch := by
    intro ports
    induction ports with
    | nil => exact fun _ h => h
    | cons port ports ih => exact fun outcome h => ih _ (h.andThen fun _ h' => h'.initPort)
  exact hfold _ _ consistent_resetVlan

theorem Consistent.call (h : Consistent smi switch) (call : Call) :
    Consistent smi (switch.call smi call).switch := by
  cases call with
  | setVlan vid member untag fid => exact h.setVlan member untag fid
  | setPvid port vid => exact h.setPvid Switch.setPvid_spec
  | resetVlan => exact consistent_resetVlan
  | initVlan => exact consistent_initVlan

/-! ## The first PVIDs -/

namespace Switch

end Switch

end Call

/-! ## Runs -/

def Switch.apply (smi : Smi) (switch : Switch) (call : Call) : Switch :=
  (switch.call smi call).switch

/-- Over every run from a reset the tables are consistent, and each PVID is set right exactly as
long as no empty entry is filled that is another port's. -/
theorem pvidRight_iff_spares (smi : Smi) (switch : Switch) (calls : List Call) :
    (∀ n, Consistent smi ((calls.take n).foldl (Switch.apply smi) (switch.resetVlan smi)) ∧
      ∀ call, calls[n]? = some call →
        call.PvidRight smi ((calls.take n).foldl (Switch.apply smi) (switch.resetVlan smi))) ↔
      Along (Switch.apply smi) (fun switch call => call.Spares smi switch) calls
        (switch.resetVlan smi) :=
  (along_iff_forall_take_and_getElem? (fun _ h => h) (fun _ call _ h _ => h.call call)
    (fun _ call _ _ hspares => call.pvidRight_iff.mpr hspares)
    (fun _ call _ _ _ hright => call.pvidRight_iff.mp hright) consistent_resetVlan).symm

/-- A switch of six ports and sixteen member configurations. -/
def sixPorts : Smi := ⟨6, 16, 5⟩

/-- Its registers, where all ports have the first member configuration. -/
def firstIndices : Switch := ⟨fun _ => ⟨⟨0, 0, 0⟩, 0, 0⟩, fun _ => ⟨0, 0, 0⟩, fun _ => 0⟩

/-- The VLANs are initialised and reset, and a port gets a PVID. -/
def pvidAfterReset : List Call := [.initVlan, .resetVlan, .setPvid 3 10]

/-- The first port gets it too: its entry was the first and is empty again. -/
theorem not_pvidRight_of_reset :
    ¬ ∀ n, Consistent sixPorts
        ((pvidAfterReset.take n).foldl (Switch.apply sixPorts)
          (firstIndices.resetVlan sixPorts)) ∧
      ∀ call, pvidAfterReset[n]? = some call →
        call.PvidRight sixPorts
          ((pvidAfterReset.take n).foldl (Switch.apply sixPorts)
            (firstIndices.resetVlan sixPorts)) := by
  intro h
  have hothers := ((h 2).2 (.setPvid 3 10) rfl (by decide +kernel)).2 0 (by decide)
  revert hothers
  decide +kernel

end OpenWrt.Rtl8366
