/-
# The reloads of a multi-link device

A reload of an interface finds its links again. The network device of a device is left alone as
long as it is found in place where there is a link, and a link is left after each reload.
-/

import Mathlib.Data.List.Infix
import OpenWrt.Hostapd.MldSet

namespace OpenWrt.Hostapd

variable {name : String} {data : MldData} {env : MldEnv} {ifaces : List String}

/-- The interface is loaded again. -/
def IsReloaded (env : MldEnv) (iface : String) : Prop :=
  env.stored iface ≠ none ∧ env.opens iface = true

instance (env : MldEnv) (iface : String) : Decidable (IsReloaded env iface) :=
  inferInstanceAs (Decidable (_ ∧ _))

/-- The BSSs of the interface that are links of the device. -/
def linksOf (env : MldEnv) (iface name : String) : List Bss :=
  ((env.stored iface).getD []).filter fun bss =>
    bss.mldAp && bss.ifname ≠ "" && bss.ifname = name

/-- A reload makes the interface a link of the device. -/
def IsLink (env : MldEnv) (name : String) (data : MldData) (iface : String) : Prop :=
  data.ifname ≠ none ∧ data.macaddr ≠ none ∧ linksOf env iface name ≠ []

/-- The network device is found in place. -/
def IsInPlace (env : MldEnv) (iface name : String) (data : MldData) : Prop :=
  data.hasWdev = true ∧ env.access iface name = true

/-- The interface has a link of the device after the reloads. -/
def IsLinkAfter (env : MldEnv) (name : String) (data : MldData) (ifaces : List String)
    (iface : String) : Prop :=
  if iface ∈ ifaces ∧ IsReloaded env iface then IsLink env name data iface else iface ∈ data.iface

/-- The reloads find the network device of the device in place, and leave it a link. -/
structure UndisturbedBy (env : MldEnv) (name : String) (data : MldData)
    (ifaces : List String) : Prop where
  /-- Where there is a link, the network device is there. -/
  inPlace : ∀ iface ∈ ifaces, IsReloaded env iface → IsLink env name data iface →
    IsInPlace env iface name data
  /-- After each reload there is a link. -/
  linked : ∀ before iface, before ++ [iface] <+: ifaces → IsReloaded env iface →
    ∃ other, IsLinkAfter env name data (before ++ [iface]) other

section Check

variable {iface : String} {bss : List Bss}

theorem bssCheckMld_of_not_setUp (found : MldData × List WdevOp)
    (h : found.1.ifname = none ∨ found.1.macaddr = none) :
    bssCheckMld env iface name found = found :=
  if_pos h

theorem bssCheckMld_of_inPlace (found : MldData × List WdevOp)
    (hset : ¬ (found.1.ifname = none ∨ found.1.macaddr = none))
    (hplace : IsInPlace env iface name found.1) :
    bssCheckMld env iface name found =
      ({ found.1 with iface := iface :: found.1.iface.filter (· ≠ iface) }, found.2) := by
  simp only [bssCheckMld, if_neg hset, hplace.1, hplace.2, Bool.and_self, if_true]

theorem bssCheckMld_of_missing (found : MldData × List WdevOp)
    (hset : ¬ (found.1.ifname = none ∨ found.1.macaddr = none))
    (hmissing : ¬ IsInPlace env iface name found.1) :
    (bssCheckMld env iface name found).2 = found.2 ++ [.add name] := by
  have hplace : ¬ (found.1.hasWdev && env.access iface name) = true := by
    rwa [Bool.and_eq_true]
  simp only [bssCheckMld, if_neg hset, if_neg hplace]
  by_cases hadd : env.wdevAdd iface name = true
  · rw [if_pos hadd]
  · rw [if_neg hadd]

theorem prefix_bssCheckMld (found : MldData × List WdevOp) :
    found.2 <+: (bssCheckMld env iface name found).2 := by
  by_cases hset : found.1.ifname = none ∨ found.1.macaddr = none
  · rw [bssCheckMld_of_not_setUp found hset]
  by_cases hplace : IsInPlace env iface name found.1
  · rw [bssCheckMld_of_inPlace found hset hplace]
  · rw [bssCheckMld_of_missing found hset hplace]
    exact List.prefix_append ..

theorem prefix_foldl_bssCheckMld (links : List Bss) (found : MldData × List WdevOp) :
    found.2 <+: (links.foldl (fun found _ => bssCheckMld env iface name found) found).2 := by
  induction links generalizing found with
  | nil => exact List.prefix_refl _
  | cons link rest ih => exact (prefix_bssCheckMld found).trans (ih _)

/-- Without a link, the check only takes the interface out. -/
theorem ifaceCheckMld_of_no_link
    (h : data.ifname = none ∨ data.macaddr = none ∨
      (bss.filter fun bss => bss.mldAp && bss.ifname ≠ "" && bss.ifname = name) = []) :
    ifaceCheckMld env iface bss name data =
      if data.iface.filter (· ≠ iface) = [] then
        ({ data with iface := [], hasWdev := false }, [.remove name])
      else ({ data with iface := data.iface.filter (· ≠ iface) }, []) := by
  have hfold : ∀ links : List Bss, (data.ifname = none ∨ data.macaddr = none ∨ links = []) →
      links.foldl (fun found _ => bssCheckMld env iface name found)
          ({ data with iface := data.iface.filter (· ≠ iface) }, []) =
        (({ data with iface := data.iface.filter (· ≠ iface) }, []) : MldData × List WdevOp) := by
    intro links hlinks
    induction links with
    | nil => rfl
    | cons link rest ih =>
      have hunset : data.ifname = none ∨ data.macaddr = none := by simpa using hlinks
      rw [List.foldl_cons, bssCheckMld_of_not_setUp _ hunset]
      exact ih (hunset.imp_right .inl)
  simp only [ifaceCheckMld, hfold _ h]
  by_cases hempty : data.iface.filter (· ≠ iface) = []
  · simp only [hempty, if_true, List.nil_append]
  · simp only [hempty, if_false]

/-- With a link and the network device in place, the check brings the interface in. -/
theorem ifaceCheckMld_of_inPlace (hset : ¬ (data.ifname = none ∨ data.macaddr = none))
    (hlinks : (bss.filter fun bss => bss.mldAp && bss.ifname ≠ "" && bss.ifname = name) ≠ [])
    (hplace : IsInPlace env iface name data) :
    ifaceCheckMld env iface bss name data =
      ({ data with iface := iface :: data.iface.filter (· ≠ iface) }, []) := by
  have hbring : bssCheckMld env iface name ({ data with iface := data.iface.filter (· ≠ iface) }, [])
      = ({ data with iface := iface :: data.iface.filter (· ≠ iface) }, []) := by
    rw [bssCheckMld_of_inPlace _ hset hplace]
    simp only [List.filter_filter, Bool.and_self]
  have hfold : ∀ links : List Bss,
      links.foldl (fun found _ => bssCheckMld env iface name found)
          ({ data with iface := iface :: data.iface.filter (· ≠ iface) }, []) =
        (({ data with iface := iface :: data.iface.filter (· ≠ iface) }, []) :
          MldData × List WdevOp) := by
    intro links
    induction links with
    | nil => rfl
    | cons link rest ih =>
      rw [List.foldl_cons, bssCheckMld_of_inPlace _ hset hplace]
      simp only [List.filter_cons_of_neg, List.filter_filter, Bool.and_self, ne_eq,
        not_true_eq_false, decide_false, Bool.false_eq_true, not_false_eq_true] at ih ⊢
      exact ih
  obtain ⟨link, rest, hlist⟩ := List.exists_cons_of_ne_nil hlinks
  simp only [ifaceCheckMld, hlist, List.foldl_cons, hbring, hfold, reduceCtorEq, if_false]

/-- With a link and the network device not in place, something is done to the device. -/
theorem ifaceCheckMld_of_missing (hset : ¬ (data.ifname = none ∨ data.macaddr = none))
    (hlinks : (bss.filter fun bss => bss.mldAp && bss.ifname ≠ "" && bss.ifname = name) ≠ [])
    (hmissing : ¬ IsInPlace env iface name data) :
    (ifaceCheckMld env iface bss name data).2 ≠ [] := by
  obtain ⟨link, rest, hlist⟩ := List.exists_cons_of_ne_nil hlinks
  set found := bssCheckMld env iface name ({ data with iface := data.iface.filter (· ≠ iface) }, [])
    with hfound
  have hadded : found.2 = [.add name] := bssCheckMld_of_missing _ hset hmissing
  have hmem : WdevOp.add name ∈
      (rest.foldl (fun found _ => bssCheckMld env iface name found) found).2 :=
    (prefix_foldl_bssCheckMld rest found).subset (by rw [hadded]; exact List.mem_singleton_self _)
  simp only [ifaceCheckMld, hlist, List.foldl_cons, ← hfound]
  split
  · exact List.append_ne_nil_of_right_ne_nil _ (by simp)
  · exact List.ne_nil_of_mem hmem

/-- What a reload does to a device: nothing, or it sets the link, or it does something to the
network device. -/
theorem mldReloadInterface_spec (found : MldData × List WdevOp) (iface : String) :
    (¬ IsReloaded env iface ∧ mldReloadInterface env name found iface = found) ∨
    (IsReloaded env iface ∧ IsLink env name found.1 iface ∧ IsInPlace env iface name found.1 ∧
      mldReloadInterface env name found iface =
        ({ found.1 with iface := iface :: found.1.iface.filter (· ≠ iface) }, found.2)) ∨
    (IsReloaded env iface ∧ ¬ IsLink env name found.1 iface ∧
      found.1.iface.filter (· ≠ iface) ≠ [] ∧
      mldReloadInterface env name found iface =
        ({ found.1 with iface := found.1.iface.filter (· ≠ iface) }, found.2)) ∨
    (IsReloaded env iface ∧ (IsLink env name found.1 iface → ¬ IsInPlace env iface name found.1) ∧
      (¬ IsLink env name found.1 iface → found.1.iface.filter (· ≠ iface) = []) ∧
      (mldReloadInterface env name found iface).2 ≠ []) := by
  unfold mldReloadInterface
  cases hstored : env.stored iface with
  | none => exact .inl ⟨fun h => h.1 hstored, rfl⟩
  | some bss =>
    by_cases hopens : env.opens iface = true
    case neg =>
      simp only [if_neg hopens]
      exact .inl ⟨fun h => hopens h.2, trivial⟩
    have hreloaded : IsReloaded env iface := ⟨by simp [hstored], hopens⟩
    have hlinks : linksOf env iface name =
        bss.filter fun bss => bss.mldAp && bss.ifname ≠ "" && bss.ifname = name := by
      simp only [linksOf, hstored, Option.getD_some]
    simp only [if_pos hopens]
    by_cases hlink : IsLink env name found.1 iface
    · have hset : ¬ (found.1.ifname = none ∨ found.1.macaddr = none) :=
        not_or.mpr ⟨hlink.1, hlink.2.1⟩
      have hsome := hlinks ▸ hlink.2.2
      by_cases hplace : IsInPlace env iface name found.1
      · rw [ifaceCheckMld_of_inPlace hset hsome hplace, List.append_nil]
        exact .inr (.inl ⟨hreloaded, hlink, hplace, rfl⟩)
      · exact .inr (.inr (.inr ⟨hreloaded, fun _ => hplace, fun h => absurd hlink h,
          List.append_ne_nil_of_right_ne_nil _ (ifaceCheckMld_of_missing hset hsome hplace)⟩))
    · have hnone : found.1.ifname = none ∨ found.1.macaddr = none ∨
          (bss.filter fun bss => bss.mldAp && bss.ifname ≠ "" && bss.ifname = name) = [] := by
        rw [← hlinks]
        unfold IsLink at hlink
        tauto
      rw [ifaceCheckMld_of_no_link hnone]
      by_cases hempty : found.1.iface.filter (· ≠ iface) = []
      · rw [if_pos hempty]
        exact .inr (.inr (.inr ⟨hreloaded, fun h => absurd h hlink, fun _ => hempty,
          List.append_ne_nil_of_right_ne_nil _ (by simp)⟩))
      · rw [if_neg hempty, List.append_nil]
        exact .inr (.inr (.inl ⟨hreloaded, hlink, hempty, rfl⟩))

theorem prefix_mldReloadInterface (found : MldData × List WdevOp) (iface : String) :
    found.2 <+: (mldReloadInterface env name found iface).2 := by
  unfold mldReloadInterface
  cases env.stored iface with
  | none => exact List.prefix_refl _
  | some bss =>
    dsimp only
    by_cases hopens : env.opens iface = true
    · rw [if_pos hopens]
      exact List.prefix_append ..
    · rw [if_neg hopens]

end Check

theorem isLinkAfter_concat (iface other : String) :
    IsLinkAfter env name data (ifaces ++ [iface]) other ↔
      if other = iface ∧ IsReloaded env iface then IsLink env name data iface
      else IsLinkAfter env name data ifaces other := by
  simp only [IsLinkAfter, List.mem_append, List.mem_singleton]
  by_cases heq : other = iface
  · subst heq
    by_cases hreloaded : IsReloaded env other <;> simp [hreloaded]
  · simp only [heq, or_false, false_and, if_false]

theorem undisturbedBy_concat (iface : String) :
    UndisturbedBy env name data (ifaces ++ [iface]) ↔
      UndisturbedBy env name data ifaces ∧ (IsReloaded env iface →
        (IsLink env name data iface → IsInPlace env iface name data) ∧
          ∃ other, IsLinkAfter env name data (ifaces ++ [iface]) other) := by
  constructor
  · intro h
    refine ⟨⟨fun other hmem => h.inPlace other (List.mem_append_left _ hmem),
      fun before other hpre => h.linked before other (hpre.trans (List.prefix_append ..))⟩,
      fun hreloaded => ⟨h.inPlace iface (List.mem_append_right _ (List.mem_singleton_self _))
        hreloaded, h.linked ifaces iface (List.prefix_refl _) hreloaded⟩⟩
  · rintro ⟨h, hlast⟩
    refine ⟨fun other hmem hreloaded hlink => ?_, fun before other hbefore hreloaded => ?_⟩
    · rcases List.mem_append.mp hmem with hmem | hmem
      · exact h.inPlace other hmem hreloaded hlink
      · cases List.mem_singleton.mp hmem
        exact (hlast hreloaded).1 hlink
    · rcases List.prefix_concat_iff.mp hbefore with heq | hbefore
      · obtain ⟨rfl, hsame⟩ := List.append_inj' heq rfl
        obtain rfl := List.singleton_injective hsame
        exact (hlast hreloaded).2
      · exact h.linked before other hbefore hreloaded

/-- The reloads leave the record of an undisturbed device as it is, its links apart; to any other
one something is done. -/
theorem mldReloads_spec (env : MldEnv) (name : String) (data : MldData) (ifaces : List String) :
    (UndisturbedBy env name data ifaces ∧ ∃ links,
      mldReloads env ifaces name data = ({ data with iface := links }, []) ∧
        ∀ other, other ∈ links ↔ IsLinkAfter env name data ifaces other) ∨
    (¬ UndisturbedBy env name data ifaces ∧ (mldReloads env ifaces name data).2 ≠ []) := by
  induction ifaces using List.reverseRecOn with
  | nil =>
    refine .inl ⟨⟨fun _ h => absurd h List.not_mem_nil, fun before iface h _ => ?_⟩, data.iface, rfl, fun other => ?_⟩
    · exact absurd (List.prefix_nil.mp h) (by simp)
    · simp [IsLinkAfter]
  | append_singleton ifaces iface ih =>
    have hconcat : mldReloads env (ifaces ++ [iface]) name data =
        mldReloadInterface env name (mldReloads env ifaces name data) iface := by
      simp only [mldReloads, List.foldl_append, List.foldl_cons, List.foldl_nil]
    rw [hconcat, undisturbedBy_concat]
    rcases ih with ⟨hbefore, links, heq, hlinks⟩ | ⟨hbefore, hops⟩
    · rw [heq]
      rcases mldReloadInterface_spec ({ data with iface := links }, []) iface with
        ⟨hreloaded, hstep⟩ | ⟨hreloaded, hlink, hplace, hstep⟩ |
        ⟨hreloaded, hlink, hsome, hstep⟩ | ⟨hreloaded, hmissing, hempty, hstep⟩
      · refine .inl ⟨⟨hbefore, fun h => absurd h hreloaded⟩, links, hstep, fun other => ?_⟩
        rw [isLinkAfter_concat, if_neg fun h => hreloaded h.2]
        exact hlinks other
      · replace hlink : IsLink env name data iface := hlink
        have hafter : ∀ other, other ∈ iface :: links.filter (· ≠ iface) ↔
            IsLinkAfter env name data (ifaces ++ [iface]) other := by
          intro other
          rw [isLinkAfter_concat]
          by_cases hother : other = iface
          · simpa [hother, hreloaded] using hlink
          · simp [hother, hlinks]
        exact .inl ⟨⟨hbefore, fun _ => ⟨fun _ => hplace, iface, (hafter iface).mp
          List.mem_cons_self⟩⟩, _, hstep, hafter⟩
      · replace hlink : ¬ IsLink env name data iface := hlink
        have hafter : ∀ other, other ∈ links.filter (· ≠ iface) ↔
            IsLinkAfter env name data (ifaces ++ [iface]) other := by
          intro other
          rw [isLinkAfter_concat]
          by_cases hother : other = iface
          · simpa [hother, hreloaded] using hlink
          · simp [hother, hlinks]
        obtain ⟨other, hother⟩ := List.exists_mem_of_ne_nil _ hsome
        exact .inl ⟨⟨hbefore, fun _ => ⟨fun h => absurd h hlink, other, (hafter other).mp hother⟩⟩,
          _, hstep, hafter⟩
      · refine .inr ⟨fun h => ?_, hstep⟩
        obtain ⟨hplace, other, hother⟩ := h.2 hreloaded
        by_cases hlink : IsLink env name data iface
        · exact hmissing hlink (hplace hlink)
        · rw [isLinkAfter_concat] at hother
          have hne : other ≠ iface := by
            rintro rfl
            rw [if_pos ⟨rfl, hreloaded⟩] at hother
            exact hlink hother
          rw [if_neg fun h => hne h.1, ← hlinks] at hother
          exact List.ne_nil_of_mem (List.mem_filter.mpr ⟨hother, by simpa using hne⟩) (hempty hlink)
    · refine .inr ⟨fun h => hbefore h.1, fun hnil => hops ?_⟩
      exact List.prefix_nil.mp (hnil ▸ prefix_mldReloadInterface _ iface)

end OpenWrt.Hostapd
