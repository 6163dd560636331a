/-
# The addresses of the preserved BSSs

A new BSS that is matched with an old one may take over its address. Where the old addresses
that are taken are distinct, set, and not assigned to another new BSS, each preserved BSS is
listed under its own index. The index 0 counts as free: the address of the first BSS may be
taken again, unless no other old BSS has it.
-/

import OpenWrt.Hostapd.BssidReload

namespace OpenWrt.Hostapd

variable {stored : Stored} {name : String} {env : ReloadEnv} {iface : Iface}
  {i : ℕ} {bss : List Bss} {marks marks' : Marks} {entries : List Entry} {addr : String}

/-- What a BSS needs to take over an address, the address aside. -/
def SameKind (cur prev : Bss) : Prop :=
  (cur.defaultMacaddr ∨ cur.randomMacaddr) ∧ cur.randomMacaddr = prev.randomMacaddr ∧
    cur.defaultMacaddr = prev.defaultMacaddr

theorem takesMacaddr_iff (macaddrs : MacaddrList) (cur prev : Bss) :
    takesMacaddr macaddrs cur prev ↔
      SameKind cur prev ∧ (macaddrs.get prev.bssid).getD 0 = 0 := by
  unfold takesMacaddr SameKind
  rw [and_assoc, and_assoc]

/-- The new BSS with index `k` is matched with the old BSS. -/
def Pairs (bss : List Bss) (entries : List Entry) (k : ℕ) (cur prev : Bss) : Prop :=
  bss[k]? = some cur ∧
    ∃ entry slot, entries[k]? = some entry ∧ entry.slot = some slot ∧ slot.cfg = prev

theorem Pairs.of_drop {n k : ℕ} {cur prev : Bss}
    (h : Pairs (bss.drop n) (entries.drop n) k cur prev) : Pairs bss entries (n + k) cur prev := by
  obtain ⟨hcur, entry, slot, hentry, hslot⟩ := h
  rw [List.getElem?_drop] at hcur hentry
  exact ⟨hcur, entry, slot, hentry, hslot⟩

theorem Pairs.of_take {n k : ℕ} {cur prev : Bss}
    (h : Pairs (bss.take n) (entries.take n) k cur prev) : Pairs bss entries k cur prev ∧ k < n := by
  obtain ⟨hcur, entry, slot, hentry, hslot⟩ := h
  have hlt : k < n := by
    have hlength := (List.getElem?_eq_some_iff.mp hcur).1
    rw [List.length_take] at hlength
    omega
  rw [List.getElem?_take_of_lt hlt] at hcur hentry
  exact ⟨⟨hcur, entry, slot, hentry, hslot⟩, hlt⟩

/-! ## The list along the matching -/

/-- One turn lists at most the address that its BSS takes over. -/
theorem MatchStep.listed {cur : Bss} {entry : Entry}
    (h : MatchStep env iface i cur marks marks' entry) (addr : String) :
    marks'.macaddrs addr = marks.macaddrs addr ∨
      ∃ slot, entry.slot = some slot ∧ SameKind cur slot.cfg ∧ slot.cfg.bssid = some addr ∧
        marks'.macaddrs addr = some (i : ℤ) := by
  cases h with
  | missing => exact .inl rfl
  | forced => exact .inl rfl
  | keeps => exact .inl rfl
  | @takes p prev handle hprev hold hforce hfound htakes =>
    change marks.macaddrs.put prev.bssid i addr = marks.macaddrs addr ∨ _
    rw [MacaddrList.put_apply]
    split
    case isFalse => exact .inl rfl
    case isTrue hsame =>
      refine .inr ⟨_, rfl, ((takesMacaddr_iff _ _ _).mp htakes).1, hsame, ?_⟩
      change marks.macaddrs.put prev.bssid i addr = some (i : ℤ)
      rw [hsame]
      exact MacaddrList.put_self ..

theorem MatchRun.listed_cases (h : MatchRun env iface i bss marks marks' entries) (addr : String) :
    marks'.macaddrs addr = marks.macaddrs addr ∨
      ∃ k cur prev, Pairs bss entries k cur prev ∧ SameKind cur prev ∧ prev.bssid = some addr ∧
        marks'.macaddrs addr = some ((i + k : ℕ) : ℤ) := by
  induction h with
  | nil => exact .inl rfl
  | @cons i cur rest marks middle last entry entries first later ih =>
    rcases ih with heq | ⟨k, cur', prev, ⟨hcur, hentry⟩, hkind, hbssid, hlist⟩
    · rcases first.listed addr with hfirst | ⟨slot, hslot, hkind, hbssid, hlist⟩
      · exact .inl (heq.trans hfirst)
      · exact .inr ⟨0, cur, slot.cfg, ⟨rfl, entry, slot, rfl, hslot, rfl⟩, hkind, hbssid,
          heq.trans hlist⟩
    · refine .inr ⟨k + 1, cur', prev, ⟨hcur, hentry⟩, hkind, hbssid, ?_⟩
      rw [hlist]
      congr 2
      omega

theorem MatchRun.stays_of_ne (h : MatchRun env iface i bss marks marks' entries)
    (hne : ∀ k cur prev, Pairs bss entries k cur prev → SameKind cur prev → prev.bssid ≠ some addr) :
    marks'.macaddrs addr = marks.macaddrs addr := by
  rcases h.listed_cases addr with heq | ⟨k, cur, prev, hpair, hkind, hbssid, -⟩
  · exact heq
  · exact absurd hbssid (hne k cur prev hpair hkind)

/-- A turn in the middle of the matching. -/
theorem MatchRun.at (h : MatchRun env iface i bss marks marks' entries) {k : ℕ} {entry : Entry}
    (hget : entries[k]? = some entry) : ∃ cur before after, bss[k]? = some cur ∧
      MatchRun env iface i (bss.take k) marks before (entries.take k) ∧
      MatchStep env iface (i + k) cur before after entry ∧
      MatchRun env iface (i + k + 1) (bss.drop (k + 1)) after marks' (entries.drop (k + 1)) := by
  induction h generalizing k with
  | nil => cases hget
  | @cons i cur rest marks middle last head tail first later ih =>
    cases k with
    | zero =>
      cases hget
      exact ⟨cur, marks, middle, rfl, .nil, first, later⟩
    | succ k =>
      obtain ⟨cur', before, after, hcur, hearlier, hturn, hlater⟩ := ih hget
      rw [show i + 1 + k = i + (k + 1) by omega] at hturn hlater
      exact ⟨cur', before, after, hcur, .cons first hearlier, hturn, hlater⟩

/-! ## Safe matches -/

/-- The matches of step 1 leave each preserved BSS with an address of its own. -/
structure MatchedSafe (stored : Stored) (name : String) (config : Config)
    (entries : List Entry) : Prop where
  /-- An address that may be taken over is set. -/
  present : ∀ k cur prev, Pairs config.bss entries k cur prev → SameKind cur prev →
    prev.bssid ≠ none
  /-- A BSS with a generated address can take over the old one: it is not reserved, and no
  new BSS but the first is assigned it. -/
  generated : ∀ k cur prev, Pairs config.bss entries k cur prev → cur.defaultMacaddr = true →
    SameKind cur prev ∧ ∀ addr, prev.bssid = some addr →
      ¬ IsMldAddr stored addr ∧ ¬ IsOtherAddr stored config.phy name addr ∧
        ∀ (j : ℕ) b, 0 < j → config.bss[j]? = some b → b.defaultMacaddr = false →
          b.bssid ≠ some addr
  /-- The old addresses are distinct. -/
  distinct : ∀ k j cur prev cur' prev', k < j → Pairs config.bss entries k cur prev →
    Pairs config.bss entries j cur' prev' → SameKind cur prev → SameKind cur' prev' →
      prev.bssid = prev'.bssid → 0 < k ∧ cur'.defaultMacaddr = false
  /-- No other BSS was preserved with the address that the first one is assigned. -/
  first : ∀ cur prev, Pairs config.bss entries 0 cur prev →
    ¬ takesMacaddr (ifaceConfigMacaddrList stored name config) cur prev →
      ∀ j cur' prev', 0 < j → Pairs config.bss entries j cur' prev' → SameKind cur' prev' →
        prev'.bssid ≠ cur.bssid

theorem ifaceConfigMacaddrList_cases {config : Config} {value : ℤ}
    (h : ifaceConfigMacaddrList stored name config addr = some value) :
    (∃ (j : ℕ) (b : Bss), config.bss[j]? = some b ∧ b.defaultMacaddr = false ∧
        b.bssid = some addr ∧ value = j) ∨
      IsMldAddr stored addr ∨ IsOtherAddr stored config.phy name addr := by
  unfold ifaceConfigMacaddrList at h
  rcases assignedMacaddrs_cases 0 (phyBssMacaddrAdd stored config.phy name (mldMacaddrList stored))
    config.bss addr with ⟨j, b, hget, hdefault, hbssid, hlist⟩ | ⟨-, hlist⟩
  · rw [hlist, Nat.zero_add] at h
    exact .inl ⟨j, b, hget, hdefault, hbssid, (Option.some.inj h).symm⟩
  · rcases phyBssMacaddrAdd_apply stored config.phy name addr with ⟨-, hres⟩ | ⟨hnone, -⟩
    · exact .inr hres
    · rw [hlist, hnone] at h
      cases h

section Matched

variable {config : Config} (hassigned : UserAssigned stored config.phy name config.bss)
  (hpresent : ∀ b ∈ config.bss, b.defaultMacaddr = false → b.bssid ≠ none)
  (hsafe : MatchedSafe stored name config entries)
  (hstart : marks.macaddrs = ifaceConfigMacaddrList stored name config)
  (h : MatchRun env iface 0 config.bss marks marks' entries)

include hsafe hstart

theorem takes_of_generated {k : ℕ} {cur prev : Bss} {before : Marks}
    (hpair : Pairs config.bss entries k cur prev) (hdefault : cur.defaultMacaddr = true)
    (hearlier : MatchRun env iface 0 (config.bss.take k) marks before (entries.take k)) :
    takesMacaddr before.macaddrs cur prev := by
  obtain ⟨hkind, hfree⟩ := hsafe.generated k cur prev hpair hdefault
  obtain ⟨addr, hbssid⟩ := Option.ne_none_iff_exists'.mp (hsafe.present k cur prev hpair hkind)
  obtain ⟨hmld, hother, hassign⟩ := hfree addr hbssid
  refine (takesMacaddr_iff _ _ _).mpr ⟨hkind, ?_⟩
  rw [hbssid, MacaddrList.get_some]
  rcases hearlier.listed_cases addr with heq | ⟨j, cur', prev', htaken, hkind', hbssid', -⟩
  · rw [heq, hstart]
    cases hvalue : ifaceConfigMacaddrList stored name config addr with
    | none => rfl
    | some value =>
      rcases ifaceConfigMacaddrList_cases hvalue with ⟨j, b, hget, hb, hbaddr, rfl⟩ | hres
      · rcases Nat.eq_zero_or_pos j with rfl | hpos
        · rfl
        · exact absurd hbaddr (hassign j b hpos hget hb)
      · exact (hres.elim hmld hother).elim
  · obtain ⟨hpair', hlt⟩ := htaken.of_take
    have hclash := hsafe.distinct j k cur' prev' cur prev hlt hpair' hpair hkind' hkind
      (hbssid'.trans hbssid.symm)
    rw [hdefault] at hclash
    exact nomatch hclash.2

include hassigned hpresent h

/-- A preserved BSS is listed under its own index. -/
theorem listed_of_matchedSafe {k : ℕ} {entry : Entry} (hget : entries[k]? = some entry)
    (hslot : entry.slot ≠ none) : marks'.macaddrs.get entry.bss.bssid = some (k : ℤ) := by
  obtain ⟨cur, before, after, hcur, hearlier, hturn, hlater⟩ := h.at hget
  have hpair : ∀ slot, entry.slot = some slot → Pairs config.bss entries k cur slot.cfg :=
    fun slot heq => ⟨hcur, entry, slot, hget, heq, rfl⟩
  cases hturn with
  | missing => exact absurd rfl hslot
  | forced => exact absurd rfl hslot
  | @takes p prev handle hprev hold hforce hfound htakes =>
    have hkind := ((takesMacaddr_iff _ _ _).mp htakes).1
    obtain ⟨addr, hbssid⟩ :=
      Option.ne_none_iff_exists'.mp (hsafe.present k cur prev (hpair _ rfl) hkind)
    dsimp only
    rw [hbssid, MacaddrList.get_some]
    have hput : before.macaddrs.put prev.bssid (0 + k : ℕ) addr = some (k : ℤ) := by
      rw [hbssid, MacaddrList.put_self, Nat.zero_add]
    rcases Nat.eq_zero_or_pos k with rfl | hpos
    · -- no later BSS takes the address again
      refine (hlater.stays_of_ne fun j cur' prev' hpair' hkind' hbssid' => ?_).trans hput
      have hclash := hsafe.distinct 0 (0 + 1 + j) cur prev cur' prev' (by omega) (hpair _ rfl)
        hpair'.of_drop hkind hkind' (hbssid.trans hbssid'.symm)
      exact Nat.lt_irrefl 0 hclash.1
    · exact hlater.matchList.stays addr k hput (by omega)
  | @keeps p prev handle hprev hold hforce hfound htakes =>
    cases hdefault : cur.defaultMacaddr with
    | true =>
      exact absurd (takes_of_generated hsafe hstart (hpair _ rfl) hdefault
        hearlier) htakes
    | false =>
      obtain ⟨addr, hbssid⟩ :=
        Option.ne_none_iff_exists'.mp (hpresent cur (List.mem_of_getElem? hcur) hdefault)
      have hbefore : marks.macaddrs addr = some (k : ℤ) := by
        rw [hstart]
        exact (listsConfig_ifaceConfigMacaddrList hassigned).assigned k cur hcur hdefault addr
          hbssid
      dsimp only
      rw [hbssid, MacaddrList.get_some]
      rcases Nat.eq_zero_or_pos k with rfl | hpos
      · rw [List.take_zero, List.take_zero] at hearlier
        cases hearlier
        refine (h.stays_of_ne fun j cur' prev' hpair' hkind' hbssid' => ?_).trans hbefore
        rcases Nat.eq_zero_or_pos j with rfl | hj
        · -- the first BSS would have taken its own address
          obtain ⟨hcur', other, slot, hother, hslot', hprev'⟩ := hpair'
          rw [hcur] at hcur'
          rw [hget] at hother
          cases hcur'
          cases hother
          cases hslot'
          cases hprev'
          refine htakes ((takesMacaddr_iff _ _ _).mpr ⟨hkind', ?_⟩)
          rw [hbssid', MacaddrList.get_some, hbefore]
          rfl
        · rw [hstart] at htakes
          exact hsafe.first cur prev (hpair _ rfl) htakes j cur' prev' hj hpair' hkind'
            (hbssid'.trans hbssid.symm)
      · exact h.matchList.stays addr k hbefore (by omega)

end Matched

/-! ## Safe reloads -/

def startMarks (env : ReloadEnv) (stored : Stored) (name : String) (config old : Config) : Marks :=
  ⟨old.bss, old.bss.map fun bss => some (env.configHash bss.data),
    ifaceConfigMacaddrList stored name config⟩

/-- What a reload needs of the configurations: an address for each BSS without a generated
one, safe matches, for the first old BSS that is preserved without a match an address that
is not reserved, and no link whose device has the address of a BSS of another configuration. -/
structure PreserveSafe (env : ReloadEnv) (stored : Stored) (name : String) (config old : Config)
    (iface : Iface) : Prop where
  present : ∀ b ∈ config.bss, b.defaultMacaddr = false → b.bssid ≠ none
  matched : ∀ marks entries,
    matchAll env iface 0 config.bss (startMarks env stored name config old) = some (marks, entries) →
      MatchedSafe stored name config entries
  first : ∀ cur prev, config.bss.head? = some cur → old.bss.head? = some prev →
    (∀ marks entries, matchAll env iface 0 config.bss (startMarks env stored name config old) =
      some (marks, entries) → ∀ entry ∈ entries, entry.slot = none) →
    cur.defaultMacaddr = true → ∃ addr, prev.bssid = some addr ∧
      ¬ IsMldAddr stored addr ∧ ¬ IsOtherAddr stored config.phy name addr
  reuse : ReuseSafe stored config.phy name env.phydev config.bss

/-- The matching changes no old address. -/
theorem MatchRun.oldBssids (h : MatchRun env iface i bss marks marks' entries) :
    marks'.old.map Bss.bssid = marks.old.map Bss.bssid := by
  induction h with
  | nil => rfl
  | cons first later ih =>
    refine ih.trans ?_
    cases first with
    | missing => rfl
    | forced hprev hold hforce => exact map_set_of_getElem? hold rfl
    | takes => rfl
    | keeps => rfl

theorem reloadSafe_of_preserve {config old : Config}
    (hassigned : UserAssigned stored config.phy name config.bss)
    (hsafe : PreserveSafe env stored name config old iface)
    (h : preserve env stored name config old iface = some (marks, entries)) :
    ReloadSafe env.phydev stored name config marks entries := by
  simp only [preserve, Option.bind_eq_bind, Option.bind_eq_some_iff, Prod.exists] at h
  obtain ⟨middle, matched, hmatch, hrest⟩ := h
  have hstart : matchAll env iface 0 config.bss (startMarks env stored name config old) =
      some (middle, matched) := hmatch
  have hrun := matchRun_of_matchAll hstart
  have hmatched := hsafe.matched middle matched hstart
  have hready := ready_of_matchRun hassigned hsafe.present rfl hrun
  split at hrest
  case isTrue => cases hrest
  case isFalse =>
    cases preserveStep_of_preserveFirst hrest with
    | matched =>
      have hlisted : ∀ (k : ℕ) entry, entries[k]? = some entry → entry.slot ≠ none →
          marks.macaddrs.get entry.bss.bssid = some (k : ℤ) := fun k entry hget hslot =>
        listed_of_matchedSafe hassigned hsafe.present hmatched rfl hrun hget hslot
      refine ⟨hsafe.present, hlisted, fun entry hentry hslot addr hbssid => ?_, hsafe.reuse⟩
      obtain ⟨k, hlt, rfl⟩ := List.mem_iff_getElem.mp hentry
      have hown := hlisted k _ (List.getElem?_eq_getElem hlt) hslot
      rw [hbssid, MacaddrList.get_some] at hown
      rw [← not_or]
      intro hres
      rw [hready.reserved addr hres] at hown
      have hcast : (-1 : ℤ) = k := Option.some.inj hown
      omega
    | @first entry rest prev olds handle hslot hentries hprev hbssid hfound =>
      subst hentries
      obtain ⟨cur, bss, hof, -, hconfig⟩ := List.forall₂_cons_right_iff.mp hready.entryOf
      have hcur := hof.new (hslot entry List.mem_cons_self)
      have hfree : ∃ addr, prev.bssid = some addr ∧
          ¬ IsMldAddr stored addr ∧ ¬ IsOtherAddr stored config.phy name addr := by
        cases hdefault : cur.defaultMacaddr with
        | true =>
          have hbssids := hrun.oldBssids
          rw [hprev, List.map_cons] at hbssids
          obtain ⟨first, others, hold, hsame, -⟩ := List.map_eq_cons_iff.mp hbssids.symm
          rw [← hsame]
          refine hsafe.first cur first (by rw [hconfig]; rfl)
            (show old.bss.head? = some first by
              rw [show old.bss = first :: others from hold]; rfl) (fun m es hes => ?_) hdefault
          rw [hstart] at hes
          cases hes
          exact hslot
        | false =>
          have hmem : cur ∈ config.bss := by
            rw [hconfig]
            exact List.mem_cons_self
          obtain ⟨addr, haddr⟩ :=
            Option.ne_none_iff_exists'.mp (hsafe.present cur hmem hdefault)
          have hsame : entry.bss.bssid = prev.bssid := by
            refine hbssid.resolve_right ?_
            rw [hcur, hdefault]
            exact Bool.false_ne_true
          rw [hcur, haddr] at hsame
          exact ⟨addr, hsame.symm, hassigned.free cur hmem hdefault addr haddr⟩
      obtain ⟨addr, haddr, hnot⟩ := hfree
      refine ⟨hsafe.present, fun k found hget hsome => ?_,
        fun found hfound hsome other hother => ?_, hsafe.reuse⟩
      · cases k with
        | zero =>
          cases hget
          change (middle.macaddrs.put prev.bssid 0).get prev.bssid = _
          rw [haddr]
          exact MacaddrList.put_self ..
        | succ k =>
          exact absurd (hslot found (List.mem_cons_of_mem _ (List.mem_of_getElem? hget))) hsome
      · rcases List.mem_cons.mp hfound with rfl | hfound
        · change prev.bssid = some other at hother
          rw [haddr] at hother
          cases hother
          exact hnot
        · exact absurd (hslot found (List.mem_cons_of_mem _ hfound)) hsome

end OpenWrt.Hostapd
