/-
# The addresses after a restart

The user-assigned addresses are settled from the beginning. The first pass settles the BSSs
that keep an address, and the second pass the others, as long as the radio can generate as
many free addresses as it needs.
-/

import OpenWrt.Hostapd.BssidSettled

namespace OpenWrt.Hostapd

variable {stored : Stored} {phy name : String} {list list' : MacaddrList} {addr : String}

/-! ## The user-assigned addresses -/

/-- The user-assigned addresses are distinct, and no reserved ones. -/
structure UserAssigned (stored : Stored) (phy name : String) (bss : List Bss) : Prop where
  distinct : ∀ (i j : ℕ) b c, i ≠ j → bss[i]? = some b → bss[j]? = some c →
    b.defaultMacaddr = false → c.defaultMacaddr = false → b.bssid ≠ none → b.bssid ≠ c.bssid
  free : ∀ b ∈ bss, b.defaultMacaddr = false → ∀ addr, b.bssid = some addr →
    ¬ IsMldAddr stored addr ∧ ¬ IsOtherAddr stored phy name addr

theorem UserAssigned.mayHave {bss : List Bss} (h : UserAssigned stored phy name bss) {b : Bss}
    (hb : b ∈ bss) (hdefault : b.defaultMacaddr = false) (hbssid : b.bssid = some addr) :
    MayHave stored phy name b addr :=
  ⟨fun hmld => absurd hmld (h.free b hb hdefault addr hbssid).1,
    (h.free b hb hdefault addr hbssid).2⟩

theorem assignedMacaddrs_cases (i : ℕ) (list : MacaddrList) (bss : List Bss) (addr : String) :
    (∃ k b, bss[k]? = some b ∧ b.defaultMacaddr = false ∧ b.bssid = some addr ∧
        assignedMacaddrs i list bss addr = some ((i + k : ℕ) : ℤ)) ∨
      ((∀ b ∈ bss, b.defaultMacaddr = false → b.bssid ≠ some addr) ∧
        assignedMacaddrs i list bss addr = list addr) := by
  induction bss generalizing i list with
  | nil => exact .inr ⟨(fun b hb => nomatch hb), rfl⟩
  | cons first rest ih =>
    simp only [assignedMacaddrs]
    rcases ih (i + 1) (if first.defaultMacaddr then list else list.put first.bssid i) with
      ⟨k, b, hget, hdefault, hbssid, hlist⟩ | ⟨hnone, hlist⟩
    · refine .inl ⟨k + 1, b, hget, hdefault, hbssid, ?_⟩
      rw [hlist]
      congr 2
      omega
    · rw [hlist]
      by_cases hfirst : first.defaultMacaddr = false ∧ first.bssid = some addr
      · refine .inl ⟨0, first, rfl, hfirst.1, hfirst.2, ?_⟩
        rw [if_neg (by rw [hfirst.1]; decide), hfirst.2]
        exact MacaddrList.put_self ..
      · refine .inr ⟨fun b hb hdefault hbssid => ?_, ?_⟩
        · rcases List.mem_cons.mp hb with rfl | hb
          · exact hfirst ⟨hdefault, hbssid⟩
          · exact hnone b hb hdefault hbssid
        · cases hdefault : first.defaultMacaddr with
          | true => rfl
          | false =>
            have hne : first.bssid ≠ some addr := fun heq => hfirst ⟨hdefault, heq⟩
            exact MacaddrList.put_of_ne _ hne

/-- What the address list of a configuration has. -/
structure ListsConfig (stored : Stored) (phy name : String) (bss : List Bss) (list : MacaddrList) :
    Prop where
  assigned : ∀ (k : ℕ) b, bss[k]? = some b → b.defaultMacaddr = false →
    ∀ addr, b.bssid = some addr → list addr = some (k : ℤ)
  reserved : ∀ addr, IsMldAddr stored addr ∨ IsOtherAddr stored phy name addr →
    list addr = some (-1)
  values : ∀ addr (k : ℕ), list addr = some (k : ℤ) →
    ∃ b, bss[k]? = some b ∧ b.defaultMacaddr = false

theorem listsConfig_ifaceConfigMacaddrList {config : Config}
    (h : UserAssigned stored config.phy name config.bss) :
    ListsConfig stored config.phy name config.bss (ifaceConfigMacaddrList stored name config) := by
  unfold ifaceConfigMacaddrList
  refine ⟨fun k b hget hdefault addr hbssid => ?_, fun addr hres => ?_, fun addr k hlist => ?_⟩
  · rcases assignedMacaddrs_cases 0 (phyBssMacaddrAdd stored config.phy name (mldMacaddrList stored))
      config.bss addr with ⟨j, c, hgetj, hdefaultj, hbssidj, hlist⟩ | ⟨hnone, -⟩
    · have hsame : j = k := by
        by_contra hne
        have hdistinct := h.distinct j k c b hne hgetj hget hdefaultj hdefault
        rw [hbssidj, hbssid] at hdistinct
        exact hdistinct (Option.some_ne_none addr) rfl
      rw [hlist, hsame, Nat.zero_add]
    · exact absurd hbssid (hnone b (List.mem_of_getElem? hget) hdefault)
  · rcases assignedMacaddrs_cases 0 (phyBssMacaddrAdd stored config.phy name (mldMacaddrList stored))
      config.bss addr with ⟨j, c, hgetj, hdefaultj, hbssidj, -⟩ | ⟨-, hlist⟩
    · have hfree := h.free c (List.mem_of_getElem? hgetj) hdefaultj addr hbssidj
      exact (hres.elim hfree.1 hfree.2).elim
    · rcases phyBssMacaddrAdd_apply stored config.phy name addr with ⟨hbase, -⟩ | ⟨-, hmld, hother⟩
      · rw [hlist, hbase]
      · exact (hres.elim hmld hother).elim
  · rcases assignedMacaddrs_cases 0 (phyBssMacaddrAdd stored config.phy name (mldMacaddrList stored))
      config.bss addr with ⟨j, c, hgetj, hdefaultj, -, hlist'⟩ | ⟨-, hlist'⟩
    · rw [hlist'] at hlist
      have hj : j = k := by
        have hcast := Option.some.inj hlist
        omega
      exact ⟨c, hj ▸ hgetj, hdefaultj⟩
    · rw [hlist'] at hlist
      rcases phyBssMacaddrAdd_apply stored config.phy name addr with ⟨hbase, -⟩ | ⟨hbase, -⟩
      · rw [hbase] at hlist
        have hcast : (-1 : ℤ) = k := Option.some.inj hlist
        omega
      · rw [hbase] at hlist
        cases hlist

/-- Existing interfaces only reserve addresses that are not listed. -/
theorem macaddrInit_apply (phydev : PhyDev) (list : MacaddrList) (addr : String) :
    phydev.macaddrInit list addr = list addr ∨
      (list addr = none ∧ phydev.macaddrInit list addr = some (-1)) := by
  unfold PhyDev.macaddrInit
  induction phydev.wdevMacaddrs generalizing list with
  | nil => exact .inl rfl
  | cons wdev rest ih =>
    rw [List.foldl_cons]
    by_cases hwdev : list wdev = none
    · rw [if_pos hwdev]
      rcases ih (list.reserve (some wdev)) with heq | ⟨hnone, heq⟩
      · rw [heq, MacaddrList.reserve, MacaddrList.put_apply]
        split
        case isTrue hsame =>
          cases hsame
          exact .inr ⟨hwdev, rfl⟩
        case isFalse => exact .inl rfl
      · rw [MacaddrList.reserve, MacaddrList.put_apply] at hnone
        split at hnone
        · cases hnone
        · exact .inr ⟨hnone, heq⟩
    · rw [if_neg hwdev]
      exact ih list

theorem ListsConfig.macaddrInit {bss : List Bss} (phydev : PhyDev)
    (h : ListsConfig stored phy name bss list) :
    ListsConfig stored phy name bss (phydev.macaddrInit list) := by
  refine ⟨fun k b hget hdefault addr hbssid => ?_, fun addr hres => ?_, fun addr k hlist => ?_⟩
  · have hold := h.assigned k b hget hdefault addr hbssid
    rcases macaddrInit_apply phydev list addr with heq | ⟨hnone, -⟩
    · rw [heq, hold]
    · rw [hold] at hnone
      cases hnone
  · have hold := h.reserved addr hres
    rcases macaddrInit_apply phydev list addr with heq | ⟨hnone, -⟩
    · rw [heq, hold]
    · rw [hold] at hnone
      cases hnone
  · rcases macaddrInit_apply phydev list addr with heq | ⟨-, heq⟩
    · exact h.values addr k (by rw [← heq, hlist])
    · rw [heq] at hlist
      have hcast : (-1 : ℤ) = k := Option.some.inj hlist
      omega

theorem settled_of_listsConfig {bss : List Bss} (hassigned : UserAssigned stored phy name bss)
    (hpresent : ∀ b ∈ bss, b.defaultMacaddr = false → b.bssid ≠ none)
    (h : ListsConfig stored phy name bss list) :
    Settled stored phy name list bss fun i => ∃ b, bss[i]? = some b ∧ b.defaultMacaddr = false := by
  refine ⟨fun i b hi hget => ?_, fun i j b c hi hj hne hb hc => ?_, fun addr hres => ?_⟩
  · obtain ⟨b', hget', hdefault⟩ := hi
    rw [hget] at hget'
    cases hget'
    have hmem := List.mem_of_getElem? hget
    obtain ⟨addr, hbssid⟩ := Option.ne_none_iff_exists'.mp (hpresent b hmem hdefault)
    exact ⟨addr, i, hbssid, h.assigned i b hget hdefault addr hbssid, Int.natCast_nonneg i,
      hassigned.mayHave hmem hdefault hbssid⟩
  · obtain ⟨b', hget', hdefault⟩ := hi
    obtain ⟨c', hgetc, hdefaultc⟩ := hj
    rw [hb] at hget'
    rw [hc] at hgetc
    cases hget'
    cases hgetc
    exact hassigned.distinct i j b c hne hb hc hdefault hdefaultc
      (hpresent b (List.mem_of_getElem? hb) hdefault)
  · rw [h.reserved addr hres]
    exact Option.some_ne_none _

/-! ## The two passes -/

/-- What the first pass keeps of a BSS. -/
structure KeptAs (bss : Bss) (kept : Bss × Bool) : Prop where
  default : kept.1.defaultMacaddr = bss.defaultMacaddr
  mld : kept.1.mldBssid = bss.mldBssid

theorem keepBssids_spec {old : List Bss} {i : ℕ} {rest : List Bss} :
    List.Forall₂ KeptAs rest (keepBssids old i list rest).2 := by
  induction rest generalizing i list with
  | nil => exact .nil
  | cons bss rest ih =>
    unfold keepBssids
    split
    · split
      · exact .cons ⟨rfl, rfl⟩ ih
      · exact .cons ⟨rfl, rfl⟩ ih
    · exact .cons ⟨rfl, rfl⟩ ih

/-- The BSSs that the first pass settles: those that kept their address. -/
def KeptAt (kept : List (Bss × Bool)) (i j : ℕ) : Prop :=
  ∃ k b, j = i + k ∧ kept[k]? = some (b, true)

theorem set_append_cons {α : Type*} (done rest : List α) (a b : α) :
    (done ++ a :: rest).set done.length b = done ++ b :: rest := by
  simp

theorem getElem?_append_cons {α : Type*} (done rest : List α) (a : α) :
    (done ++ a :: rest)[done.length]? = some a := by
  simp

theorem settled_keepBssids {old : List Bss} {done rest : List Bss} {settled : ℕ → Prop}
    (h : Settled stored phy name list (done ++ rest) settled) :
    Settled stored phy name (keepBssids old done.length list rest).1
      (done ++ (keepBssids old done.length list rest).2.map Prod.fst)
      fun i => settled i ∨ KeptAt (keepBssids old done.length list rest).2 done.length i := by
  induction rest generalizing done list settled with
  | nil =>
    refine h.mono fun i hi => hi.resolve_right ?_
    rintro ⟨k, b, -, hget⟩
    cases hget
  | cons bss rest ih =>
    have hskip : Settled stored phy name (keepBssids old (done.length + 1) list rest).1
        (done ++ bss :: (keepBssids old (done.length + 1) list rest).2.map Prod.fst)
        fun i => settled i ∨
          KeptAt ((bss, false) :: (keepBssids old (done.length + 1) list rest).2) done.length i := by
      have hrest : Settled stored phy name list (done ++ [bss] ++ rest) settled := by
        rw [List.append_assoc]
        exact h
      have hlater := ih hrest
      rw [List.length_append, List.length_singleton, List.append_assoc] at hlater
      refine hlater.mono fun i hi => hi.imp_right ?_
      rintro ⟨k, b, rfl, hget⟩
      cases k with
      | zero => cases hget
      | succ k => exact ⟨k, b, by omega, hget⟩
    unfold keepBssids
    split
    case h_2 => exact hskip
    case h_1 prev _ =>
      split
      case isFalse => exact hskip
      case isTrue hfree =>
        have hgive := h.give (getElem?_append_cons done rest bss)
          (fun v hv => by rw [hfree.2] at hv; cases hv) (Int.natCast_nonneg done.length)
          ⟨fun hmld => absurd hfree.2 (h.reserved prev (.inl hmld)),
            fun hother => h.reserved prev (.inr hother) hfree.2⟩
        rw [set_append_cons] at hgive
        have hrest : Settled stored phy name (list.put (some prev) done.length)
            (done ++ [{ bss with bssid := some prev }] ++ rest)
            fun i => settled i ∨ i = done.length := by
          rw [List.append_assoc]
          exact hgive
        have hlater := ih hrest
        rw [List.length_append, List.length_singleton, List.append_assoc] at hlater
        refine hlater.mono fun i hi => ?_
        rcases hi with hi | ⟨k, b, rfl, hget⟩
        · exact .inl (.inl hi)
        · cases k with
          | zero => exact .inl (.inr rfl)
          | succ k => exact .inr ⟨k, b, by omega, hget⟩

/-- The BSSs that still need an address. -/
def needing (kept : List (Bss × Bool)) : List (Bss × Bool) :=
  kept.filter fun entry => entry.1.defaultMacaddr && !entry.2

theorem ReuseSafe.congr {phydev : PhyDev} {bss bss' : List Bss}
    (h : ReuseSafe stored phy name phydev bss)
    (hmld : ∀ b' ∈ bss', ∃ b ∈ bss, b.mldBssid = b'.mldBssid) :
    ReuseSafe stored phy name phydev bss' := by
  intro hradio b' hb' addr heq
  obtain ⟨b, hb, hsame⟩ := hmld b' hb'
  exact h hradio b hb addr (hsame.trans heq)

/-- With as many free addresses as there are BSSs that need one, the second pass settles
all. -/
theorem settled_nextBssids {phydev : PhyDev} {done : List Bss} {kept : List (Bss × Bool)}
    {settled : ℕ → Prop} (h : Settled stored phy name list (done ++ kept.map Prod.fst) settled)
    (hdone : ∀ i < done.length, settled i)
    (hkept : ∀ k entry, kept[k]? = some entry →
      (entry.1.defaultMacaddr = false ∨ entry.2 = true) → settled (done.length + k))
    (henough : (needing kept).length ≤ (freeAddrs phydev list).card)
    (hsafe : ReuseSafe stored phy name phydev (done ++ kept.map Prod.fst)) :
    BssidsUnique stored phy name (done ++ nextBssids phydev done.length list kept) := by
  induction kept generalizing done list settled with
  | nil =>
    refine h.unique fun i hi => hdone i ?_
    simpa using hi
  | cons entry rest ih =>
    obtain ⟨bss, keep⟩ := entry
    have happend : ∀ (b : Bss) (tail : List Bss), done ++ b :: tail = done ++ [b] ++ tail :=
      fun b tail => List.append_cons done b tail
    unfold nextBssids
    by_cases hneed : bss.defaultMacaddr = true ∧ ¬ keep = true
    · rw [if_pos hneed]
      have hneeding : needing ((bss, keep) :: rest) = (bss, keep) :: needing rest := by
        unfold needing
        rw [List.filter_cons_of_pos]
        simp [hneed.1, hneed.2]
      rw [hneeding, List.length_cons] at henough
      have hfree : (freeAddrs phydev list).Nonempty := by
        rw [← Finset.card_pos]
        omega
      have hfound : ∃ addr list', bssMacaddrNext phydev list bss done.length = some (addr, list') :=
        bssMacaddrNext_of_free hfree
      obtain ⟨addr, list', hnext⟩ := hfound
      rw [hnext]
      have hset := h.next (getElem?_append_cons done (rest.map Prod.fst) bss)
        (Int.natCast_nonneg _) hsafe hnext
      rw [List.map_cons, set_append_cons, happend] at hset
      dsimp only
      rw [happend]
      have hlength : (done ++ [{ bss with bssid := some addr }]).length = done.length + 1 := by
        simp
      rw [← hlength]
      refine ih hset (fun i hi => ?_) (fun k entry hget hcase => ?_) ?_ ?_
      · rw [hlength] at hi
        rcases Nat.lt_succ_iff_lt_or_eq.mp hi with hi | hi
        · exact .inl (hdone i hi)
        · exact .inr hi
      · have hlater := hkept (k + 1) entry hget hcase
        rw [hlength]
        exact .inl (by rwa [Nat.add_right_comm] )
      · have hcard := card_freeAddrs_le phydev list addr done.length
        rw [(bssMacaddrNext_spec hnext).1]
        omega
      · refine hsafe.congr fun b' hb' => ?_
        rw [List.append_assoc, List.mem_append] at hb'
        rcases hb' with hb' | hb'
        · exact ⟨b', List.mem_append_left _ hb', rfl⟩
        · rcases List.mem_cons.mp hb' with rfl | hb'
          · exact ⟨bss, by simp, rfl⟩
          · exact ⟨b', List.mem_append_right _ (List.mem_cons_of_mem _ hb'), rfl⟩
    · rw [if_neg hneed]
      have hneeding : needing ((bss, keep) :: rest) = needing rest := by
        unfold needing
        rw [List.filter_cons_of_neg]
        intro htrue
        rw [Bool.and_eq_true, Bool.not_eq_true'] at htrue
        exact hneed ⟨htrue.1, ne_true_of_eq_false htrue.2⟩
      rw [hneeding] at henough
      rw [List.map_cons, happend] at h hsafe
      rw [happend]
      have hlength : (done ++ [bss]).length = done.length + 1 := by simp
      rw [← hlength]
      refine ih h (fun i hi => ?_) (fun k entry hget hcase => ?_) henough hsafe
      · rw [hlength] at hi
        rcases Nat.lt_succ_iff_lt_or_eq.mp hi with hi | rfl
        · exact hdone i hi
        · refine hkept 0 (bss, keep) rfl ?_
          cases hdefault : bss.defaultMacaddr with
          | false => exact .inl rfl
          | true => exact .inr (not_not.mp fun hk => hneed ⟨hdefault, hk⟩)
      · rw [hlength]
        have hlater := hkept (k + 1) entry hget hcase
        rwa [Nat.add_right_comm]

/-- What a restart needs: the user-assigned addresses as the claim on them says, one for
each BSS without a generated one, enough free addresses, and no link whose device has the
address of a BSS of another configuration. -/
structure RestartSafe (phydev : PhyDev) (stored : Stored) (name : String) (config : Config)
    (old : List Bss) : Prop where
  assigned : UserAssigned stored config.phy name config.bss
  present : ∀ b ∈ config.bss, b.defaultMacaddr = false → b.bssid ≠ none
  enough : (needing (restartKept phydev stored name config old).2).length ≤
    (freeAddrs phydev (restartKept phydev stored name config old).1).card
  reuse : ReuseSafe stored config.phy name phydev config.bss

/-- A safe restart gives every BSS an address of its own. -/
theorem unique_ifaceRestart {phydev : PhyDev} {config : Config} {old : List Bss}
    (h : RestartSafe phydev stored name config old) :
    BssidsUnique stored config.phy name (ifaceRestart phydev stored name config old) := by
  have hlists := (listsConfig_ifaceConfigMacaddrList h.assigned).macaddrInit phydev
  have hstart := settled_of_listsConfig h.assigned h.present hlists
  have hpass : Settled stored config.phy name (restartKept phydev stored name config old).1
      ([] ++ (restartKept phydev stored name config old).2.map Prod.fst) fun i =>
        (∃ b, config.bss[i]? = some b ∧ b.defaultMacaddr = false) ∨
          KeptAt (restartKept phydev stored name config old).2 0 i :=
    settled_keepBssids (show Settled stored config.phy name _ ([] ++ config.bss) _ from hstart)
  have hkept : List.Forall₂ KeptAs config.bss (restartKept phydev stored name config old).2 :=
    keepBssids_spec
  have hrel : ∀ (k : ℕ) entry, (restartKept phydev stored name config old).2[k]? = some entry →
      ∃ b, config.bss[k]? = some b ∧ KeptAs b entry := by
    intro k entry hget
    obtain ⟨hlt, rfl⟩ := List.getElem?_eq_some_iff.mp hget
    have hlt' : k < config.bss.length := hkept.length_eq ▸ hlt
    exact ⟨config.bss[k], List.getElem?_eq_getElem hlt', (List.forall₂_iff_get.mp hkept).2 k hlt' hlt⟩
  refine settled_nextBssids hpass (fun i hi => nomatch hi) (fun k entry hget hcase => ?_) h.enough ?_
  · rw [List.length_nil, Nat.zero_add]
    obtain ⟨bss, keep⟩ := entry
    rcases hcase with hdefault | hkeep
    · obtain ⟨b, hb, hpair⟩ := hrel k _ hget
      exact .inl ⟨b, hb, hpair.default.symm.trans hdefault⟩
    · cases hkeep
      exact .inr ⟨k, bss, (Nat.zero_add k).symm, hget⟩
  · refine h.reuse.congr fun b' hb' => ?_
    obtain ⟨entry, hentry, rfl⟩ := List.mem_map.mp hb'
    obtain ⟨k, hlt, rfl⟩ := List.mem_iff_getElem.mp hentry
    obtain ⟨b, hb, hpair⟩ := hrel k _ (List.getElem?_eq_getElem hlt)
    exact ⟨b, List.mem_of_getElem? hb, hpair.mld.symm⟩

end OpenWrt.Hostapd
