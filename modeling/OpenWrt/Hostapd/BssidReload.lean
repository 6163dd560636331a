/-
# The addresses after a reload

The preserved BSSs whose address is listed under their own index are settled before the new
ones get theirs. A new BSS with a user-assigned address that a preserved one was given takes
it back: this is only so for the first BSS, and the preserved one gets another address.
-/

import OpenWrt.Hostapd.BssidRestart
import OpenWrt.Hostapd.ReloadRun

namespace OpenWrt.Hostapd

variable {stored : Stored} {phy name : String} {env : ReloadEnv} {iface : Iface}
  {list : MacaddrList} {addr : String}

/-! ## The list after the matching -/

/-- What an entry has of its BSS in the configuration. -/
structure EntryOf (bss : Bss) (entry : Entry) : Prop where
  default : entry.bss.defaultMacaddr = bss.defaultMacaddr
  mld : entry.bss.mldBssid = bss.mldBssid
  new : entry.slot = none → entry.bss = bss

/-- What the matching from index `i` on does to the address list. -/
structure MatchList (i : ℕ) (before after : MacaddrList) (entries : List Entry) : Prop where
  stays : ∀ addr value, before addr = some value → value ≠ 0 → after addr = some value
  listed : ∀ addr, before addr ≠ none → after addr ≠ none
  cases : ∀ addr value, after addr = some value → before addr = some value ∨
    ∃ k entry, entries[k]? = some entry ∧ entry.slot ≠ none ∧ value = ((i + k : ℕ) : ℤ)

variable {marks marks' : Marks} {entries : List Entry}

theorem MatchStep.entryOf {i : ℕ} {cur : Bss} {entry : Entry}
    (h : MatchStep env iface i cur marks marks' entry) : EntryOf cur entry := by
  cases h with
  | missing => exact ⟨rfl, rfl, fun _ => rfl⟩
  | forced => exact ⟨rfl, rfl, fun _ => rfl⟩
  | takes => exact ⟨rfl, rfl, fun hnone => nomatch hnone⟩
  | keeps => exact ⟨rfl, rfl, fun hnone => nomatch hnone⟩

/-- One turn changes the list at most at a free address or at one of index 0. -/
theorem MatchStep.macaddrs {i : ℕ} {cur : Bss} {entry : Entry}
    (h : MatchStep env iface i cur marks marks' entry) (addr : String) :
    marks'.macaddrs addr = marks.macaddrs addr ∨
      ((marks.macaddrs addr).getD 0 = 0 ∧ entry.slot ≠ none ∧
        marks'.macaddrs addr = some (i : ℤ)) := by
  cases h with
  | missing => exact .inl rfl
  | forced => exact .inl rfl
  | keeps => exact .inl rfl
  | @takes p prev handle hprev hold hforce hfound htakes =>
    change marks.macaddrs.put prev.bssid i addr = marks.macaddrs addr ∨ _
    rw [MacaddrList.put_apply]
    split
    case isFalse => exact .inl rfl
    case isTrue hsame =>
      refine .inr ⟨?_, Option.some_ne_none _, ?_⟩
      · have hfree := htakes.2.2.2
        rwa [hsame] at hfree
      · change marks.macaddrs.put prev.bssid i addr = some (i : ℤ)
        rw [hsame]
        exact MacaddrList.put_self ..

theorem MatchRun.entryOf {i : ℕ} {bss : List Bss}
    (h : MatchRun env iface i bss marks marks' entries) : List.Forall₂ EntryOf bss entries := by
  induction h with
  | nil => exact .nil
  | cons first later ih => exact .cons first.entryOf ih

theorem MatchRun.matchList {i : ℕ} {bss : List Bss}
    (h : MatchRun env iface i bss marks marks' entries) :
    MatchList i marks.macaddrs marks'.macaddrs entries := by
  induction h with
  | nil => exact ⟨fun _ _ h _ => h, fun _ h => h, fun _ _ h => .inl h⟩
  | @cons i cur rest marks middle last entry entries first later ih =>
    refine ⟨fun addr value hlist hne => ?_, fun addr hlist => ?_, fun addr value hlist => ?_⟩
    · refine ih.stays addr value ?_ hne
      rcases first.macaddrs addr with heq | ⟨hzero, -⟩
      · rw [heq, hlist]
      · rw [hlist, Option.getD_some] at hzero
        exact absurd hzero hne
    · refine ih.listed addr ?_
      rcases first.macaddrs addr with heq | ⟨-, -, heq⟩
      · rw [heq]
        exact hlist
      · rw [heq]
        exact Option.some_ne_none _
    · rcases ih.cases addr value hlist with hmiddle | ⟨k, found, hget, hslot, hvalue⟩
      · rcases first.macaddrs addr with heq | ⟨-, hslot, heq⟩
        · exact .inl (heq ▸ hmiddle)
        · refine .inr ⟨0, entry, rfl, hslot, ?_⟩
          rw [heq] at hmiddle
          exact (Option.some.inj hmiddle).symm
      · exact .inr ⟨k + 1, found, hget, hslot, by rw [hvalue]; congr 1; omega⟩

/-! ## Before the new addresses -/

/-- The entries and the address list before the new BSSs get their addresses. -/
structure Ready (stored : Stored) (phy name : String) (bss : List Bss) (list : MacaddrList)
    (entries : List Entry) : Prop where
  entryOf : List.Forall₂ EntryOf bss entries
  reserved : ∀ addr, IsMldAddr stored addr ∨ IsOtherAddr stored phy name addr →
    list addr = some (-1)
  values : ∀ addr (k : ℕ), list addr = some (k : ℤ) →
    ∃ entry, entries[k]? = some entry ∧ (entry.slot ≠ none ∨ entry.bss.defaultMacaddr = false)
  assigned : ∀ (k : ℕ) entry, 0 < k → entries[k]? = some entry → entry.slot = none →
    entry.bss.defaultMacaddr = false → list.get entry.bss.bssid = some (k : ℤ) ∨
      list.get entry.bss.bssid = some 0

/-- What a reload needs, once the preserved BSSs are known: the address of each is listed
under its index and is no reserved one. -/
structure ReloadSafe (phydev : PhyDev) (stored : Stored) (name : String) (config : Config)
    (marks : Marks) (entries : List Entry) : Prop where
  present : ∀ b ∈ config.bss, b.defaultMacaddr = false → b.bssid ≠ none
  listed : ∀ (k : ℕ) entry, entries[k]? = some entry → entry.slot ≠ none →
    marks.macaddrs.get entry.bss.bssid = some (k : ℤ)
  free : ∀ entry ∈ entries, entry.slot ≠ none → ∀ addr, entry.bss.bssid = some addr →
    ¬ IsMldAddr stored addr ∧ ¬ IsOtherAddr stored config.phy name addr
  reuse : ReuseSafe stored config.phy name phydev config.bss

theorem exists_of_forall₂ {α β : Type*} {R : α → β → Prop} {as : List α} {bs : List β}
    (h : List.Forall₂ R as bs) {k : ℕ} {b : β} (hget : bs[k]? = some b) :
    ∃ a, as[k]? = some a ∧ R a b := by
  obtain ⟨hlt, rfl⟩ := List.getElem?_eq_some_iff.mp hget
  have hlt' : k < as.length := h.length_eq ▸ hlt
  exact ⟨as[k], List.getElem?_eq_getElem hlt', (List.forall₂_iff_get.mp h).2 k hlt' hlt⟩

theorem exists_of_forall₂_left {α β : Type*} {R : α → β → Prop} {as : List α} {bs : List β}
    (h : List.Forall₂ R as bs) {k : ℕ} {a : α} (hget : as[k]? = some a) :
    ∃ b, bs[k]? = some b ∧ R a b := by
  obtain ⟨hlt, rfl⟩ := List.getElem?_eq_some_iff.mp hget
  have hlt' : k < bs.length := h.length_eq ▸ hlt
  exact ⟨bs[k], List.getElem?_eq_getElem hlt', (List.forall₂_iff_get.mp h).2 k hlt hlt'⟩

theorem ready_of_matchRun {config : Config}
    (hassigned : UserAssigned stored config.phy name config.bss)
    (hpresent : ∀ b ∈ config.bss, b.defaultMacaddr = false → b.bssid ≠ none)
    (hlist : marks.macaddrs = ifaceConfigMacaddrList stored name config)
    (h : MatchRun env iface 0 config.bss marks marks' entries) :
    Ready stored config.phy name config.bss marks'.macaddrs entries := by
  have hbefore := listsConfig_ifaceConfigMacaddrList hassigned
  rw [← hlist] at hbefore
  have hmatch := h.matchList
  refine ⟨h.entryOf, fun addr hres => ?_, fun addr k hvalue => ?_,
    fun k entry hpos hget hslot hdefault => ?_⟩
  · exact hmatch.stays addr (-1) (hbefore.reserved addr hres) (by decide)
  · rcases hmatch.cases addr k hvalue with hold | ⟨j, entry, hget, hslot, hcast⟩
    · obtain ⟨b, hb, hdefault⟩ := hbefore.values addr k hold
      obtain ⟨entry, hentry, hof⟩ := exists_of_forall₂_left h.entryOf hb
      exact ⟨entry, hentry, .inr (hof.default.trans hdefault)⟩
    · have hj : j = k := by omega
      exact ⟨entry, hj ▸ hget, .inl hslot⟩
  · obtain ⟨b, hb, hof⟩ := exists_of_forall₂ h.entryOf hget
    rw [hof.new hslot]
    rw [hof.new hslot] at hdefault
    obtain ⟨addr, hbssid⟩ :=
      Option.ne_none_iff_exists'.mp (hpresent b (List.mem_of_getElem? hb) hdefault)
    rw [hbssid, MacaddrList.get_some]
    refine .inl (hmatch.stays addr k (hbefore.assigned k b hb hdefault addr hbssid) ?_)
    omega

/-- Steps 1 and 2 leave the entries and the list ready. -/
theorem ready_of_preserve {config old : Config} {marks : Marks}
    (hassigned : UserAssigned stored config.phy name config.bss)
    (h : preserve env stored name config old iface = some (marks, entries))
    (hsafe : ReloadSafe env.phydev stored name config marks entries) :
    Ready stored config.phy name config.bss marks.macaddrs entries := by
  simp only [preserve, Option.bind_eq_bind, Option.bind_eq_some_iff, Prod.exists] at h
  obtain ⟨middle, matched, hmatch, hrest⟩ := h
  split at hrest
  case isTrue => cases hrest
  case isFalse =>
    have hready : Ready stored config.phy name config.bss middle.macaddrs matched :=
      ready_of_matchRun hassigned hsafe.present rfl (matchRun_of_matchAll hmatch)
    cases preserveStep_of_preserveFirst hrest with
    | matched => exact hready
    | @first entry rest prev olds handle hslot hentries hprev hbssid hfound =>
      subst hentries
      have hfree := hsafe.free _ List.mem_cons_self (Option.some_ne_none _)
      have hput : ∀ addr, middle.macaddrs.put prev.bssid 0 addr = middle.macaddrs addr ∨
          (prev.bssid = some addr ∧ middle.macaddrs.put prev.bssid 0 addr = some 0) := by
        intro addr
        rw [MacaddrList.put_apply]
        split
        case isTrue hsame => exact .inr ⟨hsame, rfl⟩
        case isFalse => exact .inl rfl
      refine ⟨?_, fun addr hres => ?_, fun addr k hvalue => ?_,
        fun k found hpos hget hnone hdefault => ?_⟩
      · obtain ⟨b, bs, hfirst, hlater, heq⟩ := List.forall₂_cons_right_iff.mp hready.entryOf
        rw [heq]
        exact .cons ⟨hfirst.default, hfirst.mld, fun hnone => by cases hnone⟩ hlater
      · rcases hput addr with heq | ⟨hsame, -⟩
        · exact heq.trans (hready.reserved addr hres)
        · exact (hres.elim (hfree addr hsame).1 (hfree addr hsame).2).elim
      · rcases hput addr with heq | ⟨-, heq⟩
        · obtain ⟨found, hget, hcase⟩ := hready.values addr k (heq.symm.trans hvalue)
          cases k with
          | zero => exact ⟨_, rfl, .inl (Option.some_ne_none _)⟩
          | succ k => exact ⟨found, hget, hcase⟩
        · have hk : k = 0 := by
            have hcast := Option.some.inj (heq.symm.trans hvalue)
            omega
          subst hk
          exact ⟨_, rfl, .inl (Option.some_ne_none _)⟩
      · have hget' : (entry :: rest)[k]? = some found := by
          cases k with
          | zero => exact absurd hpos (Nat.lt_irrefl 0)
          | succ k => exact hget
        have hold := hready.assigned k found hpos hget' hnone hdefault
        cases hbss : found.bss.bssid with
        | none =>
          rw [hbss] at hold
          exact hold
        | some addr =>
          rw [hbss] at hold
          rcases hput addr with heq | ⟨-, heq⟩
          · exact hold.imp heq.trans heq.trans
          · exact .inr heq

theorem Ready.macaddrInit {bss : List Bss} (phydev : PhyDev)
    (h : Ready stored phy name bss list entries) :
    Ready stored phy name bss (phydev.macaddrInit list) entries := by
  have hkeeps : ∀ addr value, list addr = some value → phydev.macaddrInit list addr = some value := by
    intro addr value hlist
    rcases macaddrInit_apply phydev list addr with heq | ⟨hnone, -⟩
    · rw [heq, hlist]
    · rw [hlist] at hnone
      cases hnone
  refine ⟨h.entryOf, fun addr hres => hkeeps addr _ (h.reserved addr hres), fun addr k hvalue => ?_,
    fun k entry hpos hget hslot hdefault => ?_⟩
  · rcases macaddrInit_apply phydev list addr with heq | ⟨-, heq⟩
    · exact h.values addr k (by rw [← heq, hvalue])
    · rw [heq] at hvalue
      have hcast : (-1 : ℤ) = k := Option.some.inj hvalue
      omega
  · have hold := h.assigned k entry hpos hget hslot hdefault
    cases hbss : entry.bss.bssid with
    | none =>
      rw [hbss] at hold
      exact hold
    | some addr =>
      rw [hbss] at hold
      exact hold.imp (hkeeps addr _) (hkeeps addr _)

/-! ## While the new addresses are given -/

/-- The state before turn `i`, the BSSs of `settled` having their addresses. -/
structure Assigning (phydev : PhyDev) (stored : Stored) (phy name : String)
    (state : MacaddrList × List Entry) (length i : ℕ) (settled : ℕ → Prop) : Prop where
  all : Settled stored phy name state.1 (state.2.map Entry.bss) settled
  length : state.2.length = length
  kept : ∀ (k : ℕ) entry, state.2[k]? = some entry → entry.slot ≠ none → settled k
  values : ∀ addr (k : ℕ), state.1 addr = some (k : ℤ) → i ≤ k →
    ∃ entry, state.2[k]? = some entry ∧ (entry.slot ≠ none ∨ entry.bss.defaultMacaddr = false)
  assigned : ∀ (k : ℕ) entry, i ≤ k → 0 < k → state.2[k]? = some entry → entry.slot = none →
    entry.bss.defaultMacaddr = false →
      (state.1.get entry.bss.bssid = some (k : ℤ) ∧ settled k) ∨
        state.1.get entry.bss.bssid = some 0
  reuse : ReuseSafe stored phy name phydev (state.2.map Entry.bss)

section Assigning

variable {phydev : PhyDev} {state state' : MacaddrList × List Entry} {length i : ℕ}
  {settled settled' : ℕ → Prop}

theorem Assigning.succ (h : Assigning phydev stored phy name state length i settled) :
    Assigning phydev stored phy name state length (i + 1) settled :=
  ⟨h.all, h.length, h.kept, fun addr k hlist hle => h.values addr k hlist (Nat.le_of_succ_le hle),
    fun k entry hle => h.assigned k entry (Nat.le_of_succ_le hle), h.reuse⟩

theorem Assigning.extend (h : Assigning phydev stored phy name state length i settled)
    (hsub : ∀ k, settled k → settled' k)
    (hall : Settled stored phy name state.1 (state.2.map Entry.bss) settled') :
    Assigning phydev stored phy name state length i settled' :=
  ⟨hall, h.length, fun k entry hget hslot => hsub k (h.kept k entry hget hslot), h.values,
    fun k entry hle hpos hget hslot hdefault =>
      (h.assigned k entry hle hpos hget hslot hdefault).imp_left fun hown => ⟨hown.1, hsub k hown.2⟩,
    h.reuse⟩

/-- Only a reserved address is listed anew before the search. -/
def ListedAnew (before : MacaddrList) (i : ℕ) (after : MacaddrList) : Prop :=
  after = before ∨
    ∃ addr value, before addr = some value ∧ value < 0 ∧ after = before.put (some addr) i

theorem ListedAnew.keeps {before after : MacaddrList} (h : ListedAnew before i after) {value : ℤ}
    (hlist : before addr = some value) (hpos : 0 ≤ value) : after addr = some value := by
  rcases h with rfl | ⟨other, v, hother, hneg, rfl⟩
  · exact hlist
  · have hne : some other ≠ some addr := by
      intro heq
      cases heq
      rw [hother] at hlist
      cases hlist
      exact Int.not_le.mpr hneg hpos
    rw [MacaddrList.put_of_ne _ hne, hlist]

theorem ListedAnew.cases {before after : MacaddrList} (h : ListedAnew before i after) {value : ℤ}
    (hlist : after addr = some value) : before addr = some value ∨ value = i := by
  rcases h with rfl | ⟨other, v, -, -, rfl⟩
  · exact .inl hlist
  · rw [MacaddrList.put_apply] at hlist
    split at hlist
    · exact .inr (Option.some.inj hlist).symm
    · exact .inl hlist

theorem ListedAnew.keepsSettled {before after : MacaddrList} (h : ListedAnew before i after)
    {bss : List Bss} (hall : Settled stored phy name before bss settled) :
    Settled stored phy name after bss settled := by
  rcases h with rfl | ⟨other, v, hother, hneg, rfl⟩
  · exact hall
  · refine hall.put fun addr heq w hw => ?_
    cases heq
    rw [hother] at hw
    cases hw
    exact hneg

theorem not_listed_of_next {macaddrs macaddrs' : MacaddrList} {bss : Bss} {idx value : ℤ}
    {found : String} (hnext : bssMacaddrNext phydev macaddrs bss idx = some (found, macaddrs'))
    (hlist : macaddrs addr = some value) (hpos : 0 ≤ value) :
    addr ≠ found ∧ macaddrs' addr = some value := by
  obtain ⟨rfl, hfree⟩ := bssMacaddrNext_spec hnext
  have hne : addr ≠ found := by
    rintro rfl
    rcases hfree with hnone | ⟨-, -, hres⟩
    · rw [hnone] at hlist
      cases hlist
    · rw [hres] at hlist
      cases hlist
      exact absurd hpos (by decide)
  refine ⟨hne, ?_⟩
  rw [MacaddrList.put_of_ne _ (fun heq => hne (Option.some.inj heq).symm), hlist]

/-- Turn `i` gives an address to the BSS of the turn, or the first turn to another one. -/
theorem Assigning.next {macaddrs macaddrs' : MacaddrList} {target : ℕ} {entry : Entry}
    {found : String} (h : Assigning phydev stored phy name state length i settled)
    (hanew : ListedAnew state.1 i macaddrs) (hmoved : state.2[target]? = some entry)
    (hnext : bssMacaddrNext phydev macaddrs entry.bss i = some (found, macaddrs'))
    (htarget : target = i ∨ i = 0) :
    Assigning phydev stored phy name
      (macaddrs', state.2.set target { entry with bss := { entry.bss with bssid := some found } })
      length (i + 1) fun k => settled k ∨ k = target := by
  have hlt := (List.getElem?_eq_some_iff.mp hmoved).1
  have hget : (state.2.map Entry.bss)[target]? = some entry.bss := by
    rw [List.getElem?_map, hmoved]
    rfl
  have hself : (state.2.set target
      { entry with bss := { entry.bss with bssid := some found } })[target]? =
        some { entry with bss := { entry.bss with bssid := some found } } :=
    List.getElem?_set_self hlt
  have hall := (hanew.keepsSettled h.all).next hget (Int.natCast_nonneg i) h.reuse hnext
  refine ⟨?_, by rw [List.length_set]; exact h.length, fun k other hk hslot => ?_,
    fun addr k hlist hle => ?_, fun k other hle hpos hk hslot hdefault => ?_, ?_⟩
  · rw [List.map_set]
    exact hall
  · by_cases hkt : k = target
    · exact .inr hkt
    · rw [List.getElem?_set_ne (Ne.symm hkt)] at hk
      exact .inl (h.kept k other hk hslot)
  · have hbefore : state.1 addr = some (k : ℤ) := by
      change macaddrs' addr = some (k : ℤ) at hlist
      rw [(bssMacaddrNext_spec hnext).1, MacaddrList.put_apply] at hlist
      split at hlist
      · have hcast := Option.some.inj hlist
        omega
      · rcases hanew.cases hlist with hold | hcast
        · exact hold
        · omega
    obtain ⟨other, hk, hcase⟩ := h.values addr k hbefore (Nat.le_of_succ_le hle)
    by_cases hkt : k = target
    · subst hkt
      rw [hmoved] at hk
      cases hk
      exact ⟨_, hself, hcase⟩
    · exact ⟨other, by rw [List.getElem?_set_ne (Ne.symm hkt), hk], hcase⟩
  · by_cases hkt : k = target
    · subst hkt
      have hzero : i = 0 := htarget.resolve_left (by omega)
      rw [hself] at hk
      cases hk
      refine .inr ?_
      change macaddrs' found = some 0
      rw [(bssMacaddrNext_spec hnext).1, MacaddrList.put_self, hzero]
      rfl
    · rw [List.getElem?_set_ne (Ne.symm hkt)] at hk
      have hold := h.assigned k other (Nat.le_of_succ_le hle) hpos hk hslot hdefault
      cases hbss : other.bss.bssid with
      | none =>
        rw [hbss] at hold
        rcases hold with ⟨hnone, -⟩ | hnone <;> cases hnone
      | some addr =>
        have hkeeps : ∀ value : ℤ, 0 ≤ value → state.1 addr = some value →
            macaddrs' addr = some value := fun value hvalue hlist =>
          (not_listed_of_next hnext (hanew.keeps hlist hvalue) hvalue).2
        rw [hbss] at hold
        rcases hold with ⟨hlist, hin⟩ | hlist
        · exact .inl ⟨hkeeps k (Int.natCast_nonneg k) hlist, .inl hin⟩
        · exact .inr (hkeeps 0 (Int.le_refl 0) hlist)
  · refine h.reuse.congr fun b' hb' => ?_
    rw [List.map_set] at hb'
    rcases List.mem_or_eq_of_mem_set hb' with hb' | rfl
    · exact ⟨b', hb', rfl⟩
    · exact ⟨entry.bss, List.mem_of_getElem? hget, rfl⟩

theorem listedAnew_of_any {bss : Bss} {macaddrs : MacaddrList}
    (hmacaddrs : macaddrs = if (state.1.get bss.bssid).any (· < 0) then state.1.put bss.bssid i
      else state.1) : ListedAnew state.1 i macaddrs := by
  split at hmacaddrs
  case isFalse => exact .inl hmacaddrs
  case isTrue hany =>
    cases hbss : bss.bssid with
    | none =>
      rw [hbss] at hmacaddrs
      exact .inl hmacaddrs
    | some addr =>
      rw [hbss, MacaddrList.get_some] at hany
      rw [hbss] at hmacaddrs
      cases hvalue : state.1 addr with
      | none =>
        rw [hvalue] at hany
        cases hany
      | some value =>
        rw [hvalue] at hany
        exact .inr ⟨addr, value, hvalue, of_decide_eq_true hany, hmacaddrs⟩

/-- The first BSS may take its user-assigned address back: before the first turn every
settled BSS is listed under its own index. -/
structure FirstTurn (stored : Stored) (phy name : String) (state : MacaddrList × List Entry)
    (settled : ℕ → Prop) : Prop where
  own : ∀ k, settled k ↔
    ∃ entry, state.2[k]? = some entry ∧ state.1.get entry.bss.bssid = some (k : ℤ)
  mayHave : ∀ entry, state.2[0]? = some entry → entry.slot = none →
    entry.bss.defaultMacaddr = false → ∀ addr, entry.bss.bssid = some addr →
      MayHave stored phy name entry.bss addr

/-- The first BSS takes its address back from the BSS `target`. -/
theorem Assigning.takeBack {macaddrs' : MacaddrList} {target : ℕ} {entry : Entry} {bss : Bss}
    {found : String} (h : Assigning phydev stored phy name state length 0 settled)
    (hfirst : FirstTurn stored phy name state settled) (hentry : state.2[0]? = some ⟨bss, none⟩)
    (hdefault : bss.defaultMacaddr = false) (hpos : 0 < target)
    (hlisted : state.1.get bss.bssid = some (target : ℤ)) (hmoved : state.2[target]? = some entry)
    (hnext : bssMacaddrNext phydev state.1 entry.bss (0 : ℕ) = some (found, macaddrs')) :
    ∃ settled', Assigning phydev stored phy name
      (macaddrs', state.2.set target { entry with bss := { entry.bss with bssid := some found } })
      length 1 settled' ∧ settled' 0 := by
  have hmove := h.next (.inl rfl) hmoved hnext (.inr rfl)
  cases hbssid : bss.bssid with
  | none =>
    rw [hbssid] at hlisted
    cases hlisted
  | some addr =>
    rw [hbssid, MacaddrList.get_some] at hlisted
    obtain ⟨hne, hkept⟩ := not_listed_of_next hnext hlisted (Int.natCast_nonneg target)
    have hzero : (state.2.set target
        { entry with bss := { entry.bss with bssid := some found } })[0]? = some ⟨bss, none⟩ := by
      rw [List.getElem?_set_ne (Nat.pos_iff_ne_zero.mp hpos), hentry]
    have hadd := hmove.all.add (t := 0) (by rw [List.getElem?_map, hzero]; rfl) hbssid hkept
      (Int.natCast_nonneg target) (hfirst.mayHave _ hentry rfl hdefault addr hbssid) ?_
    · exact ⟨_, hmove.extend (fun k hk => .inl hk) hadd, .inr rfl⟩
    · intro k c hk _ hget heq
      rw [List.getElem?_map, Option.map_eq_some_iff] at hget
      obtain ⟨other, hother, rfl⟩ := hget
      by_cases hkt : k = target
      · subst hkt
        rw [List.getElem?_set_self (List.getElem?_eq_some_iff.mp hmoved).1] at hother
        cases hother
        exact hne (Option.some.inj heq).symm
      · -- another settled BSS is listed under its own index, not under the target's
        rw [List.getElem?_set_ne (Ne.symm hkt)] at hother
        obtain ⟨owner, howner, hown⟩ := (hfirst.own k).mp (hk.resolve_right hkt)
        rw [hother] at howner
        cases howner
        rw [heq, MacaddrList.get_some, hlisted] at hown
        exact hkt (by have hcast := Option.some.inj hown; omega)

theorem Assigning.step (henv : env.phydev = phydev)
    (h : Assigning phydev stored phy name state length i settled)
    (hdone : ∀ k < i, settled k) (hlt : i < length)
    (hfirst : i = 0 → FirstTurn stored phy name state settled)
    (hstep : AssignStep env state i state') :
    ∃ settled', Assigning phydev stored phy name state' length (i + 1) settled' ∧
      ∀ k < i + 1, settled' k := by
  have hsucc : ∀ {P : ℕ → Prop}, (∀ k < i, P k) → P i → ∀ k < i + 1, P k := by
    intro P hless hi k hk
    rcases Nat.lt_succ_iff_lt_or_eq.mp hk with hk | rfl
    · exact hless k hk
    · exact hi
  cases hstep with
  | preserved hslot =>
    have hlt' : i < state.2.length := h.length.symm ▸ hlt
    have hget := List.getElem?_eq_getElem hlt'
    exact ⟨settled, h.succ, hsucc hdone (h.kept i _ hget (hslot _ hget))⟩
  | @own bss hentry hown =>
    refine ⟨settled, h.succ, hsucc hdone ?_⟩
    by_cases hzero : i = 0
    · subst hzero
      exact ((hfirst rfl).own 0).mpr ⟨_, hentry, hown⟩
    · cases hdefault : bss.defaultMacaddr with
      | true =>
        cases hbssid : bss.bssid with
        | none =>
          rw [hbssid] at hown
          cases hown
        | some addr =>
          rw [hbssid] at hown
          obtain ⟨entry, hget, hcase⟩ := h.values addr i hown (Nat.le_refl i)
          rw [hentry] at hget
          cases hget
          rcases hcase with hslot | hfalse
          · exact absurd rfl hslot
          · exact nomatch hdefault.symm.trans hfalse
      | false =>
        rcases h.assigned i _ (Nat.le_refl i) (Nat.pos_of_ne_zero hzero) hentry rfl hdefault with
          ⟨-, hin⟩ | hlist
        · exact hin
        · rw [hown] at hlist
          exact absurd (by have hcast := Option.some.inj hlist; omega) hzero
  | @next bss target entry found macaddrs macaddrs' hentry hmacaddrs htarget hmoved hnext =>
    rw [henv] at hnext
    rcases htarget with ⟨-, rfl⟩ | ⟨hdefault, hpos, hlisted, hne⟩
    · exact ⟨_, h.next (listedAnew_of_any hmacaddrs) hmoved hnext (.inl rfl),
        hsucc (fun k hk => .inl (hdone k hk)) (.inr rfl)⟩
    · by_cases hzero : i = 0
      · subst hzero
        have hsame : macaddrs = state.1 := by
          rw [hmacaddrs, hlisted, if_neg]
          simp
        subst hsame
        obtain ⟨settled', hassigning, hin⟩ :=
          h.takeBack (hfirst rfl) hentry hdefault hpos hlisted hmoved hnext
        exact ⟨settled', hassigning, hsucc (fun k hk => nomatch hk) hin⟩
      · rcases h.assigned i _ (Nat.le_refl i) (Nat.pos_of_ne_zero hzero) hentry rfl hdefault with
          ⟨hlist, -⟩ | hlist
        · rw [hlisted] at hlist
          exact absurd (by have hcast := Option.some.inj hlist; omega) hne
        · rw [hlisted] at hlist
          exact absurd (by have hcast := Option.some.inj hlist; omega) hpos.ne'

end Assigning

end OpenWrt.Hostapd
