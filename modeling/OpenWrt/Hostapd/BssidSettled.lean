/-
# Giving out addresses

Addresses are given out one BSS after the other. The BSSs that have their address are
settled: the address is listed with an index, no other settled BSS has it, and it is not
reserved, except for the address of its own multi-link device. Every way of giving out an
address settles one more BSS.
-/

import Mathlib.Data.Finset.Card
import OpenWrt.Hostapd.Restart

namespace OpenWrt.Hostapd

variable {stored : Stored} {phy name : String} {list : MacaddrList} {addr : String}

/-! ## The address list -/

namespace MacaddrList

@[simp]
theorem get_some (list : MacaddrList) (addr : String) : list.get (some addr) = list addr := rfl

@[simp]
theorem put_self (list : MacaddrList) (addr : String) (value : ℤ) :
    list.put (some addr) value addr = some value :=
  Function.update_self ..

theorem put_of_ne {other : Option String} (value : ℤ) (h : other ≠ some addr) :
    list.put other value addr = list addr := by
  cases other with
  | none => rfl
  | some other => exact Function.update_of_ne (fun heq => h (by rw [heq])) ..

theorem put_apply (list : MacaddrList) (other : Option String) (value : ℤ) (addr : String) :
    list.put other value addr = if other = some addr then some value else list addr := by
  split
  case isTrue h =>
    subst h
    exact put_self ..
  case isFalse h => exact put_of_ne value h

end MacaddrList

theorem ite_ite_eq_ite_or {α : Type*} {p q : Prop} [Decidable p] [Decidable q]
    [Decidable (q ∨ p)] (a b : α) :
    (if p then a else if q then a else b) = if q ∨ p then a else b := by
  by_cases hp : p <;> by_cases hq : q <;> simp [hp, hq]

theorem reserve_foldl {α : Type*} (f : α → Option String) (items : List α) (list : MacaddrList) :
    items.foldl (fun list item => list.reserve (f item)) list addr =
      if ∃ item ∈ items, f item = some addr then some (-1) else list addr := by
  induction items generalizing list with
  | nil => simp
  | cons item items ih =>
    rw [List.foldl_cons, ih, MacaddrList.reserve, MacaddrList.put_apply]
    by_cases hmem : ∃ other ∈ items, f other = some addr
    · rw [if_pos hmem, if_pos]
      obtain ⟨other, hother, heq⟩ := hmem
      exact ⟨other, List.mem_cons_of_mem _ hother, heq⟩
    · rw [if_neg hmem]
      by_cases hitem : f item = some addr
      · rw [if_pos hitem, if_pos ⟨item, List.mem_cons_self, hitem⟩]
      · rw [if_neg hitem, if_neg]
        rintro ⟨other, hother, heq⟩
        rcases List.mem_cons.mp hother with rfl | hother
        · exact hitem heq
        · exact hmem ⟨other, hother, heq⟩

/-- The address of a multi-link device. -/
def IsMldAddr (stored : Stored) (addr : String) : Prop :=
  ∃ mld ∈ stored.mld, mld.2.macaddr = some addr

def IsOtherAddr (stored : Stored) (phy name addr : String) : Prop :=
  ∃ config ∈ stored.others phy name, ∃ bss ∈ config.bss, bss.bssid = some addr

instance : Decidable (IsMldAddr stored addr) :=
  inferInstanceAs (Decidable (∃ mld ∈ stored.mld, _))

instance : Decidable (IsOtherAddr stored phy name addr) :=
  inferInstanceAs (Decidable (∃ config ∈ stored.others phy name, _))

/-- Every reserved address is listed with `-1` at first. -/
theorem phyBssMacaddrAdd_apply (stored : Stored) (phy name : String) (addr : String) :
    (phyBssMacaddrAdd stored phy name (mldMacaddrList stored) addr = some (-1) ∧
        (IsMldAddr stored addr ∨ IsOtherAddr stored phy name addr)) ∨
      (phyBssMacaddrAdd stored phy name (mldMacaddrList stored) addr = none ∧
        ¬ IsMldAddr stored addr ∧ ¬ IsOtherAddr stored phy name addr) := by
  have hmld : mldMacaddrList stored addr =
      if ∃ mld ∈ stored.mld, mld.2.macaddr = some addr then some (-1) else none :=
    reserve_foldl (fun mld : String × Mld => mld.2.macaddr) stored.mld _
  have hother : ∀ (configs : List Config) (list : MacaddrList),
      configs.foldl (fun list config =>
        config.bss.foldl (fun list bss => list.reserve bss.bssid) list) list addr =
        if ∃ config ∈ configs, ∃ bss ∈ config.bss, bss.bssid = some addr then some (-1)
        else list addr := by
    intro configs
    induction configs with
    | nil => simp
    | cons config configs ih =>
      intro list
      rw [List.foldl_cons, ih, reserve_foldl]
      simp only [List.mem_cons, exists_eq_or_imp]
      exact ite_ite_eq_ite_or _ _
  have hlist := hother (stored.others phy name) (mldMacaddrList stored)
  rw [hmld] at hlist
  change phyBssMacaddrAdd stored phy name (mldMacaddrList stored) addr =
    if IsOtherAddr stored phy name addr then some (-1)
    else if IsMldAddr stored addr then some (-1) else none at hlist
  rw [hlist]
  by_cases hisOther : IsOtherAddr stored phy name addr
  · exact .inl ⟨if_pos hisOther, .inr hisOther⟩
  · rw [if_neg hisOther]
    by_cases hisMld : IsMldAddr stored addr
    · exact .inl ⟨if_pos hisMld, .inl hisMld⟩
    · exact .inr ⟨if_neg hisMld, hisMld, hisOther⟩

/-! ## Settled BSSs -/

/-- The BSS may have the address: it is no reserved one, except for that of its own device. -/
structure MayHave (stored : Stored) (phy name : String) (bss : Bss) (addr : String) : Prop where
  mld : IsMldAddr stored addr → bss.mldBssid = some addr
  other : ¬ IsOtherAddr stored phy name addr

/-- The BSSs with the indices of `settled` have their addresses. -/
structure Settled (stored : Stored) (phy name : String) (list : MacaddrList) (bss : List Bss)
    (settled : ℕ → Prop) : Prop where
  listed : ∀ i b, settled i → bss[i]? = some b →
    ∃ addr value, b.bssid = some addr ∧ list addr = some value ∧ 0 ≤ value ∧
      MayHave stored phy name b addr
  distinct : ∀ i j b c, settled i → settled j → i ≠ j → bss[i]? = some b → bss[j]? = some c →
    b.bssid ≠ c.bssid
  reserved : ∀ addr, IsMldAddr stored addr ∨ IsOtherAddr stored phy name addr → list addr ≠ none

/-- What the addresses of a configuration have to be. -/
structure BssidsUnique (stored : Stored) (phy name : String) (bss : List Bss) : Prop where
  present : ∀ b ∈ bss, b.bssid ≠ none
  distinct : ∀ (i j : ℕ) b c, i ≠ j → bss[i]? = some b → bss[j]? = some c → b.bssid ≠ c.bssid
  mld : ∀ b ∈ bss, ∀ addr, b.bssid = some addr → IsMldAddr stored addr → b.mldBssid = some addr
  other : ∀ b ∈ bss, ∀ addr, b.bssid = some addr → ¬ IsOtherAddr stored phy name addr

theorem Settled.unique {bss : List Bss} {settled : ℕ → Prop}
    (h : Settled stored phy name list bss settled) (hall : ∀ i < bss.length, settled i) :
    BssidsUnique stored phy name bss := by
  have hindex : ∀ b ∈ bss, ∃ i, settled i ∧ bss[i]? = some b := by
    intro b hb
    obtain ⟨i, hi, heq⟩ := List.mem_iff_getElem.mp hb
    exact ⟨i, hall i hi, List.getElem?_eq_some_iff.mpr ⟨hi, heq⟩⟩
  have hhas : ∀ b ∈ bss, ∃ addr, b.bssid = some addr ∧ MayHave stored phy name b addr := by
    intro b hb
    obtain ⟨i, hi, hget⟩ := hindex b hb
    obtain ⟨addr, value, hbssid, -, -, hmay⟩ := h.listed i b hi hget
    exact ⟨addr, hbssid, hmay⟩
  refine ⟨fun b hb => ?_, fun i j b c hne hi hj => ?_, fun b hb addr heq => ?_,
    fun b hb addr heq => ?_⟩
  · obtain ⟨addr, hbssid, -⟩ := hhas b hb
    rw [hbssid]
    exact Option.some_ne_none addr
  · exact h.distinct i j b c (hall i (List.getElem?_eq_some_iff.mp hi).1)
      (hall j (List.getElem?_eq_some_iff.mp hj).1) hne hi hj
  · obtain ⟨addr', hbssid, hmay⟩ := hhas b hb
    rw [heq] at hbssid
    cases hbssid
    exact hmay.mld
  · obtain ⟨addr', hbssid, hmay⟩ := hhas b hb
    rw [heq] at hbssid
    cases hbssid
    exact hmay.other

theorem Settled.mono {bss : List Bss} {settled settled' : ℕ → Prop}
    (h : Settled stored phy name list bss settled) (hsub : ∀ i, settled' i → settled i) :
    Settled stored phy name list bss settled' :=
  ⟨fun i b hi => h.listed i b (hsub i hi),
    fun i j b c hi hj => h.distinct i j b c (hsub i hi) (hsub j hj), h.reserved⟩

/-- An address that no settled BSS has may be listed anew. -/
theorem Settled.put {bss : List Bss} {settled : ℕ → Prop} {other : Option String} {value : ℤ}
    (h : Settled stored phy name list bss settled)
    (hnot : ∀ addr, other = some addr → ∀ v, list addr = some v → v < 0) :
    Settled stored phy name (list.put other value) bss settled := by
  refine ⟨fun i b hi hget => ?_, h.distinct, fun addr hres => ?_⟩
  · obtain ⟨addr, v, hbssid, hlist, hpos, hmay⟩ := h.listed i b hi hget
    have hne : other ≠ some addr := fun heq => Int.not_le.mpr (hnot addr heq v hlist) hpos
    exact ⟨addr, v, hbssid, by rw [MacaddrList.put_of_ne value hne, hlist], hpos, hmay⟩
  · rw [MacaddrList.put_apply]
    split
    · exact Option.some_ne_none _
    · exact h.reserved addr hres

theorem Settled.give {bss : List Bss} {settled : ℕ → Prop} {t : ℕ} {b : Bss} {value : ℤ}
    (h : Settled stored phy name list bss settled) (hget : bss[t]? = some b)
    (hnot : ∀ v, list addr = some v → v < 0) (hpos : 0 ≤ value)
    (hmay : MayHave stored phy name b addr) :
    Settled stored phy name (list.put (some addr) value) (bss.set t { b with bssid := some addr })
      fun i => settled i ∨ i = t := by
  have hlt := (List.getElem?_eq_some_iff.mp hget).1
  have hput : Settled stored phy name (list.put (some addr) value) bss settled :=
    h.put fun other heq => by cases heq; exact hnot
  have hself : (bss.set t { b with bssid := some addr })[t]? =
      some { b with bssid := some addr } := List.getElem?_set_self hlt
  have hfree : ∀ i c, settled i → bss[i]? = some c → c.bssid ≠ some addr := by
    intro i c hi hc heq
    obtain ⟨addr', v, hbssid, hlist, hv, -⟩ := h.listed i c hi hc
    rw [heq] at hbssid
    cases hbssid
    exact Int.not_le.mpr (hnot v hlist) hv
  refine ⟨fun i c hi hc => ?_, fun i j c d hi hj hne hc hd => ?_, hput.reserved⟩
  · by_cases heq : i = t
    · subst heq
      rw [hself] at hc
      cases hc
      exact ⟨addr, value, rfl, MacaddrList.put_self .., hpos, ⟨hmay.mld, hmay.other⟩⟩
    · rw [List.getElem?_set_ne (Ne.symm heq)] at hc
      exact hput.listed i c (hi.resolve_right heq) hc
  · by_cases hi' : i = t
    · subst hi'
      rw [hself] at hc
      cases hc
      rw [List.getElem?_set_ne hne] at hd
      exact fun heq => hfree j d (hj.resolve_right (Ne.symm hne)) hd heq.symm
    · rw [List.getElem?_set_ne (Ne.symm hi')] at hc
      by_cases hj' : j = t
      · subst hj'
        rw [hself] at hd
        cases hd
        exact hfree i c (hi.resolve_right hi') hc
      · rw [List.getElem?_set_ne (Ne.symm hj')] at hd
        exact h.distinct i j c d (hi.resolve_right hi') (hj.resolve_right hj') hne hc hd

theorem Settled.add {bss : List Bss} {settled : ℕ → Prop} {t : ℕ} {b : Bss} {value : ℤ}
    (h : Settled stored phy name list bss settled) (hget : bss[t]? = some b)
    (hbssid : b.bssid = some addr) (hlist : list addr = some value) (hpos : 0 ≤ value)
    (hmay : MayHave stored phy name b addr)
    (hfree : ∀ i c, settled i → i ≠ t → bss[i]? = some c → c.bssid ≠ some addr) :
    Settled stored phy name list bss fun i => settled i ∨ i = t := by
  refine ⟨fun i c hi hc => ?_, fun i j c d hi hj hne hc hd => ?_, h.reserved⟩
  · by_cases heq : i = t
    · subst heq
      rw [hget] at hc
      cases hc
      exact ⟨addr, value, hbssid, hlist, hpos, hmay⟩
    · exact h.listed i c (hi.resolve_right heq) hc
  · by_cases hi' : i = t
    · subst hi'
      rw [hget] at hc
      cases hc
      rw [hbssid]
      exact (hfree j d (hj.resolve_right (Ne.symm hne)) (Ne.symm hne) hd).symm
    · by_cases hj' : j = t
      · subst hj'
        rw [hget] at hd
        cases hd
        rw [hbssid]
        exact hfree i c (hi.resolve_right hi') hi' hc
      · exact h.distinct i j c d (hi.resolve_right hi') (hj.resolve_right hj') hne hc hd

/-! ## Searching for an address -/

section Search

variable {generate : ℕ → Option String} {reuse : Option String} {phydev : PhyDev} {bss : Bss}
  {list' : MacaddrList} {idx : ℤ}

/-- The search finds a free address or the one to use again. -/
theorem macaddrSearch_spec {ids : List ℕ} {acc : Option String}
    (hacc : ∀ mac, acc = some mac → list mac = none)
    (h : macaddrSearch generate list reuse ids acc = some addr) :
    reuse = some addr ∨ list addr = none := by
  induction ids generalizing acc with
  | nil => exact .inr (hacc addr h)
  | cons id ids ih =>
    unfold macaddrSearch at h
    split at h
    case h_1 => exact .inr (hacc addr h)
    case h_2 mac _ =>
      split at h
      case isTrue heq =>
        cases h
        exact .inl heq.symm
      case isFalse =>
        split at h
        case isTrue => exact ih hacc h
        case isFalse hfree =>
          rw [not_or, not_not, not_not] at hfree
          split at h
          case isTrue =>
            cases h
            exact .inr hfree.2
          case isFalse =>
            refine ih (fun other heq => ?_) h
            cases heq
            exact hfree.2

/-- What `bss_macaddr_next` gives: a free address, or the reserved address of the device for
a link on the first radio. -/
theorem bssMacaddrNext_spec (h : bssMacaddrNext phydev list bss idx = some (addr, list')) :
    list' = list.put (some addr) idx ∧
      (list addr = none ∨ (phydev.radio.getD 0 = 0 ∧ bss.mldBssid = some addr ∧
        list addr = some (-1))) := by
  obtain ⟨found, hsearch, heq⟩ := Option.map_eq_some_iff.mp h
  cases heq
  refine ⟨rfl, ?_⟩
  have hacc : ∀ mac, (none : Option String) = some mac → list mac = none := fun _ h => nomatch h
  rcases macaddrSearch_spec hacc hsearch with hreuse | hfree
  · unfold bssReuse at hreuse
    split at hreuse
    case isTrue => cases hreuse
    case isFalse hcond =>
      rw [not_or, not_not, not_not, hreuse] at hcond
      exact .inr ⟨hcond.1, hreuse, hcond.2⟩
  · exact .inl hfree

/-- No link that may use the address of its device again has it in another configuration. -/
def ReuseSafe (stored : Stored) (phy name : String) (phydev : PhyDev) (bss : List Bss) : Prop :=
  phydev.radio.getD 0 = 0 → ∀ b ∈ bss, ∀ addr, b.mldBssid = some addr →
    ¬ IsOtherAddr stored phy name addr

/-- The address that `bss_macaddr_next` gives settles the BSS. -/
theorem Settled.next {bss : List Bss} {settled : ℕ → Prop} {t : ℕ} {b : Bss}
    (h : Settled stored phy name list bss settled) (hget : bss[t]? = some b) (hpos : 0 ≤ idx)
    (hsafe : ReuseSafe stored phy name phydev bss)
    (hnext : bssMacaddrNext phydev list b idx = some (addr, list')) :
    Settled stored phy name list' (bss.set t { b with bssid := some addr })
      fun i => settled i ∨ i = t := by
  obtain ⟨rfl, hfree⟩ := bssMacaddrNext_spec hnext
  refine h.give hget (fun v hv => ?_) hpos ?_
  · rcases hfree with hnone | ⟨-, -, hres⟩
    · rw [hnone] at hv
      cases hv
    · rw [hres] at hv
      cases hv
      decide
  · rcases hfree with hnone | ⟨hradio, hmld, -⟩
    · exact ⟨fun hmld => absurd hnone (h.reserved addr (.inl hmld)),
        fun hother => h.reserved addr (.inr hother) hnone⟩
    · exact ⟨fun _ => hmld, hsafe hradio b (List.mem_of_getElem? hget) addr hmld⟩

end Search

/-! ## Free addresses -/

/-- The addresses that the search goes through, up to the first number with none. -/
def generated (generate : ℕ → Option String) : List ℕ → List String
  | [] => []
  | id :: ids =>
    match generate id with
    | none => []
    | some mac => mac :: generated generate ids

def freeAddrs (phydev : PhyDev) (list : MacaddrList) : Finset String :=
  (generated phydev.macaddrGenerate (List.range 32)).toFinset.filter fun mac => list mac = none

section Free

variable {phydev : PhyDev} {bss : Bss} {idx : ℤ}

theorem macaddrSearch_of_some {generate : ℕ → Option String} {reuse : Option String}
    (ids : List ℕ) (acc : String) :
    ∃ mac, macaddrSearch generate list reuse ids (some acc) = some mac := by
  induction ids generalizing acc with
  | nil => exact ⟨acc, rfl⟩
  | cons id ids ih =>
    unfold macaddrSearch
    split
    case h_1 => exact ⟨acc, rfl⟩
    case h_2 mac _ =>
      split
      case isTrue => exact ⟨mac, rfl⟩
      case isFalse =>
        rw [if_pos (Or.inl (Option.some_ne_none acc))]
        exact ih acc

/-- The search does not fail where one of the addresses is free. -/
theorem macaddrSearch_of_free {generate : ℕ → Option String} {reuse : Option String}
    {ids : List ℕ} (h : ∃ mac ∈ generated generate ids, list mac = none) :
    ∃ mac, macaddrSearch generate list reuse ids none = some mac := by
  induction ids with
  | nil =>
    obtain ⟨mac, hmac, -⟩ := h
    cases hmac
  | cons id ids ih =>
    unfold macaddrSearch
    unfold generated at h
    cases hid : generate id with
    | none =>
      rw [hid] at h
      obtain ⟨mac, hmac, -⟩ := h
      cases hmac
    | some mac =>
      rw [hid] at h
      dsimp only
      split
      case isTrue => exact ⟨mac, rfl⟩
      case isFalse =>
        split
        case isTrue htaken =>
          apply ih
          obtain ⟨other, hother, hfree⟩ := h
          rcases List.mem_cons.mp hother with rfl | hother
          · exact absurd hfree (htaken.resolve_left (fun hne => hne rfl))
          · exact ⟨other, hother, hfree⟩
        case isFalse =>
          split
          case isTrue => exact ⟨mac, rfl⟩
          case isFalse => exact macaddrSearch_of_some ids mac

theorem bssMacaddrNext_of_free (h : (freeAddrs phydev list).Nonempty) :
    ∃ addr list', bssMacaddrNext phydev list bss idx = some (addr, list') := by
  obtain ⟨mac, hmac⟩ := h
  rw [freeAddrs, Finset.mem_filter, List.mem_toFinset] at hmac
  have hfound : ∃ addr, macaddrSearch phydev.macaddrGenerate list (bssReuse phydev list bss)
      (List.range 32) none = some addr := macaddrSearch_of_free ⟨mac, hmac⟩
  obtain ⟨addr, haddr⟩ := hfound
  exact ⟨addr, list.put (some addr) idx, by rw [bssMacaddrNext, PhyDev.macaddrNext, haddr]; rfl⟩

/-- Listing one address takes at most one free address. -/
theorem card_freeAddrs_le (phydev : PhyDev) (list : MacaddrList) (addr : String) (value : ℤ) :
    (freeAddrs phydev list).card ≤ (freeAddrs phydev (list.put (some addr) value)).card + 1 := by
  have herase : (freeAddrs phydev list).erase addr ⊆
      freeAddrs phydev (list.put (some addr) value) := by
    intro mac hmac
    rw [Finset.mem_erase, freeAddrs, Finset.mem_filter] at hmac
    rw [freeAddrs, Finset.mem_filter]
    refine ⟨hmac.2.1, ?_⟩
    rw [MacaddrList.put_of_ne value (fun heq => hmac.1 (Option.some.inj heq).symm)]
    exact hmac.2.2
  have hcard := Nat.le_trans Finset.pred_card_le_card_erase (Finset.card_le_card herase)
  exact Nat.sub_le_iff_le_add.mp hcard

end Free

end OpenWrt.Hostapd
