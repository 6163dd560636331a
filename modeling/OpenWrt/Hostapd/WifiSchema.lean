/-
# Validating wireless options

The options of a radio are checked against a schema. An alias hands its value to the option it
stands for, a default fills in what is not given, and every value is converted and checked by the
type of its option. A bound counts only where it is truthy, and a comparison with what is no number
fails, so a bound of zero and a text that is no number are both let through.
-/

import Mathlib.Algebra.Ring.Int.Defs
import Mathlib.Data.List.AList
import Mathlib.Order.Lattice
import OpenWrt.Lib.Fault

namespace OpenWrt.Hostapd.WifiSchema

open Lib

/-- A value of an option. What is not given has no value, and a number that is not a number is
`none`. -/
inductive Value (N τ : Type) where
  | text (s : τ)
  | number (y : Option N)
  | bool (b : Bool)
  | array (vs : List (Value N τ))

/-- The type of a property with its constraints. The default of an alias is the option it stands
for, and the elements of an array are `untyped` where the schema gives them no type. -/
inductive Entry (N τ κ : Type) where
  | aliasOf (target : Option κ)
  | number (minimum maximum : Option N) (enum : Option (List N))
  | boolean
  | string (enum : Option (List τ))
  | array (items : Entry N τ κ)
  | untyped

structure Property (N τ κ : Type) where
  type : Entry N τ κ
  default : Option (Value N τ)

/-- The messages `validate` aborts with. -/
inductive Message (N τ κ : Type) where
  | noDefault (key : κ)
  | lower (key : κ) (value : Option N)
  | larger (key : κ) (value : Option N)
  | notOneOf (key : κ) (value : Value N τ)

abbrev Dict (N τ κ : Type) := AList fun _ : κ => Value N τ

section Model

variable {N τ κ : Type} [DecidableEq κ]

/-- What an alias stands for, where the key is one. -/
def aliasTarget (properties : AList fun _ : κ => Property N τ κ) (key : κ) : Option (Option κ) :=
  match (properties.lookup key).map Property.type with
  | some (.aliasOf target) => some target
  | _ => none

/-- In the schema files no alias stands for another one. -/
structure Schema (N τ κ : Type) [DecidableEq κ] where
  properties : AList fun _ : κ => Property N τ κ
  canonical : ∀ a t, aliasTarget properties a = some (some t) → aliasTarget properties t = none

namespace Value

def elements : Value N τ → List (Value N τ)
  | .array vs => vs
  | v => [v]

/-- `value in schema.enum` for texts. -/
def isIn [DecidableEq τ] (enum : List τ) : Value N τ → Bool
  | .text s => s ∈ enum
  | _ => false

end Value

/-- `plus` is the unary plus of the interpreter. -/
def validateValue [LinearOrder N] [Zero N] [DecidableEq τ] (plus : Value N τ → Option N) (key : κ) :
    Entry N τ κ → Value N τ → Except (Message N τ κ) (Value N τ)
  | .number minimum maximum enum, value =>
    let y := plus value
    if minimum.any fun m => m ≠ 0 ∧ y.any (· < m) then .error (.lower key y)
    else if maximum.any fun m => m ≠ 0 ∧ y.any (m < ·) then .error (.larger key y)
    else if enum.any fun e => !y.any (· ∈ e) then .error (.notOneOf key (.number y))
    else .ok (.number y)
  | .boolean, value => .ok (.bool ((plus value).any (· ≠ 0)))
  | .string enum, value =>
    if enum.any fun e => !value.isIn e then .error (.notOneOf key value) else .ok value
  | .array items, value => .array <$> value.elements.mapM (validateValue plus key items)
  | .aliasOf _, value => .ok value
  | .untyped, value => .ok value

/-- One round of the loop that converts the aliases. -/
def rename (s : Schema N τ κ) (dict : Dict N τ κ) (a : κ) :
    Except (Message N τ κ) (Dict N τ κ) :=
  match aliasTarget s.properties a, dict.lookup a with
  | some none, _ => .error (.noDefault a)
  | some (some t), some v => .ok ((dict.insert t v).erase a)
  | _, _ => .ok dict

/-- One round of the loop that sets the defaults. -/
def setDefault (s : Schema N τ κ) (dict : Dict N τ κ) (key : κ) : Dict N τ κ :=
  if (aliasTarget s.properties key).isSome ∨ (dict.lookup key).isSome then dict
  else match (s.properties.lookup key).bind Property.default with
    | some v => dict.insert key v
    | none => dict

/-- One round of the loop that validates the values. -/
def check [LinearOrder N] [Zero N] [DecidableEq τ] (plus : Value N τ → Option N) (s : Schema N τ κ)
    (dict : Dict N τ κ) (key : κ) : Except (Message N τ κ) (Dict N τ κ) :=
  match s.properties.lookup key, dict.lookup key with
  | some p, some v => (dict.insert key ·) <$> validateValue plus key p.type v
  | _, _ => .ok dict

/-- A loop visits the keys its dictionary has at the start: the options that the first loop adds
are no aliases, so that a visit to them does nothing. -/
def validate [LinearOrder N] [Zero N] [DecidableEq τ] (plus : Value N τ → Option N)
    (s : Schema N τ κ) (dict : Dict N τ κ) : Except (Message N τ κ) (Dict N τ κ) := do
  let renamed ← dict.keys.foldlM (rename s) dict
  let staged := s.properties.keys.foldl (setDefault s) renamed
  staged.keys.foldlM (check plus s) staged

/-! ## What a validated dictionary is -/

/-- A value keeps the constraints of its type. -/
def Conforms [LinearOrder N] : Entry N τ κ → Value N τ → Prop
  | .number minimum maximum enum, value => ∃ y, value = .number (some y) ∧
      (∀ m ∈ minimum, m ≤ y) ∧ (∀ m ∈ maximum, y ≤ m) ∧ ∀ e ∈ enum, y ∈ e
  | .string enum, value => ∀ e ∈ enum, ∃ s, value = .text s ∧ s ∈ e
  | .array items, value => ∃ vs, value = .array vs ∧ ∀ v ∈ vs, Conforms items v
  | _, _ => True

/-- `result` is what `validate` is meant to make of `dict`. -/
structure Right [LinearOrder N] [Zero N] [DecidableEq τ] (plus : Value N τ → Option N)
    (s : Schema N τ κ) (dict result : Dict N τ κ) : Prop where
  aliases : ∀ key, (aliasTarget s.properties key).isSome → result.lookup key = none
  given : ∀ key p v, aliasTarget s.properties key = none → s.properties.lookup key = some p →
    dict.lookup key = some v → ∃ u w, (u = v ∨ ∃ a, aliasTarget s.properties a = some (some key) ∧
      dict.lookup a = some u) ∧ validateValue plus key p.type u = .ok w ∧
      result.lookup key = some w
  defaults : ∀ key p, aliasTarget s.properties key = none → s.properties.lookup key = some p →
    p.default.isSome → (result.lookup key).isSome
  conforms : ∀ key p w, s.properties.lookup key = some p → result.lookup key = some w →
    Conforms p.type w

/-- The aliases of an option, in the order of their keys. -/
def aliasesOf (s : Schema N τ κ) (keys : List κ) (key : κ) : List κ :=
  keys.filter fun a => aliasTarget s.properties a = some (some key)

/-- The value an option is given: that of its last alias, else its own, else its default. -/
def given (s : Schema N τ κ) (dict : Dict N τ κ) (key : κ) : Option (Value N τ) :=
  match (aliasesOf s dict.keys key).getLast? with
  | some a => dict.lookup a
  | none => (dict.lookup key).or ((s.properties.lookup key).bind Property.default)

/-- A number, which is not on the wrong side of a bound of zero. -/
def Sound [LinearOrder N] [Zero N] (plus : Value N τ → Option N) :
    Entry N τ κ → Value N τ → Prop
  | .number minimum maximum _, value => ∃ y, plus value = some y ∧
      (minimum = some 0 → 0 ≤ y) ∧ (maximum = some 0 → y ≤ 0)
  | .array items, value => ∀ v ∈ value.elements, Sound plus items v
  | _, _ => True

/-- The values that make `validate` abort. -/
def Rejected [LinearOrder N] [Zero N] [DecidableEq τ] (plus : Value N τ → Option N) :
    Entry N τ κ → Value N τ → Prop
  | .number minimum maximum enum, value =>
      (∃ m ∈ minimum, m ≠ 0 ∧ ∃ y ∈ plus value, y < m) ∨
      (∃ m ∈ maximum, m ≠ 0 ∧ ∃ y ∈ plus value, m < y) ∨ ∃ e ∈ enum, ∀ y ∈ plus value, y ∉ e
  | .string enum, value => ∃ e ∈ enum, value.isIn e = false
  | .array items, value => ∃ v ∈ value.elements, Rejected plus items v
  | _, _ => False

/-- A dictionary `validate` aborts on. -/
def Refused [LinearOrder N] [Zero N] [DecidableEq τ] (plus : Value N τ → Option N)
    (s : Schema N τ κ) (dict : Dict N τ κ) : Prop :=
  (∃ a ∈ dict.keys, aliasTarget s.properties a = some none) ∨
  ∃ key p v, aliasTarget s.properties key = none ∧ s.properties.lookup key = some p ∧
    given s dict key = some v ∧ Rejected plus p.type v

end Model

section Validation

variable {N τ κ : Type} [LinearOrder N] [Zero N] [DecidableEq τ]

/-! ## One value -/

theorem returnsIff_mapM {α β ε : Type} {f : α → Except ε β} {c p : α → Prop} {q : β → Prop}
    (h : ∀ a, ReturnsIff (c a) (fun b => q b ↔ p a) (f a)) (l : List α) :
    ReturnsIff (∀ a ∈ l, c a) (fun l' => (∀ b ∈ l', q b) ↔ ∀ a ∈ l, p a) (l.mapM f) := by
  induction l with
  | nil => exact ⟨by simp, by simp⟩
  | cons a l ih =>
    rw [List.mapM_cons]
    refine ReturnsIff.mono (returnsIff_bind_and (h a) fun b hb => ?_)
      List.forall_mem_cons.symm fun _ h => h
    exact returnsIff_bind_avoids ih fun bs hbs => avoids_pure (by simp [hb, hbs])

/-- What is made of an accepted value conforms exactly where the value is sound. -/
theorem validateValue_spec (plus : Value N τ → Option N) (key : κ) (e : Entry N τ κ) (v : Value N τ) :
    ReturnsIff (¬Rejected plus e v) (fun w => Conforms e w ↔ Sound plus e v)
      (validateValue plus key e v) := by
  induction e generalizing v with
  | aliasOf target => exact ⟨id, Iff.rfl⟩
  | boolean => exact ⟨id, Iff.rfl⟩
  | untyped => exact ⟨id, Iff.rfl⟩
  | string enum =>
    simp only [validateValue]
    split_ifs with henum
    · exact not_not_intro (by simpa [Rejected, Option.any_eq_true] using henum)
    · have hin : ¬Rejected plus (.string enum : Entry N τ κ) v := by
        simpa [Rejected, Option.any_eq_true] using henum
      refine ⟨hin, iff_of_true (fun l hl => ?_) trivial⟩
      cases v <;> simp_all [Rejected, Value.isIn]
  | number minimum maximum enum =>
    simp only [validateValue]
    split_ifs with hlow hhigh henum
    · exact not_not_intro (.inl (by simpa [Option.any_eq_true] using hlow))
    · exact not_not_intro (.inr (.inl (by simpa [Option.any_eq_true] using hhigh)))
    · exact not_not_intro (.inr (.inr (by
        simpa [Option.any_eq_true, Option.any_eq_false] using henum)))
    · refine ⟨?_, ?_⟩
      · rintro (h | h | h)
        · exact hlow (by simpa [Option.any_eq_true] using h)
        · exact hhigh (by simpa [Option.any_eq_true] using h)
        · exact henum (by simpa [Option.any_eq_true, Option.any_eq_false] using h)
      · cases hy : plus v with
        | none => simp [Conforms, Sound, hy]
        | some y =>
          simp only [Conforms, Sound, hy, Value.number.injEq, Option.some.injEq]
          constructor
          · rintro ⟨z, rfl, hmin, hmax, -⟩
            exact ⟨y, rfl, fun hm => hmin 0 hm, fun hm => hmax 0 hm⟩
          · rintro ⟨z, rfl, hmin, hmax⟩
            refine ⟨y, rfl, fun m hm => ?_, fun m hm => ?_, fun l hl => by simp_all⟩
            · rcases eq_or_ne m 0 with rfl | hne
              · exact hmin hm
              · simp_all
            · rcases eq_or_ne m 0 with rfl | hne
              · exact hmax hm
              · simp_all
  | array items ih =>
    have hmap := returnsIff_mapM ih v.elements
    refine (hmap.map fun vs hvs => ?_).mono (by simp [Rejected]) fun _ h => h
    simpa [Conforms, Sound] using hvs

end Validation

section Loops

variable {N τ κ : Type} [DecidableEq κ] {s : Schema N τ κ}

/-! ## Aliases and defaults -/

theorem lookup_renamed (dict : Dict N τ κ) (a t : κ) (v : Value N τ) (key : κ) :
    ((dict.insert t v).erase a).lookup key =
      if key = a then none else if key = t then some v else dict.lookup key := by
  split_ifs with ha ht
  · rw [ha, AList.lookup_erase]
  · rw [AList.lookup_erase_ne ha, ht, AList.lookup_insert]
  · rw [AList.lookup_erase_ne ha, AList.lookup_insert_ne ht]

/-- Every alias is gone, and an option has the value of the last alias that stands for it. -/
theorem renames_spec {ks : List κ} (hks : ks.Nodup) {c : Dict N τ κ}
    (hin : ∀ a ∈ ks, (c.lookup a).isSome) :
    ReturnsIff (∀ a ∈ ks, aliasTarget s.properties a ≠ some none) (fun r => ∀ key, r.lookup key =
      if (aliasTarget s.properties key).isSome then if key ∈ ks then none else c.lookup key
      else match (aliasesOf s ks key).getLast? with
        | some a => c.lookup a
        | none => c.lookup key) (ks.foldlM (rename s) c) := by
  induction ks generalizing c with
  | nil => exact ⟨by simp, by simp [aliasesOf]⟩
  | cons a ks ih =>
    obtain ⟨hnot, hks⟩ := List.nodup_cons.mp hks
    obtain ⟨⟨v, hv⟩, hin⟩ := (List.forall_mem_cons.mp hin).imp_left Option.isSome_iff_exists.mp
    rw [List.foldlM_cons, rename, hv]
    rcases ht : aliasTarget s.properties a with _ | _ | t
    · refine (ih hks hin).mono (by simp [ht]) fun r hr key => ?_
      have hof : aliasesOf s (a :: ks) key = aliasesOf s ks key := by simp [aliasesOf, ht]
      rw [hr, hof]
      rcases eq_or_ne key a with rfl | hne
      · simp [ht]
      · simp [hne]
    · exact fun h => h a List.mem_cons_self ht
    · have htt := s.canonical a t ht
      refine (ih hks fun b hb => ?_).mono (by simp [ht]) fun r hr key => ?_
      · rw [lookup_renamed, if_neg (ne_of_mem_of_not_mem hb hnot)]
        split_ifs
        · rfl
        · exact hin b hb
      rw [hr]
      by_cases hkey : (aliasTarget s.properties key).isSome
      · have hkt : key ≠ t := by
          rintro rfl
          simp [htt] at hkey
        simp only [hkey, if_true, lookup_renamed, if_neg hkt, List.mem_cons]
        by_cases ha : key = a <;> by_cases hin : key ∈ ks <;> simp_all
      have hka : key ≠ a := by
        rintro rfl
        simp [ht] at hkey
      have hof : aliasesOf s (a :: ks) key =
          if t = key then a :: aliasesOf s ks key else aliasesOf s ks key := by
        simp [aliasesOf, List.filter_cons, ht]
      -- an alias that is still to come keeps its value
      have hlater : ∀ b ∈ aliasesOf s ks key,
          ((c.insert t v).erase a).lookup b = c.lookup b := by
        intro b hb
        obtain ⟨hb, hbk⟩ := List.mem_filter.mp hb
        rw [lookup_renamed, if_neg (ne_of_mem_of_not_mem hb hnot), if_neg]
        rintro rfl
        simp [htt] at hbk
      rw [if_neg hkey, if_neg hkey, hof]
      cases hlast : (aliasesOf s ks key).getLast? with
      | some b =>
        have hlb := hlater b (List.mem_of_getLast? hlast)
        split_ifs <;> simp [List.getLast?_cons, hlast, hlb]
      | none =>
        split_ifs with hk
        · simp [List.getLast?_cons, hlast, hka, hk, hv]
        · simp [hlast, hka, Ne.symm hk]

theorem setDefault_lookup (c : Dict N τ κ) (k key : κ) :
    (setDefault s c k).lookup key = if aliasTarget s.properties key = none ∧ key = k then
      (c.lookup key).or ((s.properties.lookup key).bind Property.default) else c.lookup key := by
  rcases eq_or_ne key k with rfl | hne
  · cases ht : aliasTarget s.properties key <;> cases hc : c.lookup key <;>
      cases hd : (s.properties.lookup key).bind Property.default <;> simp [setDefault, ht, hc, hd]
  · rw [if_neg (by simp [hne]), setDefault]
    split_ifs
    · rfl
    · split
      · rw [AList.lookup_insert_ne hne]
      · rfl

theorem setDefaults_lookup (ks : List κ) (c : Dict N τ κ) (key : κ) :
    (ks.foldl (setDefault s) c).lookup key = if aliasTarget s.properties key = none ∧ key ∈ ks then
      (c.lookup key).or ((s.properties.lookup key).bind Property.default) else c.lookup key := by
  induction ks generalizing c with
  | nil => simp
  | cons k ks ih =>
    rw [List.foldl_cons, ih, setDefault_lookup]
    by_cases ht : aliasTarget s.properties key = none
    · rcases eq_or_ne key k with rfl | hne
      · by_cases hks : key ∈ ks <;> simp [ht, hks, Option.or_assoc]
      · simp [ht, hne]
    · simp [ht]

/-- What the values are checked on: no alias, and every other option as it is given. -/
theorem staged_lookup {dict r : Dict N τ κ} {key : κ} (hr : r.lookup key =
      if (aliasTarget s.properties key).isSome then
        if key ∈ dict.keys then none else dict.lookup key
      else match (aliasesOf s dict.keys key).getLast? with
        | some a => dict.lookup a
        | none => dict.lookup key) :
    (s.properties.keys.foldl (setDefault s) r).lookup key =
      if (aliasTarget s.properties key).isSome then none else given s dict key := by
  rw [setDefaults_lookup, hr]
  by_cases hkey : (aliasTarget s.properties key).isSome
  · have hne : aliasTarget s.properties key ≠ none := Option.isSome_iff_ne_none.mp hkey
    simp only [hkey, hne, if_true, false_and, if_false]
    split_ifs with hk
    · rfl
    · exact AList.lookup_eq_none.mpr hk
  · have hnone : aliasTarget s.properties key = none := by simpa using hkey
    have hor : ∀ o : Option (Value N τ), (if key ∈ s.properties.keys then
        o.or ((s.properties.lookup key).bind Property.default) else o) =
        o.or ((s.properties.lookup key).bind Property.default) := by
      intro o
      split_ifs with hk
      · rfl
      · rw [AList.lookup_eq_none.mpr hk, Option.bind_none, Option.or_none]
    simp only [hnone, Option.isSome_none, Bool.false_eq_true, if_false, true_and, hor, given]
    cases hlast : (aliasesOf s dict.keys key).getLast? with
    | none => rfl
    | some a =>
      have ha := (List.mem_filter.mp (List.mem_of_getLast? hlast)).1
      obtain ⟨v, hv⟩ := Option.isSome_iff_exists.mp (AList.lookup_isSome.mpr ha)
      simp [hv]

theorem given_of_lookup {dict : Dict N τ κ} {key : κ} {v : Value N τ}
    (h : dict.lookup key = some v) : ∃ u, given s dict key = some u ∧ (u = v ∨
      ∃ a, aliasTarget s.properties a = some (some key) ∧ dict.lookup a = some u) := by
  cases hlast : (aliasesOf s dict.keys key).getLast? with
  | none => exact ⟨v, by simp [given, hlast, h], .inl rfl⟩
  | some a =>
    obtain ⟨ha, hak⟩ := List.mem_filter.mp (List.mem_of_getLast? hlast)
    obtain ⟨u, hu⟩ := Option.isSome_iff_exists.mp (AList.lookup_isSome.mpr ha)
    exact ⟨u, by simp [given, hlast, hu], .inr ⟨a, by simpa using hak, hu⟩⟩

theorem given_of_default (dict : Dict N τ κ) {key : κ} {p : Property N τ κ}
    (hp : s.properties.lookup key = some p) (hd : p.default.isSome) :
    ∃ u, given s dict key = some u := by
  rw [← Option.isSome_iff_exists, given]
  split
  · next a hlast =>
    exact AList.lookup_isSome.mpr (List.mem_filter.mp (List.mem_of_getLast? hlast)).1
  · simp [hp, hd]

end Loops

section Checks

variable {N τ κ : Type} [DecidableEq κ] [LinearOrder N] [Zero N] [DecidableEq τ]
  {plus : Value N τ → Option N} {s : Schema N τ κ}

/-! ## The whole dictionary -/

def Accepts (plus : Value N τ → Option N) (s : Schema N τ κ) (key : κ)
    (old : Option (Value N τ)) : Prop :=
  ∀ p v, s.properties.lookup key = some p → old = some v → ¬Rejected plus p.type v

/-- What `check` makes of the value of an option. -/
def Put (plus : Value N τ → Option N) (s : Schema N τ κ) (key : κ)
    (old new : Option (Value N τ)) : Prop :=
  (old = none → new = none) ∧ ∀ p v, s.properties.lookup key = some p → old = some v →
    ∃ w, validateValue plus key p.type v = .ok w ∧ new = some w

theorem check_spec (c : Dict N τ κ) (key : κ) :
    ReturnsIff (Accepts plus s key (c.lookup key)) (fun c' =>
      (∀ other, other ≠ key → c'.lookup other = c.lookup other) ∧
        Put plus s key (c.lookup key) (c'.lookup key)) (check plus s c key) := by
  unfold check
  split
  · next p v hp hv =>
    have hcond : ¬Rejected plus p.type v ↔ Accepts plus s key (c.lookup key) := by
      simp [Accepts, hp, hv]
    cases hw : validateValue plus key p.type v with
    | error m =>
      have hspec := validateValue_spec plus key p.type v
      rw [hw] at hspec
      exact mt hcond.mpr hspec
    | ok w =>
      refine ⟨hcond.mp ((validateValue_spec plus key p.type v).of_ok hw).1,
        fun other hne => AList.lookup_insert_ne hne, by simp [hv], fun p' v' hp' hv' => ?_⟩
      obtain rfl : p = p' := by simpa [hp] using hp'
      obtain rfl : v = v' := by simpa [hv] using hv'
      exact ⟨w, hw, AList.lookup_insert c⟩
  · next hno => exact ⟨fun p v hp hv => absurd hv (hno p v hp), fun _ _ => rfl, id,
      fun p v hp hv => absurd hv (hno p v hp)⟩

/-- `validate` aborts on the refused dictionaries and on no other. -/
theorem validate_spec (plus : Value N τ → Option N) (s : Schema N τ κ) (dict : Dict N τ κ) :
    ReturnsIff (¬Refused plus s dict) (fun r => ∀ key,
      Put plus s key (if (aliasTarget s.properties key).isSome then none else given s dict key)
        (r.lookup key)) (validate plus s dict) := by
  have hin : ∀ a ∈ dict.keys, (dict.lookup a).isSome := fun a ha => AList.lookup_isSome.mpr ha
  refine ReturnsIff.mono (c := (∀ a ∈ dict.keys, aliasTarget s.properties a ≠ some none) ∧
    ∀ key, Accepts plus s key
      (if (aliasTarget s.properties key).isSome then none else given s dict key))
    (returnsIff_bind_and (renames_spec dict.keys_nodup hin) fun r hr => ?_) ?_ fun _ h => h
  · have hstaged := fun key => staged_lookup (hr key)
    refine (returnsIff_foldlM_nodup (fun c key => c.lookup key) (Accepts plus s) (Put plus s)
      check_spec (AList.keys_nodup _)).mono ⟨fun h key p v hp hv => ?_, fun h key _ => hstaged key ▸ h key⟩
      fun r' hr' key => ?_
    · rw [← hstaged] at hv
      exact h key (AList.lookup_isSome.mp (by rw [hv]; rfl)) p v hp hv
    · by_cases hkey : key ∈ (s.properties.keys.foldl (setDefault s) r).keys
      · exact hstaged key ▸ hr'.2 key hkey
      · have hnone := (hstaged key).symm.trans (AList.lookup_eq_none.mpr hkey)
        rw [hr'.1 key hkey, hstaged, hnone]
        exact ⟨id, by simp⟩
  · simp only [Refused, not_or, not_exists, not_and, Accepts]
    refine and_congr Iff.rfl ⟨fun h key p v ht hp hg => h key p v hp (by simp [ht, hg]),
      fun h key p v hp hg => ?_⟩
    split_ifs at hg with ht
    exact h key p v (by simpa using ht) hp hg

/-- A dictionary that is not refused comes out right exactly where every number in it is a number,
on the right side of a bound of zero. -/
theorem options_right_iff (plus : Value N τ → Option N) (s : Schema N τ κ) (dict : Dict N τ κ) :
    (∀ result, validate plus s dict = .ok result → Right plus s dict result) ↔
      Refused plus s dict ∨ ∀ key p v, aliasTarget s.properties key = none →
        s.properties.lookup key = some p → given s dict key = some v → Sound plus p.type v := by
  have hspec := validate_spec plus s dict
  have hput : ∀ {r}, validate plus s dict = .ok r → ∀ {key} p v,
      aliasTarget s.properties key = none → s.properties.lookup key = some p →
      given s dict key = some v →
      ∃ w, validateValue plus key p.type v = .ok w ∧ r.lookup key = some w := by
    intro r hr key p v ht hp hg
    exact ((hspec.of_ok hr).2 key).2 p v hp (by simp [ht, hg])
  constructor
  · intro hright
    refine or_iff_not_imp_left.mpr fun hno key p v ht hp hg => ?_
    obtain ⟨r, hr⟩ := hspec.exists_ok_iff.mpr hno
    obtain ⟨w, hw, hrw⟩ := hput hr p v ht hp hg
    exact ((validateValue_spec plus key p.type v).of_ok hw).2.mp ((hright r hr).conforms key p w hp hrw)
  · rintro (href | hsound) r hr
    · exact absurd href (hspec.of_ok hr).1
    have hnone : ∀ key, (if (aliasTarget s.properties key).isSome then none
        else given s dict key) = none → r.lookup key = none :=
      fun key => ((hspec.of_ok hr).2 key).1
    refine ⟨fun key ht => hnone key (by simp [ht]), fun key p v ht hp hv => ?_,
      fun key p ht hp hd => ?_, fun key p w hp hw => ?_⟩
    · obtain ⟨u, hu, hfrom⟩ := given_of_lookup (s := s) hv
      obtain ⟨w, hw, hrw⟩ := hput hr p u ht hp hu
      exact ⟨u, w, hfrom, hw, hrw⟩
    · obtain ⟨u, hu⟩ := given_of_default dict hp hd
      obtain ⟨w, -, hrw⟩ := hput hr p u ht hp hu
      simp [hrw]
    · cases ht : aliasTarget s.properties key with
      | some t => simp [hnone key (by simp [ht])] at hw
      | none =>
        cases hg : given s dict key with
        | none => simp [hnone key (by simp [ht, hg])] at hw
        | some v =>
          obtain ⟨w', hw', hrw⟩ := hput hr p v ht hp hg
          obtain rfl : w' = w := by simpa [hrw] using hw
          exact ((validateValue_spec plus key p.type v).of_ok hw').2.mpr (hsound key p v ht hp hg)

end Checks

/-- The unary plus on what the example holds. -/
def plusText : Value ℤ String → Option ℤ
  | .text s => if s = "-5" then some (-5) else none
  | .number y => y
  | _ => none

/-- An option that is to be at least zero. -/
def atLeastZero : Schema ℤ String String where
  properties := AList.singleton "cell_density" ⟨.number (some 0) (some 3) none, none⟩
  canonical := by
    intro a t _
    rcases eq_or_ne "cell_density" t with rfl | hne
    · rfl
    · rw [aliasTarget, AList.lookup_eq_none.mpr]
      · rfl
      · rw [AList.mem_keys, AList.keys_singleton]
        simpa using hne.symm

/-- A negative number comes through its bound of zero. -/
theorem negative_lets_through : ¬∀ result : Dict ℤ String String,
    validate plusText atLeastZero (AList.singleton "cell_density" (.text "-5")) = .ok result →
      Right plusText atLeastZero (AList.singleton "cell_density" (.text "-5")) result := by
  intro h
  obtain ⟨y, hy, hmin, -⟩ := (h (AList.singleton "cell_density" (.number (some (-5)))) rfl).conforms
    "cell_density" ⟨.number (some 0) (some 3) none, none⟩ (.number (some (-5))) rfl rfl
  obtain rfl : -5 = y := by simpa using hy
  exact absurd (hmin 0 rfl) (by decide)

end OpenWrt.Hostapd.WifiSchema
