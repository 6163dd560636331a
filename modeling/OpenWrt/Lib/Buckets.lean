/-
# Hash tables with chained buckets

A table has a list of entries in each bucket, and a key belongs in the bucket that its hash
names. Setting a key replaces its entry in place, or puts a new entry in front of the
bucket. What a table holds is read off the lookups, and a table whose entries are all
written out, bucket by bucket, and set again in that order holds the same.

Entries are the pairs of `Mathlib.Data.List.Sigma`, with values of one type.
-/

import Mathlib.Data.List.Sigma
import Mathlib.Data.List.FinRange

namespace OpenWrt.Lib

universe uk uv

/-- Keys with their values. -/
abbrev Entries (K : Type uk) (V : Type uv) := List (Σ _ : K, V)

namespace Entries

variable {K : Type uk} {V : Type uv} [DecidableEq K] {l : Entries K V} {k k' : K} {v : V}

/-- Replace the entry of a key in place, or add one in front. -/
def put (k : K) (v : V) (l : Entries K V) : Entries K V :=
  if (l.dlookup k).isSome then l.kreplace k v else ⟨k, v⟩ :: l

theorem dlookup_cons (a : K) (b : V) :
    List.dlookup k' ((⟨a, b⟩ : Σ _ : K, V) :: l) = if k' = a then some b else l.dlookup k' := by
  split
  case isTrue h =>
    subst h
    exact List.dlookup_cons_eq ..
  case isFalse h => exact List.dlookup_cons_ne l ⟨a, b⟩ h

theorem dlookup_kreplace (hk : k ∈ l.keys) :
    (l.kreplace k v).dlookup k' = if k' = k then some v else l.dlookup k' := by
  induction l with
  | nil => simp at hk
  | cons e l ih =>
    obtain ⟨a, b⟩ := e
    by_cases ha : k = a
    · subst ha
      have hreplace : List.kreplace k v (⟨k, b⟩ :: l) = ⟨k, v⟩ :: l :=
        List.lookmap_cons_some _ l (if_pos rfl)
      rw [hreplace, dlookup_cons, dlookup_cons]
      split <;> rfl
    · have hreplace : List.kreplace k v (⟨a, b⟩ :: l) = ⟨a, b⟩ :: l.kreplace k v :=
        List.lookmap_cons_none _ l (if_neg ha)
      have hmem : k ∈ l.keys := by simpa [ha] using hk
      rw [hreplace, dlookup_cons, dlookup_cons, ih hmem]
      by_cases hk' : k' = a
      · subst hk'
        rw [if_pos rfl, if_neg (Ne.symm ha), if_pos rfl]
      · rw [if_neg hk', if_neg hk']

theorem dlookup_put : (l.put k v).dlookup k' = if k' = k then some v else l.dlookup k' := by
  unfold put
  split
  case isTrue hsome => exact dlookup_kreplace (List.dlookup_isSome.mp hsome)
  case isFalse => exact dlookup_cons k v

theorem keys_put : k' ∈ (l.put k v).keys ↔ k' = k ∨ k' ∈ l.keys := by
  rw [← List.dlookup_isSome, ← List.dlookup_isSome, dlookup_put]
  split <;> simp_all

theorem nodupKeys_put (hl : l.NodupKeys) : (l.put k v).NodupKeys := by
  unfold put
  split
  case isTrue => exact (List.kreplace_nodupKeys k v).mpr hl
  case isFalse hnone =>
    rw [List.dlookup_isSome] at hnone
    exact List.nodupKeys_cons.mpr ⟨hnone, hl⟩

end Entries

abbrev Buckets (n : ℕ) (K : Type uk) (V : Type uv) := Fin n → Entries K V

namespace Buckets

variable {n : ℕ} {K : Type uk} {V : Type uv} [DecidableEq K] (index : K → Fin n)

/-- The value of a key. -/
def get (t : Buckets n K V) (k : K) : Option V := (t (index k)).dlookup k

/-- Set the value of a key. -/
def set (k : K) (v : V) (t : Buckets n K V) : Buckets n K V :=
  Function.update t (index k) ((t (index k)).put k v)

/-- Take a key out. -/
def unset (k : K) (t : Buckets n K V) : Buckets n K V :=
  Function.update t (index k) ((t (index k)).kerase k)

def entries (t : Buckets n K V) : Entries K V := (List.finRange n).flatMap t

def setAll (l : Entries K V) (t : Buckets n K V) : Buckets n K V :=
  l.foldl (fun t e => t.set index e.1 e.2) t

/-- Every key is in its own bucket, once. -/
structure Wf (t : Buckets n K V) : Prop where
  nodup : ∀ i, (t i).NodupKeys
  home : ∀ i, ∀ k ∈ (t i).keys, index k = i

variable {index} {t : Buckets n K V} {k k' : K} {v : V}

theorem get_set : (t.set index k v).get index k' = if k' = k then some v else t.get index k' := by
  unfold get set
  by_cases hi : index k' = index k
  · rw [hi, Function.update_self, Entries.dlookup_put]
  · have hk : k' ≠ k := fun h => hi (by rw [h])
    rw [Function.update_of_ne hi, if_neg hk]

theorem get_unset (ht : t.Wf index) :
    (t.unset index k).get index k' = if k' = k then none else t.get index k' := by
  unfold get unset
  by_cases hi : index k' = index k
  · rw [hi, Function.update_self]
    by_cases hk : k' = k
    · subst hk
      rw [if_pos rfl, List.dlookup_kerase _ (ht.nodup _)]
    · rw [if_neg hk, List.dlookup_kerase_ne hk]
  · have hk : k' ≠ k := fun h => hi (by rw [h])
    rw [Function.update_of_ne hi, if_neg hk]

variable (index) in
omit [DecidableEq K] in
theorem wf_empty : Wf index fun _ => ([] : Entries K V) :=
  ⟨fun _ => List.nodupKeys_nil, fun _ k hk => by simp at hk⟩

theorem Wf.set (ht : t.Wf index) : (t.set index k v).Wf index where
  nodup i := by
    unfold Buckets.set
    by_cases hi : i = index k
    · subst hi
      rw [Function.update_self]
      exact Entries.nodupKeys_put (ht.nodup _)
    · rw [Function.update_of_ne hi]
      exact ht.nodup i
  home i j hj := by
    unfold Buckets.set at hj
    by_cases hi : i = index k
    · subst hi
      rw [Function.update_self, Entries.keys_put] at hj
      rcases hj with rfl | hj
      · rfl
      · exact ht.home _ j hj
    · rw [Function.update_of_ne hi] at hj
      exact ht.home i j hj

theorem Wf.unset (ht : t.Wf index) : (t.unset index k).Wf index where
  nodup i := by
    unfold Buckets.unset
    by_cases hi : i = index k
    · subst hi
      rw [Function.update_self]
      exact (ht.nodup _).kerase k
    · rw [Function.update_of_ne hi]
      exact ht.nodup i
  home i j hj := by
    unfold Buckets.unset at hj
    by_cases hi : i = index k
    · subst hi
      rw [Function.update_self] at hj
      exact ht.home _ j (List.mem_keys_of_mem_keys_kerase hj)
    · rw [Function.update_of_ne hi] at hj
      exact ht.home i j hj

/-- Distinct keys may be set in any table: they are found, and the others stay. -/
theorem get_setAll {l : Entries K V} (hl : l.NodupKeys) :
    (t.setAll index l).get index k = (l.dlookup k).or (t.get index k) := by
  induction l generalizing t with
  | nil => rfl
  | cons e l ih =>
    obtain ⟨a, b⟩ := e
    have htail := List.nodupKeys_cons.mp hl
    change (Buckets.setAll index l (t.set index a b)).get index k = _
    rw [ih htail.2, get_set]
    rw [Entries.dlookup_cons]
    by_cases hk : k = a
    · subst hk
      rw [List.dlookup_eq_none.mpr htail.1]
      simp
    · rw [if_neg hk, if_neg hk]

omit [DecidableEq K] in
theorem mem_entries {e : Σ _ : K, V} : e ∈ t.entries ↔ ∃ i, e ∈ t i := by
  simp [entries]

omit [DecidableEq K] in
/-- Written out, the keys are distinct. -/
theorem Wf.nodupKeys_entries (ht : t.Wf index) : t.entries.NodupKeys := by
  unfold entries List.flatMap
  rw [List.nodupKeys_flatten]
  constructor
  · intro l hl
    obtain ⟨i, -, rfl⟩ := List.mem_map.mp hl
    exact ht.nodup i
  · rw [List.map_map, List.pairwise_map]
    refine (List.nodup_finRange n).imp fun {i j} hij => ?_
    intro k hi hj
    exact hij ((ht.home i k hi).symm.trans (ht.home j k hj))

theorem Wf.dlookup_entries (ht : t.Wf index) : t.entries.dlookup k = t.get index k := by
  refine Option.ext fun v => ?_
  change v ∈ t.entries.dlookup k ↔ v ∈ (t (index k)).dlookup k
  rw [List.mem_dlookup_iff ht.nodupKeys_entries, List.mem_dlookup_iff (ht.nodup _), mem_entries]
  constructor
  · rintro ⟨i, hi⟩
    rwa [ht.home i k (List.mem_keys_of_mem hi)]
  · exact fun h => ⟨index k, h⟩

end Buckets

end OpenWrt.Lib
