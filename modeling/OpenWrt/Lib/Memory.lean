/-
# Values at addresses

A memory gives a value for each address. Some values are stored from an address on, and the values
of a range are read; what is read of a store is what was stored, and what is read beside it is what
was there.
-/

import Mathlib.Data.List.GetD

namespace OpenWrt.Lib.Memory

universe u

variable {α : Type u}

/-- The values from an address on. -/
def slice (memory : ℕ → α) (start count : ℕ) : List α :=
  (List.range count).map fun i => memory (start + i)

def store (memory : ℕ → α) (start : ℕ) (values : List α) : ℕ → α := fun address =>
  if start ≤ address then values.getD (address - start) (memory address) else memory address

variable {memory other : ℕ → α} {start count first address : ℕ} {values : List α}

@[simp]
theorem length_slice : (slice memory start count).length = count := by
  rw [slice, List.length_map, List.length_range]

theorem getElem_slice {i : ℕ} (h : i < (slice memory start count).length) :
    (slice memory start count)[i] = memory (start + i) := by
  simp only [slice, List.getElem_map, List.getElem_range]

theorem slice_congr (h : ∀ i < count, memory (start + i) = other (first + i)) :
    slice memory start count = slice other first count :=
  List.map_congr_left fun i hi => h i (List.mem_range.mp hi)

theorem slice_add (n : ℕ) :
    slice memory start (count + n) = slice memory start count ++ slice memory (start + count) n := by
  unfold slice
  rw [List.range_add, List.map_append, List.map_map]
  congr 1
  refine List.map_congr_left fun i _ => ?_
  rw [Function.comp_apply, Nat.add_assoc]

theorem store_of_lt (h : address < start) : store memory start values address = memory address :=
  if_neg (Nat.not_le_of_lt h)

theorem store_of_ge (h : start + values.length ≤ address) :
    store memory start values address = memory address := by
  unfold store
  split
  case isTrue hle => rw [List.getD_eq_default _ _ (by omega)]
  case isFalse => rfl

theorem store_add {i : ℕ} (h : i < values.length) :
    store memory start values (start + i) = values[i] := by
  rw [store, if_pos (Nat.le_add_right _ _), Nat.add_sub_cancel_left,
    List.getD_eq_getElem _ _ h]

theorem slice_store (h : values.length = count) :
    slice (store memory start values) start count = values := by
  refine List.ext_getElem (length_slice.trans h.symm) fun i hi hi' => ?_
  rw [getElem_slice, store_add hi']

theorem slice_store_of_disjoint
    (h : first + count ≤ start ∨ start + values.length ≤ first) :
    slice (store memory start values) first count = slice memory first count := by
  refine slice_congr fun i hi => ?_
  rcases h with h | h
  · exact store_of_lt (by omega)
  · exact store_of_ge (by omega)

theorem slice_shift (shift : ℕ) :
    slice (fun i => memory (shift + i)) start count = slice memory (shift + start) count :=
  slice_congr fun i _ => by rw [Nat.add_assoc]

theorem store_shift (shift : ℕ) :
    store (fun i => memory (shift + i)) start values =
      fun i => store memory (shift + start) values (shift + i) := by
  funext i
  unfold store
  by_cases hle : start ≤ i
  · rw [if_pos hle, if_pos (by omega), Nat.add_sub_add_left]
  · rw [if_neg hle, if_neg (by omega)]

/-- A changed part is put back. -/
theorem store_slice_eq (h : ∀ i, i < start ∨ start + count ≤ i → other i = memory i) :
    store memory start (slice (fun i => other (start + i)) 0 count) = other := by
  funext i
  by_cases hlt : i < start
  · rw [store_of_lt hlt, h i (.inl hlt)]
  · by_cases hge : start + count ≤ i
    · rw [store_of_ge (by rw [length_slice]; exact hge), h i (.inr hge)]
    · obtain ⟨k, rfl⟩ := Nat.exists_eq_add_of_le (Nat.le_of_not_lt hlt)
      have hk : k < (slice (fun i => other (start + i)) 0 count).length := by
        rw [length_slice]
        omega
      rw [store_add hk, getElem_slice, Nat.zero_add]

theorem mem_of_store_ne (h : store memory start values address ≠ memory address) :
    start ≤ address ∧ address < start + values.length := by
  constructor
  · exact Nat.le_of_not_lt fun hlt => h (store_of_lt hlt)
  · exact Nat.lt_of_not_le fun hle => h (store_of_ge hle)

/-! ## Numbers -/

/-- The number in some bytes, the highest first. -/
def readBe (memory : ℕ → UInt8) (start count : ℕ) : ℕ :=
  (slice memory start count).foldl (fun value byte => 256 * value + byte.toNat) 0

/-- The number in some bytes, the lowest first. -/
def readLe (memory : ℕ → UInt8) (start count : ℕ) : ℕ :=
  (slice memory start count).foldr (fun byte value => byte.toNat + 256 * value) 0

/-- The number in some bytes, in the order of the machine. -/
def readHost (isBig : Bool) (memory : ℕ → UInt8) (start count : ℕ) : ℕ :=
  if isBig then readBe memory start count else readLe memory start count

end OpenWrt.Lib.Memory
