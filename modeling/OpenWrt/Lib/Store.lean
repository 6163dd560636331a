/-
# Stores with unknown places

A store has a value at each address, or nothing where the value is not known. It is
what a device stands for to its users: a read may return anything for the unknown
places, and only the last written value for the others.

A store is shown by blocks elsewhere when each block is mapped to a place that holds
the known values. Changing one block is the only rule that is needed to keep that.
-/

import Mathlib.Data.List.Basic
import Mathlib.Algebra.Order.Group.Nat

namespace OpenWrt.Lib

universe u

/-- The known values by address. -/
abbrev Store (α : Type u) := ℕ → Option α

namespace Store

variable {α : Type u}

def write (m : Store α) (addr : ℕ) (values : List α) : Store α := fun a =>
  if addr ≤ a ∧ a < addr + values.length then values[a - addr]? else m a

/-- Lose the values of a range. -/
def forget (m : Store α) (addr n : ℕ) : Store α := fun a =>
  if addr ≤ a ∧ a < addr + n then none else m a

/-- Put the same value in a range. -/
def fill (m : Store α) (addr n : ℕ) (value : α) : Store α := fun a =>
  if addr ≤ a ∧ a < addr + n then some value else m a

/-- Values that a read from an address on may return. -/
def Reads (m : Store α) (addr : ℕ) (values : List α) : Prop :=
  ∀ i x v, values[i]? = some x → m (addr + i) = some v → x = v

@[simp]
theorem write_nil (m : Store α) (addr : ℕ) : m.write addr [] = m := by
  funext a
  unfold write
  rw [if_neg (by simp only [List.length_nil]; omega)]

theorem write_append (m : Store α) (addr : ℕ) (xs ys : List α) :
    m.write addr (xs ++ ys) = (m.write addr xs).write (addr + xs.length) ys := by
  funext a
  unfold write
  rw [List.length_append]
  by_cases hxs : addr ≤ a ∧ a < addr + xs.length
  · rw [if_pos (by omega), if_neg (by omega), if_pos hxs, List.getElem?_append_left (by omega)]
  · by_cases hys : addr + xs.length ≤ a ∧ a < addr + xs.length + ys.length
    · rw [if_pos (by omega), if_pos hys, List.getElem?_append_right (by omega), Nat.sub_sub]
    · rw [if_neg (by omega), if_neg hys, if_neg hxs]

@[simp]
theorem reads_nil (m : Store α) (addr : ℕ) : m.Reads addr [] := by
  intro i x v h
  cases h

theorem Reads.append {m : Store α} {addr : ℕ} {xs ys : List α} (hxs : m.Reads addr xs)
    (hys : m.Reads (addr + xs.length) ys) : m.Reads addr (xs ++ ys) := by
  intro i x v hx hv
  by_cases hi : i < xs.length
  · rw [List.getElem?_append_left hi] at hx
    exact hxs i x v hx hv
  · rw [List.getElem?_append_right (by omega)] at hx
    refine hys (i - xs.length) x v hx ?_
    rwa [show addr + xs.length + (i - xs.length) = addr + i by omega]

@[simp]
theorem forget_zero (m : Store α) (addr : ℕ) : m.forget addr 0 = m := by
  funext a
  exact if_neg (by omega)

end Store

/-! ## Stores in blocks -/

section Blocks

variable {α : Type u} {size total : ℕ} {mapping mapping' : ℕ → ℤ} {cell cell' : ℕ → ℕ → α}
  {m m' : Store α} {b : ℕ}

/-- Each block of `size` addresses is mapped to a place that holds what is known of
it, or nowhere. -/
def Shows (size total : ℕ) (mapping : ℕ → ℤ) (cell : ℕ → ℕ → α) (m : Store α) : Prop :=
  ∀ b < total, ∀ p : ℕ, mapping b = p → ∀ off < size, ∀ v,
    m (b * size + off) = some v → cell p off = v

theorem block_apart {b' off off' : ℕ} (hne : b' ≠ b) (hoff : off ≤ size) (hoff' : off' < size) :
    b' * size + off' < b * size ∨ b * size + off ≤ b' * size + off' := by
  rcases Nat.lt_or_gt_of_ne hne with hlt | hgt
  · have hmul : (b' + 1) * size ≤ b * size := Nat.mul_le_mul_right _ hlt
    rw [Nat.add_mul, Nat.one_mul] at hmul
    omega
  · have hmul : (b + 1) * size ≤ b' * size := Nat.mul_le_mul_right _ hgt
    rw [Nat.add_mul, Nat.one_mul] at hmul
    omega

/-- Changing one block, in the store and where it is mapped. -/
theorem Shows.update (h : Shows size total mapping cell m)
    (hmap : ∀ b' < total, b' ≠ b → mapping' b' = mapping b')
    (hcell : ∀ b' < total, b' ≠ b → ∀ p : ℕ, mapping b' = p → ∀ off < size,
      cell' p off = cell p off)
    (hstore : ∀ b' < total, b' ≠ b → ∀ off < size, m' (b' * size + off) = m (b' * size + off))
    (hself : b < total → ∀ p : ℕ, mapping' b = p → ∀ off < size, ∀ v,
      m' (b * size + off) = some v → cell' p off = v) :
    Shows size total mapping' cell' m' := by
  intro b' hb' p hp off hoff v hv
  by_cases hbb : b' = b
  · subst hbb
    exact hself hb' p hp off hoff v hv
  · rw [hmap b' hb' hbb] at hp
    rw [hcell b' hb' hbb p hp off hoff]
    rw [hstore b' hb' hbb off hoff] at hv
    exact h b' hb' p hp off hoff v hv

/-- Changing a part of a block, of which nothing need be known before. -/
theorem Shows.touch {p off n : ℕ} (h : Shows size total mapping cell (m.forget (b * size + off) n))
    (hoff : n = 0 ∨ off + n ≤ size) (hmap : ∀ b', mapping' b' = mapping b')
    (hp : mapping b = p) (hinj : ∀ b' < total, b' ≠ b → mapping b' ≠ p)
    (hcell : ∀ q, q ≠ p → ∀ o, cell' q o = cell q o)
    (hout : ∀ o < size, o < off ∨ off + n ≤ o → cell' p o = cell p o)
    (hstore : ∀ a, a < b * size + off ∨ b * size + off + n ≤ a → m' a = m a)
    (hin : ∀ i < n, ∀ v, m' (b * size + off + i) = some v → cell' p (off + i) = v) :
    Shows size total mapping' cell' m' := by
  have hforget : ∀ a, a < b * size + off ∨ b * size + off + n ≤ a →
      m.forget (b * size + off) n a = m' a := by
    intro a ha
    rw [hstore a ha]
    exact if_neg (by omega)
  intro b' hb' q hq o ho v hv
  rw [hmap b'] at hq
  by_cases hbb : b' = b
  · subst hbb
    have hqp : q = p := by
      rw [hp] at hq
      exact (Int.ofNat.inj hq).symm
    subst hqp
    by_cases hpart : off ≤ o ∧ o < off + n
    · have hi := hin (o - off) (by omega) v
      rw [show b' * size + off + (o - off) = b' * size + o by omega,
        show off + (o - off) = o by omega] at hi
      exact hi hv
    · rw [hout o ho (by omega)]
      exact h b' hb' q hq o ho v ((hforget _ (by omega)).trans hv)
  · have hqp : q ≠ p := by
      rintro rfl
      exact hinj b' hb' hbb hq
    rw [hcell q hqp o]
    refine h b' hb' q hq o ho v ((hforget _ ?_).trans hv)
    rcases hoff with hzero | hoff
    · omega
    · have := block_apart hbb hoff ho
      omega

theorem Shows.reads (h : Shows size total mapping cell m) (hb : b < total) {p off n : ℕ}
    (hp : mapping b = p) (hoff : off + n ≤ size) :
    m.Reads (b * size + off) ((List.range n).map fun i => cell p (off + i)) := by
  intro i x v hx hv
  rw [List.getElem?_map, Option.map_eq_some_iff] at hx
  obtain ⟨j, hj, rfl⟩ := hx
  obtain ⟨hi, rfl⟩ := List.getElem?_eq_some_iff.mp hj
  rw [List.length_range] at hi
  rw [List.getElem_range]
  exact h b hb p hp (off + i) (by omega) v (by rwa [Nat.add_assoc] at hv)

end Blocks

end OpenWrt.Lib
