/-
# The text of a table and what is read from it

A table whose tuples all have room is written out whole, and the text, with an empty string
after it, reads back as the same tuples in the same order, whatever follows.
-/

import Mathlib.Data.List.TakeWhile
import OpenWrt.Nvram.Handle

namespace OpenWrt.Nvram

/-- A name: no NUL and no `=`. -/
def IsName (s : Str) : Prop := 0 ∉ s ∧ 61 ∉ s

def IsValue (s : Str) : Prop := 0 ∉ s

/-! ## Reading -/

theorem cstrings_append {s : Str} (hs : 0 ∉ s) (rest : List UInt8) :
    cstrings (s ++ 0 :: rest) = s :: cstrings rest := by
  induction s with
  | nil => simp [cstrings]
  | cons b s ih =>
    have hb : b ≠ 0 := fun h => hs (by simp [h])
    have hrest := ih fun h => hs (List.mem_cons_of_mem b h)
    simp [cstrings, hb, hrest]

theorem zero_notMem_of_mem_cstrings {bytes : List UInt8} {s : Str} (hs : s ∈ cstrings bytes) :
    0 ∉ s := by
  induction bytes generalizing s with
  | nil => simp [cstrings] at hs
  | cons b bytes ih =>
    unfold cstrings at hs
    split at hs
    case isTrue =>
      rcases List.mem_cons.mp hs with rfl | hs
      · simp
      · exact ih hs
    case isFalse hb =>
      split at hs
      case h_1 => cases hs
      case h_2 first rest hsplit =>
        rcases List.mem_cons.mp hs with rfl | hs
        · have hfirst : 0 ∉ first := ih (by rw [hsplit]; simp)
          simp [hfirst, Ne.symm hb]
        · exact ih (by rw [hsplit]; exact List.mem_cons_of_mem _ hs)

theorem splitTuple_append {name : Str} (hname : 61 ∉ name) (value : Str) :
    splitTuple (name ++ 61 :: value) = some ⟨name, value⟩ := by
  have hall : ∀ b ∈ name, (decide (b ≠ 61)) = true := by
    intro b hb
    simp only [decide_eq_true_eq]
    rintro rfl
    exact hname hb
  unfold splitTuple
  rw [List.dropWhile_append_of_pos hall, List.takeWhile_append_of_pos hall]
  simp

theorem eq_of_splitTuple {s : Str} {t : Tuple} (ht : splitTuple s = some t) :
    s = t.1 ++ 61 :: t.2 ∧ 61 ∉ t.1 := by
  unfold splitTuple at ht
  split at ht
  case h_1 => cases ht
  case h_2 b value hdrop =>
    cases ht
    have hb : b = 61 := by
      have hne : s.dropWhile (fun c : UInt8 => decide (c ≠ 61)) ≠ [] := by
        rw [hdrop]
        exact List.cons_ne_nil _ _
      have hhead := List.head_dropWhile_not (fun c : UInt8 => decide (c ≠ 61)) hne
      simp only [hdrop, List.head_cons] at hhead
      simpa using hhead
    subst hb
    refine ⟨?_, fun hmem => ?_⟩
    · have hsplit := List.takeWhile_append_dropWhile
        (p := fun c : UInt8 => decide (c ≠ 61)) (l := s)
      rw [hdrop] at hsplit
      exact hsplit.symm
    · simpa using List.mem_takeWhile_imp hmem

/-! ## Writing -/

def text (l : List Tuple) : List UInt8 := l.flatMap tupleBytes

theorem text_append (l l' : List Tuple) : text (l ++ l') = text l ++ text l' :=
  List.flatMap_append ..

theorem length_tupleBytes (t : Tuple) :
    (tupleBytes t).length = t.1.length + 1 + t.2.length + 1 := by
  simp only [tupleBytes, List.length_append, List.length_cons, List.length_nil]
  omega

theorem length_text_cons (t : Tuple) (l : List Tuple) :
    (text (t :: l)).length = t.1.length + 1 + t.2.length + 1 + (text l).length := by
  simp only [text, List.flatMap_cons, List.length_append, length_tupleBytes]

theorem length_le_text {l : List Tuple} {t : Tuple} (ht : t ∈ l) :
    t.2.length + 2 ≤ (text l).length := by
  induction l with
  | nil => cases ht
  | cons u l ih =>
    rw [length_text_cons]
    rcases List.mem_cons.mp ht with rfl | ht
    · omega
    · have := ih ht
      omega

/-- Text that ends in an empty string reads back. -/
theorem tuples_text {l : List Tuple} (hl : ∀ t ∈ l, IsName t.1 ∧ IsValue t.2)
    (rest : List UInt8) : tuples (cstrings (text l ++ 0 :: rest)) = some l := by
  induction l with
  | nil => simp [text, cstrings, tuples]
  | cons t l ih =>
    obtain ⟨⟨hname, heq⟩, hvalue⟩ := hl t (by simp)
    have hstring : 0 ∉ t.1 ++ 61 :: t.2 := by
      have hvalue' : 0 ∉ t.2 := hvalue
      simp [hname, hvalue']
    have hsplit : text (t :: l) ++ 0 :: rest =
        (t.1 ++ 61 :: t.2) ++ 0 :: (text l ++ 0 :: rest) := by
      simp [text, tupleBytes]
    have hrest := ih fun u hu => hl u (by simp [hu])
    rw [hsplit, cstrings_append hstring]
    simp [tuples, splitTuple_append heq, hrest]

theorem writeBucket_of_fits {limit : ℕ} {l : List Tuple} {data : List UInt8}
    (hfits : data.length + (text l).length ≤ limit) : writeBucket limit l data = data ++ text l := by
  induction l generalizing data with
  | nil => simp [writeBucket, text]
  | cons t l ih =>
    rw [length_text_cons] at hfits
    unfold writeBucket
    rw [if_neg (by omega), ih (by rw [List.length_append, length_tupleBytes]; omega)]
    simp [text]

theorem writeTuples_of_fits {limit : ℕ} {t : Lib.Buckets 257 Str Str}
    (hfits : (text t.entries).length ≤ limit) : writeTuples limit t = text t.entries := by
  have hfold : ∀ (is : List (Fin 257)) (data : List UInt8),
      data.length + (text (is.flatMap t)).length ≤ limit →
        is.foldl (fun data i => writeBucket limit (t i) data) data = data ++ text (is.flatMap t) := by
    intro is
    induction is with
    | nil => simp [text]
    | cons i is ih =>
      intro data hdata
      rw [List.flatMap_cons, text_append, List.length_append] at hdata
      rw [List.foldl_cons, writeBucket_of_fits (by omega),
        ih _ (by rw [List.length_append]; omega), List.flatMap_cons, text_append,
        List.append_assoc]
  have h := hfold (List.finRange 257) [] (by simpa [Lib.Buckets.entries] using hfits)
  simpa [writeTuples, Lib.Buckets.entries] using h

end OpenWrt.Nvram
