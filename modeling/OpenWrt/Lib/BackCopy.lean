/-
# Copies from what has been written

The matches of the LZ77 formats repeat bytes that were written before: each byte of a
match is the one that stands `distance` places before it. A match longer than its
distance also repeats bytes of its own. This module defines the copy byte by byte and
proves that it may be done in chunks of up to `distance` bytes.
-/

import Mathlib.Data.List.Basic

namespace OpenWrt.Lib

universe u

variable {α : Type u} {distance : ℕ} {out : List α}

/-- Append one element after another, each the one `distance` places before. -/
def copyBack (distance : ℕ) : ℕ → List α → Option (List α)
  | 0, out => some out
  | n + 1, out =>
    if distance ≤ out.length then
      out[out.length - distance]?.bind fun x => copyBack distance n (out ++ [x])
    else none

/-- The last `distance` elements, or the first `n` of these. -/
def lastChunk (distance n : ℕ) (out : List α) : List α :=
  (out.drop (out.length - distance)).take n

theorem length_lastChunk {n : ℕ} (hdist : distance ≤ out.length) (hn : n ≤ distance) :
    (lastChunk distance n out).length = n := by
  unfold lastChunk
  rw [List.length_take, List.length_drop]
  omega

/-- A copy goes on where another one ended. -/
theorem copyBack_add (m n : ℕ) (out : List α) :
    copyBack distance (m + n) out = (copyBack distance m out).bind (copyBack distance n) := by
  induction m generalizing out with
  | zero => rw [Nat.zero_add, copyBack, Option.bind_some]
  | succ m ih =>
    rw [Nat.succ_add, copyBack, copyBack]
    split
    case isTrue =>
      cases out[out.length - distance]? with
      | none => rfl
      | some x => exact ih (out ++ [x])
    case isFalse => rfl

theorem lastChunk_succ {n : ℕ} (hdist : distance ≤ out.length) (hn : n < distance) :
    ∃ x, (out ++ lastChunk distance n out)[out.length + n - distance]? = some x ∧
      lastChunk distance (n + 1) out = lastChunk distance n out ++ [x] := by
  have hlt : out.length - distance + n < out.length := by omega
  refine ⟨out[out.length - distance + n], ?_, ?_⟩
  · have hindex : out.length + n - distance = out.length - distance + n := by omega
    rw [hindex, List.getElem?_append_left hlt, List.getElem?_eq_getElem hlt]
  · unfold lastChunk
    rw [List.take_add_one, List.getElem?_drop, List.getElem?_eq_getElem hlt]
    rfl

/-- As much as the distance can be copied at once. -/
theorem copyBack_chunk {n : ℕ} (hdist : distance ≤ out.length) (hn : n ≤ distance) :
    copyBack distance n out = some (out ++ lastChunk distance n out) := by
  induction n with
  | zero =>
    unfold lastChunk
    rw [copyBack, List.take_zero, List.append_nil]
  | succ n ih =>
    obtain ⟨x, hx, hchunk⟩ := lastChunk_succ hdist hn
    have hlen : (out ++ lastChunk distance n out).length = out.length + n := by
      rw [List.length_append, length_lastChunk hdist (by omega)]
    rw [copyBack_add, ih (by omega), Option.bind_some, copyBack, hlen, if_pos (by omega), hx,
      Option.bind_some, copyBack, hchunk, List.append_assoc]

/-- A copy with a distance inside the written part always succeeds. -/
theorem exists_copyBack (hpos : 0 < distance) (hdist : distance ≤ out.length) (n : ℕ) :
    ∃ copied, copyBack distance n out = some copied ∧ copied.length = out.length + n := by
  induction n with
  | zero => exact ⟨out, rfl, rfl⟩
  | succ n ih =>
    obtain ⟨copied, hcopied, hlen⟩ := ih
    have hlt : copied.length - distance < copied.length := by omega
    refine ⟨copied ++ [copied[copied.length - distance]], ?_, ?_⟩
    · rw [copyBack_add, hcopied, Option.bind_some, copyBack, if_pos (by omega),
        List.getElem?_eq_getElem hlt, Option.bind_some, copyBack]
    · rw [List.length_append, List.length_singleton, hlen, Nat.add_assoc]

theorem distance_of_copyBack {n : ℕ} {copied : List α} (hn : 0 < n)
    (h : copyBack distance n out = some copied) : 0 < distance ∧ distance ≤ out.length := by
  obtain ⟨m, rfl⟩ := Nat.exists_eq_succ_of_ne_zero (Nat.ne_of_gt hn)
  rw [copyBack] at h
  split at h
  case isTrue hdist =>
    obtain ⟨x, hx, -⟩ := Option.bind_eq_some_iff.mp h
    have hlt := (List.getElem?_eq_some_iff.mp hx).1
    omega
  case isFalse => cases h

end OpenWrt.Lib
