/-
# What every handle keeps

A handle comes from an opened partition, and changes by the functions for getting, setting,
unsetting and committing. Along all of them the mapping keeps its size, the magic number
stays the first one, every variable is in its own bucket once, and names and values are such
that the text can hold them.
-/

import OpenWrt.Lib.Run
import OpenWrt.Nvram.Text

namespace OpenWrt.Nvram

/-! ## The system -/

/-- A call on an open handle. -/
inductive Op where
  | get (name : Str)
  | set (name value : Str)
  | unset (name : Str)
  /-- A commit, with the mapping at an address. -/
  | commit (address : ℕ)
  deriving DecidableEq, Repr

/-- A name and a value that are set have no NUL, and the name no `=`. -/
def Op.Valid : Op → Prop
  | .set name value => IsName name ∧ IsValue value
  | .get _ | .unset _ | .commit _ => True

/-- What a call leaves. -/
def Handle.apply (machine : Machine) (h : Handle) : Op → Option Handle
  | .get _ => some h
  | .set name value => some (h.nvramSet machine name value).2
  | .unset name => some (h.nvramUnset machine name)
  | .commit address => h.nvramCommit machine address

/-- A handle from any partition, and calls in any order. -/
def system (machine : Machine) : Lib.System Handle Op where
  init h := ∃ image rdonly, nvramOpen machine image rdonly = some h
  step h op h' := op.Valid ∧ h.apply machine op = some h'

/-- What holds of every handle. -/
structure Handle.Wf (machine : Machine) (h : Handle) : Prop where
  size : h.mmap.length = h.length
  magic : findMagic machine h.mmap = some h.offset
  hash : h.hash.Wf (bucket machine)
  valid : ∀ name value, h.nvramGet machine name = some value → IsName name ∧ IsValue value

/-! ## What is read from a text -/

/-- What is read from strings can be written. -/
theorem valid_of_tuples {ss : List Str} (hss : ∀ s ∈ ss, 0 ∉ s) {l : List Tuple}
    (hl : tuples ss = some l) : ∀ t ∈ l, IsName t.1 ∧ IsValue t.2 := by
  induction ss generalizing l with
  | nil => cases hl
  | cons s ss ih =>
    unfold tuples at hl
    split at hl
    case isTrue => cases hl; simp
    case isFalse =>
      split at hl
      case h_1 => cases hl; simp
      case h_2 t ht =>
        obtain ⟨rest, hrest, rfl⟩ := Option.map_eq_some_iff.mp hl
        obtain ⟨hs, heq⟩ := eq_of_splitTuple ht
        have hzero : 0 ∉ t.1 ++ 61 :: t.2 := hs ▸ hss s (by simp)
        rw [List.mem_append, List.mem_cons, not_or, not_or] at hzero
        intro u hu
        rcases List.mem_cons.mp hu with rfl | hu
        · exact ⟨⟨hzero.1, heq⟩, hzero.2.2⟩
        · exact ih (fun s hs => hss s (List.mem_cons_of_mem _ hs)) hrest u hu

theorem zero_notMem_hexString (width n : ℕ) : 0 ∉ hexString width n := by
  have hdigit : ∀ m < 16, hexDigit m ≠ 0 := by decide
  intro h
  rcases List.mem_append.mp h with h | h
  · revert h
    decide
  · obtain ⟨i, -, hi⟩ := List.mem_map.mp h
    exact hdigit _ (Nat.mod_lt _ (by omega)) hi

namespace Handle

variable {machine : Machine} {h h' : Handle}

/-! ## One variable -/

theorem nvramSet_snd (name value : Str) :
    (h.nvramSet machine name value).2 =
      if value.length + 1 > h.length - h.offset then h
      else { h with hash := h.hash.set (bucket machine) name value } := by
  unfold nvramSet
  split <;> rfl

theorem nvramGet_nvramSet {name value : Str} (hroom : value.length + 1 ≤ h.length - h.offset)
    (other : Str) :
    (h.nvramSet machine name value).2.nvramGet machine other =
      if other = name then some value else h.nvramGet machine other := by
  rw [nvramSet_snd, if_neg (by omega)]
  exact Lib.Buckets.get_set

theorem Wf.nvramSet (hwf : h.Wf machine) {name value : Str} (hname : IsName name)
    (hvalue : IsValue value) : (h.nvramSet machine name value).2.Wf machine := by
  rw [nvramSet_snd]
  split
  case isTrue => exact hwf
  case isFalse =>
    refine ⟨hwf.size, hwf.magic, hwf.hash.set, fun other found hfound => ?_⟩
    change Lib.Buckets.get (bucket machine) (h.hash.set (bucket machine) name value) other = _
      at hfound
    rw [Lib.Buckets.get_set] at hfound
    split at hfound
    case isTrue hother =>
      cases hfound
      exact ⟨hother ▸ hname, hvalue⟩
    case isFalse => exact hwf.valid other found hfound

theorem Wf.nvramUnset (hwf : h.Wf machine) (name : Str) :
    (h.nvramUnset machine name).Wf machine := by
  refine ⟨hwf.size, hwf.magic, hwf.hash.unset, fun other found hfound => ?_⟩
  change Lib.Buckets.get (bucket machine) (h.hash.unset (bucket machine) name) other = _ at hfound
  rw [Lib.Buckets.get_unset hwf.hash] at hfound
  split at hfound
  case isTrue => cases hfound
  case isFalse => exact hwf.valid other found hfound

/-! ## The table read again -/

theorem Wf.setTuples {l : List Tuple} (hl : ∀ t ∈ l, IsName t.1 ∧ IsValue t.2)
    (hwf : h.Wf machine) : (h.setTuples machine l).Wf machine := by
  induction l generalizing h with
  | nil => exact hwf
  | cons t l ih =>
    obtain ⟨hname, hvalue⟩ := hl t (by simp)
    exact ih (fun u hu => hl u (by simp [hu])) (hwf.nvramSet hname hvalue)

theorem Wf.setMissing (hwf : h.Wf machine) {name value : Str} (hname : IsName name)
    (hvalue : IsValue value) : (h.setMissing machine name value).Wf machine := by
  unfold Handle.setMissing
  split
  case isTrue => exact hwf.nvramSet hname hvalue
  case isFalse => exact hwf

theorem Wf.setSdram (hwf : h.Wf machine) (header : Header) :
    (h.setSdram machine header).Wf machine := by
  unfold Handle.setSdram
  have hinit : IsName (str "sdram_init") := by unfold IsName; decide
  have hconfig : IsName (str "sdram_config") := by unfold IsName; decide
  have hrefresh : IsName (str "sdram_refresh") := by unfold IsName; decide
  have hncdl : IsName (str "sdram_ncdl") := by unfold IsName; decide
  have hhex : ∀ width n, IsValue (hexString width n) := zero_notMem_hexString
  exact (((hwf.setMissing hinit (hhex _ _)).setMissing hconfig (hhex _ _)).setMissing hrefresh
    (hhex _ _)).setMissing hncdl (hhex _ _)

theorem Wf.of_nvramRehash (hsize : h.mmap.length = h.length)
    (hmagic : findMagic machine h.mmap = some h.offset)
    (hrehash : h.nvramRehash machine = some h') : h'.Wf machine := by
  obtain ⟨l, hl, rfl⟩ := Option.map_eq_some_iff.mp hrehash
  have hvalid := valid_of_tuples (fun s hs => zero_notMem_of_mem_cstrings hs) hl
  have hempty : Wf machine { h with hash := fun _ => [] } :=
    ⟨hsize, hmagic, Lib.Buckets.wf_empty _, fun _ _ hfound => by cases hfound⟩
  exact (hempty.setTuples hvalid).setSdram _

end Handle

theorem wf_of_nvramOpen {machine : Machine} {image : List UInt8} {rdonly : Bool} {h : Handle}
    (hopen : nvramOpen machine image rdonly = some h) : h.Wf machine := by
  unfold nvramOpen at hopen
  split at hopen
  case h_1 => cases hopen
  case h_2 offset hmagic =>
    dsimp only at hopen
    split at hopen
    case isTrue =>
      exact Handle.Wf.of_nvramRehash (h := ⟨image, image.length, offset, fun _ => []⟩) rfl hmagic
        hopen
    case isFalse => cases hopen

end OpenWrt.Nvram
