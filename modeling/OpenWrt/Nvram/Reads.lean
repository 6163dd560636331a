/-
# Which reads of the partition stay inside of it

The functions that read a partition, with every read of it checked. A pointer is what is left of the
mapped region from where it points, so that nothing can be read through an empty one. `nvram_open`
searches the magic number without regard to the end of a region that is smaller than the lowest
used size, and `_nvram_rehash` goes on until it finds a string without `=`, be it in the region or
behind it.
-/

import OpenWrt.Lib.Fault
import OpenWrt.Nvram.Text

namespace OpenWrt.Nvram

open OpenWrt.Lib

/-- A read outside of the mapped region. -/
inductive Fault
  | outside
  deriving DecidableEq

namespace Checked

variable (machine : Machine)

def readWord (image : List UInt8) (pos : ℕ) : Except Fault UInt32 :=
  if pos + 4 ≤ image.length then .ok (wordAt image pos) else .error .outside

def readHeader (image : List UInt8) (pos : ℕ) : Except Fault Header :=
  if pos + headerSize ≤ image.length then .ok (headerAt image pos) else .error .outside

/-- `strchr`: what is before the character and the pointer behind it. -/
def strchr (c : UInt8) : List UInt8 → Except Fault (Option (Str × List UInt8))
  | [] => .error .outside
  | b :: rest =>
    if b = c then .ok (some ([], rest))
    else if b = 0 then .ok none
    else do
      let found ← strchr c rest
      pure (found.map fun r => (b :: r.1, r.2))

/-- The string under a pointer, and the pointer behind its NUL. -/
def cstring : List UInt8 → Except Fault (Str × List UInt8)
  | [] => .error .outside
  | b :: rest =>
    if b = 0 then .ok ([], rest)
    else do
      let r ← cstring rest
      pure (b :: r.1, r.2)

theorem length_strchr_lt {c : UInt8} {bytes after : List UInt8} {s : Str}
    (h : strchr c bytes = .ok (some (s, after))) : after.length < bytes.length := by
  induction bytes generalizing s with
  | nil => cases h
  | cons b rest ih =>
    unfold strchr at h
    split at h
    · cases h
      exact Nat.lt_succ_self _
    · split at h
      · cases h
      · cases hfound : strchr c rest with
        | error e =>
          rw [hfound] at h
          cases h
        | ok found =>
          rw [hfound] at h
          cases found with
          | none => cases h
          | some r =>
            cases h
            exact Nat.lt_succ_of_lt (ih hfound)

theorem length_cstring_lt {bytes after : List UInt8} {s : Str} (h : cstring bytes = .ok (s, after)) :
    after.length < bytes.length := by
  induction bytes generalizing s with
  | nil => cases h
  | cons b rest ih =>
    unfold cstring at h
    split at h
    · cases h
      exact Nat.lt_succ_self _
    · cases hfound : cstring rest with
      | error e =>
        rw [hfound] at h
        cases h
      | ok r =>
        rw [hfound] at h
        cases h
        exact Nat.lt_succ_of_lt (ih hfound)

/-- The loop of `_nvram_rehash` from a name on. -/
def readTuples (h : Handle) (name : List UInt8) : Except Fault Handle :=
  match name with
  | [] => .error .outside
  | c :: rest =>
    if c = 0 then .ok h
    else
      match _heq : strchr 61 (c :: rest) with
      | .error e => .error e
      | .ok none => .ok h
      | .ok (some (s, value)) =>
        match _hvalue : cstring value with
        | .error e => .error e
        | .ok (v, next) => readTuples (h.nvramSet machine s v).2 next
termination_by name.length
decreasing_by exact Nat.lt_trans (length_cstring_lt _hvalue) (length_strchr_lt _heq)

/-- `_nvram_rehash`. -/
def nvramRehash (h : Handle) : Except Fault Handle := do
  let next ← readTuples machine { h with hash := fun _ => [] } (h.mmap.drop (h.offset + headerSize))
  let header ← readHeader h.mmap h.offset
  pure (next.setSdram machine header)

/-- The search for the magic number, for a number of words from one on. -/
def findFrom (image : List UInt8) : ℕ → ℕ → Except Fault (Option ℕ)
  | 0, _ => .ok none
  | left + 1, i => do
      let w ← readWord image (4 * i)
      if w = NVRAM_MAGIC then pure (some (4 * i)) else findFrom image left (i + 1)

/-- The last word of the search. The difference is computed in `size_t`. -/
def searchBound (size : ℕ) : ℕ :=
  (size + 2 ^ (8 * machine.pointerSize) - NVRAM_MIN_SPACE) % 2 ^ (8 * machine.pointerSize) / 4

/-- What `nvram_open` does with the handle of an offset. -/
def openAt (h : Handle) (rdonly : Bool) : Except Fault (Option Handle) := do
  let magic ← readWord h.mmap h.offset
  if magic ≠ NVRAM_MAGIC then pure none
  else do
    let accepted ←
      if rdonly then pure true
      else do
        let len ← readWord h.mmap (h.offset + 4)
        pure (decide (len.toNat < h.length - h.offset))
    if accepted then some <$> nvramRehash machine h else pure none

/-- `nvram_open` on the bytes of the partition; a region of no bytes cannot be mapped. -/
def nvramOpen (image : List UInt8) (rdonly : Bool) : Except Fault (Option Handle) :=
  if image = [] then .ok none
  else do
    match ← findFrom image (searchBound machine image.length + 1) 0 with
    | none => pure none
    | some offset =>
      openAt machine { mmap := image, length := image.length, offset, hash := fun _ => [] } rdonly

/-! ## Strings -/

section Strings

variable {bytes : List UInt8} {c : UInt8} {s : Str}

theorem cstring_append (hs : 0 ∉ s) (after : List UInt8) : cstring (s ++ 0 :: after) = .ok (s, after) := by
  induction s with
  | nil => rfl
  | cons b s ih =>
    rw [List.mem_cons, not_or] at hs
    rw [List.cons_append, cstring, if_neg (Ne.symm hs.1), ih hs.2]
    rfl

theorem cstring_error (h : 0 ∉ bytes) : cstring bytes = .error .outside := by
  induction bytes with
  | nil => rfl
  | cons b bytes ih =>
    rw [List.mem_cons, not_or] at h
    rw [cstring, if_neg (Ne.symm h.1), ih h.2]
    rfl

theorem strchr_append (hzero : 0 ∉ s) (hc : c ∉ s) (after : List UInt8) :
    strchr c (s ++ c :: after) = .ok (some (s, after)) := by
  induction s with
  | nil => exact if_pos rfl
  | cons b s ih =>
    rw [List.mem_cons, not_or] at hzero hc
    rw [List.cons_append, strchr, if_neg (Ne.symm hc.1), if_neg (Ne.symm hzero.1), ih hzero.2 hc.2]
    rfl

theorem strchr_none (hzero : 0 ∉ s) (hc : c ∉ s) (hne : c ≠ 0) (after : List UInt8) :
    strchr c (s ++ 0 :: after) = .ok none := by
  induction s with
  | nil => rw [List.nil_append, strchr, if_neg (Ne.symm hne), if_pos rfl]
  | cons b s ih =>
    rw [List.mem_cons, not_or] at hzero hc
    rw [List.cons_append, strchr, if_neg (Ne.symm hc.1), if_neg (Ne.symm hzero.1), ih hzero.2 hc.2]
    rfl

theorem strchr_error (hzero : 0 ∉ bytes) (hc : c ∉ bytes) : strchr c bytes = .error .outside := by
  induction bytes with
  | nil => rfl
  | cons b bytes ih =>
    rw [List.mem_cons, not_or] at hzero hc
    rw [strchr, if_neg (Ne.symm hc.1), if_neg (Ne.symm hzero.1), ih hzero.2 hc.2]
    rfl

theorem cstrings_of_notMem (h : 0 ∉ bytes) : cstrings bytes = [] := by
  induction bytes with
  | nil => rfl
  | cons b bytes ih =>
    rw [List.mem_cons, not_or] at h
    rw [cstrings, if_neg (Ne.symm h.1), ih h.2]

/-- The strings up to one without `=` are read exactly if there is one. -/
theorem tuples_isSome_iff (l : List Str) : (tuples l).isSome ↔ ∃ s ∈ l, 61 ∉ s := by
  induction l with
  | nil => exact iff_of_false (by decide) (by rintro ⟨s, hs, -⟩; cases hs)
  | cons s l ih =>
    unfold tuples
    split
    case isTrue hnil =>
      refine iff_of_true rfl ⟨s, List.mem_cons_self, ?_⟩
      rw [hnil]
      exact List.not_mem_nil
    case isFalse =>
      cases hsplit : splitTuple s with
      | none =>
        refine iff_of_true rfl ⟨s, List.mem_cons_self, fun hmem => ?_⟩
        obtain ⟨name, value, rfl, hname⟩ := List.eq_append_cons_of_mem hmem
        rw [splitTuple_append hname] at hsplit
        cases hsplit
      | some t =>
        rw [Option.isSome_map, ih]
        have hmem : 61 ∈ s := by
          rw [(eq_of_splitTuple hsplit).1]
          exact List.mem_append_right _ List.mem_cons_self
        constructor
        · rintro ⟨r, hr, hne⟩
          exact ⟨r, List.mem_cons_of_mem _ hr, hne⟩
        · rintro ⟨r, hr, hne⟩
          rcases List.mem_cons.mp hr with rfl | hr
          · exact absurd hmem hne
          · exact ⟨r, hr, hne⟩

end Strings

/-! ## The scan -/

section Scan

variable {machine} {bytes : List UInt8} {h : Handle}

/-- The loop sets the tuples of the text, or reads past the region. -/
theorem readTuples_eq (machine : Machine) (h : Handle) (bytes : List UInt8) :
    readTuples machine h bytes =
      match tuples (cstrings bytes) with
      | none => .error .outside
      | some l => .ok (h.setTuples machine l) := by
  induction hn : bytes.length using Nat.strong_induction_on generalizing bytes h with
  | _ n ih =>
    by_cases hzero : 0 ∈ bytes
    · obtain ⟨s, next, rfl, hs⟩ := List.eq_append_cons_of_mem hzero
      rw [cstrings_append hs, tuples]
      cases s with
      | nil =>
        rw [List.nil_append, readTuples, if_pos rfl, if_pos rfl]
        rfl
      | cons c s =>
        have hc : c ≠ 0 := by
          rintro rfl
          exact hs List.mem_cons_self
        rw [if_neg (List.cons_ne_nil c s), List.cons_append, readTuples, if_neg hc,
          ← List.cons_append]
        by_cases heq : 61 ∈ c :: s
        · obtain ⟨name, value, hsplit, hname⟩ := List.eq_append_cons_of_mem heq
          rw [hsplit] at hs hn ⊢
          have hname0 : 0 ∉ name := fun hmem => hs (List.mem_append_left _ hmem)
          have hvalue0 : 0 ∉ value := fun hmem =>
            hs (List.mem_append_right _ (List.mem_cons_of_mem _ hmem))
          have hchr : strchr 61 (name ++ 61 :: value ++ 0 :: next) =
              .ok (some (name, value ++ 0 :: next)) := by
            rw [List.append_assoc, List.cons_append, strchr_append hname0 hname]
          have hshorter : next.length < n := by
            rw [← hn, List.length_append, List.length_cons]
            omega
          rw [splitTuple_append hname]
          split
          case h_1 e herror => rw [hchr] at herror; cases herror
          case h_2 hnone => rw [hchr] at hnone; cases hnone
          case h_3 s' v' hsome =>
            rw [hchr] at hsome
            cases hsome
            split
            case h_1 e herror => rw [cstring_append hvalue0] at herror; cases herror
            case h_2 v'' next' hok =>
              rw [cstring_append hvalue0] at hok
              cases hok
              rw [ih next.length hshorter _ next rfl]
              cases tuples (cstrings next) <;> rfl
        · have hnone := strchr_none hs heq (by decide) next
          have hsplit : splitTuple (c :: s) = none := by
            cases hsplit : splitTuple (c :: s) with
            | none => rfl
            | some t =>
              exfalso
              apply heq
              rw [(eq_of_splitTuple hsplit).1]
              exact List.mem_append_right _ List.mem_cons_self
          rw [hsplit]
          split
          case h_1 e herror => rw [hnone] at herror; cases herror
          case h_2 => rfl
          case h_3 s' v' hsome => rw [hnone] at hsome; cases hsome
    · rw [cstrings_of_notMem hzero, tuples]
      cases bytes with
      | nil => rw [readTuples]
      | cons c rest =>
        have hc : c ≠ 0 := by
          rintro rfl
          exact hzero List.mem_cons_self
        rw [readTuples, if_neg hc]
        by_cases heq : 61 ∈ c :: rest
        · obtain ⟨name, value, hsplit, hname⟩ := List.eq_append_cons_of_mem heq
          rw [hsplit] at hzero ⊢
          have hname0 : 0 ∉ name := fun hmem => hzero (List.mem_append_left _ hmem)
          have hvalue0 : 0 ∉ value := fun hmem =>
            hzero (List.mem_append_right _ (List.mem_cons_of_mem _ hmem))
          have hchr := strchr_append hname0 hname value
          split
          case h_1 => rfl
          case h_2 hnone => rw [hchr] at hnone; cases hnone
          case h_3 s' v' hsome =>
            rw [hchr] at hsome
            cases hsome
            split
            case h_1 => rfl
            case h_2 v'' next' hok => rw [cstring_error hvalue0] at hok; cases hok
        · have herror := strchr_error hzero heq
          split
          case h_1 => rfl
          case h_2 hnone => rw [herror] at hnone; cases hnone
          case h_3 s' v' hsome => rw [herror] at hsome; cases hsome

/-- Where a string of the text has no `=` the loop stops there, and it stops nowhere else. -/
theorem nvramRehash_ok_iff (machine : Machine) (h : Handle) :
    (∃ next, nvramRehash machine h = .ok next) ↔
      ∃ s ∈ cstrings (h.mmap.drop (h.offset + headerSize)), 61 ∉ s := by
  rw [← tuples_isSome_iff]
  unfold nvramRehash
  rw [readTuples_eq]
  cases htuples : tuples (cstrings (h.mmap.drop (h.offset + headerSize))) with
  | none =>
    apply iff_of_false
    · rintro ⟨next, hnext⟩
      cases hnext
    · exact Bool.false_ne_true
  | some l =>
    have hroom : h.offset + headerSize ≤ h.mmap.length := by
      by_contra hlt
      rw [List.drop_eq_nil_of_le (by omega)] at htuples
      cases htuples
    have hheader : readHeader h.mmap h.offset = .ok (headerAt h.mmap h.offset) := if_pos hroom
    rw [hheader]
    exact iff_of_true ⟨_, rfl⟩ rfl

end Scan

/-! ## The search -/

/-- The place of the first magic number. -/
def FirstMagic (image : List UInt8) (offset : ℕ) : Prop :=
  offset + 4 ≤ image.length ∧ wordAt image offset = NVRAM_MAGIC ∧
    ∃ i, offset = 4 * i ∧ ∀ j < i, wordAt image (4 * j) ≠ NVRAM_MAGIC

/-- The place is not behind those that are searched. -/
def Searched (image : List UInt8) (offset : ℕ) : Prop :=
  image.length < NVRAM_MIN_SPACE ∨ offset ≤ image.length - NVRAM_MIN_SPACE

/-- What keeps the reads of `nvram_open` inside of the region: a region that is smaller than the
lowest used size has a magic number, its header has a length, and where the text is read one of its
strings has no `=`. -/
structure Bounded (image : List UInt8) (rdonly : Bool) : Prop where
  search : NVRAM_MIN_SPACE ≤ image.length ∨ ∃ offset, FirstMagic image offset
  header : rdonly = false → ∀ offset, FirstMagic image offset → Searched image offset →
    offset + 8 ≤ image.length
  scan : ∀ offset, FirstMagic image offset → Searched image offset →
    rdonly = true ∨ (wordAt image (offset + 4)).toNat < image.length - offset →
    ∃ s ∈ cstrings (image.drop (offset + headerSize)), 61 ∉ s

section Search

variable {image : List UInt8}

theorem readWord_of_le {pos : ℕ} (h : pos + 4 ≤ image.length) :
    readWord image pos = .ok (wordAt image pos) := if_pos h

/-- The search stops at the first magic number. -/
theorem findFrom_found {left i j : ℕ} (hij : i ≤ j) (hj : j < i + left)
    (hroom : 4 * j + 4 ≤ image.length) (hmagic : wordAt image (4 * j) = NVRAM_MAGIC)
    (hfirst : ∀ k, i ≤ k → k < j → wordAt image (4 * k) ≠ NVRAM_MAGIC) :
    findFrom image left i = .ok (some (4 * j)) := by
  induction left generalizing i with
  | zero => omega
  | succ left ih =>
    rw [findFrom, readWord_of_le (by omega)]
    rcases Nat.eq_or_lt_of_le hij with rfl | hlt
    · exact if_pos hmagic
    · have hne := hfirst i (Nat.le_refl i) hlt
      have hrest := ih hlt (by omega) fun k hk hkj => hfirst k (by omega) hkj
      exact (if_neg hne).trans hrest

/-- Without one it goes through all its words, and so out of the region if they are. -/
theorem findFrom_none {left i : ℕ}
    (hnone : ∀ k, i ≤ k → k < i + left → 4 * k + 4 ≤ image.length →
      wordAt image (4 * k) ≠ NVRAM_MAGIC) :
    findFrom image left i =
      if left = 0 ∨ 4 * (i + left) ≤ image.length then .ok none else .error .outside := by
  induction left generalizing i with
  | zero => rfl
  | succ left ih =>
    by_cases hroom : 4 * i + 4 ≤ image.length
    · have hstep : findFrom image (left + 1) i = findFrom image left (i + 1) := by
        rw [findFrom, readWord_of_le hroom]
        exact if_neg (hnone i (Nat.le_refl i) (by omega) hroom)
      rw [hstep, ih fun k hk hlt => hnone k (by omega) (by omega)]
      have hiff : (left = 0 ∨ 4 * (i + 1 + left) ≤ image.length) ↔
          (left + 1 = 0 ∨ 4 * (i + (left + 1)) ≤ image.length) := by omega
      rw [if_congr hiff rfl rfl]
    · rw [findFrom, readWord, if_neg hroom, if_neg (by omega)]
      rfl

theorem FirstMagic.unique {offset other : ℕ} (h : FirstMagic image offset)
    (h' : FirstMagic image other) : offset = other := by
  obtain ⟨-, hmagic, i, rfl, hfirst⟩ := h
  obtain ⟨-, hmagic', j, rfl, hfirst'⟩ := h'
  rcases Nat.lt_trichotomy i j with hlt | heq | hlt
  · exact absurd hmagic (hfirst' i hlt)
  · rw [heq]
  · exact absurd hmagic' (hfirst j hlt)

/-- A magic number that is a word of the region has a first one before it. -/
theorem exists_firstMagic {i : ℕ} (hroom : 4 * i + 4 ≤ image.length)
    (hmagic : wordAt image (4 * i) = NVRAM_MAGIC) :
    ∃ j ≤ i, FirstMagic image (4 * j) := by
  induction i using Nat.strong_induction_on with
  | _ i ih =>
    by_cases hearlier : ∃ j < i, wordAt image (4 * j) = NVRAM_MAGIC
    · obtain ⟨j, hlt, hj⟩ := hearlier
      obtain ⟨k, hk, hfirst⟩ := ih j hlt (by omega) hj
      exact ⟨k, by omega, hfirst⟩
    · push Not at hearlier
      exact ⟨i, Nat.le_refl i, hroom, hmagic, i, rfl, hearlier⟩

/-- The last word of the search: it is in the region exactly if the region is large enough. -/
theorem searchBound_spec {machine : Machine} (hpointers : 4 ≤ machine.pointerSize) {size : ℕ}
    (hsize : size < 2 ^ 31) :
    (NVRAM_MIN_SPACE ≤ size → searchBound machine size = (size - NVRAM_MIN_SPACE) / 4) ∧
      (size < NVRAM_MIN_SPACE → size < 4 * (searchBound machine size + 1)) := by
  have hword : 2 ^ 32 ≤ 2 ^ (8 * machine.pointerSize) :=
    Nat.pow_le_pow_right (by decide) (by omega)
  unfold searchBound NVRAM_MIN_SPACE
  generalize 2 ^ (8 * machine.pointerSize) = word at hword
  constructor
  · intro hle
    have hsum : size + word - 0x8000 = size - 0x8000 + word := by omega
    rw [hsum, Nat.add_mod_right, Nat.mod_eq_of_lt (by omega)]
  · intro hlt
    rw [Nat.mod_eq_of_lt (by omega)]
    omega

/-- The search that `nvram_open` makes: it finds the first magic number, it finds none, or it leaves
the region. -/
theorem find_cases {machine : Machine} (hpointers : 4 ≤ machine.pointerSize)
    (hsize : image.length < 2 ^ 31) :
    (∃ offset, FirstMagic image offset ∧ Searched image offset ∧
        findFrom image (searchBound machine image.length + 1) 0 = .ok (some offset)) ∨
      ((∀ offset, FirstMagic image offset → ¬ Searched image offset) ∧
        findFrom image (searchBound machine image.length + 1) 0 =
          if NVRAM_MIN_SPACE ≤ image.length then .ok none else .error .outside) := by
  obtain ⟨hlarge, hsmall⟩ := searchBound_spec hpointers hsize
  generalize searchBound machine image.length = bound at hlarge hsmall
  by_cases hfound : ∃ offset, FirstMagic image offset ∧ Searched image offset
  · left
    obtain ⟨offset, hmagic, hsearched⟩ := hfound
    refine ⟨offset, hmagic, hsearched, ?_⟩
    obtain ⟨hroom, hword, i, rfl, hfirst⟩ := hmagic
    have hi : i < 0 + (bound + 1) := by
      rcases hsearched with hlt | hle
      · have := hsmall hlt
        omega
      · rcases Nat.lt_or_ge image.length NVRAM_MIN_SPACE with hlt | hge
        · have := hsmall hlt
          omega
        · have := hlarge hge
          omega
    exact findFrom_found (Nat.zero_le i) hi hroom hword fun k _ hk => hfirst k hk
  · right
    push Not at hfound
    refine ⟨hfound, ?_⟩
    have hnone : ∀ k, 0 ≤ k → k < 0 + (bound + 1) → 4 * k + 4 ≤ image.length →
        wordAt image (4 * k) ≠ NVRAM_MAGIC := by
      intro k _ hk hroom hword
      obtain ⟨j, hj, hfirst⟩ := exists_firstMagic hroom hword
      apply hfound (4 * j) hfirst
      rcases Nat.lt_or_ge image.length NVRAM_MIN_SPACE with hlt | hge
      · exact Or.inl hlt
      · right
        have := hlarge hge
        omega
    rw [findFrom_none hnone]
    have hiff : (bound + 1 = 0 ∨ 4 * (0 + (bound + 1)) ≤ image.length) ↔
        NVRAM_MIN_SPACE ≤ image.length := by
      constructor
      · intro hle
        by_contra hlt
        have := hsmall (by omega)
        omega
      · intro hle
        right
        have hval := hlarge hle
        unfold NVRAM_MIN_SPACE at hle hval
        omega
    rw [if_congr hiff rfl rfl]

end Search

/-! ## Opening -/

section Open

variable {image : List UInt8} {rdonly : Bool}

theorem map_some_ok_iff {x : Except Fault Handle} :
    (∃ r, some <$> x = .ok r) ↔ ∃ next, x = .ok next := by
  cases x with
  | ok next => exact iff_of_true ⟨some next, rfl⟩ ⟨next, rfl⟩
  | error e =>
    apply iff_of_false
    · rintro ⟨r, hr⟩
      cases hr
    · rintro ⟨next, hnext⟩
      cases hnext

/-- The reads for the handle of a magic number. -/
theorem openAt_ok_iff (machine : Machine) {h : Handle}
    (hread : readWord h.mmap h.offset = .ok NVRAM_MAGIC) :
    (∃ r, openAt machine h rdonly = .ok r) ↔
      (rdonly = false → h.offset + 8 ≤ h.mmap.length) ∧
        (rdonly = true ∨ (wordAt h.mmap (h.offset + 4)).toNat < h.length - h.offset →
          ∃ s ∈ cstrings (h.mmap.drop (h.offset + headerSize)), 61 ∉ s) := by
  have hrehash := nvramRehash_ok_iff machine h
  cases rdonly with
  | true =>
    have hopen : openAt machine h true = some <$> nvramRehash machine h := by
      unfold openAt
      rw [hread]
      rfl
    rw [hopen, map_some_ok_iff, hrehash]
    constructor
    · exact fun hscan => ⟨nofun, fun _ => hscan⟩
    · exact fun hscan => hscan.2 (Or.inl rfl)
  | false =>
    by_cases hroom : h.offset + 8 ≤ h.mmap.length
    · have hlen : readWord h.mmap (h.offset + 4) = .ok (wordAt h.mmap (h.offset + 4)) :=
        if_pos (by omega)
      have hopen : openAt machine h false =
          if decide ((wordAt h.mmap (h.offset + 4)).toNat < h.length - h.offset) then
            some <$> nvramRehash machine h
          else .ok none := by
        unfold openAt
        rw [hread, hlen]
        rfl
      rw [hopen]
      by_cases haccepted : (wordAt h.mmap (h.offset + 4)).toNat < h.length - h.offset
      · rw [if_pos (decide_eq_true haccepted), map_some_ok_iff, hrehash]
        constructor
        · exact fun hscan => ⟨fun _ => hroom, fun _ => hscan⟩
        · exact fun hscan => hscan.2 (Or.inr haccepted)
      · rw [if_neg (by simpa using haccepted)]
        refine iff_of_true ⟨none, rfl⟩ ⟨fun _ => hroom, ?_⟩
        rintro (hreadonly | hlt)
        · cases hreadonly
        · exact absurd hlt haccepted
    · have hlen : readWord h.mmap (h.offset + 4) = .error .outside := if_neg (by omega)
      have hopen : openAt machine h false = .error .outside := by
        unfold openAt
        rw [hread, hlen]
        rfl
      rw [hopen]
      apply iff_of_false
      · rintro ⟨r, hr⟩
        cases hr
      · exact fun hscan => hroom (hscan.1 rfl)

/-- The reads of `nvram_open` stay inside of a region that is not empty exactly if it is bounded. -/
theorem nvramOpen_ok_iff {machine : Machine} (hpointers : 4 ≤ machine.pointerSize)
    (hsize : image.length < 2 ^ 31) (hne : image ≠ []) (rdonly : Bool) :
    (∃ r, nvramOpen machine image rdonly = .ok r) ↔ Bounded image rdonly := by
  unfold nvramOpen
  rw [if_neg hne]
  rcases find_cases hpointers hsize with ⟨offset, hmagic, hsearched, hfind⟩ | ⟨hnone, hfind⟩
  · rw [hfind]
    have hread : readWord image offset = .ok NVRAM_MAGIC := by
      rw [readWord_of_le hmagic.1, hmagic.2.1]
    have hopen := @openAt_ok_iff rdonly machine
      { mmap := image, length := image.length, offset, hash := fun _ => [] } hread
    constructor
    · intro hok
      obtain ⟨hheader, hscan⟩ := hopen.mp hok
      refine ⟨Or.inr ⟨offset, hmagic⟩, ?_, ?_⟩
      · intro hrdonly other hother _
        rw [← hmagic.unique hother]
        exact hheader hrdonly
      · intro other hother _ haccepted
        rw [← hmagic.unique hother] at haccepted ⊢
        exact hscan haccepted
    · intro hbounded
      apply hopen.mpr
      exact ⟨fun hrdonly => hbounded.header hrdonly offset hmagic hsearched,
        hbounded.scan offset hmagic hsearched⟩
  · rw [hfind]
    by_cases hlarge : NVRAM_MIN_SPACE ≤ image.length
    · rw [if_pos hlarge]
      refine iff_of_true ⟨none, rfl⟩ ⟨Or.inl hlarge, ?_, ?_⟩
      · exact fun _ offset hmagic hsearched => absurd hsearched (hnone offset hmagic)
      · exact fun offset hmagic hsearched => absurd hsearched (hnone offset hmagic)
    · rw [if_neg hlarge]
      apply iff_of_false
      · rintro ⟨r, hr⟩
        cases hr
      · intro hbounded
        rcases hbounded.search with hle | ⟨offset, hmagic⟩
        · exact hlarge hle
        · exact hnone offset hmagic (Or.inl (Nat.lt_of_not_le hlarge))

end Open

end Checked

/-- A partition that is mapped: its size is read as an `int`, and a pointer has at least four
bytes. -/
structure Partition where
  machine : Machine
  bytes : List UInt8
  pointers : 4 ≤ machine.pointerSize
  size_lt : bytes.length < 2 ^ 31
  size_pos : bytes ≠ []

/-- The functions read only inside of the region: `nvram_open` of a bounded one, and `_nvram_rehash`
where some string behind the header has no `=`. -/
theorem reads_inside_iff (part : Partition) (rdonly : Bool) (h : Handle) :
    ((∃ r, Checked.nvramOpen part.machine part.bytes rdonly = .ok r) ↔
        Checked.Bounded part.bytes rdonly) ∧
      ((∃ r, Checked.nvramRehash part.machine h = .ok r) ↔
        ∃ s ∈ cstrings (h.mmap.drop (h.offset + headerSize)), 61 ∉ s) :=
  ⟨Checked.nvramOpen_ok_iff part.pointers part.size_lt part.size_pos rdonly,
    Checked.nvramRehash_ok_iff part.machine h⟩

/-- Four bytes that are no magic number. -/
def noMagic : Partition where
  machine := { charSigned := true, pointerSize := 8 }
  bytes := [0, 0, 0, 0]
  pointers := by decide
  size_lt := by decide
  size_pos := by decide

/-- A header whose length is accepted, and text in the rest of 32 KiB that nothing ends. -/
def unterminated : Partition where
  machine := { charSigned := true, pointerSize := 8 }
  bytes := (wordBytes NVRAM_MAGIC ++ wordBytes 20 ++ List.replicate 12 0) ++ List.replicate 32748 97
  pointers := by decide
  size_lt := by
    rw [List.length_append, List.length_replicate]
    decide
  size_pos := List.cons_ne_nil _ _

/-- The search and the scan leave the region. -/
theorem not_reads_inside :
    (¬ ∃ r, Checked.nvramOpen noMagic.machine noMagic.bytes true = .ok r) ∧
      ¬ ∃ r, Checked.nvramOpen unterminated.machine unterminated.bytes false = .ok r := by
  constructor
  · rw [Checked.nvramOpen_ok_iff noMagic.pointers noMagic.size_lt noMagic.size_pos]
    intro hbounded
    rcases hbounded.search with hle | ⟨offset, hroom, hword, -⟩
    · exact absurd hle (by decide)
    · have hzero : offset = 0 := by
        have hlength : offset + 4 ≤ 4 := hroom
        omega
      rw [hzero] at hword
      exact absurd hword (by decide)
  · rw [Checked.nvramOpen_ok_iff unterminated.pointers unterminated.size_lt unterminated.size_pos]
    intro hbounded
    have hlength : unterminated.bytes.length = 32768 := by
      unfold unterminated
      rw [List.length_append, List.length_replicate]
      rfl
    have hmagic : Checked.FirstMagic unterminated.bytes 0 := by
      refine ⟨by omega, by decide +kernel, 0, rfl, ?_⟩
      intro j hj
      cases hj
    have hlen : (wordAt unterminated.bytes (0 + 4)).toNat = 20 := by decide +kernel
    have hheader : 0 + headerSize =
        (wordBytes NVRAM_MAGIC ++ wordBytes 20 ++ List.replicate 12 0).length := by decide
    have hdata : unterminated.bytes.drop (0 + headerSize) = List.replicate 32748 97 := by
      rw [hheader]
      exact List.drop_left
    obtain ⟨s, hs, -⟩ := hbounded.scan 0 hmagic (Or.inr (Nat.zero_le _)) (Or.inr (by omega))
    rw [hdata, Checked.cstrings_of_notMem] at hs
    · cases hs
    · intro hmem
      exact absurd (List.eq_of_mem_replicate hmem) (by decide)

end OpenWrt.Nvram
