/-
# The space of the new partitions

The slots from the first to the last old partition are given to the new ones, and the space from
the lower base of these two to the next base above the higher one. This is right where the old
partitions have consecutive slots, one of the two at the ends has the lowest base, and the next
base is where the old ones end. Neither this nor the room in the table nor the sizes of the new
partitions are checked.
-/

import Mathlib.Algebra.BigOperators.Group.List.Basic
import Mathlib.Data.List.TakeWhile
import OpenWrt.Mtd.Fis

namespace OpenWrt.Mtd.Fis

/-! ## What should hold -/

def Desc.Holds (desc : Desc) (address : ℕ) : Prop :=
  desc.flashBase.toNat ≤ address ∧ address < desc.flashBase.toNat + desc.size.toNat

/-- The lowest base and the highest end of some partitions. -/
structure Spans (descs : List Desc) (low high : ℕ) : Prop where
  low_mem : ∃ desc ∈ descs, desc.flashBase.toNat = low
  low_le : ∀ desc ∈ descs, low ≤ desc.flashBase.toNat
  high_mem : ∃ desc ∈ descs, desc.flashBase.toNat + desc.size.toNat = high
  le_high : ∀ desc ∈ descs, desc.flashBase.toNat + desc.size.toNat ≤ high

/-- The partitions are consecutive and fill the space from one address to another. -/
def Tiles : (start stop : ℕ) → List Desc → Prop
  | start, stop, [] => start = stop
  | start, stop, desc :: descs =>
    desc.flashBase.toNat = start ∧ Tiles (start + desc.size.toNat) stop descs

/-- No partition is larger than what is left of a size. -/
def Within : (size : UInt32) → List Desc → Prop
  | _, [] => True
  | size, desc :: descs => desc.size ≤ size ∧ Within (size - desc.size) descs

def oldOf (table : List Desc) (old : List FisPart) : List Desc :=
  (used table).filter (Desc.isIn · old)

def othersOf (table : List Desc) (old : List FisPart) : List Desc :=
  (used table).filter fun desc => !desc.isIn old

def slotsBefore (table : List Desc) (old : List FisPart) : ℕ :=
  (used table).findIdx (Desc.isIn · old)

/-- The table is updated without a fault and a size below zero, all other entries are in it as they
were, and the new partitions fill what was the space of the old ones. -/
structure RemapsTo (table : List Desc) (old new : List FisPart) (table' descs : List Desc) :
    Prop where
  remap : remap table old new = some table'
  placed : descs = (table'.drop (slotsBefore table old)).take new.length
  names : descs.map Desc.name = new.map FisPart.name
  others : table'.take (slotsBefore table old) ++
    used (table'.drop (slotsBefore table old + new.length)) = othersOf table old
  tiles : ∃ low high, Spans (oldOf table old) low high ∧ Tiles low high descs
  covers : ∀ address, (∃ desc ∈ descs, desc.Holds address) ↔
    ∃ desc ∈ oldOf table old, desc.Holds address
  within : ∃ place, space table old = some place ∧ place.start ≤ place.stop ∧
    Within (place.stop - place.start) descs

def RemapsRight (table : List Desc) (old new : List FisPart) : Prop :=
  ∃ table' descs, RemapsTo table old new table' descs

/-! ## The condition -/

/-- The next base above an address, which is the address itself where there is none. -/
def NextBase (descs : List Desc) (address stop : ℕ) : Prop :=
  (∃ desc ∈ descs, desc.flashBase.toNat = stop ∧ address < stop ∧
    ∀ other ∈ descs, address < other.flashBase.toNat → stop ≤ other.flashBase.toNat) ∨
  stop = address ∧ ∀ desc ∈ descs, desc.flashBase.toNat ≤ address

def detectsLast (new : List FisPart) : Bool := new.getLast?.any fun part => part.size == 0

/-- The sizes that are given. -/
def totalSize (new : List FisPart) : ℕ := (new.map fun part => part.size.toNat).sum

/-- The given sizes fit into a space, and they or what is left for the last partition fill it up to
an address. -/
def FillsTo (start stop high : ℕ) (new : List FisPart) : Prop :=
  totalSize new ≤ stop - start ∧
    if detectsLast new then stop = high else start + totalSize new = high

/-- The old partitions have consecutive slots and cover the space from their lowest base, which is
the one in the first or the last of these slots, to their highest end. The table has slots for the
new partitions, and these fill the space, which goes to the next base where the last one gets what
is left. -/
structure Fits (table : List Desc) (old new : List FisPart) : Prop where
  slots : ((used table).drop (slotsBefore table old)).take (oldOf table old).length =
    oldOf table old
  room : (used table).length + new.length ≤ table.length + (oldOf table old).length
  space : ∃ first last low high stop, (oldOf table old).head? = some first ∧
    (oldOf table old).getLast? = some last ∧ Spans (oldOf table old) low high ∧
      (∀ address, low ≤ address → address < high → ∃ desc ∈ oldOf table old, desc.Holds address) ∧
        min first.flashBase.toNat last.flashBase.toNat = low ∧
          NextBase (used table) (max first.flashBase.toNat last.flashBase.toNat) stop ∧
            FillsTo low stop high new

/-! ## The new partitions -/

section Layout

variable {new : List FisPart} {start stop : UInt32} {low high : ℕ} {descs : List Desc}

theorem length_layout (offset size : UInt32) (new : List FisPart) :
    (layout offset size new).length = new.length := by
  induction new generalizing offset size with
  | nil => rfl
  | cons part parts ih => exact congrArg (· + 1) (ih _ _)

theorem map_name_layout (offset size : UInt32) (new : List FisPart) :
    (layout offset size new).map Desc.name = new.map FisPart.name := by
  induction new generalizing offset size with
  | nil => rfl
  | cons part parts ih => exact congrArg (part.name :: ·) (ih _ _)

theorem Tiles.le (h : Tiles low high descs) : low ≤ high := by
  induction descs generalizing low with
  | nil => exact Nat.le_of_eq h
  | cons desc descs ih => exact Nat.le_trans (Nat.le_add_right _ _) (ih h.2)

/-- Consecutive partitions hold the addresses between their ends. -/
theorem Tiles.exists_holds_iff (h : Tiles low high descs) (address : ℕ) :
    (∃ desc ∈ descs, desc.Holds address) ↔ low ≤ address ∧ address < high := by
  induction descs generalizing low with
  | nil =>
    have heq : low = high := h
    constructor
    · rintro ⟨desc, hdesc, -⟩
      cases hdesc
    · omega
  | cons desc descs ih =>
    obtain ⟨hbase, hrest⟩ := h
    have hle := hrest.le
    have hih := ih hrest
    constructor
    · rintro ⟨other, hother, hholds⟩
      rcases List.mem_cons.mp hother with rfl | hother
      · unfold Desc.Holds at hholds
        omega
      · have hin := hih.mp ⟨other, hother, hholds⟩
        omega
    · intro hin
      by_cases hfirst : address < low + desc.size.toNat
      · refine ⟨desc, List.mem_cons_self, ?_, ?_⟩ <;> omega
      · obtain ⟨other, hother, hholds⟩ := hih.mpr ⟨Nat.le_of_not_lt hfirst, hin.2⟩
        exact ⟨other, List.mem_cons_of_mem desc hother, hholds⟩

/-- The new partitions fill a space without a size below zero. -/
theorem within_and_tiles_iff (hsizes : ∀ part ∈ new.dropLast, part.size ≠ 0)
    (hle : start ≤ stop) :
    Within (stop - start) (layout start (stop - start) new) ∧
        Tiles start.toNat high (layout start (stop - start) new) ↔
      FillsTo start.toNat stop.toNat high new := by
  induction new generalizing start with
  | nil =>
    unfold FillsTo
    exact ⟨fun h => ⟨Nat.zero_le _, h.2⟩, fun h => ⟨trivial, h.2⟩⟩
  | cons part parts ih =>
    have hlenat := UInt32.le_iff_toNat_le.mp hle
    have hsub := UInt32.toNat_sub_of_le stop start hle
    have htotal : totalSize (part :: parts) = part.size.toNat + totalSize parts := List.sum_cons
    by_cases hzero : part.size = 0
    · -- only the last one has no size
      have hlast : parts = [] := by
        cases parts with
        | nil => rfl
        | cons next parts => exact absurd hzero (hsizes part List.mem_cons_self)
      subst hlast
      have hsize : (part.desc start (stop - start)).size = stop - start := by
        unfold FisPart.desc
        rw [hzero]
        rfl
      have hdetects : detectsLast [part] = true := by
        unfold detectsLast
        rw [List.getLast?_singleton, Option.any_some, hzero]
        rfl
      have hnone : part.size.toNat = 0 := by rw [hzero]; rfl
      unfold FillsTo layout layout Within Within Tiles Tiles
      rw [hsize, hdetects, if_pos rfl, hsub, htotal, hnone]
      constructor
      · rintro ⟨-, -, hstop⟩
        exact ⟨Nat.zero_le _, by omega⟩
      · rintro ⟨-, hstop⟩
        exact ⟨⟨UInt32.le_refl _, trivial⟩, rfl, by omega⟩
    · have hsize : (part.desc start (stop - start)).size = part.size :=
        if_pos (UInt32.pos_iff_ne_zero.mpr hzero)
      have hdetects : detectsLast (part :: parts) = detectsLast parts := by
        unfold detectsLast
        cases parts with
        | nil =>
          rw [List.getLast?_singleton, Option.any_some]
          exact beq_eq_false_iff_ne.mpr hzero
        | cons next parts => rw [List.getLast?_cons_cons]
      have hsizes' : ∀ part ∈ parts.dropLast, part.size ≠ 0 := by
        intro other hother
        cases parts with
        | nil => cases hother
        | cons next parts => exact hsizes other (List.mem_cons_of_mem part hother)
      unfold layout Within Tiles
      rw [hsize]
      by_cases hfits : part.size ≤ stop - start
      · -- the rest starts after this one, and what is left is the space from there
        have hfitsnat := UInt32.le_iff_toNat_le.mp hfits
        rw [hsub] at hfitsnat
        have hstopnat := stop.toNat_lt
        have hnext : (start + part.size).toNat = start.toNat + part.size.toNat := by
          rw [UInt32.toNat_add]
          omega
        have hnextle : start + part.size ≤ stop := by
          rw [UInt32.le_iff_toNat_le]
          omega
        have hleft : stop - start - part.size = stop - (start + part.size) := by
          rw [← UInt32.toNat_inj, UInt32.toNat_sub_of_le _ _ hfits, hsub,
            UInt32.toNat_sub_of_le _ _ hnextle, hnext]
          omega
        have hrest := ih hsizes' hnextle
        unfold FillsTo at hrest ⊢
        rw [hnext] at hrest
        rw [hleft, hdetects, htotal]
        have hrest' : totalSize parts ≤ stop.toNat - (start.toNat + part.size.toNat) ↔
            part.size.toNat + totalSize parts ≤ stop.toNat - start.toNat := by omega
        rw [hrest', Nat.add_assoc] at hrest
        rw [← hrest]
        exact ⟨fun h => ⟨h.1.2, h.2.2⟩, fun h => ⟨⟨hfits, h.1⟩, rfl, h.2⟩⟩
      · constructor
        · exact fun h => absurd h.1.1 hfits
        · rintro ⟨htotalle, -⟩
          rw [htotal, ← hsub] at htotalle
          refine absurd (UInt32.le_iff_toNat_le.mpr ?_) hfits
          exact Nat.le_trans (Nat.le_add_right _ _) htotalle

end Layout

/-! ## The old partitions -/

section Old

variable {table entries before span after : List Desc} {old : List FisPart} {first last : Desc}

/-- Entries before and after those from the first old partition to the last one. -/
structure Cut (old : List FisPart) (entries before span after : List Desc) (first last : Desc) :
    Prop where
  split : entries = before ++ span ++ after
  head : span.head? = some first
  getLast : span.getLast? = some last
  first_isIn : first.isIn old = true
  last_isIn : last.isIn old = true
  before : ∀ desc ∈ before, desc.isIn old = false
  after : ∀ desc ∈ after, desc.isIn old = false

theorem exists_cut (h : entries.filter (Desc.isIn · old) ≠ []) :
    ∃ before span after first last, Cut old entries before span after first last := by
  have hsome : (entries.find? (Desc.isIn · old)).isSome := by
    obtain ⟨desc, hdesc⟩ := List.exists_mem_of_ne_nil _ h
    obtain ⟨hmem, hisIn⟩ := List.mem_filter.mp hdesc
    exact List.find?_isSome.mpr ⟨desc, hmem, hisIn⟩
  obtain ⟨first, hfirst⟩ := Option.isSome_iff_exists.mp hsome
  obtain ⟨hfirstIn, before, rest, hsplit, hbefore⟩ := List.find?_eq_some_iff_append.mp hfirst
  have hsome' : ((first :: rest).reverse.find? (Desc.isIn · old)).isSome :=
    List.find?_isSome.mpr ⟨first, by simp, hfirstIn⟩
  obtain ⟨last, hlast⟩ := Option.isSome_iff_exists.mp hsome'
  obtain ⟨hlastIn, after, inner, hsplit', hafter⟩ := List.find?_eq_some_iff_append.mp hlast
  have hrest : first :: rest = (inner.reverse ++ [last]) ++ after.reverse := by
    have hreverse := congrArg List.reverse hsplit'
    rw [List.reverse_reverse] at hreverse
    rw [hreverse]
    simp
  refine ⟨before, inner.reverse ++ [last], after.reverse, first, last, ?_, ?_, ?_, hfirstIn, hlastIn,
    ?_, ?_⟩
  · rw [hsplit, hrest, ← List.append_assoc]
  · have hhead := congrArg List.head? hrest
    rw [List.head?_cons, List.head?_append_of_ne_nil _ (by simp)] at hhead
    exact hhead.symm
  · exact List.getLast?_concat
  · exact fun desc hdesc => (Bool.not_eq_true' _).mp (hbefore desc hdesc)
  · exact fun desc hdesc => (Bool.not_eq_true' _).mp (hafter desc (List.mem_reverse.mp hdesc))

theorem filter_eq_self_of_not (hnot : span.filter (fun desc => !desc.isIn old) = []) :
    span.filter (Desc.isIn · old) = span := by
  refine List.filter_eq_self.mpr fun desc hdesc => ?_
  have hnot := List.filter_eq_nil_iff.mp hnot desc hdesc
  rwa [Bool.not_eq_true', Bool.not_eq_false] at hnot

namespace Cut

variable (h : Cut old entries before span after first last)

include h

theorem span_ne_nil : span ≠ [] := by
  intro hnil
  have hhead := h.head
  rw [hnil] at hhead
  cases hhead

theorem filter_eq : entries.filter (Desc.isIn · old) = span.filter (Desc.isIn · old) := by
  have hbefore : before.filter (Desc.isIn · old) = [] :=
    List.filter_eq_nil_iff.mpr fun desc hdesc => by rw [h.before desc hdesc]; exact Bool.false_ne_true
  have hafter : after.filter (Desc.isIn · old) = [] :=
    List.filter_eq_nil_iff.mpr fun desc hdesc => by rw [h.after desc hdesc]; exact Bool.false_ne_true
  rw [h.split, List.filter_append, List.filter_append, hbefore, hafter, List.nil_append,
    List.append_nil]

theorem filter_not_eq : entries.filter (fun desc => !desc.isIn old) =
    before ++ span.filter (fun desc => !desc.isIn old) ++ after := by
  have hbefore : before.filter (fun desc => !desc.isIn old) = before :=
    List.filter_eq_self.mpr fun desc hdesc => by rw [h.before desc hdesc]; rfl
  have hafter : after.filter (fun desc => !desc.isIn old) = after :=
    List.filter_eq_self.mpr fun desc hdesc => by rw [h.after desc hdesc]; rfl
  rw [h.split, List.filter_append, List.filter_append, hbefore, hafter]

theorem exists_first : ∃ rest, span = first :: rest := by
  obtain ⟨rest, hrest⟩ := List.head?_eq_some_iff.mp h.head
  exact ⟨rest, hrest⟩

theorem exists_last : ∃ inner, span = inner ++ [last] := List.getLast?_eq_some_iff.mp h.getLast

theorem head?_filter : (span.filter (Desc.isIn · old)).head? = some first := by
  obtain ⟨rest, hrest⟩ := h.exists_first
  have hfilter : (first :: rest).filter (Desc.isIn · old) =
      first :: rest.filter (Desc.isIn · old) := List.filter_cons_of_pos h.first_isIn
  rw [hrest, hfilter, List.head?_cons]

theorem getLast?_filter : (span.filter (Desc.isIn · old)).getLast? = some last := by
  obtain ⟨inner, hinner⟩ := h.exists_last
  have hfilter : [last].filter (Desc.isIn · old) = [last] := List.filter_cons_of_pos h.last_isIn
  rw [hinner, List.filter_append, hfilter, List.getLast?_concat]

theorem findIdx?_eq : entries.findIdx? (Desc.isIn · old) = some before.length := by
  obtain ⟨rest, hrest⟩ := h.exists_first
  have hbefore : before.findIdx? (Desc.isIn · old) = none :=
    List.findIdx?_eq_none_iff.mpr h.before
  rw [h.split, hrest, List.append_assoc, List.findIdx?_append, hbefore, List.cons_append,
    List.findIdx?_cons, if_pos h.first_isIn, Option.none_or, Option.map_some, Nat.zero_add]

theorem lastSlot_eq : lastSlot entries old = some (before.length + span.length - 1) := by
  obtain ⟨inner, hinner⟩ := h.exists_last
  have hafter : after.reverse.findIdx? (Desc.isIn · old) = none :=
    List.findIdx?_eq_none_iff.mpr fun desc hdesc => h.after desc (List.mem_reverse.mp hdesc)
  unfold lastSlot
  rw [h.split, hinner, List.reverse_append, List.reverse_append, List.reverse_append,
    List.reverse_singleton, List.findIdx?_append, hafter, List.singleton_append, List.cons_append,
    List.findIdx?_cons, if_pos h.last_isIn, Option.none_or, Option.map_some, Option.map_some]
  simp only [List.length_append, List.length_reverse, List.length_singleton, Option.some.injEq]
  omega

theorem findIdx_eq : entries.findIdx (Desc.isIn · old) = before.length := by
  have hidx := h.findIdx?_eq
  rw [List.findIdx?_eq_some_iff_findIdx_eq] at hidx
  exact hidx.2

/-- Where the consecutive entries from the first old partition are the old ones. -/
theorem take_drop_eq_filter_iff :
    (entries.drop before.length).take (span.filter (Desc.isIn · old)).length =
        span.filter (Desc.isIn · old) ↔
      span.filter (fun desc => !desc.isIn old) = [] := by
  have hle : (span.filter (Desc.isIn · old)).length ≤ span.length := List.length_filter_le _ _
  rw [h.split, List.append_assoc, List.drop_left, List.take_append_of_le_length hle]
  constructor
  · intro htake
    -- the last old partition is in the part that has all of them
    have hall : ∀ desc ∈ span.take (span.filter (Desc.isIn · old)).length,
        desc.isIn old = true := by
      intro desc hdesc
      rw [htake] at hdesc
      have hin : desc ∈ span ∧ desc.isIn old = true := List.mem_filter.mp hdesc
      exact hin.2
    have hsplit := List.take_append_drop (span.filter (Desc.isIn · old)).length span
    have hnone : (span.drop (span.filter (Desc.isIn · old)).length).filter (Desc.isIn · old) =
        [] := by
      have hfilter := congrArg (List.filter (Desc.isIn · old)) hsplit
      rw [List.filter_append, List.filter_eq_self.mpr hall, htake] at hfilter
      exact List.append_right_eq_self.mp hfilter
    have hdrop : span.drop (span.filter (Desc.isIn · old)).length = [] := by
      by_contra hne
      have hlast := h.getLast
      rw [← hsplit, List.getLast?_append_of_ne_nil _ hne] at hlast
      have hmem := List.mem_of_getLast? hlast
      exact absurd h.last_isIn (List.filter_eq_nil_iff.mp hnone last hmem)
    rw [hdrop, List.append_nil] at hsplit
    refine List.filter_eq_nil_iff.mpr fun desc hdesc => ?_
    have hmem : desc ∈ span.take (span.filter (Desc.isIn · old)).length := by
      rw [hsplit]
      exact hdesc
    rw [hall desc hmem]
    exact Bool.false_ne_true
  · intro hnot
    rw [filter_eq_self_of_not hnot, List.take_length]

end Cut

end Old

/-! ## The bases -/

section Bases

variable {table entries before span after : List Desc} {old : List FisPart} {first last : Desc}
  {low high : ℕ}

theorem foldl_maxBase (entries : List Desc) (offset : UInt32) :
    let highest := entries.foldl
      (fun offset desc => if offset < desc.flashBase then desc.flashBase else offset) offset
    offset.toNat ≤ highest.toNat ∧ (∀ desc ∈ entries, desc.flashBase.toNat ≤ highest.toNat) ∧
      (highest = offset ∨ ∃ desc ∈ entries, desc.flashBase = highest) := by
  induction entries generalizing offset with
  | nil => exact ⟨Nat.le_refl _, by simp, .inl rfl⟩
  | cons desc entries ih =>
    obtain ⟨hle, hall, hmem⟩ := ih (if offset < desc.flashBase then desc.flashBase else offset)
    rw [List.foldl_cons]
    by_cases hlt : offset < desc.flashBase
    · rw [if_pos hlt] at hle hall hmem ⊢
      have hltnat := UInt32.lt_iff_toNat_lt.mp hlt
      refine ⟨by omega, List.forall_mem_cons.mpr ⟨hle, hall⟩, .inr ?_⟩
      rcases hmem with heq | ⟨other, hother, heq⟩
      · exact ⟨desc, List.mem_cons_self, heq.symm⟩
      · exact ⟨other, List.mem_cons_of_mem desc hother, heq⟩
    · rw [if_neg hlt] at hle hall hmem ⊢
      have hlenat : desc.flashBase.toNat ≤ offset.toNat :=
        Nat.le_of_not_lt fun h => hlt (UInt32.lt_iff_toNat_lt.mpr h)
      refine ⟨hle, List.forall_mem_cons.mpr ⟨Nat.le_trans hlenat hle, hall⟩, ?_⟩
      rcases hmem with heq | ⟨other, hother, heq⟩
      · exact .inl heq
      · exact .inr ⟨other, List.mem_cons_of_mem desc hother, heq⟩

theorem foldl_nextBase (entries : List Desc) (address offset : UInt32) :
    (nextBase entries address offset).toNat ≤ offset.toNat ∧
      (∀ desc ∈ entries, address.toNat < desc.flashBase.toNat →
        (nextBase entries address offset).toNat ≤ desc.flashBase.toNat) ∧
      (nextBase entries address offset = offset ∨
        ∃ desc ∈ entries, desc.flashBase = nextBase entries address offset ∧
          address.toNat < desc.flashBase.toNat) := by
  unfold nextBase
  induction entries generalizing offset with
  | nil => exact ⟨Nat.le_refl _, by simp, .inl rfl⟩
  | cons desc entries ih =>
    obtain ⟨hle, hall, hmem⟩ := ih
      (if address < desc.flashBase ∧ desc.flashBase < offset then desc.flashBase else offset)
    rw [List.foldl_cons]
    by_cases hlt : address < desc.flashBase ∧ desc.flashBase < offset
    · rw [if_pos hlt] at hle hall hmem ⊢
      have habove := UInt32.lt_iff_toNat_lt.mp hlt.1
      have hbelow := UInt32.lt_iff_toNat_lt.mp hlt.2
      refine ⟨by omega, List.forall_mem_cons.mpr ⟨fun _ => hle, hall⟩, .inr ?_⟩
      rcases hmem with heq | ⟨other, hother, heq⟩
      · exact ⟨desc, List.mem_cons_self, heq.symm, habove⟩
      · exact ⟨other, List.mem_cons_of_mem desc hother, heq⟩
    · rw [if_neg hlt] at hle hall hmem ⊢
      refine ⟨hle, List.forall_mem_cons.mpr ⟨fun habove => ?_, hall⟩, ?_⟩
      · have hnot : ¬ desc.flashBase.toNat < offset.toNat := fun h =>
        hlt ⟨UInt32.lt_iff_toNat_lt.mpr habove, UInt32.lt_iff_toNat_lt.mpr h⟩
        omega
      · rcases hmem with heq | ⟨other, hother, heq⟩
        · exact .inl heq
        · exact .inr ⟨other, List.mem_cons_of_mem desc hother, heq⟩

/-- The two loops find the next base above that of an entry. -/
theorem nextBase_maxBase {desc : Desc} (hdesc : desc ∈ entries) :
    NextBase entries desc.flashBase.toNat
      (nextBase entries desc.flashBase (maxBase entries)).toNat := by
  obtain ⟨-, hmax, hmaxmem⟩ := foldl_maxBase entries 0
  obtain ⟨hle, hnext, hnextmem⟩ := foldl_nextBase entries desc.flashBase (maxBase entries)
  change ∀ desc ∈ entries, desc.flashBase.toNat ≤ (maxBase entries).toNat at hmax
  change maxBase entries = 0 ∨ ∃ desc ∈ entries, desc.flashBase = maxBase entries at hmaxmem
  generalize nextBase entries desc.flashBase (maxBase entries) = stop at hle hnext hnextmem ⊢
  by_cases habove : ∃ other ∈ entries, desc.flashBase.toNat < other.flashBase.toNat
  · left
    obtain ⟨other, hother, hlt⟩ := habove
    have hotherle := hmax other hother
    rcases hnextmem with heq | ⟨found, hfound, heq, hfoundlt⟩
    · rcases hmaxmem with hzero | ⟨found, hfound, hfoundeq⟩
      · rw [hzero, UInt32.toNat_zero] at hotherle
        omega
      · rw [heq]
        exact ⟨found, hfound, congrArg UInt32.toNat hfoundeq, by omega, heq ▸ hnext⟩
    · exact ⟨found, hfound, congrArg UInt32.toNat heq, heq ▸ hfoundlt, hnext⟩
  · right
    have hall : ∀ other ∈ entries, other.flashBase.toNat ≤ desc.flashBase.toNat :=
      fun other hother => Nat.le_of_not_lt fun hlt => habove ⟨other, hother, hlt⟩
    refine ⟨?_, hall⟩
    have hself := hmax desc hdesc
    rcases hnextmem with heq | ⟨found, hfound, -, hlt⟩
    · rw [heq]
      rcases hmaxmem with hzero | ⟨found, hfound, hfoundeq⟩
      · rw [hzero, UInt32.toNat_zero] at hself ⊢
        omega
      · have hfoundle := hall found hfound
        rw [hfoundeq] at hfoundle
        omega
    · exact absurd hlt (Nat.not_lt_of_le (hall found hfound))

theorem NextBase.unique {address stop stop' : ℕ} (h : NextBase entries address stop)
    (h' : NextBase entries address stop') : stop = stop' := by
  rcases h with ⟨desc, hdesc, heq, hlt, hall⟩ | ⟨heq, hall⟩
  · rcases h' with ⟨desc', hdesc', heq', hlt', hall'⟩ | ⟨-, hall'⟩
    · have hle := hall desc' hdesc' (by omega)
      have hle' := hall' desc hdesc (by omega)
      omega
    · have hle := hall' desc hdesc
      omega
  · rcases h' with ⟨desc', hdesc', heq', hlt', -⟩ | ⟨heq', -⟩
    · have hle := hall desc' hdesc'
      omega
    · omega

theorem NextBase.le {address stop : ℕ} (h : NextBase entries address stop) : address ≤ stop := by
  rcases h with ⟨_, _, _, hlt, _⟩ | ⟨heq, _⟩ <;> omega

theorem Cut.space_eq (h : Cut old (used table) before span after first last) :
    ∃ place, space table old = some place ∧ place.first = before.length ∧
      place.last + 1 = before.length + span.length ∧
        place.start.toNat = min first.flashBase.toNat last.flashBase.toNat ∧
          NextBase (used table) (max first.flashBase.toNat last.flashBase.toNat)
            place.stop.toNat := by
  obtain ⟨rest, hrest⟩ := h.exists_first
  obtain ⟨inner, hinner⟩ := h.exists_last
  have hfirst : (used table)[before.length]? = some first := by
    rw [h.split, hrest, List.append_assoc, List.cons_append,
      List.getElem?_append_right (Nat.le_refl _), Nat.sub_self, List.getElem?_cons_zero]
  have hlast : (used table)[before.length + span.length - 1]? = some last := by
    have hindex : before.length + (inner ++ [last]).length - 1 = (before ++ inner).length := by
      simp only [List.length_append, List.length_singleton]
      omega
    have hentries : used table = (before ++ inner) ++ last :: after := by
      rw [h.split, hinner]
      simp
    rw [hinner, hindex, hentries, List.getElem?_append_right (Nat.le_refl _), Nat.sub_self,
      List.getElem?_cons_zero]
  have hfirstmem := List.mem_of_getElem? hfirst
  have hlastmem := List.mem_of_getElem? hlast
  have hpos : 0 < span.length := List.length_pos_iff.mpr h.span_ne_nil
  unfold space
  dsimp only
  rw [h.findIdx?_eq, Option.bind_some, h.lastSlot_eq, Option.bind_some, hfirst, Option.bind_some,
    hlast, Option.map_some]
  refine ⟨_, rfl, rfl, by dsimp only; omega, ?_⟩
  by_cases hswap : last.flashBase < first.flashBase
  · have hlt := UInt32.lt_iff_toNat_lt.mp hswap
    rw [Nat.min_eq_right (by omega), Nat.max_eq_left (by omega)]
    dsimp only
    rw [if_pos hswap, if_pos hswap]
    exact ⟨rfl, nextBase_maxBase hfirstmem⟩
  · have hle : first.flashBase.toNat ≤ last.flashBase.toNat :=
      Nat.le_of_not_lt fun h => hswap (UInt32.lt_iff_toNat_lt.mpr h)
    rw [Nat.min_eq_left hle, Nat.max_eq_right hle]
    dsimp only
    rw [if_neg hswap, if_neg hswap]
    exact ⟨rfl, nextBase_maxBase hlastmem⟩

end Bases

/-! ## The slots -/

section Slots

variable {table before span after rest : List Desc} {old new : List FisPart} {first last : Desc}

theorem exists_used_append (table : List Desc) :
    ∃ rest, table = used table ++ rest ∧ used rest = [] := by
  refine ⟨table.dropWhile Desc.isUsed, List.takeWhile_append_dropWhile.symm, ?_⟩
  induction table with
  | nil => rfl
  | cons desc table ih =>
    rw [List.dropWhile_cons]
    split
    case isTrue => exact ih
    case isFalse hnot => exact List.takeWhile_cons_of_neg hnot

theorem used_append {xs : List Desc} (hxs : ∀ desc ∈ xs, desc.isUsed = true) (ys : List Desc) :
    used (xs ++ ys) = xs ++ used ys := List.takeWhile_append_of_pos hxs

theorem used_cons_eq_nil_iff {desc : Desc} {descs : List Desc} :
    used (desc :: descs) = [] ↔ desc.isUsed = false := by
  unfold used
  rw [List.takeWhile_cons]
  split
  case isTrue hused =>
    rw [hused]
    exact ⟨fun h => (nomatch h), fun h => (nomatch h)⟩
  case isFalse hnot => exact ⟨fun _ => Bool.eq_false_iff.mpr hnot, fun _ => rfl⟩

/-- Where nothing is used nothing of it is after erased slots are added, or a part is taken. -/
theorem used_take_append_erased (hrest : used rest = []) (count n : ℕ) :
    used ((rest ++ List.replicate count Desc.erased).take n) = [] := by
  cases n with
  | zero => rfl
  | succ n =>
    cases rest with
    | nil =>
      cases count with
      | zero => rfl
      | succ count => exact used_cons_eq_nil_iff.mpr (by decide)
    | cons desc rest => exact used_cons_eq_nil_iff.mpr (used_cons_eq_nil_iff.mp hrest)

/-- The rest of the table is behind the slots of the new partitions, as far as it goes. -/
theorem moveRest_spec {desc last : ℕ} (hlast : last ≤ table.length) (hdesc : desc ≤ table.length) :
    ∃ moved, moveRest table desc last = some moved ∧
      (∀ n ≤ desc, n ≤ last → moved.take n = table.take n) ∧
        moved.drop desc =
          (table.drop last ++ List.replicate (last - desc) Desc.erased).take
            (table.length - desc) := by
  unfold moveRest
  rcases Nat.lt_trichotomy desc last with hlt | heq | hgt
  · -- the rest moves down, and erased slots follow it
    rw [if_neg (by omega), if_neg (by omega), if_pos hlt, Nat.max_eq_right (by omega)]
    refine ⟨_, rfl, ?_⟩
    have htake : (table.take desc).length = desc := by
      rw [List.length_take]
      omega
    have hdrop : (table.drop last).take (table.length - last) = table.drop last := by
      rw [← List.length_drop, List.take_length]
    have hlength : (table.take desc ++ table.drop last).length =
        table.length - (last - desc) := by
      rw [List.length_append, htake, List.length_drop]
      omega
    have hstale : (table.drop (desc + (table.length - last))).length = last - desc := by
      rw [List.length_drop]
      omega
    have hmoved : put (memmove table desc last (table.length - last)) (table.length - (last - desc))
        (List.replicate (last - desc) Desc.erased) =
          table.take desc ++ (table.drop last ++ List.replicate (last - desc) Desc.erased) := by
      unfold put memmove
      rw [hdrop, ← hlength, List.take_left, List.length_replicate, ← List.drop_drop,
        List.drop_left, ← hstale, List.drop_length, List.append_nil, List.append_assoc]
    rw [hmoved]
    constructor
    · intro n hn _
      rw [List.take_append_of_le_length (by omega), List.take_take, Nat.min_eq_left hn]
    · rw [List.drop_append_of_le_length (by omega), List.drop_eq_nil_of_le (by omega),
        List.nil_append, List.take_of_length_le]
      simp only [List.length_append, List.length_drop, List.length_replicate]
      omega
  · rw [if_pos heq]
    refine ⟨table, rfl, fun _ _ _ => rfl, ?_⟩
    rw [heq, Nat.sub_self, List.replicate_zero, List.append_nil, ← List.length_drop,
      List.take_length]
  · rw [if_neg (by omega), if_neg (by omega), if_neg (by omega), Nat.max_eq_left (by omega)]
    refine ⟨_, rfl, ?_⟩
    have htake : (table.take desc).length = desc := by
      rw [List.length_take]
      omega
    have hnone : last - desc = 0 := by omega
    have hend : table.drop (desc + (table.length - desc)) = [] :=
      List.drop_eq_nil_of_le (by omega)
    unfold memmove
    rw [hend, List.append_nil]
    constructor
    · intro n hn _
      rw [List.take_append_of_le_length (by omega), List.take_take, Nat.min_eq_left hn]
    · rw [List.drop_append_of_le_length (by omega), List.drop_eq_nil_of_le (by omega),
        List.nil_append, hnone, List.replicate_zero, List.append_nil]

theorem moveRest_eq_none {desc last : ℕ} (hlast : last ≤ table.length)
    (hdesc : table.length < desc) : moveRest table desc last = none := by
  unfold moveRest
  rw [if_neg (by omega), if_pos (by omega)]

theorem Cut.remap_spec (h : Cut old (used table) before span after first last) {place : Space}
    (hplace : space table old = some place) (hfirst : place.first = before.length)
    (hlast : place.last + 1 = before.length + span.length)
    (hroom : before.length + new.length ≤ table.length) :
    ∃ table', remap table old new = some table' ∧ table'.take before.length = before ∧
      (table'.drop before.length).take new.length =
        layout place.start (place.stop - place.start) new ∧
      used (table'.drop (before.length + new.length)) =
        after.take (table.length - (before.length + new.length)) := by
  obtain ⟨rest, htable, hrest⟩ := exists_used_append table
  have hused : ∀ desc ∈ after, desc.isUsed = true := by
    intro desc hdesc
    refine List.mem_takeWhile_imp (l := table) ?_
    change desc ∈ used table
    rw [h.split]
    exact List.mem_append_right _ hdesc
  have hlengths : table.length = before.length + span.length + after.length + rest.length := by
    rw [htable, h.split]
    simp only [List.length_append]
  obtain ⟨moved, hmoved, htake, hdrop⟩ := moveRest_spec
    (show before.length + span.length ≤ table.length by omega) hroom
  have hbefore : moved.take before.length = before := by
    rw [htake _ (by omega) (by omega), htable, h.split, List.append_assoc, List.append_assoc,
      List.take_left]
  have hafter : table.drop (before.length + span.length) = after ++ rest := by
    rw [htable, h.split, ← List.length_append, List.append_assoc, List.drop_left]
  have hnew := length_layout place.start (place.stop - place.start) new
  have hput : put moved before.length (layout place.start (place.stop - place.start) new) =
      before ++ (layout place.start (place.stop - place.start) new ++
        moved.drop (before.length + new.length)) := by
    unfold put
    rw [hbefore, hnew, List.append_assoc]
  refine ⟨before ++ (layout place.start (place.stop - place.start) new ++
    moved.drop (before.length + new.length)), ?_, List.take_left, ?_, ?_⟩
  · unfold remap
    rw [hplace, Option.bind_some, hfirst, hlast, hmoved, Option.map_some, hput]
  · rw [List.drop_left, ← hnew, List.take_left]
  · rw [← List.drop_drop, List.drop_left]
    nth_rewrite 1 [← hnew]
    rw [List.drop_left, hdrop, hafter, List.append_assoc, List.take_append,
      used_append fun desc hdesc => hused desc (List.mem_of_mem_take hdesc),
      used_take_append_erased hrest, List.append_nil]

theorem Cut.remap_eq_none (h : Cut old (used table) before span after first last) {place : Space}
    (hplace : space table old = some place) (hfirst : place.first = before.length)
    (hlast : place.last + 1 = before.length + span.length)
    (hroom : table.length < before.length + new.length) : remap table old new = none := by
  have hle : before.length + span.length ≤ table.length := by
    obtain ⟨rest, htable, -⟩ := exists_used_append table
    rw [htable, h.split]
    simp only [List.length_append]
    omega
  unfold remap
  rw [hplace, Option.bind_some, hfirst, hlast, moveRest_eq_none hle hroom, Option.map_none]

theorem space_eq_none (h : oldOf table old = []) : space table old = none := by
  have hnone : (used table).findIdx? (Desc.isIn · old) = none := by
    refine List.findIdx?_eq_none_iff.mpr fun desc hdesc => ?_
    exact Bool.eq_false_iff.mpr (List.filter_eq_nil_iff.mp h desc hdesc)
  unfold space
  dsimp only
  rw [hnone, Option.bind_none]

/-- The other entries are kept where the old ones are consecutive and there is room. -/
theorem Cut.others_iff (h : Cut old (used table) before span after first last) (n : ℕ) :
    before ++ after.take n = othersOf table old ↔
      span.filter (fun desc => !desc.isIn old) = [] ∧ after.length ≤ n := by
  unfold othersOf
  rw [h.filter_not_eq, List.append_assoc, List.append_cancel_left_eq]
  constructor
  · intro heq
    have hlengths := congrArg List.length heq
    rw [List.length_take, List.length_append] at hlengths
    exact ⟨List.length_eq_zero_iff.mp (by omega), by omega⟩
  · rintro ⟨hnone, hle⟩
    rw [hnone, List.nil_append, List.take_of_length_le hle]

end Slots

/-! ## The result -/

section Result

variable {table : List Desc} {old new : List FisPart} {place : Space} {low high : ℕ}

/-- The new partitions begin at the lowest base of the old ones. -/
theorem start_eq_of_tiles {descs : List Desc} {start size : UInt32} {desc : Desc}
    (hspans : Spans descs low high) (hdesc : desc ∈ descs) (hstart : desc.flashBase = start)
    (htiles : Tiles low high (layout start size new)) : start.toNat = low := by
  cases new with
  | nil =>
    have heq : low = high := htiles
    have hlow := hspans.low_le desc hdesc
    have hhigh := hspans.le_high desc hdesc
    rw [hstart] at hlow hhigh
    omega
  | cons part parts => exact htiles.1

/-- The new partitions hold the addresses of the old ones where these have no gap. -/
theorem covers_iff {descs olds : List Desc} (hspans : Spans olds low high)
    (htiles : Tiles low high descs) :
    (∀ address, (∃ desc ∈ descs, desc.Holds address) ↔ ∃ desc ∈ olds, desc.Holds address) ↔
      ∀ address, low ≤ address → address < high → ∃ desc ∈ olds, desc.Holds address := by
  constructor
  · intro h address hlow hhigh
    exact (h address).mp ((htiles.exists_holds_iff address).mpr ⟨hlow, hhigh⟩)
  · intro h address
    rw [htiles.exists_holds_iff]
    constructor
    · exact fun hin => h address hin.1 hin.2
    · rintro ⟨desc, hdesc, hholds⟩
      have hlow := hspans.low_le desc hdesc
      have hhigh := hspans.le_high desc hdesc
      unfold Desc.Holds at hholds
      omega

/-- An accepted update is right exactly where the old partitions and their space are as the update
takes them to be. -/
theorem remapsRight_iff (haccepted : validate table old new = true) :
    RemapsRight table old new ↔ Fits table old new := by
  have hsizes : ∀ part ∈ new.dropLast, part.size ≠ 0 := by
    intro part hpart
    have hall := (Bool.and_eq_true_iff.mp haccepted).1
    exact bne_iff_ne.mp (List.all_eq_true.mp hall part hpart)
  by_cases hnone : oldOf table old = []
  · constructor
    · rintro ⟨table', descs, h⟩
      obtain ⟨place, hplace, -⟩ := h.within
      rw [space_eq_none hnone] at hplace
      cases hplace
    · intro h
      obtain ⟨first, _, _, _, _, hfirst, -⟩ := h.space
      rw [hnone] at hfirst
      cases hfirst
  · obtain ⟨before, span, after, first, last, hcut⟩ := exists_cut hnone
    obtain ⟨place, hplace, hfirst, hlast, hstart, hnext⟩ := hcut.space_eq
    have hold : oldOf table old = span.filter (Desc.isIn · old) := hcut.filter_eq
    have hbefore : slotsBefore table old = before.length := hcut.findIdx_eq
    have hused : (used table).length = before.length + span.length + after.length := by
      rw [hcut.split]
      simp only [List.length_append]
    have hle : place.start ≤ place.stop := by
      have hnextle := hnext.le
      rw [UInt32.le_iff_toNat_le]
      omega
    -- the base at which the new partitions start is that of an old one
    have hstartmem : ∃ desc ∈ oldOf table old, desc.flashBase = place.start := by
      have hfirstmem := List.mem_of_head? hcut.head?_filter
      have hlastmem := List.mem_of_getLast? hcut.getLast?_filter
      rw [hold]
      rcases Nat.le_total first.flashBase.toNat last.flashBase.toNat with hmin | hmin
      · rw [Nat.min_eq_left hmin] at hstart
        exact ⟨first, hfirstmem, UInt32.toNat_inj.mp hstart.symm⟩
      · rw [Nat.min_eq_right hmin] at hstart
        exact ⟨last, hlastmem, UInt32.toNat_inj.mp hstart.symm⟩
    constructor
    · rintro ⟨table', descs, h⟩
      have hroom : before.length + new.length ≤ table.length := by
        by_contra hroom
        have heq := h.remap
        rw [hcut.remap_eq_none hplace hfirst hlast (Nat.lt_of_not_le hroom)] at heq
        cases heq
      obtain ⟨found, hfound, htake, hdescs, hafter⟩ :=
        hcut.remap_spec hplace hfirst hlast hroom
      have heq := h.remap
      rw [hfound] at heq
      cases heq
      have hplaced := h.placed
      rw [hbefore, hdescs] at hplaced
      have hothers := h.others
      rw [hbefore, htake, hafter, hcut.others_iff] at hothers
      obtain ⟨low, high, hspans, htiles⟩ := h.tiles
      obtain ⟨place', hplace', -, hwithin⟩ := h.within
      rw [hplace] at hplace'
      cases hplace'
      have hcovers := (covers_iff hspans htiles).mp h.covers
      rw [hplaced] at htiles hwithin
      obtain ⟨desc, hdesc, hbase⟩ := hstartmem
      have hlow := start_eq_of_tiles hspans hdesc hbase htiles
      rw [← hlow] at htiles
      have hfills := (within_and_tiles_iff hsizes hle).mp ⟨hwithin, htiles⟩
      have hall := congrArg List.length (filter_eq_self_of_not hothers.1)
      rw [← hold] at hall
      refine ⟨?_, ?_, first, last, low, high, place.stop.toNat, ?_, ?_, hspans, hcovers, ?_, hnext, ?_⟩
      · rw [hbefore, hold]
        exact hcut.take_drop_eq_filter_iff.mpr hothers.1
      · omega
      · rw [hold]
        exact hcut.head?_filter
      · rw [hold]
        exact hcut.getLast?_filter
      · rw [← hstart, hlow]
      · rw [← hlow]
        exact hfills
    · intro h
      obtain ⟨first', last', low, high, stop, hfirst', hlast', hspans, hcover, hlow, hnext',
        hfills⟩ := h.space
      rw [hold, hcut.head?_filter] at hfirst'
      rw [hold, hcut.getLast?_filter] at hlast'
      cases hfirst'
      cases hlast'
      have hstop := hnext'.unique hnext
      rw [← hlow, ← hstart, hstop] at hfills
      obtain ⟨hwithin, htiles⟩ := (within_and_tiles_iff hsizes hle).mpr hfills
      rw [hstart, hlow] at htiles
      have hslots := h.slots
      rw [hbefore, hold] at hslots
      have hothers := hcut.take_drop_eq_filter_iff.mp hslots
      have hall := congrArg List.length (filter_eq_self_of_not hothers)
      have hroom := h.room
      rw [hold, hused] at hroom
      obtain ⟨table', hremap, htake, hdescs, hafter⟩ :
          ∃ table', remap table old new = some table' ∧ table'.take before.length = before ∧
            (table'.drop before.length).take new.length =
              layout place.start (place.stop - place.start) new ∧
            used (table'.drop (before.length + new.length)) =
              after.take (table.length - (before.length + new.length)) :=
        hcut.remap_spec hplace hfirst hlast (by omega)
      refine ⟨table', layout place.start (place.stop - place.start) new, hremap, ?_,
        map_name_layout _ _ _, ?_, ⟨low, high, hspans, htiles⟩, (covers_iff hspans htiles).mpr hcover,
        place, hplace, hle, hwithin⟩
      · rw [hbefore, hdescs]
      · rw [hbefore, htake, hafter, hcut.others_iff]
        exact ⟨hothers, by omega⟩

end Result

/-! ## Tables -/

instance (desc : Desc) (address : ℕ) : Decidable (desc.Holds address) :=
  inferInstanceAs (Decidable (_ ∧ _))

/-- An entry with a name of one character. -/
def letter (name : UInt8) (flashBase size : UInt32) : Desc :=
  ⟨name :: List.replicate 15 0, flashBase, 0, size, 0, size, List.replicate 212 0, 0, 0⟩

def letterPart (name : UInt8) (size : UInt32) : FisPart :=
  ⟨name :: List.replicate 15 0, 0, size, 0, 0⟩

/-- A boot loader, a kernel and a file system, and the directory above them. -/
def fisTable : List Desc :=
  [letter 98 0 0x30000, letter 107 0x30000 0x100000, letter 114 0x130000 0x6b0000,
    letter 102 0x7e0000 0x20000] ++ List.replicate 12 Desc.erased

/-- The kernel and the file system are replaced by larger ones in the same space. -/
theorem remapsRight_of_fisTable :
    validate fisTable [letterPart 107 0, letterPart 114 0]
        [letterPart 107 0x140000, letterPart 100 0x10000, letterPart 114 0] = true ∧
      RemapsRight fisTable [letterPart 107 0, letterPart 114 0]
        [letterPart 107 0x140000, letterPart 100 0x10000, letterPart 114 0] := by
  have haccepted : validate fisTable [letterPart 107 0, letterPart 114 0]
      [letterPart 107 0x140000, letterPart 100 0x10000, letterPart 114 0] = true := by
    decide +kernel
  refine ⟨haccepted, (remapsRight_iff haccepted).mpr ⟨by decide +kernel, by decide +kernel, ?_⟩⟩
  have hold : oldOf fisTable [letterPart 107 0, letterPart 114 0] =
      [letter 107 0x30000 0x100000, letter 114 0x130000 0x6b0000] := by decide +kernel
  have hused : used fisTable = [letter 98 0 0x30000, letter 107 0x30000 0x100000,
      letter 114 0x130000 0x6b0000, letter 102 0x7e0000 0x20000] := by decide +kernel
  rw [hold, hused]
  refine ⟨letter 107 0x30000 0x100000, letter 114 0x130000 0x6b0000, 0x30000, 0x7e0000, 0x7e0000,
    rfl, rfl, ?_, ?_, by decide, .inl ?_, ⟨by decide +kernel, by decide +kernel⟩⟩
  · exact ⟨by decide +kernel, by decide +kernel, by decide +kernel, by decide +kernel⟩
  · intro address hlow hhigh
    by_cases hkernel : address < 0x130000
    · exact ⟨letter 107 0x30000 0x100000, by simp, hlow, hkernel⟩
    · exact ⟨letter 114 0x130000 0x6b0000, by simp, Nat.le_of_not_lt hkernel, hhigh⟩
  · exact ⟨letter 102 0x7e0000 0x20000, by simp, by decide +kernel, by decide, by decide +kernel⟩

/-- The same partitions with the file system at the end of the flash. -/
def endTable : List Desc :=
  [letter 98 0 0x30000, letter 107 0x50000 0x100000, letter 114 0x150000 0x6b0000,
    letter 102 0x30000 0x20000] ++ List.replicate 12 Desc.erased

/-- Where no base is above the old partitions, the last one is left out of their space. -/
theorem not_remapsRight_of_endTable :
    validate endTable [letterPart 107 0, letterPart 114 0]
        [letterPart 107 0x80000, letterPart 114 0] = true ∧
      ¬ RemapsRight endTable [letterPart 107 0, letterPart 114 0]
        [letterPart 107 0x80000, letterPart 114 0] := by
  refine ⟨by decide +kernel, ?_⟩
  rintro ⟨table', descs, h⟩
  have hold : ∃ desc ∈ oldOf endTable [letterPart 107 0, letterPart 114 0],
      desc.Holds 0x150000 := by decide +kernel
  have hnew : (remap endTable [letterPart 107 0, letterPart 114 0]
      [letterPart 107 0x80000, letterPart 114 0]).map
        (fun table => ((table.drop (slotsBefore endTable [letterPart 107 0, letterPart 114 0])).take
          2).any fun desc => desc.Holds 0x150000) = some false := by decide +kernel
  obtain ⟨desc, hdesc, hholds⟩ := (h.covers 0x150000).mpr hold
  rw [h.remap, Option.map_some, Option.some.injEq, List.any_eq_false] at hnew
  rw [h.placed] at hdesc
  exact hnew desc hdesc (decide_eq_true hholds)

end OpenWrt.Mtd.Fis
