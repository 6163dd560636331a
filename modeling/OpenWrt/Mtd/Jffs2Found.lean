/-
# What the scan of a block finds

The walk takes the nodes one after the other, as far as they have the magic, and what it comes to is
a fold over the entries among them. The directory is the last entry that agrees with the name over
the length in the entry itself, and the counter for versions is raised to the highest version that
was found, which is the one that the next entry gets.
-/

import Mathlib.Data.List.Induction
import OpenWrt.Mtd.Jffs2Parse

namespace OpenWrt.Mtd.Jffs2

/-! ## What should hold -/

/-- The nodes from a place on. -/
inductive Block.Walk (b : Block) : ℕ → List ℕ → Prop
  | past {ofs} (h : b.bytes.length ≤ ofs) : Walk b ofs []
  | bare {ofs magic} (hmagic : b.magic ofs = some magic) (h : magic ≠ 0x1985) : Walk b ofs []
  | node {ofs totlen type rest} (hmagic : b.magic ofs = some 0x1985)
      (htotlen : b.totlen ofs = some totlen) (htype : b.nodetype ofs = some type)
      (hrest : Walk b (next ofs totlen) rest) : Walk b ofs (ofs :: rest)

/-- The inode number and the version of a node. -/
structure Numbers where
  ino : UInt32
  version : UInt32
deriving DecidableEq, Repr

/-- With 1 at the start, `last_ino` before something is added. -/
def Parsed.firstIno (p : Parsed) : UInt32 := if p.lastIno = 0 then 1 else p.lastIno

/-- The numbers of the entry that `add_dirent` makes next, and all that are counted up from them
until a counter overflows, are above those of a node. -/
structure Parsed.Above (p : Parsed) (found : Numbers) : Prop where
  ino : ∀ n, n = 0 ∨ p.firstIno.toNat + 1 + n < 2 ^ 32 →
    found.ino < p.firstIno + 1 + UInt32.ofNat n
  version : ∀ n, n = 0 ∨ p.lastVersion.toNat + n < 2 ^ 32 →
    found.version < p.lastVersion + UInt32.ofNat n

namespace Block

variable (b : Block) (dir : Dir)

/-- What is read of the entry at a place. -/
def entry (ofs : ℕ) : Option Seen :=
  if b.nodetype ofs = some nodetypeDirent then b.seen dir ofs else none

/-- The entry has the root as its parent and exactly the name. -/
def IsNamed (ofs : ℕ) : Prop :=
  dir.name ≠ [] ∧ b.word (ofs + 12) = some 1 ∧ b.read (ofs + 28) 1 = some dir.name.length ∧
    (b.bytes.drop (ofs + 40)).take dir.name.length = dir.name

instance : DecidablePred (b.IsNamed dir) := fun _ => inferInstanceAs (Decidable (_ ∧ _ ∧ _ ∧ _))

def numbers (ofs : ℕ) : Option Numbers :=
  if b.nodetype ofs = some nodetypeDirent then
    (b.word (ofs + 20)).bind fun ino => (b.word (ofs + 16)).map fun version => ⟨ino, version⟩
  else if b.nodetype ofs = some nodetypeInode then
    (b.word (ofs + 12)).bind fun ino => (b.word (ofs + 16)).map fun version => ⟨ino, version⟩
  else none

end Block

/-- The entry that is valid among those of one name: of the highest version, or the last one. -/
def newest (entries : List Seen) : Option Seen :=
  entries.foldl
    (fun best seen =>
      match best with
      | none => some seen
      | some other => if other.version ≤ seen.version then some seen else some other)
    none

/-- The inode of the directory, unless it is not there or its last entry removes it. -/
def Block.targetOf (b : Block) (dir : Dir) (nodes : List ℕ) (before : UInt32) : UInt32 :=
  match newest ((nodes.filter (b.IsNamed dir)).filterMap (b.entry dir)) with
  | some seen => if seen.ino = 0 then before else seen.ino
  | none => before

/-- The scan of a block ends, reads in the block only, and finds the directory and numbers for the
new nodes. -/
def Block.ParsesRight (b : Block) (dir : Dir) (p : Parsed) : Prop :=
  ∃ p', (∃ fuel, b.parse dir fuel 0 p = some p') ∧ ∀ nodes, b.Walk 0 nodes →
    p'.targetIno = b.targetOf dir nodes p.targetIno ∧
      ∀ found ∈ nodes.filterMap b.numbers, p'.Above found

/-! ## The condition -/

/-- An entry and as much of its name as is compared are inside the block. -/
def Block.Readable (b : Block) (dir : Dir) (ofs : ℕ) : Prop :=
  b.nodetype ofs = some nodetypeDirent → (b.seen dir ofs).isSome

/-- The last entry of the root that agrees with the name over its own length has the inode of the
valid one with exactly the name. -/
def Block.TakesNamed (b : Block) (dir : Dir) (nodes : List ℕ) (before : UInt32) : Prop :=
  ∀ seen, ((nodes.filterMap (b.entry dir)).filter Seen.taken).getLast? = some seen →
    seen.ino = b.targetOf dir nodes before

/-- A version is below the counter from before the block, and an inode number is not above all
those that are counted; neither is the last number there is. -/
structure Parsed.Counted (p : Parsed) (entries : List Seen) (found : Numbers) : Prop where
  version : found.version < p.lastVersion
  ino : found.ino ≤ 1 ∨ found.ino ≤ p.lastIno ∨ ∃ seen ∈ entries, found.ino ≤ seen.ino
  before_lt : p.lastIno.toNat + 1 < 2 ^ 32
  entries_lt : ∀ seen ∈ entries, seen.ino.toNat + 1 < 2 ^ 32

/-! ## The walk -/

section Walk

variable {b : Block} {dir : Dir} {ofs : ℕ} {p p' : Parsed} {nodes : List ℕ}

theorem Block.magic_lt {value : ℕ} (h : b.magic ofs = some value) : ofs < b.bytes.length := by
  unfold magic read at h
  split at h
  · omega
  · cases h

theorem Block.Walk.unique (h : b.Walk ofs nodes) {others : List ℕ} (hothers : b.Walk ofs others) :
    nodes = others := by
  induction h generalizing others with
  | past h =>
    cases hothers with
    | past | bare => rfl
    | node hmagic => exact absurd (Block.magic_lt hmagic) (Nat.not_lt_of_le h)
  | bare hmagic h =>
    cases hothers with
    | past | bare => rfl
    | node hmagic' =>
      rw [hmagic] at hmagic'
      exact absurd (Option.some.inj hmagic') h
  | node hmagic htotlen htype _ ih =>
    cases hothers with
    | past h => exact absurd (Block.magic_lt hmagic) (Nat.not_lt_of_le h)
    | bare hmagic' h =>
      rw [hmagic] at hmagic'
      exact absurd (Option.some.inj hmagic').symm h
    | node _ htotlen' _ hrest' =>
      rw [htotlen] at htotlen'
      cases htotlen'
      rw [ih hrest']

/-- The result is a fold over the entries. -/
theorem Block.exists_parse_iff : (∃ fuel, b.parse dir fuel ofs p = some p') ↔
    ∃ nodes, b.Walk ofs nodes ∧ (∀ node ∈ nodes, b.Readable dir node) ∧
      (nodes.filterMap (b.entry dir)).foldl Parsed.note p = p' := by
  constructor
  · rintro ⟨fuel, hparse⟩
    induction fuel generalizing ofs p with
    | zero => cases hparse
    | succ fuel ih =>
      rw [parse] at hparse
      split at hparse
      case isFalse hlt =>
        cases hparse
        exact ⟨[], .past (Nat.le_of_not_lt hlt), by simp, rfl⟩
      case isTrue =>
        obtain ⟨magic, hmagic, hparse⟩ := Option.bind_eq_some_iff.mp hparse
        split at hparse
        case isTrue hbare =>
          cases hparse
          exact ⟨[], .bare hmagic hbare, by simp, rfl⟩
        case isFalse hnode =>
          rw [Decidable.not_not.mp hnode] at hmagic
          obtain ⟨totlen, htotlen, hparse⟩ := Option.bind_eq_some_iff.mp hparse
          obtain ⟨type, htype, hparse⟩ := Option.bind_eq_some_iff.mp hparse
          split at hparse
          case isTrue hdirent =>
            obtain ⟨seen, hseen, hparse⟩ := Option.bind_eq_some_iff.mp hparse
            obtain ⟨nodes, hwalk, hreadable, hfold⟩ := ih hparse
            rw [hdirent] at htype
            have hentry : b.entry dir ofs = some seen := by rw [entry, if_pos htype, hseen]
            refine ⟨ofs :: nodes, .node hmagic htotlen htype hwalk,
              List.forall_mem_cons.mpr ⟨fun _ => ?_, hreadable⟩, ?_⟩
            · rw [hseen]
              rfl
            · rw [List.filterMap_cons_some hentry]
              exact hfold
          case isFalse hother =>
            obtain ⟨nodes, hwalk, hreadable, hfold⟩ := ih hparse
            have hne : b.nodetype ofs ≠ some nodetypeDirent := by
              rw [htype]
              exact fun h => hother (Option.some.inj h)
            have hentry : b.entry dir ofs = none := by rw [entry, if_neg hne]
            refine ⟨ofs :: nodes, .node hmagic htotlen htype hwalk,
              List.forall_mem_cons.mpr ⟨fun h => absurd h hne, hreadable⟩, ?_⟩
            rw [List.filterMap_cons_none hentry]
            exact hfold
  · rintro ⟨nodes, hwalk, hreadable, hfold⟩
    induction hwalk generalizing p with
    | past h =>
      refine ⟨1, ?_⟩
      rw [parse, if_neg (Nat.not_lt_of_le h)]
      exact congrArg some hfold
    | bare hmagic h =>
      refine ⟨1, ?_⟩
      rw [parse, if_pos (magic_lt hmagic), hmagic, Option.bind_some, if_pos h]
      exact congrArg some hfold
    | @node ofs totlen type rest hmagic htotlen htype _ ih =>
      obtain ⟨hnode, hrest⟩ := List.forall_mem_cons.mp hreadable
      by_cases hdirent : type = nodetypeDirent
      · rw [hdirent] at htype
        obtain ⟨seen, hseen⟩ := Option.isSome_iff_exists.mp (hnode htype)
        have hentry : b.entry dir ofs = some seen := by rw [entry, if_pos htype, hseen]
        rw [List.filterMap_cons_some hentry] at hfold
        obtain ⟨fuel, hparse⟩ := ih hrest hfold
        refine ⟨fuel + 1, ?_⟩
        rw [parse, if_pos (magic_lt hmagic), hmagic, Option.bind_some, if_neg (by decide),
          htotlen, Option.bind_some, htype, Option.bind_some, if_pos rfl, hseen,
          Option.bind_some]
        exact hparse
      · have hne : b.nodetype ofs ≠ some nodetypeDirent := by
          rw [htype]
          exact fun h => hdirent (Option.some.inj h)
        have hentry : b.entry dir ofs = none := by rw [entry, if_neg hne]
        rw [List.filterMap_cons_none hentry] at hfold
        obtain ⟨fuel, hparse⟩ := ih hrest hfold
        refine ⟨fuel + 1, ?_⟩
        rw [parse, if_pos (magic_lt hmagic), hmagic, Option.bind_some, if_neg (by decide),
          htotlen, Option.bind_some, htype, Option.bind_some, if_neg hdirent]
        exact hparse

end Walk

/-! ## The fold -/

section Fold

variable {b : Block} {dir : Dir} {p : Parsed} {entries : List Seen} {nodes : List ℕ}
  {before : UInt32}

theorem Parsed.targetIno_foldl_note :
    (entries.foldl Parsed.note p).targetIno =
      (((entries.filter Seen.taken).getLast?).map Seen.ino).getD p.targetIno := by
  induction entries using List.reverseRecOn with
  | nil => rfl
  | append_singleton entries seen ih =>
    rw [List.foldl_append, List.filter_append]
    change (if seen.taken then seen.ino else _) = _
    by_cases htaken : seen.taken
    · rw [if_pos htaken, List.filter_cons_of_pos htaken, List.filter_nil, List.getLast?_concat]
      rfl
    · rw [if_neg htaken, List.filter_cons_of_neg htaken, List.filter_nil, List.append_nil]
      exact ih

def raise (counter value : UInt32) : UInt32 := if counter < value then value else counter

theorem foldl_raise (values : List UInt32) (counter : UInt32) :
    counter ≤ values.foldl raise counter ∧
      (∀ value ∈ values, value ≤ values.foldl raise counter) ∧
        (values.foldl raise counter = counter ∨ values.foldl raise counter ∈ values) := by
  induction values generalizing counter with
  | nil => exact ⟨UInt32.le_refl _, by simp, .inl rfl⟩
  | cons value values ih =>
    obtain ⟨hle, hall, hmem⟩ := ih (raise counter value)
    rw [List.foldl_cons]
    have hcounter : counter ≤ raise counter value := by
      unfold raise
      split
      case isTrue hlt => exact UInt32.le_of_lt hlt
      case isFalse => exact UInt32.le_refl _
    have hvalue : value ≤ raise counter value := by
      unfold raise
      split
      case isTrue => exact UInt32.le_refl _
      case isFalse hlt => exact UInt32.not_lt.mp hlt
    refine ⟨UInt32.le_trans hcounter hle, List.forall_mem_cons.mpr
      ⟨UInt32.le_trans hvalue hle, hall⟩, ?_⟩
    rcases hmem with heq | hmem
    · rw [heq]
      unfold raise
      split
      · exact .inr List.mem_cons_self
      · exact .inl rfl
    · exact .inr (List.mem_cons_of_mem value hmem)

theorem Parsed.lastIno_foldl_note :
    (entries.foldl Parsed.note p).lastIno = (entries.map Seen.ino).foldl raise p.lastIno := by
  induction entries generalizing p with
  | nil => rfl
  | cons seen entries ih => exact ih

theorem Parsed.lastVersion_foldl_note :
    (entries.foldl Parsed.note p).lastVersion =
      (entries.map Seen.version).foldl raise p.lastVersion := by
  induction entries generalizing p with
  | nil => rfl
  | cons seen entries ih => exact ih

/-- An entry with exactly the name is taken. -/
theorem Block.strncmp_of_take {name : List UInt8} (hnul : 0 ∉ name) {ofs : ℕ}
    (h : (b.bytes.drop ofs).take name.length = name) :
    b.strncmp ofs name name.length = some true := by
  induction name generalizing ofs with
  | nil => simp only [List.length_nil, strncmp]
  | cons char name ih =>
    cases hdrop : b.bytes.drop ofs with
    | nil =>
      rw [hdrop] at h
      cases h
    | cons byte bytes =>
      rw [hdrop, List.length_cons, List.take_succ_cons] at h
      obtain ⟨hbyte, hbytes⟩ := List.cons.inj h
      have hfirst : b.bytes[ofs]? = some char := by
        rw [← hbyte, ← List.head?_drop, hdrop, List.head?_cons]
      have hrest : b.bytes.drop (ofs + 1) = bytes := by
        rw [← List.tail_drop, hdrop, List.tail_cons]
      have hchar : char ≠ 0 := fun hzero => hnul (by rw [hzero]; exact List.mem_cons_self)
      rw [List.length_cons, strncmp, hfirst, Option.bind_some, if_neg (not_not_intro rfl),
        if_neg hchar]
      exact ih (fun hmem => hnul (List.mem_cons_of_mem char hmem)) (hrest ▸ hbytes)

theorem Block.taken_of_isNamed {ofs : ℕ} {seen : Seen} (hnamed : b.IsNamed dir ofs)
    (hentry : b.entry dir ofs = some seen) : seen.taken = true := by
  obtain ⟨hname, hpino, hnsize, htake⟩ := hnamed
  have htaken : b.isTaken dir ofs = some true := by
    rw [isTaken, if_neg hname, hpino, Option.bind_some, if_neg (not_not_intro rfl), hnsize,
      Option.bind_some]
    exact strncmp_of_take dir.noNul htake
  unfold entry at hentry
  split at hentry
  case isFalse => cases hentry
  case isTrue =>
    obtain ⟨taken, heq, hrest⟩ := Option.bind_eq_some_iff.mp hentry
    obtain ⟨ino, -, hrest⟩ := Option.bind_eq_some_iff.mp hrest
    obtain ⟨version, -, hseen⟩ := Option.map_eq_some_iff.mp hrest
    rw [htaken] at heq
    rw [← hseen]
    exact (Option.some.inj heq).symm

theorem Block.targetOf_of_not_taken
    (h : (nodes.filterMap (b.entry dir)).filter Seen.taken = []) :
    b.targetOf dir nodes before = before := by
  have hnone : (nodes.filter (b.IsNamed dir)).filterMap (b.entry dir) = [] := by
    refine List.filterMap_eq_nil_iff.mpr fun ofs hofs => ?_
    obtain ⟨hmem, hnamed⟩ := List.mem_filter.mp hofs
    cases hentry : b.entry dir ofs with
    | none => rfl
    | some seen =>
      have htaken := taken_of_isNamed (of_decide_eq_true hnamed) hentry
      exact absurd htaken
        (List.filter_eq_nil_iff.mp h seen (List.mem_filterMap.mpr ⟨ofs, hmem, hentry⟩))
  unfold targetOf
  rw [hnone]
  rfl

theorem Block.targetIno_eq_targetOf_iff :
    ((nodes.filterMap (b.entry dir)).foldl Parsed.note p).targetIno =
        b.targetOf dir nodes p.targetIno ↔ b.TakesNamed dir nodes p.targetIno := by
  unfold TakesNamed
  rw [Parsed.targetIno_foldl_note]
  cases hlast : ((nodes.filterMap (b.entry dir)).filter Seen.taken).getLast? with
  | none =>
    rw [targetOf_of_not_taken (List.getLast?_eq_none_iff.mp hlast)]
    exact ⟨fun _ _ h => (nomatch h), fun _ => rfl⟩
  | some seen =>
    constructor
    · rintro heq _ ⟨⟩
      exact heq
    · exact fun h => h seen rfl

/-! ## The numbers -/

/-- The next inode number is above a number. -/
theorem Parsed.above_ino_iff {ino : UInt32} :
    (∀ n, n = 0 ∨ p.firstIno.toNat + 1 + n < 2 ^ 32 → ino < p.firstIno + 1 + UInt32.ofNat n) ↔
      p.firstIno.toNat + 1 < 2 ^ 32 ∧ ino ≤ p.firstIno := by
  have hlt := p.firstIno.toNat_lt
  constructor
  · intro h
    have hzero := h 0 (.inl rfl)
    rw [UInt32.lt_iff_toNat_lt, UInt32.toNat_add, UInt32.toNat_add, UInt32.toNat_ofNat',
      UInt32.toNat_one] at hzero
    rw [UInt32.le_iff_toNat_le]
    omega
  · rintro ⟨hmore, hle⟩ n hn
    rw [UInt32.le_iff_toNat_le] at hle
    rw [UInt32.lt_iff_toNat_lt, UInt32.toNat_add, UInt32.toNat_add, UInt32.toNat_ofNat',
      UInt32.toNat_one]
    omega

theorem Parsed.above_version_iff {version : UInt32} :
    (∀ n, n = 0 ∨ p.lastVersion.toNat + n < 2 ^ 32 →
      version < p.lastVersion + UInt32.ofNat n) ↔ version < p.lastVersion := by
  constructor
  · intro h
    have hzero := h 0 (.inl rfl)
    change version < p.lastVersion + 0 at hzero
    rwa [UInt32.add_zero] at hzero
  · intro h n hn
    have hlt := p.lastVersion.toNat_lt
    rw [UInt32.lt_iff_toNat_lt] at h
    rw [UInt32.lt_iff_toNat_lt, UInt32.toNat_add, UInt32.toNat_ofNat']
    omega

/-- The highest number that is counted, from 1. -/
theorem Parsed.le_firstIno_foldl_note_iff {ino : UInt32} :
    ino ≤ (entries.foldl Parsed.note p).firstIno ↔
      ino ≤ 1 ∨ ino ≤ p.lastIno ∨ ∃ seen ∈ entries, ino ≤ seen.ino := by
  obtain ⟨hle, hall, hmem⟩ := foldl_raise (entries.map Seen.ino) p.lastIno
  unfold firstIno
  rw [lastIno_foldl_note]
  generalize (entries.map Seen.ino).foldl raise p.lastIno = last at hle hall hmem
  have hone : (1 : UInt32) ≤ if last = 0 then 1 else last := by
    split
    case isTrue => exact UInt32.le_refl _
    case isFalse hzero =>
      rw [UInt32.le_iff_toNat_le, UInt32.toNat_one]
      exact Nat.pos_of_ne_zero fun h => hzero (UInt32.toNat_inj.mp h)
  have hlast : last ≤ if last = 0 then 1 else last := by
    split
    case isTrue hzero =>
      rw [hzero]
      decide
    case isFalse => exact UInt32.le_refl _
  constructor
  · intro h
    split at h
    case isTrue => exact .inl h
    case isFalse =>
      rcases hmem with heq | hmem
      · exact .inr (.inl (heq ▸ h))
      · obtain ⟨seen, hseen, heq⟩ := List.mem_map.mp hmem
        exact .inr (.inr ⟨seen, hseen, heq ▸ h⟩)
  · rintro (h | h | ⟨seen, hseen, h⟩)
    · exact UInt32.le_trans h hone
    · exact UInt32.le_trans h (UInt32.le_trans hle hlast)
    · exact UInt32.le_trans h
        (UInt32.le_trans (hall _ (List.mem_map_of_mem hseen)) hlast)

/-- The highest number that is counted is not the last one. -/
theorem Parsed.firstIno_foldl_note_lt_iff :
    (entries.foldl Parsed.note p).firstIno.toNat + 1 < 2 ^ 32 ↔
      p.lastIno.toNat + 1 < 2 ^ 32 ∧ ∀ seen ∈ entries, seen.ino.toNat + 1 < 2 ^ 32 := by
  have hle : ∀ ino : UInt32, ino ≤ (entries.foldl Parsed.note p).firstIno →
      (entries.foldl Parsed.note p).firstIno.toNat + 1 < 2 ^ 32 → ino.toNat + 1 < 2 ^ 32 := by
    intro ino hino hlt
    rw [UInt32.le_iff_toNat_le] at hino
    omega
  constructor
  · intro hlt
    exact ⟨hle _ (le_firstIno_foldl_note_iff.mpr (.inr (.inl (UInt32.le_refl _)))) hlt,
      fun seen hseen =>
        hle _ (le_firstIno_foldl_note_iff.mpr (.inr (.inr ⟨seen, hseen, UInt32.le_refl _⟩))) hlt⟩
  · rintro ⟨hbefore, hentries⟩
    have hlast : (entries.foldl Parsed.note p).firstIno ≤ 1 ∨
        (entries.foldl Parsed.note p).firstIno ≤ p.lastIno ∨
          ∃ seen ∈ entries, (entries.foldl Parsed.note p).firstIno ≤ seen.ino :=
      le_firstIno_foldl_note_iff.mp (UInt32.le_refl _)
    rcases hlast with h | h | ⟨seen, hseen, h⟩
    · rw [UInt32.le_iff_toNat_le, UInt32.toNat_one] at h
      omega
    · rw [UInt32.le_iff_toNat_le] at h
      omega
    · have hseen := hentries seen hseen
      rw [UInt32.le_iff_toNat_le] at h
      omega

/-- The numbers of an entry that is noted are among those that are found. -/
theorem Block.exists_numbers_of_entry {seen : Seen} (h : seen ∈ nodes.filterMap (b.entry dir)) :
    ⟨seen.ino, seen.version⟩ ∈ nodes.filterMap b.numbers := by
  obtain ⟨ofs, hofs, hentry⟩ := List.mem_filterMap.mp h
  refine List.mem_filterMap.mpr ⟨ofs, hofs, ?_⟩
  unfold entry at hentry
  split at hentry
  case isFalse => cases hentry
  case isTrue hdirent =>
    obtain ⟨taken, -, hrest⟩ := Option.bind_eq_some_iff.mp hentry
    obtain ⟨ino, hino, hrest⟩ := Option.bind_eq_some_iff.mp hrest
    obtain ⟨version, hversion, hseen⟩ := Option.map_eq_some_iff.mp hrest
    rw [numbers, if_pos hdirent, hino, Option.bind_some, hversion, Option.map_some, ← hseen]

/-- All numbers that are found are below the next ones where the versions are already below the
counter before the block. -/
theorem Block.above_iff :
    (∀ found ∈ nodes.filterMap b.numbers,
      ((nodes.filterMap (b.entry dir)).foldl Parsed.note p).Above found) ↔
        ∀ found ∈ nodes.filterMap b.numbers, p.Counted (nodes.filterMap (b.entry dir)) found := by
  have hnumbers : ∀ seen ∈ nodes.filterMap (b.entry dir),
      ⟨seen.ino, seen.version⟩ ∈ nodes.filterMap b.numbers := fun _ h => exists_numbers_of_entry h
  generalize nodes.filterMap (b.entry dir) = entries at hnumbers ⊢
  generalize nodes.filterMap b.numbers = all at hnumbers ⊢
  obtain ⟨hle, -, hmem⟩ := foldl_raise (entries.map Seen.version) p.lastVersion
  rw [← Parsed.lastVersion_foldl_note] at hle hmem
  constructor
  · intro h
    -- no entry has the version that the counter has in the end
    have hkept : (entries.foldl Parsed.note p).lastVersion = p.lastVersion := by
      refine hmem.resolve_right fun hmem => ?_
      obtain ⟨seen, hseen, heq⟩ := List.mem_map.mp hmem
      have habove := Parsed.above_version_iff.mp (h _ (hnumbers seen hseen)).version
      rw [← heq] at habove
      exact UInt32.lt_irrefl _ habove
    intro found hfound
    obtain ⟨hino, hversion⟩ := h found hfound
    obtain ⟨hlt, hino⟩ := Parsed.above_ino_iff.mp hino
    obtain ⟨hbefore, hentries⟩ := Parsed.firstIno_foldl_note_lt_iff.mp hlt
    have hversion := Parsed.above_version_iff.mp hversion
    rw [hkept] at hversion
    exact ⟨hversion, Parsed.le_firstIno_foldl_note_iff.mp hino, hbefore, hentries⟩
  · intro h found hfound
    obtain ⟨hversion, hino, hbefore, hentries⟩ := h found hfound
    refine ⟨Parsed.above_ino_iff.mpr ⟨?_, ?_⟩, Parsed.above_version_iff.mpr ?_⟩
    · exact Parsed.firstIno_foldl_note_lt_iff.mpr ⟨hbefore, hentries⟩
    · exact Parsed.le_firstIno_foldl_note_iff.mpr hino
    · exact UInt32.lt_of_lt_of_le hversion hle

end Fold

/-! ## The result -/

/-- The scan of a block is right where the walk over the nodes comes to an end, with the entries
inside the block, the last one taken for the directory is the valid one, and all versions are below
the counter from before. -/
theorem Block.parsesRight_iff (b : Block) (dir : Dir) (p : Parsed) :
    b.ParsesRight dir p ↔ ∃ nodes, b.Walk 0 nodes ∧ (∀ node ∈ nodes, b.Readable dir node) ∧
      b.TakesNamed dir nodes p.targetIno ∧
        ∀ found ∈ nodes.filterMap b.numbers, p.Counted (nodes.filterMap (b.entry dir)) found := by
  constructor
  · rintro ⟨p', hparse, hright⟩
    obtain ⟨nodes, hwalk, hreadable, hfold⟩ := exists_parse_iff.mp hparse
    obtain ⟨htarget, habove⟩ := hright nodes hwalk
    rw [← hfold] at htarget habove
    exact ⟨nodes, hwalk, hreadable, targetIno_eq_targetOf_iff.mp htarget, above_iff.mp habove⟩
  · rintro ⟨nodes, hwalk, hreadable, htakes, hcounted⟩
    refine ⟨_, exists_parse_iff.mpr ⟨nodes, hwalk, hreadable, rfl⟩, fun others hothers => ?_⟩
    rw [← hwalk.unique hothers]
    exact ⟨targetIno_eq_targetOf_iff.mpr htakes, above_iff.mpr hcounted⟩

/-- A directory of the root, with the first version there is, as `add_dir` writes it. -/
def tmpBlock : Block where
  order := .little
  bytes :=
    [0x85, 0x19, 0x01, 0xe0, 43, 0, 0, 0, 0, 0, 0, 0, 1, 0, 0, 0, 0, 0, 0, 0, 2, 0, 0, 0,
      0, 0, 0, 0, 3, 4, 0, 0, 0, 0, 0, 0, 0, 0, 0, 0, 116, 109, 112, 0xff] ++
    List.replicate 4052 0xff
  lt := by decide +kernel

/-- `tmp` -/
def tmpDir : Dir := ⟨[116, 109, 112], by decide⟩

/-- The next entry after the one that was found gets the same version. -/
theorem not_parsesRight_of_tmp : ¬ tmpBlock.ParsesRight tmpDir ⟨0, 0, 0⟩ := by
  rintro ⟨p', hparse, hright⟩
  have hlength : tmpBlock.totlen 0 = some 43 := by decide +kernel
  have htype : tmpBlock.nodetype 0 = some Block.nodetypeDirent := by decide +kernel
  have hend : tmpBlock.magic (Block.next 0 43) = some 0xffff := by decide +kernel
  have hwalk : tmpBlock.Walk 0 [0] :=
    .node (by decide +kernel) hlength htype (.bare hend (by decide))
  obtain ⟨nodes, hnodes, -, hfold⟩ := Block.exists_parse_iff.mp hparse
  rw [← hwalk.unique hnodes] at hfold
  have hp' : p' = ⟨2, 2, 0⟩ := by
    rw [← hfold]
    decide +kernel
  have hfound : (⟨2, 0⟩ : Numbers) ∈ [0].filterMap tmpBlock.numbers := by decide +kernel
  have habove := (hright [0] hwalk).2 _ hfound
  have hversion := habove.version 0 (.inl rfl)
  rw [hp'] at hversion
  exact absurd hversion (by decide)

end OpenWrt.Mtd.Jffs2
