/-
# Where the nodes are placed

A block is filled from its start with a clean marker, whole nodes at aligned places, and padding.
The space for the data of a file is computed before it is stored. For an entry the test is the wrong
way round and never finds that the block is full, so an entry has to fit by itself.
-/

import OpenWrt.Lib.Run
import OpenWrt.Mtd.Jffs2

namespace OpenWrt.Mtd.Jffs2

open Lib

/-! ## What should hold -/

/-- The pieces fill a block from one place to another: each node is whole, aligned and inside the
block, and the rest is the clean marker at the start and padding. -/
inductive Laid (erasesize : ℕ) : ℕ → List Piece → ℕ → Prop
  | nil {ofs} : Laid erasesize ofs [] ofs
  | cleanMarker {pieces stop} (fits : 12 ≤ erasesize) (rest : Laid erasesize 12 pieces stop) :
      Laid erasesize 0 (⟨0, .cleanMarker⟩ :: pieces) stop
  | padding {ofs size pieces stop} (fits : ofs + size ≤ erasesize)
      (rest : Laid erasesize (ofs + size) pieces stop) :
      Laid erasesize ofs (⟨ofs, .padding size⟩ :: pieces) stop
  | dirent {ofs de name pieces stop} (aligned : ofs % 4 = 0)
      (named : de.nsize.toNat = name.length) (sized : de.totlen = 40 + name.length)
      (fits : ofs + de.totlen ≤ erasesize) (rest : Laid erasesize (ofs + de.totlen) pieces stop) :
      Laid erasesize ofs (⟨ofs, .dirent de name⟩ :: pieces) stop
  | /-- The inode of a directory. -/
    empty {ofs ri pieces stop} (aligned : ofs % 4 = 0) (sized : ri.totlen = 68)
      (fits : ofs + ri.totlen ≤ erasesize) (rest : Laid erasesize (ofs + ri.totlen) pieces stop) :
      Laid erasesize ofs (⟨ofs, .inode ri⟩ :: pieces) stop
  | inode {ofs ri bytes pieces stop} (aligned : ofs % 4 = 0)
      (sized : ri.totlen = 68 + bytes.length) (fits : ofs + ri.totlen ≤ erasesize)
      (rest : Laid erasesize (ofs + ri.totlen) pieces stop) :
      Laid erasesize ofs (⟨ofs, .inode ri⟩ :: ⟨ofs + 68, .data ri bytes⟩ :: pieces) stop

/-- All blocks that were written are full, and the one in the buffer is filled up to an aligned
place. -/
structure Placed (g : Geometry) (s : State) : Prop where
  lt : s.ofs < g.erasesize
  aligned : s.ofs % 4 = 0
  buf : Laid g.erasesize 0 s.buf s.ofs
  blocks : ∀ block ∈ s.blocks, Laid g.erasesize 0 block g.erasesize

def Piece.node (piece : Piece) : Option (RawInode × List UInt8) :=
  match piece.content with
  | .data ri bytes => some (ri, bytes)
  | _ => none

def Piece.entry (piece : Piece) : Option (RawDirent × List UInt8) :=
  match piece.content with
  | .dirent de name => some (de, name)
  | _ => none

namespace State

variable (s : State)

/-- Everything that was stored, in its order. -/
def pieces : List Piece := s.blocks.flatten ++ s.buf

def nodes : List (RawInode × List UInt8) := s.pieces.filterMap Piece.node

def entries : List (RawDirent × List UInt8) := s.pieces.filterMap Piece.entry

end State

/-- What is added. -/
inductive Add
  | dir (name : List UInt8) (parent : UInt32)
  | file (file : State.File) (parent : UInt32)

def State.add (g : Geometry) (s : State) : Add → Option State
  | .dir name parent => (s.addDir g name parent).map Prod.fst
  | .file file parent => s.addFile g file parent

/-- The inodes of a file, in the order of their versions, have its bytes. -/
structure HasBytes (s s' : State) (file : State.File) (inode : UInt32) : Prop where
  nodes : ∃ added, s'.nodes = s.nodes ++ added ∧ (∀ node ∈ added, node.1.ino = inode) ∧
    added.Pairwise (fun node later => node.1.version < later.1.version) ∧
      added.flatMap Prod.snd = file.bytes

def Add.Right (g : Geometry) (s : State) (add : Add) : Prop :=
  ∃ s', s.add g add = some s' ∧ Placed g s' ∧
    match add with
    | .dir name parent =>
      s'.nodes = s.nodes ∧ ∃ de, s'.entries = s.entries ++ [(de, name)] ∧ de.pino = parent
    | .file f parent =>
      ∃ de, s'.entries = s.entries ++ [(de, f.fname)] ∧ de.pino = parent ∧
        HasBytes s s' f de.ino

/-! ## The condition -/

def Add.name : Add → List UInt8
  | .dir name _ => name
  | .file f _ => f.fname

/-- The versions that may be used for the data. -/
def Add.versions : Add → ℕ
  | .dir _ _ => 0
  | .file f _ => f.bytes.length

/-- A name of one byte for its length, whose entry fits into what is left of the block, in blocks
that have room for some data, and with versions left. -/
structure Add.Fits (g : Geometry) (s : State) (add : Add) : Prop where
  four_dvd : 4 ∣ g.erasesize
  room : 208 < g.erasesize
  name : add.name.length < 256
  entry : (if s.ofs = 0 then 12 else s.ofs) + 40 + add.name.length ≤ g.erasesize
  versions : s.lastVersion.toNat + 1 + add.versions < 2 ^ 32

/-! ## The buffer -/

section Buffer

variable {g : Geometry} {s s' : State} {erasesize start middle stop : ℕ}
  {pieces more : List Piece} {size : ℕ}

theorem Laid.append (h : Laid erasesize start pieces middle) (hmore : Laid erasesize middle more stop) :
    Laid erasesize start (pieces ++ more) stop := by
  induction h with
  | nil => exact hmore
  | cleanMarker fits _ ih => exact .cleanMarker fits (ih hmore)
  | padding fits _ ih => exact .padding fits (ih hmore)
  | dirent aligned named sized fits _ ih => exact .dirent aligned named sized fits (ih hmore)
  | empty aligned sized fits _ ih => exact .empty aligned sized fits (ih hmore)
  | inode aligned sized fits _ ih => exact .inode aligned sized fits (ih hmore)

/-- The buffer is filled up to a place that need not be aligned, or is its end. -/
structure Filled (g : Geometry) (s : State) : Prop where
  le : s.ofs ≤ g.erasesize
  buf : Laid g.erasesize 0 s.buf s.ofs
  blocks : ∀ block ∈ s.blocks, Laid g.erasesize 0 block g.erasesize

theorem Placed.filled (h : Placed g s) : Filled g s := ⟨Nat.le_of_lt h.lt, h.buf, h.blocks⟩

/-- The nodes and the counters are the same. -/
structure Keeps (s s' : State) : Prop where
  nodes : s'.nodes = s.nodes
  entries : s'.entries = s.entries
  lastIno : s'.lastIno = s.lastIno
  lastVersion : s'.lastVersion = s.lastVersion

theorem Keeps.refl : Keeps s s := ⟨rfl, rfl, rfl, rfl⟩

theorem Keeps.trans {s'' : State} (h : Keeps s s') (h' : Keeps s' s'') : Keeps s s'' :=
  ⟨h'.nodes.trans h.nodes, h'.entries.trans h.entries, h'.lastIno.trans h.lastIno,
    h'.lastVersion.trans h.lastVersion⟩

namespace State

theorem pieces_put (content : Content) :
    (s.put content).pieces = s.pieces ++ [⟨s.ofs, content⟩] := by
  unfold pieces put
  rw [List.append_assoc]

theorem nodes_put (content : Content) :
    (s.put content).nodes = s.nodes ++ [⟨s.ofs, content⟩].filterMap Piece.node := by
  rw [nodes, pieces_put, List.filterMap_append]
  rfl

theorem entries_put (content : Content) :
    (s.put content).entries = s.entries ++ [⟨s.ofs, content⟩].filterMap Piece.entry := by
  rw [entries, pieces_put, List.filterMap_append]
  rfl

theorem keeps_put {content : Content} (hnode : Piece.node ⟨s.ofs, content⟩ = none)
    (hentry : Piece.entry ⟨s.ofs, content⟩ = none) : Keeps s (s.put content) := by
  refine ⟨?_, ?_, rfl, rfl⟩
  · rw [nodes_put, List.filterMap_cons_none hnode, List.filterMap_nil, List.append_nil]
  · rw [entries_put, List.filterMap_cons_none hentry, List.filterMap_nil, List.append_nil]

/-- The buffer is written to the next block. -/
def flush (s : State) : State :=
  { s with
    ofs := 0
    buf := []
    blocks := s.blocks ++ [s.buf] }

theorem keeps_flush : Keeps s s.flush := by
  have hpieces : s.flush.pieces = s.pieces := by
    unfold flush pieces
    rw [List.flatten_append, List.flatten_cons, List.flatten_nil, List.append_nil,
      List.append_nil]
  exact ⟨congrArg (List.filterMap Piece.node) hpieces,
    congrArg (List.filterMap Piece.entry) hpieces, rfl, rfl⟩

theorem filled_flush (h : Filled g s) (hofs : s.ofs = g.erasesize) : Filled g s.flush := by
  refine ⟨Nat.zero_le _, .nil, fun block hblock => ?_⟩
  rcases List.mem_append.mp hblock with hblock | hblock
  · exact h.blocks block hblock
  · rw [List.mem_singleton.mp hblock]
    have hbuf := h.buf
    rwa [hofs] at hbuf

/-- What padding to a part of the block does. -/
structure Padded (g : Geometry) (size : ℕ) (s s' : State) : Prop where
  filled : Filled g s'
  lt : s'.ofs < g.erasesize
  dvd : s'.ofs % size = 0
  keeps : Keeps s s'

theorem padded_end (h : Filled g s) (hpos : 0 < s.ofs) (hdvd : s.ofs % size = 0) :
    Padded g size s
      (if s.ofs % g.erasesize = 0 then s.flush else { s with ofs := s.ofs % g.erasesize }) := by
  by_cases hend : s.ofs = g.erasesize
  · rw [hend, Nat.mod_self, if_pos rfl]
    exact ⟨filled_flush h hend, g.pos, Nat.zero_mod _, keeps_flush⟩
  · have hlt : s.ofs < g.erasesize := Nat.lt_of_le_of_ne h.le hend
    rw [Nat.mod_eq_of_lt hlt, if_neg (Nat.ne_of_gt hpos)]
    exact ⟨h, hlt, hdvd, .refl⟩

theorem padded_pad (h : Filled g s) (hsize : size ∣ g.erasesize) :
    Padded g size s (s.pad g size) := by
  unfold pad
  split
  case isTrue hdone => exact ⟨h, hdone.2, hdone.1, .refl⟩
  case isFalse hnot =>
    by_cases hlt : s.ofs < g.erasesize
    · obtain ⟨count, hcount⟩ := hsize
      have hpos : 0 < size := by
        rcases Nat.eq_zero_or_pos size with hzero | hpos
        · rw [hcount, hzero, Nat.zero_mul] at hlt
          exact absurd hlt (Nat.not_lt_zero _)
        · exact hpos
      -- the next multiple of the size is still in the block
      have hnext : s.ofs + (size - s.ofs % size) = size * (s.ofs / size + 1) := by
        have hdiv := Nat.div_add_mod s.ofs size
        have hmod := Nat.mod_lt s.ofs hpos
        rw [Nat.mul_add, Nat.mul_one]
        omega
      have hle : s.ofs + (size - s.ofs % size) ≤ g.erasesize := by
        rw [hnext, hcount]
        refine Nat.mul_le_mul_left size (Nat.div_lt_of_lt_mul ?_)
        rwa [← hcount]
      have hfilled : Filled g (s.put (.padding (size - s.ofs % size))) :=
        ⟨hle, h.buf.append (.padding hle .nil), h.blocks⟩
      rw [if_pos hlt]
      have hmoved : 0 < s.ofs + (size - s.ofs % size) := by
        rw [hnext]
        exact Nat.mul_pos hpos (Nat.succ_pos _)
      have hdvd : (s.ofs + (size - s.ofs % size)) % size = 0 := by
        rw [hnext, Nat.mul_mod_right]
      have hend := padded_end hfilled hmoved hdvd
      exact ⟨hend.filled, hend.lt, hend.dvd, (keeps_put rfl rfl).trans hend.keeps⟩
    · have heq : s.ofs = g.erasesize := Nat.le_antisymm h.le (Nat.le_of_not_lt hlt)
      rw [if_neg hlt]
      exact padded_end h (heq ▸ g.pos) (heq ▸ Nat.mod_eq_zero_of_dvd hsize)

theorem Padded.placed (h : Padded g size s s') (hfour : 4 ∣ size) : Placed g s' where
  lt := h.lt
  aligned := Nat.mod_eq_zero_of_dvd (Nat.dvd_trans hfour (Nat.dvd_of_mod_eq_zero h.dvd))
  buf := h.filled.buf
  blocks := h.filled.blocks

theorem Padded.ofs_eq_zero (h : Padded g g.erasesize s s') : s'.ofs = 0 := by
  have hdvd := h.dvd
  rwa [Nat.mod_eq_of_lt h.lt] at hdvd

/-- A block that begins gets its clean marker. -/
theorem prepEraseblock_spec (h : Placed g s) (hroom : 208 < g.erasesize) :
    ∃ s', s.prepEraseblock g = some s' ∧ Placed g s' ∧ Keeps s s' ∧
      s'.ofs = if s.ofs = 0 then 12 else s.ofs := by
  unfold prepEraseblock
  by_cases hzero : s.ofs = 0
  · rw [if_neg (by omega), if_neg (by omega)]
    have hbuf := h.buf
    rw [hzero] at hbuf
    refine ⟨_, rfl, ⟨?_, ?_, ?_, h.blocks⟩, keeps_put rfl rfl, ?_⟩
    · change s.ofs + 12 < g.erasesize
      omega
    · change (s.ofs + 12) % 4 = 0
      omega
    · unfold put Content.length
      dsimp only
      rw [hzero]
      exact hbuf.append (.cleanMarker (by omega) .nil)
    · rw [if_pos hzero]
      change s.ofs + 12 = 12
      omega
  · rw [if_pos (Nat.pos_of_ne_zero hzero)]
    exact ⟨s, rfl, h, .refl, (if_neg hzero).symm⟩

theorem not_toSize_lt {ofs len : ℕ} (hlt : ofs < g.erasesize) (hlen : len < 256) :
    ¬ toSize (ofs - g.erasesize) < 40 + len := by
  have hint := g.lt
  unfold toSize
  omega

/-- An entry that fits into the rest of the block. -/
theorem addDirent_spec (h : Placed g s) (hfour : 4 ∣ g.erasesize) (hroom : 208 < g.erasesize)
    {name : List UInt8} (hname : name.length < 256)
    (hentry : (if s.ofs = 0 then 12 else s.ofs) + 40 + name.length ≤ g.erasesize)
    (parent : UInt32) :
    ∃ s' de, s.addDirent g name parent = some (s', de.ino) ∧ Placed g s' ∧ s'.nodes = s.nodes ∧
      s'.entries = s.entries ++ [(de, name)] ∧ de.pino = parent ∧
        s'.lastVersion = s.lastVersion + 1 := by
  obtain ⟨ready, hready, hplaced, hkeeps, hofs⟩ := prepEraseblock_spec h hroom
  unfold addDirent
  rw [if_neg (not_toSize_lt h.lt hname)]
  dsimp only
  rw [hready, Option.map_some]
  have hsize : (ready.direntOf name parent).nsize.toNat = name.length := by
    change (UInt8.ofNat name.length).toNat = name.length
    rw [UInt8.toNat_ofNat', Nat.mod_eq_of_lt hname]
  rw [← hofs] at hentry
  generalize hde : ready.direntOf name parent = de at hsize
  have htotlen : de.totlen = 40 + name.length := by
    rw [← hde]
    rfl
  let after : State :=
    { ready with
      ofs := ready.ofs + 40 + de.nsize.toNat
      buf := ready.buf ++ [⟨ready.ofs, .dirent de name⟩]
      lastIno := ready.lastIno + 2
      lastVersion := ready.lastVersion + 1 }
  have hstop : after.ofs = ready.ofs + de.totlen := by
    change ready.ofs + 40 + de.nsize.toNat = _
    omega
  have hfits : ready.ofs + de.totlen ≤ g.erasesize := by omega
  have hfilled : Filled g after := by
    refine ⟨hstop ▸ hfits, ?_, hplaced.blocks⟩
    rw [hstop]
    exact hplaced.buf.append (.dirent hplaced.aligned hsize htotlen hfits .nil)
  have hpadded : Padded g 4 after (after.pad g 4) := padded_pad hfilled hfour
  refine ⟨after.pad g 4, de, rfl, hpadded.placed (Nat.dvd_refl 4), ?_, ?_, ?_, ?_⟩
  · have hnodes : after.nodes = ready.nodes ++ [] := nodes_put (.dirent de name)
    rw [hpadded.keeps.nodes, hnodes, List.append_nil, hkeeps.nodes]
  · have hentries : after.entries = ready.entries ++ [(de, name)] :=
      entries_put (.dirent de name)
    rw [hpadded.keeps.entries, hentries, hkeeps.entries]
  · rw [← hde]
    rfl
  · rw [hpadded.keeps.lastVersion, ← hkeeps.lastVersion]

theorem addData_of_le {content : Content} (h : s.ofs + content.length ≤ g.erasesize) :
    s.addData g content = some (s.put content) := by
  rw [addData, if_neg (by omega)]

theorem rbytes_of_lt (h : s.ofs < g.erasesize) : s.rbytes g = g.erasesize - s.ofs := by
  rw [rbytes, Nat.mod_eq_of_lt h]

theorem addDir_spec (h : Placed g s) (hfour : 4 ∣ g.erasesize) (hroom : 208 < g.erasesize)
    {name : List UInt8} (hname : name.length < 256)
    (hentry : (if s.ofs = 0 then 12 else s.ofs) + 40 + name.length ≤ g.erasesize)
    (parent : UInt32) :
    ∃ s' de, s.addDir g name parent = some (s', de.ino) ∧ Placed g s' ∧ s'.nodes = s.nodes ∧
      s'.entries = s.entries ++ [(de, name)] ∧ de.pino = parent := by
  obtain ⟨entered, de, hadd, hplaced, hnodes, hentries, hparent, -⟩ :=
    addDirent_spec h hfour hroom hname hentry parent
  -- after the entry there is room for the inode, in this block or the next
  have hmore : ∃ roomy, (if entered.rbytes g < 68 then entered.pad g g.erasesize else entered) =
      roomy ∧ Placed g roomy ∧ Keeps entered roomy ∧
        (roomy.ofs = 0 ∨ roomy.ofs + 68 ≤ g.erasesize) := by
    by_cases hfull : entered.rbytes g < 68
    · have hpadded : Padded g g.erasesize entered (entered.pad g g.erasesize) :=
        padded_pad hplaced.filled (Nat.dvd_refl _)
      exact ⟨_, if_pos hfull, hpadded.placed hfour, hpadded.keeps, .inl hpadded.ofs_eq_zero⟩
    · refine ⟨_, if_neg hfull, hplaced, .refl, .inr ?_⟩
      rw [rbytes_of_lt hplaced.lt] at hfull
      have hlt := hplaced.lt
      omega
  obtain ⟨roomy, hroomy, hplaced', hkeeps', hofs'⟩ := hmore
  obtain ⟨ready, hready, hplaced'', hkeeps'', hofs''⟩ := prepEraseblock_spec hplaced' hroom
  have hfits : ready.ofs + 68 ≤ g.erasesize := by
    rw [hofs'']
    split <;> omega
  have hfilled : Filled g (ready.put (.inode ⟨68, de.ino, 1, 0, 0, 0⟩)) :=
    ⟨hfits, hplaced''.buf.append (.empty hplaced''.aligned rfl hfits .nil), hplaced''.blocks⟩
  have hpadded := padded_pad hfilled hfour
  have hkeeps : Keeps entered ((ready.put (.inode ⟨68, de.ino, 1, 0, 0, 0⟩)).pad g 4) :=
    hkeeps'.trans (hkeeps''.trans ((keeps_put rfl rfl).trans hpadded.keeps))
  refine ⟨_, de, ?_, hpadded.placed (Nat.dvd_refl 4), hkeeps.nodes.trans hnodes,
    hkeeps.entries.trans hentries, hparent⟩
  rw [addDir, hadd, Option.bind_some]
  dsimp only
  rw [hroomy, hready, Option.bind_some, addData_of_le hfits, Option.map_some]

/-- The loop for room ends in this block or the next. -/
theorem makeRoom_spec (h : Placed g s) (hroom : 208 < g.erasesize) (hfour : 4 ∣ g.erasesize) :
    ∃ s', s.makeRoom g = some s' ∧ Placed g s' ∧ Keeps s s' ∧ 196 < g.erasesize - s'.ofs := by
  unfold makeRoom
  by_cases henough : 68 + 128 < s.rbytes g
  · rw [if_pos henough]
    rw [rbytes_of_lt h.lt] at henough
    exact ⟨s, rfl, h, .refl, henough⟩
  · have hpadded : Padded g g.erasesize s (s.pad g g.erasesize) :=
      padded_pad h.filled (Nat.dvd_refl _)
    obtain ⟨ready, hready, hplaced, hkeeps, hofs⟩ :=
      prepEraseblock_spec (hpadded.placed hfour) hroom
    rw [hpadded.ofs_eq_zero, if_pos rfl] at hofs
    rw [if_neg henough, hready, Option.bind_some, rbytes_of_lt hplaced.lt, hofs, if_pos (by omega)]
    refine ⟨ready, rfl, hplaced, hpadded.keeps.trans hkeeps, ?_⟩
    rw [hofs]
    omega

variable {file : File} {inode : UInt32}

/-- A node whose bytes fit into the rest of the block. -/
theorem addChunk_spec (h : Placed g s) (hroom : 208 < g.erasesize) (hfour : 4 ∣ g.erasesize)
    {bytes : List UInt8} (hbytes : s.ofs + 68 + bytes.length ≤ g.erasesize) (offset : ℕ) :
    ∃ s', s.addChunk g file inode offset bytes = some s' ∧ Placed g s' ∧
      s'.nodes = s.nodes ++ [(s.inodeOf file inode offset bytes, bytes)] ∧
        s'.entries = s.entries ∧ s'.lastVersion = s.lastVersion + 1 := by
  let counted : State := { s with lastVersion := s.lastVersion + 1 }
  generalize hri : s.inodeOf file inode offset bytes = ri
  have htotlen : ri.totlen = 68 + bytes.length := by
    rw [← hri]
    rfl
  have hcounted : counted.ofs + (Content.inode ri).length ≤ g.erasesize := by
    change s.ofs + 68 ≤ g.erasesize
    omega
  have hhead : (counted.put (.inode ri)).ofs + bytes.length ≤ g.erasesize := hbytes
  have hfits : s.ofs + ri.totlen ≤ g.erasesize := by omega
  have hstop : ((counted.put (.inode ri)).put (.data ri bytes)).ofs = s.ofs + ri.totlen := by
    change s.ofs + 68 + bytes.length = s.ofs + ri.totlen
    omega
  have hfilled : Filled g ((counted.put (.inode ri)).put (.data ri bytes)) := by
    refine ⟨hstop ▸ hfits, ?_, h.blocks⟩
    rw [hstop]
    change Laid _ _ ((s.buf ++ [⟨s.ofs, .inode ri⟩]) ++ [⟨s.ofs + 68, .data ri bytes⟩]) _
    rw [List.append_assoc]
    exact h.buf.append (.inode h.aligned htotlen hfits .nil)
  have hpadded := padded_pad hfilled hfour
  obtain ⟨ready, hready, hplaced, hkeeps, -⟩ :=
    prepEraseblock_spec (hpadded.placed (Nat.dvd_refl 4)) hroom
  have hkept := hpadded.keeps.trans hkeeps
  refine ⟨ready, ?_, hplaced, ?_, ?_, hkept.lastVersion⟩
  · unfold addChunk
    dsimp only
    rw [hri, addData_of_le hcounted, Option.bind_some, addData_of_le hhead, Option.bind_some,
      hready]
  · rw [hkept.nodes, nodes_put, nodes_put]
    change (counted.nodes ++ []) ++ [(ri, bytes)] = _
    rw [List.append_nil]
    rfl
  · rw [hkept.entries, entries_put, entries_put]
    exact (List.append_nil _).trans (List.append_nil _)

theorem readBytes_spec (hroom : 196 < g.erasesize - s.ofs) (hlt : s.ofs < g.erasesize)
    (offset : ℕ) (remaining : List UInt8) :
    ∃ count, s.readBytes g file offset remaining = remaining.take count ∧ 0 < count ∧
      s.ofs + 68 + count ≤ g.erasesize := by
  have hmost := file.most_pos offset
  refine ⟨_, rfl, ?_⟩
  rw [rbytes_of_lt hlt]
  omega

/-- The loop over the bytes of a file. -/
theorem addChunks_spec (h : Placed g s) (hroom : 208 < g.erasesize) (hfour : 4 ∣ g.erasesize)
    {fuel offset : ℕ} {remaining : List UInt8} (hfuel : remaining.length < fuel)
    (hversions : s.lastVersion.toNat + remaining.length < 2 ^ 32) :
    ∃ s' added, addChunks g file inode fuel offset remaining s = some s' ∧ Placed g s' ∧
      s'.nodes = s.nodes ++ added ∧ s'.entries = s.entries ∧
        (∀ node ∈ added, node.1.ino = inode ∧ s.lastVersion < node.1.version) ∧
          added.Pairwise (fun node later => node.1.version < later.1.version) ∧
            added.flatMap Prod.snd = remaining := by
  induction fuel generalizing s offset remaining with
  | zero => exact absurd hfuel (Nat.not_lt_zero _)
  | succ fuel ih =>
    obtain ⟨roomy, hroomy, hplaced, hkeeps, henough⟩ := makeRoom_spec h hroom hfour
    obtain ⟨count, hbytes, hcount, hfits⟩ : ∃ count,
        roomy.readBytes g file offset remaining = remaining.take count ∧ 0 < count ∧
          roomy.ofs + 68 + count ≤ g.erasesize :=
      readBytes_spec henough hplaced.lt offset remaining
    rw [addChunks, hroomy, Option.bind_some]
    dsimp only
    rw [hbytes]
    by_cases hend : remaining.take count = []
    · -- a read of nothing is the end of the file
      have hnil : remaining = [] :=
        (List.take_eq_nil_iff.mp hend).resolve_left (Nat.ne_of_gt hcount)
      rw [if_pos hend, hnil]
      refine ⟨roomy, [], rfl, hplaced, ?_, hkeeps.entries, by simp, .nil, rfl⟩
      rw [hkeeps.nodes, List.append_nil]
    · rw [if_neg hend]
      have hsplit : remaining.take count ++ remaining.drop (remaining.take count).length =
          remaining := List.prefix_iff_eq_append.mp ( List.take_prefix count remaining)
      have hlength : (remaining.take count).length ≤ count := List.length_take_le _ _
      have hpos : 0 < (remaining.take count).length := List.length_pos_iff.mpr hend
      generalize remaining.take count = bytes at hsplit hlength hpos ⊢
      have htotal : bytes.length + (remaining.drop bytes.length).length = remaining.length := by
        rw [← List.length_append, hsplit]
      have hroom' : roomy.ofs + 68 + bytes.length ≤ g.erasesize := by omega
      obtain ⟨next, hnext, hplaced', hnodes, hentries, hversion⟩ : ∃ next,
          roomy.addChunk g file inode offset bytes = some next ∧ Placed g next ∧
            next.nodes = roomy.nodes ++ [(roomy.inodeOf file inode offset bytes, bytes)] ∧
              next.entries = roomy.entries ∧ next.lastVersion = roomy.lastVersion + 1 :=
        addChunk_spec hplaced hroom hfour hroom' offset
      rw [hkeeps.lastVersion] at hversion
      have hcounted : next.lastVersion.toNat = s.lastVersion.toNat + 1 := by
        rw [hversion, UInt32.toNat_add, UInt32.toNat_one, Nat.mod_eq_of_lt (by omega)]
      have hafter : s.lastVersion < next.lastVersion := by
        rw [UInt32.lt_iff_toNat_lt]
        omega
      have hfuel' : (remaining.drop bytes.length).length < fuel := by omega
      have hversions' : next.lastVersion.toNat + (remaining.drop bytes.length).length < 2 ^ 32 := by
        omega
      obtain ⟨s', added, hchunks, hplaced'', hnodes', hentries', hadded, hpairwise, hdata⟩ :=
        @ih next hplaced' (offset + bytes.length) _ hfuel' hversions'
      rw [hnext, Option.bind_some]
      refine ⟨s', (roomy.inodeOf file inode offset bytes, bytes) :: added, hchunks, hplaced'',
        ?_, ?_, ?_, ?_, ?_⟩
      · rw [hnodes', hnodes, hkeeps.nodes, List.append_assoc, List.singleton_append]
      · rw [hentries', hentries, hkeeps.entries]
      · refine List.forall_mem_cons.mpr ⟨⟨rfl, ?_⟩, fun node hnode => ?_⟩
        · change s.lastVersion < roomy.lastVersion + 1
          rw [hkeeps.lastVersion, ← hversion]
          exact hafter
        · exact ⟨(hadded node hnode).1, UInt32.lt_trans hafter (hadded node hnode).2⟩
      · refine List.pairwise_cons.mpr ⟨fun node hnode => ?_, hpairwise⟩
        change roomy.lastVersion + 1 < node.1.version
        rw [hkeeps.lastVersion, ← hversion]
        exact (hadded node hnode).2
      · rw [List.flatMap_cons, hdata, hsplit]

theorem addFile_spec (h : Placed g s) (hfour : 4 ∣ g.erasesize) (hroom : 208 < g.erasesize)
    (hname : file.fname.length < 256)
    (hentry : (if s.ofs = 0 then 12 else s.ofs) + 40 + file.fname.length ≤ g.erasesize)
    (hversions : s.lastVersion.toNat + 1 + file.bytes.length < 2 ^ 32) (parent : UInt32) :
    ∃ s' de, s.addFile g file parent = some s' ∧ Placed g s' ∧
      s'.entries = s.entries ++ [(de, file.fname)] ∧ de.pino = parent ∧
        HasBytes s s' file de.ino := by
  obtain ⟨entered, de, hadd, hplaced, hnodes, hentries, hparent, hversion⟩ :=
    addDirent_spec h hfour hroom hname hentry parent
  have hcounted : entered.lastVersion.toNat = s.lastVersion.toNat + 1 := by
    rw [hversion, UInt32.toNat_add, UInt32.toNat_one, Nat.mod_eq_of_lt (by omega)]
  have hversions' : entered.lastVersion.toNat + file.bytes.length < 2 ^ 32 := by omega
  obtain ⟨s', added, hchunks, hplaced', hnodes', hentries', hadded, hpairwise, hdata⟩ :
      ∃ s' added, addChunks g file de.ino (file.bytes.length + 1) 0 file.bytes entered = some s' ∧
        Placed g s' ∧ s'.nodes = entered.nodes ++ added ∧ s'.entries = entered.entries ∧
          (∀ node ∈ added, node.1.ino = de.ino ∧ entered.lastVersion < node.1.version) ∧
            added.Pairwise (fun node later => node.1.version < later.1.version) ∧
              added.flatMap Prod.snd = file.bytes :=
    addChunks_spec hplaced hroom hfour (Nat.lt_succ_self _) hversions'
  refine ⟨s', de, ?_, hplaced', ?_, hparent, ⟨added, ?_, fun node hnode => (hadded node hnode).1,
    hpairwise, hdata⟩⟩
  · rw [addFile, hadd, Option.bind_some]
    exact hchunks
  · rw [hentries', hentries]
  · rw [hnodes', hnodes]

end State

theorem Add.Fits.right {add : Add} (hfits : add.Fits g s) (h : Placed g s) : add.Right g s := by
  cases add with
  | dir name parent =>
    obtain ⟨s', de, hadd, hplaced, hnodes, hentries, hparent⟩ :=
      State.addDir_spec h hfits.four_dvd hfits.room hfits.name hfits.entry parent
    refine ⟨s', ?_, hplaced, hnodes, de, hentries, hparent⟩
    exact congrArg (Option.map Prod.fst) hadd
  | file f parent =>
    obtain ⟨s', de, hadd, hplaced, hentries, hparent, hbytes⟩ :=
      State.addFile_spec h hfits.four_dvd hfits.room hfits.name hfits.entry hfits.versions parent
    exact ⟨s', hadd, hplaced, de, hentries, hparent, hbytes⟩

end Buffer

/-! ## Runs -/

def State.apply (g : Geometry) (s : State) (add : Add) : State := (s.add g add).getD s

/-- Everything of a run is added as it should be. -/
def RightAlong (g : Geometry) (s : State) (adds : List Add) : Prop :=
  ∀ (n : ℕ) (add : Add), adds[n]? = some add → add.Right g ((adds.take n).foldl (State.apply g) s)

/-- From any fill of the block, where each addition fits, all are as they should be. -/
theorem rightAlong_of_fits {g : Geometry} {s : State} {adds : List Add} (hplaced : Placed g s)
    (h : Along (State.apply g) (fun s add => add.Fits g s) adds s) : RightAlong g s adds := by
  intro n add hadd
  have hkeeps : ∀ s, ∀ add ∈ adds, Placed g s → Add.Fits g s add →
      Placed g (State.apply g s add) := by
    intro s add _ hs hfits
    obtain ⟨s', hs', hplaced', -⟩ := hfits.right hs
    rw [State.apply, hs', Option.getD_some]
    exact hplaced'
  have hfits := h.getElem? hadd
  exact hfits.right (invariant_take_of_along hkeeps h hplaced n)

/-! ## An entry at the end of a block -/

/-- Every entry is inside the block. -/
theorem Laid.entry_fits {erasesize start stop : ℕ} {pieces : List Piece}
    (h : Laid erasesize start pieces stop) {piece : Piece} (hpiece : piece ∈ pieces)
    {de : RawDirent} {name : List UInt8} (hcontent : piece.content = .dirent de name) :
    piece.ofs + 40 + name.length ≤ erasesize := by
  induction h with
  | nil => cases hpiece
  | cleanMarker _ _ ih | padding _ _ ih | empty _ _ _ _ ih =>
    rcases List.mem_cons.mp hpiece with rfl | hpiece
    · cases hcontent
    · exact ih hpiece
  | dirent _ _ sized fits _ ih =>
    rcases List.mem_cons.mp hpiece with rfl | hpiece
    · cases hcontent
      rw [sized, ← Nat.add_assoc] at fits
      exact fits
    · exact ih hpiece
  | inode _ _ _ _ ih =>
    rcases List.mem_cons.mp hpiece with rfl | hpiece
    · cases hcontent
    · rcases List.mem_cons.mp hpiece with rfl | hpiece
      · cases hcontent
      · exact ih hpiece

/-- A block of 4 KiB. -/
def smallBlock : Geometry := ⟨4096, by decide, by decide⟩

/-- Before anything is added. -/
def State.start : State := ⟨0, [], [], 1, 0⟩

theorem placed_start : Placed smallBlock .start := by
  refine ⟨by decide, by decide, .nil, fun block hblock => ?_⟩
  cases hblock

/-- A file of zeros, read in one go. -/
def zeros (name : List UInt8) (size : ℕ) : State.File :=
  ⟨name, List.replicate size 0, fun _ => 4096, fun _ => by decide⟩

/-- A directory and a file of two blocks. -/
theorem rightAlong_of_dir :
    RightAlong smallBlock .start [.dir [116, 109, 112] 1, .file (zeros [47, 97] 5000) 2] := by
  have h : Along (State.apply smallBlock) (fun s add => add.Fits smallBlock s)
      [.dir [116, 109, 112] 1, .file (zeros [47, 97] 5000) 2] .start :=
    ⟨⟨by decide, by decide, by decide, by decide, by decide⟩,
      ⟨by decide, by decide, by decide, by decide +kernel, by decide +kernel⟩, trivial⟩
  exact rightAlong_of_fits placed_start h

theorem Add.not_right_of_buf {g : Geometry} {s : State} {add : Add} {i ofs : ℕ} {de : RawDirent}
    {name : List UInt8}
    (hbuf : (s.add g add).map (fun s => s.buf[i]?) = some (some ⟨ofs, .dirent de name⟩))
    (hover : g.erasesize < ofs + 40 + name.length) : ¬ add.Right g s := by
  rintro ⟨s', hs', hplaced, -⟩
  rw [hs', Option.map_some] at hbuf
  have hpiece := List.mem_of_getElem? (Option.some.inj hbuf)
  exact absurd (hplaced.buf.entry_fits hpiece rfl) (Nat.not_le_of_lt hover)

theorem RightAlong.second {g : Geometry} {s : State} {first second : Add}
    (h : RightAlong g s [first, second]) : second.Right g (State.apply g s first) :=
  h 1 second rfl

/-- After a file of 3700 bytes an entry with a long name is written over the end of the buffer. -/
theorem not_rightAlong_of_long :
    ¬ RightAlong smallBlock .start
      [.file (zeros [97] 3700) 1, .file (zeros (List.replicate 240 98) 1) 1] := by
  intro h
  have hbuf : ((State.apply smallBlock .start (.file (zeros [97] 3700) 1)).add smallBlock
      (.file (zeros (List.replicate 240 98) 1) 1)).map (fun s => s.buf[5]?) =
        some (some ⟨3824, .dirent ⟨280, 1, 2, 4, 240⟩ (List.replicate 240 98)⟩) := by
    decide +kernel
  exact Add.not_right_of_buf hbuf (by decide +kernel) h.second

end OpenWrt.Mtd.Jffs2
