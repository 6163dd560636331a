/-
# What the display keeps

An update of the display reads the lines and measures them. It changes the mark up to
which a line is shown and the position of the cursor, so that the lines stay sound, and
the size of the window and the callback the editor waits for stay as they are.
-/

import OpenWrt.Uline.Editor
import OpenWrt.Uline.LineBufSound

namespace OpenWrt.Uline

open OpenWrt.Lib

namespace State

/-- Both lines are sound. -/
structure Sound (s : State) : Prop where
  line : s.line.Sound
  line2 : ∀ line2, s.line2 = some line2 → line2.Sound

theorem Sound.of_lines {s t : State} (h : s.Sound) (hline : t.line = s.line)
    (hline2 : t.line2 = s.line2) : t.Sound where
  line := hline ▸ h.line
  line2 := hline2 ▸ h.line2

theorem Sound.edited {s : State} (h : s.Sound) : s.edited.Sound := by
  unfold State.edited
  cases hline2 : s.line2 with
  | none => exact h.line
  | some line2 => exact h.line2 line2 hline2

/-- What an update of the display leaves as it is. -/
structure Same (s t : State) : Prop where
  rows : t.rows = s.rows
  cols : t.cols = s.cols
  utf8 : t.utf8 = s.utf8
  escSeq : t.escSeq = s.escSeq
  pending : t.pending = s.pending

theorem Same.rfl {s : State} : Same s s :=
  ⟨Eq.refl _, Eq.refl _, Eq.refl _, Eq.refl _, Eq.refl _⟩

theorem Same.trans {s t u : State} (hst : Same s t) (htu : Same t u) : Same s u where
  rows := htu.rows.trans hst.rows
  cols := htu.cols.trans hst.cols
  utf8 := htu.utf8.trans hst.utf8
  escSeq := htu.escSeq.trans hst.escSeq
  pending := htu.pending.trans hst.pending

section

variable {bad : Fault → Prop} {s : State} {host : Host}

theorem avoids_readText {line : LineBuf} (h : bad .memory → line.Sound) {start stop : ℕ}
    (hstop : line.Sound → stop ≤ line.len) :
    Avoids bad (fun _ => True) (line.slice start stop) := by
  by_cases hbad : bad .memory
  · have hsound := h hbad
    have hle := hstop hsound
    apply LineBuf.avoids_slice
    have := hsound.len_le
    omega
  · unfold LineBuf.slice
    split
    · trivial
    split
    · trivial
    · exact hbad

theorem avoids_addString (hdivision : s.cols = 0 → ¬ bad .division) (hoverread : ¬ bad .overread)
    (pos : Pos) (str : List UInt8) : Avoids bad (fun _ => True) (s.addString host pos str) :=
  avoids_posAddString hdivision hoverread _ pos str

theorem avoids_displayOutputString (hdivision : s.cols = 0 → ¬ bad .division)
    (hoverread : ¬ bad .overread) (str : List UInt8) :
    Avoids bad (fun t => ∃ pos, t = { s with cursorPos := pos })
      (s.displayOutputString host str) :=
  avoids_bind (avoids_addString hdivision hoverread _ str) fun pos _ => ⟨pos, Eq.refl _⟩

/-- A line on the display: only its mark changes, and of the state only the cursor. -/
def Shown (s : State) (line : LineBuf) (r : State × LineBuf × Pos) : Prop :=
  (∃ pos, r.1 = { s with cursorPos := pos }) ∧
    ∃ mark, r.2.1 = { line with updatePos := mark } ∧ (line.Sound → mark ≤ line.len)

theorem avoids_displayPrompt (hdivision : s.cols = 0 → ¬ bad .division)
    (hoverread : ¬ bad .overread) (line : LineBuf) (pos : Pos) :
    Avoids bad (Shown s line) (s.displayPrompt host line pos) := by
  unfold displayPrompt
  split
  · refine avoids_bind (avoids_displayOutputString hdivision hoverread _) ?_
    rintro _ ⟨cursor, rfl⟩
    exact ⟨⟨cursor, Eq.refl _⟩, 0, Eq.refl _, fun _ => Nat.zero_le _⟩
  · refine avoids_bind (avoids_addString hdivision hoverread _ _) fun after _ => ?_
    exact ⟨⟨s.cursorPos, Eq.refl _⟩, line.updatePos, Eq.refl _, fun h => h.updatePos_le⟩

theorem avoids_displayUpdateLine (hdivision : s.cols = 0 → ¬ bad .division)
    (hoverread : ¬ bad .overread) {line : LineBuf} (hmemory : bad .memory → line.Sound)
    (pos : Pos) : Avoids bad (Shown s line) (s.displayUpdateLine host line pos) := by
  refine avoids_bind (avoids_displayPrompt hdivision hoverread line pos) ?_
  rintro ⟨_, _, after⟩ ⟨⟨cursor, rfl⟩, mark, rfl, hmark⟩
  have hsound : bad .memory → LineBuf.Sound { line with updatePos := mark } := by
    intro hbad
    have h := hmemory hbad
    exact ⟨h.pos_le, hmark h, h.ended, h.unallocated⟩
  refine avoids_bind (avoids_readText hsound fun h => h.updatePos_le) fun shown _ => ?_
  refine avoids_bind (avoids_addString hdivision hoverread _ _) fun updatePos _ => ?_
  refine avoids_bind (avoids_readText hsound fun _ => Nat.le_refl _) fun text _ => ?_
  refine avoids_bind
    (avoids_displayOutputString (s := { s with cursorPos := updatePos }) hdivision hoverread _) ?_
  rintro _ ⟨cursor', rfl⟩
  exact ⟨⟨cursor', Eq.refl _⟩, line.len, Eq.refl _, fun _ => Nat.le_refl _⟩

/-- What an update of the display makes of the state. -/
def Updated (s t : State) : Prop :=
  Same s t ∧ (s.Sound → t.Sound)

theorem sound_of_mark {line : LineBuf} (h : line.Sound) {mark : ℕ}
    (hmark : line.Sound → mark ≤ line.len) : LineBuf.Sound { line with updatePos := mark } :=
  ⟨h.pos_le, hmark h, h.ended, h.unallocated⟩

theorem avoids_displayLine2 (hdivision : s.cols = 0 → ¬ bad .division)
    (hoverread : ¬ bad .overread) (hmemory : bad .memory → s.Sound) (base : Pos) :
    Avoids bad (fun r => Updated s r.1 ∧ (s.Sound → r.2.1.Sound)) (s.displayLine2 host base) := by
  unfold displayLine2
  split
  case h_1 => exact ⟨⟨Same.rfl, id⟩, fun h => h.line⟩
  case h_2 line2 hline2 =>
    have hsound : bad .memory → line2.Sound := fun hbad => (hmemory hbad).line2 line2 hline2
    dsimp only
    generalize (if s.cursorPos.x ≠ 0 then posAddNewline s.cursorPos else s.cursorPos) = start
    refine avoids_bind
      (avoids_displayUpdateLine (s := { s with cursorPos := start }) hdivision hoverread hsound _) ?_
    rintro ⟨_, _, after⟩ ⟨⟨cursor, rfl⟩, mark, rfl, hmark⟩
    have hmarked : s.Sound → LineBuf.Sound { line2 with updatePos := mark } :=
      fun h => sound_of_mark (h.line2 line2 hline2) hmark
    refine ⟨⟨⟨Eq.refl _, Eq.refl _, Eq.refl _, Eq.refl _, Eq.refl _⟩, fun h => ⟨h.line, ?_⟩⟩, hmarked⟩
    intro line hline
    rw [← Option.some.inj hline]
    exact hmarked h

/-- An update of the display divides only by the number of columns. -/
theorem avoids_displayUpdate (hdivision : s.cols = 0 → ¬ bad .division)
    (hoverread : ¬ bad .overread) (hmemory : bad .memory → s.Sound) :
    Avoids bad (Updated s) (s.displayUpdate host) := by
  have hstart : ∃ pos, (if s.fullUpdate = true then { s with cursorPos := Pos.zero } else s) =
      { s with cursorPos := pos } := by
    split
    · exact ⟨_, Eq.refl _⟩
    · exact ⟨s.cursorPos, Eq.refl _⟩
  obtain ⟨pos, hpos⟩ := hstart
  unfold displayUpdate
  rw [hpos]
  have hfirst : bad .memory → s.line.Sound := fun hbad => (hmemory hbad).line
  have hline : Avoids bad (Shown { s with cursorPos := pos } s.line)
      (displayUpdateLine { s with cursorPos := pos } host s.line Pos.zero) :=
    avoids_displayUpdateLine (s := { s with cursorPos := pos }) hdivision hoverread hfirst _
  refine avoids_bind hline ?_
  rintro ⟨_, _, base⟩ ⟨⟨cursor, rfl⟩, mark, rfl, hmark⟩
  dsimp only
  generalize hnext : ({ s with line := { s.line with updatePos := mark }, cursorPos := cursor } : State) = t
  have hsame : Same s t := hnext ▸ ⟨Eq.refl _, Eq.refl _, Eq.refl _, Eq.refl _, Eq.refl _⟩
  have hkeeps : s.Sound → t.Sound := by
    intro h
    subst hnext
    exact ⟨sound_of_mark h.line hmark, h.line2⟩
  have hsecond : Avoids bad (fun r => Updated t r.1 ∧ (t.Sound → r.2.1.Sound))
      (t.displayLine2 host base) :=
    avoids_displayLine2 (by rw [hsame.cols]; exact hdivision) hoverread
      (fun hbad => hkeeps (hmemory hbad)) base
  refine avoids_bind hsecond ?_
  rintro ⟨u, line, base'⟩ ⟨⟨hsame', hkeeps'⟩, hsound⟩
  refine avoids_bind (avoids_readText (fun hbad => hsound (hkeeps (hmemory hbad))) fun h => h.pos_le)
    fun before _ => ?_
  have hcols : u.cols = 0 → ¬ bad .division := by
    have : u.cols = s.cols := hsame'.cols.trans hsame.cols
    rw [this]
    exact hdivision
  refine avoids_bind (avoids_addString hcols hoverread _ _) fun editPos _ => ?_
  refine ⟨?_, fun h => ?_⟩
  · have hall := hsame.trans hsame'
    exact ⟨hall.rows, hall.cols, hall.utf8, hall.escSeq, hall.pending⟩
  · exact (hkeeps' (hkeeps h)).of_lines (Eq.refl _) (Eq.refl _)

theorem avoids_finish (hdivision : s.cols = 0 → ¬ bad .division)
    (hoverread : ¬ bad .overread) (hmemory : bad .memory → s.Sound) :
    Avoids bad (Updated s) (s.finish host) := by
  unfold finish
  split
  · exact ⟨Same.rfl, id⟩
  · exact avoids_displayUpdate hdivision hoverread hmemory

theorem avoids_setHint (hdivision : s.cols = 0 → ¬ bad .division)
    (hoverread : ¬ bad .overread) (str : List UInt8) :
    Avoids bad (Updated s) (s.setHint host str) := by
  unfold setHint
  refine avoids_bind (avoids_addString hdivision hoverread _ _) fun pos _ => ?_
  split
  · exact ⟨⟨Eq.refl _, Eq.refl _, Eq.refl _, Eq.refl _, Eq.refl _⟩,
      fun h => h.of_lines (Eq.refl _) (Eq.refl _)⟩
  · exact ⟨Same.rfl, id⟩

end

end State

end OpenWrt.Uline
