/-
# Mirror groups

A switch mirrors the traffic of source ports to the destination port of one of four groups. A group
is freed when the words at its two port mask registers read as zero. The families with more than 32
ports have two words for a mask, the upper one at the register itself, and only this one is looked at.
So the removal of a session frees a group that ports below 32 are still mirrored to, unless there is a
port above as well, and a run is right exactly if this never happens.
-/

import OpenWrt.Lib.Run

namespace OpenWrt.Rtl83xx.Mirror

open OpenWrt.Lib

abbrev Registers := ℕ → BitVec 32

/-- `sw_w32_mask` -/
def swW32Mask (clear set : BitVec 32) (reg : ℕ) (regs : Registers) : Registers :=
  Function.update regs reg ((regs reg &&& ~~~clear) ||| set)

/-- What the mirror functions of the families differ in: where their registers are, how far apart those
of the groups are, where the destination port is in the control register and what is set with it. -/
structure Layout where
  mirCtrl : ℕ
  mirSpmCtrl : ℕ
  mirDpmCtrl : ℕ
  wide : Bool
  portShift : ℕ
  flags : BitVec 32

inductive Family where
  | rtl838x
  | rtl839x
  | rtl930x
  | rtl931x
deriving DecidableEq

def Family.layout : Family → Layout
  | .rtl838x => ⟨0x5D00, 0x5D10, 0x5D20, false, 4, 1#32 ||| 1#32 <<< 11⟩
  | .rtl839x => ⟨0x2500, 0x2510, 0x2530, true, 4, 1#32⟩
  | .rtl930x => ⟨0xA2A0, 0xA2B0, 0xA2C0, false, 9, 1#32 ||| 1#32 <<< 5 ||| 1#32 <<< 4⟩
  | .rtl931x => ⟨0xAF00, 0xAF10, 0xAF30, true, 9, 1#32 ||| 1#32 <<< 5 ||| 1#32 <<< 4⟩

namespace Layout

variable (L : Layout)

/-- How many ports a mask has bits for. -/
def ports : ℕ := if L.wide then 64 else 32

/-- `mask_port_reg_be`, by `rtl838x_mask_port_reg` or `rtl839x_mask_port_reg_be`. -/
def maskPortRegBe (clear set : BitVec 64) (reg : ℕ) (regs : Registers) : Registers :=
  if L.wide then
    swW32Mask (clear.setWidth 32) (set.setWidth 32) (reg + 4)
      (swW32Mask ((clear >>> 32).setWidth 32) ((set >>> 32).setWidth 32) reg regs)
  else swW32Mask (clear.setWidth 32) (set.setWidth 32) reg regs

/-- `get_port_reg_be`, by `rtl838x_get_port_reg` or `rtl839x_get_port_reg_be`. -/
def getPortRegBe (reg : ℕ) (regs : Registers) : BitVec 64 :=
  if L.wide then (regs reg).setWidth 64 <<< 32 ||| (regs (reg + 4)).setWidth 64
  else (regs reg).setWidth 64

/-! The members of the configuration that `get_mirror_config` makes -/

def ctrl (group : Fin 4) : ℕ := L.mirCtrl + group * 4

/-- `spm` is the mask of the ingress, `dpm` that of the egress. -/
def pmReg (group : Fin 4) (ingress : Bool) : ℕ :=
  (if ingress then L.mirSpmCtrl else L.mirDpmCtrl) + group * if L.wide then 8 else 4

def val (port : BitVec 8) : BitVec 32 := L.flags ||| port.setWidth 32 <<< L.portShift

end Layout

/-- The registers and `mirror_group_ports`. There is no port where it is below zero. -/
structure State where
  regs : Registers
  groupPorts : Fin 4 → Option (BitVec 8)

/-- The first group with some destination, or with none. -/
def State.findGroup (s : State) (port : Option (BitVec 8)) : Option (Fin 4) :=
  (List.finRange 4).find? fun group => s.groupPorts group = port

inductive Errno where
  | noSpc
  | exist

/-- `port_mirror_add` and `port_mirror_del` are called for a source port, a destination and a
direction. -/
structure Session (L : Layout) where
  port : Fin L.ports
  toLocalPort : BitVec 8
  ingress : Bool

section Model

variable (L : Layout)

/-- `rtldsa_port_mirror_add` -/
def mirrorAdd (s : State) (m : Session L) : State × Option Errno :=
  match s.findGroup (some m.toLocalPort) <|> s.findGroup none with
  | none => (s, some .noSpc)
  | some group =>
      let pmReg := L.pmReg group m.ingress
      let regs := Function.update s.regs (L.ctrl group) (L.val m.toLocalPort)
      if (L.getPortRegBe pmReg regs).getLsbD m.port then ({ s with regs := regs }, some .exist)
      else
        (⟨L.maskPortRegBe 0 (BitVec.twoPow 64 m.port) pmReg regs,
          Function.update s.groupPorts group (some m.toLocalPort)⟩, none)

/-- `rtldsa_port_mirror_del` -/
def mirrorDel (s : State) (m : Session L) : State :=
  match s.findGroup (some m.toLocalPort) with
  | none => s
  | some group =>
      let regs := L.maskPortRegBe (BitVec.twoPow 64 m.port) 0 (L.pmReg group m.ingress) s.regs
      if regs (L.pmReg group true) = 0 ∧ regs (L.pmReg group false) = 0 then
        ⟨Function.update regs (L.ctrl group) 0, Function.update s.groupPorts group none⟩
      else { s with regs := regs }

inductive Call where
  | add (m : Session L)
  | del (m : Session L)

def apply (s : State) : Call L → State
  | .add m => (mirrorAdd L s m).1
  | .del m => mirrorDel L s m

/-! ## What the groups are for -/

/-- Whether a port is in a mask of a group. -/
def State.source (s : State) (group : Fin 4) (ingress : Bool) (port : Fin L.ports) : Bool :=
  (L.getPortRegBe (L.pmReg group ingress) s.regs).getLsbD port

def State.Good (s : State) : Prop :=
  (∀ group, s.groupPorts group ≠ none ↔ ∃ ingress port, s.source L group ingress port = true) ∧
    ∀ group group' d, s.groupPorts group = some d → s.groupPorts group' = some d → group = group'

def Session.Is (s : State) (m : Session L) (group : Fin 4) (ingress : Bool) (port : Fin L.ports) :
    Prop :=
  s.groupPorts group = some m.toLocalPort ∧ ingress = m.ingress ∧ port = m.port

/-- An addition that fails changes nothing, and a removal leaves the other sessions and what enables
their groups. -/
def StepRight (s : State) : Call L → Prop
  | .add m => (mirrorAdd L s m).2 ≠ none → (mirrorAdd L s m).1 = s
  | .del m => ∀ group ingress port, s.source L group ingress port = true →
      ¬ m.Is L s group ingress port →
        (mirrorDel L s m).source L group ingress port = true ∧
          (mirrorDel L s m).regs (L.ctrl group) = s.regs (L.ctrl group)

/-- The ports whose bits are in the word at the register itself. -/
def Seen (port : Fin L.ports) : Prop := L.wide = true → 32 ≤ port.val

/-- Where a session is removed and its group has other sources, one of them is in the word that is
looked at. -/
def RemovalSeen (s : State) : Call L → Prop
  | .add _ => True
  | .del m => ∀ group, s.groupPorts group = some m.toLocalPort →
      (∃ ingress port, s.source L group ingress port = true ∧
        ¬ (ingress = m.ingress ∧ port = m.port)) →
      ∃ ingress port, s.source L group ingress port = true ∧ Seen L port ∧
        ¬ (ingress = m.ingress ∧ port = m.port)

end Model

/-! ## The registers of a family -/

/-- How far from the register the words of a mask are. -/
def Layout.offsets (L : Layout) : List ℕ := if L.wide then [0, 4] else [0]

/-- No register of a group is one of another. -/
structure Layout.Separate (L : Layout) : Prop where
  ctrl_inj : ∀ g g', L.ctrl g = L.ctrl g' → g = g'
  ctrl_ne : ∀ g g' ingress, ∀ off ∈ L.offsets, L.pmReg g ingress + off ≠ L.ctrl g'
  pmReg_inj : ∀ g g' ingress ingress', ∀ off ∈ L.offsets, ∀ off' ∈ L.offsets,
    L.pmReg g ingress + off = L.pmReg g' ingress' + off' →
      g = g' ∧ ingress = ingress' ∧ off = off'

theorem Family.separate (family : Family) : family.layout.Separate := by
  cases family <;> exact ⟨by decide, by decide, by decide⟩

namespace Layout

variable (L : Layout)

def wordOf (port : Fin L.ports) : ℕ := if L.wide ∧ port.val < 32 then 4 else 0

theorem wordOf_mem_offsets (port : Fin L.ports) : L.wordOf port ∈ L.offsets := by
  rw [wordOf, offsets]
  cases L.wide
  · exact List.mem_singleton.mpr rfl
  · by_cases h : port.val < 32 <;> simp [h]

theorem getLsbD_getPortRegBe (reg : ℕ) (regs : Registers) (port : Fin L.ports) :
    (L.getPortRegBe reg regs).getLsbD port =
      (regs (reg + L.wordOf port)).getLsbD (port.val % 32) := by
  obtain ⟨port, hport⟩ := port
  rw [getPortRegBe, wordOf]
  rw [ports] at hport
  cases hwide : L.wide with
  | false =>
      rw [hwide] at hport
      have hlt : port < 32 := hport
      simp [Nat.mod_eq_of_lt hlt, show port < 64 by omega]
  | true =>
      rw [hwide] at hport
      have hlt : port < 64 := hport
      by_cases h : port < 32
      · simp [h, hlt, Nat.mod_eq_of_lt h]
      · have hhigh : (regs (reg + 4)).getLsbD port = false :=
          BitVec.getLsbD_of_ge _ _ (by omega)
        have hmod : port % 32 = port - 32 := by omega
        simp [h, hlt, hhigh, hmod]

theorem getLsbD_maskPortRegBe (clear set : BitVec 64) (reg : ℕ) (regs : Registers)
    (port : Fin L.ports) :
    (L.maskPortRegBe clear set reg regs (reg + L.wordOf port)).getLsbD (port.val % 32) =
      ((regs (reg + L.wordOf port)).getLsbD (port.val % 32) && !clear.getLsbD port ||
        set.getLsbD port) := by
  obtain ⟨port, hport⟩ := port
  rw [maskPortRegBe, wordOf]
  rw [ports] at hport
  cases hwide : L.wide with
  | false =>
      rw [hwide] at hport
      have hlt : port < 32 := hport
      simp [swW32Mask, Nat.mod_eq_of_lt hlt, hlt]
  | true =>
      rw [hwide] at hport
      have hlt : port < 64 := hport
      by_cases h : port < 32
      · simp [swW32Mask, h, Nat.mod_eq_of_lt h]
      · have hmod : port % 32 = port - 32 := by omega
        have hback : 32 + (port - 32) = port := by omega
        simp [swW32Mask, h, hmod, hback, show port - 32 < 32 by omega]

/-- A change of a mask leaves all registers but its words. -/
theorem maskPortRegBe_of_ne {clear set : BitVec 64} {reg a : ℕ} {regs : Registers}
    (h : ∀ off ∈ L.offsets, reg + off ≠ a) : L.maskPortRegBe clear set reg regs a = regs a := by
  rw [maskPortRegBe]
  rw [offsets] at h
  cases hwide : L.wide with
  | false =>
      rw [hwide] at h
      exact Function.update_of_ne (Ne.symm (h 0 (by simp))) _ _
  | true =>
      rw [hwide] at h
      rw [if_pos rfl, swW32Mask, swW32Mask, Function.update_of_ne (Ne.symm (h 4 (by simp)))]
      exact Function.update_of_ne (Ne.symm (h 0 (by simp))) _ _

theorem getLsbD_twoPow (port port' : Fin L.ports) :
    (BitVec.twoPow 64 port).getLsbD port' = decide (port = port') := by
  have hports : L.ports ≤ 64 := by
    rw [ports]
    split_ifs <;> omega
  have hlt : port.val < 64 := Nat.lt_of_lt_of_le port.isLt hports
  rw [BitVec.getLsbD_twoPow, decide_eq_true hlt, Bool.true_and, decide_eq_decide]
  exact Fin.ext_iff.symm

theorem word_eq_zero_iff (regs : Registers) (reg : ℕ) :
    regs reg = 0 ↔ ∀ port, Seen L port → (L.getPortRegBe reg regs).getLsbD port = false := by
  constructor
  · intro h port hseen
    have hword : L.wordOf port = 0 := if_neg fun hin => absurd (hseen hin.1) (by omega)
    rw [getLsbD_getPortRegBe, hword, Nat.add_zero, h]
    simp
  · intro h
    refine BitVec.eq_of_getLsbD_eq fun i hi => ?_
    have hport : (if L.wide then 32 + i else i) < L.ports := by
      rw [ports]
      cases L.wide <;> simp <;> omega
    have hbit := h ⟨_, hport⟩ fun hwide => by simp [hwide]
    rw [getLsbD_getPortRegBe, wordOf] at hbit
    cases hwide : L.wide with
    | false => simpa [hwide, Nat.mod_eq_of_lt hi] using hbit
    | true => simpa [hwide, Nat.mod_eq_of_lt hi, show ¬ 32 + i < 32 by omega] using hbit

end Layout

/-! ## The bits of the sessions -/

section Steps

variable {L : Layout} (hsep : L.Separate)
include hsep

/-- A change of one mask changes the bits of one direction in one group. -/
theorem source_mask (s : State) (clear set : BitVec 64) (g g' : Fin 4) (dir dir' : Bool)
    (port : Fin L.ports) (groupPorts : Fin 4 → Option (BitVec 8)) :
    State.source L ⟨L.maskPortRegBe clear set (L.pmReg g dir) s.regs, groupPorts⟩ g' dir' port =
      if g = g' ∧ dir = dir' then s.source L g' dir' port && !clear.getLsbD port || set.getLsbD port
      else s.source L g' dir' port := by
  simp only [State.source, L.getLsbD_getPortRegBe]
  by_cases h : g = g' ∧ dir = dir'
  · obtain ⟨rfl, rfl⟩ := h
    rw [if_pos ⟨rfl, rfl⟩, L.getLsbD_maskPortRegBe]
  · rw [if_neg h, L.maskPortRegBe_of_ne fun off hoff heq => ?_]
    obtain ⟨hg, hdir, -⟩ := hsep.pmReg_inj _ _ _ _ off hoff _ (L.wordOf_mem_offsets port) heq
    exact h ⟨hg, hdir⟩

theorem ctrl_mask (regs : Registers) (clear set : BitVec 64) (g g' : Fin 4) (dir : Bool) :
    L.maskPortRegBe clear set (L.pmReg g dir) regs (L.ctrl g') = regs (L.ctrl g') :=
  L.maskPortRegBe_of_ne fun off hoff => hsep.ctrl_ne g g' dir off hoff

theorem getPortRegBe_update_ctrl (regs : Registers) (g g' : Fin 4) (dir : Bool)
    (port : Fin L.ports) (v : BitVec 32) :
    (L.getPortRegBe (L.pmReg g' dir) (Function.update regs (L.ctrl g) v)).getLsbD port =
      (L.getPortRegBe (L.pmReg g' dir) regs).getLsbD port := by
  rw [L.getLsbD_getPortRegBe, L.getLsbD_getPortRegBe, Function.update_of_ne
    (hsep.ctrl_ne g' g dir _ (L.wordOf_mem_offsets port))]

theorem ctrl_update_of_ne (regs : Registers) {g g' : Fin 4} (h : g' ≠ g) (v : BitVec 32) :
    Function.update regs (L.ctrl g) v (L.ctrl g') = regs (L.ctrl g') :=
  Function.update_of_ne (fun heq => h (hsep.ctrl_inj _ _ heq)) _ _

end Steps

/-- What holds of the groups all along: those with a destination are enabled for it. -/
structure Inv (L : Layout) (s : State) : Prop where
  good : s.Good L
  enabled : ∀ group d, s.groupPorts group = some d → s.regs (L.ctrl group) = L.val d

namespace State

theorem groupPorts_of_findGroup {s : State} {d : Option (BitVec 8)} {group : Fin 4}
    (h : s.findGroup d = some group) : s.groupPorts group = d := by
  simpa using List.find?_some h

theorem findGroup_eq_none {s : State} {d : Option (BitVec 8)} (h : s.findGroup d = none)
    (group : Fin 4) : s.groupPorts group ≠ d := by
  have hall := List.find?_eq_none.mp h group (List.mem_finRange group)
  simpa using hall

end State

/-- The group an addition takes. -/
def Session.Joins {L : Layout} (s : State) (m : Session L) (group : Fin 4) : Prop :=
  s.groupPorts group = some m.toLocalPort ∨
    s.groupPorts group = none ∧ ∀ g, s.groupPorts g ≠ some m.toLocalPort

theorem Session.joins_of_findGroup {L : Layout} {s : State} {m : Session L} {group : Fin 4}
    (h : (s.findGroup (some m.toLocalPort) <|> s.findGroup none) = some group) :
    m.Joins s group := by
  cases hfind : s.findGroup (some m.toLocalPort) with
  | some g =>
      rw [hfind] at h
      cases h
      exact .inl (State.groupPorts_of_findGroup hfind)
  | none =>
      rw [hfind] at h
      exact .inr ⟨State.groupPorts_of_findGroup h, State.findGroup_eq_none hfind⟩

/-- An addition sets one bit and enables the group. -/
structure Added {L : Layout} (s : State) (m : Session L) (group : Fin 4) (after : State) : Prop where
  joins : m.Joins s group
  groupPorts : after.groupPorts = Function.update s.groupPorts group (some m.toLocalPort)
  source : ∀ g dir port, after.source L g dir port =
    (s.source L g dir port || decide (group = g ∧ m.ingress = dir ∧ m.port = port))
  ctrl : ∀ g, after.regs (L.ctrl g) =
    if group = g then L.val m.toLocalPort else s.regs (L.ctrl g)

/-- A removal clears one bit of the group, and it frees the group if no other is seen. -/
structure Removed {L : Layout} (s : State) (m : Session L) (group : Fin 4) (free : Prop)
    (after : State) : Prop where
  groupPorts : (free → after.groupPorts = Function.update s.groupPorts group none) ∧
    (¬ free → after.groupPorts = s.groupPorts)
  source : ∀ g dir port, after.source L g dir port =
    (s.source L g dir port && !decide (group = g ∧ m.ingress = dir ∧ m.port = port))
  ctrl : ∀ g, (free → group ≠ g) → after.regs (L.ctrl g) = s.regs (L.ctrl g)

section Spec

variable {L : Layout} (hsep : L.Separate) {s : State} (m : Session L)
include hsep

theorem mirrorAdd_spec (hinv : Inv L s) :
    (mirrorAdd L s m).1 = s ∨
      (mirrorAdd L s m).2 = none ∧ ∃ group, Added s m group (mirrorAdd L s m).1 := by
  unfold mirrorAdd
  cases hfind : s.findGroup (some m.toLocalPort) <|> s.findGroup none with
  | none => exact .inl rfl
  | some group =>
      have hjoins := Session.joins_of_findGroup hfind
      simp only
      split_ifs with hbit
      · -- A bit that is set is that of a group that is enabled for the destination.
        left
        rw [getPortRegBe_update_ctrl hsep] at hbit
        have hport : s.groupPorts group = some m.toLocalPort :=
          hjoins.resolve_right fun hfree => (hinv.good.1 group).mpr ⟨_, _, hbit⟩ hfree.1
        rw [← hinv.enabled group _ hport, Function.update_eq_self]
      · refine .inr ⟨rfl, group, hjoins, rfl, fun g dir port => ?_, fun g => ?_⟩
        · rw [source_mask hsep ⟨Function.update s.regs (L.ctrl group) _, s.groupPorts⟩]
          simp only [State.source, getPortRegBe_update_ctrl hsep, L.getLsbD_twoPow]
          by_cases h : group = g ∧ m.ingress = dir
          · simp [h]
          · rw [if_neg h, decide_eq_false fun hall => h ⟨hall.1, hall.2.1⟩, Bool.or_false]
        · simp only [ctrl_mask hsep]
          split_ifs with hg
          · rw [hg, Function.update_self]
          · exact ctrl_update_of_ne hsep _ (Ne.symm hg) _

theorem mirrorDel_spec :
    (s.findGroup (some m.toLocalPort) = none ∧ mirrorDel L s m = s) ∨
      ∃ group, s.groupPorts group = some m.toLocalPort ∧
        Removed s m group (∀ dir port, Seen L port → s.source L group dir port = true →
          m.ingress = dir ∧ m.port = port) (mirrorDel L s m) := by
  unfold mirrorDel
  cases hfind : s.findGroup (some m.toLocalPort) with
  | none => exact .inl ⟨rfl, rfl⟩
  | some group =>
      refine .inr ⟨group, State.groupPorts_of_findGroup hfind, ?_⟩
      let regs := L.maskPortRegBe (BitVec.twoPow 64 m.port) 0 (L.pmReg group m.ingress) s.regs
      have hsource : ∀ groupPorts g dir port, State.source L ⟨regs, groupPorts⟩ g dir port =
          (s.source L g dir port && !decide (group = g ∧ m.ingress = dir ∧ m.port = port)) := by
        intro groupPorts g dir port
        rw [source_mask hsep, L.getLsbD_twoPow]
        by_cases h : group = g ∧ m.ingress = dir
        · simp [h]
        · rw [if_neg h, decide_eq_false fun hall => h ⟨hall.1, hall.2.1⟩, Bool.not_false,
            Bool.and_true]
      have hfree : (regs (L.pmReg group true) = 0 ∧ regs (L.pmReg group false) = 0) ↔
          ∀ dir port, Seen L port → s.source L group dir port = true →
            m.ingress = dir ∧ m.port = port := by
        rw [L.word_eq_zero_iff, L.word_eq_zero_iff, and_comm, ← Bool.forall_bool
          (p := fun dir => ∀ port, Seen L port →
            (L.getPortRegBe (L.pmReg group dir) regs).getLsbD port = false)]
        refine forall₃_congr fun dir port _ => ?_
        have hbit := hsource s.groupPorts group dir port
        rw [State.source] at hbit
        rw [hbit, Bool.and_eq_false_iff, Bool.not_eq_false', decide_eq_true_eq,
          ← Bool.not_eq_true, ← imp_iff_not_or]
        simp only [true_and]
      change Removed s m group _
        (if regs (L.pmReg group true) = 0 ∧ regs (L.pmReg group false) = 0 then
          ⟨Function.update regs (L.ctrl group) 0, Function.update s.groupPorts group none⟩
        else ⟨regs, s.groupPorts⟩)
      by_cases h : regs (L.pmReg group true) = 0 ∧ regs (L.pmReg group false) = 0
      · rw [if_pos h]
        have hfreed := hfree.mp h
        refine ⟨⟨fun _ => rfl, fun hnot => absurd hfreed hnot⟩, fun g dir port => ?_,
          fun g hg => ?_⟩
        · rw [← hsource s.groupPorts]
          exact getPortRegBe_update_ctrl hsep _ _ _ _ _ _
        · exact (ctrl_update_of_ne hsep _ (Ne.symm (hg hfreed)) _).trans (ctrl_mask hsep _ _ _ _ _ _)
      · rw [if_neg h]
        have hnot := mt hfree.mpr h
        exact ⟨⟨fun hfreed => absurd hfreed hnot, fun _ => rfl⟩, hsource s.groupPorts,
          fun g _ => ctrl_mask hsep _ _ _ _ _ _⟩

end Spec

/-! ## Runs -/

theorem Added.inv {L : Layout} {s after : State} {m : Session L} {group : Fin 4}
    (h : Added s m group after) (hinv : Inv L s) : Inv L after := by
  have hother : ∀ g, g ≠ group → after.groupPorts g = s.groupPorts g := fun g hg => by
    rw [h.groupPorts, Function.update_of_ne hg]
  have hgroup : after.groupPorts group = some m.toLocalPort := by
    rw [h.groupPorts, Function.update_self]
  -- No other group has the destination.
  have halone : ∀ g, g ≠ group → s.groupPorts g ≠ some m.toLocalPort := by
    intro g hg hport
    cases h.joins with
    | inl hjoin => exact hg (hinv.good.2 _ _ _ hport hjoin)
    | inr hfree => exact hfree.2 g hport
  refine ⟨⟨fun g => ?_, fun g g' d hg hg' => ?_⟩, fun g d hg => ?_⟩
  · by_cases heq : g = group
    · subst heq
      rw [hgroup]
      exact iff_of_true (Option.some_ne_none _) ⟨m.ingress, m.port, by rw [h.source]; simp⟩
    · rw [hother g heq, hinv.good.1 g]
      simp only [h.source, Ne.symm heq, false_and, decide_false, Bool.or_false]
  · by_cases heq : g = group
    · by_cases heq' : g' = group
      · rw [heq, heq']
      · rw [heq, hgroup, ← hg', hother g' heq'] at hg
        exact absurd hg.symm (halone g' heq')
    · rw [hother g heq] at hg
      by_cases heq' : g' = group
      · rw [heq', hgroup, ← hg] at hg'
        exact absurd hg'.symm (halone g heq)
      · rw [hother g' heq'] at hg'
        exact hinv.good.2 g g' d hg hg'
  · rw [h.ctrl]
    by_cases heq : group = g
    · rw [if_pos heq]
      rw [← heq, hgroup] at hg
      rw [Option.some.inj hg]
    · rw [if_neg heq]
      rw [hother g (Ne.symm heq)] at hg
      exact hinv.enabled g d hg

section Run

variable {L : Layout} (hsep : L.Separate) {s : State}
include hsep

theorem Inv.apply (hinv : Inv L s) {call : Call L} (hseen : RemovalSeen L s call) :
    Inv L (apply L s call) := by
  cases call with
  | add m =>
      change Inv L (mirrorAdd L s m).1
      obtain hsame | ⟨-, group, hadded⟩ := mirrorAdd_spec hsep m hinv
      · rw [hsame]
        exact hinv
      · exact hadded.inv hinv
  | del m =>
      change Inv L (mirrorDel L s m)
      obtain ⟨-, hsame⟩ | ⟨group, hgroup, ⟨hfreed, hkept⟩, hsource, hctrl⟩ :=
        mirrorDel_spec hsep (s := s) m
      · rw [hsame]
        exact hinv
      have hsource_of_ne : ∀ g, g ≠ group → ∀ dir port,
          (mirrorDel L s m).source L g dir port = s.source L g dir port := by
        intro g hg dir port
        rw [hsource, decide_eq_false fun hall => hg hall.1.symm, Bool.not_false, Bool.and_true]
      by_cases hfree : ∀ dir port, Seen L port → s.source L group dir port = true →
          m.ingress = dir ∧ m.port = port
      · -- No source is seen, so there is none.
        have hnone : ¬ ∃ dir port, (mirrorDel L s m).source L group dir port = true := by
          rintro ⟨dir, port, hset⟩
          rw [hsource, Bool.and_eq_true, Bool.not_eq_true', decide_eq_false_iff_not] at hset
          obtain ⟨dir', port', hset', hseen', hnot⟩ := hseen group hgroup
            ⟨dir, port, hset.1, fun hall => hset.2 ⟨rfl, hall.1.symm, hall.2.symm⟩⟩
          obtain ⟨hdir, hport⟩ := hfree dir' port' hseen' hset'
          exact hnot ⟨hdir.symm, hport.symm⟩
        have hports := hfreed hfree
        have hother : ∀ g d, (mirrorDel L s m).groupPorts g = some d →
            g ≠ group ∧ s.groupPorts g = some d := by
          intro g d hg
          rw [hports] at hg
          by_cases heq : g = group
          · rw [heq, Function.update_self] at hg
            cases hg
          · rw [Function.update_of_ne heq] at hg
            exact ⟨heq, hg⟩
        refine ⟨⟨fun g => ?_, fun g g' d hg hg' => hinv.good.2 g g' d (hother g d hg).2
          (hother g' d hg').2⟩, fun g d hg => ?_⟩
        · by_cases heq : g = group
          · rw [heq, hports, Function.update_self]
            exact iff_of_false (fun hne => hne rfl) hnone
          · rw [hports, Function.update_of_ne heq, hinv.good.1 g]
            simp only [hsource_of_ne g heq]
        · rw [hctrl g fun _ => (hother g d hg).1.symm]
          exact hinv.enabled g d (hother g d hg).2
      · have hports := hkept hfree
        push Not at hfree
        obtain ⟨dir, port, hin, hset, hnot⟩ := hfree
        refine ⟨⟨fun g => ?_, by rw [hports]; exact hinv.good.2⟩, fun g d hg => ?_⟩
        · rw [hports]
          by_cases heq : g = group
          · rw [heq, hgroup]
            refine iff_of_true (Option.some_ne_none _) ⟨dir, port, ?_⟩
            rw [hsource, hset, decide_eq_false fun hall => hnot hall.2.1 hall.2.2]
            rfl
          · rw [hinv.good.1 g]
            simp only [hsource_of_ne g heq]
        · rw [hports] at hg
          rw [hctrl g fun hall => absurd (hall dir port hin hset) fun h => hnot h.1 h.2]
          exact hinv.enabled g d hg

theorem Inv.stepRight (hinv : Inv L s) {call : Call L} (hseen : RemovalSeen L s call) :
    StepRight L s call := by
  cases call with
  | add m =>
      intro herr
      obtain hsame | ⟨hok, -⟩ := mirrorAdd_spec hsep m hinv
      · exact hsame
      · exact absurd hok herr
  | del m =>
      intro g dir port hset hnot
      obtain ⟨-, hsame⟩ | ⟨group, hgroup, -, hsource, hctrl⟩ := mirrorDel_spec hsep (s := s) m
      · rw [hsame]
        exact ⟨hset, rfl⟩
      have hother : ¬ (group = g ∧ m.ingress = dir ∧ m.port = port) := by
        rintro ⟨rfl, rfl, rfl⟩
        exact hnot ⟨hgroup, rfl, rfl⟩
      refine ⟨by rw [hsource, hset, decide_eq_false hother]; rfl, hctrl g ?_⟩
      rintro hfree rfl
      obtain ⟨dir', port', hset', hseen', hnot'⟩ := hseen group hgroup
        ⟨dir, port, hset, fun hall => hother ⟨rfl, hall.1.symm, hall.2.symm⟩⟩
      obtain ⟨hdir, hport⟩ := hfree dir' port' hseen' hset'
      exact hnot' ⟨hdir.symm, hport.symm⟩

/-- A removal that does not see the other sources leaves a group without a destination that has
sources. -/
theorem removalSeen_of_good (hinv : Inv L s) {call : Call L} (hgood : (apply L s call).Good L) :
    RemovalSeen L s call := by
  cases call with
  | add m => trivial
  | del m =>
      rintro g hg ⟨dir, port, hset, hnot⟩
      by_contra hnone
      push Not at hnone
      obtain ⟨hmiss, -⟩ | ⟨group, hgroup, ⟨hfreed, -⟩, hsource, -⟩ := mirrorDel_spec hsep (s := s) m
      · exact State.findGroup_eq_none hmiss g hg
      obtain rfl := hinv.good.2 _ _ _ hg hgroup
      have hports := hfreed fun dir' port' hseen' hset' => by
        have hthis := hnone dir' port' hset' hseen'
        exact ⟨hthis.1.symm, hthis.2.symm⟩
      refine (hgood.1 g).mpr ⟨dir, port, ?_⟩ ?_
      · change (mirrorDel L s m).source L g dir port = true
        rw [hsource, hset, decide_eq_false fun hall => hnot ⟨hall.2.1.symm, hall.2.2.symm⟩]
        rfl
      · change (mirrorDel L s m).groupPorts g = none
        rw [hports, Function.update_self]

end Run

/-- The groups before the first session. -/
def State.start (regs : Registers) : State := ⟨regs, fun _ => none⟩

/-- From masks that are empty, in every state of a run the groups with a destination are those with a
source and every step is right, exactly if no removal misses the sources that are left. -/
theorem groups_right_iff (family : Family) (regs : Registers)
    (hreset : ∀ group ingress, family.layout.getPortRegBe (family.layout.pmReg group ingress) regs = 0)
    (calls : List (Call family.layout)) :
    Along (apply family.layout) (RemovalSeen family.layout) calls (.start regs) ↔
      ∀ n, ((calls.take n).foldl (apply family.layout) (.start regs)).Good family.layout ∧
        ∀ call, calls[n]? = some call →
          StepRight family.layout ((calls.take n).foldl (apply family.layout) (.start regs)) call := by
  have hempty : ∀ group ingress port,
      (State.start regs).source family.layout group ingress port = false := by
    intro group ingress port
    rw [State.source, State.start, hreset]
    exact BitVec.getLsbD_zero
  have hinv : Inv family.layout (.start regs) := by
    refine ⟨⟨fun group => iff_of_false (fun hne => hne rfl) ?_, fun _ _ d h => by cases h⟩,
      fun _ d h => by cases h⟩
    rintro ⟨ingress, port, hset⟩
    rw [hempty] at hset
    cases hset
  exact along_iff_forall_take_and_getElem? (fun _ h => h.good)
    (fun _ _ _ h hseen => h.apply family.separate hseen)
    (fun _ _ _ h hseen => h.stepRight family.separate hseen)
    (fun _ _ _ h hgood _ => removalSeen_of_good family.separate h hgood) hinv

theorem good_addition :
    (apply Family.rtl839x.layout (.start fun _ => 0) (.add ⟨⟨1, by decide⟩, 10, true⟩)).Good
      Family.rtl839x.layout :=
  ((groups_right_iff .rtl839x (fun _ => 0) (by decide) [.add ⟨⟨1, by decide⟩, 10, true⟩]).mp
    ⟨trivial, trivial⟩ 1).1

/-- Two ports that are mirrored to port 10, and the first of them no longer. -/
def twoSources : List (Call Family.rtl839x.layout) :=
  [.add ⟨⟨1, by decide⟩, 10, true⟩, .add ⟨⟨2, by decide⟩, 10, true⟩, .del ⟨⟨1, by decide⟩, 10, true⟩]

/-- The group is free while a port is in its mask. -/
theorem not_good : ¬ (twoSources.foldl (apply Family.rtl839x.layout) (.start fun _ => 0)).Good
    Family.rtl839x.layout := by
  intro h
  exact (h.1 0).mpr ⟨true, ⟨2, by decide⟩, by decide⟩ (by decide)

end OpenWrt.Rtl83xx.Mirror
