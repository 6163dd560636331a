/-
# Link aggregation in the rtl83xx switches

Ports join groups and leave them. Four tables say who is where: the ports of each group,
the ports of any group, those that do not stand for their group, and for each group the one
that does. The first two are kept by different layers, and a join may fail in between.

The primary of a group is a `u32`, in which all ones stands for none. The tables of a new
switch are all zero, so no group starts without a primary: zero is port 0.
-/

import OpenWrt.Lib.Run
import OpenWrt.Rtl83xx.Fdb
import OpenWrt.Rtl83xx.PortMask

namespace OpenWrt.Rtl83xx

open OpenWrt.Lib

/-! ## The tables -/

/-- How a group spreads what it sends. -/
inductive LagTxType where
  | hash
  | other
deriving DecidableEq

/-- What it hashes. -/
inductive LagHash where
  | l2
  | l34
  | l23
  | other
deriving DecidableEq

/-- `struct netdev_lag_upper_info`. -/
structure LagUpperInfo where
  txType : LagTxType
  hashType : LagHash
deriving DecidableEq

/-- The part of `struct rtl838x_switch_priv` on groups. -/
structure Lags where
  lagmembers : U64
  lagNonPrimary : U64
  lagPrimary : ℕ → U32
  lagsPortMembers : ℕ → U64

def Lags.probed : Lags := ⟨0, 0, fun _ => 0, fun _ => 0⟩

/-- The families. -/
inductive LagFamily where
  | rtl838x
  | rtl839x
  | rtl930x
  | rtl931x
deriving DecidableEq

namespace LagFamily

/-- The number of the CPU port, behind those of the users. -/
def cpuPort : LagFamily → ℕ
  | rtl838x | rtl930x => 28
  | rtl839x => 52
  | rtl931x => 56

/-- The number of groups. -/
def numLagIds : LagFamily → ℕ
  | rtl838x => 8
  | rtl839x | rtl930x | rtl931x => 16

/-- The members of a group go into a trunk table with room for eight. -/
def hasTrunkTable : LagFamily → Bool
  | rtl838x | rtl839x => false
  | rtl930x | rtl931x => true

end LagFamily

/-- `-EINVAL`, `-ENOSPC` and `-EOPNOTSUPP`. -/
def einval : ℤ := -22
def enospc : ℤ := -28
def eopnotsupp : ℤ := -95

/-- The ports that there is room for, `ARRAY_SIZE(priv->ports)`. -/
def maxPorts : ℕ := 57

/-! ## The operations -/

section Operations

variable (F : LagFamily)

/-- `rtldsa_93xx_lag_set_group2ports`, what it checks. -/
def lagSetGroup2ports (t : Lags) (group : ℕ) (info : Option LagUpperInfo) : ℤ :=
  if 8 < weight maxPorts (t.lagsPortMembers group) then enospc
  else
    match info with
    | some info => if info.hashType = .l2 ∨ info.hashType = .l23 then 0 else eopnotsupp
    | none => 0

/-- `lag_set_port_members` of a family. -/
def lagSetPortMembers (t : Lags) (group : ℕ) (members : U64) (info : Option LagUpperInfo) :
    Lags × ℤ :=
  let t := { t with lagsPortMembers := Function.update t.lagsPortMembers group members }
  if F.hasTrunkTable then (t, lagSetGroup2ports t group info) else (t, 0)

/-- `rtl83xx_lag_add`. The hash of the RTL83xx families is set up first, which does not
fail. -/
def rtl83xxLagAdd (t : Lags) (group port : ℕ) (info : LagUpperInfo) : Lags × ℤ :=
  if (List.range F.numLagIds).any fun i => (t.lagsPortMembers i).getLsbD port then (t, enospc)
  else lagSetPortMembers F t group (t.lagsPortMembers group ||| bitUll port) (some info)

/-- `rtl83xx_lag_del`. -/
def rtl83xxLagDel (t : Lags) (group port : ℕ) : Lags × ℤ :=
  if F.numLagIds ≤ group then (t, einval)
  else if !(t.lagsPortMembers group).getLsbD port then (t, enospc)
  else lagSetPortMembers F t group (t.lagsPortMembers group &&& ~~~ bitUll port) none

/-- `rtldsa_83xx_lag_can_offload`; `id` is what `dsa_lag_id` finds for the group. -/
def lagCanOffload (id : Option ℕ) (info : LagUpperInfo) : Option ℕ :=
  match id with
  | none => none
  | some id =>
    if F.numLagIds ≤ id then none
    else if info.txType ≠ .hash then none
    else if info.hashType ≠ .l2 ∧ info.hashType ≠ .l23 then none
    else some id

/-- The middle of a join: the port stands for a group without a primary, and not for any
other. -/
def enlist (t : Lags) (group port : ℕ) : Lags :=
  let t :=
    if t.lagPrimary group = -1 then
      { t with lagPrimary := Function.update t.lagPrimary group (BitVec.ofNat 32 port) }
    else { t with lagNonPrimary := t.lagNonPrimary ||| bitUll port }
  { t with lagmembers := t.lagmembers ||| bitUll port }

/-- `rtldsa_port_lag_join`. -/
def rtldsaPortLagJoin (t : Lags) (port : ℕ) (lag : Option ℕ) (info : LagUpperInfo) : Lags × ℤ :=
  match lagCanOffload F lag info with
  | none => (t, eopnotsupp)
  | some group =>
    if F.cpuPort ≤ port then (t, einval)
    else
      match rtl83xxLagAdd F (enlist t group port) group port info with
      | (t, err) => if err ≠ 0 then (t, einval) else (t, 0)

/-- The end of a leave: choose the primary of what is left. -/
def reelect (t : Lags) (group : ℕ) : Lags :=
  if t.lagsPortMembers group = 0 then t
  else
    let primary := fls64 (t.lagsPortMembers group)
    { t with
      lagPrimary := Function.update t.lagPrimary group (BitVec.ofNat 32 primary)
      lagNonPrimary := t.lagNonPrimary &&& ~~~ bitUll primary }

/-- `rtldsa_port_lag_leave`, which always returns 0. -/
def rtldsaPortLagLeave (t : Lags) (port : ℕ) (lag : Option ℕ) : Lags :=
  match lag with
  | none => t
  | some group =>
    if F.cpuPort ≤ port then t
    else
      let t := { t with
        lagmembers := t.lagmembers &&& ~~~ bitUll port
        lagNonPrimary := t.lagNonPrimary &&& ~~~ bitUll port }
      match rtl83xxLagDel F t group port with
      | (t, err) => if err ≠ 0 then t else reelect t group

/-- A call into the driver. -/
inductive LagCall where
  | join (port : ℕ) (lag : Option ℕ) (info : LagUpperInfo)
  | leave (port : ℕ) (lag : Option ℕ)
deriving DecidableEq

/-- The tables after a call, and what it returned. -/
def LagCall.run (t : Lags) : LagCall → Lags × ℤ
  | .join port lag info => rtldsaPortLagJoin F t port lag info
  | .leave port lag => (rtldsaPortLagLeave F t port lag, 0)

def Lags.call (t : Lags) (call : LagCall) : Lags := (call.run F t).1

/-- A join that gets past the checks in front. -/
def LagCall.Offloaded : LagCall → Prop
  | .join port lag info => (lagCanOffload F lag info).isSome ∧ port < F.cpuPort
  | .leave _ _ => False

end Operations

/-! ## What is asked of them -/

def Lags.Stands (t : Lags) (group port : ℕ) : Prop :=
  (t.lagsPortMembers group).getLsbD port ∧ t.lagNonPrimary.getLsbD port = false

/-- The four tables agree. -/
structure Lags.Sound (t : Lags) : Prop where
  members : ∀ port, t.lagmembers.getLsbD port ↔
    ∃ group < maxLags, (t.lagsPortMembers group).getLsbD port
  disjoint : ∀ first < maxLags, ∀ second < maxLags, ∀ port,
    (t.lagsPortMembers first).getLsbD port → (t.lagsPortMembers second).getLsbD port →
      first = second
  nonPrimary : ∀ port, t.lagNonPrimary.getLsbD port → t.lagmembers.getLsbD port
  primary : ∀ group < maxLags, t.lagsPortMembers group ≠ 0 →
    ∃ port, (∀ other, t.Stands group other ↔ other = port) ∧
      t.lagPrimary group = BitVec.ofNat 32 port

/-- A call that returns an error leaves the tables. -/
def LagCall.Clean (F : LagFamily) (t : Lags) (call : LagCall) : Prop :=
  (call.run F t).2 ≠ 0 → (call.run F t).1 = t

/-! ## Runs without a group -/

section Runs

variable {F : LagFamily}

theorem LagFamily.cpuPort_le (F : LagFamily) : F.cpuPort ≤ 56 := by
  cases F <;> decide

theorem LagFamily.numLagIds_le (F : LagFamily) : F.numLagIds ≤ maxLags := by
  cases F <;> decide

theorem lagCanOffload_lt {lag : Option ℕ} {info : LagUpperInfo} {group : ℕ}
    (h : lagCanOffload F lag info = some group) :
    group < F.numLagIds ∧ (info.hashType = .l2 ∨ info.hashType = .l23) := by
  unfold lagCanOffload at h
  split at h
  case h_1 => cases h
  case h_2 id =>
    split_ifs at h with hid htx hhash
    cases h
    exact ⟨by omega, by tauto⟩

theorem Lags.sound_probed : Lags.probed.Sound where
  members port := by simp [probed]
  disjoint first _ second _ port h := by simp [probed] at h
  nonPrimary port h := by simp [probed] at h
  primary group _ h := absurd rfl h

/-- No group has a member yet, and a call that is refused or leaves changes nothing. -/
theorem Lags.call_probed {call : LagCall} (h : ¬ call.Offloaded F) :
    Lags.probed.call F call = .probed ∧ call.Clean F .probed := by
  cases call with
  | join port lag info =>
    unfold LagCall.Offloaded at h
    have hrun : (LagCall.join port lag info).run F .probed = (.probed, eopnotsupp) ∨
        (LagCall.join port lag info).run F .probed = (.probed, einval) := by
      simp only [LagCall.run, rtldsaPortLagJoin]
      cases hoffload : lagCanOffload F lag info with
      | none => exact .inl rfl
      | some group =>
        have hport : F.cpuPort ≤ port := by
          simpa [hoffload] using h
        exact .inr (if_pos hport)
    unfold Lags.call LagCall.Clean
    rcases hrun with hrun | hrun <;> rw [hrun] <;> exact ⟨rfl, fun _ => rfl⟩
  | leave port lag =>
    refine ⟨?_, fun hne => absurd rfl hne⟩
    simp only [Lags.call, LagCall.run, rtldsaPortLagLeave]
    cases lag with
    | none => rfl
    | some group =>
      by_cases hport : F.cpuPort ≤ port
      · exact if_pos hport
      · simp only [if_neg hport, rtl83xxLagDel, probed]
        by_cases hgroup : F.numLagIds ≤ group
        · simp [hgroup, einval]
        · simp [hgroup, enospc]

/-- The first port to join a group does not stand for it. -/
theorem Lags.not_sound_of_offloaded {call : LagCall} (h : call.Offloaded F) :
    ¬ (Lags.probed.call F call).Sound := by
  cases call with
  | leave port lag => exact h.elim
  | join port lag info =>
    obtain ⟨hoffload, hport⟩ := h
    obtain ⟨group, hgroup⟩ := Option.isSome_iff_exists.mp hoffload
    obtain ⟨hlt, hhash⟩ := lagCanOffload_lt hgroup
    have hport64 : port < 64 := by
      have := F.cpuPort_le
      omega
    have henlist : enlist .probed group port =
        { Lags.probed with lagmembers := bitUll port, lagNonPrimary := bitUll port } := by
      simp [enlist, probed]
    have hadd : (rtl83xxLagAdd F (enlist .probed group port) group port info).1 =
        { lagmembers := bitUll port, lagNonPrimary := bitUll port,
          lagPrimary := fun _ => 0,
          lagsPortMembers := Function.update (fun _ => 0) group (bitUll port) } := by
      rw [henlist]
      simp [rtl83xxLagAdd, lagSetPortMembers, probed, apply_ite Prod.fst]
    have hafter : Lags.probed.call F (.join port lag info) =
        (rtl83xxLagAdd F (enlist .probed group port) group port info).1 := by
      simp only [Lags.call, LagCall.run, rtldsaPortLagJoin, hgroup, if_neg (not_le.mpr hport)]
      split <;> rfl
    rw [hafter, hadd]
    intro hsound
    have hmember : (bitUll port).getLsbD port = true := by
      rw [getLsbD_bitUll hport64]
      simp
    obtain ⟨stand, hstand, -⟩ := hsound.primary group (hlt.trans_le F.numLagIds_le)
      (ne_zero_of_getLsbD (i := port) (by simpa using hmember))
    obtain ⟨hin, hout⟩ := (hstand stand).mpr rfl
    simp only [Function.update_self] at hin
    rw [hin] at hout
    cases hout

theorem Lags.foldl_call_probed {calls : List LagCall}
    (h : ∀ call ∈ calls, ¬ call.Offloaded F) : calls.foldl (Lags.call F) .probed = .probed := by
  induction calls with
  | nil => rfl
  | cons call calls ih =>
    rw [List.foldl_cons, (Lags.call_probed (h call List.mem_cons_self)).1]
    exact ih fun other hmem => h other (List.mem_cons_of_mem _ hmem)

/-- In a run from a new switch the tables agree in every state, and every call that
returns an error leaves them, exactly when no join gets past the checks in front. -/
theorem lags_sound_iff (F : LagFamily) (calls : List LagCall) :
    (∀ n, ((calls.take n).foldl (Lags.call F) .probed).Sound ∧
      ∀ call, calls[n]? = some call →
        call.Clean F ((calls.take n).foldl (Lags.call F) .probed)) ↔
      ∀ call ∈ calls, ¬ call.Offloaded F := by
  constructor
  · intro h
    by_contra hsome
    -- the first join that gets past the checks
    have hfirst : ∃ n call, calls[n]? = some call ∧ call.Offloaded F ∧
        ∀ other ∈ calls.take n, ¬ other.Offloaded F := by
      clear h
      induction calls with
      | nil => exact absurd (fun call hmem => nomatch hmem) hsome
      | cons call calls ih =>
        by_cases hcall : call.Offloaded F
        · exact ⟨0, call, rfl, hcall, fun other hmem => nomatch hmem⟩
        · obtain ⟨n, later, hlater, hoffloaded, hbefore⟩ := ih fun hall =>
          hsome (List.forall_mem_cons.mpr ⟨hcall, hall⟩)
          exact ⟨n + 1, later, hlater, hoffloaded, List.forall_mem_cons.mpr ⟨hcall, hbefore⟩⟩
    obtain ⟨n, call, hcall, hoffloaded, hbefore⟩ := hfirst
    have hafter : (calls.take (n + 1)).foldl (Lags.call F) .probed =
        Lags.probed.call F call := by
      rw [List.take_add_one, hcall, Option.toList_some, List.foldl_append,
        Lags.foldl_call_probed hbefore]
      rfl
    exact Lags.not_sound_of_offloaded hoffloaded (hafter ▸ (h (n + 1)).1)
  · intro h n
    rw [Lags.foldl_call_probed fun call hmem => h call (List.mem_of_mem_take hmem)]
    exact ⟨Lags.sound_probed, fun call hcall =>
      (Lags.call_probed (h call (List.mem_of_getElem? hcall))).2⟩

end Runs

/-! ## A first port -/

/-- Port 3 joins the first group of an RTL930x. It is the only member and is said not to
stand for the group. -/
theorem not_lags_sound_of_first_port :
    ¬ ∀ n, (([LagCall.join 3 (some 0) ⟨.hash, .l2⟩].take n).foldl (Lags.call .rtl930x)
        .probed).Sound ∧
      ∀ call, [LagCall.join 3 (some 0) ⟨.hash, .l2⟩][n]? = some call →
        call.Clean .rtl930x (([LagCall.join 3 (some 0) ⟨.hash, .l2⟩].take n).foldl
          (Lags.call .rtl930x) .probed) := by
  intro h
  apply @Lags.not_sound_of_offloaded .rtl930x (.join 3 (some 0) ⟨.hash, .l2⟩)
  · exact ⟨by decide, by decide⟩
  · exact (h 1).1

end OpenWrt.Rtl83xx
