import SoundLog.Proofs.Ym2612.Extensionality
import SoundLog.Proofs.Ym2612.Keys
import SoundLog.Proofs.Ym2612.Pitches

/-!
# The last writes decide

As long as the mode of the chip stays, every part is written through one register, and each write to
this register replaces what an earlier one has left. So several writes do to a chip what the last
values tell that they bring to each register, in whatever order they come. Only two registers of
port 0 stand apart: one chooses the mode, and one is shared by the keys of all channels.
-/

namespace SoundLog
namespace Ym2612

/-! ## The last value of a register -/

def Action.valueFor? (port : Port) (register : UInt8) : Action → Option UInt8
  | write port' register' value =>
    if Port.ofByte port' = port ∧ register' = register then some value else none
  | reset => none

/-- The last value that some actions bring to a register of a port. -/
def lastWritten? (actions : List Action) (port : Port) (register : UInt8) : Option UInt8 :=
  (actions.filterMap (Action.valueFor? port register)).getLast?

theorem lastWritten?_snoc (actions : List Action) (action : Action) (port : Port)
    (register : UInt8) : lastWritten? (actions ++ [action]) port register =
      (action.valueFor? port register).or (lastWritten? actions port register) := by
  unfold lastWritten?
  rw [List.filterMap_append]
  cases h : action.valueFor? port register with
  | none => simp [h]
  | some value => simp [h]

/-! ## The register of a group -/

/-- What the groups of the channel in a place are written through in a mode of the chip. -/
def Group.carrier? (special : Bool) (slot : Fin 3) : Group → Option Target
  | .settings j field => some (.operator slot j field)
  | .operatorPitch j half =>
    if slot = 2 then
      if j = 0 then if special then some (.frequency 2 half) else none
      else some (.operatorFrequency j half)
    else none
  | .keys => none
  | .pitch half => if slot = 2 ∧ special = true then none else some (.frequency slot half)
  | .algorithmFeedback => some (.algorithmFeedback slot)
  | .stereoSensitivity => some (.stereoSensitivity slot)

/-- The port and the register that a group of a channel is written through in a mode of the chip, if
the group is not that of the keys. -/
def Group.place? (special : Bool) (c : Fin 6) (group : Group) : Option (Port × UInt8) :=
  ((group.carrier? special (slotOf c)).bind Target.address?).map fun register =>
    (Port.ofChannel c, register)

section

variable {special : Bool} {port : Port} {register value : UInt8} {c : Fin 6} {group : Group}

theorem Group.place?_eq_some_iff {target : Target} {address : UInt8}
    (hcarrier : group.carrier? special (slotOf c) = some target)
    (haddress : target.address? = some address) :
    group.place? special c = some (port, register) ↔
      port = Port.ofChannel c ∧ Target.ofRegister register = target := by
  rw [Target.ofRegister_eq_iff haddress]
  simp [place?, hcarrier, haddress, eq_comm]

theorem Group.place?_eq_none (h : group.carrier? special (slotOf c) = none) :
    group.place? special c = none := by
  rw [place?, h, Option.bind_none, Option.map_none]

theorem route_eq_some_iff_place (hkeys : group ≠ .keys) :
    route special port value (Target.ofRegister register) = some (c, group) ↔
      group.place? special c = some (port, register) := by
  cases group with
  | keys => exact absurd rfl hkeys
  | settings j field =>
    rw [route_eq_some_iff rfl, Group.place?_eq_some_iff rfl rfl]
  | algorithmFeedback | stereoSensitivity =>
    rw [route_eq_some_iff rfl, Group.place?_eq_some_iff rfl rfl]
  | pitch half =>
    rw [← Port.channel_slotOf c, route_eq_pitch, Port.channel_slotOf]
    by_cases hlast : slotOf c = 2 ∧ special = true
    · have hcarrier : (Group.pitch half).carrier? special (slotOf c) = none := if_pos hlast
      rw [Group.place?_eq_none hcarrier]
      simp [hlast]
    · have hcarrier : (Group.pitch half).carrier? special (slotOf c) =
          some (.frequency (slotOf c) half) := if_neg hlast
      have hmode : slotOf c = 2 → special = false := by simpa using hlast
      rw [Group.place?_eq_some_iff hcarrier rfl, and_iff_left hmode]
  | operatorPitch j half =>
    rw [← Port.channel_slotOf c, route_eq_operatorPitch, Port.channel_slotOf]
    by_cases hlast : slotOf c = 2
    · by_cases hj : j = 0
      · subst hj
        cases special with
        | true =>
          have hcarrier : (Group.operatorPitch 0 half).carrier? true (slotOf c) =
              some (.frequency 2 half) := by simp [Group.carrier?, hlast]
          rw [Group.place?_eq_some_iff hcarrier rfl]
          simp [hlast, ofRegister_ne_operatorFrequency]
        | false =>
          have hcarrier : (Group.operatorPitch 0 half).carrier? false (slotOf c) = none := by
            simp [Group.carrier?, hlast]
          rw [Group.place?_eq_none hcarrier]
          simp [ofRegister_ne_operatorFrequency]
      · have hcarrier : (Group.operatorPitch j half).carrier? special (slotOf c) =
            some (.operatorFrequency j half) := by simp [Group.carrier?, hlast, hj]
        rw [Group.place?_eq_some_iff hcarrier (if_neg hj)]
        simp [hlast, hj]
    · have hcarrier : (Group.operatorPitch j half).carrier? special (slotOf c) = none :=
        if_neg hlast
      rw [Group.place?_eq_none hcarrier]
      simp [hlast]

end

/-! ## One write -/

def Span.readOr (span : Span) (value? : Option UInt8) (old : Nat) : Nat :=
  (value?.map span.read).getD old

theorem Span.readOr_or (span : Span) (written : Prop) [Decidable written] (value : UInt8)
    (earlier? : Option UInt8) (old : Nat) :
    span.readOr ((if written then some value else none).or earlier?) old =
      if written then span.read value else span.readOr earlier? old := by
  split <;> rfl

/-- A write to another register than those of the mode and of the keys. -/
def Action.IsPlainWrite : Action → Prop
  | write port register _ => Port.ofByte port = 0 → register ≠ 0x27 ∧ register ≠ 0x28
  | reset => False

instance : DecidablePred Action.IsPlainWrite
  | .write port register _ =>
    inferInstanceAs (Decidable (Port.ofByte port = 0 → register ≠ 0x27 ∧ register ≠ 0x28))
  | .reset => inferInstanceAs (Decidable False)

/-- Each part of `after` holds its bits of the last value that the actions have brought to its
register, and what it held in `chip` if they have brought none. -/
structure Chip.KeepsLast (chip : Chip) (actions : List Action) (after : Chip) : Prop where
  numbered : after.NumberedAlike chip
  mode : after.specialMode = chip.specialMode
  part (c : Fin 6) (part : Part) : part.value (after.channels.get c) =
    part.span.readOr
      ((part.group.place? chip.specialMode c).bind fun place =>
        lastWritten? actions place.1 place.2)
      (part.value (chip.channels.get c))
  control (control : Control) : control.value after =
    control.span.readOr (lastWritten? actions 0 (UInt8.ofNat control.register.address))
      (control.value chip)
  read (port : Port) (register : UInt8) :
    after.read port register = (lastWritten? actions port register).or (chip.read port register)

namespace Chip

theorem keepsLast_nil (chip : Chip) : chip.KeepsLast [] chip := by
  constructor
  · exact ⟨fun _ => rfl, fun _ _ => rfl⟩
  · rfl
  · intro c part
    cases part.group.place? chip.specialMode c <;> rfl
  · exact fun control => rfl
  · exact fun port register => rfl

theorem KeepsLast.write {chip after : Chip} {actions : List Action} {port register value : UInt8}
    (h : chip.KeepsLast actions after) (hplain : (Action.write port register value).IsPlainWrite) :
    chip.KeepsLast (actions ++ [.write port register value])
      (after.write (Port.ofByte port) register value) := by
  constructor
  · exact (after.numberedAlike_write _ register value).trans h.numbered
  · rw [specialMode_write, if_neg, h.mode]
    rintro ⟨hport, hregister⟩
    exact (hplain hport).1 hregister
  · intro c part
    rw [part_write, h.mode, h.part]
    by_cases hkeys : part.group = .keys
    · have hroute : route chip.specialMode (Port.ofByte port) value (Target.ofRegister register) ≠
          some (c, part.group) := by
        rw [hkeys]
        intro hreached
        obtain ⟨hport, hregister, -⟩ := route_ofRegister_eq_keys.mp hreached
        exact (hplain hport).2 hregister
      rw [if_neg hroute, hkeys]
      rfl
    · simp only [route_eq_some_iff_place hkeys]
      cases hplace : part.group.place? chip.specialMode c with
      | none => rfl
      | some place =>
        obtain ⟨port', register'⟩ := place
        rw [Option.bind_some, Option.bind_some, lastWritten?_snoc, Action.valueFor?,
          Span.readOr_or]
        simp only [Option.some.injEq, Prod.mk.injEq, eq_comm]
  · intro control
    have haddress : (Target.global control.register).address? =
        some (UInt8.ofNat control.register.address) := rfl
    rw [control_write, lastWritten?_snoc, Action.valueFor?, Span.readOr_or, h.control]
    simp only [Target.ofRegister_eq_iff haddress]
  · intro port' register'
    rw [read_write, lastWritten?_snoc, h.read, Action.valueFor?, Option.or_assoc]
    by_cases hreached : Port.ofByte port = port' ∧ register = register'
    · rw [if_pos hreached, if_pos ⟨hreached.1.symm, hreached.2.symm⟩, Option.some_or]
    · rw [if_neg hreached, if_neg fun hsame => hreached ⟨hsame.1.symm, hsame.2.symm⟩,
        Option.none_or]

end Chip

/-! ## Several writes -/

/-- The chip after some actions. -/
def Chip.performAll (chip : Chip) (actions : List Action) : Chip :=
  actions.foldl Action.perform chip

theorem Chip.performAll_snoc (chip : Chip) (actions : List Action) (action : Action) :
    chip.performAll (actions ++ [action]) = Action.perform (chip.performAll actions) action :=
  List.foldl_concat ..

theorem Chip.keepsLast_performAll (chip : Chip) {actions : List Action}
    (hplain : ∀ action ∈ actions, action.IsPlainWrite) :
    chip.KeepsLast actions (chip.performAll actions) := by
  induction actions using List.reverseRecOn with
  | nil => exact chip.keepsLast_nil
  | append_singleton actions action ih =>
    obtain ⟨hactions, haction⟩ := List.forall_mem_append.mp hplain
    have hlast := haction action (List.mem_singleton_self action)
    rw [performAll_snoc]
    cases action with
    | write port register value => exact (ih hactions).write hlast
    | reset => exact hlast.elim

theorem Chip.KeepsLast.unique {chip after after' : Chip} {actions actions' : List Action}
    (h : chip.KeepsLast actions after) (h' : chip.KeepsLast actions' after')
    (hlast : lastWritten? actions = lastWritten? actions') : after = after' := by
  apply Chip.ext_parts
  · constructor
    · intro c
      rw [h.numbered.channel, h'.numbered.channel]
    · intro c j
      rw [h.numbered.operator, h'.numbered.operator]
  · intro c part
    rw [h.part, h'.part, hlast]
  · intro control
    rw [h.control, h'.control, hlast]
  · rw [h.mode, h'.mode]
  · intro port register
    rw [h.read, h'.read, hlast]

/-- Writes that bring the same last value to every register of every port lead from a chip to the
same state, in whatever order and however often they come. -/
theorem Chip.performAll_eq_of_lastWritten (chip : Chip) {left right : List Action}
    (hleft : ∀ action ∈ left, action.IsPlainWrite) (hright : ∀ action ∈ right, action.IsPlainWrite)
    (hlast : ∀ port register, lastWritten? left port register = lastWritten? right port register) :
    chip.performAll left = chip.performAll right := by
  have hsame : lastWritten? left = lastWritten? right := by
    funext port register
    exact hlast port register
  exact (chip.keepsLast_performAll hleft).unique (chip.keepsLast_performAll hright) hsame

/-- Two orders of the same last values in special mode: the pitch of an operator, the algorithm of a
channel, which is written twice, and the register of port 1 that has the address of the mode. -/
theorem Chip.performAll_reordered :
    let chip := run [.write 0 0x27 0x40, .write 0 0x28 0xF2]
    let left : List Action :=
      [.write 1 0xA6 0x22, .write 0 0xB0 0x07, .write 3 0x27 0x80, .write 0 0xB0 0x3A]
    let right : List Action := [.write 2 0xB0 0x3A, .write 1 0x27 0x80, .write 1 0xA6 0x22]
    chip.performAll left = chip.performAll right ∧
      (((chip.performAll right).channels.get 5).operators.get 0).frequency.msb = 2 ∧
      (chip.performAll right).specialMode = true := by
  intro chip left right
  have hlast : ∀ port register, lastWritten? left port register =
      lastWritten? right port register := by
    decide +kernel
  refine ⟨chip.performAll_eq_of_lastWritten (by decide) (by decide) hlast, ?_, ?_⟩
  · decide +kernel
  · decide +kernel

end Ym2612
end SoundLog
