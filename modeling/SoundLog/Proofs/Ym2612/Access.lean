import SoundLog.Proofs.Ym2612.History

/-!
# Accesses by number

An address gives the place of a channel and the operator as plain numbers, and such numbers index
the arrays that a chip is made of. Here a write is spelled out with them, every access is checked
against the length of its array, and no access of any write fails: what comes out is the write.
-/

namespace SoundLog
namespace Ym2612

/-! ## Entries -/

section

variable {α : Type} {n : Nat} (xs : Vector α n)

def entry (i : Nat) : Except IndexError α :=
  if h : i < n then .ok xs[i] else .error (.entry n i)

def changeEntry (i : Nat) (change : α → Except IndexError α) : Except IndexError (Vector α n) :=
  if h : i < n then (change xs[i]).map fun x => xs.set i x h else .error (.entry n i)

theorem entry_of_lt {i : Nat} (h : i < n) : entry xs i = .ok xs[i] := dif_pos h

theorem changeEntry_eq (i : Fin n) (change : α → α) :
    (changeEntry xs i fun x => .ok (change x)) = .ok (xs.set i (change (xs.get i)) i.isLt) := by
  rw [changeEntry, dif_pos i.isLt]
  rfl

end

/-! ## Addresses -/

/-- What a register controls, by the numbers that its address gives. -/
inductive Decoded
  | unmapped
  | proprietary
  | global (register : Global)
  | operator (slot operator : UInt8) (field : OperatorField)
  | frequency (slot : UInt8) (part : FrequencyPart)
  | operatorFrequency (operator : UInt8) (part : FrequencyPart)
  | algorithmFeedback (slot : UInt8)
  | stereoSensitivity (slot : UInt8)
  deriving DecidableEq

namespace Decoded

/-- Decodes an address range by range. -/
def ofRegister (register : UInt8) : Decoded :=
  match Target.global? register with
  | some target => global target
  | none =>
    if 0x30 ≤ register ∧ register ≤ 0x8F then
      match Target.operatorField? register with
      | some field =>
        if register &&& 3 = 3 then unmapped
        else operator (register &&& 3) (register >>> 2 &&& 3) field
      | none => unmapped
    else if 0x90 ≤ register ∧ register ≤ 0x9E then proprietary
    else if 0xA0 ≤ register ∧ register ≤ 0xA2 then frequency (register - 0xA0) .low
    else if 0xA4 ≤ register ∧ register ≤ 0xA6 then frequency (register - 0xA4) .high
    else if 0xA8 ≤ register ∧ register ≤ 0xAA then operatorFrequency (register - 0xA8 + 1) .low
    else if 0xAC ≤ register ∧ register ≤ 0xAE then operatorFrequency (register - 0xAC + 1) .high
    else if 0xB0 ≤ register ∧ register ≤ 0xB2 then algorithmFeedback (register - 0xB0)
    else if 0xB4 ≤ register ∧ register ≤ 0xB6 then stereoSensitivity (register - 0xB4)
    else unmapped

def table : Vector Decoded 256 := Vector.ofFn fun i => ofRegister (UInt8.ofNat i)

end Decoded

def Target.decoded : Target → Decoded
  | unmapped => .unmapped
  | proprietary => .proprietary
  | global register => .global register
  | operator slot j field => .operator (UInt8.ofNat slot) (UInt8.ofNat j) field
  | frequency slot part => .frequency (UInt8.ofNat slot) part
  | operatorFrequency j part => .operatorFrequency (UInt8.ofNat j) part
  | algorithmFeedback slot => .algorithmFeedback (UInt8.ofNat slot)
  | stereoSensitivity slot => .stereoSensitivity (UInt8.ofNat slot)

theorem toNat_ofNat_fin {n : Nat} (h : n ≤ 256) (i : Fin n) : (UInt8.ofNat i).toNat = i :=
  UInt8.toNat_ofNat_of_lt' (Nat.lt_of_lt_of_le i.isLt h)

theorem Decoded.ofRegister_eq (register : UInt8) :
    ofRegister register = (Target.ofRegister register).decoded := by
  revert register
  decide +kernel

theorem Decoded.entry_table (register : UInt8) :
    entry table register.toNat = .ok (Target.ofRegister register).decoded := by
  rw [entry_of_lt table register.toNat_lt, table, Vector.getElem_ofFn, UInt8.ofNat_toNat,
    ofRegister_eq]

/-- The channel that the lowest three bits of a value choose for its keys. -/
def keyChannelNumber? (value : UInt8) : Option Nat :=
  match (value &&& 7).toNat with
  | 0 => some 0
  | 1 => some 1
  | 2 => some 2
  | 4 => some 3
  | 5 => some 4
  | 6 => some 5
  | _ => none

theorem keyChannelNumber?_eq (value : UInt8) :
    keyChannelNumber? value = (keyChannel? value).map Fin.val := by
  revert value
  decide +kernel

/-! ## Writes -/

namespace Chip

variable (chip : Chip)

def changeChannel (i : Nat) (change : Channel → Except IndexError Channel) :
    Except IndexError Chip :=
  (changeEntry chip.channels i change).map fun channels => { chip with channels }

def changeOperator (i j : Nat) (change : Operator → Operator) : Except IndexError Chip :=
  chip.changeChannel i fun channel =>
    (changeEntry channel.operators j fun operator => .ok (change operator)).map fun operators =>
      { channel with operators }

/-- Keeps the value for reading it back. -/
def recordChecked (port : Nat) (register value : UInt8) : Except IndexError Chip :=
  (changeEntry chip.banks port fun bank =>
    (changeEntry bank.values register.toNat fun _ => .ok (some value)).map fun values =>
      { bank with values }).map fun banks => { chip with banks }

def setGlobalChecked (value : UInt8) : Global → Except IndexError Chip
  | .keyOnOff =>
    match keyChannelNumber? value with
    | some i => chip.changeChannel i fun channel => .ok (channel.setKeys value)
    | none => .ok chip
  | register => .ok (chip.setGlobal value register)

def applyChecked (port : Nat) (value : UInt8) : Decoded → Except IndexError Chip
  | .unmapped => .ok chip
  | .proprietary => .ok chip
  | .global register => if port = 0 then chip.setGlobalChecked value register else .ok chip
  | .operator slot j field =>
    chip.changeOperator (3 * port + slot.toNat) j.toNat (Operator.set field value)
  | .frequency slot part =>
    if slot = 2 && chip.specialMode then
      chip.changeOperator (3 * port + slot.toNat) 0 (Operator.setFrequency part value)
    else
      chip.changeChannel (3 * port + slot.toNat) fun channel =>
        .ok (channel.setFrequency part value)
  | .operatorFrequency j part =>
    chip.changeOperator (3 * port + 2) j.toNat (Operator.setFrequency part value)
  | .algorithmFeedback slot =>
    chip.changeChannel (3 * port + slot.toNat) fun channel =>
      .ok (channel.setAlgorithmFeedback value)
  | .stereoSensitivity slot =>
    chip.changeChannel (3 * port + slot.toNat) fun channel =>
      .ok (channel.setStereoSensitivity value)

/-- A write through a port byte, of which the lowest bit counts. -/
def writeChecked (port register value : UInt8) : Except IndexError Chip := do
  let port := (port &&& 1).toNat
  let recorded ← chip.recordChecked port register value
  let decoded ← entry Decoded.table register.toNat
  recorded.applyChecked port value decoded

theorem changeChannel_eq (i : Fin 6) (change : Channel → Channel) :
    (chip.changeChannel i fun channel => .ok (change channel)) =
      .ok (chip.modifyChannel i change) := by
  rw [changeChannel, changeEntry_eq]
  rfl

theorem changeOperator_eq (i : Fin 6) (j : Fin 4) (change : Operator → Operator) :
    chip.changeOperator i j change = .ok (chip.modifyOperator i j change) := by
  simp only [changeOperator, changeEntry_eq]
  exact chip.changeChannel_eq i fun channel => channel.modifyOperator j change

/-- A channel and an operator past the last ones. -/
example :
    Chip.changeOperator {} 6 0 id = .error (.entry 6 6) ∧
      Chip.changeOperator {} 5 4 id = .error (.entry 4 4) :=
  ⟨rfl, rfl⟩

theorem recordChecked_eq (port : Port) (register value : UInt8) :
    chip.recordChecked port register value = .ok (chip.record port register value) := by
  have hbank : ∀ bank : RegisterBank,
      ((changeEntry bank.values register.toNat fun _ => .ok (some value)).map fun values =>
        { bank with values }) = .ok (bank.write register value) := by
    intro bank
    have hvalues := changeEntry_eq bank.values ⟨register.toNat, register.toNat_lt⟩
      fun _ => some value
    rw [hvalues]
    rfl
  simp only [recordChecked, hbank, changeEntry_eq]
  rfl

theorem setGlobalChecked_eq (value : UInt8) (register : Global) :
    chip.setGlobalChecked value register = .ok (chip.setGlobal value register) := by
  cases register with
  | keyOnOff =>
    rw [setGlobalChecked, keyChannelNumber?_eq, setGlobal]
    cases keyChannel? value with
    | none => rfl
    | some i => exact chip.changeChannel_eq i (Channel.setKeys value)
  | _ => rfl

theorem applyChecked_eq (port : Port) (value : UInt8) (target : Target) :
    chip.applyChecked port value target.decoded = .ok (chip.apply port value target) := by
  have hslot : ∀ slot : Fin 3, 3 * (port : Nat) + (UInt8.ofNat slot).toNat = port.channel slot := by
    intro slot
    rw [toNat_ofNat_fin (by decide) slot]
    rfl
  have hoperator : ∀ j : Fin 4, (UInt8.ofNat j).toNat = j := toNat_ofNat_fin (by decide)
  cases target with
  | unmapped | proprietary => rfl
  | global register =>
    simp only [Target.decoded, applyChecked, apply, Fin.val_eq_zero_iff]
    split
    · exact chip.setGlobalChecked_eq value register
    · rfl
  | operator slot j field =>
    rw [Target.decoded, applyChecked, hslot, hoperator]
    exact chip.changeOperator_eq _ j _
  | frequency slot part =>
    -- the last place of a port, once as a byte and once as a place
    have hlast : decide (UInt8.ofNat slot = 2) = decide (slot = 2) := by
      revert slot
      decide
    by_cases hredirect : chip.redirectsFrequency slot = true
    · rw [Target.decoded, applyChecked, apply, hslot, if_pos hredirect, if_pos]
      · exact chip.changeOperator_eq _ 0 _
      · rwa [hlast]
    · rw [Target.decoded, applyChecked, apply, hslot, if_neg hredirect, if_neg]
      · exact chip.changeChannel_eq _ _
      · rwa [hlast]
  | operatorFrequency j part =>
    rw [Target.decoded, applyChecked, hoperator]
    exact chip.changeOperator_eq (port.channel 2) j _
  | algorithmFeedback slot | stereoSensitivity slot =>
    rw [Target.decoded, applyChecked, hslot]
    exact chip.changeChannel_eq _ _

theorem writeChecked_eq (port register value : UInt8) :
    chip.writeChecked port register value = .ok (chip.write (Port.ofByte port) register value) := by
  have hport : (port &&& 1).toNat = Port.ofByte port := by
    revert port
    decide +kernel
  rw [writeChecked, hport, recordChecked_eq, Decoded.entry_table]
  exact applyChecked_eq _ _ _ _

end Chip

/-! ## Histories -/

def Action.performChecked (chip : Chip) : Action → Except IndexError Chip
  | write port register value => chip.writeChecked port register value
  | reset => .ok {}

/-- The chip after a history all accesses of which are checked. -/
def runChecked (history : List Action) : Except IndexError Chip :=
  history.foldlM Action.performChecked {}

theorem Action.performChecked_eq (chip : Chip) (action : Action) :
    action.performChecked chip = .ok (action.perform chip) := by
  cases action with
  | write port register value => exact chip.writeChecked_eq port register value
  | reset => rfl

theorem runChecked_eq (history : List Action) : runChecked history = .ok (run history) := by
  have hactions : Action.performChecked = fun chip action => pure (action.perform chip) := by
    funext chip action
    exact action.performChecked_eq chip
  rw [runChecked, hactions]
  exact List.foldlM_pure

end Ym2612
end SoundLog
