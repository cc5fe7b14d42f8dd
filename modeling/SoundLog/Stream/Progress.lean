import SoundLog.Stream.Cursor

/-!
# Progress of cursors

A cursor only moves forward, and no faster than its source is used up: reading never lowers the
offset, and what the offset gains the source has lost. A source may lose more, for a skip that meets
a fault counts nothing. Every reader moves its cursor in this way, whether it fails or not.
-/

namespace SoundLog
namespace Cursor

/-- `after` can be reached from `before` by reading. -/
structure Advances (before after : Cursor) : Prop where
  offset_le : before.offset ≤ after.offset
  offset_add_size_le :
    after.offset + after.source.size ≤ before.offset + before.source.size

namespace Advances

theorem refl (cursor : Cursor) : Advances cursor cursor := ⟨Nat.le_refl _, Nat.le_refl _⟩

theorem trans {a b c : Cursor} (hab : Advances a b) (hbc : Advances b c) : Advances a c :=
  ⟨Nat.le_trans hab.offset_le hbc.offset_le,
    Nat.le_trans hbc.offset_add_size_le hab.offset_add_size_le⟩

theorem size_le {before after : Cursor} (h : Advances before after) :
    after.source.size ≤ before.source.size := by
  have hoffset := h.offset_le
  have hsum := h.offset_add_size_le
  omega

theorem size_lt {before after : Cursor} (h : Advances before after)
    (hne : after.offset ≠ before.offset) : after.source.size < before.source.size := by
  have hoffset := h.offset_le
  have hsum := h.offset_add_size_le
  omega

end Advances

/-- The cursor after a step, failed or not. -/
def ofResult {ε α : Type} : EStateM.Result ε Cursor α → Cursor
  | .ok _ cursor => cursor
  | .error _ cursor => cursor

@[simp] theorem ofResult_ok {ε α : Type} (a : α) (cursor : Cursor) :
    ofResult (.ok a cursor : EStateM.Result ε Cursor α) = cursor := rfl

@[simp] theorem ofResult_error {ε α : Type} (e : ε) (cursor : Cursor) :
    ofResult (.error e cursor : EStateM.Result ε Cursor α) = cursor := rfl

end Cursor

/-- A step that moves every cursor by reading. -/
def Moves {ε α : Type} (step : EStateM ε Cursor α) : Prop :=
  ∀ cursor, Cursor.Advances cursor (Cursor.ofResult (step cursor))

namespace Moves

variable {ε ε' α β : Type}

theorem of_pure (a : α) : Moves (pure a : EStateM ε Cursor α) := fun cursor =>
  Cursor.Advances.refl cursor

theorem of_throw (e : ε) : Moves (throw e : EStateM ε Cursor α) := fun cursor =>
  Cursor.Advances.refl cursor

theorem bind {first : EStateM ε Cursor α} {next : α → EStateM ε Cursor β}
    (hfirst : Moves first) (hnext : ∀ a, Moves (next a)) : Moves (first >>= next) := by
  intro cursor
  have h := hfirst cursor
  change Cursor.Advances cursor (Cursor.ofResult (EStateM.bind first next cursor))
  cases hresult : first cursor with
  | ok a middle =>
    rw [hresult] at h
    simp only [EStateM.bind, hresult]
    exact h.trans (hnext a middle)
  | error e after =>
    rw [hresult] at h
    simp only [EStateM.bind, hresult]
    exact h

theorem map {step : EStateM ε Cursor α} (f : α → β) (hstep : Moves step) : Moves (f <$> step) := by
  intro cursor
  have h := hstep cursor
  change Cursor.Advances cursor (Cursor.ofResult (EStateM.map f step cursor))
  cases hresult : step cursor with
  | ok a after =>
    rw [hresult] at h
    simp only [EStateM.map, hresult]
    exact h
  | error e after =>
    rw [hresult] at h
    simp only [EStateM.map, hresult]
    exact h

theorem adaptExcept {step : EStateM ε Cursor α} (f : ε → ε') (hstep : Moves step) :
    Moves (step.adaptExcept f) := by
  intro cursor
  have h := hstep cursor
  cases hresult : step cursor with
  | ok a after =>
    rw [hresult] at h
    simp only [EStateM.adaptExcept, hresult]
    exact h
  | error e after =>
    rw [hresult] at h
    simp only [EStateM.adaptExcept, hresult]
    exact h

end Moves

namespace Reader

theorem byte_moves : Moves byte := by
  intro cursor
  cases hpull : cursor.source.pull with
  | byte b rest =>
    have hsize := Source.size_of_pull_byte hpull
    simp only [byte, hpull, Cursor.ofResult_ok]
    exact ⟨Nat.le_succ _, by simp only; omega⟩
  | ended rest =>
    have hsize := Source.size_of_pull_ended hpull
    simp only [byte, hpull, Cursor.ofResult_error]
    exact ⟨Nat.le_refl _, by simp only; omega⟩
  | fault f rest =>
    have hsize := Source.size_of_pull_fault hpull
    simp only [byte, hpull, Cursor.ofResult_error]
    exact ⟨Nat.le_refl _, by simp only; omega⟩

theorem collect_moves (wanted n : Nat) : Moves (collect wanted n) := by
  induction n with
  | zero => exact fun cursor => Cursor.Advances.refl cursor
  | succ n ih =>
    intro cursor
    cases hpull : cursor.source.pull with
    | byte b rest =>
      have hsize := Source.size_of_pull_byte hpull
      have hbyte : Cursor.Advances cursor ⟨rest, cursor.offset + 1⟩ :=
        ⟨Nat.le_succ _, by simp only; omega⟩
      have hrest := ih ⟨rest, cursor.offset + 1⟩
      simp only [collect, hpull]
      cases hresult : collect wanted n ⟨rest, cursor.offset + 1⟩ with
      | ok bs after =>
        rw [hresult] at hrest
        exact hbyte.trans hrest
      | error failure after =>
        rw [hresult] at hrest
        exact hbyte.trans hrest
    | ended rest =>
      have hsize := Source.size_of_pull_ended hpull
      simp only [collect, hpull, Cursor.ofResult_error]
      exact ⟨Nat.le_refl _, by simp only; omega⟩
    | fault f rest =>
      have hsize := Source.size_of_pull_fault hpull
      simp only [collect, hpull, Cursor.ofResult_error]
      exact ⟨Nat.le_refl _, by simp only; omega⟩

theorem pair_moves : Moves pair := (collect_moves 2 2).map _

theorem number_moves (width : Nat) : Moves (number width) :=
  (collect_moves width width).map LittleEndian.toNat

theorem skip_moves (n : Nat) : Moves (skip n) := by
  intro cursor
  cases hdiscard : cursor.source.discard n with
  | done rest =>
    have hsize := Source.size_of_discard_done hdiscard
    simp only [skip, hdiscard, Cursor.ofResult_ok]
    exact ⟨Nat.le_add_right _ _, by simp only; omega⟩
  | ended missing rest =>
    have hsize := Source.size_of_discard_ended hdiscard
    simp only [skip, hdiscard, Cursor.ofResult_error]
    exact ⟨Nat.le_add_right _ _, by simp only; omega⟩
  | fault f rest =>
    have hsize := Source.size_of_discard_fault hdiscard
    simp only [skip, hdiscard, Cursor.ofResult_error]
    exact ⟨Nat.le_refl _, by simp only; omega⟩

end Reader
end SoundLog
