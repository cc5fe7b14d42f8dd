import SoundLog.Proofs.Stream.Arrivals

/-!
# What the offset counts

A step counts what it takes if the offset of its cursor gains just the bytes that have come from the
source. All readers do so but one: a skip that meets a fault counts nothing, so it is wrong about
the bytes that it has dropped by then.
-/

namespace SoundLog

/-! ## Faults on the way -/

namespace Source

/-- The number of bytes that have come from a source when `rest` is left of it. -/
def handedOut (source rest : Source) : Nat := source.size - rest.size

/-- A fault follows at least one byte and fewer than `n`. -/
def BreaksWithin (n : Nat) (source : Source) : Prop :=
  ∃ (taken : List UInt8) (f : Fault) (later : List Arrival),
    source.arrivals = taken.map .byte ++ .fault f :: later ∧ 0 < taken.length ∧ taken.length < n

end Source

/-! ## Steps that count -/

namespace Cursor

/-- The offset has gained what the source has lost. -/
def Counts (before after : Cursor) : Prop :=
  after.offset + after.source.size = before.offset + before.source.size

namespace Counts

theorem trans {a b c : Cursor} (hab : Counts a b) (hbc : Counts b c) : Counts a c :=
  Eq.trans hbc hab

/-- Of two readings on end each counts, if both together do. -/
theorem iff_and {a b c : Cursor} (hab : Advances a b) (hbc : Advances b c) :
    Counts a c ↔ Counts a b ∧ Counts b c := by
  have hfirst := hab.offset_add_size_le
  have hsecond := hbc.offset_add_size_le
  unfold Counts
  omega

theorem iff_of_left {a b c : Cursor} (hab : Counts a b) : Counts a c ↔ Counts b c := by
  unfold Counts at *
  rw [hab]

/-- A cursor that started a source and has always counted stands at what has come from it. -/
theorem iff_handedOut {source : Source} {cursor : Cursor} (h : Advances { source } cursor) :
    Counts { source } cursor ↔ cursor.offset = source.handedOut cursor.source := by
  have hsum := h.offset_add_size_le
  have hsize := h.size_le
  unfold Counts Source.handedOut
  simp only at *
  omega

end Counts
end Cursor

/-- A step after which the offset counts what the step has taken, whether it fails or not. -/
def Counting {ε α : Type} (step : EStateM ε Cursor α) : Prop :=
  ∀ cursor, Cursor.Counts cursor (Cursor.ofResult (step cursor))

namespace Counting

variable {ε ε' α β : Type}

theorem of_pure (a : α) : Counting (pure a : EStateM ε Cursor α) := fun _ => rfl

theorem of_throw (e : ε) : Counting (throw e : EStateM ε Cursor α) := fun _ => rfl

theorem bind {first : EStateM ε Cursor α} {next : α → EStateM ε Cursor β}
    (hfirst : Counting first) (hnext : ∀ a, Counting (next a)) : Counting (first >>= next) := by
  intro cursor
  have h := hfirst cursor
  change Cursor.Counts cursor (Cursor.ofResult (EStateM.bind first next cursor))
  cases hresult : first cursor with
  | ok a middle =>
    rw [hresult] at h
    simp only [EStateM.bind, hresult]
    exact h.trans (hnext a middle)
  | error e after =>
    rw [hresult] at h
    simp only [EStateM.bind, hresult]
    exact h

theorem map {step : EStateM ε Cursor α} (f : α → β) (hstep : Counting step) :
    Counting (f <$> step) := by
  intro cursor
  have h := hstep cursor
  change Cursor.Counts cursor (Cursor.ofResult (EStateM.map f step cursor))
  cases hresult : step cursor <;> simp only [EStateM.map, hresult] <;> rwa [hresult] at h

theorem adaptExcept {step : EStateM ε Cursor α} (f : ε → ε') (hstep : Counting step) :
    Counting (step.adaptExcept f) := by
  intro cursor
  have h := hstep cursor
  cases hresult : step cursor <;> simp only [EStateM.adaptExcept, hresult] <;> rwa [hresult] at h

end Counting

namespace Reader

theorem byte_counting : Counting byte := by
  intro cursor
  unfold byte Cursor.Counts
  cases hpull : cursor.source.pull with
  | byte b rest =>
    have hsize := Source.size_of_pull_byte hpull
    simp only [Cursor.ofResult_ok]
    omega
  | ended rest => simp only [Cursor.ofResult_error, Source.size_of_pull_ended hpull]
  | fault f rest => simp only [Cursor.ofResult_error, Source.size_of_pull_fault hpull]

theorem collect_counting (wanted n : Nat) : Counting (collect wanted n) := by
  induction n with
  | zero => exact Counting.of_pure []
  | succ n ih =>
    intro cursor
    unfold collect
    cases hpull : cursor.source.pull with
    | byte b rest =>
      have hsize := Source.size_of_pull_byte hpull
      have hbyte : Cursor.Counts cursor ⟨rest, cursor.offset + 1⟩ := by
        unfold Cursor.Counts
        simp only
        omega
      have hrest := hbyte.trans (ih ⟨rest, cursor.offset + 1⟩)
      cases hresult : collect wanted n ⟨rest, cursor.offset + 1⟩ <;> simp only [hresult] <;>
        rwa [hresult] at hrest
    | ended rest =>
      simp only [Cursor.Counts, Cursor.ofResult_error, Source.size_of_pull_ended hpull]
    | fault f rest =>
      simp only [Cursor.Counts, Cursor.ofResult_error, Source.size_of_pull_fault hpull]

theorem pair_counting : Counting pair := (collect_counting 2 2).map _

theorem number_counting (width : Nat) : Counting (number width) :=
  (collect_counting width width).map LittleEndian.toNat

theorem counts_of_skip {n : Nat} {cursor after : Cursor} (h : skip n cursor = .ok () after) :
    Cursor.Counts cursor after := by
  unfold skip at h
  cases hdiscard : cursor.source.discard n with
  | done rest =>
    rw [hdiscard] at h
    cases h
    have hsize := Source.size_of_discard_done hdiscard
    unfold Cursor.Counts
    simp only
    omega
  | ended missing rest =>
    rw [hdiscard] at h
    cases h
  | fault f rest =>
    rw [hdiscard] at h
    cases h

/-- A skip counts, unless a fault stops it on the way. -/
theorem skip_counts_iff (n : Nat) (cursor : Cursor) :
    Cursor.Counts cursor (Cursor.ofResult (skip n cursor)) ↔ ¬ cursor.source.BreaksWithin n := by
  unfold skip Cursor.Counts
  cases hdiscard : cursor.source.discard n with
  | done rest =>
    have hsize := Source.size_of_discard_done hdiscard
    simp only [Cursor.ofResult_ok]
    refine iff_of_true (by omega) ?_
    rintro ⟨taken, f, later, harrivals, -, hlength⟩
    obtain ⟨rest', hfault, -⟩ := Source.exists_discard_fault harrivals hlength
    cases hdiscard.symm.trans hfault
  | ended missing rest =>
    have hsize := Source.size_of_discard_ended hdiscard
    simp only [Cursor.ofResult_error]
    refine iff_of_true (by omega) ?_
    rintro ⟨taken, f, later, harrivals, -, hlength⟩
    obtain ⟨rest', hfault, -⟩ := Source.exists_discard_fault harrivals hlength
    cases hdiscard.symm.trans hfault
  | fault f rest =>
    simp only [Cursor.ofResult_error]
    constructor
    · rintro hcounts ⟨taken, f', later, harrivals, hpos, hlength⟩
      obtain ⟨rest', hfault, -, hsize⟩ := Source.exists_discard_fault harrivals hlength
      obtain ⟨-, rfl⟩ := Discard.fault.inj (hdiscard.symm.trans hfault)
      omega
    · intro hbreaks
      obtain ⟨taken, harrivals, hlength, hsize⟩ := Source.arrivals_of_discard_fault hdiscard
      by_cases hpos : 0 < taken.length
      · exact absurd ⟨taken, f, _, harrivals, hpos, hlength⟩ hbreaks
      · omega

end Reader
end SoundLog
