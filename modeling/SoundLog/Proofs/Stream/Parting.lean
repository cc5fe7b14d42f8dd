import SoundLog.Proofs.Stream.Arrivals

/-!
# Sources that part

Two sources may bring the same bytes for a while and then part: the left one stops there, at its end
or in a pause, and the right one may go on. An incremental step does not see what is to come. Either
it gives the same on both sources, or it runs out on the left just where they part.
-/

namespace SoundLog

/-- A place at which two sources part, and what is met from there on in each of them. -/
structure Parting where
  place : Nat
  left : List Arrival
  right : List Arrival

/-- The first thing to be met is a pause, if there is anything at all. -/
def Stops (later : List Arrival) : Prop := later.head?.getD .pause = .pause

theorem stops_nil : Stops [] := rfl

theorem stops_pause (later : List Arrival) : Stops (.pause :: later) := rfl

namespace Source

variable {source : Source} {shared : List UInt8} {later : List Arrival} {n : Nat}

theorem exists_pull_ended (h : Stops source.arrivals) :
    ∃ rest, source.pull = .ended rest := by
  have harrivals := arrivals_pull source
  cases hpull : source.pull with
  | ended rest => exact ⟨rest, rfl⟩
  | byte b rest =>
    rw [arrivals_of_pull_byte hpull] at h
    cases h
  | fault f rest =>
    rw [arrivals_of_pull_fault hpull] at h
    cases h

theorem discard_of_le (h : source.arrivals = shared.map .byte ++ later) (hn : n ≤ shared.length) :
    ∃ rest, source.discard n = .done rest ∧
      rest.arrivals = (shared.drop n).map .byte ++ later := by
  induction n generalizing source shared with
  | zero => exact ⟨source, by unfold discard; rfl, h⟩
  | succ n ih =>
    cases shared with
    | nil => cases hn
    | cons b shared =>
      obtain ⟨middle, hpull, hmiddle⟩ := exists_pull_byte h
      obtain ⟨rest, hdiscard, hrest⟩ := ih hmiddle (Nat.le_of_succ_le_succ hn)
      exact ⟨rest, by simp only [discard, hpull, hdiscard], hrest⟩

theorem discard_of_lt (h : source.arrivals = shared.map .byte ++ later)
    (hstops : Stops later) (hn : shared.length < n) :
    ∃ rest, source.discard n = .ended (n - shared.length) rest := by
  induction shared generalizing source n with
  | nil =>
    obtain ⟨n, rfl⟩ := Nat.exists_eq_add_one.mpr hn
    have hsource : source.arrivals = later := h
    obtain ⟨rest, hpull⟩ := exists_pull_ended (hsource ▸ hstops)
    exact ⟨rest, by simp only [discard, hpull, List.length_nil, Nat.sub_zero]⟩
  | cons b shared ih =>
    obtain ⟨n, rfl⟩ := Nat.exists_eq_add_one.mpr (Nat.zero_lt_of_lt hn)
    obtain ⟨middle, hpull, hmiddle⟩ := exists_pull_byte h
    obtain ⟨rest, hdiscard⟩ := ih hmiddle (Nat.lt_of_succ_lt_succ hn)
    exact ⟨rest, by simp only [discard, hpull, hdiscard, List.length_cons, Nat.add_sub_add_right]⟩

end Source

/-! ## Incremental steps -/

variable {parting : Parting}

/-- The cursors stand at the same place, with the same bytes ahead as far as the sources part. -/
structure Cursor.Before (parting : Parting) (left right : Cursor) : Prop where
  offset_eq : left.offset = right.offset
  exists_shared : ∃ shared : List UInt8, left.offset + shared.length = parting.place ∧
    left.source.arrivals = shared.map .byte ++ parting.left ∧
    right.source.arrivals = shared.map .byte ++ parting.right

def Parting.swap (parting : Parting) : Parting := ⟨parting.place, parting.right, parting.left⟩

namespace Cursor.Before

theorem symm {left right : Cursor} (h : Before parting left right) :
    Before parting.swap right left := by
  obtain ⟨shared, hplace, hleft, hright⟩ := h.exists_shared
  exact ⟨h.offset_eq.symm, shared, h.offset_eq ▸ hplace, hright, hleft⟩

/-- Sources that have not been read part behind the bytes that both of them bring. -/
theorem of_arrivals {left right : Source} {shared : List UInt8} {later later' : List Arrival}
    (hleft : left.arrivals = shared.map .byte ++ later)
    (hright : right.arrivals = shared.map .byte ++ later') :
    Before ⟨shared.length, later, later'⟩ { source := left } { source := right } :=
  ⟨rfl, shared, Nat.zero_add _, hleft, hright⟩

end Cursor.Before

/-- The results are the same, or the left one has run out where the sources part. -/
inductive ResultsPart {ε α : Type} (short : ε → Prop) (parting : Parting) :
    EStateM.Result ε Cursor α → EStateM.Result ε Cursor α → Prop
  | ok (a : α) {left right : Cursor} (h : Cursor.Before parting left right) :
    ResultsPart short parting (.ok a left) (.ok a right)
  | error (e : ε) {left right : Cursor} (h : Cursor.Before parting left right) :
    ResultsPart short parting (.error e left) (.error e right)
  | short {e : ε} {after : Cursor} (he : short e) (hplace : after.offset = parting.place)
    (right : EStateM.Result ε Cursor α) : ResultsPart short parting (.error e after) right

/-- The step gives the same on sources that part, or runs out on the one that stops. -/
def Incremental {ε α : Type} (short : ε → Prop) (step : EStateM ε Cursor α) : Prop :=
  ∀ parting : Parting, Stops parting.left → ∀ left right : Cursor,
    Cursor.Before parting left right → ResultsPart short parting (step left) (step right)

namespace Incremental

variable {ε ε' α β : Type} {short : ε → Prop} {short' : ε' → Prop}

section

variable {step : EStateM ε Cursor α} {left right after : Cursor}

theorem exists_ok (hstep : Incremental short step) (hstops : Stops parting.left)
    (h : Cursor.Before parting left right) {a : α} (hleft : step left = .ok a after) :
    ∃ after', step right = .ok a after' ∧ Cursor.Before parting after after' := by
  have hresult := hstep parting hstops left right h
  rw [hleft] at hresult
  cases hright : step right <;> rw [hright] at hresult <;> cases hresult
  next hafter => exact ⟨_, rfl, hafter⟩

theorem error_cases (hstep : Incremental short step) (hstops : Stops parting.left)
    (h : Cursor.Before parting left right) {e : ε} (hleft : step left = .error e after) :
    (∃ after', step right = .error e after' ∧ Cursor.Before parting after after') ∨
      short e ∧ after.offset = parting.place := by
  have hresult := hstep parting hstops left right h
  rw [hleft] at hresult
  generalize step right = result at hresult
  cases hresult with
  | error _ hafter => exact Or.inl ⟨_, rfl, hafter⟩
  | short he hplace => exact Or.inr ⟨he, hplace⟩

end

theorem of_pure (a : α) : Incremental short (pure a : EStateM ε Cursor α) :=
  fun _ _ _ _ h => .ok a h

theorem of_throw (e : ε) : Incremental short (throw e : EStateM ε Cursor α) :=
  fun _ _ _ _ h => .error e h

theorem bind {first : EStateM ε Cursor α} {next : α → EStateM ε Cursor β}
    (hfirst : Incremental short first) (hnext : ∀ a, Incremental short (next a)) :
    Incremental short (first >>= next) := by
  intro parting hstops left right h
  change ResultsPart short parting (EStateM.bind first next left) (EStateM.bind first next right)
  cases hleft : first left with
  | ok a middle =>
    obtain ⟨middle', hright, hmiddle⟩ := hfirst.exists_ok hstops h hleft
    simp only [EStateM.bind, hleft, hright]
    exact hnext a parting hstops middle middle' hmiddle
  | error e after =>
    obtain ⟨after', hright, hafter⟩ | ⟨he, hplace⟩ := hfirst.error_cases hstops h hleft
    · simp only [EStateM.bind, hleft, hright]
      exact .error e hafter
    · simp only [EStateM.bind, hleft]
      exact .short he hplace _

theorem map {step : EStateM ε Cursor α} (f : α → β) (hstep : Incremental short step) :
    Incremental short (f <$> step) := by
  rw [map_eq_pure_bind]
  exact hstep.bind fun a => of_pure (f a)

theorem adaptExcept {step : EStateM ε Cursor α} (f : ε → ε') (hstep : Incremental short step)
    (hshort : ∀ e, short e → short' (f e)) : Incremental short' (step.adaptExcept f) := by
  intro parting hstops left right h
  cases hleft : step left with
  | ok a after =>
    obtain ⟨after', hright, hafter⟩ := hstep.exists_ok hstops h hleft
    simp only [EStateM.adaptExcept, hleft, hright]
    exact .ok a hafter
  | error e after =>
    obtain ⟨after', hright, hafter⟩ | ⟨he, hplace⟩ := hstep.error_cases hstops h hleft
    · simp only [EStateM.adaptExcept, hleft, hright]
      exact .error (f e) hafter
    · simp only [EStateM.adaptExcept, hleft]
      exact .short (hshort e he) hplace _

end Incremental

/-- Asking for a byte brings the same one, or the left source has stopped. -/
theorem Cursor.Before.pull_cases {left right : Cursor} (h : Before parting left right)
    (hstops : Stops parting.left) :
    (∃ b rest rest', left.source.pull = .byte b rest ∧ right.source.pull = .byte b rest' ∧
        Before parting ⟨rest, left.offset + 1⟩ ⟨rest', right.offset + 1⟩) ∨
      ∃ rest, left.source.pull = .ended rest ∧ left.offset = parting.place := by
  obtain ⟨shared, hplace, hleft, hright⟩ := h.exists_shared
  cases shared with
  | nil =>
    have hsource : left.source.arrivals = parting.left := hleft
    obtain ⟨rest, hpull⟩ := Source.exists_pull_ended (hsource ▸ hstops)
    exact Or.inr ⟨rest, hpull, hplace⟩
  | cons b shared =>
    obtain ⟨rest, hpull, hrest⟩ := Source.exists_pull_byte hleft
    obtain ⟨rest', hpull', hrest'⟩ := Source.exists_pull_byte hright
    refine Or.inl ⟨b, rest, rest', hpull, hpull', by rw [h.offset_eq], shared, ?_, hrest, hrest'⟩
    rw [List.length_cons] at hplace
    simp only
    omega

namespace Reader

theorem runsOut_shortRead (got wanted : Nat) : RunsOut (.shortRead got wanted) := rfl

theorem runsOut_shortSkip (got wanted : Nat) : RunsOut (.shortSkip got wanted) := rfl

theorem byte_incremental : Incremental RunsOut byte := by
  intro parting hstops left right h
  obtain ⟨b, rest, rest', hpull, hpull', hrest⟩ | ⟨rest, hpull, hplace⟩ := h.pull_cases hstops
  · simp only [byte, hpull, hpull']
    exact .ok b hrest
  · simp only [byte, hpull]
    refine .short (runsOut_shortRead 0 1) ?_ _
    exact hplace

theorem collect_incremental (wanted n : Nat) : Incremental RunsOut (collect wanted n) := by
  induction n with
  | zero => exact Incremental.of_pure []
  | succ n ih =>
    intro parting hstops left right h
    obtain ⟨b, rest, rest', hpull, hpull', hrest⟩ | ⟨rest, hpull, hplace⟩ := h.pull_cases hstops
    · simp only [collect, hpull, hpull']
      cases hbs : collect wanted n ⟨rest, left.offset + 1⟩ with
      | ok bs after =>
        obtain ⟨after', hbs', hafter⟩ := ih.exists_ok hstops hrest hbs
        simp only [hbs']
        exact .ok _ hafter
      | error failure after =>
        obtain ⟨after', hbs', hafter⟩ | ⟨he, hplace⟩ := ih.error_cases hstops hrest hbs
        · simp only [hbs']
          exact .error _ hafter
        · exact .short he hplace _
    · simp only [collect, hpull]
      refine .short (runsOut_shortRead _ wanted) ?_ _
      exact hplace

theorem pair_incremental : Incremental RunsOut pair := (collect_incremental 2 2).map _

theorem number_incremental (width : Nat) : Incremental RunsOut (number width) :=
  (collect_incremental width width).map LittleEndian.toNat

theorem skip_incremental (n : Nat) : Incremental RunsOut (skip n) := by
  intro parting hstops left right h
  obtain ⟨shared, hplace, hleft, hright⟩ := h.exists_shared
  by_cases hn : n ≤ shared.length
  · obtain ⟨rest, hdiscard, hrest⟩ := Source.discard_of_le hleft hn
    obtain ⟨rest', hdiscard', hrest'⟩ := Source.discard_of_le hright hn
    simp only [skip, hdiscard, hdiscard']
    refine .ok () ⟨by rw [h.offset_eq], shared.drop n, ?_, hrest, hrest'⟩
    rw [List.length_drop]
    simp only
    omega
  · obtain ⟨rest, hdiscard⟩ := Source.discard_of_lt hleft hstops (Nat.lt_of_not_le hn)
    simp only [skip, hdiscard]
    refine .short (runsOut_shortSkip _ n) ?_ _
    simp only
    omega

end Reader
end SoundLog
