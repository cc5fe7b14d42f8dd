import SoundLog.Proofs.Stream.Parting

/-!
# Footprints

A step takes some arrivals from the front of a source and sees none of those behind them. So it does
the same on every source that begins with what it takes: bytes, and a fault behind them if it fails
for one. Only a step that runs out of input looks further, for it may have met the end.
-/

namespace SoundLog

/-- The other cursor stands at the same place and has `later` to meet. -/
structure Cursor.Beside (later : List Arrival) (cursor other : Cursor) : Prop where
  offset_eq : other.offset = cursor.offset
  arrivals_eq : other.source.arrivals = later

/-- The results have the same value, or the same failure, and `later` is to be met after the other
one. -/
inductive ResultsMatch {ε α : Type} (later : List Arrival) :
    EStateM.Result ε Cursor α → EStateM.Result ε Cursor α → Prop
  | ok (a : α) {after other : Cursor} (h : Cursor.Beside later after other) :
    ResultsMatch later (.ok a after) (.ok a other)
  | error (e : ε) {after other : Cursor} (h : Cursor.Beside later after other) :
    ResultsMatch later (.error e after) (.error e other)

/-- From the cursor the step takes just `used`, and it does the same on every source that begins
with `used`. -/
structure Uses {ε α : Type} (step : EStateM ε Cursor α) (cursor : Cursor) (used : List Arrival) :
    Prop where
  arrivals_eq : cursor.source.arrivals = used ++ (Cursor.ofResult (step cursor)).source.arrivals
  again : ∀ (other : Cursor) (later : List Arrival), Cursor.Beside (used ++ later) cursor other →
    ResultsMatch later (step cursor) (step other)

namespace Uses

variable {ε ε' α β : Type} {step : EStateM ε Cursor α} {next : α → EStateM ε Cursor β}
  {cursor after other : Cursor} {used more later : List Arrival} {a : α} {e : ε}

theorem arrivals_of_ok (h : Uses step cursor used) (hstep : step cursor = .ok a after) :
    cursor.source.arrivals = used ++ after.source.arrivals := by
  have harrivals := h.arrivals_eq
  rwa [hstep] at harrivals

theorem arrivals_of_error (h : Uses step cursor used) (hstep : step cursor = .error e after) :
    cursor.source.arrivals = used ++ after.source.arrivals := by
  have harrivals := h.arrivals_eq
  rwa [hstep] at harrivals

theorem exists_ok (h : Uses step cursor used) (hstep : step cursor = .ok a after)
    (hother : Cursor.Beside (used ++ later) cursor other) :
    ∃ last, step other = .ok a last ∧ Cursor.Beside later after last := by
  have hresult := h.again other later hother
  rw [hstep] at hresult
  generalize step other = result at hresult
  cases hresult with
  | ok _ hlast => exact ⟨_, rfl, hlast⟩

theorem exists_error (h : Uses step cursor used) (hstep : step cursor = .error e after)
    (hother : Cursor.Beside (used ++ later) cursor other) :
    ∃ last, step other = .error e last ∧ Cursor.Beside later after last := by
  have hresult := h.again other later hother
  rw [hstep] at hresult
  generalize step other = result at hresult
  cases hresult with
  | error _ hlast => exact ⟨_, rfl, hlast⟩

theorem of_pure (a : α) (cursor : Cursor) : Uses (pure a : EStateM ε Cursor α) cursor [] where
  arrivals_eq := rfl
  again _ _ hother := .ok a hother

theorem of_throw (e : ε) (cursor : Cursor) : Uses (throw e : EStateM ε Cursor α) cursor [] where
  arrivals_eq := rfl
  again _ _ hother := .error e hother

theorem bind (h : Uses step cursor used) (hstep : step cursor = .ok a after)
    (hnext : Uses (next a) after more) : Uses (step >>= next) cursor (used ++ more) := by
  constructor
  · rw [bind_of_ok hstep, List.append_assoc, ← hnext.arrivals_eq]
    exact h.arrivals_of_ok hstep
  · intro other later hother
    rw [List.append_assoc] at hother
    obtain ⟨middle, hmiddle, hbeside⟩ := h.exists_ok hstep hother
    rw [bind_of_ok hstep, bind_of_ok hmiddle]
    exact hnext.again middle later hbeside

theorem bind_error (h : Uses step cursor used) (hstep : step cursor = .error e after) :
    Uses (step >>= next) cursor used := by
  constructor
  · rw [bind_of_error hstep]
    exact h.arrivals_of_error hstep
  · intro other later hother
    obtain ⟨last, hlast, hbeside⟩ := h.exists_error hstep hother
    rw [bind_of_error hstep, bind_of_error hlast]
    exact .error e hbeside

theorem adaptExcept (f : ε → ε') (h : Uses step cursor used) :
    Uses (step.adaptExcept f) cursor used := by
  cases hstep : step cursor with
  | ok a after =>
    constructor
    · simp only [EStateM.adaptExcept, hstep]
      exact h.arrivals_of_ok hstep
    · intro other later hother
      obtain ⟨last, hlast, hbeside⟩ := h.exists_ok hstep hother
      simp only [EStateM.adaptExcept, hstep, hlast]
      exact .ok a hbeside
  | error e after =>
    constructor
    · simp only [EStateM.adaptExcept, hstep]
      exact h.arrivals_of_error hstep
    · intro other later hother
      obtain ⟨last, hlast, hbeside⟩ := h.exists_error hstep hother
      simp only [EStateM.adaptExcept, hstep, hlast]
      exact .error (f e) hbeside

end Uses

/-! ## Running out of input -/

/-- No more input is to be had: the source is at its end or pauses, or a fault tells the end. -/
def GivesOut (left : List Arrival) : Prop :=
  Stops left ∨ ∃ f rest, left = .fault f :: rest ∧ f.kind = .unexpectedEof

namespace Cursor

/-- Reading has taken bytes from the cursor until it gave out, and has led to `after`. -/
def RunsDry (cursor after : Cursor) : Prop :=
  ∃ (taken : List UInt8) (left : List Arrival),
    cursor.source.arrivals = taken.map .byte ++ left ∧ GivesOut left ∧
      after.source.arrivals = left.tail

theorem RunsDry.of_taken {cursor middle after : Cursor} {taken : List UInt8}
    (harrivals : cursor.source.arrivals = taken.map .byte ++ middle.source.arrivals)
    (h : middle.RunsDry after) : cursor.RunsDry after := by
  obtain ⟨more, left, hmiddle, hleft, hafter⟩ := h
  refine ⟨taken ++ more, left, ?_, hleft, hafter⟩
  rw [harrivals, hmiddle, List.map_append, List.append_assoc]

end Cursor

/-- What a step takes from a cursor if it succeeds, if it fails, and if it runs out of input. -/
inductive Footprint {ε α : Type} (short : ε → Prop) (step : EStateM ε Cursor α) (cursor : Cursor) :
    Prop
  | ok {a : α} {after : Cursor} (hstep : step cursor = .ok a after) (taken : List UInt8)
    (huses : Uses step cursor (taken.map .byte))
  | error {e : ε} {after : Cursor} (hstep : step cursor = .error e after) (he : ¬ short e)
    (used : List Arrival) (huses : Uses step cursor used)
  | short {e : ε} {after : Cursor} (hstep : step cursor = .error e after) (he : short e)
    (hdry : cursor.RunsDry after)

namespace Footprint

variable {ε ε' α β : Type} {short : ε → Prop} {short' : ε' → Prop} {step : EStateM ε Cursor α}
  {next : α → EStateM ε Cursor β} {cursor after : Cursor} {a : α} {e : ε}

theorem exists_taken (h : Footprint short step cursor) (hstep : step cursor = .ok a after) :
    ∃ taken : List UInt8, Uses step cursor (taken.map .byte) := by
  cases h with
  | ok _ taken huses => exact ⟨taken, huses⟩
  | error hstep' => cases hstep.symm.trans hstep'
  | short hstep' => cases hstep.symm.trans hstep'

theorem exists_used (h : Footprint short step cursor) (hstep : step cursor = .error e after)
    (he : ¬ short e) : ∃ used, Uses step cursor used := by
  cases h with
  | ok hstep' => cases hstep.symm.trans hstep'
  | error _ _ used huses => exact ⟨used, huses⟩
  | short hstep' he' =>
    obtain ⟨rfl, -⟩ := EStateM.Result.error.inj (hstep.symm.trans hstep')
    exact absurd he' he

theorem runsDry (h : Footprint short step cursor) (hstep : step cursor = .error e after)
    (he : short e) : cursor.RunsDry after := by
  cases h with
  | ok hstep' => cases hstep.symm.trans hstep'
  | error hstep' he' =>
    obtain ⟨rfl, -⟩ := EStateM.Result.error.inj (hstep.symm.trans hstep')
    exact absurd he he'
  | short hstep' _ hdry =>
    obtain ⟨-, rfl⟩ := EStateM.Result.error.inj (hstep.symm.trans hstep')
    exact hdry

theorem of_pure (a : α) (cursor : Cursor) : Footprint short (pure a : EStateM ε Cursor α) cursor :=
  .ok rfl [] (Uses.of_pure a cursor)

theorem of_throw (he : ¬ short e) (cursor : Cursor) :
    Footprint short (throw e : EStateM ε Cursor α) cursor :=
  .error rfl he [] (Uses.of_throw e cursor)

theorem bind (h : Footprint short step cursor)
    (hnext : ∀ a after, step cursor = .ok a after → Footprint short (next a) after) :
    Footprint short (step >>= next) cursor := by
  cases h with
  | ok hstep taken huses =>
    have harrivals := huses.arrivals_of_ok hstep
    cases hnext _ _ hstep with
    | ok hlast more hmore =>
      refine .ok ((bind_of_ok hstep).trans hlast) (taken ++ more) ?_
      rw [List.map_append]
      exact huses.bind hstep hmore
    | error hlast he more hmore =>
      exact .error ((bind_of_ok hstep).trans hlast) he _ (huses.bind hstep hmore)
    | short hlast he hdry =>
      exact .short ((bind_of_ok hstep).trans hlast) he (hdry.of_taken harrivals)
  | error hstep he used huses =>
    exact .error (bind_of_error hstep) he used (huses.bind_error hstep)
  | short hstep he hdry => exact .short (bind_of_error hstep) he hdry

theorem map (f : α → β) (h : Footprint short step cursor) : Footprint short (f <$> step) cursor := by
  rw [map_eq_pure_bind]
  exact h.bind fun a after _ => of_pure (f a) after

theorem adaptExcept (f : ε → ε') (h : Footprint short step cursor)
    (hshort : ∀ e, short' (f e) ↔ short e) : Footprint short' (step.adaptExcept f) cursor := by
  cases h with
  | @ok a after hstep taken huses =>
    have hadapt : step.adaptExcept f cursor = .ok a after := by
      simp only [EStateM.adaptExcept, hstep]
    exact .ok hadapt taken (huses.adaptExcept f)
  | @error e after hstep he used huses =>
    have hadapt : step.adaptExcept f cursor = .error (f e) after := by
      simp only [EStateM.adaptExcept, hstep]
    exact .error hadapt (mt (hshort e).mp he) used (huses.adaptExcept f)
  | @short e after hstep he hdry =>
    have hadapt : step.adaptExcept f cursor = .error (f e) after := by
      simp only [EStateM.adaptExcept, hstep]
    exact .short hadapt ((hshort e).mpr he) hdry

end Footprint

/-! ## Readers -/

namespace Source

variable {source rest : Source} {n missing : Nat}

theorem stops_of_pull_ended (h : source.pull = .ended rest) :
    Stops source.arrivals ∧ rest.arrivals = source.arrivals.tail := by
  have harrivals := arrivals_pull source
  rw [h, Pull.arrivals] at harrivals
  split at harrivals
  · next hnil =>
    rw [hnil]
    exact ⟨stops_nil, (List.cons.inj harrivals).2⟩
  · rw [← harrivals]
    exact ⟨stops_pause _, rfl⟩

theorem arrivals_of_discard_done (h : source.discard n = .done rest) :
    ∃ taken : List UInt8, taken.length = n ∧
      source.arrivals = taken.map .byte ++ rest.arrivals := by
  fun_induction discard n source with
  | case1 source =>
    cases h
    exact ⟨[], rfl, rfl⟩
  | case2 n source b middle hpull ih =>
    obtain ⟨taken, hlength, harrivals⟩ := ih h
    refine ⟨b :: taken, by rw [List.length_cons, hlength], ?_⟩
    rw [arrivals_of_pull_byte hpull, harrivals, List.map_cons, List.cons_append]
  | case3 => cases h
  | case4 => cases h

theorem arrivals_of_discard_ended (h : source.discard n = .ended missing rest) :
    ∃ (taken : List UInt8) (left : List Arrival), source.arrivals = taken.map .byte ++ left ∧
      Stops left ∧ rest.arrivals = left.tail := by
  fun_induction discard n source with
  | case1 => cases h
  | case2 n source b middle hpull ih =>
    obtain ⟨taken, left, harrivals, hleft, hrest⟩ := ih h
    refine ⟨b :: taken, left, ?_, hleft, hrest⟩
    rw [arrivals_of_pull_byte hpull, harrivals, List.map_cons, List.cons_append]
  | case3 n source rest' hpull =>
    cases h
    obtain ⟨hstops, hrest⟩ := stops_of_pull_ended hpull
    exact ⟨[], source.arrivals, rfl, hstops, hrest⟩
  | case4 => cases h

end Source

namespace Reader

section

variable {cursor : Cursor} {rest : Source} {b : UInt8} {f : Fault} {n missing : Nat}

/-- One byte; `short` is the failure at the end of the source. -/
def taking (short : Failure) : Reader UInt8 := fun cursor =>
  match cursor.source.pull with
  | .byte b rest => .ok b ⟨rest, cursor.offset + 1⟩
  | .ended rest => .error short { cursor with source := rest }
  | .fault f rest => .error (.fault f) { cursor with source := rest }

theorem taking_of_byte (short : Failure) (h : cursor.source.pull = .byte b rest) :
    taking short cursor = .ok b ⟨rest, cursor.offset + 1⟩ := by simp only [taking, h]

theorem taking_of_ended (short : Failure) (h : cursor.source.pull = .ended rest) :
    taking short cursor = .error short { cursor with source := rest } := by simp only [taking, h]

theorem taking_of_fault (short : Failure) (h : cursor.source.pull = .fault f rest) :
    taking short cursor = .error (.fault f) { cursor with source := rest } := by
  simp only [taking, h]

theorem skip_of_done (h : cursor.source.discard n = .done rest) :
    skip n cursor = .ok () ⟨rest, cursor.offset + n⟩ := by simp only [skip, h]

theorem skip_of_ended (h : cursor.source.discard n = .ended missing rest) :
    skip n cursor = .error (.shortSkip (n - missing) n) ⟨rest, cursor.offset + (n - missing)⟩ := by
  simp only [skip, h]

theorem skip_of_fault (h : cursor.source.discard n = .fault f rest) :
    skip n cursor = .error (.fault f) { cursor with source := rest } := by simp only [skip, h]

end

theorem collect_succ (wanted n : Nat) :
    collect wanted (n + 1) =
      taking (.shortRead (wanted - (n + 1)) wanted) >>= fun b => (b :: ·) <$> collect wanted n := by
  funext cursor
  cases hpull : cursor.source.pull with
  | byte b rest =>
    rw [bind_of_ok (taking_of_byte _ hpull)]
    change _ = EStateM.map _ _ _
    simp only [collect, hpull, EStateM.map]
    cases collect wanted n ⟨rest, cursor.offset + 1⟩ <;> rfl
  | ended rest =>
    rw [bind_of_error (taking_of_ended _ hpull)]
    simp only [collect, hpull]
  | fault f rest =>
    rw [bind_of_error (taking_of_fault _ hpull)]
    simp only [collect, hpull]

theorem taking_footprint {short : Failure} (hshort : RunsOut short) (cursor : Cursor) :
    Footprint RunsOut (taking short) cursor := by
  cases hpull : cursor.source.pull with
  | byte b rest =>
    have hstep := taking_of_byte short hpull
    refine .ok hstep [b] ⟨?_, ?_⟩
    · rw [hstep]
      exact Source.arrivals_of_pull_byte hpull
    · intro other later hother
      obtain ⟨rest', hpull', hrest'⟩ := Source.exists_pull_byte hother.arrivals_eq
      rw [hstep, taking_of_byte short hpull']
      exact .ok b ⟨congrArg (· + 1) hother.offset_eq, hrest'⟩
  | ended rest =>
    obtain ⟨hstops, hrest⟩ := Source.stops_of_pull_ended hpull
    exact .short (taking_of_ended short hpull) hshort ⟨[], _, rfl, Or.inl hstops, hrest⟩
  | fault f rest =>
    have hstep := taking_of_fault short hpull
    have harrivals := Source.arrivals_of_pull_fault hpull
    by_cases hf : f.kind = .unexpectedEof
    · exact .short hstep hf ⟨[], _, harrivals, Or.inr ⟨f, _, rfl, hf⟩, rfl⟩
    · refine .error hstep hf [.fault f] ⟨?_, ?_⟩
      · rw [hstep]
        exact harrivals
      · intro other later hother
        obtain ⟨rest', hpull', hrest'⟩ := Source.exists_pull_fault hother.arrivals_eq
        rw [hstep, taking_of_fault short hpull']
        exact .error _ ⟨hother.offset_eq, hrest'⟩

theorem byte_footprint (cursor : Cursor) : Footprint RunsOut byte cursor :=
  taking_footprint (runsOut_shortRead 0 1) cursor

theorem collect_footprint (wanted n : Nat) (cursor : Cursor) :
    Footprint RunsOut (collect wanted n) cursor := by
  induction n generalizing cursor with
  | zero => exact Footprint.of_pure [] cursor
  | succ n ih =>
    rw [collect_succ]
    refine (taking_footprint (runsOut_shortRead _ _) cursor).bind ?_
    intro b after _
    exact (ih after).map _

theorem pair_footprint (cursor : Cursor) : Footprint RunsOut pair cursor :=
  (collect_footprint 2 2 cursor).map _

theorem number_footprint (width : Nat) (cursor : Cursor) :
    Footprint RunsOut (number width) cursor := (collect_footprint width width cursor).map _

theorem skip_footprint (n : Nat) (cursor : Cursor) : Footprint RunsOut (skip n) cursor := by
  cases hdiscard : cursor.source.discard n with
  | done rest =>
    obtain ⟨taken, hlength, harrivals⟩ := Source.arrivals_of_discard_done hdiscard
    have hstep := skip_of_done hdiscard
    refine .ok hstep taken ⟨?_, ?_⟩
    · rw [hstep]
      exact harrivals
    · intro other later hother
      obtain ⟨rest', hdiscard', hrest'⟩ :=
        Source.discard_of_le hother.arrivals_eq (Nat.le_of_eq hlength.symm)
      rw [← hlength, List.drop_length] at hrest'
      rw [hstep, skip_of_done hdiscard']
      exact .ok () ⟨congrArg (· + n) hother.offset_eq, hrest'⟩
  | ended missing rest =>
    obtain ⟨taken, left, harrivals, hleft, hrest⟩ := Source.arrivals_of_discard_ended hdiscard
    exact .short (skip_of_ended hdiscard) (runsOut_shortSkip _ _)
      ⟨taken, left, harrivals, Or.inl hleft, hrest⟩
  | fault f rest =>
    obtain ⟨taken, harrivals, hlength, -⟩ := Source.arrivals_of_discard_fault hdiscard
    have hstep := skip_of_fault hdiscard
    by_cases hf : f.kind = .unexpectedEof
    · exact .short hstep hf ⟨taken, _, harrivals, Or.inr ⟨f, _, rfl, hf⟩, rfl⟩
    · refine .error hstep hf (taken.map .byte ++ [.fault f]) ⟨?_, ?_⟩
      · rw [hstep, harrivals, List.append_assoc]
        rfl
      · intro other later hother
        have hfault := hother.arrivals_eq
        rw [List.append_assoc] at hfault
        obtain ⟨rest', hdiscard', hrest', -⟩ := Source.exists_discard_fault hfault hlength
        rw [hstep, skip_of_fault hdiscard']
        exact .error _ ⟨hother.offset_eq, hrest'⟩

end Reader
end SoundLog
