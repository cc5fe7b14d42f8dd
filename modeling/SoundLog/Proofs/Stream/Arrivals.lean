import SoundLog.Proofs.Stream.Intact

/-!
# Arrivals

A reader meets bytes, pauses and faults. How the bytes are cut into pieces and where reads are
interrupted it cannot see, so what it does is told by the list of its arrivals. A step that treats
sources with the same arrivals alike is uniform, and every reader is.
-/

namespace SoundLog

/-- What a reader meets. -/
inductive Arrival
  | byte (value : UInt8)
  | pause
  | fault (fault : Fault)
  deriving DecidableEq

def Delivery.arrivals : Delivery → List Arrival
  | chunk b bs => (b :: bs).map .byte
  | interrupted => []
  | pause => [.pause]
  | fault f => [.fault f]

def Source.arrivals (source : Source) : List Arrival := source.flatMap Delivery.arrivals

/-- What was met and what is left to meet; the end is met as a pause. -/
def Pull.arrivals : Pull → List Arrival
  | byte b rest => .byte b :: rest.arrivals
  | ended rest => .pause :: rest.arrivals
  | fault f rest => .fault f :: rest.arrivals

namespace Source

@[simp] theorem arrivals_nil : arrivals [] = [] := rfl

@[simp] theorem arrivals_cons (delivery : Delivery) (rest : Source) :
    arrivals (delivery :: rest) = delivery.arrivals ++ arrivals rest := rfl

theorem arrivals_pull (source : Source) :
    source.pull.arrivals = if source.arrivals = [] then [.pause] else source.arrivals := by
  fun_induction pull source with
  | case4 rest ih => exact ih
  | _ => simp [Pull.arrivals, Delivery.arrivals]

section

variable {source rest : Source} {b : UInt8} {f : Fault}

theorem arrivals_of_pull_byte (h : source.pull = .byte b rest) :
    source.arrivals = .byte b :: rest.arrivals := by
  have harrivals := arrivals_pull source
  rw [h, Pull.arrivals] at harrivals
  split at harrivals
  · cases harrivals
  · exact harrivals.symm

theorem arrivals_of_pull_fault (h : source.pull = .fault f rest) :
    source.arrivals = .fault f :: rest.arrivals := by
  have harrivals := arrivals_pull source
  rw [h, Pull.arrivals] at harrivals
  split at harrivals
  · cases harrivals
  · exact harrivals.symm

theorem exists_pull_byte {later : List Arrival} (h : source.arrivals = .byte b :: later) :
    ∃ rest, source.pull = .byte b rest ∧ rest.arrivals = later := by
  have harrivals := arrivals_pull source
  rw [h, if_neg (List.cons_ne_nil _ _)] at harrivals
  cases hpull : source.pull with
  | byte b' rest' =>
    rw [hpull] at harrivals
    obtain ⟨hb, hrest⟩ := List.cons.inj harrivals
    obtain rfl := Arrival.byte.inj hb
    exact ⟨rest', rfl, hrest⟩
  | ended rest' =>
    rw [hpull] at harrivals
    cases (List.cons.inj harrivals).1
  | fault f rest' =>
    rw [hpull] at harrivals
    cases (List.cons.inj harrivals).1

theorem exists_pull_fault {later : List Arrival} (h : source.arrivals = .fault f :: later) :
    ∃ rest, source.pull = .fault f rest ∧ rest.arrivals = later := by
  have harrivals := arrivals_pull source
  rw [h, if_neg (List.cons_ne_nil _ _)] at harrivals
  cases hpull : source.pull with
  | byte b rest' =>
    rw [hpull] at harrivals
    cases (List.cons.inj harrivals).1
  | ended rest' =>
    rw [hpull] at harrivals
    cases (List.cons.inj harrivals).1
  | fault f' rest' =>
    rw [hpull] at harrivals
    obtain ⟨hf, hrest⟩ := List.cons.inj harrivals
    obtain rfl := Arrival.fault.inj hf
    exact ⟨rest', rfl, hrest⟩

end

theorem Intact.arrivals_eq {source : Source} (h : source.Intact) :
    source.arrivals = source.bytes.map .byte := by
  induction source with
  | nil => rfl
  | cons delivery rest ih =>
    have hdelivery := h delivery List.mem_cons_self
    cases delivery with
    | chunk b bs => simp [bytes, Delivery.arrivals, Delivery.bytes, ih h.tail]
    | interrupted => simp [bytes, Delivery.arrivals, Delivery.bytes, ih h.tail]
    | pause => cases hdelivery
    | fault f => cases hdelivery

/-! ## Asking for bytes -/

/-- The same comes of asking for a byte, and the same is left to meet. -/
inductive PullsAlike : Pull → Pull → Prop
  | byte (b : UInt8) {left right : Source} (h : left.arrivals = right.arrivals) :
    PullsAlike (.byte b left) (.byte b right)
  | ended {left right : Source} (h : left.arrivals = right.arrivals) :
    PullsAlike (.ended left) (.ended right)
  | fault (f : Fault) {left right : Source} (h : left.arrivals = right.arrivals) :
    PullsAlike (.fault f left) (.fault f right)

theorem pullsAlike_of_arrivals {left right : Pull} (h : left.arrivals = right.arrivals) :
    PullsAlike left right := by
  cases left with
  | byte b rest =>
    cases right with
    | byte b' rest' =>
      obtain ⟨hb, hrest⟩ := List.cons.inj h
      obtain rfl := Arrival.byte.inj hb
      exact .byte b hrest
    | ended rest' => cases (List.cons.inj h).1
    | fault f rest' => cases (List.cons.inj h).1
  | ended rest =>
    cases right with
    | byte b rest' => cases (List.cons.inj h).1
    | ended rest' => exact .ended (List.cons.inj h).2
    | fault f rest' => cases (List.cons.inj h).1
  | fault f rest =>
    cases right with
    | byte b rest' => cases (List.cons.inj h).1
    | ended rest' => cases (List.cons.inj h).1
    | fault f' rest' =>
      obtain ⟨hf, hrest⟩ := List.cons.inj h
      obtain rfl := Arrival.fault.inj hf
      exact .fault f hrest

theorem pull_alike {left right : Source} (h : left.arrivals = right.arrivals) :
    PullsAlike left.pull right.pull := by
  apply pullsAlike_of_arrivals
  rw [arrivals_pull, arrivals_pull, h]

/-- The same comes of dropping bytes, and the same is left to meet. -/
inductive DiscardsAlike : Discard → Discard → Prop
  | done {left right : Source} (h : left.arrivals = right.arrivals) :
    DiscardsAlike (.done left) (.done right)
  | ended (missing : Nat) {left right : Source} (h : left.arrivals = right.arrivals) :
    DiscardsAlike (.ended missing left) (.ended missing right)
  | fault (f : Fault) {left right : Source} (h : left.arrivals = right.arrivals) :
    DiscardsAlike (.fault f left) (.fault f right)

theorem discard_alike (n : Nat) {left right : Source} (h : left.arrivals = right.arrivals) :
    DiscardsAlike (left.discard n) (right.discard n) := by
  induction n generalizing left right with
  | zero =>
    unfold discard
    exact .done h
  | succ n ih =>
    have hpull := pull_alike h
    unfold discard
    cases hleft : left.pull <;> cases hright : right.pull <;> rw [hleft, hright] at hpull <;>
      cases hpull
    · next hrest => exact ih hrest
    · next hrest => exact .ended (n + 1) hrest
    · next f _ hrest => exact .fault _ hrest

/-! ## Faults that stop dropping -/

section

variable {n : Nat} {source rest : Source} {f : Fault}

theorem arrivals_of_discard_fault (h : source.discard n = .fault f rest) :
    ∃ taken : List UInt8, source.arrivals = taken.map .byte ++ .fault f :: rest.arrivals ∧
      taken.length < n ∧ rest.size + taken.length = source.size := by
  induction n generalizing source with
  | zero => cases h
  | succ n ih =>
    unfold discard at h
    cases hpull : source.pull with
    | byte b middle =>
      rw [hpull] at h
      have hsize := size_of_pull_byte hpull
      obtain ⟨taken, harrivals, hlength, hrest⟩ := ih h
      refine ⟨b :: taken, ?_, by simpa using hlength, by rw [List.length_cons]; omega⟩
      rw [arrivals_of_pull_byte hpull, harrivals]
      rfl
    | ended middle =>
      rw [hpull] at h
      cases h
    | fault f' middle =>
      rw [hpull] at h
      cases h
      exact ⟨[], arrivals_of_pull_fault hpull, Nat.succ_pos n, size_of_pull_fault hpull⟩

theorem exists_discard_fault {taken : List UInt8} {later : List Arrival}
    (h : source.arrivals = taken.map .byte ++ .fault f :: later) (hlength : taken.length < n) :
    ∃ rest, source.discard n = .fault f rest ∧ rest.arrivals = later ∧
      rest.size + taken.length = source.size := by
  induction taken generalizing source n with
  | nil =>
    obtain ⟨n, rfl⟩ := Nat.exists_eq_add_one.mpr hlength
    obtain ⟨rest, hpull, hrest⟩ := exists_pull_fault h
    exact ⟨rest, by simp only [discard, hpull], hrest, size_of_pull_fault hpull⟩
  | cons b taken ih =>
    obtain ⟨n, rfl⟩ := Nat.exists_eq_add_one.mpr (Nat.zero_lt_of_lt hlength)
    obtain ⟨middle, hpull, hmiddle⟩ := exists_pull_byte h
    have hsize := size_of_pull_byte hpull
    obtain ⟨rest, hdiscard, hlater, hrest⟩ := ih hmiddle (Nat.lt_of_succ_lt_succ hlength)
    refine ⟨rest, by simp only [discard, hpull, hdiscard], hlater, ?_⟩
    rw [List.length_cons]
    omega

end

end Source

/-! ## Uniform steps -/

/-- The cursors stand at the same place of sources with the same arrivals. -/
structure Cursor.Alike (left right : Cursor) : Prop where
  arrivals_eq : left.source.arrivals = right.source.arrivals
  offset_eq : left.offset = right.offset

/-- The results have the same value, or the same failure, and the cursors are alike. -/
inductive ResultsAlike {ε α : Type} :
    EStateM.Result ε Cursor α → EStateM.Result ε Cursor α → Prop
  | ok (a : α) {left right : Cursor} (h : left.Alike right) :
    ResultsAlike (.ok a left) (.ok a right)
  | error (e : ε) {left right : Cursor} (h : left.Alike right) :
    ResultsAlike (.error e left) (.error e right)

/-- Alike cursors lead to alike results. -/
def Uniform {ε α : Type} (step : EStateM ε Cursor α) : Prop :=
  ∀ left right : Cursor, left.Alike right → ResultsAlike (step left) (step right)

namespace Uniform

variable {ε ε' α β : Type}

section

variable {step : EStateM ε Cursor α} {left right after : Cursor}

theorem exists_ok (hstep : Uniform step) (h : left.Alike right) {a : α}
    (hleft : step left = .ok a after) :
    ∃ after', step right = .ok a after' ∧ after.Alike after' := by
  have hresult := hstep left right h
  cases hright : step right <;> rw [hleft, hright] at hresult <;> cases hresult
  next hafter => exact ⟨_, rfl, hafter⟩

theorem exists_error (hstep : Uniform step) (h : left.Alike right) {e : ε}
    (hleft : step left = .error e after) :
    ∃ after', step right = .error e after' ∧ after.Alike after' := by
  have hresult := hstep left right h
  cases hright : step right <;> rw [hleft, hright] at hresult <;> cases hresult
  next hafter => exact ⟨_, rfl, hafter⟩

end

theorem of_pure (a : α) : Uniform (pure a : EStateM ε Cursor α) := fun _ _ h => .ok a h

theorem of_throw (e : ε) : Uniform (throw e : EStateM ε Cursor α) := fun _ _ h => .error e h

theorem bind {first : EStateM ε Cursor α} {next : α → EStateM ε Cursor β}
    (hfirst : Uniform first) (hnext : ∀ a, Uniform (next a)) : Uniform (first >>= next) := by
  intro left right h
  change ResultsAlike (EStateM.bind first next left) (EStateM.bind first next right)
  cases hleft : first left with
  | ok a middle =>
    obtain ⟨middle', hright, hmiddle⟩ := hfirst.exists_ok h hleft
    simp only [EStateM.bind, hleft, hright]
    exact hnext a middle middle' hmiddle
  | error e after =>
    obtain ⟨after', hright, hafter⟩ := hfirst.exists_error h hleft
    simp only [EStateM.bind, hleft, hright]
    exact .error e hafter

theorem map {step : EStateM ε Cursor α} (f : α → β) (hstep : Uniform step) :
    Uniform (f <$> step) := by
  intro left right h
  change ResultsAlike (EStateM.map f step left) (EStateM.map f step right)
  cases hleft : step left with
  | ok a after =>
    obtain ⟨after', hright, hafter⟩ := hstep.exists_ok h hleft
    simp only [EStateM.map, hleft, hright]
    exact .ok (f a) hafter
  | error e after =>
    obtain ⟨after', hright, hafter⟩ := hstep.exists_error h hleft
    simp only [EStateM.map, hleft, hright]
    exact .error e hafter

theorem adaptExcept {step : EStateM ε Cursor α} (f : ε → ε') (hstep : Uniform step) :
    Uniform (step.adaptExcept f) := by
  intro left right h
  cases hleft : step left with
  | ok a after =>
    obtain ⟨after', hright, hafter⟩ := hstep.exists_ok h hleft
    simp only [EStateM.adaptExcept, hleft, hright]
    exact .ok a hafter
  | error e after =>
    obtain ⟨after', hright, hafter⟩ := hstep.exists_error h hleft
    simp only [EStateM.adaptExcept, hleft, hright]
    exact .error (f e) hafter

end Uniform

namespace Reader

theorem byte_uniform : Uniform byte := by
  intro left right h
  have hpull := Source.pull_alike h.arrivals_eq
  unfold byte
  cases hleft : left.source.pull <;> cases hright : right.source.pull <;>
    rw [hleft, hright] at hpull <;> cases hpull
  · next hrest => exact .ok _ ⟨hrest, by rw [h.offset_eq]⟩
  · next hrest => exact .error _ ⟨hrest, h.offset_eq⟩
  · next hrest => exact .error _ ⟨hrest, h.offset_eq⟩

theorem collect_uniform (wanted n : Nat) : Uniform (collect wanted n) := by
  induction n with
  | zero => exact Uniform.of_pure []
  | succ n ih =>
    intro left right h
    have hpull := Source.pull_alike h.arrivals_eq
    unfold collect
    cases hleft : left.source.pull <;> cases hright : right.source.pull <;>
      rw [hleft, hright] at hpull <;> cases hpull
    · next b rest rest' hrest =>
      have hmiddle : Cursor.Alike ⟨rest, left.offset + 1⟩ ⟨rest', right.offset + 1⟩ :=
        ⟨hrest, by rw [h.offset_eq]⟩
      cases hbs : collect wanted n ⟨rest, left.offset + 1⟩ with
      | ok bs after =>
        obtain ⟨after', hbs', hafter⟩ := ih.exists_ok hmiddle hbs
        simp only [hbs, hbs']
        exact .ok _ hafter
      | error failure after =>
        obtain ⟨after', hbs', hafter⟩ := ih.exists_error hmiddle hbs
        simp only [hbs, hbs']
        exact .error _ hafter
    · next hrest => exact .error _ ⟨hrest, h.offset_eq⟩
    · next hrest => exact .error _ ⟨hrest, h.offset_eq⟩

theorem pair_uniform : Uniform pair := (collect_uniform 2 2).map _

theorem number_uniform (width : Nat) : Uniform (number width) :=
  (collect_uniform width width).map LittleEndian.toNat

theorem skip_uniform (n : Nat) : Uniform (skip n) := by
  intro left right h
  have hdiscard := Source.discard_alike n h.arrivals_eq
  unfold skip
  cases hleft : left.source.discard n <;> cases hright : right.source.discard n <;>
    rw [hleft, hright] at hdiscard <;> cases hdiscard
  · next hrest => exact .ok _ ⟨hrest, by rw [h.offset_eq]⟩
  · next hrest => exact .error _ ⟨hrest, by rw [h.offset_eq]⟩
  · next hrest => exact .error _ ⟨hrest, h.offset_eq⟩

end Reader
end SoundLog
