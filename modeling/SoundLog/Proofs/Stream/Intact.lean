import SoundLog.Stream.Progress

/-!
# Readers on intact sources

An intact source brings nothing but bytes and interruptions, in pieces of any size. On such a source
a reader of a fixed number of bytes has two ends only: it gets them all, or it takes what is left
and fails because the input is short. What it makes of the bytes does not depend on the pieces.
-/

namespace SoundLog

/-- A delivery after which the bytes go on as if nothing had happened. -/
def Delivery.isIntact : Delivery → Bool
  | .chunk .. => true
  | .interrupted => true
  | .pause => false
  | .fault _ => false

namespace Source

/-- No read pauses or fails before the end of the bytes. -/
def Intact (source : Source) : Prop := ∀ delivery ∈ source, delivery.isIntact = true

instance (source : Source) : Decidable source.Intact :=
  inferInstanceAs (Decidable (∀ delivery ∈ source, delivery.isIntact = true))

theorem Intact.tail {delivery : Delivery} {rest : Source} (h : Intact (delivery :: rest)) :
    Intact rest := fun d hd => h d (List.mem_cons_of_mem _ hd)

/-- An intact source brings its first byte, or has none. -/
theorem Intact.pull_eq {source : Source} (h : source.Intact) :
    (∃ b rest, source.pull = .byte b rest ∧ source.bytes = b :: rest.bytes ∧ rest.Intact) ∨
      (source.pull = .ended [] ∧ source.bytes = []) := by
  fun_induction pull source with
  | case1 => exact Or.inr ⟨rfl, rfl⟩
  | case2 b rest =>
    exact Or.inl ⟨b, rest, rfl, by simp [bytes, Delivery.bytes], h.tail⟩
  | case3 b c more rest =>
    refine Or.inl ⟨b, _, rfl, by simp [bytes, Delivery.bytes], ?_⟩
    intro delivery hdelivery
    rcases List.mem_cons.mp hdelivery with rfl | hrest
    · rfl
    · exact h.tail delivery hrest
  | case4 rest ih => simpa [bytes, Delivery.bytes] using ih h.tail
  | case5 rest => exact absurd (h .pause List.mem_cons_self) (by simp [Delivery.isIntact])
  | case6 f rest => exact absurd (h (.fault f) List.mem_cons_self) (by simp [Delivery.isIntact])

/-- Dropping bytes of an intact source succeeds, or uses all of them up. -/
theorem Intact.discard_eq {source : Source} (h : source.Intact) (n : Nat) :
    (∃ rest, source.discard n = .done rest ∧ rest.Intact ∧
        ∃ taken, taken.length = n ∧ source.bytes = taken ++ rest.bytes) ∨
      (source.bytes.length < n ∧ source.discard n = .ended (n - source.bytes.length) []) := by
  induction n generalizing source with
  | zero => exact Or.inl ⟨source, by simp [discard], h, [], rfl, rfl⟩
  | succ n ih =>
    obtain ⟨b, rest, hpull, hbytes, hrest⟩ | ⟨hpull, hbytes⟩ := h.pull_eq
    · simp only [discard, hpull]
      obtain ⟨after, hdiscard, hafter, taken, hlength, htaken⟩ | ⟨hshort, hdiscard⟩ := ih hrest
      · refine Or.inl ⟨after, hdiscard, hafter, b :: taken, by simp [hlength], ?_⟩
        rw [hbytes, htaken, List.cons_append]
      · refine Or.inr ⟨by rw [hbytes, List.length_cons]; omega, ?_⟩
        rw [hdiscard, hbytes, List.length_cons, Nat.add_sub_add_right]
    · refine Or.inr ⟨by simp [hbytes], ?_⟩
      simp [discard, hpull, hbytes]

end Source

section

variable {ε α β : Type} {first : EStateM ε Cursor α} {next : α → EStateM ε Cursor β}
  {cursor after : Cursor}

theorem bind_of_ok {a : α} (h : first cursor = .ok a after) :
    (first >>= next) cursor = next a after := by
  change EStateM.bind first next cursor = _
  simp only [EStateM.bind, h]

theorem bind_of_error {e : ε} (h : first cursor = .error e after) :
    (first >>= next) cursor = .error e after := by
  change EStateM.bind first next cursor = _
  simp only [EStateM.bind, h]

theorem exists_of_bind_ok {b : β} (h : (first >>= next) cursor = .ok b after) :
    ∃ a middle, first cursor = .ok a middle ∧ next a middle = .ok b after := by
  cases hfirst : first cursor with
  | ok a middle => exact ⟨a, middle, rfl, (bind_of_ok hfirst).symm.trans h⟩
  | error e middle => cases (bind_of_error hfirst).symm.trans h

end

namespace Cursor

/-- Reading has led from `before` over `taken` to `after`, with an intact source ahead. -/
structure Takes (before : Cursor) (taken : List UInt8) (after : Cursor) : Prop where
  intact : after.source.Intact
  bytes_eq : before.source.bytes = taken ++ after.source.bytes
  offset_eq : after.offset = before.offset + taken.length

namespace Takes

theorem refl {cursor : Cursor} (h : cursor.source.Intact) : Takes cursor [] cursor :=
  ⟨h, rfl, rfl⟩

theorem trans {a b c : Cursor} {first second : List UInt8} (hab : Takes a first b)
    (hbc : Takes b second c) : Takes a (first ++ second) c where
  intact := hbc.intact
  bytes_eq := by rw [hab.bytes_eq, hbc.bytes_eq, List.append_assoc]
  offset_eq := by rw [hbc.offset_eq, hab.offset_eq, List.length_append, Nat.add_assoc]

theorem length_eq {before after : Cursor} {taken : List UInt8} (h : Takes before taken after) :
    before.source.bytes.length = taken.length + after.source.bytes.length := by
  rw [h.bytes_eq, List.length_append]

theorem length_lt {before after : Cursor} {taken : List UInt8} (h : Takes before taken after)
    (hne : taken ≠ []) : after.source.bytes.length < before.source.bytes.length := by
  have hpositive := List.length_pos_iff.mpr hne
  have hlength := h.length_eq
  omega

theorem left_eq {before after : Cursor} {taken : List UInt8} (h : Takes before taken after) :
    after.source.bytes = before.source.bytes.drop taken.length := by
  rw [h.bytes_eq, List.drop_left]

theorem eq_of_length {before after : Cursor} {taken expected rest : List UInt8}
    (h : Takes before taken after) (hbytes : before.source.bytes = expected ++ rest)
    (hlength : taken.length = expected.length) :
    taken = expected ∧ after.source.bytes = rest :=
  List.append_inj (h.bytes_eq.symm.trans hbytes) hlength

end Takes
end Cursor

/-! ## Readers of a fixed number of bytes -/

/-- On intact sources the step takes `size` bytes and yields their value. If fewer are left it takes
them all and fails for want of input. -/
def Reads {ε α : Type} (short : ε → Prop) (step : EStateM ε Cursor α) (size : Nat)
    (value : List UInt8 → α) : Prop :=
  ∀ cursor : Cursor, cursor.source.Intact →
    (∃ taken after, step cursor = .ok (value taken) after ∧ taken.length = size ∧
        cursor.Takes taken after) ∨
      (∃ taken after e, step cursor = .error e after ∧ short e ∧ taken.length < size ∧
        cursor.Takes taken after ∧ after.source.bytes = [])

namespace Reads

variable {ε ε' α β : Type} {short : ε → Prop} {short' : ε' → Prop}

theorem exists_ok {step : EStateM ε Cursor α} {size : Nat} {value : List UInt8 → α}
    (h : Reads short step size value) {cursor : Cursor} (hintact : cursor.source.Intact)
    {expected rest : List UInt8} (hbytes : cursor.source.bytes = expected ++ rest)
    (hlength : expected.length = size) :
    ∃ after, step cursor = .ok (value expected) after ∧ cursor.Takes expected after ∧
      after.source.bytes = rest := by
  obtain ⟨taken, after, hstep, hsize, htakes⟩ | ⟨taken, after, e, _, _, hsize, htakes, hend⟩ :=
    h cursor hintact
  · obtain ⟨rfl, hrest⟩ := htakes.eq_of_length hbytes (hsize.trans hlength.symm)
    exact ⟨after, hstep, htakes, hrest⟩
  · have hlengths := congrArg List.length (htakes.bytes_eq.symm.trans hbytes)
    simp only [hend, List.append_nil, List.length_append] at hlengths
    omega

theorem takes_of_ok {step : EStateM ε Cursor α} {size : Nat} {value : List UInt8 → α}
    (h : Reads short step size value) {cursor after : Cursor} (hintact : cursor.source.Intact)
    {a : α} (hstep : step cursor = .ok a after) :
    ∃ taken, a = value taken ∧ taken.length = size ∧ cursor.Takes taken after := by
  obtain ⟨taken, after', hok, hsize, htakes⟩ | ⟨_, _, e, herror, _⟩ := h cursor hintact
  · obtain ⟨rfl, rfl⟩ := EStateM.Result.ok.inj (hstep.symm.trans hok)
    exact ⟨taken, rfl, hsize, htakes⟩
  · cases hstep.symm.trans herror

theorem takes_of_error {step : EStateM ε Cursor α} {size : Nat} {value : List UInt8 → α}
    (h : Reads short step size value) {cursor after : Cursor} (hintact : cursor.source.Intact)
    {e : ε} (hstep : step cursor = .error e after) :
    short e ∧ after.source.bytes = [] ∧
      ∃ taken : List UInt8, taken.length < size ∧ cursor.Takes taken after := by
  obtain ⟨_, _, hok, _⟩ | ⟨taken, after', e', herror, hshort, hsize, htakes, hend⟩ :=
    h cursor hintact
  · cases hstep.symm.trans hok
  · obtain ⟨rfl, rfl⟩ := EStateM.Result.error.inj (hstep.symm.trans herror)
    exact ⟨hshort, hend, taken, hsize, htakes⟩

theorem of_pure (a : α) : Reads short (pure a) 0 (fun _ => a) := fun cursor hintact =>
  Or.inl ⟨[], cursor, rfl, rfl, .refl hintact⟩

theorem map {step : EStateM ε Cursor α} {size : Nat} {value : List UInt8 → α} (f : α → β)
    (h : Reads short step size value) : Reads short (f <$> step) size (fun bs => f (value bs)) := by
  intro cursor hintact
  change (∃ taken after, EStateM.map f step cursor = _ ∧ _) ∨
    ∃ taken after e, EStateM.map f step cursor = _ ∧ _
  obtain ⟨taken, after, hstep, hrest⟩ | ⟨taken, after, e, hstep, hrest⟩ := h cursor hintact
  · exact Or.inl ⟨taken, after, by simp only [EStateM.map, hstep], hrest⟩
  · exact Or.inr ⟨taken, after, e, by simp only [EStateM.map, hstep], hrest⟩

theorem adaptExcept {step : EStateM ε Cursor α} {size : Nat} {value : List UInt8 → α} (f : ε → ε')
    (h : Reads short step size value) (hshort : ∀ e, short e → short' (f e)) :
    Reads short' (step.adaptExcept f) size value := by
  intro cursor hintact
  obtain ⟨taken, after, hstep, hrest⟩ | ⟨taken, after, e, hstep, he, hrest⟩ := h cursor hintact
  · exact Or.inl ⟨taken, after, by simp only [EStateM.adaptExcept, hstep], hrest⟩
  · exact Or.inr
      ⟨taken, after, f e, by simp only [EStateM.adaptExcept, hstep], hshort e he, hrest⟩

end Reads

namespace Reader

/-- The failures of a source that has ended. -/
def RunsOut (failure : Failure) : Prop := failure.kind = .unexpectedEof

theorem byte_reads : Reads RunsOut byte 1 (fun bs => bs.headD 0) := by
  intro cursor hintact
  obtain ⟨b, rest, hpull, hbytes, hrest⟩ | ⟨hpull, hbytes⟩ := hintact.pull_eq
  · exact Or.inl ⟨[b], ⟨rest, cursor.offset + 1⟩, by simp [byte, hpull], rfl, hrest, hbytes, rfl⟩
  · refine Or.inr ⟨[], ⟨[], cursor.offset⟩, .shortRead 0 1, by simp [byte, hpull], rfl,
      Nat.one_pos, ⟨by simp [Source.Intact], hbytes, rfl⟩, rfl⟩

theorem collect_reads (wanted n : Nat) : Reads RunsOut (collect wanted n) n id := by
  induction n with
  | zero => exact fun cursor hintact => Or.inl ⟨[], cursor, rfl, rfl, .refl hintact⟩
  | succ n ih =>
    intro cursor hintact
    obtain ⟨b, rest, hpull, hbytes, hrest⟩ | ⟨hpull, hbytes⟩ := hintact.pull_eq
    · have hfirst : cursor.Takes [b] ⟨rest, cursor.offset + 1⟩ := ⟨hrest, hbytes, rfl⟩
      obtain ⟨bs, after, hstep, hlength, htakes⟩ |
        ⟨bs, after, e, hstep, he, hlength, htakes, hend⟩ :=
        ih ⟨rest, cursor.offset + 1⟩ hrest
      · refine Or.inl ⟨b :: bs, after, ?_, by simp [hlength], hfirst.trans htakes⟩
        simp only [collect, hpull, hstep, id]
      · refine Or.inr ⟨b :: bs, after, e, ?_, he, by simpa using hlength, hfirst.trans htakes, hend⟩
        simp only [collect, hpull, hstep]
    · refine Or.inr ⟨[], ⟨[], cursor.offset⟩, .shortRead (wanted - (n + 1)) wanted, ?_, rfl,
        Nat.succ_pos n, ⟨by simp [Source.Intact], hbytes, rfl⟩, rfl⟩
      simp only [collect, hpull]

theorem bytes_reads (n : Nat) : Reads RunsOut (bytes n) n id := collect_reads n n

theorem pair_reads : Reads RunsOut pair 2 (fun bs => (bs.getD 0 0, bs.getD 1 0)) :=
  (collect_reads 2 2).map _

theorem number_reads (width : Nat) : Reads RunsOut (number width) width LittleEndian.toNat :=
  (collect_reads width width).map LittleEndian.toNat

theorem skip_reads (n : Nat) : Reads RunsOut (skip n) n (fun _ => ()) := by
  intro cursor hintact
  obtain ⟨rest, hdiscard, hrest, taken, hlength, hbytes⟩ | ⟨hshort, hdiscard⟩ :=
    hintact.discard_eq n
  · refine Or.inl ⟨taken, ⟨rest, cursor.offset + n⟩, by simp only [skip, hdiscard], hlength, ?_⟩
    exact ⟨hrest, hbytes, by rw [hlength]⟩
  · refine Or.inr ⟨cursor.source.bytes, ⟨[], cursor.offset + cursor.source.bytes.length⟩,
      .shortSkip (n - (n - cursor.source.bytes.length)) n, ?_, rfl, hshort,
      ⟨by simp [Source.Intact], by simp [Source.bytes], rfl⟩, rfl⟩
    rw [skip]
    simp only [hdiscard, Nat.sub_sub_self (Nat.le_of_lt hshort)]

end Reader
end SoundLog
