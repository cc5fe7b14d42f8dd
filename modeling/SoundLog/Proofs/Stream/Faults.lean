import SoundLog.Proofs.Stream.Footprint

/-!
# Faults between bytes

A fault stands behind the bytes that come before it in a source, and their number is its place. Two
cursors are compared whose sources bring the same bytes, the left one without faults. As far as the
next fault, what the left one takes the right one brings as well.
-/

namespace SoundLog

/-! ## Places of faults -/

def Arrival.byte? : Arrival → Option UInt8
  | byte b => some b
  | pause => none
  | fault _ => none

/-- The faults among some arrivals with their places, if so many bytes have come before. -/
def faultsFrom : Nat → List Arrival → List (Nat × Fault)
  | _, [] => []
  | place, .byte _ :: later => faultsFrom (place + 1) later
  | place, .pause :: later => faultsFrom place later
  | place, .fault f :: later => (place, f) :: faultsFrom place later

/-- The faults of a source, each with the number of bytes in front of it. -/
def Source.faults (source : Source) : List (Nat × Fault) := faultsFrom 0 source.arrivals

/-- The faults that are still to come. -/
def Cursor.faults (cursor : Cursor) : List (Nat × Fault) :=
  faultsFrom cursor.offset cursor.source.arrivals

theorem filterMap_bytes (bs : List UInt8) :
    (bs.map Arrival.byte).filterMap Arrival.byte? = bs := by
  induction bs with
  | nil => rfl
  | cons b bs ih => exact congrArg (b :: ·) ih

theorem Source.filterMap_arrivals (source : Source) :
    source.arrivals.filterMap Arrival.byte? = source.bytes := by
  induction source with
  | nil => rfl
  | cons delivery rest ih =>
    rw [arrivals_cons, List.filterMap_append, ih, bytes, bytes, List.flatMap_cons]
    congr 1
    cases delivery with
    | chunk b bs => exact filterMap_bytes (b :: bs)
    | _ => rfl

theorem Source.pause_notMem_arrivals {source : Source} (h : Delivery.pause ∉ source) :
    Arrival.pause ∉ source.arrivals := by
  intro hpause
  obtain ⟨delivery, hdelivery, hmem⟩ := List.mem_flatMap.mp hpause
  cases delivery with
  | pause => exact h hdelivery
  | chunk b bs => simp [Delivery.arrivals] at hmem
  | interrupted => cases hmem
  | fault f => simp [Delivery.arrivals] at hmem

section

variable {place : Nat} {arrivals : List Arrival} {taken rest : List UInt8}

theorem le_of_mem_faultsFrom {item : Nat × Fault} (h : item ∈ faultsFrom place arrivals) :
    place ≤ item.1 := by
  fun_induction faultsFrom place arrivals with
  | case1 => cases h
  | case2 place b later ih => exact Nat.le_of_succ_le (ih h)
  | case3 place later ih => exact ih h
  | case4 place f later ih =>
    rcases List.mem_cons.mp h with rfl | hlater
    · exact Nat.le_refl _
    · exact ih hlater

theorem faultsFrom_bytes_append (place : Nat) (taken : List UInt8) (later : List Arrival) :
    faultsFrom place (taken.map .byte ++ later) = faultsFrom (place + taken.length) later := by
  induction taken generalizing place with
  | nil => rfl
  | cons b taken ih =>
    rw [List.map_cons, List.cons_append, faultsFrom, ih, List.length_cons, Nat.add_assoc,
      Nat.add_comm 1]

/-- Bytes come one after another as long as there is no fault between them. -/
theorem exists_later_of_faultsFrom (hpause : .pause ∉ arrivals)
    (hbytes : arrivals.filterMap Arrival.byte? = taken ++ rest)
    (hfaults : ∀ item ∈ faultsFrom place arrivals, place + taken.length ≤ item.1) :
    ∃ later, arrivals = taken.map .byte ++ later := by
  induction taken generalizing place arrivals with
  | nil => exact ⟨arrivals, rfl⟩
  | cons b taken ih =>
    rw [List.length_cons] at hfaults
    cases arrivals with
    | nil => cases hbytes
    | cons arrival arrivals =>
      cases arrival with
      | byte c =>
        obtain ⟨rfl, htail⟩ := List.cons.inj hbytes
        have hlater : ∀ item ∈ faultsFrom (place + 1) arrivals,
            place + 1 + taken.length ≤ item.1 := by
          intro item hitem
          have hplace := hfaults item hitem
          omega
        obtain ⟨later, rfl⟩ := ih (List.not_mem_of_not_mem_cons hpause) htail hlater
        exact ⟨later, rfl⟩
      | pause => exact absurd List.mem_cons_self hpause
      | fault f =>
        have hplace := hfaults (place, f) List.mem_cons_self
        simp only at hplace
        omega

theorem eq_bytes_of_faultsFrom_eq_nil (hpause : .pause ∉ arrivals)
    (h : faultsFrom place arrivals = []) :
    arrivals = (arrivals.filterMap Arrival.byte?).map .byte := by
  fun_induction faultsFrom place arrivals with
  | case1 => rfl
  | case2 place b later ih =>
    exact congrArg (.byte b :: ·) (ih (List.not_mem_of_not_mem_cons hpause) h)
  | case3 => exact absurd List.mem_cons_self hpause
  | case4 => cases h

end

/-! ## The same bytes with faults between them -/

namespace Cursor

/-- On an intact source the arrivals that were taken are the bytes that were taken. -/
theorem Takes.used_eq {before after : Cursor} {taken : List UInt8} {used : List Arrival}
    (h : before.Takes taken after) (hintact : before.source.Intact)
    (hused : before.source.arrivals = used ++ after.source.arrivals) : used = taken.map .byte := by
  rw [hintact.arrivals_eq, h.bytes_eq, h.intact.arrivals_eq, List.map_append] at hused
  exact (List.append_cancel_right hused).symm

/-- The right cursor stands at the same place, and its source brings the same bytes, with faults
between them. -/
structure Interspersed (left right : Cursor) : Prop where
  offset_eq : right.offset = left.offset
  intact : left.source.Intact
  bytes_eq : right.source.bytes = left.source.bytes
  pause_notMem : .pause ∉ right.source.arrivals

namespace Interspersed

variable {left right after : Cursor} {taken : List UInt8}

/-- What the left cursor takes in front of the next fault the right one brings first. Behind it, the
faults are still to come. -/
theorem exists_later (h : left.Interspersed right) (htakes : left.Takes taken after)
    (hfaults : ∀ item ∈ right.faults, after.offset ≤ item.1) :
    ∃ later, Beside (taken.map .byte ++ later) left right ∧
      ∀ last, Beside later after last → after.Interspersed last ∧ last.faults = right.faults := by
  have hbytes : right.source.arrivals.filterMap Arrival.byte? = taken ++ after.source.bytes := by
    rw [Source.filterMap_arrivals, h.bytes_eq, htakes.bytes_eq]
  rw [htakes.offset_eq, ← h.offset_eq] at hfaults
  obtain ⟨later, hlater⟩ := exists_later_of_faultsFrom h.pause_notMem hbytes hfaults
  refine ⟨later, ⟨h.offset_eq, hlater⟩, ?_⟩
  intro last hlast
  have hplace : last.offset = right.offset + taken.length := by
    rw [hlast.offset_eq, htakes.offset_eq, h.offset_eq]
  refine ⟨⟨hlast.offset_eq, htakes.intact, ?_, ?_⟩, ?_⟩
  · rw [hlater, List.filterMap_append, filterMap_bytes] at hbytes
    rw [← Source.filterMap_arrivals, hlast.arrivals_eq]
    exact List.append_cancel_left hbytes
  · intro hpause
    rw [hlast.arrivals_eq] at hpause
    exact h.pause_notMem (hlater ▸ List.mem_append_right _ hpause)
  · rw [faults, faults, hlater, faultsFrom_bytes_append, hlast.arrivals_eq, hplace]

/-- Without faults the cursors differ only in the pieces that are to come. -/
theorem alike (h : left.Interspersed right) (hfaults : right.faults = []) : left.Alike right := by
  refine ⟨?_, h.offset_eq.symm⟩
  rw [h.intact.arrivals_eq, ← h.bytes_eq, ← Source.filterMap_arrivals]
  exact (eq_bytes_of_faultsFrom_eq_nil h.pause_notMem hfaults).symm

theorem of_alike (hintact : left.source.Intact) (h : left.Alike right) :
    left.Interspersed right ∧ right.faults = [] := by
  have harrivals : right.source.arrivals = left.source.bytes.map .byte ++ [] := by
    rw [← h.arrivals_eq, hintact.arrivals_eq, List.append_nil]
  refine ⟨⟨h.offset_eq.symm, hintact, ?_, ?_⟩, ?_⟩
  · rw [← Source.filterMap_arrivals, harrivals, List.append_nil, filterMap_bytes]
  · simp [harrivals]
  · rw [faults, harrivals, faultsFrom_bytes_append]
    rfl

theorem front_cases (h : left.Interspersed right) :
    (∃ f later, right.source.arrivals = .fault f :: later) ∨
      ∀ item ∈ right.faults, right.offset < item.1 := by
  cases harrivals : right.source.arrivals with
  | nil =>
    rw [faults, harrivals]
    exact Or.inr fun item hitem => nomatch hitem
  | cons arrival later =>
    cases arrival with
    | byte b =>
      rw [faults, harrivals]
      refine Or.inr fun item hitem => ?_
      exact Nat.lt_of_succ_le (le_of_mem_faultsFrom hitem)
    | pause => exact absurd (harrivals ▸ List.mem_cons_self) h.pause_notMem
    | fault f => exact Or.inl ⟨f, later, rfl⟩

theorem of_fault {f : Fault} {later : List Arrival} {rest : Source} (h : left.Interspersed right)
    (harrivals : right.source.arrivals = .fault f :: later) (hrest : rest.arrivals = later) :
    left.Interspersed { right with source := rest } ∧
      right.faults = (right.offset, f) :: { right with source := rest }.faults := by
  subst hrest
  refine ⟨⟨h.offset_eq, h.intact, ?_, ?_⟩, ?_⟩
  · rw [← h.bytes_eq, ← Source.filterMap_arrivals, ← Source.filterMap_arrivals, harrivals]
    rfl
  · intro hpause
    exact h.pause_notMem (harrivals ▸ List.mem_cons_of_mem _ hpause)
  · rw [faults, harrivals]
    rfl

end Interspersed
end Cursor
end SoundLog
