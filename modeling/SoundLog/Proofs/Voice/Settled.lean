import Mathlib.Data.List.Destutter

/-!
# What settles in a history

A history lists what was seen, look by look. Something settles in it when the next look finds it
again, and so do the first and the last thing seen. Runs of equal entries collapse to one entry by
`List.destutter`, which is here taken apart at the end of the list, where a history grows.
-/

namespace SoundLog

variable {α : Type} [DecidableEq α]

/-! ## Settling -/

/-- The entry at the place is the first one or repeats the one before it. -/
def RestsAt (history : List α) (j : Nat) : Prop := j = 0 ∨ history[j]? = history[j - 1]?

instance (history : List α) : DecidablePred (RestsAt history) := fun j =>
  inferInstanceAs (Decidable (j = 0 ∨ history[j]? = history[j - 1]?))

/-- The entries of a history at the places with a property. -/
def entriesAt (history : List α) (p : Nat → Prop) [DecidablePred p] : List α :=
  ((List.range history.length).filter p).filterMap (history[·]?)

/-- The entries that have settled, whatever is seen next. -/
def rested (history : List α) : List α := entriesAt history (RestsAt history)

/-- The entries that have settled if nothing more is seen. -/
def settled (history : List α) : List α :=
  entriesAt history fun j => RestsAt history j ∨ j + 1 = history.length

variable {history : List α} {a b : α}

omit [DecidableEq α] in
theorem entriesAt_snoc {p q : Nat → Prop} [DecidablePred p] [DecidablePred q]
    (h : ∀ j < history.length, p j ↔ q j) :
    entriesAt (history ++ [a]) p = entriesAt history q ++ if p history.length then [a] else [] := by
  have hfront : ∀ j ∈ (List.range history.length).filter p, (history ++ [a])[j]? = history[j]? := by
    intro j hj
    have hlt := List.mem_range.mp (List.mem_of_mem_filter hj)
    exact List.getElem?_append_left hlt
  have hplaces : (List.range history.length).filter (fun j => decide (p j)) =
      (List.range history.length).filter (fun j => decide (q j)) := by
    refine List.filter_congr ?_
    intro j hj
    exact decide_eq_decide.mpr (h j (List.mem_range.mp hj))
  rw [entriesAt, List.length_append, List.length_singleton, List.range_succ, List.filter_append,
    List.filterMap_append, List.filterMap_congr hfront, hplaces, entriesAt]
  congr 1
  by_cases hp : p history.length <;> simp [hp]

omit [DecidableEq α] in
theorem restsAt_snoc {j : Nat} (hj : j < history.length) :
    RestsAt (history ++ [a]) j ↔ RestsAt history j := by
  unfold RestsAt
  rw [List.getElem?_append_left hj, List.getElem?_append_left (by omega)]

theorem settled_snoc : settled (history ++ [a]) = rested history ++ [a] := by
  have hlength : (history ++ [a]).length = history.length + 1 := List.length_append
  have hfront : ∀ j < history.length,
      (RestsAt (history ++ [a]) j ∨ j + 1 = (history ++ [a]).length) ↔ RestsAt history j := by
    intro j hj
    rw [restsAt_snoc hj]
    exact or_iff_left (by omega)
  rw [settled, entriesAt_snoc hfront, if_pos (Or.inr hlength.symm), rested]

theorem rested_snoc (h : history.getLast? = some b) :
    rested (history ++ [a]) = rested history ++ if a = b then [a] else [] := by
  have hpos : 0 < history.length := by
    rw [List.length_pos_iff]
    rintro rfl
    cases h
  have hplace : RestsAt (history ++ [a]) history.length ↔ a = b := by
    unfold RestsAt
    rw [List.getElem?_concat_length, List.getElem?_append_left (by omega),
      ← List.getLast?_eq_getElem?, h, Option.some.injEq]
    exact or_iff_right (by omega)
  rw [rested, entriesAt_snoc (fun j hj => restsAt_snoc hj), rested]
  simp only [hplace]

/-! ## Collapsing runs -/

/-- Adds an entry at the end, unless it is there already. -/
def collapse (kept : List α) (a : α) : List α :=
  if kept.getLast? = some a then kept else kept ++ [a]

@[simp] theorem getLast?_collapse (kept : List α) (a : α) :
    (collapse kept a).getLast? = some a := by
  unfold collapse
  split
  · assumption
  · exact List.getLast?_concat

@[simp] theorem collapse_collapse (kept : List α) (a : α) :
    collapse (collapse kept a) a = collapse kept a := by
  rw [collapse, if_pos (getLast?_collapse kept a)]

theorem mem_collapse {kept : List α} : b ∈ collapse kept a ↔ b ∈ kept ∨ b = a := by
  unfold collapse
  split
  · next h =>
    constructor
    · exact Or.inl
    · rintro (hb | rfl)
      · exact hb
      · exact List.mem_of_getLast? h
  · rw [List.mem_append, List.mem_singleton]

omit [DecidableEq α] in
theorem getLast?_cons_ne_nil {l : List α} (h : l ≠ []) : (b :: l).getLast? = l.getLast? := by
  cases l with
  | nil => exact absurd rfl h
  | cons c l => exact List.getLast?_cons_cons

theorem destutter_snoc (l : List α) (a : α) :
    (l ++ [a]).destutter (· ≠ ·) = collapse (l.destutter (· ≠ ·)) a := by
  cases l with
  | nil => rfl
  | cons b l =>
    rw [List.cons_append, List.destutter_cons', List.destutter_cons']
    induction l generalizing b with
    | nil =>
      rw [List.nil_append, List.destutter'_singleton, List.destutter'_nil, collapse]
      by_cases h : b = a <;> simp [h]
    | cons c l ih =>
      rw [List.cons_append, List.destutter'_cons, List.destutter'_cons]
      by_cases h : b = c
      · rw [if_neg (not_not_intro h), if_neg (not_not_intro h)]
        exact ih b
      · rw [if_pos h, if_pos h, ih c, collapse, collapse,
          getLast?_cons_ne_nil (List.destutter'_ne_nil l _)]
        split
        · rfl
        · rfl

theorem mem_destutter (l : List α) : b ∈ l.destutter (· ≠ ·) ↔ b ∈ l := by
  induction l using List.reverseRecOn with
  | nil => rfl
  | append_singleton l a ih => rw [destutter_snoc, mem_collapse, ih, List.mem_append,
      List.mem_singleton]

theorem getLast?_destutter (l : List α) : (l.destutter (· ≠ ·)).getLast? = l.getLast? := by
  induction l using List.reverseRecOn with
  | nil => rfl
  | append_singleton l a => rw [destutter_snoc, getLast?_collapse, List.getLast?_concat]

end SoundLog
