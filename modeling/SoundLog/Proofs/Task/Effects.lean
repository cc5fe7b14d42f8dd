import SoundLog.Proofs.Volume.Writing
import SoundLog.Task

/-!
# What becomes of a volume

Notes and lines of output do nothing to a volume and never fail. So what a list of actions leaves
behind, and what it fails with, is told by those of its actions that touch the volume.
-/

namespace SoundLog

namespace Action

/-- Whether the action creates or writes something on a volume. -/
def touches : Action → Bool
  | note _ => false
  | print _ => false
  | makeDirectory _ => true
  | save _ _ => true

theorem effect_of_not_touches {action : Action} (h : action.touches = false) (volume : Volume) :
    action.effect volume = .ok volume := by
  cases action with
  | note event => rfl
  | print line => rfl
  | makeDirectory path => cases h
  | save path text => cases h

theorem touches_of_mem_notes (events : List Log.Event) :
    ∀ action ∈ events.map note, action.touches = false := by
  intro action haction
  obtain ⟨event, -, rfl⟩ := List.mem_map.mp haction
  rfl

theorem touches_of_mem_prints (lines : List String) :
    ∀ action ∈ lines.map print, action.touches = false := by
  intro action haction
  obtain ⟨line, -, rfl⟩ := List.mem_map.mp haction
  rfl

theorem effect_makeDirectory {path : String} {volume changed : Volume}
    (h : volume.makeDirectory path = .ok changed) :
    (makeDirectory path).effect volume = .ok changed := by
  rw [effect, h]
  rfl

@[simp] theorem filter_touches_notes (events : List Log.Event) :
    (events.map note).filter touches = [] := by
  rw [List.filter_eq_nil_iff]
  intro action haction
  rw [touches_of_mem_notes events action haction]
  exact Bool.false_ne_true

end Action

namespace Record

section

variable {action : Action} {rest : List Action} {volume changed : Volume}

theorem ofActions_cons_ok (h : action.effect volume = .ok changed) :
    ofActions (action :: rest) volume =
      { ofActions rest changed with done := action :: (ofActions rest changed).done } := by
  simp only [ofActions, h]

theorem ofActions_cons_error {trouble : Trouble} (h : action.effect volume = .error trouble) :
    ofActions (action :: rest) volume = ⟨[], volume, some trouble⟩ := by
  simp only [ofActions, h]

end

/-- The record of what has touched the volume. -/
def touching (record : Record) : Record :=
  { record with done := record.done.filter Action.touches }

@[simp] theorem touching_done (record : Record) :
    record.touching.done = record.done.filter Action.touches := rfl

@[simp] theorem touching_volume (record : Record) : record.touching.volume = record.volume := rfl

@[simp] theorem touching_trouble (record : Record) : record.touching.trouble = record.trouble := rfl

theorem ofActions_filter (actions : List Action) (volume : Volume) :
    ofActions (actions.filter Action.touches) volume = (ofActions actions volume).touching := by
  induction actions generalizing volume with
  | nil => rfl
  | cons action actions ih =>
    cases htouches : action.touches with
    | true =>
      rw [List.filter_cons_of_pos htouches]
      cases heffect : action.effect volume with
      | error trouble =>
        rw [ofActions_cons_error heffect, ofActions_cons_error heffect]
        rfl
      | ok changed =>
        rw [ofActions_cons_ok heffect, ofActions_cons_ok heffect, ih]
        simp only [touching, List.filter_cons_of_pos htouches]
    | false =>
      have hskip : ¬ action.touches = true := Bool.eq_false_iff.mp htouches
      rw [List.filter_cons_of_neg hskip, ih,
        ofActions_cons_ok (Action.effect_of_not_touches htouches volume)]
      simp only [touching, List.filter_cons_of_neg hskip]

theorem done_of_trouble_eq_none {actions : List Action} {volume : Volume}
    (h : (ofActions actions volume).trouble = none) : (ofActions actions volume).done = actions := by
  induction actions generalizing volume with
  | nil => rfl
  | cons action actions ih =>
    cases heffect : action.effect volume with
    | error trouble =>
      rw [ofActions_cons_error heffect] at h
      cases h
    | ok changed =>
      rw [ofActions_cons_ok heffect] at h ⊢
      exact congrArg (action :: ·) (ih h)

theorem ofActions_saves {files : List (String × String)} {volume final : Volume}
    (h : volume.writeAll (files.map fun file => (file.1, file.2.toUTF8.toList)) = .ok final) :
    ofActions (files.map fun file => .save file.1 file.2) volume =
      ⟨files.map fun file => .save file.1 file.2, final, none⟩ := by
  induction files generalizing volume with
  | nil =>
    obtain rfl := Except.ok.inj h
    rfl
  | cons file files ih =>
    obtain ⟨changed, hwrite, hrest⟩ := Volume.exists_write h
    have heffect : (Action.save file.1 file.2).effect volume = .ok changed := by
      rw [Action.effect, hwrite]
      rfl
    rw [List.map_cons, ofActions_cons_ok heffect, ih hrest]

/-! ## One after another -/

def idle (volume : Volume) : Record := ⟨[], volume, none⟩

/-- Carries out more actions, unless one has failed. -/
def carryOut (record : Record) (actions : List Action) : Record :=
  match record.trouble with
  | some _ => record
  | none =>
    let later := ofActions actions record.volume
    { later with done := record.done ++ later.done }

section

variable {record : Record} {action : Action}

theorem idle_carryOut (volume : Volume) (actions : List Action) :
    (idle volume).carryOut actions = ofActions actions volume := rfl

theorem carryOut_of_trouble (h : record.trouble ≠ none) (actions : List Action) :
    record.carryOut actions = record := by
  obtain ⟨trouble, htrouble⟩ := Option.ne_none_iff_exists'.mp h
  simp only [carryOut, htrouble]

theorem trouble_of_carryOut {actions : List Action}
    (h : (record.carryOut actions).trouble = none) : record.trouble = none := by
  by_cases htrouble : record.trouble = none
  · exact htrouble
  · rwa [carryOut_of_trouble htrouble] at h

theorem carryOut_nil (record : Record) : record.carryOut [] = record := by
  obtain ⟨done, volume, trouble⟩ := record
  cases trouble with
  | none => simp only [carryOut, ofActions, List.append_nil]
  | some trouble => rfl

theorem carryOut_cons_ok {changed : Volume} (htrouble : record.trouble = none)
    (h : action.effect record.volume = .ok changed) (rest : List Action) :
    record.carryOut (action :: rest) =
      (⟨record.done ++ [action], changed, none⟩ : Record).carryOut rest := by
  simp only [carryOut, htrouble, ofActions_cons_ok h, List.append_assoc, List.singleton_append]

theorem carryOut_cons_error {trouble : Trouble} (htrouble : record.trouble = none)
    (h : action.effect record.volume = .error trouble) (rest : List Action) :
    record.carryOut (action :: rest) = ⟨record.done, record.volume, some trouble⟩ := by
  simp only [carryOut, htrouble, ofActions_cons_error h, List.append_nil]

theorem carryOut_append (record : Record) (front back : List Action) :
    record.carryOut (front ++ back) = (record.carryOut front).carryOut back := by
  induction front generalizing record with
  | nil => rw [carryOut_nil, List.nil_append]
  | cons action front ih =>
    by_cases htrouble : record.trouble = none
    · rw [List.cons_append]
      cases heffect : action.effect record.volume with
      | error trouble =>
        have hfailed : (⟨record.done, record.volume, some trouble⟩ : Record).trouble ≠ none :=
          Option.some_ne_none _
        rw [carryOut_cons_error htrouble heffect, carryOut_cons_error htrouble heffect,
          carryOut_of_trouble hfailed]
      | ok changed =>
        rw [carryOut_cons_ok htrouble heffect, carryOut_cons_ok htrouble heffect, ih]
    · rw [carryOut_of_trouble htrouble, carryOut_of_trouble htrouble, carryOut_of_trouble htrouble]

theorem trouble_carryOut {actions : List Action} (h : ∀ action ∈ actions, action.touches = false)
    (record : Record) : (record.carryOut actions).trouble = record.trouble := by
  induction actions generalizing record with
  | nil => rw [carryOut_nil]
  | cons action actions ih =>
    rw [List.forall_mem_cons] at h
    by_cases htrouble : record.trouble = none
    · rw [carryOut_cons_ok htrouble (Action.effect_of_not_touches h.1 _), ih h.2, htrouble]
    · rw [carryOut_of_trouble htrouble]

end

end Record

theorem Task.outcome_of_trouble_eq_none {α : Type} {task : Task α} {volume : Volume}
    (h : (task.record volume).trouble = none) : task.outcome volume = task.result := by
  rw [outcome, h]

theorem Task.outcome_of_trouble_eq_some {α : Type} {task : Task α} {volume : Volume}
    {trouble : Trouble} (h : (task.record volume).trouble = some trouble) :
    task.outcome volume = .error trouble := by
  rw [outcome, h]

end SoundLog
