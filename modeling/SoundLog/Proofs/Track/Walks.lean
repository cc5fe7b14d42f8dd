import Mathlib.Data.List.Basic
import SoundLog.Proofs.Track.Calls

/-!
# Walks

A walk makes the calls of its track, up to and including the first that gives `eof` or a problem. It
yields what these calls give, but for the `eof`, and nothing from then on, and it leaves the track
where they have led. So a new walk on the same track goes on just behind a problem.
-/

namespace SoundLog
namespace Track

variable {track : Track}

/-! ## The calls of a walk -/

def Step.endsWalk (step : Step) : Bool :=
  match step.outcome with
  | .ok command => command = .eof
  | .error _ => true

/-- The steps up to and including the first that ends a walk. -/
def walked : List Step → List Step
  | [] => []
  | step :: steps => if step.endsWalk then [step] else step :: walked steps

def yielded (steps : List Step) : List Outcome :=
  (steps.map Step.outcome).filter (· ≠ .ok .eof)

/-- What so many items of a walk are to be: what its steps yield, and nothing behind that. -/
def walkItems (track : Track) (n : Nat) : List (Option Outcome) :=
  let outcomes := yielded (walked (track.calls n))
  outcomes.map some ++ List.replicate (n - outcomes.length) none

section

variable {step : Step} {steps : List Step} {command : Command} {d : Diagnostic}

theorem walked_of_eof (h : step.outcome = .ok .eof) : walked (step :: steps) = [step] :=
  if_pos (by simp [Step.endsWalk, h])

theorem walked_of_error (h : step.outcome = .error d) : walked (step :: steps) = [step] :=
  if_pos (by simp [Step.endsWalk, h])

theorem walked_of_command (h : step.outcome = .ok command) (hne : command ≠ .eof) :
    walked (step :: steps) = step :: walked steps :=
  if_neg (by simp [Step.endsWalk, h, hne])

theorem yielded_of_eof (h : step.outcome = .ok .eof) :
    yielded (step :: steps) = yielded steps := by
  rw [yielded, List.map_cons, List.filter_cons_of_neg (by simpa using h), yielded]

theorem yielded_of_ne (h : step.outcome ≠ .ok .eof) :
    yielded (step :: steps) = step.outcome :: yielded steps := by
  rw [yielded, List.map_cons, List.filter_cons_of_pos (by simpa using h), yielded]

end

theorem walkItems_of_eof (h : track.next.1 = .ok .eof) (n : Nat) :
    track.walkItems n = List.replicate n none := by
  cases n with
  | zero => rfl
  | succ n =>
    have hstep : track.step.outcome = .ok .eof := h
    rw [walkItems, calls, walked_of_eof hstep, yielded_of_eof hstep]
    rfl

theorem walkItems_of_error {d : Diagnostic} (h : track.next.1 = .error d) (n : Nat) :
    track.walkItems (n + 1) = some (.error d) :: List.replicate n none := by
  have hstep : track.step.outcome = .error d := h
  have hne : track.step.outcome ≠ .ok .eof := by
    rw [hstep]
    exact nofun
  rw [walkItems, calls, walked_of_error hstep, yielded_of_ne hne, hstep]
  rfl

theorem walkItems_of_command {command : Command} (h : track.next.1 = .ok command)
    (hne : command ≠ .eof) (n : Nat) :
    track.walkItems (n + 1) = some (.ok command) :: track.next.2.walkItems n := by
  have hstep : track.step.outcome = .ok command := h
  have hkept : track.step.outcome ≠ .ok .eof := by
    rw [hstep]
    exact fun heq => hne (Except.ok.inj heq)
  rw [walkItems, calls, walked_of_command hstep hne, yielded_of_ne hkept, hstep, List.length_cons,
    Nat.add_sub_add_right]
  rfl

/-! ## Walking -/

namespace Walk

def items (walk : Walk) : Nat → List (Option Outcome)
  | 0 => []
  | n + 1 => walk.next.1 :: walk.next.2.items n

def after (walk : Walk) : Nat → Walk
  | 0 => walk
  | n + 1 => walk.next.2.after n

/-- A walk that yields nothing and stays as it is does so for good. -/
theorem rests {walk : Walk} (h : walk.next = (none, walk)) (n : Nat) :
    walk.items n = List.replicate n none ∧ walk.after n = walk := by
  induction n with
  | zero => exact ⟨rfl, rfl⟩
  | succ n ih =>
    rw [items, after, h, ih.1, ih.2]
    exact ⟨rfl, rfl⟩

theorem next_of_failed (track : Track) : next ⟨track, true⟩ = (none, ⟨track, true⟩) := rfl

theorem next_of_eof (h : track.next.1 = .ok .eof) :
    next ⟨track, false⟩ = (none, ⟨track.next.2, false⟩) := by
  simp [next, h]

theorem next_of_command {command : Command} (h : track.next.1 = .ok command)
    (hne : command ≠ .eof) :
    next ⟨track, false⟩ = (some (.ok command), ⟨track.next.2, false⟩) := by
  simp [next, h]

theorem next_of_error {d : Diagnostic} (h : track.next.1 = .error d) :
    next ⟨track, false⟩ = (some (.error d), ⟨track.next.2, true⟩) := by
  simp [next, h]

theorem next_of_finished (hfinished : track.finished = true) :
    next ⟨track, false⟩ = (none, ⟨track, false⟩) := by
  have hnext := Track.next_of_finished hfinished
  rw [next_of_eof (by rw [hnext]), hnext]

theorem items_eq (track : Track) (n : Nat) :
    items ⟨track, false⟩ n = track.walkItems n ∧
      (after ⟨track, false⟩ n).track = track.after (walked (track.calls n)).length := by
  induction n generalizing track with
  | zero => exact ⟨rfl, rfl⟩
  | succ n ih =>
    rw [items, after, calls]
    cases hnext : track.next.1 with
    | error d =>
      obtain ⟨hitems, hafter⟩ := rests (next_of_failed track.next.2) n
      rw [next_of_error hnext, hitems, hafter, walkItems_of_error hnext, walked_of_error hnext]
      exact ⟨rfl, rfl⟩
    | ok command =>
      by_cases hcommand : command = .eof
      · subst hcommand
        have hfinished : track.next.2.finished = true :=
          track.finished_next_iff.mpr (Or.inr (Or.inr hnext))
        obtain ⟨hitems, hafter⟩ := rests (next_of_finished hfinished) n
        rw [next_of_eof hnext, hitems, hafter, walkItems_of_eof hnext, walked_of_eof hnext]
        exact ⟨rfl, rfl⟩
      · obtain ⟨hitems, hafter⟩ := ih track.next.2
        rw [next_of_command hnext hcommand, hitems, hafter, walkItems_of_command hnext hcommand,
          walked_of_command hnext hcommand]
        exact ⟨rfl, rfl⟩

/-! ## Problems -/

/-- A problem is the last thing that a walk yields, and the call that meets it is its last. -/
theorem length_walked_of_problem {n i : Nat} {d : Diagnostic}
    (h : (track.walkItems n)[i]? = some (some (.error d))) :
    (track.after i).next.1 = .error d ∧ (walked (track.calls n)).length = i + 1 := by
  induction n generalizing track i with
  | zero => cases h
  | succ n ih =>
    rw [calls]
    cases hnext : track.next.1 with
    | error d' =>
      rw [walkItems_of_error hnext] at h
      cases i with
      | zero =>
        obtain rfl := Except.error.inj (Option.some.inj (Option.some.inj h))
        exact ⟨hnext, by rw [walked_of_error hnext]; rfl⟩
      | succ i =>
        rw [List.getElem?_cons_succ] at h
        cases List.eq_of_mem_replicate (List.mem_of_getElem? h)
    | ok command =>
      by_cases hcommand : command = .eof
      · subst hcommand
        rw [walkItems_of_eof hnext] at h
        cases List.eq_of_mem_replicate (List.mem_of_getElem? h)
      · rw [walkItems_of_command hnext hcommand] at h
        cases i with
        | zero => cases h
        | succ i =>
          obtain ⟨herror, hlength⟩ := ih h
          rw [walked_of_command hnext hcommand, List.length_cons]
          exact ⟨herror, congrArg (· + 1) hlength⟩

/-- A walk yields what the calls of its track give, up to the first `eof` or with the first problem,
and nothing behind that. It leaves the track just where these calls have led, with the call that
gives `eof` if there is one. It never yields `eof` itself, and behind a problem another walk goes on
with the call that follows. -/
theorem walk_makes_calls (track : Track) (n : Nat) :
    let walk : Walk := { track }
    let made := walked (track.calls n)
    walk.items n =
        (yielded made).map some ++ List.replicate (n - (yielded made).length) none ∧
      (walk.after n).track = track.after made.length ∧
      some (.ok .eof) ∉ walk.items n ∧
      ∀ i d, (walk.items n)[i]? = some (some (.error d)) →
        (track.after i).next.1 = .error d ∧ (walk.after n).track = track.after (i + 1) ∧
          ∀ m, items { track := (walk.after n).track } m = (track.after (i + 1)).walkItems m := by
  intro walk made
  obtain ⟨hitems, hafter⟩ := items_eq track n
  refine ⟨hitems, hafter, ?_, ?_⟩
  · intro heof
    rw [hitems, walkItems] at heof
    rcases List.mem_append.mp heof with hyielded | hnothing
    · obtain ⟨outcome, hmem, houtcome⟩ := List.mem_map.mp hyielded
      obtain rfl := Option.some.inj houtcome
      exact of_decide_eq_true (List.mem_filter.mp hmem).2 rfl
    · cases List.eq_of_mem_replicate hnothing
  · intro i d hproblem
    rw [hitems] at hproblem
    obtain ⟨herror, hlength⟩ := length_walked_of_problem hproblem
    rw [hlength] at hafter
    refine ⟨herror, hafter, ?_⟩
    intro m
    rw [hafter]
    exact (items_eq _ m).1

end Walk
end Track
end SoundLog
