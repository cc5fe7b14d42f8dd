import SoundLog.Proofs.Stream.Faults
import SoundLog.Proofs.Track.Accounting
import SoundLog.Proofs.Track.Ending

/-!
# Calls that meet faults

A track asks for a tag where a call starts and behind every reserved opcode. A fault that comes in
such a place makes the call fail and does no other harm. The opcodes that the call has passed stay
passed, and the next call goes on at the same place.
-/

namespace SoundLog

/-! ## Passing reserved opcodes -/

namespace Command

/-- Decoding passes one reserved opcode and asks for another tag behind it. -/
inductive Passes (wide : Bool) (cursor after : Cursor) : Prop
  | opcode {tag : UInt8} {length : Nat} {afterTag : Cursor}
    (hbyte : Decoder.byte cursor = .ok tag afterTag)
    (hreserved : reservedLength? wide tag = some length)
    (hskip : Decoder.skip length afterTag = .ok () after)

namespace Passes

variable {wide : Bool} {cursor after other : Cursor}

theorem unique (h : Passes wide cursor after) (h' : Passes wide cursor other) : after = other := by
  obtain ⟨hbyte, hreserved, hskip⟩ := h
  obtain ⟨hbyte', hreserved', hskip'⟩ := h'
  obtain ⟨rfl, rfl⟩ := EStateM.Result.ok.inj (hbyte.symm.trans hbyte')
  obtain rfl := Option.some.inj (hreserved.symm.trans hreserved')
  exact (EStateM.Result.ok.inj (hskip.symm.trans hskip')).2

theorem decode_eq (h : Passes wide cursor after) : decode wide cursor = decode wide after := by
  obtain ⟨hbyte, hreserved, hskip⟩ := h
  exact decode_of_skip hbyte hreserved hskip

theorem advances (h : Passes wide cursor after) : Cursor.Advances cursor after := by
  obtain @⟨tag, length, afterTag, hbyte, -, hskip⟩ := h
  have htag := byte_moves cursor
  have hlength := skip_moves length afterTag
  rw [hbyte] at htag
  rw [hskip] at hlength
  exact htag.trans hlength

theorem size_lt (h : Passes wide cursor after) : after.source.size < cursor.source.size := by
  obtain ⟨hbyte, -, hskip⟩ := h
  have htag := size_of_byte hbyte
  have hlength := size_of_skip hskip
  omega

theorem takes (h : Passes wide cursor after) (hintact : cursor.source.Intact) :
    ∃ taken, cursor.Takes taken after := by
  obtain @⟨tag, length, afterTag, hbyte, -, hskip⟩ := h
  obtain ⟨front, -, -, hfront⟩ := byte_reads.takes_of_ok hintact hbyte
  obtain ⟨skipped, -, -, hskipped⟩ := (skip_reads length).takes_of_ok hfront.intact hskip
  exact ⟨front ++ skipped, hfront.trans hskipped⟩

/-- Every source that begins with the opcode lets it pass. -/
theorem beside (h : Passes wide cursor after) :
    ∃ used : List Arrival, cursor.source.arrivals = used ++ after.source.arrivals ∧
      ∀ other later, Cursor.Beside (used ++ later) cursor other →
        ∃ last, Passes wide other last ∧ Cursor.Beside later after last := by
  obtain @⟨tag, length, afterTag, hbyte, hreserved, hskip⟩ := h
  obtain ⟨front, hfront⟩ := (byte_footprint cursor).exists_taken hbyte
  obtain ⟨skipped, hskipped⟩ := (skip_footprint length afterTag).exists_taken hskip
  refine ⟨front.map .byte ++ skipped.map .byte, ?_, ?_⟩
  · rw [List.append_assoc, ← hskipped.arrivals_of_ok hskip]
    exact hfront.arrivals_of_ok hbyte
  · intro other later hother
    rw [List.append_assoc] at hother
    obtain ⟨middle, hbyte', hmiddle⟩ := hfront.exists_ok hbyte hother
    obtain ⟨last, hskip', hlast⟩ := hskipped.exists_ok hskip hmiddle
    exact ⟨last, .opcode hbyte' hreserved hskip', hlast⟩

end Passes
end Command

namespace Track

open Command

/-! ## Places where a tag is asked for -/

/-- Called again and again, the track comes to ask for a tag at the place. It does so where a call
starts and behind every reserved opcode, until it has finished. -/
inductive AsksTagAt : Track → Nat → Prop
  | here {track : Track} (hunfinished : track.finished = false) : AsksTagAt track track.offset
  | behindOpcode {track : Track} {after : Cursor} {place : Nat}
    (hpasses : Passes track.header.hasWideReserved track.cursor after)
    (h : AsksTagAt { track with cursor := after } place) : AsksTagAt track place
  | later {track : Track} {place : Nat} (h : AsksTagAt track.next.2 place) : AsksTagAt track place

/-- The call goes on behind the opcode as it would have begun there. -/
theorem next_of_passes {track : Track} {after : Cursor} (hunfinished : track.finished = false)
    (h : Passes track.header.hasWideReserved track.cursor after) :
    ({ track with cursor := after } : Track).next = track.next := by
  unfold next
  simp only [hunfinished, h.decode_eq, Bool.false_eq_true, if_false]

namespace AsksTagAt

variable {track : Track} {place : Nat}

theorem unfinished (h : track.AsksTagAt place) : track.finished = false := by
  induction h with
  | here hunfinished => exact hunfinished
  | behindOpcode _ _ ih => exact ih
  | @later track place _ ih =>
    rw [Bool.eq_false_iff] at ih ⊢
    exact fun hfinished => ih (track.finished_next_iff.mpr (Or.inl hfinished))

theorem offset_le (h : track.AsksTagAt place) : track.offset ≤ place := by
  induction h with
  | here => exact Nat.le_refl _
  | behindOpcode hpasses _ ih => exact Nat.le_trans hpasses.advances.offset_le ih
  | @later track place _ ih => exact Nat.le_trans track.next_advances.offset_le ih

/-- In front of an opcode a tag is asked for at once, or else behind the opcode. -/
theorem behind_opcode {after : Cursor} (h : track.AsksTagAt place)
    (hpasses : Passes track.header.hasWideReserved track.cursor after) :
    place = track.offset ∨ AsksTagAt { track with cursor := after } place := by
  have hunfinished := h.unfinished
  cases h with
  | here => exact Or.inl rfl
  | behindOpcode hpasses' h =>
    rw [hpasses.unique hpasses']
    exact Or.inr h
  | later h =>
    rw [← next_of_passes hunfinished hpasses] at h
    exact Or.inr (.later h)

/-- In front of anything else a tag is asked for at once, or else after the call. -/
theorem behind_call (h : track.AsksTagAt place)
    (hpasses : ¬ ∃ after, Passes track.header.hasWideReserved track.cursor after) :
    place = track.offset ∨ track.next.2.AsksTagAt place := by
  cases h with
  | here => exact Or.inl rfl
  | behindOpcode hpasses' => exact absurd ⟨_, hpasses'⟩ hpasses
  | later h => exact Or.inr h

theorem eq_nil_of_finished {faults : List (Nat × Fault)}
    (h : ∀ item ∈ faults, track.AsksTagAt item.1) (hfinished : track.finished = true) :
    faults = [] := by
  apply List.eq_nil_iff_forall_not_mem.mpr
  intro item hitem
  have hunfinished := (h item hitem).unfinished
  rw [hfinished] at hunfinished
  cases hunfinished

end AsksTagAt

/-! ## Calls that meet a fault -/

def Step.meetsFault (step : Step) : Bool :=
  match step.outcome with
  | .ok _ => false
  | .error d =>
    match d.problem.cause with
    | some (.fault _) => true
    | _ => false

section

variable {step : Step}

theorem Step.meetsFault_of_ok {command : Command} (h : step.outcome = .ok command) :
    step.meetsFault = false := by simp only [meetsFault, h]

theorem Step.meetsFault_of_error {d : Diagnostic} (h : step.outcome = .error d)
    (hcause : d.problem.cause = none) : step.meetsFault = false := by
  simp only [meetsFault, h, hcause]

end

/-- What is seen of a call that fails for a fault: a diagnostic of the place, with the fault as its
cause, from a track that stands at the place and has not finished. -/
def faultSeen (path : Option String) (item : Nat × Fault) : Outcome × Nat × Bool :=
  (.error ⟨item.1, path, .unreadable (.fault item.2)⟩, item.1, false)

theorem meetsFault_step {track : Track} (hintact : track.cursor.source.Intact) :
    track.step.meetsFault = false := by
  cases hfinished : track.finished with
  | true =>
    have houtcome : track.step.outcome = .ok .eof := by rw [step, next_of_finished hfinished]
    exact Step.meetsFault_of_ok houtcome
  | false =>
    rcases next_cases hintact hfinished with
      ⟨_, _, _, houtcome, -, -⟩ | ⟨_, _, houtcome, -, -, -⟩ | ⟨_, _, _, houtcome, -, hcause, -, -⟩
    · exact Step.meetsFault_of_ok houtcome
    · exact Step.meetsFault_of_ok houtcome
    · exact Step.meetsFault_of_error houtcome hcause

/-! ## A track with faults -/

/-- The right track has the same bytes to come, with faults between them, each where the left track
asks for a tag. -/
structure Disturbed (left right : Track) : Prop where
  path_eq : right.path = left.path
  header_eq : right.header = left.header
  finished_eq : right.finished = left.finished
  cursor : left.cursor.Interspersed right.cursor
  asked : ∀ item ∈ right.cursor.faults,
    item.2.kind ≠ .unexpectedEof ∧ left.AsksTagAt item.1

/-- What a call of the right track does. It meets the next fault, and then the left track may be
taken for one that has passed some opcodes of its next call. Or it does what the left track does. -/
inductive Meets (left right : Track) : Prop
  | fault (item : Nat × Fault) (behind : Track)
    (hfaults : right.cursor.faults = item :: right.next.2.cursor.faults)
    (hseen : right.step.seen = faultSeen right.path item)
    (hnext : behind.next = left.next) (hfinished : behind.finished = left.finished)
    (h : Disturbed behind right.next.2)
  | call (hfaults : right.next.2.cursor.faults = right.cursor.faults)
    (hseen : right.step.seen = left.step.seen) (h : Disturbed left.next.2 right.next.2)

theorem seen_of_next_eq {track other : Track} (h : other.next = track.next) :
    other.step.seen = track.step.seen := by
  simp only [Step.seen, step, h]

namespace Disturbed

variable {left right : Track}

theorem faults_of_finished (h : Disturbed left right) (hfinished : left.finished = true) :
    right.cursor.faults = [] :=
  AsksTagAt.eq_nil_of_finished (fun item hitem => (h.asked item hitem).2) hfinished

theorem meets_of_finished (h : Disturbed left right) (hfinished : left.finished = true) :
    Meets left right := by
  have hnext := next_of_finished hfinished
  have hnext' := next_of_finished (h.finished_eq.trans hfinished)
  refine .call (by rw [hnext']) ?_ ?_
  · simp only [Step.seen, step, hnext, hnext', offset, h.cursor.offset_eq, h.finished_eq]
  · rw [hnext, hnext']
    exact h

/-- A fault in front makes the call fail where it is. -/
theorem meets_fault (h : Disturbed left right) {f : Fault} {later : List Arrival}
    (harrivals : right.cursor.source.arrivals = .fault f :: later) : Meets left right := by
  obtain ⟨rest, hpull, hrest⟩ := Source.exists_pull_fault harrivals
  obtain ⟨hcursor, hfaults⟩ := h.cursor.of_fault harrivals hrest
  obtain ⟨hkind, hasks⟩ := h.asked (right.offset, f) (hfaults ▸ List.mem_cons_self)
  have hunfinished : right.finished = false := h.finished_eq.trans hasks.unfinished
  have hbyte : Decoder.byte right.cursor =
      .error (.unreadable (.fault f)) { right.cursor with source := rest } := by
    simp only [Decoder.byte, Decoder.ofReader, EStateM.adaptExcept, Reader.byte, hpull]
  have hproblem : ¬ (Problem.unreadable (.fault f)).endsCommands = true :=
    fun hends => hkind (of_decide_eq_true hends)
  have hnext := next_of_problem hunfinished (decode_of_byte_error hbyte) hproblem
  refine .fault (right.offset, f) left (by rw [hnext]; exact hfaults) ?_ rfl rfl ?_
  · simp only [Step.seen, step, hnext, hunfinished]
    rfl
  · rw [hnext]
    refine ⟨h.path_eq, h.header_eq, h.finished_eq, hcursor, ?_⟩
    intro item hitem
    exact h.asked item (hfaults ▸ List.mem_cons_of_mem _ hitem)

theorem place_ne (h : Disturbed left right)
    (hfront : ∀ item ∈ right.cursor.faults, right.cursor.offset < item.1) {item : Nat × Fault}
    (hitem : item ∈ right.cursor.faults) : item.1 ≠ left.offset := by
  have hplace := hfront item hitem
  rw [h.cursor.offset_eq] at hplace
  exact Nat.ne_of_gt hplace

/-- An opcode in front of all faults passes on both tracks. -/
theorem pass (h : Disturbed left right) {after : Cursor}
    (hfront : ∀ item ∈ right.cursor.faults, right.cursor.offset < item.1)
    (hpasses : Passes left.header.hasWideReserved left.cursor after) :
    ∃ last, Passes right.header.hasWideReserved right.cursor last ∧
      last.faults = right.cursor.faults ∧
      Disturbed { left with cursor := after } { right with cursor := last } := by
  have hasks : ∀ item ∈ right.cursor.faults,
      AsksTagAt { left with cursor := after } item.1 := by
    intro item hitem
    have hasked := (h.asked item hitem).2.behind_opcode hpasses
    exact hasked.resolve_left (h.place_ne hfront hitem)
  obtain ⟨taken, htakes⟩ := hpasses.takes h.cursor.intact
  obtain ⟨later, hbeside, hbehind⟩ :=
    h.cursor.exists_later htakes fun item hitem => (hasks item hitem).offset_le
  obtain ⟨used, harrivals, hagain⟩ := hpasses.beside
  obtain rfl := htakes.used_eq h.cursor.intact harrivals
  obtain ⟨last, hpasses', hlast⟩ := hagain _ _ hbeside
  obtain ⟨hcursor, hfaults⟩ := hbehind last hlast
  refine ⟨last, h.header_eq ▸ hpasses', hfaults, h.path_eq, h.header_eq, h.finished_eq, hcursor, ?_⟩
  intro item hitem
  have hitem : item ∈ right.cursor.faults := hfaults ▸ hitem
  exact ⟨(h.asked item hitem).1, hasks item hitem⟩

/-- A call that passes no opcode in front of all faults is the same on both tracks. -/
theorem meets_call (h : Disturbed left right)
    (hfront : ∀ item ∈ right.cursor.faults, right.cursor.offset < item.1)
    (hpasses : ¬ ∃ after, Passes left.header.hasWideReserved left.cursor after) :
    Meets left right := by
  have hasks : ∀ item ∈ right.cursor.faults, left.next.2.AsksTagAt item.1 := by
    intro item hitem
    have hasked := (h.asked item hitem).2.behind_call hpasses
    exact hasked.resolve_left (h.place_ne hfront hitem)
  obtain ⟨taken, htakes⟩ := next_takes h.cursor.intact
  by_cases heof : left.next.1 = .ok .eof
  · -- behind the end no tag is asked for, so there is no fault
    have hfinished : left.next.2.finished = true :=
      left.finished_next_iff.mpr (Or.inr (Or.inr heof))
    have hnone : right.cursor.faults = [] := AsksTagAt.eq_nil_of_finished hasks hfinished
    have halike : left.Alike right :=
      ⟨h.path_eq.symm, h.header_eq.symm, h.cursor.alike hnone, h.finished_eq.symm⟩
    obtain ⟨-, hafter⟩ := next_alike halike
    obtain ⟨hcursor, hnone'⟩ := Cursor.Interspersed.of_alike htakes.intact hafter.cursor
    refine .call (hnone'.trans hnone.symm) (seen_alike halike).symm ?_
    refine ⟨hafter.path_eq.symm, hafter.header_eq.symm, hafter.finished_eq.symm, hcursor, ?_⟩
    rw [hnone']
    exact fun item hitem => nomatch hitem
  · obtain ⟨later, hbeside, hbehind⟩ :=
      h.cursor.exists_later htakes fun item hitem => (hasks item hitem).offset_le
    obtain ⟨used, harrivals, hagain⟩ := next_beside heof
    obtain rfl := htakes.used_eq h.cursor.intact harrivals
    obtain ⟨houtcome, hafter⟩ :=
      hagain right later ⟨h.path_eq, h.header_eq, hbeside, h.finished_eq⟩
    obtain ⟨hcursor, hfaults⟩ := hbehind _ hafter.cursor
    refine .call hfaults (seen_next houtcome hafter) ?_
    refine ⟨hafter.path_eq, hafter.header_eq, hafter.finished_eq, hcursor, ?_⟩
    intro item hitem
    have hitem : item ∈ right.cursor.faults := hfaults ▸ hitem
    exact ⟨(h.asked item hitem).1, hasks item hitem⟩

/-- A call of the right track meets a fault or does what the left track does. -/
theorem meets (h : Disturbed left right) : Meets left right := by
  -- along the opcodes in front of the next fault
  induction hsize : left.cursor.source.size using Nat.strongRecOn generalizing left right with
  | ind size ih =>
    cases hfinished : left.finished with
    | true => exact h.meets_of_finished hfinished
    | false =>
      rcases h.cursor.front_cases with ⟨f, later, harrivals⟩ | hfront
      · exact h.meets_fault harrivals
      · by_cases hpasses : ∃ after, Passes left.header.hasWideReserved left.cursor after
        · obtain ⟨after, hpasses⟩ := hpasses
          obtain ⟨last, hpasses', hfaults, hbehind⟩ := h.pass hfront hpasses
          have hnext := next_of_passes hfinished hpasses
          have hnext' := next_of_passes (h.finished_eq.trans hfinished) hpasses'
          have hseen := seen_of_next_eq hnext
          have hseen' := seen_of_next_eq hnext'
          cases ih _ (hsize ▸ hpasses.size_lt) hbehind rfl with
          | fault item behind hitem hfault hbefore hunfinished hrest =>
            rw [hnext'] at hitem hrest
            exact .fault item behind (hfaults ▸ hitem) (hseen' ▸ hfault) (hbefore.trans hnext)
              hunfinished hrest
          | call hlater hcall hrest =>
            rw [hnext'] at hlater hrest
            rw [hnext] at hrest
            exact .call (hlater.trans hfaults) (hseen'.symm.trans (hcall.trans hseen)) hrest
        · exact h.meets_call hfront hpasses

end Disturbed

end Track
end SoundLog
