import SoundLog.Proofs.Command.RoundTrip
import SoundLog.Proofs.Track.Calls

/-!
# Reading back what was laid out

A layout is a way to store a list of commands, with reserved opcodes in any places. However the
source cuts its bytes, the calls of a track yield just these commands, and then `eof` for ever.
-/

namespace SoundLog
namespace Command

def Segment.join {version : UInt32} (segments : List (Segment version)) : List UInt8 :=
  segments.flatMap bytes

/-- Segments and what follows them. Only opcodes do, unless the last segment ends the sound data. -/
structure Layout (version : UInt32) where
  segments : List (Segment version)
  rest : List UInt8
  endsLast : ∀ segment ∈ segments.dropLast, segment.command ≠ .endOfSoundData
  rest_eq : (segments.getLast?.map Segment.command = some .endOfSoundData) ∨
    ∃ opcodes : List (Opcode version), rest = Opcode.join opcodes

namespace Layout

variable {version : UInt32}

def bytes (layout : Layout version) : List UInt8 := Segment.join layout.segments ++ layout.rest

/-- The commands in order. -/
def commands (layout : Layout version) : List Command := layout.segments.map Segment.command

/-- The number of bytes down to the end of the first `n` commands. -/
def place (layout : Layout version) (n : Nat) : Nat :=
  (Segment.join (layout.segments.take n)).length

/-- A layout is at its end, or it is one command that ends the sound data, or it begins with another
command and goes on as a layout. -/
theorem induct {motive : Layout version → Prop}
    (opcodes : ∀ (layout : Layout version) (opcodes : List (Opcode version)),
      layout.segments = [] → layout.rest = Opcode.join opcodes → motive layout)
    (last : ∀ (layout : Layout version) (segment : Segment version),
      layout.segments = [segment] → segment.command = .endOfSoundData → motive layout)
    (first : ∀ (layout : Layout version) (segment : Segment version) (tail : Layout version),
      layout.segments = segment :: tail.segments → layout.rest = tail.rest →
        segment.command ≠ .endOfSoundData → motive tail → motive layout)
    (layout : Layout version) : motive layout := by
  obtain ⟨segments, rest, hends, hrest⟩ := layout
  induction segments with
  | nil =>
    obtain ⟨others, hothers⟩ := hrest.resolve_left (by simp)
    exact opcodes _ others rfl hothers
  | cons segment more ih =>
    by_cases hlast : segment.command = .endOfSoundData
    · cases more with
      | nil => exact last _ segment rfl hlast
      | cons second more => exact absurd hlast (hends segment List.mem_cons_self)
    · have hendsTail : ∀ other ∈ more.dropLast, other.command ≠ .endOfSoundData := by
        intro other hother
        refine hends other ?_
        rw [List.dropLast_cons_of_ne_nil (by rintro rfl; cases hother)]
        exact List.mem_cons_of_mem _ hother
      have hrestTail : more.getLast?.map Segment.command = some .endOfSoundData ∨
          ∃ opcodes : List (Opcode version), rest = Opcode.join opcodes := by
        refine hrest.imp_left ?_
        intro heq
        cases more with
        | nil => exact absurd (Option.some.inj heq) hlast
        | cons second more => rwa [List.getLast?_cons_cons] at heq
      have htail := ih hendsTail hrestTail
      exact first _ segment ⟨more, rest, hendsTail, hrestTail⟩ rfl rfl hlast htail

variable {layout : Layout version} {segment : Segment version} {more : List (Segment version)}

theorem bytes_of_segments (h : layout.segments = segment :: more) :
    layout.bytes = segment.bytes ++ (Segment.join more ++ layout.rest) := by
  rw [bytes, h, ← List.append_assoc]
  rfl

theorem commands_of_segments (h : layout.segments = segment :: more) :
    layout.commands = segment.command :: more.map Segment.command := by
  rw [commands, h, List.map_cons]

theorem place_of_segments (h : layout.segments = segment :: more) (n : Nat) :
    layout.place (n + 1) = segment.bytes.length + (Segment.join (more.take n)).length := by
  rw [place, h, List.take_succ_cons, ← List.length_append]
  rfl

end Layout
end Command

namespace Track

open Command

/-- The track has not finished and has just these bytes ahead. -/
structure Ahead (track : Track) (header : Header) (bytes : List UInt8) : Prop where
  header_eq : track.header = header
  unfinished : track.finished = false
  intact : track.cursor.source.Intact
  bytes_eq : track.cursor.source.bytes = bytes

variable {header : Header} {track : Track}

theorem calls_segment (segment : Segment header.version) {rest : List UInt8}
    (h : track.Ahead header (segment.bytes ++ rest)) :
    ∃ later : Track, (segment.command = .endOfSoundData → later.finished = true) ∧
      (segment.command ≠ .endOfSoundData → later.Ahead header rest) ∧
      later.offset = track.offset + segment.bytes.length ∧
      ∀ n, track.calls (n + 1) = ⟨track, .ok segment.command, later⟩ :: later.calls n := by
  obtain ⟨rfl, hunfinished, hintact, hbytes⟩ := h
  obtain ⟨cursor, hdecode, htakes, hleft⟩ := decode_segment segment hintact hbytes
  let later : Track := { track with cursor, finished := segment.command = .endOfSoundData }
  refine ⟨later, decide_eq_true, ?_, htakes.offset_eq, ?_⟩
  · intro hother
    exact ⟨rfl, decide_eq_false hother, htakes.intact, hleft⟩
  · intro n
    rw [calls, step, next_of_ok hunfinished hdecode]

theorem outcomes_of_finished (hfinished : track.finished = true) (n : Nat) :
    (track.calls n).map Step.outcome = List.replicate n (.ok .eof) := by
  rw [calls_of_finished hfinished, List.map_replicate]

theorem outcomes_of_opcodes (opcodes : List (Opcode header.version))
    (h : track.Ahead header (Opcode.join opcodes)) (n : Nat) :
    (track.calls n).map Step.outcome = List.replicate n (.ok .eof) := by
  obtain ⟨rfl, hunfinished, hintact, hbytes⟩ := h
  cases n with
  | zero => rfl
  | succ n =>
    obtain ⟨problem, after, hdecode, hproblem⟩ := decode_exhausted opcodes hintact hbytes
    rw [calls, step, next_of_exhausted hunfinished hdecode hproblem, List.map_cons,
      List.replicate_succ, outcomes_of_finished rfl]

theorem outcomes_of_layout (layout : Layout header.version) (h : track.Ahead header layout.bytes)
    (extra : Nat) :
    (track.calls (layout.commands.length + extra)).map Step.outcome =
      layout.commands.map Except.ok ++ List.replicate extra (.ok .eof) := by
  induction layout using Layout.induct generalizing track with
  | opcodes layout opcodes hsegments hrest =>
    have hbytes : layout.bytes = Opcode.join opcodes := by
      rw [Layout.bytes, hsegments, hrest]
      rfl
    rw [Layout.commands, hsegments, List.map_nil, List.length_nil, Nat.zero_add]
    exact outcomes_of_opcodes opcodes (hbytes ▸ h) extra
  | last layout segment hsegments hlast =>
    rw [Layout.bytes_of_segments hsegments] at h
    obtain ⟨later, hfinished, -, -, hcalls⟩ := calls_segment segment h
    rw [Layout.commands_of_segments hsegments, List.map_nil, List.length_singleton,
      Nat.add_comm 1 extra, hcalls, List.map_cons, outcomes_of_finished (hfinished hlast)]
    rfl
  | first layout segment tail hsegments hrest hfirst ih =>
    rw [Layout.bytes_of_segments hsegments, hrest] at h
    obtain ⟨later, -, hahead, -, hcalls⟩ := calls_segment segment h
    rw [Layout.commands_of_segments hsegments, ← Layout.commands, List.length_cons,
      Nat.add_right_comm, hcalls, List.map_cons, List.map_cons, ih (hahead hfirst)]
    rfl

theorem offset_of_layout (layout : Layout header.version) (h : track.Ahead header layout.bytes)
    (extra : Nat) {i : Nat} (hi : i < layout.commands.length) :
    (track.calls (layout.commands.length + extra))[i]?.map (·.after.offset) =
      some (track.offset + layout.place (i + 1)) := by
  induction layout using Layout.induct generalizing track i with
  | opcodes layout opcodes hsegments hrest =>
    rw [Layout.commands, hsegments] at hi
    cases hi
  | last layout segment hsegments hlast =>
    rw [Layout.bytes_of_segments hsegments] at h
    obtain ⟨later, -, -, hoffset, hcalls⟩ := calls_segment segment h
    rw [Layout.commands_of_segments hsegments, List.map_nil, List.length_singleton] at hi ⊢
    obtain rfl := Nat.lt_one_iff.mp hi
    rw [Nat.add_comm 1 extra, hcalls, Layout.place_of_segments hsegments]
    exact congrArg some hoffset
  | first layout segment tail hsegments hrest hfirst ih =>
    rw [Layout.bytes_of_segments hsegments, hrest] at h
    obtain ⟨later, -, hahead, hoffset, hcalls⟩ := calls_segment segment h
    rw [Layout.commands_of_segments hsegments, ← Layout.commands, List.length_cons] at hi ⊢
    rw [Nat.add_right_comm, hcalls, Layout.place_of_segments hsegments]
    cases i with
    | zero => exact congrArg some hoffset
    | succ i =>
      have hlater := ih (hahead hfirst) (Nat.lt_of_succ_lt_succ hi)
      rw [List.getElem?_cons_succ, hlater, hoffset, Nat.add_assoc]
      rfl

/-- Calls on a layout yield its commands in order and then `eof`. After each command the track
stands just behind it. -/
theorem calls_of_layout {track : Track} (layout : Layout track.header.version)
    (hunfinished : track.finished = false) (hintact : track.cursor.source.Intact)
    (hbytes : track.cursor.source.bytes = layout.bytes) (extra : Nat) :
    let steps := track.calls (layout.commands.length + extra)
    steps.map Step.outcome =
        layout.commands.map Except.ok ++ List.replicate extra (.ok .eof) ∧
      ∀ i < layout.commands.length,
        steps[i]?.map (·.after.offset) = some (track.offset + layout.place (i + 1)) := by
  intro steps
  have hahead : track.Ahead track.header layout.bytes := ⟨rfl, hunfinished, hintact, hbytes⟩
  refine ⟨outcomes_of_layout layout hahead extra, ?_⟩
  intro i hi
  exact offset_of_layout layout hahead extra hi

/-- A data block behind an opcode, and the end of the sound data before some other byte. -/
def blockLayout : Layout 0x150 where
  segments :=
    [ ⟨[⟨0x31, [0x00], .from30 (by decide)⟩], .dataBlock 1 2, [0xAA, 0xBB], by decide, rfl⟩,
      ⟨[], .endOfSoundData, [], by decide, rfl⟩ ]
  rest := [0x00]
  endsLast := by simp
  rest_eq := Or.inl rfl

/-- The bytes of `blockLayout`, cut inside the opcode, the data block and its contents. -/
theorem calls_of_blockLayout :
    let track : Track :=
      { path := none
        header := { version := 0x150 }
        cursor := ⟨[.chunk 0x31 [], .chunk 0x00 [0x67], .interrupted,
          .chunk 0x66 [0x01, 0x02, 0x00, 0x00, 0x00, 0xAA], .chunk 0xBB [0x66, 0x00]], 0x40⟩ }
    (track.calls 4).map Step.outcome =
        [.ok (.dataBlock 1 2), .ok .endOfSoundData, .ok .eof, .ok .eof] ∧
      (track.calls 4)[0]?.map (·.after.offset) = some 0x4B ∧
      (track.calls 4)[1]?.map (·.after.offset) = some 0x4C := by
  intro track
  obtain ⟨houtcomes, hoffsets⟩ :=
    @calls_of_layout track blockLayout rfl (by decide) rfl 2
  exact ⟨houtcomes, hoffsets 0 (by decide), hoffsets 1 (by decide)⟩

end Track
end SoundLog
