import SoundLog.Command.Decoding
import SoundLog.Header.Reading
import SoundLog.Stream.Supply

/-!
# Tracks

A track is an opened log: its header and the place reached in its commands. `next` decodes one
command and can be called again after any outcome; at the end of the stream, and after the command
that ends the sound data, it keeps giving `eof`. `steps` goes on to the end, past problems as long
as the track advances.
-/

namespace SoundLog

/-- What decoding the next command gives. -/
abbrev Outcome := Except Diagnostic Command

structure Track where
  path : Option String
  header : Header
  cursor : Cursor
  /-- Whether nothing but `eof` can follow. -/
  finished : Bool := false
  deriving DecidableEq

namespace Track

/-- The number of bytes taken from the start of the file. -/
def offset (track : Track) : Nat := track.cursor.offset

/-! ## Opening -/

/-- Reads the header and skips to the place where the commands start. -/
def «open» (path : Option String) (source : Source) : Except Diagnostic Track :=
  let reading := Header.read source
  match reading.problem with
  | some problem => .error ⟨reading.cursor.offset, path, problem⟩
  | none =>
    let header := Header.ofBytes reading.accepted
    match Reader.skip (header.dataOffset - reading.cursor.offset) reading.cursor with
    | .ok () cursor => .ok { path, header, cursor }
    | .error failure cursor =>
      .error ⟨cursor.offset, path, .shortGap header.dataOffset failure⟩

def openedEvent (header : Header) : Log.Event :=
  { level := .debug
    origin := .parser
    message := "parsed vgm header"
    fields := [("version", header.versionText), ("data_offset", Log.natValue header.dataOffset)] }

def openEvents (path : Option String) (source : Source) : List Log.Event :=
  (Header.read source).events ++
    match Track.open path source with
    | .ok track => [openedEvent track.header]
    | .error _ => []

/-! ## One command -/

def next (track : Track) : Outcome × Track :=
  if track.finished then (.ok .eof, track)
  else
    match Command.decode track.header.hasWideReserved track.cursor with
    | .ok command cursor =>
      (.ok command, { track with cursor, finished := command = .endOfSoundData })
    | .error problem cursor =>
      if problem.endsCommands then (.ok .eof, { track with cursor, finished := true })
      else (.error ⟨cursor.offset, track.path, problem⟩, { track with cursor })

/-- The events of `next`: a decoded command, or the end of the stream when it is first met. -/
def nextEvents (track : Track) : List Log.Event :=
  if track.finished then []
  else
    let after := track.next
    let place := ("offset", Log.natValue after.2.offset)
    match after.1 with
    | .error _ => []
    | .ok .eof =>
      [{ level := .trace, origin := .parser, message := "end of stream", fields := [place] }]
    | .ok command =>
      [{ level := .trace
         origin := .parser
         message := "command"
         fields := [place, ("command", command.text)] }]

def nextProblem? (track : Track) : Option Problem :=
  if track.finished then none
  else
    match Command.decode track.header.hasWideReserved track.cursor with
    | .ok _ _ => none
    | .error problem _ => some problem

/-! ## Iterating -/

/-- A walk over the commands that stops before `eof` and after the first problem. -/
structure Walk where
  track : Track
  failed : Bool := false

/-- The next item of a walk. -/
def Walk.next (walk : Walk) : Option Outcome × Walk :=
  if walk.failed then (none, walk)
  else
    let after := walk.track.next
    match after.1 with
    | .ok .eof => (none, { walk with track := after.2 })
    | .ok command => (some (.ok command), { walk with track := after.2 })
    | .error d => (some (.error d), ⟨after.2, true⟩)

/-! ## To the end -/

/-- One call of `next` with the tracks before and after it. -/
structure Step where
  before : Track
  outcome : Outcome
  after : Track

namespace Step

def start (step : Step) : Nat := step.before.offset

def isStuck (step : Step) : Bool := step.after.offset = step.before.offset

/-- Whether another step is to follow: not after the end, and not after a problem without
progress. -/
def continues (step : Step) : Bool :=
  match step.outcome with
  | .ok command => command ≠ .eof
  | .error _ => !step.isStuck

def events (step : Step) : List Log.Event := step.before.nextEvents

end Step

def step (track : Track) : Step :=
  let after := track.next
  ⟨track, after.1, after.2⟩

theorem next_advances (track : Track) : Cursor.Advances track.cursor track.next.2.cursor := by
  have h := Command.decode_moves track.header.hasWideReserved track.cursor
  unfold next
  split
  · exact Cursor.Advances.refl _
  · split
    · next heq => rwa [heq] at h
    · next heq =>
      rw [heq] at h
      split <;> exact h

/-- A step that another one follows has used up some of the source. -/
theorem size_of_continues {track : Track} (h : track.step.continues = true) :
    track.step.after.cursor.source.size < track.cursor.source.size := by
  unfold Step.continues step at h
  cases houtcome : track.next.1 with
  | error d =>
    simp only [houtcome, Bool.not_eq_true', Step.isStuck, decide_eq_false_iff_not] at h
    exact track.next_advances.size_lt h
  | ok command =>
    simp only [houtcome, ne_eq, decide_eq_true_eq] at h
    unfold step
    unfold next at houtcome ⊢
    split at houtcome
    · cases houtcome
      exact absurd rfl h
    · next hfinished =>
      rw [if_neg hfinished]
      split at houtcome
      · next heq => exact Command.size_of_decode heq
      · split at houtcome
        · cases houtcome
          exact absurd rfl h
        · cases houtcome

/-- The steps to the end of the track, or to a problem without progress. -/
def steps (track : Track) : List Step :=
  let step := track.step
  if h : step.continues = true then
    have := size_of_continues h
    step :: steps step.after
  else [step]
termination_by track.cursor.source.size

/-! ## Reading a supply -/

/-- What reading a log to its end stops at. -/
def lastProblem? (path : Option String) (source : Source) : Option Problem :=
  match Track.open path source with
  | .error d => some d.problem
  | .ok track => track.steps.getLast?.bind fun step => step.before.nextProblem?

/-- The number of bytes that the read which finds a source used up asks for. -/
def request (path : Option String) (source : Source) : Nat :=
  match (lastProblem? path source).bind Problem.cause with
  | some failure => failure.request
  | none => 0

/-- What a supply brings to the reader of a log. -/
def settle (path : Option String) (supply : Supply) : Source :=
  supply.settled (if supply.passing = [] then 0 else request path supply.source)

end Track
end SoundLog
