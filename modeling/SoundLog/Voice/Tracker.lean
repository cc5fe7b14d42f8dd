import SoundLog.Log
import SoundLog.Voice.Basic

/-!
# Tracking voices

A tracker looks at the chip after every write and picks the voices worth keeping. While writes keep
changing voices, a new one is being loaded and nothing is picked; the first change after a write
that changed nothing picks what was there before it. A channel's voice is dumped only when it
differs from the one dumped last for that channel, and dumps are numbered from 1 in each channel.

The numbers are unbounded here. Counters of 32 bits would overflow after more than four thousand
million dumps in one channel.
-/

namespace SoundLog

/-- A voice picked for output. -/
structure Dump where
  channel : Fin 6
  /-- The number of the dump among those of its channel. -/
  sequence : Nat
  voice : Voice
  deriving DecidableEq

def Dump.event (dump : Dump) : Log.Event :=
  { level := .debug
    origin := .preset
    message := "preset dump"
    fields := [("channel", Log.natValue dump.channel), ("sequence", Log.natValue dump.sequence)] }

structure Tracker where
  /-- The voices at the last look. -/
  last : Vector Voice 6
  /-- The voice dumped last in each channel. -/
  dumped : Vector (Option Voice) 6 := Vector.replicate 6 none
  /-- The number of dumps in each channel. -/
  counts : Vector Nat 6 := Vector.replicate 6 0
  /-- Whether the last look found a change. -/
  changed : Bool := false
  deriving DecidableEq

namespace Tracker

def start (voices : Vector Voice 6) : Tracker := { last := voices }

def count (tracker : Tracker) (i : Nat) : Except Ym2612.IndexError Nat :=
  match tracker.counts[i]? with
  | some n => .ok n
  | none => .error (.entry 6 i)

/-- The dump of a channel's voice, unless it was the last one dumped there. -/
def dump? (tracker : Tracker) (voices : Vector Voice 6) (i : Fin 6) : Option Dump :=
  if tracker.dumped.get i = some (voices.get i) then none
  else some ⟨i, tracker.counts.get i + 1, voices.get i⟩

/-- Dumps all voices that are due, by channel. -/
def flush (tracker : Tracker) (voices : Vector Voice 6) : List Dump × Tracker :=
  ((List.finRange 6).filterMap (tracker.dump? voices),
    { tracker with
      dumped := voices.map some
      counts := Vector.ofFn fun i =>
        match tracker.dump? voices i with
        | none => tracker.counts.get i
        | some dump => dump.sequence })

def beginsRun (tracker : Tracker) (voices : Vector Voice 6) : Bool :=
  voices ≠ tracker.last && !tracker.changed

/-- Looks at the voices after a write. -/
def observe (tracker : Tracker) (voices : Vector Voice 6) : List Dump × Tracker :=
  let flushed := if tracker.beginsRun voices then tracker.flush tracker.last else ([], tracker)
  (flushed.1, { flushed.2 with changed := voices ≠ tracker.last, last := voices })

/-- Dumps what is due at the end. -/
def finish (tracker : Tracker) (voices : Vector Voice 6) : List Dump × Tracker :=
  { tracker with last := voices }.flush voices

/-! ## Events -/

def observeEvents (tracker : Tracker) (voices : Vector Voice 6) : List Log.Event :=
  let begins : Log.Event :=
    { level := .debug
      origin := .preset
      message := "preset change started, flushing previous voices" }
  (if tracker.beginsRun voices then [begins] else [])
    ++ (tracker.observe voices).1.map Dump.event

def finishEvents (tracker : Tracker) (voices : Vector Voice 6) : List Log.Event :=
  (tracker.finish voices).1.map Dump.event

end Tracker
end SoundLog
