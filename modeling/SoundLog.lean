import SoundLog.Main
import SoundLog.Proofs.Track.Accounting
import SoundLog.Proofs.Stream.Counting
import SoundLog.Proofs.Track.Pieces
import SoundLog.Proofs.Track.RoundTrip
import SoundLog.Proofs.Voice.Recurrence
import SoundLog.Proofs.Track.Counting
import SoundLog.Proofs.Header.Acceptance
import SoundLog.Proofs.Track.Acceptance
import SoundLog.Proofs.Ym2612.Addresses
import SoundLog.Proofs.Ym2612.Parts
import SoundLog.Proofs.Ym2612.Writes
import SoundLog.Proofs.Ym2612.History
import SoundLog.Proofs.Ym2612.Readback
import SoundLog.Proofs.Ym2612.Extensionality
import SoundLog.Proofs.Ym2612.Pitches
import SoundLog.Proofs.Ym2612.Keys
import SoundLog.Proofs.Ym2612.LastWrites
import SoundLog.Proofs.Ym2612.Cells
import SoundLog.Proofs.Ym2612.Commutation
import SoundLog.Proofs.Ym2612.Frame
import SoundLog.Proofs.Stream.Parting
import SoundLog.Proofs.Track.Truncation
import SoundLog.Proofs.Volume.Writing
import SoundLog.Proofs.Extraction.FileNames
import SoundLog.Proofs.Task.Effects
import SoundLog.Proofs.Extraction.Playing
import SoundLog.Proofs.Extraction.Files
import SoundLog.Proofs.Ym2612.VoiceWrites
import SoundLog.Proofs.Extraction.Interference
import SoundLog.Proofs.Stream.Footprint
import SoundLog.Proofs.Track.Ending
import SoundLog.Proofs.Replay.Basic
import SoundLog.Proofs.Replay.Listing
import SoundLog.Proofs.Replay.Places
import SoundLog.Proofs.Replay.Extraction
import SoundLog.Proofs.Replay.Lines
import SoundLog.Proofs.Replay.Termination
import SoundLog.Proofs.Replay.Agreement
import SoundLog.Proofs.Ym2612.Mirror
import SoundLog.Proofs.Ym2612.Programming
import SoundLog.Proofs.Voice.Text
import SoundLog.Proofs.Header.RoundTrip
import SoundLog.Proofs.Text.Hexadecimal
import SoundLog.Proofs.Command.Text
import SoundLog.Proofs.Track.Walks
import SoundLog.Proofs.Stream.Faults
import SoundLog.Proofs.Track.Disturbed
import SoundLog.Proofs.Track.Retrying
import SoundLog.Proofs.Volume.Refusals
import SoundLog.Proofs.Extraction.Failing
import SoundLog.Proofs.Voice.Numbers
import SoundLog.Proofs.Ym2612.Access
import SoundLog.Proofs.Ym2612.Ranges
