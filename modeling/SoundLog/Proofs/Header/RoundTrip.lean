import SoundLog.Proofs.Track.Acceptance

/-!
# Headers written back

A decoded header keeps all of its 64 bytes: zeros that are decoded as absent and positions that are
counted from elsewhere can be told from every other value. So the headers of two logs are the same
just if their first 64 bytes are, and these bytes can be written back from the header.
-/

namespace SoundLog

theorem Field.length_slice {field : Field} {log : List UInt8} (h : field.stop ≤ log.length) :
    (field.slice log).length = field.length := by
  rw [slice, List.length_take, List.length_drop, Nat.min_eq_left]
  rw [stop] at h
  omega

/-- The bytes of fields that follow each other are the bytes from the first place on. -/
theorem Field.flatMap_slice {fields : List Field} {place : Nat} (h : Contiguous place fields)
    (log : List UInt8) : (fields.flatMap fun field => field.slice log) =
      (log.drop place).take (fields.map Field.length).sum := by
  induction fields generalizing place with
  | nil => simp
  | cons field fields ih =>
    obtain ⟨hoffset, hrest⟩ := h
    rw [List.flatMap_cons, ih hrest, List.map_cons, List.sum_cons, List.take_add, List.drop_drop,
      slice, stop, hoffset]

namespace Header

/-! ## Numbers -/

theorem getD_nonzero? (n : Nat) : (nonzero? n).getD 0 = n := by
  unfold nonzero?
  split
  · next h => exact h.symm
  · rfl

/-- Counting a position from another place and back makes none of it absent. -/
theorem getD_nonzero?_sub (n base : Nat) :
    (((nonzero? n).map (· + base)).map (· - base)).getD 0 = n := by
  unfold nonzero?
  split
  · next h => exact h.symm
  · exact Nat.add_sub_cancel n base

theorem Tells.value_eq {header : Header} {log : List UInt8} (h : header.Tells log)
    (hmagic : HasMagic log) (field : Field) : header.value field = storedValue log field := by
  have hclock : ∀ {clock : Option UInt32} {n : Nat}, clock.map UInt32.toNat = nonzero? n →
      (clock.map UInt32.toNat).getD 0 = n := by
    intro clock n hclock
    rw [hclock, getD_nonzero?]
  have hplace : ∀ {place : Option Nat} {n base : Nat}, place = (nonzero? n).map (· + base) →
      (place.map (· - base)).getD 0 = n := by
    intro place n base hplace
    rw [hplace, getD_nonzero?_sub]
  cases field with
  | ident =>
    have hident : Field.ident.slice log = magic := hmagic
    rw [storedValue, hident, value]
  | eofOffset => rw [value, h.eofOffset, Field.offset, Nat.add_sub_cancel]
  | dataOffset =>
    have hword : storedValue log .dataOffset = word log 0x34 := rfl
    rw [value, h.dataOffset, hword, commandsPlace, Field.offset]
    split <;> omega
  | version => exact h.version
  | sn76489Clock => exact hclock h.sn76489Clock
  | ym2413Clock => exact hclock h.ym2413Clock
  | gd3Offset => exact hplace h.gd3Offset
  | totalSamples => exact h.sampleCount
  | loopOffset => exact hplace h.loopOffset
  | loopSamples => exact hclock h.loopSampleCount
  | sampleRate => exact h.rate
  | sn76489Feedback => exact h.sn76489Feedback
  | sn76489Width => exact h.sn76489Width
  | sn76489Flags => exact h.sn76489Flags
  | ym2612Clock => exact hclock h.ym2612Clock
  | ym2151Clock => exact hclock h.ym2151Clock
  | segaPcmClock => exact hclock h.segaPcmClock
  | segaPcmInterface => exact h.segaPcmInterface

/-- What a header tells is written back as it was stored. -/
theorem Tells.toBytes_eq {header : Header} {log : List UInt8} (h : header.Tells log)
    (hmagic : HasMagic log) (hsize : 64 ≤ log.length) : header.toBytes = log.take 64 := by
  have hfield : ∀ field : Field,
      LittleEndian.ofNat field.length (header.value field) = field.slice log := by
    intro field
    have hlength := Field.length_slice (Nat.le_trans field.stop_le_size hsize)
    rw [h.value_eq hmagic, storedValue, ← hlength, LittleEndian.ofNat_toNat]
  have hslices := Field.flatMap_slice Field.contiguous_all log
  simp only [toBytes, hfield, hslices]
  rfl

end Header

namespace Track

open Header

theorem header_of_open {path : Option String} {source : Source} (hintact : source.Intact)
    {track : Track} (hopen : Track.open path source = .ok track) :
    64 ≤ source.bytes.length ∧ HasMagic source.bytes ∧
      track.header = ofBytes (source.bytes.take 64) := by
  obtain ⟨hproblem, cursor, -, rfl⟩ := exists_of_open hopen
  obtain ⟨-, hsize, hmagic, -, haccepted, -⟩ | ⟨problem, hsome, -⟩ := read_cases hintact
  · exact ⟨hsize, hmagic, congrArg ofBytes haccepted⟩
  · cases hproblem.symm.trans hsome

theorem toBytes_header {path : Option String} {source : Source} (hintact : source.Intact)
    {track : Track} (hopen : Track.open path source = .ok track) :
    track.header.toBytes = source.bytes.take 64 := by
  obtain ⟨hsize, hmagic, hheader⟩ := header_of_open hintact hopen
  rw [hheader, ofBytes_take]
  exact (tells_ofBytes source.bytes).toBytes_eq hmagic hsize

/-- Two logs that have been opened have the same header just if their first 64 bytes are the same,
for the header can be written back as these bytes. -/
theorem header_eq_iff {path path' : Option String} {source other : Source}
    (hintact : source.Intact) (hintact' : other.Intact) {track track' : Track}
    (hopen : Track.open path source = .ok track) (hopen' : Track.open path' other = .ok track') :
    track.header.toBytes = source.bytes.take 64 ∧
      (track.header = track'.header ↔ source.bytes.take 64 = other.bytes.take 64) := by
  have hbytes := toBytes_header hintact hopen
  refine ⟨hbytes, ?_, ?_⟩
  · intro hheader
    rw [← hbytes, hheader, toBytes_header hintact' hopen']
  · intro hstart
    rw [(header_of_open hintact hopen).2.2, hstart, (header_of_open hintact' hopen').2.2]

/-- Two logs with different commands behind the same header, one of them in two pieces. The place
to continue from is the highest that can be stored, and all clocks and other places are absent. -/
theorem header_eq_iff_in_pieces :
    let start : List UInt8 :=
      magic ++ [0xFC, 0xFF, 0xFF, 0xFF, 0x71, 0x01, 0, 0] ++ List.replicate 16 0 ++
        [0xE4, 0xFF, 0xFF, 0xFF] ++ List.replicate 32 0
    let source : Source := Source.ofBytes (start ++ [0x66])
    let other : Source :=
      Source.ofBytes (start.take 30) ++ .interrupted :: Source.ofBytes (start.drop 30 ++ [0x62])
    ∃ track track', Track.open none source = .ok track ∧ Track.open none other = .ok track' ∧
      track.header.toBytes = start ∧ track.header = track'.header ∧
      track.header.loopOffset = some (2 ^ 32) ∧ track.header.dataOffset = 12 := by
  intro start source other
  have hintact : source.Intact := by decide +kernel
  have hintact' : other.Intact := by decide +kernel
  obtain ⟨track, hopen⟩ : ∃ track, Track.open none source = .ok track := ⟨_, rfl⟩
  obtain ⟨track', hopen'⟩ : ∃ track, Track.open none other = .ok track := ⟨_, rfl⟩
  obtain ⟨hbytes, hiff⟩ := header_eq_iff hintact hintact' hopen hopen'
  have hstart : source.bytes.take 64 = start := by decide +kernel
  have hstart' : other.bytes.take 64 = start := by decide +kernel
  have hheader : track.header = ofBytes start := hstart ▸ (header_of_open hintact hopen).2.2
  refine ⟨track, track', hopen, hopen', hbytes.trans hstart, hiff.mpr (hstart.trans hstart'.symm),
    ?_, ?_⟩
  · rw [hheader]
    decide +kernel
  · rw [hheader]
    decide +kernel

end Track
end SoundLog
