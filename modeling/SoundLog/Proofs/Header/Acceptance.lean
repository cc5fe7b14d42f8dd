import Mathlib.Algebra.Ring.Nat
import SoundLog.Header.Reading
import SoundLog.Proofs.Stream.Intact

/-!
# Headers that are accepted

The fields are read one after the other, and each of them is looked up at its place as well. The two
agree: reading a header stops at the first field whose bytes at its place are missing or refused,
and if there is none the decoded header holds what is stored at the places of the fields.
-/

namespace SoundLog

namespace Field

/-- The fields follow each other without gaps from a place on. -/
def Contiguous : Nat → List Field → Prop
  | _, [] => True
  | place, field :: fields => field.offset = place ∧ Contiguous field.stop fields

theorem contiguous_all : Contiguous 0 all := by
  simp [all, Contiguous, stop, offset, length]

/-- The log has the bytes of the field, and they are accepted. -/
def Passes (field : Field) (log : List UInt8) : Prop :=
  field.stop ≤ log.length ∧ Header.objection? field (field.slice log) = none

theorem slice_append {field : Field} {taken bytes : List UInt8}
    (htaken : taken.length = field.offset) (hbytes : bytes.length = field.length)
    (rest : List UInt8) : field.slice (taken ++ bytes ++ rest) = bytes := by
  unfold slice
  rw [List.append_assoc, ← htaken, List.drop_left, ← hbytes, List.take_left]

theorem slice_take {field : Field} {n : Nat} (h : field.stop ≤ n) (log : List UInt8) :
    field.slice (log.take n) = field.slice log := by
  unfold slice stop at *
  rw [List.drop_take, List.take_take, Nat.min_eq_left (by omega)]

theorem stop_le_size (field : Field) : field.stop ≤ 64 := by cases field <;> decide

theorem pairwise_stop : all.Pairwise fun field other => field.stop < other.stop := by decide

/-- The fields in front of a field are those that stop before it does. -/
theorem mem_front {front back : List Field} {field other : Field}
    (h : all = front ++ field :: back) (hstop : other.stop < field.stop) : other ∈ front := by
  have hother := mem_all other
  have hpairwise := pairwise_stop
  rw [h] at hother hpairwise
  rcases List.mem_append.mp hother with hfront | hback
  · exact hfront
  · have hrest := (List.pairwise_cons.mp (List.pairwise_append.mp hpairwise).2.1).1
    rcases List.mem_cons.mp hback with rfl | hback
    · omega
    · have := hrest other hback
      omega

end Field

namespace Header

/-! ## Reading field by field -/

/-- How a field stops the reading of a log, and where: it is refused, or not all of it is there. -/
inductive StopsAt (log : List UInt8) (field : Field) : Problem → Nat → Prop
  | refused {problem : Problem} (hpresent : field.stop ≤ log.length)
    (hobjection : objection? field (field.slice log) = some problem) :
    StopsAt log field problem field.stop
  | missing {failure : Failure} (hshort : log.length < field.stop)
    (hfailure : Reader.RunsOut failure) : StopsAt log field (.unreadable failure) log.length

/-- All that reading fields of an intact source can come to when `taken` has been read before. -/
theorem readFields_cases {source : Source} {cursor : Cursor} {taken : List UInt8}
    {fields : List Field} (htaken : Cursor.Takes { source } taken cursor)
    (hfields : Field.Contiguous taken.length fields) :
    ((readFields fields cursor).problem = none ∧ (∀ field ∈ fields, field.Passes source.bytes) ∧
        Cursor.Takes { source } (taken ++ (readFields fields cursor).accepted)
          (readFields fields cursor).cursor ∧
        (readFields fields cursor).accepted.length = (fields.map Field.length).sum) ∨
      ∃ front field back problem, fields = front ++ field :: back ∧
        (∀ other ∈ front, other.Passes source.bytes) ∧
        (readFields fields cursor).problem = some problem ∧
        StopsAt source.bytes field problem (readFields fields cursor).cursor.offset := by
  -- `taken` grows by a field in each step, so that the next field starts where it ends
  induction fields generalizing cursor taken with
  | nil =>
    refine Or.inl ⟨rfl, by simp, ?_, rfl⟩
    simpa [readFields] using htaken
  | cons field fields ih =>
    obtain ⟨hoffset, hfields⟩ := hfields
    unfold readFields
    obtain ⟨bytes, after, hread, hlength, hbytes⟩ |
      ⟨cut, after, failure, hread, hfailure, hlength, hcut, hend⟩ :=
      Reader.bytes_reads field.length cursor htaken.intact
    · have hall := htaken.trans hbytes
      have hlog : source.bytes = taken ++ bytes ++ after.source.bytes := hall.bytes_eq
      have hstop : (taken ++ bytes).length = field.stop := by
        rw [Field.stop, hoffset, List.length_append, hlength]
      have hpresent : field.stop ≤ source.bytes.length := by
        have hlengths := congrArg List.length hlog
        rw [List.length_append, hstop] at hlengths
        omega
      have hslice : field.slice source.bytes = bytes := by
        rw [hlog]
        exact Field.slice_append hoffset.symm hlength _
      cases hobjection : objection? field bytes with
      | some problem =>
        simp only [hread, id, hobjection]
        refine Or.inr ⟨[], field, fields, problem, rfl, by simp, rfl, ?_⟩
        have hplace : after.offset = field.stop := by rw [hall.offset_eq, hstop, Nat.zero_add]
        rw [hplace]
        exact .refused hpresent (hslice ▸ hobjection)
      | none =>
        have hpasses : field.Passes source.bytes := ⟨hpresent, hslice ▸ hobjection⟩
        simp only [hread, id, hobjection]
        obtain ⟨hproblem, hrest, htakes, hsum⟩ |
          ⟨front, other, back, problem, hsplit, hfront, hproblem, hstops⟩ :=
          ih hall (hstop ▸ hfields)
        · refine Or.inl ⟨hproblem, ?_, ?_, ?_⟩
          · exact List.forall_mem_cons.mpr ⟨hpasses, hrest⟩
          · rwa [List.append_assoc] at htakes
          · rw [List.length_append, hlength, hsum, List.map_cons, List.sum_cons]
        · refine Or.inr ⟨field :: front, other, back, problem, ?_, ?_, hproblem, hstops⟩
          · rw [hsplit, List.cons_append]
          · exact List.forall_mem_cons.mpr ⟨hpasses, hfront⟩
    · have hall := htaken.trans hcut
      have hlog : source.bytes = taken ++ cut := by
        rw [← List.append_nil (taken ++ cut), ← hend]
        exact hall.bytes_eq
      have hplace : after.offset = source.bytes.length := by
        rw [hall.offset_eq, hlog, Nat.zero_add]
      have hshort : source.bytes.length < field.stop := by
        rw [hlog, List.length_append, Field.stop, hoffset]
        omega
      simp only [hread]
      refine Or.inr ⟨[], field, fields, .unreadable failure, rfl, by simp, rfl, ?_⟩
      rw [hplace]
      exact .missing hshort hfailure

/-! ## What the fields hold -/

/-- A number that is absent if it is zero. -/
def nonzero? (n : Nat) : Option Nat := if n = 0 then none else some n

/-- The little-endian number in the four bytes from a place on. -/
def word (log : List UInt8) (place : Nat) : Nat := LittleEndian.toNat ((log.drop place).take 4)

/-- The place that the header of a log gives for the commands. -/
def commandsPlace (log : List UInt8) : Nat :=
  if word log 0x34 = 0 then 12 else word log 0x34 + 52

/-- The header tells what is stored at the places of its fields at the beginning of a log, with all
positions in 64 bits. -/
structure Tells (header : Header) (log : List UInt8) : Prop where
  eofOffset : header.eofOffset = storedValue log .eofOffset + 4
  version : header.version.toNat = storedValue log .version
  sn76489Clock : header.sn76489Clock.map UInt32.toNat = nonzero? (storedValue log .sn76489Clock)
  ym2413Clock : header.ym2413Clock.map UInt32.toNat = nonzero? (storedValue log .ym2413Clock)
  gd3Offset : header.gd3Offset = (nonzero? (storedValue log .gd3Offset)).map (· + 20)
  sampleCount : header.sampleCount.toNat = storedValue log .totalSamples
  loopOffset : header.loopOffset = (nonzero? (storedValue log .loopOffset)).map (· + 28)
  loopSampleCount :
    header.loopSampleCount.map UInt32.toNat = nonzero? (storedValue log .loopSamples)
  rate : header.rate.toNat = storedValue log .sampleRate
  sn76489Feedback : header.sn76489Feedback.toNat = storedValue log .sn76489Feedback
  sn76489Width : header.sn76489Width.toNat = storedValue log .sn76489Width
  sn76489Flags : header.sn76489Flags.toNat = storedValue log .sn76489Flags
  ym2612Clock : header.ym2612Clock.map UInt32.toNat = nonzero? (storedValue log .ym2612Clock)
  ym2151Clock : header.ym2151Clock.map UInt32.toNat = nonzero? (storedValue log .ym2151Clock)
  dataOffset : header.dataOffset = commandsPlace log
  segaPcmClock : header.segaPcmClock.map UInt32.toNat = nonzero? (storedValue log .segaPcmClock)
  segaPcmInterface : header.segaPcmInterface.toNat = storedValue log .segaPcmInterface
  eofOffset_lt : header.eofOffset < 2 ^ 64
  gd3Offset_lt : ∀ place ∈ header.gd3Offset, place < 2 ^ 64
  loopOffset_lt : ∀ place ∈ header.loopOffset, place < 2 ^ 64
  dataOffset_lt : header.dataOffset < 2 ^ 64

theorem storedValue_lt (log : List UInt8) (field : Field) :
    storedValue log field < 256 ^ field.length := by
  have hvalue := LittleEndian.toNat_lt (field.slice log)
  have hlength : (field.slice log).length ≤ field.length := List.length_take_le _ _
  exact Nat.lt_of_lt_of_le hvalue (Nat.pow_le_pow_right (by decide) hlength)

theorem storedValue_take {field : Field} {n : Nat} (h : field.stop ≤ n) (log : List UInt8) :
    storedValue (log.take n) field = storedValue log field := by
  rw [storedValue, Field.slice_take h, storedValue]

theorem map_present? {n : Nat} (h : n < 2 ^ 32) :
    (present? n).map UInt32.toNat = nonzero? n := by
  unfold present? nonzero?
  split
  · rfl
  · simp [UInt32.toNat_ofNat_of_lt' h]

theorem position?_eq (field : Field) {base : Nat} (h : field.relativeBase = some base) (n : Nat) :
    position? field n = (nonzero? n).map (· + base) := by
  unfold position? nonzero?
  rw [h, Option.bind_some]
  split <;> rfl

theorem lt_of_mem_nonzero? {base n : Nat} (hbase : base ≤ 52) (hn : n < 2 ^ 32) :
    ∀ place ∈ (nonzero? n).map (· + base), place < 2 ^ 64 := by
  intro place hplace
  obtain ⟨value, hvalue, rfl⟩ := Option.map_eq_some_iff.mp hplace
  unfold nonzero? at hvalue
  split at hvalue
  · cases hvalue
  · obtain rfl := Option.some.inj hvalue
    omega

theorem dataOffset_eq (log : List UInt8) : (ofBytes log).dataOffset = commandsPlace log := by
  change (position? .dataOffset (word log 0x34)).getD defaultDataOffset = _
  rw [position?_eq .dataOffset rfl, commandsPlace, nonzero?]
  split <;> rfl

theorem tells_ofBytes (log : List UInt8) : (ofBytes log).Tells log := by
  have hword : ∀ field : Field, field.length = 4 → storedValue log field < 2 ^ 32 := by
    intro field hlength
    have h := storedValue_lt log field
    rwa [hlength] at h
  have hgd3 : (ofBytes log).gd3Offset = (nonzero? (storedValue log .gd3Offset)).map (· + 20) :=
    position?_eq .gd3Offset rfl _
  have hloop : (ofBytes log).loopOffset = (nonzero? (storedValue log .loopOffset)).map (· + 28) :=
    position?_eq .loopOffset rfl _
  have hdata : (ofBytes log).dataOffset = commandsPlace log := dataOffset_eq log
  have hbound : word log 0x34 < 2 ^ 32 := hword .dataOffset rfl
  exact
    { eofOffset := rfl
      version := UInt32.toNat_ofNat_of_lt' (hword _ rfl)
      sn76489Clock := map_present? (hword _ rfl)
      ym2413Clock := map_present? (hword _ rfl)
      gd3Offset := hgd3
      sampleCount := UInt32.toNat_ofNat_of_lt' (hword _ rfl)
      loopOffset := hloop
      loopSampleCount := map_present? (hword _ rfl)
      rate := UInt32.toNat_ofNat_of_lt' (hword _ rfl)
      sn76489Feedback := UInt16.toNat_ofNat_of_lt' (storedValue_lt log _)
      sn76489Width := UInt8.toNat_ofNat_of_lt' (storedValue_lt log _)
      sn76489Flags := UInt8.toNat_ofNat_of_lt' (storedValue_lt log _)
      ym2612Clock := map_present? (hword _ rfl)
      ym2151Clock := map_present? (hword _ rfl)
      dataOffset := hdata
      segaPcmClock := map_present? (hword _ rfl)
      segaPcmInterface := UInt32.toNat_ofNat_of_lt' (hword _ rfl)
      eofOffset_lt := by
        have h := hword .eofOffset rfl
        change storedValue log .eofOffset + 4 < 2 ^ 64
        omega
      gd3Offset_lt := hgd3 ▸ lt_of_mem_nonzero? (by decide) (hword _ rfl)
      loopOffset_lt := hloop ▸ lt_of_mem_nonzero? (by decide) (hword _ rfl)
      dataOffset_lt := by
        rw [hdata, commandsPlace]
        split <;> omega }

theorem ofBytes_take (log : List UInt8) : ofBytes (log.take 64) = ofBytes log := by
  have hvalues : storedValue (log.take 64) = storedValue log := by
    funext field
    exact storedValue_take field.stop_le_size log
  rw [ofBytes, ofBytes, hvalues]

/-! ## The whole header -/

/-- The log starts with the magic bytes. -/
def HasMagic (log : List UInt8) : Prop := log.take 4 = magic

/-- The version of the log is one of those that can be read. -/
def HasSupportedVersion (log : List UInt8) : Prop :=
  word log 8 ∈ [0x150, 0x151, 0x160, 0x161, 0x170, 0x171]

instance (log : List UInt8) : Decidable (HasMagic log) :=
  inferInstanceAs (Decidable (log.take 4 = magic))

instance (log : List UInt8) : Decidable (HasSupportedVersion log) :=
  inferInstanceAs (Decidable (word log 8 ∈ [0x150, 0x151, 0x160, 0x161, 0x170, 0x171]))

/-- A cut behind the header changes nothing of what a log is opened for. -/
theorem take_of_size_le {n : Nat} (h : 64 ≤ n) (log : List UInt8) :
    (HasMagic (log.take n) ↔ HasMagic log) ∧
      (HasSupportedVersion (log.take n) ↔ HasSupportedVersion log) ∧
      commandsPlace (log.take n) = commandsPlace log := by
  have hword : ∀ field : Field, storedValue (log.take n) field = storedValue log field :=
    fun field => storedValue_take (Nat.le_trans field.stop_le_size h) log
  have hversion : word (log.take n) 8 = word log 8 := hword .version
  have hplace : word (log.take n) 0x34 = word log 0x34 := hword .dataOffset
  refine ⟨?_, ?_, ?_⟩
  · rw [HasMagic, List.take_take, Nat.min_eq_left (by omega), HasMagic]
  · rw [HasSupportedVersion, hversion, HasSupportedVersion]
  · rw [commandsPlace, hplace, commandsPlace]

theorem isSupportedVersion_iff (log : List UInt8) :
    isSupportedVersion (UInt32.ofNat (storedValue log .version)) = true ↔
      HasSupportedVersion log := by
  have hbound : word log 8 < 2 ^ 32 := storedValue_lt log .version
  have hstored : storedValue log .version = word log 8 := rfl
  simp [isSupportedVersion, supportedVersions, HasSupportedVersion, hstored,
    ← UInt32.toNat_inj, UInt32.toNat_ofNat_of_lt' hbound]

theorem objection?_ident (log : List UInt8) :
    objection? .ident (Field.ident.slice log) =
      if HasMagic log then none else some (.badMagic (log.take 4)) := rfl

theorem objection?_version (log : List UInt8) :
    objection? .version (Field.version.slice log) =
      if HasSupportedVersion log then none
      else some (.unsupportedVersion (UInt32.ofNat (storedValue log .version))) := by
  simp only [← isSupportedVersion_iff]
  rfl

/-- Why a log is rejected and at which offset. The bytes that are missing may be those of the header
or those in front of the commands. -/
inductive Rejects (log : List UInt8) (problem : Problem) : Nat → Prop
  | magic (hlength : 4 ≤ log.length) (hmagic : ¬ HasMagic log) (hcause : problem.cause = none) :
    Rejects log problem 4
  | version (hlength : 12 ≤ log.length) (hmagic : HasMagic log)
    (hversion : ¬ HasSupportedVersion log) (hcause : problem.cause = none) : Rejects log problem 12
  | short {failure : Failure} (hlength : log.length < max 64 (commandsPlace log))
    (hmagic : 4 ≤ log.length → HasMagic log)
    (hversion : 12 ≤ log.length → HasSupportedVersion log)
    (hcause : problem.cause = some failure) (hfailure : Reader.RunsOut failure) :
    Rejects log problem log.length

theorem hasMagic_of_passes {log : List UInt8} (h : Field.ident.Passes log) : HasMagic log := by
  have hpass := h.2
  rw [objection?_ident] at hpass
  split at hpass
  · assumption
  · cases hpass

theorem hasSupportedVersion_of_passes {log : List UInt8} (h : Field.version.Passes log) :
    HasSupportedVersion log := by
  have hpass := h.2
  rw [objection?_version] at hpass
  split at hpass
  · assumption
  · cases hpass

/-- A field that stops the reading rejects the log. -/
theorem StopsAt.rejects {log : List UInt8} {front back : List Field} {field : Field}
    {problem : Problem} {offset : Nat} (h : StopsAt log field problem offset)
    (hfields : Field.all = front ++ field :: back) (hfront : ∀ other ∈ front, other.Passes log) :
    Rejects log problem offset := by
  have hpasses : ∀ other : Field, other.stop < field.stop → other.Passes log := fun other hstop =>
    hfront other (Field.mem_front hfields hstop)
  cases h with
  | refused hpresent hobjection =>
    cases field with
    | ident =>
      rw [objection?_ident] at hobjection
      split at hobjection
      · cases hobjection
      · next hmagic =>
        cases hobjection
        exact .magic hpresent hmagic rfl
    | version =>
      rw [objection?_version] at hobjection
      split at hobjection
      · cases hobjection
      · next hversion =>
        cases hobjection
        have hident : Field.ident.Passes log := hpasses .ident (by decide)
        exact .version hpresent (hasMagic_of_passes hident) hversion rfl
    | _ => cases hobjection
  | missing hshort hfailure =>
    have hsize := field.stop_le_size
    refine .short (by omega) ?_ ?_ rfl hfailure
    · intro hlength
      exact hasMagic_of_passes (hpasses .ident (Nat.lt_of_le_of_lt hlength hshort))
    · intro hlength
      exact hasSupportedVersion_of_passes (hpasses .version (Nat.lt_of_le_of_lt hlength hshort))

theorem read_cases {source : Source} (hintact : source.Intact) :
    ((read source).problem = none ∧ 64 ≤ source.bytes.length ∧ HasMagic source.bytes ∧
        HasSupportedVersion source.bytes ∧ (read source).accepted = source.bytes.take 64 ∧
        Cursor.Takes { source } (source.bytes.take 64) (read source).cursor) ∨
      ∃ problem, (read source).problem = some problem ∧
        Rejects source.bytes problem (read source).cursor.offset := by
  have hstart : Cursor.Takes { source } [] { source } := .refl hintact
  obtain ⟨hproblem, hpasses, htakes, hlength⟩ |
    ⟨front, field, back, problem, hfields, hfront, hproblem, hstops⟩ :=
    readFields_cases hstart Field.contiguous_all
  · have hsize : (read source).accepted.length = 64 := hlength
    have haccepted : source.bytes.take 64 = (read source).accepted := by
      rw [htakes.bytes_eq]
      exact List.take_left' hsize
    have hlast := (hpasses .segaPcmInterface (Field.mem_all _)).1
    refine Or.inl ⟨hproblem, hlast, ?_, ?_, haccepted.symm, ?_⟩
    · exact hasMagic_of_passes (hpasses .ident (Field.mem_all _))
    · exact hasSupportedVersion_of_passes (hpasses .version (Field.mem_all _))
    · rw [haccepted]
      exact htakes
  · exact Or.inr ⟨problem, hproblem, hstops.rejects hfields hfront⟩

end Header
end SoundLog
