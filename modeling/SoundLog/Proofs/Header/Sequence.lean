import SoundLog.Proofs.Header.Acceptance
import SoundLog.Proofs.Stream.Faults
import SoundLog.Proofs.Stream.Filling
import SoundLog.Proofs.Track.Opening

/-!
# A header read by read

Here a log is opened by typed reads in a fixed order. The table of fields is asked for what has to
be added to relative positions, and in three assertions about the place that has been reached, but
not for where to read or how much. Each read turns out to stand at the place of its field and to be
of its length, on whatever source: no assertion fails, and the reads come to what the table gives.
-/

namespace SoundLog
namespace Opening

inductive Stop
  | report (d : Diagnostic)
  /-- An assertion about the place that has been reached does not hold. -/
  | misplaced

abbrev Parser := EStateM Stop Cursor

/-! ## Steps -/

/-- A diagnostic tells the place that a reader has reached when it fails. -/
def attempt {α : Type} (path : Option String) (problem : Failure → Problem) (reader : Reader α) :
    Parser α := fun cursor =>
  match reader cursor with
  | .ok a after => .ok a after
  | .error failure after => .error (.report ⟨after.offset, path, problem failure⟩) after

def require (path : Option String) (condition : Bool) (problem : Problem) : Parser Unit :=
  fun cursor =>
    if condition then .ok () cursor
    else .error (.report ⟨cursor.offset, path, problem⟩) cursor

def assertAt (place : Nat) : Parser Unit := fun cursor =>
  if cursor.offset = place then .ok () cursor else .error .misplaced cursor

def array (path : Option String) (n : Nat) : Parser (List UInt8) :=
  attempt path .unreadable (Reader.array n)

def u8 (path : Option String) : Parser UInt8 := (fun bs => bs.headD 0) <$> array path 1

def u16 (path : Option String) : Parser UInt16 :=
  (fun bs => UInt16.ofNat (LittleEndian.toNat bs)) <$> array path 2

def u32 (path : Option String) : Parser UInt32 :=
  (fun bs => UInt32.ofNat (LittleEndian.toNat bs)) <$> array path 4

/-- A clock of zero belongs to a chip that is not there. -/
def clock (raw : UInt32) : Option UInt32 := if raw ≠ 0 then some raw else none

/-- The position that is meant by an offset read from a field. -/
def resolve (field : Field) (raw : UInt32) : Option Nat := do
  let base ← field.relativeBase
  if raw ≠ 0 then some (raw.toNat + base) else none

/-! ## The sequence -/

def header (path : Option String) : Parser Header := do
  let ident ← array path 4
  require path (ident = Header.magic) (.badMagic ident)
  assertAt Field.eofOffset.offset
  let rawEof ← u32 path
  let version ← u32 path
  require path (Header.isSupportedVersion version) (.unsupportedVersion version)
  assertAt Field.sn76489Clock.offset
  let sn76489Clock ← u32 path
  let ym2413Clock ← u32 path
  let rawGd3 ← u32 path
  let sampleCount ← u32 path
  let rawLoop ← u32 path
  let loopSampleCount ← u32 path
  let rate ← u32 path
  let sn76489Feedback ← u16 path
  let sn76489Width ← u8 path
  let sn76489Flags ← u8 path
  let ym2612Clock ← u32 path
  let ym2151Clock ← u32 path
  let rawData ← u32 path
  let segaPcmClock ← u32 path
  let segaPcmInterface ← u32 path
  assertAt Header.size
  return {
    eofOffset := rawEof.toNat + Field.eofOffset.offset
    version
    sn76489Clock := clock sn76489Clock
    ym2413Clock := clock ym2413Clock
    gd3Offset := resolve .gd3Offset rawGd3
    sampleCount
    loopOffset := resolve .loopOffset rawLoop
    loopSampleCount := clock loopSampleCount
    rate
    sn76489Feedback
    sn76489Width
    sn76489Flags
    ym2612Clock := clock ym2612Clock
    ym2151Clock := clock ym2151Clock
    dataOffset := (resolve .dataOffset rawData).getD 12
    segaPcmClock := clock segaPcmClock
    segaPcmInterface }

def skipGap (path : Option String) (header : Header) : Parser Unit := fun cursor =>
  if cursor.offset < header.dataOffset then
    attempt path (.shortGap header.dataOffset)
      (Reader.skip (header.dataOffset - cursor.offset)) cursor
  else .ok () cursor

def track (path : Option String) : Parser Track := do
  let header ← header path
  skipGap path header
  return { path, header, cursor := ← get }

/-- Opens a log by the sequence. -/
def parse (path : Option String) (source : Source) : Except Stop Track :=
  match track path { source } with
  | .ok track _ => .ok track
  | .error stop _ => .error stop

/-! ## Places -/

/-- The cursor has come to a place of a log. -/
structure Reaches (cursor : Cursor) (log : List UInt8) (place : Nat) : Prop where
  offset_eq : cursor.offset = place
  bytes_eq : cursor.source.bytes = log.drop place

theorem bytes_of_pull_byte {source rest : Source} {b : UInt8} (h : source.pull = .byte b rest) :
    source.bytes = b :: rest.bytes := by
  rw [← Source.filterMap_arrivals, Source.arrivals_of_pull_byte h, ← Source.filterMap_arrivals]
  rfl

/-- The byte that comes next stands at the place reached. -/
theorem Reaches.next {place : Nat} {cursor : Cursor} {log : List UInt8} {b : UInt8} {rest : Source}
    (h : Reaches cursor log place) (hpull : cursor.source.pull = .byte b rest) :
    log.drop place = b :: log.drop (place + 1) ∧
      Reaches ⟨rest, cursor.offset + 1⟩ log (place + 1) := by
  have hdrop : log.drop place = b :: rest.bytes := h.bytes_eq.symm.trans (bytes_of_pull_byte hpull)
  have hrest : rest.bytes = log.drop (place + 1) := by
    rw [← List.drop_drop, hdrop, List.drop_one, List.tail_cons]
  refine ⟨hrest ▸ hdrop, ?_, hrest⟩
  rw [h.offset_eq]

/-- What has been collected stood at the place where it was asked for. -/
theorem Reaches.of_collect {wanted n place : Nat} {cursor after : Cursor} {log bs : List UInt8}
    (h : Reaches cursor log place) (hcollect : Reader.collect wanted n cursor = .ok bs after) :
    bs = (log.drop place).take n ∧ Reaches after log (place + n) := by
  induction n generalizing cursor place bs with
  | zero =>
    cases hcollect
    exact ⟨List.take_zero.symm, h⟩
  | succ n ih =>
    unfold Reader.collect at hcollect
    cases hpull : cursor.source.pull with
    | byte b rest =>
      obtain ⟨hdrop, hnext⟩ := h.next hpull
      simp only [hpull] at hcollect
      cases hrest : Reader.collect wanted n ⟨rest, cursor.offset + 1⟩ with
      | ok bs' after' =>
        rw [hrest] at hcollect
        cases hcollect
        obtain ⟨hbs, hafter⟩ := ih hnext hrest
        rw [Nat.add_right_comm] at hafter
        refine ⟨?_, hafter⟩
        rw [hbs, hdrop, List.take_succ_cons]
      | error failure after' =>
        rw [hrest] at hcollect
        cases hcollect
    | ended rest =>
      simp only [hpull] at hcollect
      cases hcollect
    | fault f rest =>
      simp only [hpull] at hcollect
      cases hcollect

/-! ## The sequence and the table -/

/-- What a parser of headers comes to when the fields have been read by the table, with `taken` in
front of them. -/
def outcome (path : Option String) (taken : List UInt8) (reading : Header.Reading) :
    EStateM.Result Stop Cursor Header :=
  match reading.problem with
  | some problem => .error (.report ⟨reading.cursor.offset, path, problem⟩) reading.cursor
  | none => .ok (Header.ofBytes (taken ++ reading.accepted)) reading.cursor

/-- From a place of the log on the parser comes to what reading the fields by the table comes to. -/
def Follows (path : Option String) (log : List UInt8) (place : Nat) (fields : List Field)
    (parser : Parser Header) : Prop :=
  ∀ cursor, Reaches cursor log place →
    parser cursor = outcome path (log.take place) (Header.readFields fields cursor)

section

variable {α : Type} {path : Option String} {n : Nat} {cursor after : Cursor}

theorem map_array_of_ok (value : List UInt8 → α) {bytes : List UInt8}
    (h : Reader.bytes n cursor = .ok bytes after) :
    (value <$> array path n) cursor = .ok (value bytes) after := by
  change EStateM.map value (array path n) cursor = _
  simp only [EStateM.map, array, attempt, Reader.array_eq_bytes, h]

theorem map_array_of_error (value : List UInt8 → α) {failure : Failure}
    (h : Reader.bytes n cursor = .error failure after) :
    (value <$> array path n) cursor =
      .error (.report ⟨after.offset, path, .unreadable failure⟩) after := by
  change EStateM.map value (array path n) cursor = _
  simp only [EStateM.map, array, attempt, Reader.array_eq_bytes, h]

end

section

variable {path : Option String} {header : Header} {cursor after : Cursor}

/-- A gap is skipped even where it is empty. -/
theorem skipGap_eq (path : Option String) (header : Header) (cursor : Cursor) :
    skipGap path header cursor =
      attempt path (.shortGap header.dataOffset)
        (Reader.skip (header.dataOffset - cursor.offset)) cursor := by
  unfold skipGap
  split
  · rfl
  · next hle =>
    rw [Nat.sub_eq_zero_of_le (Nat.le_of_not_lt hle)]
    rfl

theorem skipGap_of_ok (h : Reader.skip (header.dataOffset - cursor.offset) cursor = .ok () after) :
    skipGap path header cursor = .ok () after := by
  rw [skipGap_eq, attempt, h]

theorem skipGap_of_error {failure : Failure}
    (h : Reader.skip (header.dataOffset - cursor.offset) cursor = .error failure after) :
    skipGap path header cursor =
      .error (.report ⟨after.offset, path, .shortGap header.dataOffset failure⟩) after := by
  rw [skipGap_eq, attempt, h]

end

namespace Follows

variable {path : Option String} {log : List UInt8} {place n : Nat} {field : Field}
  {fields : List Field} {α : Type} {value : List UInt8 → α} {next : α → Parser Header}

theorem of_pure {header : Header} (h : header = Header.ofBytes (log.take place)) :
    Follows path log place [] (pure header) := by
  intro cursor _
  change EStateM.Result.ok header cursor = .ok (Header.ofBytes (log.take place ++ [])) cursor
  rw [h, List.append_nil]

theorem assertAt {expected : Nat} {parser : Parser Header} (hplace : expected = place)
    (h : Follows path log place fields parser) :
    Follows path log place fields (assertAt expected >>= fun _ => parser) := by
  intro cursor hcursor
  have hholds : Opening.assertAt expected cursor = .ok () cursor := by
    rw [Opening.assertAt, if_pos (hcursor.offset_eq.trans hplace.symm)]
  rw [bind_of_ok hholds]
  exact h cursor hcursor

/-- A read at the place of a field and of its length, if the rest of the parser makes the same of
the bytes as the table. -/
theorem of_read (hplace : field.offset = place) (hlength : field.length = n)
    (hnext : ∀ after, Reaches after log field.stop →
      next (value (field.slice log)) after =
        match Header.objection? field (field.slice log) with
        | some problem => .error (.report ⟨after.offset, path, problem⟩) after
        | none => outcome path (log.take field.stop) (Header.readFields fields after)) :
    Follows path log place (field :: fields) (value <$> array path n >>= next) := by
  subst hplace hlength
  intro cursor hcursor
  unfold Header.readFields
  cases hread : Reader.bytes field.length cursor with
  | ok bytes after =>
    obtain ⟨rfl, hafter⟩ := hcursor.of_collect hread
    rw [bind_of_ok (map_array_of_ok value hread)]
    change next (value (field.slice log)) after = _
    rw [hnext after hafter]
    change _ = outcome path _ (match Header.objection? field (field.slice log) with
      | some problem => ⟨[], some problem, after⟩
      | none => _)
    cases Header.objection? field (field.slice log) with
    | some problem => rfl
    | none =>
      have htake : log.take field.stop = log.take field.offset ++ field.slice log := List.take_add
      rw [htake]
      unfold outcome
      simp only [List.append_assoc]
      rfl
  | error failure after =>
    rw [bind_of_error (map_array_of_error value hread)]
    rfl

/-- A read of a field that is not checked. -/
theorem read (hplace : field.offset = place) (hlength : field.length = n)
    (hnone : Header.objection? field (field.slice log) = none)
    (hnext : Follows path log field.stop fields (next (value (field.slice log)))) :
    Follows path log place (field :: fields) (value <$> array path n >>= next) := by
  apply of_read hplace hlength
  intro after hafter
  rw [hnone]
  exact hnext after hafter

/-- A read of a field that is checked at once. -/
theorem checked {condition : α → Bool} {problem : α → Problem} (hplace : field.offset = place)
    (hlength : field.length = n)
    (hcheck : Header.objection? field (field.slice log) =
      if condition (value (field.slice log)) then none
      else some (problem (value (field.slice log))))
    (hnext : Follows path log field.stop fields (next (value (field.slice log)))) :
    Follows path log place (field :: fields)
      (value <$> array path n >>= fun a => require path (condition a) (problem a) >>= fun _ =>
        next a) := by
  apply of_read hplace hlength
  intro after hafter
  rw [hcheck]
  cases hcondition : condition (value (field.slice log)) with
  | true =>
    have hrequire : require path true (problem (value (field.slice log))) after = .ok () after := rfl
    rw [bind_of_ok hrequire]
    exact hnext after hafter
  | false =>
    have hrequire : require path false (problem (value (field.slice log))) after =
      .error (.report ⟨after.offset, path, problem (value (field.slice log))⟩) after := rfl
    rw [bind_of_error hrequire]
    rfl

end Follows

/-! ## What was read -/

section

variable {log : List UInt8} {field : Field}

theorem toNat_word (h : field.length = 4) :
    (UInt32.ofNat (LittleEndian.toNat (field.slice log))).toNat = Header.storedValue log field := by
  have hlt := Header.storedValue_lt log field
  rw [h] at hlt
  exact UInt32.toNat_ofNat_of_lt' hlt

theorem word_eq_zero_iff (h : field.length = 4) :
    UInt32.ofNat (LittleEndian.toNat (field.slice log)) = 0 ↔ Header.storedValue log field = 0 := by
  rw [← UInt32.toNat_inj, toNat_word h, UInt32.toNat_zero]

theorem clock_word (h : field.length = 4) :
    clock (UInt32.ofNat (LittleEndian.toNat (field.slice log))) =
      Header.present? (Header.storedValue log field) := by
  simp only [clock, Header.present?, ne_eq, ite_not, word_eq_zero_iff h]
  rfl

theorem resolve_word (h : field.length = 4) :
    resolve field (UInt32.ofNat (LittleEndian.toNat (field.slice log))) =
      Header.position? field (Header.storedValue log field) := by
  simp only [resolve, Header.position?, ne_eq, ite_not, word_eq_zero_iff h, toNat_word h]
  rfl

theorem headD_slice (h : field.length = 1) :
    (field.slice log).headD 0 = UInt8.ofNat (Header.storedValue log field) := by
  have hlength : (field.slice log).length ≤ 1 := h ▸ List.length_take_le _ _
  unfold Header.storedValue
  generalize field.slice log = bytes at hlength
  match bytes, hlength with
  | [], _ => rfl
  | [b], _ => simp

end

/-- The parser of headers comes to what the table of the fields gives. -/
theorem header_follows (path : Option String) (log : List UInt8) :
    Follows path log 0 Field.all (header path) := by
  unfold header
  rw [← id_map (array path 4)]
  apply Follows.checked (by rfl) (by rfl)
  · simp [Header.objection?]
  apply Follows.assertAt (by rfl)
  apply Follows.read (by rfl) (by rfl) (by rfl)
  apply Follows.checked (by rfl) (by rfl) (by rfl)
  apply Follows.assertAt (by rfl)
  iterate 15 apply Follows.read (by rfl) (by rfl) (by rfl)
  apply Follows.assertAt (by rfl)
  apply Follows.of_pure
  change _ = Header.ofBytes (log.take 64)
  rw [Header.ofBytes_take, Header.ofBytes, Header.ofValues]
  simp (disch := decide) only [clock_word, resolve_word, toNat_word, headD_slice]
  rfl

/-- Opening a log by the sequence is opening it by the table. -/
theorem parse_eq_open (path : Option String) (source : Source) :
    parse path source = (Track.open path source).mapError .report := by
  have hstart : Reaches { source } source.bytes 0 := ⟨rfl, rfl⟩
  have hheader := header_follows path source.bytes { source } hstart
  change header path { source } = outcome path [] (Header.read source) at hheader
  unfold parse track
  cases hproblem : (Header.read source).problem with
  | some problem =>
    simp only [outcome, hproblem] at hheader
    rw [bind_of_error hheader, Track.open_of_problem hproblem]
    rfl
  | none =>
    simp only [outcome, hproblem, List.nil_append] at hheader
    rw [bind_of_ok hheader]
    cases hskip : Reader.skip (Track.gap (Header.read source)) (Header.read source).cursor with
    | ok value cursor =>
      rw [bind_of_ok (skipGap_of_ok hskip), Track.open_of_skip hproblem hskip]
      rfl
    | error failure cursor =>
      rw [bind_of_error (skipGap_of_error hskip), Track.open_of_skip_error hproblem hskip]
      rfl

end Opening
end SoundLog
