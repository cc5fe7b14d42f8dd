import SoundLog.Stream.Cursor

/-!
# Filling a buffer

A device is asked for as many bytes as there is room for, and brings fewer if its next piece is
shorter. A buffer is filled by asking again for what is still missing, past interruptions, until it
is full or a read brings nothing. This comes to the same bytes, failures and cursors as fetching
the bytes one at a time.
-/

namespace SoundLog

inductive Portion
  | bytes (taken : List UInt8) (rest : Source)
  | interrupted (rest : Source)
  | fault (fault : Fault) (rest : Source)

namespace Source

/-- One read with room for `room` bytes. What does not fit of a piece is left for the next read. -/
def portion (room : Nat) : Source → Portion
  | [] => .bytes [] []
  | .chunk b bs :: rest => .bytes ((b :: bs).take room) (ofBytes ((b :: bs).drop room) ++ rest)
  | .interrupted :: rest => .interrupted rest
  | .pause :: rest => .bytes [] rest
  | .fault f :: rest => .fault f rest

section

variable {room : Nat} {source rest : Source}

theorem eq_of_portion_interrupted (h : source.portion room = .interrupted rest) :
    source = .interrupted :: rest := by
  cases source with
  | nil => cases h
  | cons delivery source =>
    cases delivery <;> cases h
    rfl

theorem length_of_portion_interrupted (h : source.portion room = .interrupted rest) :
    rest.length < source.length := by
  rw [eq_of_portion_interrupted h]
  exact Nat.lt_succ_self _

theorem eq_of_portion_fault {f : Fault} (h : source.portion room = .fault f rest) :
    source = .fault f :: rest := by
  cases source with
  | nil => cases h
  | cons delivery source =>
    cases delivery <;> cases h
    rfl

/-- A read with room that brings nothing has met the end. -/
theorem pull_of_portion_nil (hroom : 0 < room) (h : source.portion room = .bytes [] rest) :
    source.pull = .ended rest := by
  cases source with
  | nil =>
    cases h
    rfl
  | cons delivery source =>
    cases delivery with
    | chunk b bs =>
      obtain ⟨room, rfl⟩ := Nat.exists_eq_succ_of_ne_zero (Nat.ne_of_gt hroom)
      cases h
    | interrupted => cases h
    | pause =>
      cases h
      rfl
    | fault f => cases h

/-- What a read brings is the front of a piece. -/
theorem exists_of_portion_bytes {taken : List UInt8} (hne : taken ≠ [])
    (h : source.portion room = .bytes taken rest) :
    taken.length ≤ room ∧ ∃ left later,
      source = ofBytes (taken ++ left) ++ later ∧ rest = ofBytes left ++ later := by
  cases source with
  | nil =>
    cases h
    exact absurd rfl hne
  | cons delivery source =>
    cases delivery with
    | chunk b bs =>
      cases h
      refine ⟨List.length_take_le _ _, (b :: bs).drop room, source, ?_, rfl⟩
      rw [List.take_append_drop]
      rfl
    | interrupted => cases h
    | pause =>
      cases h
      exact absurd rfl hne
    | fault f => cases h

theorem pull_ofBytes_cons (b : UInt8) (bs : List UInt8) (rest : Source) :
    pull (ofBytes (b :: bs) ++ rest) = .byte b (ofBytes bs ++ rest) := by
  cases bs <;> rfl

end

end Source

namespace Reader

/-- Reads until a buffer of `wanted` places, of which `filled` are taken, is full. -/
def fill (wanted : Nat) (filled : List UInt8) (cursor : Cursor) :
    EStateM.Result Failure Cursor (List UInt8) :=
  if filled.length < wanted then
    match _ : cursor.source.portion (wanted - filled.length) with
    | .bytes [] rest => .error (.shortRead filled.length wanted) { cursor with source := rest }
    | .bytes (b :: bs) rest =>
      fill wanted (filled ++ b :: bs) ⟨rest, cursor.offset + (b :: bs).length⟩
    | .interrupted rest => fill wanted filled { cursor with source := rest }
    | .fault f rest => .error (.fault f) { cursor with source := rest }
  else .ok filled cursor
termination_by (wanted - filled.length, cursor.source.length)
decreasing_by
  · apply Prod.Lex.left
    simp only [List.length_append, List.length_cons]
    omega
  · apply Prod.Lex.right
    exact Source.length_of_portion_interrupted (by assumption)

def array (n : Nat) : Reader (List UInt8) := fill n []

/-! ## Byte by byte -/

section

variable {α β : Type} {step step' : Reader α} {cursor cursor' after : Cursor}

theorem map_congr (f : α → β) (h : step cursor = step' cursor') :
    (f <$> step) cursor = (f <$> step') cursor' := by
  change EStateM.map f step cursor = EStateM.map f step' cursor'
  rw [EStateM.map, EStateM.map, h]

theorem map_of_error (f : α → β) {e : Failure} (h : step cursor = .error e after) :
    (f <$> step) cursor = .error e after := by
  change EStateM.map f step cursor = _
  rw [EStateM.map, h]

end

variable {n : Nat} {cursor : Cursor} {rest : Source}

theorem collect_of_ended (wanted : Nat) (hn : 0 < n) (h : cursor.source.pull = .ended rest) :
    collect wanted n cursor =
      .error (.shortRead (wanted - n) wanted) { cursor with source := rest } := by
  obtain ⟨n, rfl⟩ := Nat.exists_eq_succ_of_ne_zero (Nat.ne_of_gt hn)
  simp only [collect, h]

theorem collect_of_fault (wanted : Nat) (hn : 0 < n) {f : Fault}
    (h : cursor.source.pull = .fault f rest) :
    collect wanted n cursor = .error (.fault f) { cursor with source := rest } := by
  obtain ⟨n, rfl⟩ := Nat.exists_eq_succ_of_ne_zero (Nat.ne_of_gt hn)
  simp only [collect, h]

theorem collect_interrupted (wanted : Nat) (hn : 0 < n) (rest : Source) (offset : Nat) :
    collect wanted n ⟨.interrupted :: rest, offset⟩ = collect wanted n ⟨rest, offset⟩ := by
  obtain ⟨n, rfl⟩ := Nat.exists_eq_succ_of_ne_zero (Nat.ne_of_gt hn)
  have hpull : Source.pull (.interrupted :: rest) = rest.pull := rfl
  simp only [collect, hpull]

/-- The bytes at the front of a piece can be taken at once. -/
theorem collect_append (wanted n offset : Nat) (taken left : List UInt8) (rest : Source) :
    collect wanted (taken.length + n) ⟨Source.ofBytes (taken ++ left) ++ rest, offset⟩ =
      ((taken ++ ·) <$> collect wanted n)
        ⟨Source.ofBytes left ++ rest, offset + taken.length⟩ := by
  change _ = EStateM.map _ _ _
  induction taken generalizing offset with
  | nil =>
    rw [List.length_nil, Nat.zero_add, List.nil_append, Nat.add_zero, EStateM.map]
    cases collect wanted n ⟨Source.ofBytes left ++ rest, offset⟩ <;> rfl
  | cons b bs ih =>
    rw [List.length_cons, Nat.add_right_comm]
    simp only [collect, List.cons_append, Source.pull_ofBytes_cons, ih]
    rw [Nat.add_assoc offset, Nat.add_comm 1, EStateM.map, EStateM.map]
    cases collect wanted n ⟨Source.ofBytes left ++ rest, offset + (bs.length + 1)⟩ <;> rfl

theorem collect_of_portion (wanted : Nat) {taken : List UInt8} (hne : taken ≠ [])
    (h : cursor.source.portion n = .bytes taken rest) :
    collect wanted n cursor =
      ((taken ++ ·) <$> collect wanted (n - taken.length)) ⟨rest, cursor.offset + taken.length⟩ := by
  obtain ⟨source, offset⟩ := cursor
  obtain ⟨hlength, left, later, rfl, rfl⟩ := Source.exists_of_portion_bytes hne h
  have hcollect := collect_append wanted (n - taken.length) offset taken left later
  rwa [Nat.add_sub_cancel' hlength] at hcollect

/-- Filling what is left of a buffer fetches the missing bytes. -/
theorem fill_eq_collect {wanted : Nat} {filled : List UInt8} (cursor : Cursor)
    (h : filled.length ≤ wanted) :
    fill wanted filled cursor =
      ((filled ++ ·) <$> collect wanted (wanted - filled.length)) cursor := by
  fun_induction fill wanted filled cursor with
  | case1 filled cursor hroom rest hread =>
    have hmissing := Nat.sub_pos_of_lt hroom
    have hcollect := collect_of_ended wanted hmissing (Source.pull_of_portion_nil hmissing hread)
    rw [Nat.sub_sub_self h] at hcollect
    exact (map_of_error _ hcollect).symm
  | case2 filled cursor hroom b bs rest hread ih =>
    have hlength := (Source.exists_of_portion_bytes (List.cons_ne_nil b bs) hread).1
    have hfits : (filled ++ b :: bs).length ≤ wanted := by
      rw [List.length_append]
      omega
    have hcollect := collect_of_portion wanted (List.cons_ne_nil b bs) hread
    rw [ih hfits, map_congr _ hcollect, Functor.map_map, List.length_append, ← Nat.sub_sub]
    simp only [List.append_assoc]
  | case3 filled cursor hroom rest hread ih =>
    obtain ⟨source, offset⟩ := cursor
    obtain rfl := Source.eq_of_portion_interrupted hread
    rw [ih h]
    exact (map_congr _ (collect_interrupted wanted (Nat.sub_pos_of_lt hroom) rest offset)).symm
  | case4 filled cursor hroom f rest hread =>
    obtain ⟨source, offset⟩ := cursor
    obtain rfl := Source.eq_of_portion_fault hread
    exact (map_of_error _ (collect_of_fault wanted (Nat.sub_pos_of_lt hroom) rfl)).symm
  | case5 filled cursor hfull =>
    rw [Nat.sub_eq_zero_of_le (Nat.le_of_not_lt hfull)]
    exact congrArg (EStateM.Result.ok · cursor) (List.append_nil filled).symm

/-- Filling a buffer and fetching its bytes one at a time are the same. -/
theorem array_eq_bytes (n : Nat) : array n = bytes n := by
  funext cursor
  rw [array, fill_eq_collect cursor (Nat.zero_le n), bytes]
  change EStateM.map _ _ _ = _
  rw [EStateM.map]
  cases collect n n cursor <;> rfl

/-- A single byte is an array of one. -/
theorem byte_eq_array : byte = (fun bs => bs.headD 0) <$> array 1 := by
  funext cursor
  rw [array_eq_bytes]
  change _ = EStateM.map _ _ _
  unfold byte EStateM.map bytes collect collect
  cases cursor.source.pull <;> rfl

end Reader
end SoundLog
