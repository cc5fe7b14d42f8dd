import SoundLog.Proofs.Command.Stored

/-!
# What decoding takes from a source

On an intact source every byte that decoding a command takes is accounted for. In front come
complete reserved opcodes. Behind them stands the stored form of the command, or its beginning when
the input ends there, or bytes that stand for nothing when there is a problem.
-/

namespace SoundLog

namespace Command

variable {version : UInt32} {before cursor : Cursor}

/-- The result accounts for all bytes taken since `before`. -/
def Account (version : UInt32) (before : Cursor) : EStateM.Result Problem Cursor Command → Prop
  | .ok command after =>
    ∃ (opcodes : List (Opcode version)) (stored : List UInt8), Stored command stored ∧
      before.Takes (Opcode.join opcodes ++ stored) after
  | .error problem after =>
    (Exhausted problem ∧ after.source.bytes = [] ∧
        ∃ (opcodes : List (Opcode version)) (cut : List UInt8), Cut version cut ∧
          before.Takes (Opcode.join opcodes ++ cut) after) ∨
      (¬ Exhausted problem ∧ problem.cause = none ∧
        ∃ (opcodes : List (Opcode version)) (bad : List UInt8), Unrecognized version bad ∧
          before.Takes (Opcode.join opcodes ++ bad) after)

namespace Account

theorem of_stored {command : Command} {after : Cursor} {stored : List UInt8}
    (h : Stored command stored) (htakes : before.Takes stored after) :
    Account version before (.ok command after) := ⟨[], stored, h, htakes⟩

theorem of_cut {problem : Problem} {after : Cursor} {cut : List UInt8}
    (hproblem : Exhausted problem) (hend : after.source.bytes = []) (h : Cut version cut)
    (htakes : before.Takes cut after) :
    Account version before (.error problem after) := Or.inl ⟨hproblem, hend, [], cut, h, htakes⟩

theorem of_unrecognized {problem : Problem} {after : Cursor} {bad : List UInt8}
    (hproblem : ¬ Exhausted problem) (hcause : problem.cause = none)
    (h : Unrecognized version bad) (htakes : before.Takes bad after) :
    Account version before (.error problem after) :=
  Or.inr ⟨hproblem, hcause, [], bad, h, htakes⟩

theorem skip (opcode : Opcode version) {result : EStateM.Result Problem Cursor Command}
    (hopcode : before.Takes opcode.bytes cursor) (h : Account version cursor result) :
    Account version before result := by
  cases result with
  | ok command after =>
    obtain ⟨opcodes, stored, hstored, htakes⟩ := h
    refine ⟨opcode :: opcodes, stored, hstored, ?_⟩
    rw [Opcode.join_cons, List.append_assoc]
    exact hopcode.trans htakes
  | error problem after =>
    obtain ⟨hproblem, hend, opcodes, cut, hcut, htakes⟩ |
      ⟨hproblem, hcause, opcodes, bad, hbad, htakes⟩ := h
    · refine Or.inl ⟨hproblem, hend, opcode :: opcodes, cut, hcut, ?_⟩
      rw [Opcode.join_cons, List.append_assoc]
      exact hopcode.trans htakes
    · refine Or.inr ⟨hproblem, hcause, opcode :: opcodes, bad, hbad, ?_⟩
      rw [Opcode.join_cons, List.append_assoc]
      exact hopcode.trans htakes

/-- A field of fixed length that is read behind `front`, and what follows it. -/
theorem of_field {α : Type} {field : Decoder α} {next : α → Decoder Command} {size : Nat}
    {value : List UInt8 → α} {front : List UInt8} (hreads : Reads Exhausted field size value)
    (hfront : before.Takes front cursor)
    (hcut : ∀ taken : List UInt8, taken.length < size → Cut version (front ++ taken))
    (hnext : ∀ (taken : List UInt8) (after : Cursor), taken.length = size →
      before.Takes (front ++ taken) after → Account version before (next (value taken) after)) :
    Account version before ((field >>= next) cursor) := by
  obtain ⟨taken, after, hstep, hlength, htakes⟩ |
    ⟨taken, after, problem, hstep, hproblem, hlength, htakes, hend⟩ := hreads cursor hfront.intact
  · rw [bind_of_ok hstep]
    exact hnext taken after hlength (hfront.trans htakes)
  · rw [bind_of_error hstep]
    exact of_cut hproblem hend (hcut taken hlength) (hfront.trans htakes)

end Account

/-! ## Behind a tag -/

theorem account_decodePayload {kind : Kind} (heof : kind ≠ .eof) (hblock : kind ≠ .dataBlock)
    (htag : before.Takes [kind.tag] cursor) :
    Account version before (decodePayload kind cursor) := by
  rw [← bind_pure (decodePayload kind)]
  refine .of_field (decodePayload_reads heof hblock) htag ?_ ?_
  · intro taken hlength
    let rest := List.replicate (kind.payloadSize - taken.length) (0 : UInt8)
    have hstored := stored_command heof hblock (taken ++ rest) (by simp [rest]; omega)
    exact .of_append rest hstored (by simp [rest]; omega)
  · intro taken after hlength htakes
    exact .of_stored (stored_command heof hblock taken hlength) htakes

theorem cut_dataBlock {front rest : List UInt8} (type : UInt8) (hrest : rest ≠ [])
    (h : front ++ rest = [Kind.dataBlock.tag, dataBlockMark, type, 0, 0, 0, 0]) :
    Cut version front := by
  have hstored := stored_dataBlock type [0, 0, 0, 0] [] rfl rfl
  exact .of_append rest (h ▸ hstored) hrest

theorem account_decodeDataBlock (htag : before.Takes [Kind.dataBlock.tag] cursor) :
    Account version before (decodeDataBlock cursor) := by
  refine .of_field byte_reads htag ?_ ?_
  · intro taken hlength
    obtain rfl := List.eq_nil_of_length_eq_zero (Nat.lt_one_iff.mp hlength)
    exact cut_dataBlock 0 (List.cons_ne_nil _ _) rfl
  intro taken afterMark hlength hfront
  obtain ⟨mark, rfl⟩ := List.length_eq_one_iff.mp hlength
  split
  swap
  · next hmark =>
    exact .of_unrecognized (by simp [Exhausted, Problem.endsCommands]) rfl
      (Or.inr ⟨mark, rfl, hmark⟩) hfront
  next hmark =>
  obtain rfl : mark = dataBlockMark := hmark
  refine .of_field byte_reads hfront ?_ ?_
  · intro taken hlength
    obtain rfl := List.eq_nil_of_length_eq_zero (Nat.lt_one_iff.mp hlength)
    exact cut_dataBlock 0 (List.cons_ne_nil _ _) rfl
  intro taken afterType hlength hfront
  obtain ⟨type, rfl⟩ := List.length_eq_one_iff.mp hlength
  refine .of_field (number_reads 4) hfront ?_ ?_
  · intro taken hlength
    let rest := List.replicate (4 - taken.length) (0 : UInt8)
    let contents := List.replicate (LittleEndian.toNat (taken ++ rest)) (0 : UInt8)
    have hstored := stored_dataBlock type (taken ++ rest) contents (by simp [rest]; omega)
      (by simp [contents])
    exact .of_append (rest ++ contents) (by simpa using hstored) (by simp [rest]; omega)
  intro size afterSize hsize hfront
  refine .of_field (skip_reads (LittleEndian.toNat size)) hfront ?_ ?_
  · intro taken hlength
    let rest := List.replicate (LittleEndian.toNat size - taken.length) (0 : UInt8)
    have hstored := stored_dataBlock type size (taken ++ rest) hsize (by simp [rest]; omega)
    exact .of_append rest (by simpa using hstored) (by simp [rest]; omega)
  intro contents after hcontents htakes
  exact .of_stored (by simpa using stored_dataBlock type size contents hsize hcontents) htakes

theorem account_decodeTagged {header : Header} {tag : UInt8}
    (hreserved : reservedLength? header.hasWideReserved tag = none)
    (htag : before.Takes [tag] cursor) :
    Account header.version before (decodeTagged tag cursor) := by
  have hfree : ∀ length, ¬ ReservedTag header.version tag length := by
    intro length h
    rw [reservedLength?_eq_some_iff.mpr h] at hreserved
    cases hreserved
  cases hkind : Kind.ofTag? tag with
  | none =>
    have hdecode : decodeTagged tag = throw (.unknownTag tag) := by simp only [decodeTagged, hkind]
    rw [hdecode]
    refine .of_unrecognized (by simp [Exhausted, Problem.endsCommands]) rfl
      (Or.inl ⟨tag, rfl, hfree, ?_⟩) htag
    intro kind _ heq
    rw [← heq, Kind.ofTag?_tag] at hkind
    cases hkind
  | some kind =>
    have hdecode : decodeTagged tag = decodePayload kind := by simp only [decodeTagged, hkind]
    rw [hdecode]
    obtain rfl := Kind.tag_of_ofTag? hkind
    by_cases heof : kind = .eof
    · subst heof
      refine .of_unrecognized (by simp [Exhausted, Problem.endsCommands]) rfl
        (Or.inl ⟨_, rfl, hfree, ?_⟩) htag
      intro other hother heq
      have hlookup := Kind.ofTag?_tag other
      rw [heq, Kind.ofTag?_tag] at hlookup
      exact hother (Option.some.inj hlookup).symm
    · by_cases hblock : kind = .dataBlock
      · subst hblock
        exact account_decodeDataBlock htag
      · exact account_decodePayload heof hblock htag

/-! ## Behind reserved opcodes -/

theorem cut_nil : Cut version [] := by
  have hstored : Stored .wait735 ([] ++ [0x62]) := ⟨by simp, [], rfl, rfl⟩
  exact .of_append [0x62] hstored (List.cons_ne_nil _ _)

theorem cut_opcode {tag : UInt8} {length : Nat} (h : ReservedTag version tag length)
    {taken : List UInt8} (htaken : taken.length < length) : Cut version (tag :: taken) := by
  let rest := List.replicate (length - taken.length) (0 : UInt8)
  have hlength : (taken ++ rest).length = length := by simp [rest]; omega
  refine ⟨tag :: (taken ++ rest), Or.inl ⟨⟨tag, taken ++ rest, hlength ▸ h⟩, rfl⟩,
    List.prefix_append _ _, ?_⟩
  intro heq
  have hlengths := congrArg List.length heq
  simp only [List.length_cons, hlength] at hlengths
  omega

theorem account_decode {header : Header} (hintact : cursor.source.Intact) :
    Account header.version cursor (decode header.hasWideReserved cursor) := by
  -- along the opcodes in front of the command
  fun_induction decode header.hasWideReserved cursor with
  | case1 cursor problem after htag =>
    obtain ⟨hproblem, hend, taken, hlength, htakes⟩ := byte_reads.takes_of_error hintact htag
    obtain rfl := List.eq_nil_of_length_eq_zero (Nat.lt_one_iff.mp hlength)
    exact .of_cut hproblem hend cut_nil htakes
  | case2 cursor tag afterTag htag hreserved =>
    obtain ⟨taken, rfl, hlength, htakes⟩ := byte_reads.takes_of_ok hintact htag
    obtain ⟨tag, rfl⟩ := List.length_eq_one_iff.mp hlength
    exact account_decodeTagged hreserved htakes
  | case3 cursor tag afterTag htag length hreserved problem after hskip =>
    obtain ⟨taken, rfl, hlength, htakes⟩ := byte_reads.takes_of_ok hintact htag
    obtain ⟨tag, rfl⟩ := List.length_eq_one_iff.mp hlength
    obtain ⟨hproblem, hend, rest, hshort, hrest⟩ :=
      (skip_reads length).takes_of_error htakes.intact hskip
    have hcut := cut_opcode (reservedLength?_eq_some_iff.mp hreserved) hshort
    exact .of_cut hproblem hend hcut (htakes.trans hrest)
  | case4 cursor tag afterTag htag length hreserved after hskip hsize ih =>
    obtain ⟨taken, rfl, hlength, htakes⟩ := byte_reads.takes_of_ok hintact htag
    obtain ⟨tag, rfl⟩ := List.length_eq_one_iff.mp hlength
    obtain ⟨payload, -, hpayload, hrest⟩ := (skip_reads length).takes_of_ok htakes.intact hskip
    have hopcode := reservedLength?_eq_some_iff.mp hreserved
    let opcode : Opcode header.version := ⟨tag, payload, hpayload ▸ hopcode⟩
    exact .skip opcode (htakes.trans hrest) (ih hrest.intact)

end Command
end SoundLog
