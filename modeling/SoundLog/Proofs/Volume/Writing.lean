import SoundLog.Volume.Basic

/-!
# Files that are written

Writing a file changes what is in one place and nothing else: every path that led somewhere still
leads there, for no way goes through a place where a file can be put. So when several files are
written whose paths never lead to the same place, each of them ends up with its own contents.
-/

namespace SoundLog

/-! ## Names of files -/

namespace Path

/-- A text that names something in a directory. -/
structure IsFileName (name : String) : Prop where
  no_slash : '/' ∉ name.toList
  ne_empty : name ≠ ""
  ne_here : name ≠ "."
  ne_up : name ≠ ".."

theorem IsFileName.step_eq {name : String} (h : IsFileName name) (place : Place) :
    place.step name = place ++ [name] := by
  have hroot : name ≠ root := by
    rintro rfl
    exact h.no_slash (by decide)
  rw [Place.step, if_neg (not_or.mpr ⟨h.ne_empty, h.ne_here⟩), if_neg h.ne_up, if_neg hroot]

theorem names_of_slash (directory : String) {name : String} (h : '/' ∉ name.toList) :
    names (directory ++ "/" ++ name) = names directory ++ [name] := by
  have hlist : (directory ++ "/" ++ name).toList = directory.toList ++ '/' :: name.toList := by
    simp
  rw [names, hlist, List.splitOn_append_cons_self, List.splitOn_eq_singleton h, List.map_append,
    List.map_singleton, String.ofList_toList, names]

/-- The last step of a path that was joined is the name behind the directory. -/
theorem exists_steps_join (directory : String) {name : String} (h : '/' ∉ name.toList) :
    ∃ front, steps (join directory name) = front ++ [name] := by
  have hnames : ∃ front, names (join directory name) = front ++ [name] := by
    unfold join
    split
    · next hends =>
      rcases hends with rfl | hslash
      · refine ⟨[], ?_⟩
        rw [names, String.empty_append, List.splitOn_eq_singleton h, List.map_singleton,
          String.ofList_toList, List.nil_append]
      · obtain ⟨parent, rfl⟩ := String.endsWith_char_iff_exists_append.mp hslash
        exact ⟨names parent, names_of_slash parent h⟩
    · exact ⟨names directory, names_of_slash directory h⟩
  obtain ⟨front, hfront⟩ := hnames
  exact ⟨_, by rw [steps, hfront, ← List.append_assoc]⟩

end Path

namespace Volume

variable {volume changed final : Volume} {place start reached : Place} {content : List UInt8}

/-! ## Putting a file -/

theorem lookup_cons_ite (here other : Place) (found : Entry) (entries : List (Place × Entry)) :
    ((here, found) :: entries).lookup other =
      if other = here then some found else entries.lookup other := by
  by_cases hother : other = here
  · rw [if_pos hother, List.lookup_cons, beq_iff_eq.mpr hother]
  · rw [if_neg hother, List.lookup_cons, beq_eq_false_iff_ne.mpr hother]

theorem lookup_replace (entries : List (Place × Entry)) (place other : Place) (entry : Entry) :
    (entries.map fun old => if old.1 = place then (place, entry) else old).lookup other =
      if other = place then (entries.lookup place).map fun _ => entry else entries.lookup other := by
  induction entries with
  | nil => simp
  | cons old entries ih =>
    obtain ⟨here, found⟩ := old
    rw [List.map_cons, lookup_cons_ite, lookup_cons_ite]
    by_cases hhere : here = place
    · subst hhere
      rw [if_pos rfl, lookup_cons_ite, ih, if_pos rfl]
      split <;> rfl
    · rw [if_neg hhere, lookup_cons_ite, ih, if_neg (Ne.symm hhere)]
      by_cases hother : other = here
      · rw [if_pos hother, if_neg (by rwa [hother]), if_pos hother]
      · rw [if_neg hother, if_neg hother]

theorem lookup_put (volume : Volume) (place other : Place) (entry : Entry) :
    (volume.put place entry).entries.lookup other =
      if other = place then some entry else volume.entries.lookup other := by
  unfold put
  cases hfound : volume.entries.lookup place with
  | some old => simp only [Option.isSome_some, if_true, lookup_replace, hfound, Option.map_some]
  | none =>
    rw [Option.isSome_none, if_neg Bool.false_ne_true, List.lookup_append, lookup_cons_ite]
    by_cases hother : other = place
    · rw [if_pos hother, if_pos hother, hother, hfound, Option.none_or]
    · rw [if_neg hother, if_neg hother, List.lookup_nil, Option.or_none]

theorem isAncestor_eq_false (hplace : volume.entry? place ≠ some .directory) :
    place.isAncestor = false := by
  rw [Bool.eq_false_iff]
  intro h
  exact hplace (if_pos h)

theorem entry_put (hplace : volume.entry? place ≠ some .directory) (other : Place)
    (entry : Entry) :
    Volume.entry? (volume.put place entry) other =
      if other = place then some entry else volume.entry? other := by
  unfold entry?
  rw [lookup_put]
  by_cases hother : other = place
  · rw [if_pos hother, if_pos hother, hother, if_neg]
    exact Bool.eq_false_iff.mp (isAncestor_eq_false hplace)
  · rw [if_neg hother, if_neg hother]

theorem walk_cons_eq_ok {name : String} {names : List String} :
    volume.walk start (name :: names) = .ok reached ↔
      volume.entry? start = some .directory ∧ ¬ maxNameSize < name.utf8ByteSize ∧
        volume.walk (start.step name) names = .ok reached := by
  rw [walk]
  cases volume.entry? start with
  | none => simp
  | some found =>
    cases found with
    | file content => simp
    | directory =>
      by_cases hsize : maxNameSize < name.utf8ByteSize
      · simp [hsize]
      · simp [hsize]

/-- No way through directories is changed by an entry where there is no directory. -/
theorem walk_put {names : List String} (hplace : volume.entry? place ≠ some .directory)
    (entry : Entry) (h : volume.walk start names = .ok reached) :
    (volume.put place entry).walk start names = .ok reached := by
  induction names generalizing start with
  | nil => exact h
  | cons name names ih =>
    obtain ⟨hstart, hsize, hrest⟩ := walk_cons_eq_ok.mp h
    have hne : start ≠ place := by
      rintro rfl
      exact hplace hstart
    refine walk_cons_eq_ok.mpr ⟨?_, hsize, ih hrest⟩
    rw [entry_put hplace, if_neg hne, hstart]

theorem resolve_put {path : String} (hplace : volume.entry? place ≠ some .directory)
    (entry : Entry) (h : volume.resolve path = .ok reached) :
    (volume.put place entry).resolve path = .ok reached := by
  unfold resolve at h ⊢
  cases hrefusal : refusal? path with
  | some error =>
    rw [hrefusal] at h
    cases h
  | none =>
    rw [hrefusal] at h
    exact walk_put hplace entry h

/-! ## Writing files -/

/-- All that a write that succeeds does. -/
theorem write_eq_ok {path : String} (h : volume.write path content = .ok changed) :
    ∃ place, volume.resolve path = .ok place ∧ volume.entry? place ≠ some .directory ∧
      changed = volume.put place (.file content) := by
  unfold write at h
  cases hplace : volume.resolve path with
  | error error =>
    rw [hplace] at h
    cases h
  | ok place =>
    rw [hplace] at h
    simp only [bind, Except.bind] at h
    refine ⟨place, rfl, ?_⟩
    split at h
    · cases h
    · next hplace => exact ⟨hplace, (Except.ok.inj h).symm⟩

theorem find_eq_ok {path : String} {entry : Entry} :
    volume.find path = .ok entry ↔
      ∃ place, volume.resolve path = .ok place ∧ volume.entry? place = some entry := by
  unfold find
  cases volume.resolve path with
  | error error => simp [bind, Except.bind]
  | ok place =>
    cases hentry : volume.entry? place with
    | none => simp [bind, Except.bind, hentry, throw, throwThe, MonadExceptOf.throw]
    | some found => simp [bind, Except.bind, hentry, pure, Except.pure]

/-- The paths never lead to the same place. -/
def Apart (path other : String) : Prop :=
  ∀ (volume : Volume) (place place' : Place), volume.resolve path = .ok place →
    volume.resolve other = .ok place' → place ≠ place'

theorem find_write {path : String} (h : volume.write path content = .ok changed) :
    changed.find path = .ok (.file content) := by
  obtain ⟨place, hresolve, hplace, rfl⟩ := write_eq_ok h
  refine find_eq_ok.mpr ⟨place, resolve_put hplace _ hresolve, ?_⟩
  rw [entry_put hplace, if_pos rfl]

theorem find_write_of_apart {path other : String} {entry : Entry} (hapart : Apart path other)
    (hfind : volume.find path = .ok entry) (h : volume.write other content = .ok changed) :
    changed.find path = .ok entry := by
  obtain ⟨place, hresolve, hentry⟩ := find_eq_ok.mp hfind
  obtain ⟨place', hresolve', hplace', rfl⟩ := write_eq_ok h
  refine find_eq_ok.mpr ⟨place, resolve_put hplace' _ hresolve, ?_⟩
  rw [entry_put hplace', if_neg (hapart volume place place' hresolve hresolve'), hentry]

def writeAll (volume : Volume) : List (String × List UInt8) → Except SystemError Volume
  | [] => .ok volume
  | file :: files =>
    match volume.write file.1 file.2 with
    | .error error => .error error
    | .ok changed => changed.writeAll files

theorem exists_write {file : String × List UInt8} {files : List (String × List UInt8)}
    (h : volume.writeAll (file :: files) = .ok final) :
    ∃ changed, volume.write file.1 file.2 = .ok changed ∧ changed.writeAll files = .ok final := by
  unfold writeAll at h
  split at h
  · cases h
  · next changed hwrite => exact ⟨changed, hwrite, h⟩

theorem find_writeAll_of_apart {path : String} {entry : Entry} {files : List (String × List UInt8)}
    (hapart : ∀ file ∈ files, Apart path file.1) (hfind : volume.find path = .ok entry)
    (h : volume.writeAll files = .ok final) : final.find path = .ok entry := by
  induction files generalizing volume with
  | nil =>
    obtain rfl := Except.ok.inj h
    exact hfind
  | cons file files ih =>
    obtain ⟨changed, hwrite, hrest⟩ := exists_write h
    obtain ⟨hhead, hlater⟩ := List.forall_mem_cons.mp hapart
    exact ih hlater (find_write_of_apart hhead hfind hwrite) hrest

theorem find_writeAll {files : List (String × List UInt8)}
    (hapart : files.Pairwise fun file later => Apart file.1 later.1)
    (h : volume.writeAll files = .ok final) :
    ∀ file ∈ files, final.find file.1 = .ok (.file file.2) := by
  induction files generalizing volume with
  | nil => exact fun file hfile => nomatch hfile
  | cons file files ih =>
    obtain ⟨changed, hwrite, hrest⟩ := exists_write h
    obtain ⟨hhead, hlater⟩ := List.pairwise_cons.mp hapart
    intro other hother
    rcases List.mem_cons.mp hother with rfl | hmem
    · exact find_writeAll_of_apart hhead (find_write hwrite) hrest
    · exact ih hlater hrest other hmem

/-- Whether a file can be written at a path: the path leads to a place, and no directory is there. -/
def accepts (volume : Volume) (path : String) : Bool :=
  match volume.resolve path with
  | .ok place => volume.entry? place ≠ some .directory
  | .error _ => false

theorem accepts_iff {path : String} :
    volume.accepts path = true ↔
      ∃ place, volume.resolve path = .ok place ∧ volume.entry? place ≠ some .directory := by
  unfold accepts
  cases volume.resolve path with
  | error error => simp
  | ok place => simp

theorem accepts_write {path other : String} (hother : volume.accepts other = true)
    (h : volume.write path content = .ok changed) : changed.accepts other = true := by
  obtain ⟨place, hresolve, hplace, rfl⟩ := write_eq_ok h
  obtain ⟨place', hresolve', hplace'⟩ := accepts_iff.mp hother
  refine accepts_iff.mpr ⟨place', resolve_put hplace _ hresolve', ?_⟩
  rw [entry_put hplace]
  split
  · exact fun hdirectory => Entry.noConfusion (Option.some.inj hdirectory)
  · exact hplace'

theorem exists_write_of_accepts {path : String} (h : volume.accepts path = true)
    (content : List UInt8) : ∃ changed, volume.write path content = .ok changed := by
  obtain ⟨place, hresolve, hplace⟩ := accepts_iff.mp h
  refine ⟨volume.put place (.file content), ?_⟩
  simp only [write, hresolve, bind, Except.bind]
  rfl

/-- What is written does not get in the way of what is written later. -/
theorem exists_writeAll {files : List (String × List UInt8)}
    (h : ∀ file ∈ files, volume.accepts file.1 = true) :
    ∃ final, volume.writeAll files = .ok final := by
  induction files generalizing volume with
  | nil => exact ⟨volume, rfl⟩
  | cons file files ih =>
    obtain ⟨hhead, hlater⟩ := List.forall_mem_cons.mp h
    obtain ⟨changed, hwrite⟩ := exists_write_of_accepts hhead file.2
    obtain ⟨final, hfinal⟩ := ih fun other hother => accepts_write (hlater other hother) hwrite
    exact ⟨final, by simp only [writeAll, hwrite, hfinal]⟩

/-! ## Files of a directory -/

theorem exists_step_of_walk {names : List String} {name : String}
    (h : volume.walk start (names ++ [name]) = .ok reached) :
    ∃ above : Place, reached = above.step name := by
  induction names generalizing start with
  | nil =>
    obtain ⟨-, -, hend⟩ := walk_cons_eq_ok.mp h
    exact ⟨start, (Except.ok.inj hend).symm⟩
  | cons first names ih =>
    obtain ⟨-, -, hrest⟩ := walk_cons_eq_ok.mp h
    exact ih hrest

theorem getLast?_of_resolve {directory name : String} (h : Path.IsFileName name)
    (hresolve : volume.resolve (Path.join directory name) = .ok place) :
    place.getLast? = some name := by
  obtain ⟨front, hsteps⟩ := Path.exists_steps_join directory h.no_slash
  unfold resolve at hresolve
  split at hresolve
  · cases hresolve
  · rw [hsteps] at hresolve
    obtain ⟨above, rfl⟩ := exists_step_of_walk hresolve
    rw [h.step_eq, List.getLast?_concat]

theorem apart_join {directory directory' name other : String} (h : Path.IsFileName name)
    (hother : Path.IsFileName other) (hne : name ≠ other) :
    Apart (Path.join directory name) (Path.join directory' other) := by
  rintro volume place _ hplace hplace' rfl
  have hlast := (getLast?_of_resolve h hplace).symm.trans (getLast?_of_resolve hother hplace')
  exact hne (Option.some.inj hlast)

end Volume
end SoundLog
