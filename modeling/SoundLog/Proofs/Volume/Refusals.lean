import SoundLog.Proofs.Volume.Writing

/-!
# What writing and making directories leave as they are

A file can only be put where no way goes through, so writing opens and closes no way: what is
refused before is refused after. A directory that is there already is made without a change, and
making directories changes no file.
-/

namespace SoundLog
namespace Volume

variable {volume changed final : Volume} {place start reached : Place} {path other : String}
  {content : List UInt8} {names : List String}

/-! ## Ways -/

/-- Through a file goes no way, so a file opens none. -/
theorem walk_put_file (hplace : volume.entry? place ≠ some .directory) :
    (volume.put place (.file content)).walk start names = .ok reached ↔
      volume.walk start names = .ok reached := by
  refine ⟨?_, walk_put hplace _⟩
  intro h
  induction names generalizing start with
  | nil => exact h
  | cons name names ih =>
    obtain ⟨hstart, hsize, hrest⟩ := walk_cons_eq_ok.mp h
    refine walk_cons_eq_ok.mpr ⟨?_, hsize, ih hrest⟩
    rw [entry_put hplace] at hstart
    split at hstart
    · cases hstart
    · exact hstart

theorem resolve_write (h : volume.write path content = .ok changed) :
    changed.resolve other = .ok reached ↔ volume.resolve other = .ok reached := by
  obtain ⟨place, -, hplace, rfl⟩ := write_eq_ok h
  unfold resolve
  cases refusal? other with
  | some error => exact Iff.rfl
  | none => exact walk_put_file hplace

theorem entry_write (h : volume.write path content = .ok changed)
    (hother : volume.resolve path ≠ .ok place) : changed.entry? place = volume.entry? place := by
  obtain ⟨written, hresolve, hplace, rfl⟩ := write_eq_ok h
  rw [entry_put hplace, if_neg]
  rintro rfl
  exact hother hresolve

/-- Writing a file does not change which paths are accepted. -/
theorem accepts_write_eq (h : volume.write path content = .ok changed) (other : String) :
    changed.accepts other = volume.accepts other := by
  rw [Bool.eq_iff_iff]
  constructor
  · intro haccepts
    obtain ⟨place, hresolve, hplace⟩ := accepts_iff.mp haccepts
    refine accepts_iff.mpr ⟨place, (resolve_write h).mp hresolve, ?_⟩
    by_cases hwritten : volume.resolve path = .ok place
    · obtain ⟨place', hresolve', hplace', -⟩ := write_eq_ok h
      obtain rfl := Except.ok.inj (hwritten.symm.trans hresolve')
      exact hplace'
    · rwa [← entry_write h hwritten]
  · exact fun haccepts => accepts_write haccepts h

theorem accepts_of_write (h : volume.write path content = .ok changed) :
    volume.accepts path = true := by
  obtain ⟨place, hresolve, hplace, -⟩ := write_eq_ok h
  exact accepts_iff.mpr ⟨place, hresolve, hplace⟩

theorem accepts_eq_false_iff :
    volume.accepts path = false ↔ ∃ error, volume.write path content = .error error := by
  rw [Bool.eq_false_iff]
  constructor
  · intro hrefused
    cases hwrite : volume.write path content with
    | error error => exact ⟨error, rfl⟩
    | ok changed => exact absurd (accepts_of_write hwrite) hrefused
  · rintro ⟨error, hwrite⟩ haccepts
    obtain ⟨changed, hchanged⟩ := exists_write_of_accepts haccepts content
    cases hwrite.symm.trans hchanged

/-! ## Several files -/

section

variable {files : List (String × List UInt8)}

theorem resolve_writeAll (h : volume.writeAll files = .ok final) :
    final.resolve other = .ok reached ↔ volume.resolve other = .ok reached := by
  induction files generalizing volume with
  | nil =>
    obtain rfl := Except.ok.inj h
    exact Iff.rfl
  | cons file files ih =>
    obtain ⟨changed, hwrite, hrest⟩ := exists_write h
    exact (ih hrest).trans (resolve_write hwrite)

theorem accepts_writeAll (h : volume.writeAll files = .ok final) (other : String) :
    final.accepts other = volume.accepts other := by
  induction files generalizing volume with
  | nil =>
    obtain rfl := Except.ok.inj h
    rfl
  | cons file files ih =>
    obtain ⟨changed, hwrite, hrest⟩ := exists_write h
    exact (ih hrest).trans (accepts_write_eq hwrite other)

theorem entry_writeAll (h : volume.writeAll files = .ok final)
    (hother : ∀ file ∈ files, volume.resolve file.1 ≠ .ok place) :
    final.entry? place = volume.entry? place := by
  induction files generalizing volume with
  | nil =>
    obtain rfl := Except.ok.inj h
    rfl
  | cons file files ih =>
    obtain ⟨changed, hwrite, hrest⟩ := exists_write h
    obtain ⟨hhead, hlater⟩ := List.forall_mem_cons.mp hother
    have hchanged : ∀ file ∈ files, changed.resolve file.1 ≠ .ok place := by
      intro later hmem hresolve
      exact hlater later hmem ((resolve_write hwrite).mp hresolve)
    rw [ih hrest hchanged, entry_write hwrite hhead]

theorem Apart.symm (h : Apart path other) : Apart other path :=
  fun volume place place' hplace hplace' heq => h volume place' place hplace' hplace heq.symm

theorem find_writeAll_iff {entry : Entry} (hapart : ∀ file ∈ files, Apart path file.1)
    (h : volume.writeAll files = .ok final) :
    final.find path = .ok entry ↔ volume.find path = .ok entry := by
  rw [find_eq_ok, find_eq_ok]
  refine exists_congr fun place => ?_
  rw [resolve_writeAll h, and_congr_right_iff]
  intro hresolve
  rw [entry_writeAll h]
  intro file hfile hsame
  exact hapart file hfile volume place place hresolve hsame rfl

end

/-! ## Directories -/

theorem walk_filter (h : volume.walk start names = .ok reached) :
    volume.walk start (names.filter (· ≠ "")) = .ok reached := by
  induction names generalizing start with
  | nil => exact h
  | cons name names ih =>
    obtain ⟨hstart, hsize, hrest⟩ := walk_cons_eq_ok.mp h
    rw [List.filter_cons]
    by_cases hname : name = ""
    · subst hname
      exact ih hrest
    · rw [if_pos (decide_eq_true hname)]
      exact walk_cons_eq_ok.mpr ⟨hstart, hsize, ih hrest⟩

theorem ensureDirectory_of_walk (hwalk : volume.walk [] names = .ok place)
    (hplace : volume.entry? place = some .directory) :
    volume.ensureDirectory names = .ok volume := by
  have hadd : volume.addDirectory names = .error .alreadyExists := by
    simp only [addDirectory, hwalk, bind, Except.bind, hplace]
    rfl
  have hthere : volume.isDirectory names = true := by
    simp only [isDirectory, hwalk, hplace, decide_true]
  rw [ensureDirectory, hadd, hthere]
  rfl

theorem makeDirectory_of_find (h : volume.find path = .ok .directory) :
    volume.makeDirectory path = .ok volume := by
  obtain ⟨place, hresolve, hplace⟩ := find_eq_ok.mp h
  rw [makeDirectory]
  split
  · rfl
  · unfold resolve at hresolve
    cases hrefusal : refusal? path with
    | some error =>
      rw [hrefusal] at hresolve
      cases hresolve
    | none =>
      rw [hrefusal] at hresolve
      simp only [ensureWith, ensureDirectory_of_walk (walk_filter hresolve) hplace]

/-- The same files are in the same places. -/
def SameFiles (volume changed : Volume) : Prop :=
  ∀ (place : Place) (content : List UInt8),
    changed.entry? place = some (.file content) ↔ volume.entry? place = some (.file content)

namespace SameFiles

theorem refl (volume : Volume) : SameFiles volume volume := fun _ _ => Iff.rfl

theorem trans (h : SameFiles volume changed) (h' : SameFiles changed final) :
    SameFiles volume final := fun place content => (h' place content).trans (h place content)

theorem of_addDirectory (h : volume.addDirectory names = .ok changed) :
    SameFiles volume changed := by
  unfold addDirectory at h
  cases hwalk : volume.walk [] names with
  | error error =>
    rw [hwalk] at h
    cases h
  | ok place =>
    rw [hwalk] at h
    simp only [bind, Except.bind] at h
    split at h
    · cases h
    · next hfree =>
      obtain rfl := Except.ok.inj h
      have hplace : volume.entry? place ≠ some .directory := by
        rw [hfree]
        nofun
      intro other content
      rw [entry_put hplace]
      by_cases hother : other = place
      · rw [if_pos hother, hother, hfree]
        simp
      · rw [if_neg hother]

theorem of_ensureDirectory (h : volume.ensureDirectory names = .ok changed) :
    SameFiles volume changed := by
  unfold ensureDirectory at h
  split at h
  · next hadd =>
    obtain rfl := Except.ok.inj h
    exact of_addDirectory hadd
  · split at h
    · obtain rfl := Except.ok.inj h
      exact refl volume
    · cases h

theorem of_ensureWith {makeAbove : Volume → Except SystemError Volume}
    (habove : ∀ volume changed, makeAbove volume = .ok changed → SameFiles volume changed)
    (h : volume.ensureWith names makeAbove = .ok changed) : SameFiles volume changed := by
  unfold ensureWith at h
  split at h
  · cases hmade : makeAbove volume with
    | error error =>
      rw [hmade] at h
      cases h
    | ok made =>
      rw [hmade] at h
      exact (habove volume made hmade).trans (of_ensureDirectory h)
  · exact of_ensureDirectory h

theorem of_ensureTree (h : volume.ensureTree names = .ok changed) : SameFiles volume changed := by
  induction names generalizing volume changed with
  | nil =>
    obtain rfl := Except.ok.inj h
    exact refl volume
  | cons name above ih => exact of_ensureWith (fun _ _ => ih) h

theorem of_makeDirectory (h : volume.makeDirectory path = .ok changed) :
    SameFiles volume changed := by
  unfold makeDirectory at h
  split at h
  · obtain rfl := Except.ok.inj h
    exact refl volume
  · split at h
    · cases h
    · exact of_ensureWith (fun _ _ => of_ensureTree) h

end SameFiles

end Volume
end SoundLog
