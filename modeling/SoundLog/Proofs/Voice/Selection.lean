import SoundLog.Proofs.Voice.Settled
import SoundLog.Voice.Tracker
import Mathlib.Data.List.FinRange

/-!
# What a tracker picks

A tracker remembers the last look, whether it found a change, and the last dump of each channel.
Over a whole run this is enough to dump for each channel just the voices that settle, with runs of
equal ones collapsed. While changes go on, what has settled has been dumped. Otherwise only the
voices of the last look may be missing, and the next flush dumps them.
-/

namespace SoundLog

def Dump.ofChannel (dumps : List Dump) (i : Fin 6) : List Dump := dumps.filter (·.channel = i)

@[simp] theorem Dump.ofChannel_append (dumps more : List Dump) (i : Fin 6) :
    ofChannel (dumps ++ more) i = ofChannel dumps i ++ ofChannel more i := List.filter_append ..

theorem Dump.ofChannel_cons (dump : Dump) (dumps : List Dump) (i : Fin 6) :
    ofChannel (dump :: dumps) i =
      if dump.channel = i then dump :: ofChannel dumps i else ofChannel dumps i := by
  unfold ofChannel
  by_cases h : dump.channel = i <;> simp [h]

namespace Tracker

variable {tracker : Tracker} {voices : Vector Voice 6} {dumps : List Dump}

/-! ## One flush -/

theorem channel_of_dump? {i : Fin 6} {dump : Dump} (h : tracker.dump? voices i = some dump) :
    dump.channel = i := by
  unfold dump? at h
  split at h
  · cases h
  · cases h
    rfl

theorem ofChannel_filterMap {i : Fin 6} {channels : List (Fin 6)} (hnodup : channels.Nodup) :
    Dump.ofChannel (channels.filterMap (tracker.dump? voices)) i =
      if i ∈ channels then (tracker.dump? voices i).toList else [] := by
  induction channels with
  | nil => rfl
  | cons j channels ih =>
    obtain ⟨hj, hnodup⟩ := List.nodup_cons.mp hnodup
    have hothers := ih hnodup
    by_cases hij : j = i
    · subst hij
      rw [if_neg hj] at hothers
      rw [if_pos List.mem_cons_self]
      cases hdump : tracker.dump? voices j with
      | none =>
        rw [List.filterMap_cons_none hdump, hothers]
        rfl
      | some dump =>
        rw [List.filterMap_cons_some hdump, Dump.ofChannel_cons, if_pos (channel_of_dump? hdump),
          hothers]
        rfl
    · have hmem : i ∈ j :: channels ↔ i ∈ channels := by simp [Ne.symm hij]
      simp only [hmem]
      rw [← hothers]
      cases hdump : tracker.dump? voices j with
      | none => rw [List.filterMap_cons_none hdump]
      | some dump =>
        have hchannel : dump.channel ≠ i := (channel_of_dump? hdump).trans_ne hij
        rw [List.filterMap_cons_some hdump, Dump.ofChannel_cons, if_neg hchannel]

/-- A flush dumps each channel at most once. -/
theorem ofChannel_flush (tracker : Tracker) (voices : Vector Voice 6) (i : Fin 6) :
    Dump.ofChannel (tracker.flush voices).1 i = (tracker.dump? voices i).toList :=
  (ofChannel_filterMap (List.nodup_finRange 6)).trans (if_pos (List.mem_finRange i))

theorem channels_flush (tracker : Tracker) (voices : Vector Voice 6) :
    ((tracker.flush voices).1.map Dump.channel).Pairwise (· < ·) := by
  have hordered := List.pairwise_lt_finRange 6
  refine List.pairwise_map.mpr (hordered.filterMap _ ?_)
  intro i j hlt dump hdump other hother
  rwa [channel_of_dump? hdump, channel_of_dump? hother]

@[simp] theorem dumped_flush (tracker : Tracker) (voices : Vector Voice 6) (i : Fin 6) :
    (tracker.flush voices).2.dumped.get i = some (voices.get i) :=
  Vector.getElem_map some i.isLt

@[simp] theorem counts_flush (tracker : Tracker) (voices : Vector Voice 6) (i : Fin 6) :
    (tracker.flush voices).2.counts.get i =
      ((tracker.dump? voices i).map Dump.sequence).getD (tracker.counts.get i) := by
  refine (Vector.getElem_ofFn i.isLt).trans ?_
  cases tracker.dump? voices i <;> rfl

def voicesOf (dumps : List Dump) (i : Fin 6) : List Voice :=
  (Dump.ofChannel dumps i).map Dump.voice

/-- The tracker remembers what it needs of the dumps made so far for a channel. -/
structure Remembers (tracker : Tracker) (dumps : List Dump) (i : Fin 6) : Prop where
  dumped_eq : tracker.dumped.get i = (voicesOf dumps i).getLast?
  counts_eq : tracker.counts.get i = (Dump.ofChannel dumps i).length
  sequences_eq : (Dump.ofChannel dumps i).map Dump.sequence =
    List.range' 1 (Dump.ofChannel dumps i).length

theorem remembers_start (voices : Vector Voice 6) (i : Fin 6) : (start voices).Remembers [] i where
  dumped_eq := Vector.getElem_replicate i.isLt
  counts_eq := Vector.getElem_replicate i.isLt
  sequences_eq := rfl

theorem Remembers.flush {i : Fin 6} (h : tracker.Remembers dumps i) (voices : Vector Voice 6) :
    (tracker.flush voices).2.Remembers (dumps ++ (tracker.flush voices).1) i ∧
      voicesOf (dumps ++ (tracker.flush voices).1) i =
        collapse (voicesOf dumps i) (voices.get i) := by
  have hflush := ofChannel_flush tracker voices i
  by_cases hlast : tracker.dumped.get i = some (voices.get i)
  · have hdump : tracker.dump? voices i = none := if_pos hlast
    have hsame : Dump.ofChannel (dumps ++ (tracker.flush voices).1) i = Dump.ofChannel dumps i := by
      rw [Dump.ofChannel_append, hflush, hdump, Option.toList_none, List.append_nil]
    have hvoices : voicesOf (dumps ++ (tracker.flush voices).1) i = voicesOf dumps i := by
      rw [voicesOf, hsame, voicesOf]
    have hdumped := h.dumped_eq
    rw [hlast] at hdumped
    refine ⟨⟨?_, ?_, ?_⟩, ?_⟩
    · rw [hvoices, ← hdumped, dumped_flush]
    · rw [hsame, ← h.counts_eq, counts_flush, hdump]
      rfl
    · rw [hsame]
      exact h.sequences_eq
    · rw [hvoices, collapse, if_pos hdumped.symm]
  · have hdump : tracker.dump? voices i = some ⟨i, tracker.counts.get i + 1, voices.get i⟩ :=
      if_neg hlast
    have hmore : Dump.ofChannel (dumps ++ (tracker.flush voices).1) i =
        Dump.ofChannel dumps i ++ [⟨i, tracker.counts.get i + 1, voices.get i⟩] := by
      rw [Dump.ofChannel_append, hflush, hdump, Option.toList_some]
    have hvoices : voicesOf (dumps ++ (tracker.flush voices).1) i =
        voicesOf dumps i ++ [voices.get i] := by
      rw [voicesOf, hmore, List.map_append, voicesOf]
      rfl
    rw [h.dumped_eq] at hlast
    refine ⟨⟨?_, ?_, ?_⟩, ?_⟩
    · rw [hvoices, List.getLast?_concat, dumped_flush]
    · rw [hmore, List.length_append, ← h.counts_eq, counts_flush, hdump]
      rfl
    · rw [hmore, List.map_append, h.sequences_eq, List.length_append, List.length_singleton,
        List.range'_concat, ← h.counts_eq]
      simp [Nat.add_comm]
    · rw [hvoices, collapse, if_neg hlast]

/-! ## Runs -/

/-- The voices of a channel in what was seen, with runs of equal ones collapsed. -/
def distinct (seen : List (Vector Voice 6)) (i : Fin 6) : List Voice :=
  (seen.map (·.get i)).destutter (· ≠ ·)

theorem distinct_snoc (seen : List (Vector Voice 6)) (voices : Vector Voice 6) (i : Fin 6) :
    distinct (seen ++ [voices]) i = collapse (distinct seen i) (voices.get i) := by
  rw [distinct, List.map_append, List.map_singleton, destutter_snoc, distinct]

/-- The tracker has seen this history and made these dumps. While changes go on, all voices that
have settled are dumped; otherwise those of the last look may be missing. -/
structure Follows (tracker : Tracker) (dumps : List Dump) (history : List (Vector Voice 6)) :
    Prop where
  last_eq : history.getLast? = some tracker.last
  remembers : ∀ i, tracker.Remembers dumps i
  of_changed : tracker.changed = true → ∀ i, voicesOf dumps i = distinct (rested history) i
  of_unchanged : tracker.changed = false → rested history = settled history ∧
    ∀ i, collapse (voicesOf dumps i) (tracker.last.get i) = distinct (rested history) i

theorem follows_start (voices : Vector Voice 6) : (start voices).Follows [] [voices] where
  last_eq := rfl
  remembers := remembers_start voices
  of_changed := by simp [start]
  of_unchanged := fun _ => ⟨rfl, fun i => rfl⟩

/-- What the flush at the beginning of a run of changes leaves. -/
theorem Follows.flush {history : List (Vector Voice 6)} (h : tracker.Follows dumps history)
    (hunchanged : tracker.changed = false) (i : Fin 6) :
    let flushed := tracker.flush tracker.last
    flushed.2.Remembers (dumps ++ flushed.1) i ∧
      voicesOf (dumps ++ flushed.1) i = distinct (rested history) i := by
  intro flushed
  obtain ⟨hremembers, hvoices⟩ := (h.remembers i).flush tracker.last
  exact ⟨hremembers, hvoices.trans ((h.of_unchanged hunchanged).2 i)⟩

theorem Remembers.of_eq {later : Tracker} {i : Fin 6} (h : tracker.Remembers dumps i)
    (hdumped : later.dumped = tracker.dumped) (hcounts : later.counts = tracker.counts) :
    later.Remembers dumps i :=
  ⟨hdumped ▸ h.dumped_eq, hcounts ▸ h.counts_eq, h.sequences_eq⟩

theorem Follows.observe {history : List (Vector Voice 6)} (h : tracker.Follows dumps history)
    (voices : Vector Voice 6) :
    (tracker.observe voices).2.Follows (dumps ++ (tracker.observe voices).1)
      (history ++ [voices]) := by
  have hrested := rested_snoc (a := voices) h.last_eq
  by_cases hsame : voices = tracker.last
  · -- nothing is dumped, and the voices have settled
    have hobserve : tracker.observe voices =
        ([], { tracker with changed := false, last := tracker.last }) := by
      simp [Tracker.observe, beginsRun, hsame]
    rw [hobserve, List.append_nil]
    rw [if_pos hsame] at hrested
    refine ⟨by rw [List.getLast?_concat, hsame], ?_, by simp, ?_⟩
    · intro i
      exact (h.remembers i).of_eq rfl rfl
    · intro _
      refine ⟨hrested.trans settled_snoc.symm, ?_⟩
      intro i
      rw [hrested, distinct_snoc, hsame]
      by_cases hchanged : tracker.changed = true
      · rw [h.of_changed hchanged]
      · rw [← (h.of_unchanged (Bool.eq_false_iff.mpr hchanged)).2, collapse_collapse]
  · rw [if_neg hsame, List.append_nil] at hrested
    by_cases hchanged : tracker.changed = true
    · -- within a run of changes
      have hobserve : tracker.observe voices =
          ([], { tracker with changed := true, last := voices }) := by
        simp [Tracker.observe, beginsRun, hsame, hchanged]
      rw [hobserve, List.append_nil]
      refine ⟨List.getLast?_concat, ?_, ?_, by simp⟩
      · intro i
        exact (h.remembers i).of_eq rfl rfl
      · intro _ i
        rw [hrested]
        exact h.of_changed hchanged i
    · -- at the beginning of one
      have hunchanged := Bool.eq_false_iff.mpr hchanged
      have hobserve : tracker.observe voices = ((tracker.flush tracker.last).1,
          { (tracker.flush tracker.last).2 with changed := true, last := voices }) := by
        simp [Tracker.observe, beginsRun, hsame, hunchanged]
      rw [hobserve]
      refine ⟨List.getLast?_concat, ?_, ?_, by simp⟩
      · intro i
        exact (h.flush hunchanged i).1.of_eq rfl rfl
      · intro _ i
        rw [hrested]
        exact (h.flush hunchanged i).2

/-- With the voices of the last look, all that has settled is there. -/
theorem Follows.collapse_eq {history : List (Vector Voice 6)} (h : tracker.Follows dumps history)
    (i : Fin 6) :
    collapse (voicesOf dumps i) (tracker.last.get i) = distinct (settled history) i := by
  obtain ⟨before, rfl⟩ := List.getLast?_eq_some_iff.mp h.last_eq
  by_cases hchanged : tracker.changed = true
  · rw [h.of_changed hchanged, settled_snoc, distinct_snoc]
    cases hlast : before.getLast? with
    | none =>
      obtain rfl := List.getLast?_eq_none_iff.mp hlast
      exact collapse_collapse [] _
    | some voices =>
      rw [rested_snoc hlast]
      split
      · rw [distinct_snoc, collapse_collapse]
      · rw [List.append_nil]
  · obtain ⟨hsettled, hvoices⟩ := h.of_unchanged (Bool.eq_false_iff.mpr hchanged)
    rw [hvoices, hsettled]

def observeAll (tracker : Tracker) : List (Vector Voice 6) → List (List Dump) × Tracker
  | [] => ([], tracker)
  | voices :: later =>
    let observed := tracker.observe voices
    let rest := observed.2.observeAll later
    (observed.1 :: rest.1, rest.2)

theorem Follows.observeAll {history : List (Vector Voice 6)} (h : tracker.Follows dumps history)
    (later : List (Vector Voice 6)) :
    (tracker.observeAll later).2.Follows (dumps ++ (tracker.observeAll later).1.flatten)
      (history ++ later) := by
  induction later generalizing tracker dumps history with
  | nil => simpa [Tracker.observeAll] using h
  | cons voices later ih =>
    have hrest := ih (h.observe voices)
    rw [List.append_assoc, List.append_assoc] at hrest
    exact hrest

/-- The dumps of each call of a run, the last of them the one at the end, and the tracker after it.
The chip has the voices `first` at the start and then one after another those of `later`. -/
def select (first : Vector Voice 6) (later : List (Vector Voice 6)) :
    List (List Dump) × Tracker :=
  let seen := (start first).observeAll later
  let ended := seen.2.finish (later.getLastD first)
  (seen.1 ++ [ended.1], ended.2)

theorem select_eq (first : Vector Voice 6) (later : List (Vector Voice 6)) :
    let seen := (start first).observeAll later
    let ended := seen.2.flush seen.2.last
    seen.2.Follows seen.1.flatten (first :: later) ∧
      select first later = (seen.1 ++ [ended.1], ended.2) := by
  intro seen ended
  have hfollows : seen.2.Follows seen.1.flatten (first :: later) :=
    (follows_start first).observeAll later
  have hlast : later.getLastD first = seen.2.last := by
    have h := hfollows.last_eq
    rw [List.getLast?_cons, ← List.getLastD_eq_getLast?] at h
    exact Option.some.inj h
  refine ⟨hfollows, ?_⟩
  rw [select, hlast]
  rfl

theorem voicesOf_select (first : Vector Voice 6) (later : List (Vector Voice 6)) (i : Fin 6) :
    voicesOf (select first later).1.flatten i = distinct (settled (first :: later)) i := by
  obtain ⟨hfollows, hselect⟩ := select_eq first later
  rw [hselect, List.flatten_append, List.flatten_singleton, ← hfollows.collapse_eq]
  exact ((hfollows.remembers i).flush _).2

theorem remembers_select (first : Vector Voice 6) (later : List (Vector Voice 6)) (i : Fin 6) :
    (select first later).2.Remembers (select first later).1.flatten i := by
  obtain ⟨hfollows, hselect⟩ := select_eq first later
  rw [hselect, List.flatten_append, List.flatten_singleton]
  exact ((hfollows.remembers i).flush _).1

theorem channels_observeAll (tracker : Tracker) (later : List (Vector Voice 6)) :
    ∀ dumps ∈ (tracker.observeAll later).1, (dumps.map Dump.channel).Pairwise (· < ·) := by
  induction later generalizing tracker with
  | nil => simp [observeAll]
  | cons voices later ih =>
    intro dumps hdumps
    rcases List.mem_cons.mp hdumps with rfl | hlater
    · unfold observe
      split
      · exact channels_flush _ _
      · exact List.Pairwise.nil
    · exact ih _ dumps hlater

theorem Remembers.count_eq {i : Fin 6} (h : tracker.Remembers dumps i) :
    tracker.count i = .ok (Dump.ofChannel dumps i).length := by
  have hcount : tracker.counts[(i : Nat)]? = some (tracker.counts.get i) :=
    Vector.getElem?_eq_getElem i.isLt
  simp only [count, hcount, h.counts_eq]

/-- Over a whole run the voices dumped for a channel are those that settle, with runs of equal ones
collapsed. The dumps of a channel are numbered from 1 and counted, before the end and after it, and
those of one call go by channel. -/
theorem select_settled (first : Vector Voice 6) (later : List (Vector Voice 6)) :
    let run := select first later
    let dumps := Dump.ofChannel run.1.flatten
    let seen := (start first).observeAll later
    (∀ i, (dumps i).map Dump.voice =
        ((settled (first :: later)).map (·.get i)).destutter (· ≠ ·)) ∧
      (∀ i voice, voice ∈ (dumps i).map Dump.voice ↔
        ∃ voices ∈ settled (first :: later), voices.get i = voice) ∧
      (∀ i, (dumps i).map Dump.sequence = List.range' 1 (dumps i).length) ∧
      (∀ i : Fin 6, run.2.count i = .ok (dumps i).length ∧
        seen.2.count i = .ok (Dump.ofChannel seen.1.flatten i).length) ∧
      ∀ call ∈ run.1, (call.map Dump.channel).Pairwise (· < ·) := by
  intro run dumps seen
  have hvoices : ∀ i, (dumps i).map Dump.voice =
      ((settled (first :: later)).map (·.get i)).destutter (· ≠ ·) := voicesOf_select first later
  have hfollows := (select_eq first later).1
  refine ⟨hvoices, ?_, ?_, ?_, ?_⟩
  · intro i voice
    rw [hvoices, mem_destutter, List.mem_map]
  · intro i
    exact (remembers_select first later i).sequences_eq
  · intro i
    exact ⟨(remembers_select first later i).count_eq, (hfollows.remembers i).count_eq⟩
  · intro call hcall
    rcases List.mem_append.mp hcall with hseen | hended
    · exact channels_observeAll _ _ call hseen
    · obtain rfl := List.mem_singleton.mp hended
      exact channels_flush _ _

end Tracker
end SoundLog
