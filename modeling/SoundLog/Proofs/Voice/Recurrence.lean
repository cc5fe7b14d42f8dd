import SoundLog.Extraction
import SoundLog.Proofs.Voice.Selection

/-!
# Voices that come back

A tracker remembers one dump a channel, so it does not tell a new voice from one that it has dumped
before the last. A run dumps no voice of a channel twice just if no voice of the channel settles
again after another one has.
-/

namespace SoundLog

section

variable {α : Type} [DecidableEq α]

/-- Nothing stands before and after something else. -/
def NeverReturns (l : List α) : Prop :=
  ∀ i j k, i < j → j < k → k < l.length → l[i]? = l[k]? → l[j]? = l[i]?

variable {l kept : List α} {a : α}

omit [DecidableEq α] in
theorem neverReturns_snoc :
    NeverReturns (l ++ [a]) ↔ NeverReturns l ∧ (a ∈ l → l.getLast? = some a) := by
  have hfront : ∀ i < l.length, (l ++ [a])[i]? = l[i]? := fun i => List.getElem?_append_left
  have hlast : (l ++ [a])[l.length]? = some a := List.getElem?_concat_length
  have hlength : (l ++ [a]).length = l.length + 1 := List.length_append
  constructor
  · intro h
    refine ⟨?_, ?_⟩
    · intro i j k hij hjk hk heq
      have hreturn := h i j k hij hjk (by omega)
      rw [hfront i (by omega), hfront j (by omega), hfront k hk] at hreturn
      exact hreturn heq
    · intro hmem
      obtain ⟨i, hi⟩ := List.mem_iff_getElem?.mp hmem
      obtain ⟨hlt, -⟩ := List.getElem?_eq_some_iff.mp hi
      rw [List.getLast?_eq_getElem?]
      by_cases hend : i = l.length - 1
      · rw [← hend, hi]
      · have hreturn := h i (l.length - 1) l.length (by omega) (by omega) (by omega)
        rw [hfront (l.length - 1) (by omega), hfront i hlt, hlast, hi] at hreturn
        exact hreturn rfl
  · rintro ⟨h, hmem⟩ i j k hij hjk hk heq
    rw [hlength] at hk
    rw [hfront i (by omega)] at heq ⊢
    rw [hfront j (by omega)]
    by_cases hend : k = l.length
    · rw [hend, hlast] at heq
      have hl := hmem (List.mem_of_getElem? heq)
      rw [List.getLast?_eq_getElem?] at hl
      by_cases hj : j = l.length - 1
      · rw [hj, hl, heq]
      · exact h i j (l.length - 1) hij (by omega) (by omega) (heq.trans hl.symm)
    · rw [hfront k (by omega)] at heq
      exact h i j k hij hjk (by omega) heq

theorem nodup_collapse :
    (collapse kept a).Nodup ↔ kept.Nodup ∧ (a ∈ kept → kept.getLast? = some a) := by
  unfold collapse
  split
  · next h => exact (and_iff_left fun _ => h).symm
  · next h =>
    rw [← List.concat_eq_append, List.nodup_concat]
    constructor
    · rintro ⟨hmem, hkept⟩
      exact ⟨hkept, fun ha => absurd ha hmem⟩
    · rintro ⟨hkept, hmem⟩
      exact ⟨fun ha => h (hmem ha), hkept⟩

theorem nodup_destutter_iff : (l.destutter (· ≠ ·)).Nodup ↔ NeverReturns l := by
  induction l using List.reverseRecOn with
  | nil => simp [NeverReturns]
  | append_singleton l a ih =>
    rw [destutter_snoc, nodup_collapse, mem_destutter, getLast?_destutter, ih, neverReturns_snoc]

end

namespace Extraction

structure Write where
  port : Ym2612.Port
  register : UInt8
  value : UInt8

/-- The voices of a chip after each of several writes. -/
def voicesAfter (chip : Ym2612.Chip) : List Write → List (Vector Voice 6)
  | [] => []
  | write :: writes =>
    let written := chip.write write.port write.register write.value
    written.voices :: voicesAfter written writes

namespace Player

/-- A player that begins with a chip in any state. -/
def on (chip : Ym2612.Chip) : Player := ⟨chip, Tracker.start chip.voices⟩

/-- The dumps of playing several writes to the end. -/
def dumps (player : Player) : List Write → List Dump
  | [] => player.finish
  | write :: writes =>
    let written := player.write write.port write.register write.value
    written.1 ++ written.2.dumps writes

theorem dumps_eq (player : Player) (writes : List Write) :
    let voices := voicesAfter player.chip writes
    let seen := player.tracker.observeAll voices
    player.dumps writes =
      seen.1.flatten ++ (seen.2.finish (voices.getLastD player.chip.voices)).1 := by
  induction writes generalizing player with
  | nil => rfl
  | cons write writes ih =>
    have hrest := ih (player.write write.port write.register write.value).2
    intro voices seen
    rw [dumps, hrest, ← List.append_assoc]
    simp only [seen, voices, voicesAfter, List.getLastD_cons]
    rfl

/-- No voice of a channel is dumped twice, just if none of them settles again after another one. -/
theorem nodup_dumps_iff (chip : Ym2612.Chip) (writes : List Write) (i : Fin 6) :
    ((Dump.ofChannel ((on chip).dumps writes) i).map Dump.voice).Nodup ↔
      NeverReturns ((settled (chip.voices :: voicesAfter chip writes)).map (·.get i)) := by
  have hdumps : (on chip).dumps writes =
      (Tracker.select chip.voices (voicesAfter chip writes)).1.flatten := by
    rw [dumps_eq, Tracker.select, List.flatten_append, List.flatten_singleton]
    rfl
  have hvoices := Tracker.voicesOf_select chip.voices (voicesAfter chip writes) i
  rw [hdumps, ← Tracker.voicesOf, hvoices]
  exact nodup_destutter_iff

/-- The first channel gets a voice, keeps it for one write and goes back to the voice that it had at
the start, which is dumped again at the end. -/
theorem dumps_twice :
    ¬ ((Dump.ofChannel ((on {}).dumps [⟨0, 0xB0, 1⟩, ⟨0, 0xB0, 1⟩, ⟨0, 0xB0, 0⟩])
      0).map Dump.voice).Nodup := by
  decide +kernel

end Player
end Extraction
end SoundLog
