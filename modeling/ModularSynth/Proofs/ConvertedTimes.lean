-- What the table of delay times holds. The times of every delay stand at its start, in samples,
-- cut down to 16 bits; those of a delay that keeps time with the song are converted by the tempo.
import Mathlib.Algebra.Group.Int.Defs
import Mathlib.Algebra.Group.Nat.Defs
import ModularSynth.Proofs.TightArray

namespace ModularSynth

/-- A unit is an active delay just if it says so and is not disabled. -/
theorem PatchUnit.isActiveOf_delay (u : PatchUnit) :
    u.isActiveOf .delay = true ↔ u.kindName = "delay" ∧ u.disabled = false := by
  unfold isActiveOf activeKind? isActive kind?
  constructor
  · intro active
    split at active
    · rename_i enabled
      have named := UnitKind.name_of_ofName? (beq_iff_eq.mp active)
      simp only [Bool.and_eq_true, Bool.not_eq_true'] at enabled
      exact ⟨named.symm, enabled.1⟩
    · cases active
  · rintro ⟨named, enabled⟩
    rw [named, enabled]
    decide

namespace DelayTable

/-! ## The time of one line -/

/-- The conversion of a time in 48ths of a beat is one division, rounded down, up to the longest
time there is. -/
theorem syncedTime_eq {bpm : Nat} (some_speed : 1 ≤ bpm) (fits : bpm < 2 ^ 63) {time : Int}
    (forward : 0 ≤ time) :
    syncedTime bpm time = min 65535 (44100 * 60 * time / (48 * bpm)) := by
  have speed : Int.bmod (max bpm 1 : Nat) (1 <<< 64) = bpm := by
    rw [Nat.max_eq_left some_speed]
    apply Int.bmod_eq_of_le_mul_two
    · omega
    · omega
  have samples : ((44100 * 60 * time).tdiv 48).tdiv bpm = 44100 * 60 * time / (48 * bpm) := by
    have whole : 0 ≤ 44100 * 60 * time := by omega
    rw [Int.tdiv_eq_ediv_of_nonneg whole, Int.tdiv_eq_ediv_of_nonneg (by omega),
      Int.ediv_ediv_of_nonneg (by omega)]
  have least : 0 ≤ 44100 * 60 * time / (48 * (bpm : Int)) :=
    Int.ediv_nonneg (by omega) (by omega)
  have rate : (sampleRate : Int) = 44100 := rfl
  unfold syncedTime
  simp only [speed, rate, samples, longest]
  rw [Int.min_comm]
  apply Int.bmod_eq_of_le_mul_two
  · omega
  · omega

/-- In the table, a time keeps its last 16 bits. -/
theorem toNat_entry (time : Int) : ((UInt16.ofInt time).toNat : Int) = time % 65536 := by
  unfold UInt16.ofInt
  simp
  omega

/-! ## The times of a unit -/

theorem unitTimes_of_delay (bpm : Nat) {u : PatchUnit} (delay : u.isActiveOf .delay = true)
    (j : Nat) :
    (unitTimes bpm u)[j]? = u.varArgs[j]?.map fun time =>
      if u.param "notetracking" = 2 then syncedTime bpm time else time := by
  unfold unitTimes
  rw [if_pos delay]
  by_cases synced : u.param "notetracking" = 2
  · simp only [if_pos synced, List.getElem?_map]
  · simp only [if_neg synced, Option.map_id']

theorem unitTimes_of_other (bpm : Nat) {u : PatchUnit} (other : ¬ u.isActiveOf .delay = true) :
    unitTimes bpm u = [] := by
  unfold unitTimes
  rw [if_neg other]

/-- The table of delay times has a start for each unit of each instrument. From the start of an
enabled delay on stand its times: each as it is given, modulo 2 ^ 16, or converted from 48ths of a
beat, rounded down, but no longer than the longest time. All other units start at zero. -/
theorem table_holds_times (patch : Patch) {bpm : Nat} (some_speed : 1 ≤ bpm)
    (fits : bpm < 2 ^ 63) :
    (ofPatch patch bpm).2.length = patch.instruments.length ∧
    ∀ (i : Nat) (instrument : Instrument), patch.instruments[i]? = some instrument →
      ∃ starts, (ofPatch patch bpm).2[i]? = some starts ∧
        starts.length = instrument.units.length ∧
        ∀ (k : Nat) (u : PatchUnit), instrument.units[k]? = some u →
          ∃ start, starts[k]? = some start ∧
            (¬ (u.kindName = "delay" ∧ u.disabled = false) → start = 0) ∧
            (u.kindName = "delay" ∧ u.disabled = false →
              ∀ (j : Nat) (time : Int), u.varArgs[j]? = some time →
                ∃ entry, (ofPatch patch bpm).1[start + j]? = some entry ∧
                  (u.param "notetracking" ≠ 2 → (entry.toNat : Int) = time % 2 ^ 16) ∧
                  (u.param "notetracking" = 2 → 0 ≤ time →
                    (entry.toNat : Int) = min 65535 (44100 * 60 * time / (48 * bpm)))) := by
  refine ⟨by simp [ofPatch, parts_length], ?_⟩
  intro i instrument hi
  obtain ⟨starts, hs, length, each⟩ := starts_of_units bpm hi
  refine ⟨starts, hs, length, ?_⟩
  intro k u hk
  obtain ⟨number, there, place⟩ := each k u hk
  simp only [← PatchUnit.isActiveOf_delay]
  by_cases delay : u.isActiveOf .delay = true
  · obtain ⟨start, hstart, stands⟩ : ∃ start, starts[k]? = some start ∧
        (unitTimes bpm u ≠ [] →
          (unitTimes bpm u).map UInt16.ofInt <+: (ofPatch patch bpm).1.drop start) := by
      obtain ⟨starts', hs', -, each'⟩ := starts_of_instrument bpm hi
      rw [hs] at hs'
      cases hs'
      exact each' k u hk
    refine ⟨start, hstart, fun other => absurd delay other, ?_⟩
    intro _ j time given
    have entry : (unitTimes bpm u)[j]? =
        some (if u.param "notetracking" = 2 then syncedTime bpm time else time) := by
      rw [unitTimes_of_delay bpm delay, given, Option.map_some]
    have some_time : unitTimes bpm u ≠ [] := List.ne_nil_of_mem (List.mem_of_getElem? entry)
    have few := (List.getElem?_eq_some_iff.mp entry).1
    have found := List.prefix_iff_getElem?.mp (stands some_time) j (by simpa using few)
    rw [List.getElem?_drop, List.getElem_map] at found
    have value := (List.getElem?_eq_some_iff.mp entry).2
    refine ⟨_, found, ?_, ?_⟩
    · intro plain
      rw [value, if_neg plain, toNat_entry]
      rfl
    · intro synced forward
      have converted := syncedTime_eq some_speed fits forward
      have least : 0 ≤ 44100 * 60 * time / (48 * (bpm : Int)) :=
        Int.ediv_nonneg (by omega) (by omega)
      rw [value, if_pos synced, toNat_entry, converted]
      omega
  · rw [unitTimes_of_other bpm delay] at there
    exact ⟨0, place.trans (SuperArray.find_start_empty there), fun _ => rfl,
      fun active => absurd active delay⟩

/-- Delays in two instruments, one of them disabled and one in time with the song. -/
def tempoPatch : Patch where
  instruments := [
    { units := [
        { kindName := "oscillator", settings := .ofEntries [] },
        { kindName := "delay", settings := .ofEntries [], varArgs := [3, 70000] }] },
    { units := [
        { kindName := "delay", settings := .ofEntries [], varArgs := [1, 2, 3] },
        { kindName := "delay", settings := .ofEntries [], varArgs := [9], disabled := true },
        { kindName := "delay", settings := .ofEntries [("notetracking", 2)]
          varArgs := [48, 1000000] }] }]

theorem table_holds_times_tempo :
    ∃ starts, (ofPatch tempoPatch 120).2[1]? = some starts ∧ starts.length = 3 ∧
      starts[1]? = some 0 ∧ ∃ start, starts[2]? = some start ∧
        (ofPatch tempoPatch 120).1[start]? = some 22050 ∧
        (ofPatch tempoPatch 120).1[start + 1]? = some 65535 := by
  obtain ⟨-, each⟩ := table_holds_times tempoPatch (show 1 ≤ 120 by decide) (by decide)
  obtain ⟨starts, there, length, units⟩ := each 1 _ rfl
  obtain ⟨none, disabled, other, -⟩ := units 1 _ rfl
  obtain rfl := other (by decide)
  obtain ⟨start, synced, -, times⟩ := units 2 _ rfl
  obtain ⟨beat, first, -, converted⟩ := times (by decide) 0 48 rfl
  obtain ⟨long, second, -, limited⟩ := times (by decide) 1 1000000 rfl
  have beat_eq : beat = 22050 := by
    have := converted (by decide) (by decide)
    exact UInt16.toNat_inj.mp (by simp; omega)
  have long_eq : long = 65535 := by
    have := limited (by decide) (by decide)
    exact UInt16.toNat_inj.mp (by simp; omega)
  rw [Nat.add_zero, beat_eq] at first
  rw [long_eq] at second
  exact ⟨starts, there, length, disabled, start, synced, first, second⟩

end DelayTable

end ModularSynth
