-- The limits of a patch against those of its parts. The parts of a patch break no limit that the
-- patch does not, but each is held against its own voices, units and recordings only. So a patch
-- can be too large as a whole though all its parts compile.
import Mathlib.Data.List.Flatten
import Mathlib.Data.List.Perm.Subperm
import ModularSynth.Proofs.CoreParts
import ModularSynth.Proofs.Limits
import ModularSynth.Proofs.SendTargets

namespace ModularSynth

namespace CoreSplit

variable {patch : Patch} {core : Nat}

/-! ## Fewer of everything -/

theorem part_sublist (patch : Patch) (core : Nat) :
    (part patch core).instruments.Sublist patch.instruments := by
  rw [part_instruments]
  exact List.filter_sublist

theorem numVoices_part_le (patch : Patch) (core : Nat) :
    (part patch core).numVoices ≤ patch.numVoices :=
  total_le_of_sublist ((part_sublist patch core).map _)

theorem recordings_part_le (patch : Patch) (core : Nat) :
    (part patch core).recordings.length ≤ patch.recordings.length := by
  apply List.Subperm.length_le
  apply List.subperm_of_subset (Assembly.nodup_addRecordings List.nodup_nil _)
  intro offset h
  obtain h | ⟨u, hu, plays⟩ := Assembly.mem_addRecordings.mp h
  · cases h
  · have inside := ((part_sublist patch core).flatMap (·.units)).subset hu
    exact Assembly.mem_addRecordings.mpr (.inr ⟨u, inside, plays⟩)

/-! ## The units of a part -/

/-- A unit that a part finds by its id is the one that the patch finds. -/
theorem findUnit_part (unique : patch.IdsUnique) {id : Int} {m n : Nat}
    (h : (part patch core).findUnit id = some (m, n)) :
    ∃ t, (places patch core)[m]? = some t ∧ patch.findUnit id = some (t, n) := by
  obtain ⟨u, there, active, rfl, nonzero⟩ := Patch.findUnit_some h
  obtain ⟨instrument, hm, hn⟩ := Option.bind_eq_some_iff.mp there
  obtain ⟨t, place, ht⟩ := place_of_part hm
  have hu : patch.unit? t n = some u := Option.bind_eq_some_iff.mpr ⟨instrument, ht, hn⟩
  exact ⟨t, place, Patch.findUnit_eq unique hu active nonzero⟩

/-- Where every instrument has voices, a unit becomes no more instructions in a part than it
does in the patch: a send whose target is on another core becomes one, else as many as there. -/
theorem emittedCount_part_le (unique : patch.IdsUnique)
    (voiced : ∀ instrument ∈ patch.instruments, 1 ≤ instrument.numVoices) {k i : Nat}
    (place : (places patch core)[k]? = some i) (u : PatchUnit) :
    (part patch core).emittedCount k u ≤ patch.emittedCount i u := by
  unfold Patch.emittedCount
  cases hk : u.activeKind? with
  | none => exact Nat.le_refl _
  | some kind =>
    cases kind
    case send =>
      cases found : (part patch core).findUnit (u.param "target") with
      | none =>
        cases other : patch.findUnit (u.param "target") with
        | none => exact Nat.le_refl _
        | some target =>
          obtain ⟨t, n⟩ := target
          obtain ⟨_, there, -⟩ := Patch.findUnit_some other
          obtain ⟨instrument, ht, -⟩ := Option.bind_eq_some_iff.mp there
          have := voiced instrument (List.mem_of_getElem? ht)
          simp only [ht, Option.map_some, Option.getD_some]
          split
          · exact Nat.le_refl _
          · exact this
      | some target =>
        obtain ⟨m, n⟩ := target
        obtain ⟨t, placed, whole⟩ := findUnit_part unique found
        rw [whole]
        obtain ⟨instrument, ht, hm, -, first⟩ := part_getElem? placed
        obtain ⟨_, _, _, -, second⟩ := part_getElem? place
        have same : m = k ↔ t = i := by
          constructor
          · rintro rfl
            rw [placed] at place
            cases place
            rfl
          · rintro rfl
            rw [first, second]
        simp only [ht, hm, same]
        exact Nat.le_refl _
    all_goals exact Nat.le_refl _

theorem countOf_part_le (unique : patch.IdsUnique)
    (voiced : ∀ instrument ∈ patch.instruments, 1 ≤ instrument.numVoices) {k i : Nat}
    (place : (places patch core)[k]? = some i) (units : List PatchUnit) :
    (part patch core).countOf k units ≤ patch.countOf i units :=
  total_map_le fun u _ => emittedCount_part_le unique voiced place u

/-! ## Limits -/

/-- Where the patch breaks no limit, no part does. -/
theorem part_unbroken (unique : patch.IdsUnique) (unbroken : ∀ e, ¬ patch.Breaks e)
    (core : Nat) (e : CompileError) : ¬ (part patch core).Breaks e := by
  have voiced : ∀ instrument ∈ patch.instruments, 1 ≤ instrument.numVoices := by
    intro instrument h
    obtain ⟨i, hi⟩ := List.mem_iff_getElem?.mp h
    by_cases none : instrument.numVoices = 0
    · exact absurd ⟨instrument, hi, none⟩ (unbroken (.noVoices i))
    · omega
  intro broken
  cases e with
  | tooManyVoices n =>
    obtain ⟨rfl, many⟩ := broken
    exact unbroken (.tooManyVoices _) ⟨rfl, Nat.lt_of_lt_of_le many (numVoices_part_le patch core)⟩
  | noVoices k =>
    obtain ⟨instrument, hk, none⟩ := broken
    obtain ⟨i, -, hi⟩ := place_of_part hk
    exact unbroken (.noVoices i) ⟨instrument, hi, none⟩
  | tooManyUnits k =>
    obtain ⟨instrument, hk, many⟩ := broken
    obtain ⟨i, place, hi⟩ := place_of_part hk
    have := countOf_part_le unique voiced place instrument.units
    exact unbroken (.tooManyUnits i) ⟨instrument, hi, by omega⟩
  | tooManySamples =>
    exact unbroken .tooManySamples (Nat.lt_of_lt_of_le broken (recordings_part_le patch core))
  | unsupportedUnit name =>
    obtain ⟨instrument, h, unknown⟩ := broken
    exact unbroken (.unsupportedUnit name) ⟨instrument, (part_sublist patch core).subset h, unknown⟩

/-- Every instrument is in some part. -/
theorem exists_part {i : Nat} {instrument : Instrument}
    (hi : patch.instruments[i]? = some instrument) :
    ∃ core < coreCount patch, ∃ k : Nat, (part patch core).instruments[k]? = some instrument := by
  obtain ⟨core, inside, plays⟩ := exists_playsOn (coreCount_pos patch) instrument
  obtain ⟨instrument', hi', hk, -⟩ := part_getElem? (places_getElem? hi plays)
  rw [hi] at hi'
  cases hi'
  exact ⟨core, inside, _, hk⟩

/-- Where no part breaks a limit, the patch does so only as a whole: with its voices, with the
instructions of an instrument, or with its recordings. -/
theorem unbroken_of_parts (parts : ∀ core < coreCount patch, ∀ e, ¬ (part patch core).Breaks e)
    (voices : patch.numVoices ≤ maxVoices)
    (units : ∀ i instrument, patch.instruments[i]? = some instrument →
      patch.countOf i instrument.units ≤ maxUnits)
    (recordings : patch.recordings.length ≤ maxSamples) (e : CompileError) : ¬ patch.Breaks e := by
  intro broken
  cases e with
  | tooManyVoices n =>
    obtain ⟨rfl, many⟩ := broken
    omega
  | noVoices i =>
    obtain ⟨instrument, hi, none⟩ := broken
    obtain ⟨core, inside, k, hk⟩ := exists_part hi
    exact parts core inside (.noVoices k) ⟨instrument, hk, none⟩
  | tooManyUnits i =>
    obtain ⟨instrument, hi, many⟩ := broken
    have := units i instrument hi
    omega
  | tooManySamples => exact absurd broken (Nat.not_lt_of_le recordings)
  | unsupportedUnit name =>
    obtain ⟨instrument, h, unknown⟩ := broken
    obtain ⟨i, hi⟩ := List.mem_iff_getElem?.mp h
    obtain ⟨core, inside, k, hk⟩ := exists_part hi
    exact parts core inside (.unsupportedUnit name)
      ⟨instrument, List.mem_of_getElem? hk, unknown⟩

/-- A voice of the patch has a number on some core just if it is among those that a mapping
is for. -/
theorem mapped_iff {v : Nat} (hv : v < patch.numVoices) :
    (∃ numbers ∈ (ofPatch patch).mapping, ∃ l, numbers[v]? = some (some l)) ↔ v < maxVoices := by
  constructor
  · rintro ⟨numbers, h, l, hl⟩
    obtain ⟨core, -, rfl⟩ := List.mem_map.mp h
    have inside := (List.getElem?_eq_some_iff.mp hl).1
    simpa using inside
  · intro few
    obtain ⟨i, owner⟩ := Option.isSome_iff_exists.mp
      ((patch.instrumentForVoice_isSome_iff v).mpr hv)
    obtain ⟨instrument, -, hi, -⟩ := Patch.voice_offset owner
    obtain ⟨core, inside, plays⟩ := exists_playsOn (coreCount_pos patch) instrument
    obtain ⟨l, copy⟩ := exists_copy_iff.mpr ⟨i, instrument, owner, hi, plays⟩
    refine ⟨_, List.mem_map.mpr ⟨core, List.mem_range.mpr inside, rfl⟩, l, ?_⟩
    rw [List.getElem?_map, List.getElem?_range few, Option.map_some, localVoice_iff_copy.mpr copy]

end CoreSplit

/-- A synth on one core takes just those patches that break no limit, and these are those that an
ensemble takes and that keep the limits as a whole: at most 32 voices, at most 63 instructions for
the units of an instrument, and at most 256 recordings. The ensemble holds only the parts of the
patch against these limits. A voice of the patch can be reached on some core just if it is one of
the first 32. -/
theorem single_accepts_iff (options : SynthOptions) (patch : Patch) (unique : patch.IdsUnique)
    (bpm : Nat) :
    ((∃ s, Synth.create options patch bpm = .ok s) ↔ ∀ error, ¬ patch.Breaks error) ∧
    ((∃ s, Synth.create options patch bpm = .ok s) ↔
      (∃ e, Ensemble.create options patch bpm = .ok e) ∧ patch.numVoices ≤ maxVoices ∧
        (∀ i instrument, patch.instruments[i]? = some instrument →
          patch.countOf i instrument.units ≤ maxUnits) ∧
        patch.recordings.length ≤ maxSamples) ∧
    ∀ v < patch.numVoices,
      (∃ numbers ∈ (CoreSplit.ofPatch patch).mapping, ∃ l, numbers[v]? = some (some l)) ↔
        v < maxVoices := by
  refine ⟨?_, ?_, fun v hv => CoreSplit.mapped_iff hv⟩
  · rw [Synth.create_isOk, Bytecode.compiles_iff]
  · rw [Synth.create_isOk, Ensemble.create_isOk]
    simp only [Bytecode.compiles_iff]
    constructor
    · intro unbroken
      refine ⟨fun core _ => CoreSplit.part_unbroken unique unbroken core, ?_, ?_, ?_⟩
      · exact Nat.le_of_not_lt fun many => unbroken (.tooManyVoices _) ⟨rfl, many⟩
      · intro i instrument hi
        exact Nat.le_of_not_lt fun many => unbroken (.tooManyUnits i) ⟨instrument, hi, many⟩
      · exact Nat.le_of_not_lt fun many => unbroken .tooManySamples many
    · rintro ⟨parts, voices, units, recordings⟩
      exact CoreSplit.unbroken_of_parts parts voices units recordings

/-- Two instruments of 20 voices, on a core each. -/
def fortyVoices : Patch :=
  ⟨[{ numVoices := 20 }, { numVoices := 20, coreMaskLessOne := 1 }]⟩

theorem single_accepts_iff_forty :
    fortyVoices.IdsUnique ∧ (∃ e, Ensemble.create {} fortyVoices 100 = .ok e) ∧
      (¬ ∃ s, Synth.create {} fortyVoices 100 = .ok s) ∧
      ¬ ∃ numbers ∈ (CoreSplit.ofPatch fortyVoices).mapping, ∃ l, numbers[32]? = some (some l) := by
  have unique : fortyVoices.IdsUnique := by decide
  obtain ⟨-, accepts, reached⟩ := single_accepts_iff {} fortyVoices unique 100
  have compile : ∀ core < CoreSplit.coreCount fortyVoices,
      (Bytecode.compile (CoreSplit.part fortyVoices core) .all 100).toOption.isSome = true := by
    decide +kernel
  refine ⟨unique, ?_, ?_, ?_⟩
  · exact (Ensemble.create_isOk {}).mpr fun core inside => exists_ok (compile core inside)
  · rw [accepts]
    rintro ⟨-, few, -⟩
    exact absurd few (by decide)
  · rw [reached 32 (by decide)]
    decide

end ModularSynth
