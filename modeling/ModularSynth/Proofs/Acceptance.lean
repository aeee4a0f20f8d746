-- What a compiler takes. It takes a patch just if the patch keeps within five limits, and if it does
-- not, it names one that the patch is over.
import ModularSynth.Proofs.Recordings

namespace ModularSynth

namespace Patch

/-- The limits of a patch. -/
structure WithinLimits (patch : Patch) : Prop where
  voices : patch.numVoices ≤ 32
  played : ∀ instrument ∈ patch.instruments, 1 ≤ instrument.numVoices
  known : patch.EachActive fun u => ∃ kind, u.kind? = some kind
  recordings : patch.differentRecordings ≤ 256
  /-- A unit may become no instructions, or several. -/
  short : ∀ i instrument, patch.instruments[i]? = some instrument →
    patch.countOf i instrument.units ≤ 63

/-- What an error of the compiler says about a patch. -/
def Exceeds (patch : Patch) : CompileError → Prop
  | .tooManyVoices voices => voices = patch.numVoices ∧ 32 < patch.numVoices
  | .noVoices i => ∃ instrument, patch.instruments[i]? = some instrument ∧
      instrument.numVoices = 0
  | .tooManyUnits i => ∃ instrument, patch.instruments[i]? = some instrument ∧
      63 < patch.countOf i instrument.units
  | .tooManySamples => 256 < patch.differentRecordings
  | .unsupportedUnit name => ∃ i k u, patch.unit? i k = some u ∧ u.isActive = true ∧
      u.kindName = name ∧ ∀ kind, u.kind? ≠ some kind

variable {patch : Patch}

theorem unknown_iff {name : String} :
    (∃ instrument ∈ patch.instruments, ∃ u ∈ instrument.units, Assembly.Unknown name u) ↔
      ∃ i k u, patch.unit? i k = some u ∧ u.isActive = true ∧ u.kindName = name ∧
        ∀ kind, u.kind? ≠ some kind := by
  constructor
  · rintro ⟨instrument, hi, u, hu, active, named, none⟩
    obtain ⟨i, hi⟩ := List.mem_iff_getElem?.mp hi
    obtain ⟨k, hk⟩ := List.mem_iff_getElem?.mp hu
    refine ⟨i, k, u, Option.bind_eq_some_iff.mpr ⟨instrument, hi, hk⟩, active, named, ?_⟩
    intro kind known
    rw [none] at known
    cases known
  · rintro ⟨i, k, u, hu, active, named, none⟩
    obtain ⟨instrument, hi, hk⟩ := Option.bind_eq_some_iff.mp hu
    exact ⟨instrument, List.mem_of_getElem? hi, u, List.mem_of_getElem? hk, active, named,
      Option.eq_none_iff_forall_ne_some.mpr none⟩

/-- The limits that a patch breaks are those that it exceeds. -/
theorem breaks_iff_exceeds (e : CompileError) : patch.Breaks e ↔ patch.Exceeds e := by
  cases e with
  | tooManyVoices voices =>
    unfold Breaks Exceeds maxVoices
    constructor
    · rintro ⟨rfl, many⟩
      exact ⟨rfl, many⟩
    · rintro ⟨rfl, many⟩
      exact ⟨rfl, many⟩
  | noVoices i => exact Iff.rfl
  | tooManyUnits i => exact Iff.rfl
  | tooManySamples =>
    unfold Breaks Exceeds maxSamples
    rw [patch.recordings_length]
  | unsupportedUnit name => exact unknown_iff

/-- A patch is within its limits just if it exceeds none of them. -/
theorem withinLimits_iff : patch.WithinLimits ↔ ∀ e, ¬ patch.Exceeds e := by
  constructor
  · rintro ⟨voices, played, known, recordings, short⟩ e exceeds
    cases e with
    | tooManyVoices n => exact absurd exceeds.2 (Nat.not_lt.mpr voices)
    | noVoices i =>
      obtain ⟨instrument, hi, none⟩ := exceeds
      have := played instrument (List.mem_of_getElem? hi)
      omega
    | tooManyUnits i =>
      obtain ⟨instrument, hi, many⟩ := exceeds
      exact absurd many (Nat.not_lt.mpr (short i instrument hi))
    | tooManySamples => exact absurd exceeds (Nat.not_lt.mpr recordings)
    | unsupportedUnit name =>
      obtain ⟨i, k, u, hu, active, -, none⟩ := exceeds
      obtain ⟨kind, hk⟩ := known.of_unit hu active
      exact none kind hk
  · intro within
    refine ⟨?_, ?_, ?_, ?_, ?_⟩
    · exact Nat.not_lt.mp fun many => within (.tooManyVoices _) ⟨rfl, many⟩
    · intro instrument hi
      obtain ⟨i, hi⟩ := List.mem_iff_getElem?.mp hi
      exact Nat.one_le_iff_ne_zero.mpr fun none => within (.noVoices i) ⟨instrument, hi, none⟩
    · intro instrument hi u hu active
      rw [← Option.ne_none_iff_exists']
      intro none
      apply within (.unsupportedUnit u.kindName)
      exact unknown_iff.mp ⟨instrument, hi, u, hu, active, rfl, none⟩
    · exact Nat.not_lt.mp fun many => within .tooManySamples many
    · intro i instrument hi
      exact Nat.not_lt.mp fun many => within (.tooManyUnits i) ⟨instrument, hi, many⟩

end Patch

/-- The compiler takes a patch, at any tempo, just if the patch is within its limits: at most 32
voices, at least one in every instrument, no active unit of a kind that is not in the catalogue, at
most 256 different recordings, and in every instrument at most 63 instructions. An error names a
limit that the patch really exceeds, and where. -/
theorem compiles_just_within_limits (patch : Patch) (bpm : Nat) :
    ((∃ b, Bytecode.compile patch .all bpm = .ok b) ↔ patch.WithinLimits) ∧
      ∀ e, Bytecode.compile patch .all bpm = .error e → patch.Exceeds e := by
  constructor
  · rw [Bytecode.compiles_iff, Patch.withinLimits_iff]
    simp only [Patch.breaks_iff_exceeds]
  · intro e failed
    rw [← Patch.breaks_iff_exceeds]
    exact Bytecode.compile_error failed

end ModularSynth
