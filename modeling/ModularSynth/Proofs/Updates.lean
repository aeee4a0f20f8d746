-- Taking a new patch on several cores. No synth changes before all parts are known to compile,
-- and a part that has compiled once compiles again, so an update that fails leaves the ensemble
-- as it was. Its error names the instrument of the whole patch that breaks the limit.
import ModularSynth.Proofs.CoreParts
import ModularSynth.Proofs.Limits

namespace ModularSynth

/-! ## Errors of parts -/

namespace CoreSplit

variable {patch : Patch} {core : Nat} {e : CompileError}

/-- What is at fault where the part of some core does not compile: an instrument without voices,
told by its place in the whole patch, or one whose units become too many instructions in a part;
the voices or the recordings of a part; or a unit of no known kind. -/
def Blames (patch : Patch) : CompileError → Prop
  | .noVoices i => ∃ instrument, patch.instruments[i]? = some instrument ∧
      instrument.numVoices = 0
  | .tooManyUnits i => ∃ (core : Nat) (part : Patch) (places : List Nat) (k : Nat)
      (instrument : Instrument), (ofPatch patch).patches[core]? = some part ∧
      (ofPatch patch).instruments[core]? = some places ∧ places[k]? = some i ∧
      patch.instruments[i]? = some instrument ∧ part.instruments[k]? = some instrument ∧
      maxUnits < part.countOf k instrument.units
  | .tooManyVoices voices => ∃ part ∈ (ofPatch patch).patches,
      voices = part.numVoices ∧ maxVoices < voices
  | .tooManySamples => ∃ part ∈ (ofPatch patch).patches, maxSamples < part.recordings.length
  | .unsupportedUnit name => ∃ instrument ∈ patch.instruments, ∃ u ∈ instrument.units,
      Assembly.Unknown name u

theorem blames_wholeError (inside : core < coreCount patch)
    (broken : (part patch core).Breaks e) :
    Blames patch (wholeError (places patch core) e) := by
  have member : part patch core ∈ (ofPatch patch).patches := by
    rw [ofPatch_patches]
    exact List.mem_map.mpr ⟨core, List.mem_range.mpr inside, rfl⟩
  cases e with
  | noVoices k =>
    obtain ⟨instrument, hk, none⟩ := broken
    obtain ⟨i, place, hi⟩ := place_of_part hk
    rw [wholeError, place]
    exact ⟨instrument, hi, none⟩
  | tooManyUnits k =>
    obtain ⟨instrument, hk, many⟩ := broken
    obtain ⟨i, place, hi⟩ := place_of_part hk
    rw [wholeError, place]
    refine ⟨core, part patch core, places patch core, k, instrument, ?_, ?_, place, hi, hk, many⟩
    · rw [ofPatch_patches, List.getElem?_map, List.getElem?_range inside]
      rfl
    · rw [ofPatch_instruments, List.getElem?_map, List.getElem?_range inside]
      rfl
  | tooManyVoices n => exact ⟨_, member, broken⟩
  | tooManySamples => exact ⟨_, member, broken⟩
  | unsupportedUnit name =>
    obtain ⟨instrument, h, unknown⟩ := broken
    rw [part_instruments] at h
    exact ⟨instrument, (List.mem_filter.mp h).1, unknown⟩

/-- Whatever is compiled of the parts, an error blames what is at fault. -/
theorem forEachCore_blames {α : Type} {make : Patch → Except CompileError α}
    (compiles : ∀ part e, make part = .error e → part.Breaks e)
    (h : (ofPatch patch).forEachCore make = .error e) : Blames patch e := by
  obtain ⟨core, inside, e', failed, rfl⟩ := forEachCore_error h
  exact blames_wholeError inside (compiles _ _ failed)

end CoreSplit

/-! ## Synths -/

namespace Synth

theorem create_error {options : SynthOptions} {patch : Patch} {bpm : Nat} {e : CompileError}
    (h : Synth.create options patch bpm = .error e) : patch.Breaks e := by
  cases compiled : Bytecode.compile patch .all bpm with
  | ok b =>
    obtain ⟨s, hs⟩ := (Synth.create_isOk options).mpr ⟨b, compiled⟩
    rw [hs] at h
    cases h
  | error e' =>
    unfold Synth.create at h
    rw [compiled] at h
    cases h
    exact Bytecode.compile_error compiled

/-- A synth takes each patch that compiles. -/
theorem update_of_compiles {patch : Patch} {bpm : Nat} {b : Bytecode} (s : Synth)
    (h : Bytecode.compile patch .all bpm = .ok b) :
    s.update patch bpm = .ok (s.load b patch.numDelayLines) := by
  unfold Synth.update
  rw [h]
  rfl

end Synth

/-! ## Ensembles -/

namespace Ensemble

/-- Where all parts compile, every synth takes its own. -/
theorem updateEach_of_compiles {bpm : Nat} {parts : List (Patch × List Nat)}
    (compiles : ∀ p ∈ parts, ∃ b, Bytecode.compile p.1 .all bpm = .ok b) (synths : List Synth) :
    (updateEach bpm synths parts).2 = none := by
  induction parts generalizing synths with
  | nil => cases synths <;> rfl
  | cons p rest ih =>
    cases synths with
    | nil => rfl
    | cons s synths =>
      obtain ⟨b, hb⟩ := compiles p List.mem_cons_self
      rw [updateEach, s.update_of_compiles hb]
      exact ih (fun q hq => compiles q (List.mem_cons_of_mem _ hq)) synths

/-- Parts that have compiled on trial do so when they are taken. -/
theorem updateEach_of_trial {patch : Patch} {bpm : Nat} {trial : List Bytecode}
    (h : (CoreSplit.ofPatch patch).forEachCore (Bytecode.compile · .all bpm) = .ok trial)
    (synths : List Synth) :
    (updateEach bpm synths ((CoreSplit.ofPatch patch).patches.zip
      (CoreSplit.ofPatch patch).instruments)).2 = none := by
  apply updateEach_of_compiles
  intro p hp
  rw [CoreSplit.ofPatch_zip] at hp
  obtain ⟨core, inside, rfl⟩ := List.mem_map.mp hp
  exact (CoreSplit.forEachCore_isOk _).mp ⟨trial, h⟩ core (List.mem_range.mp inside)

/-- An update that fails leaves the ensemble as it was: its voices on the cores, and every synth
with its program and all that its machine remembers. It fails only where the part of some core
breaks a limit, and the error tells which. If that is the voices of an instrument or the number of
its units, the instrument goes by its place in the whole patch. -/
theorem failed_update_changes_nothing {e e' : Ensemble} {patch : Patch} {bpm : Nat}
    {error : CompileError} (failed : e.update patch bpm = (e', some error)) :
    e' = e ∧ CoreSplit.Blames patch error := by
  unfold update at failed
  simp only at failed
  by_cases moved : (CoreSplit.ofPatch patch).mapping ≠ e.mapping
  · rw [if_pos moved] at failed
    cases made : (CoreSplit.ofPatch patch).forEachCore (Synth.create e.options · bpm) with
    | ok synths =>
      rw [made] at failed
      cases failed
    | error e₁ =>
      rw [made] at failed
      cases failed
      exact ⟨rfl, CoreSplit.forEachCore_blames (fun _ _ => Synth.create_error) made⟩
  · rw [if_neg moved] at failed
    cases trial : (CoreSplit.ofPatch patch).forEachCore (Bytecode.compile · .all bpm) with
    | ok bytecodes =>
      rw [trial] at failed
      have taken := updateEach_of_trial trial e.synths
      simp only [Prod.mk.injEq] at failed
      rw [failed.2] at taken
      cases taken
    | error e₁ =>
      rw [trial] at failed
      cases failed
      exact ⟨rfl, CoreSplit.forEachCore_blames (fun _ _ => Bytecode.compile_error) trial⟩

/-- Two instruments on a core each, the second with so many units. -/
def pairPatch (units : Nat) : Patch where
  instruments := [
    { units := [{ kindName := "loadval", settings := .ofEntries [] }] },
    { coreMaskLessOne := 1
      units := List.replicate units { kindName := "sync", settings := .ofEntries [] } }]

theorem failed_update_changes_nothing_pair : ∃ e : Ensemble,
    Ensemble.create {} (pairPatch 1) 100 = .ok e ∧
      e.update (pairPatch 64) 100 = (e, some (.tooManyUnits 1)) ∧
      CoreSplit.Blames (pairPatch 64) (.tooManyUnits 1) := by
  have compile : ∀ core < CoreSplit.coreCount (pairPatch 1),
      (Bytecode.compile (CoreSplit.part (pairPatch 1) core) .all 100).toOption.isSome = true := by
    decide +kernel
  obtain ⟨e, made⟩ := (create_isOk {}).mpr fun core inside => exists_ok (compile core inside)
  have failed : e.update (pairPatch 64) 100 = (e, some (.tooManyUnits 1)) := by
    have same : (CoreSplit.ofPatch (pairPatch 64)).mapping = e.mapping := by
      rw [(create_ok made).1]
      decide +kernel
    have trial : (CoreSplit.ofPatch (pairPatch 64)).forEachCore (Bytecode.compile · .all 100) =
        .error (.tooManyUnits 1) := by
      decide +kernel
    unfold update
    simp [same, trial]
  exact ⟨e, made, failed, (failed_update_changes_nothing failed).2⟩

end Ensemble

end ModularSynth
