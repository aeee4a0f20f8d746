-- Which patches compile. Each error of the compiler names a limit, and it is given only where the
-- patch breaks that limit. A patch that breaks none compiles, at any speed.
import ModularSynth.Proofs.Assembled

namespace ModularSynth

/-! ## Recordings -/

/-- The recording that an active sample oscillator plays. -/
def PatchUnit.recording? (u : PatchUnit) : Option SampleOffset :=
  if u.activeKind? = some .oscillator ∧ Assembly.waveform? u = some .sample then
    some (Assembly.sampleOffset u)
  else none

namespace Assembly

/-- The recordings known after a unit. -/
def addRecording (samples : List SampleOffset) (u : PatchUnit) : List SampleOffset :=
  match u.recording? with
  | none => samples
  | some offset => (numberSample samples offset).1

/-- The recordings known after some units. -/
def addRecordings (samples : List SampleOffset) (units : List PatchUnit) : List SampleOffset :=
  units.foldl addRecording samples

end Assembly

/-- The recordings of a patch, each once. -/
def Patch.recordings (patch : Patch) : List SampleOffset :=
  Assembly.addRecordings [] (patch.instruments.flatMap (·.units))

namespace Assembly

theorem addRecording_grows (samples : List SampleOffset) (u : PatchUnit) :
    samples <+: addRecording samples u := by
  unfold addRecording
  split
  · exact List.prefix_refl _
  · exact numberSample_prefix _ _

theorem addRecordings_grows (samples : List SampleOffset) (units : List PatchUnit) :
    samples <+: addRecordings samples units := by
  unfold addRecordings
  induction units generalizing samples with
  | nil => exact List.prefix_refl _
  | cons u rest ih => exact (addRecording_grows samples u).trans (ih _)

theorem addRecordings_cons (samples : List SampleOffset) (u : PatchUnit) (units : List PatchUnit) :
    addRecordings samples (u :: units) = addRecordings (addRecording samples u) units := rfl

theorem addRecordings_append (samples : List SampleOffset) (units units' : List PatchUnit) :
    addRecordings samples (units ++ units') =
      addRecordings (addRecordings samples units) units' :=
  List.foldl_append

theorem mem_numberSample {samples : List SampleOffset} {offset other : SampleOffset} :
    other ∈ (numberSample samples offset).1 ↔ other ∈ samples ∨ other = offset := by
  have known := List.mem_of_getElem? (numberSample_getElem? samples offset)
  constructor
  · intro h
    unfold numberSample at h
    split at h
    · exact .inl h
    · simpa using h
  · rintro (h | rfl)
    · have grown := numberSample_prefix samples offset
      exact grown.subset h
    · exact known

theorem mem_addRecordings {samples : List SampleOffset} {units : List PatchUnit}
    {offset : SampleOffset} :
    offset ∈ addRecordings samples units ↔
      offset ∈ samples ∨ ∃ u ∈ units, u.recording? = some offset := by
  induction units generalizing samples with
  | nil => simp [addRecordings]
  | cons u rest ih =>
    have here : offset ∈ addRecording samples u ↔
        offset ∈ samples ∨ u.recording? = some offset := by
      unfold addRecording
      split
      · rename_i none
        simp [none]
      · rename_i r hr
        simp [hr, mem_numberSample, eq_comm]
    rw [addRecordings_cons, ih, here]
    simp [or_assoc]

/-- A recording is in the table once. -/
theorem nodup_addRecordings {samples : List SampleOffset} (once : samples.Nodup)
    (units : List PatchUnit) : (addRecordings samples units).Nodup := by
  induction units generalizing samples with
  | nil => exact once
  | cons u rest ih =>
    apply ih
    unfold addRecording numberSample
    split
    · exact once
    · split
      · exact once
      · rename_i absent
        rw [List.findIdx?_eq_none_iff] at absent
        rw [List.nodup_append]
        refine ⟨once, by simp, ?_⟩
        rintro a ha b hb rfl
        rw [List.mem_singleton] at hb
        subst hb
        simpa using absent _ ha

theorem addRecording_inactive (samples : List SampleOffset) {u : PatchUnit}
    (h : u.isActive = false) : addRecording samples u = samples := by
  simp [addRecording, PatchUnit.recording?, PatchUnit.activeKind?, h]

/-- A recording can be numbered just if the table that it stands in is not too long. -/
theorem numberSample_fits {samples : List SampleOffset} (few : samples.length ≤ maxSamples)
    (offset : SampleOffset) :
    (numberSample samples offset).2 < maxSamples ↔
      (numberSample samples offset).1.length ≤ maxSamples := by
  unfold numberSample
  split
  · rename_i number known
    have inside := (List.findIdx?_eq_some_iff_getElem.mp known).1
    simp only
    omega
  · simp only [List.length_append, List.length_cons, List.length_nil]
    omega

/-- A unit of a known kind becomes instructions just if there is room for its recording. -/
theorem instructions_room (patch : Patch) (place : Place) (opcode : UInt8) {u : PatchUnit}
    {kind : UnitKind} {samples : List SampleOffset} (active : u.isActive = true)
    (hk : u.kind? = some kind) (few : samples.length ≤ maxSamples) :
    (∃ code, instructions patch place opcode u samples = .ok (code, addRecording samples u) ∧
        (addRecording samples u).length ≤ maxSamples) ∨
      instructions patch place opcode u samples = .error .tooManySamples ∧
        maxSamples < (addRecording samples u).length := by
  have hak : u.activeKind? = some kind := by rw [PatchUnit.activeKind?_of_active active, hk]
  cases kind
  case oscillator =>
    by_cases plays : waveform? u = some .sample
    · have added : addRecording samples u = (numberSample samples (sampleOffset u)).1 := by
        simp [addRecording, PatchUnit.recording?, hak, plays]
      rw [added]
      simp only [instructions, hk, plays, if_true]
      by_cases fits : (numberSample samples (sampleOffset u)).2 < maxSamples
      · rw [if_pos fits]
        exact .inl ⟨_, rfl, (numberSample_fits few _).mp fits⟩
      · rw [if_neg fits]
        rw [numberSample_fits few] at fits
        exact .inr ⟨rfl, Nat.lt_of_not_le fits⟩
    · have added : addRecording samples u = samples := by
        simp [addRecording, PatchUnit.recording?, plays]
      rw [added]
      simp only [instructions, hk, plays, if_false]
      exact .inl ⟨_, rfl, few⟩
  case delay =>
    have added : addRecording samples u = samples := by
      simp [addRecording, PatchUnit.recording?, hak]
    rw [added]
    simp only [instructions, hk]
    split
    · exact .inl ⟨_, rfl, few⟩
    · exact .inl ⟨_, rfl, few⟩
  all_goals
    have added : addRecording samples u = samples := by
      simp [addRecording, PatchUnit.recording?, hak]
    rw [added]
    simp only [instructions, hk]
    exact .inl ⟨_, rfl, few⟩

/-! ## The limits of an instrument -/

/-- Is the unit an active one with a name that is not that of a kind? -/
def Unknown (name : String) (u : PatchUnit) : Prop :=
  u.isActive = true ∧ u.kindName = name ∧ u.kind? = none

/-- The limits that units of an instrument break from a slot on, some recordings known there.
Each limit goes by its error. -/
def UnitsBreak (patch : Patch) (instrument slot : Nat) (samples : List SampleOffset)
    (units : List PatchUnit) : CompileError → Prop
  | .tooManyUnits i => i = instrument ∧ maxUnits < slot + patch.countOf instrument units
  | .tooManySamples => maxSamples < (addRecordings samples units).length
  | .unsupportedUnit name => ∃ u ∈ units, Unknown name u
  | .tooManyVoices _ => False
  | .noVoices _ => False

section Units

variable {patch : Patch} {instrument slot : Nat} {samples : List SampleOffset}
  {units : List PatchUnit} {u : PatchUnit}

theorem not_unitsBreak_nil (fits : slot ≤ maxUnits) (few : samples.length ≤ maxSamples)
    (e : CompileError) : ¬ UnitsBreak patch instrument slot samples [] e := by
  cases e <;> simp [UnitsBreak, Patch.countOf, addRecordings, fits, few]

/-- A unit that is not active breaks no limit. -/
theorem unitsBreak_skip (inactive : u.isActive = false) (e : CompileError) :
    UnitsBreak patch instrument slot samples (u :: units) e ↔
      UnitsBreak patch instrument slot samples units e := by
  cases e <;> simp [UnitsBreak, Patch.countOf, total_cons, addRecordings_cons,
    addRecording_inactive samples inactive, emittedCount_inactive patch instrument inactive,
    Unknown, inactive]

/-- Past a unit of a known kind the limits are those of the units after it. -/
theorem unitsBreak_emit {kind : UnitKind} (hk : u.kind? = some kind) (e : CompileError) :
    UnitsBreak patch instrument slot samples (u :: units) e ↔
      UnitsBreak patch instrument (slot + patch.emittedCount instrument u)
        (addRecording samples u) units e := by
  cases e <;> simp [UnitsBreak, Patch.countOf, total_cons, addRecordings_cons, Unknown, hk,
    Nat.add_assoc]

/-- The units of an instrument are assembled just if they break no limit. An error goes by the
limit that is broken. -/
theorem assembleUnits_limits (patch : Patch) (instrument firstVoice : Nat)
    (units : List (PatchUnit × Nat)) (fits : slot ≤ maxUnits) (few : samples.length ≤ maxSamples) :
    match assembleUnits patch .all instrument firstVoice slot samples units with
    | .ok (_, known) => known = addRecordings samples (units.map (·.1)) ∧
      ∀ e, ¬ UnitsBreak patch instrument slot samples (units.map (·.1)) e
    | .error e => UnitsBreak patch instrument slot samples (units.map (·.1)) e := by
  induction units generalizing slot samples with
  | nil => exact ⟨rfl, not_unitsBreak_nil fits few⟩
  | cons head rest ih =>
    obtain ⟨u, delayStart⟩ := head
    rw [assembleUnits, List.map_cons]
    by_cases active : u.isActive = true
    · have hop : Features.all.opcode? u.kindName =
          u.kind?.map fun kind => (kind.opcode * 2).toUInt8 := rfl
      simp only [active, if_true, hop]
      cases hk : u.kind? with
      | none => exact ⟨u, List.mem_cons_self, active, rfl, hk⟩
      | some kind =>
        simp only [Option.map_some, unitsBreak_emit hk, addRecordings_cons]
        rcases instructions_room patch ⟨instrument, firstVoice, delayStart⟩ (opcodeByte kind u)
          active hk few with ⟨code, made, few⟩ | ⟨full, many⟩
        · have count : code.length = patch.emittedCount instrument u :=
            (instructions_shape active hk made).1
          rw [opcodeByte] at made
          rw [made, ← count]
          simp only [bind, Except.bind]
          by_cases full : maxUnits < slot + code.length
          · rw [if_pos full]
            exact ⟨rfl, by omega⟩
          · rw [if_neg full]
            have later := @ih (slot + code.length) _ (Nat.le_of_not_lt full) few
            cases hr : assembleUnits patch .all instrument firstVoice (slot + code.length)
                (addRecording samples u) rest with
            | ok r =>
              rw [hr] at later
              exact later
            | error e =>
              rw [hr] at later
              exact later
        · rw [opcodeByte] at full
          rw [full]
          exact Nat.lt_of_lt_of_le many (addRecordings_grows _ _).length_le
    · simp only [active, if_false, Bool.false_eq_true]
      have inactive : u.isActive = false := by simpa using active
      simp only [unitsBreak_skip inactive, addRecordings_cons, addRecording_inactive _ inactive]
      exact ih fits few

end Units

/-! ## The limits of a patch -/

/-- The limits that instruments of a patch break from a number on, some recordings known there. -/
def InstrumentsBreak (patch : Patch) (first : Nat) (samples : List SampleOffset)
    (instruments : List Instrument) : CompileError → Prop
  | .noVoices i => ∃ k instrument, i = first + k ∧ instruments[k]? = some instrument ∧
      instrument.numVoices = 0
  | .tooManyUnits i => ∃ k instrument, i = first + k ∧ instruments[k]? = some instrument ∧
      maxUnits < patch.countOf i instrument.units
  | .tooManySamples =>
    maxSamples < (addRecordings samples (instruments.flatMap (·.units))).length
  | .unsupportedUnit name => ∃ instrument ∈ instruments, ∃ u ∈ instrument.units, Unknown name u
  | .tooManyVoices _ => False

section Instruments

variable {patch : Patch} {first : Nat} {samples : List SampleOffset}

theorem instrumentsBreak_cons (instrument : Instrument) (rest : List Instrument)
    (e : CompileError) :
    InstrumentsBreak patch first samples (instrument :: rest) e ↔
      (e = .noVoices first ∧ instrument.numVoices = 0) ∨
        UnitsBreak patch first 0 samples instrument.units e ∨
        InstrumentsBreak patch (first + 1) (addRecordings samples instrument.units) rest e := by
  have place {P : Nat → Instrument → Prop} {i : Nat} :
      (∃ k x, i = first + k ∧ (instrument :: rest)[k]? = some x ∧ P i x) ↔
        (i = first ∧ P first instrument) ∨
          ∃ k x, i = first + 1 + k ∧ rest[k]? = some x ∧ P i x := by
    constructor
    · rintro ⟨k, x, rfl, hk, hx⟩
      cases k with
      | zero =>
        cases hk
        exact .inl ⟨rfl, hx⟩
      | succ k => exact .inr ⟨k, x, by omega, hk, hx⟩
    · rintro (⟨rfl, hx⟩ | ⟨k, x, rfl, hk, hx⟩)
      · exact ⟨0, instrument, rfl, rfl, hx⟩
      · exact ⟨k + 1, x, by omega, hk, hx⟩
  cases e with
  | tooManyVoices n => simp [InstrumentsBreak, UnitsBreak]
  | noVoices i =>
    have := place (P := fun _ x => x.numVoices = 0) (i := i)
    simpa [InstrumentsBreak, UnitsBreak] using this
  | tooManyUnits i =>
    have := place (P := fun i x => maxUnits < patch.countOf i x.units) (i := i)
    simpa [InstrumentsBreak, UnitsBreak] using this
  | tooManySamples =>
    simp only [InstrumentsBreak, UnitsBreak, List.flatMap_cons, addRecordings_append]
    have := (addRecordings_grows (addRecordings samples instrument.units)
      (rest.flatMap (·.units))).length_le
    constructor
    · exact fun h => .inr (.inr h)
    · rintro (⟨h, -⟩ | h | h)
      · cases h
      · omega
      · exact h
  | unsupportedUnit name => simp [InstrumentsBreak, UnitsBreak]

theorem assembleInstruments_limits (patch : Patch) (first firstVoice : Nat)
    (samples : List SampleOffset) {instruments : List (Instrument × List Nat)}
    (few : samples.length ≤ maxSamples)
    (starts : ∀ x ∈ instruments, (x.1.units.zip x.2).map (·.1) = x.1.units) :
    match assembleInstruments patch .all first firstVoice samples instruments with
    | .ok _ => ∀ e, ¬ InstrumentsBreak patch first samples (instruments.map (·.1)) e
    | .error e => InstrumentsBreak patch first samples (instruments.map (·.1)) e := by
  induction instruments generalizing first firstVoice samples with
  | nil =>
    intro e
    cases e <;> simp [InstrumentsBreak, addRecordings, few]
  | cons head rest ih =>
    obtain ⟨instrument, delayStarts⟩ := head
    rw [assembleInstruments, List.map_cons]
    simp only [instrumentsBreak_cons]
    by_cases mute : instrument.numVoices < 1
    · rw [if_pos mute]
      exact .inl ⟨rfl, by omega⟩
    · rw [if_neg mute]
      have own := assembleUnits_limits patch first firstVoice
        (instrument.units.zip delayStarts) (Nat.zero_le _) few
      rw [starts _ List.mem_cons_self] at own
      cases hu : assembleUnits patch .all first firstVoice 0 samples
          (instrument.units.zip delayStarts) with
      | error e =>
        rw [hu] at own
        exact .inr (.inl own)
      | ok r =>
        rw [hu] at own
        obtain ⟨known, unbroken⟩ := own
        have few : r.2.length ≤ maxSamples := by
          rw [known]
          exact Nat.le_of_not_lt (unbroken .tooManySamples)
        have later := ih (first + 1) (firstVoice + instrument.numVoices) r.2 few
          fun x hx => starts x (List.mem_cons_of_mem _ hx)
        simp only [bind, Except.bind]
        rw [← known]
        cases hr : assembleInstruments patch .all (first + 1) (firstVoice + instrument.numVoices)
            r.2 rest with
        | error e =>
          rw [hr] at later
          exact .inr (.inr later)
        | ok r' =>
          rw [hr] at later
          rintro e (⟨rfl, none⟩ | broken | broken)
          · omega
          · exact unbroken e broken
          · exact later e broken

end Instruments

end Assembly

/-- The limits that a patch breaks. Each goes by the error that a compiler gives for it. -/
def Patch.Breaks (patch : Patch) : CompileError → Prop
  | .tooManyVoices voices => voices = patch.numVoices ∧ maxVoices < voices
  | .noVoices i => ∃ instrument, patch.instruments[i]? = some instrument ∧
      instrument.numVoices = 0
  | .tooManyUnits i => ∃ instrument, patch.instruments[i]? = some instrument ∧
      maxUnits < patch.countOf i instrument.units
  | .tooManySamples => maxSamples < patch.recordings.length
  | .unsupportedUnit name => ∃ instrument ∈ patch.instruments, ∃ u ∈ instrument.units,
      Assembly.Unknown name u

theorem Patch.breaks_iff (patch : Patch) (e : CompileError) :
    patch.Breaks e ↔ (e = .tooManyVoices patch.numVoices ∧ maxVoices < patch.numVoices) ∨
      Assembly.InstrumentsBreak patch 0 [] patch.instruments e := by
  cases e with
  | tooManyVoices n =>
    simp only [Breaks, Assembly.InstrumentsBreak, CompileError.tooManyVoices.injEq, or_false]
    constructor
    · rintro ⟨rfl, many⟩
      exact ⟨rfl, many⟩
    · rintro ⟨rfl, many⟩
      exact ⟨rfl, many⟩
  | tooManySamples => simp [Breaks, Assembly.InstrumentsBreak, recordings]
  | _ => simp [Breaks, Assembly.InstrumentsBreak]

namespace DelayTable

/-- Every instrument has a list of places for delay times. -/
theorem instruments_zip (patch : Patch) (bpm : Nat) :
    (patch.instruments.zip (ofPatch patch bpm).2).map (·.1) = patch.instruments :=
  List.map_fst_zip (by simp [ofPatch, parts_length])

/-- Every unit of an instrument has a place for its delay times. -/
theorem units_zip (patch : Patch) (bpm : Nat) :
    ∀ x ∈ patch.instruments.zip (ofPatch patch bpm).2,
      (x.1.units.zip x.2).map (·.1) = x.1.units := by
  intro x hx
  obtain ⟨i, hi⟩ := List.mem_iff_getElem?.mp hx
  obtain ⟨hi, hd⟩ := List.getElem?_zip_eq_some.mp hi
  obtain ⟨delayStarts, hd', length, -⟩ := starts_of_instrument bpm hi
  rw [hd] at hd'
  cases hd'
  exact List.map_fst_zip (by omega)

end DelayTable

theorem Bytecode.compile_limits (patch : Patch) (bpm : Nat) :
    match Bytecode.compile patch .all bpm with
    | .ok _ => ∀ e, ¬ patch.Breaks e
    | .error e => patch.Breaks e := by
  simp only [Patch.breaks_iff]
  unfold Bytecode.compile
  by_cases many : patch.numVoices > maxVoices
  · rw [if_pos many]
    exact .inl ⟨rfl, many⟩
  · rw [if_neg many]
    have limits := Assembly.assembleInstruments_limits patch 0 0 [] (Nat.zero_le _)
      (DelayTable.units_zip patch bpm)
    rw [DelayTable.instruments_zip] at limits
    simp only [bind, Except.bind]
    cases made : Assembly.assembleInstruments patch .all 0 0 []
        (patch.instruments.zip (DelayTable.ofPatch patch bpm).2) with
    | error e =>
      rw [made] at limits
      exact .inr limits
    | ok r =>
      rw [made] at limits
      rintro e (⟨-, large⟩ | broken)
      · exact many large
      · exact limits e broken

/-- An error names a limit that the patch breaks. -/
theorem Bytecode.compile_error {patch : Patch} {bpm : Nat} {e : CompileError}
    (h : Bytecode.compile patch .all bpm = .error e) : patch.Breaks e := by
  have limits := Bytecode.compile_limits patch bpm
  rw [h] at limits
  exact limits

/-- A patch compiles just if it breaks no limit. -/
theorem Bytecode.compiles_iff (patch : Patch) (bpm : Nat) :
    (∃ b, Bytecode.compile patch .all bpm = .ok b) ↔ ∀ e, ¬ patch.Breaks e := by
  have limits := Bytecode.compile_limits patch bpm
  cases h : Bytecode.compile patch .all bpm with
  | ok b =>
    rw [h] at limits
    exact ⟨fun _ => limits, fun _ => ⟨b, rfl⟩⟩
  | error e =>
    rw [h] at limits
    constructor
    · rintro ⟨b, hb⟩
      cases hb
    · intro unbroken
      exact absurd limits (unbroken e)

end ModularSynth
