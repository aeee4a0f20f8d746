-- How a patch is divided among cores. Every instrument plays on some core, and the cores keep
-- the order of the patch. A voice plays on a core just if its instrument does, and then it is
-- there the voice at the same offset of the copy of that instrument.
import ModularSynth.Ensemble.Basic
import ModularSynth.Proofs.Assembled
import ModularSynth.Proofs.MachineState
import ModularSynth.Proofs.Voices

namespace ModularSynth

namespace CoreSplit

/-! ## Keeping some instruments -/

/-- An instrument that is kept stands after as many others as are kept before it. -/
theorem placed_getElem? (plays : Instrument → Bool) (is : List Instrument) (n k j : Nat)
    (i : Instrument) :
    ((is.zipIdx n).filter fun x => plays x.1)[k]? = some (i, n + j) ↔
      is[j]? = some i ∧ plays i = true ∧ k = (is.take j).countP plays := by
  induction is generalizing n k j with
  | nil => simp
  | cons first rest ih =>
    have later (k : Nat) :
        ((rest.zipIdx (n + 1)).filter fun x => plays x.1)[k]? ≠ some (i, n) := by
      intro hk
      have inside := List.mem_of_getElem? hk
      have := List.le_snd_of_mem_zipIdx (List.mem_filter.mp inside).1
      simp only at this
      omega
    rw [List.zipIdx_cons, List.filter_cons]
    cases j with
    | zero =>
      by_cases hp : plays first = true
      · cases k with
        | zero =>
          simp [hp]
          rintro rfl
          exact hp
        | succ k => simp [hp, later]
      · simp [hp, later]
        rintro rfl hi
        exact absurd hi hp
    | succ j =>
      rw [show n + (j + 1) = n + 1 + j by omega]
      by_cases hp : plays first = true
      · cases k with
        | zero =>
          simp [hp]
          omega
        | succ k => simp [hp, ih]
      · simp [hp, ih]

theorem placed_fst (plays : Instrument → Bool) (is : List Instrument) :
    (is.zipIdx.filter fun x => plays x.1).map (·.1) = is.filter plays := by
  rw [← List.zipIdx_map_fst 0 is, List.filter_map]
  simp [Function.comp_def]

/-- Before the copy of an instrument stand those kept before it. -/
theorem take_filter (plays : Instrument → Bool) (is : List Instrument) (j : Nat) :
    (is.filter plays).take ((is.take j).countP plays) = (is.take j).filter plays := by
  have before := (List.take_prefix j is).filter plays
  rw [List.countP_eq_length_filter]
  exact (List.prefix_iff_eq_take.mp before).symm

/-- The voices of the instruments that are kept are numbered anew, in order. -/
theorem localVoice_eq_some {plays : Instrument → Bool} {is : List Instrument} {before v l : Nat} :
    localVoice plays before is v = some l ↔
      ∃ j i x, is[j]? = some i ∧ plays i = true ∧ x < i.numVoices ∧
        v = total ((is.take j).map (·.numVoices)) + x ∧
        l = before + total (((is.take j).filter plays).map (·.numVoices)) + x := by
  induction is generalizing before v with
  | nil => simp [localVoice]
  | cons first rest ih =>
    rw [localVoice]
    by_cases here : v < first.numVoices
    · rw [if_pos here]
      constructor
      · intro h
        split at h
        · rename_i hp
          cases h
          exact ⟨0, first, v, rfl, hp, here, by simp, by simp⟩
        · cases h
      · rintro ⟨j, i, x, hj, hp, hx, place, rfl⟩
        cases j with
        | zero =>
          cases hj
          rw [if_pos hp, place]
          simp
        | succ j =>
          rw [List.take_succ_cons, List.map_cons, total_cons] at place
          omega
    · rw [if_neg here, ih]
      constructor
      · rintro ⟨j, i, x, hj, hp, hx, place, rfl⟩
        refine ⟨j + 1, i, x, by simpa using hj, hp, hx, ?_, ?_⟩
        · rw [List.take_succ_cons, List.map_cons, total_cons]
          omega
        · rw [List.take_succ_cons, List.filter_cons]
          split
          · rw [List.map_cons, total_cons]
            omega
          · rfl
      · rintro ⟨j, i, x, hj, hp, hx, place, rfl⟩
        cases j with
        | zero =>
          cases hj
          rw [List.take_zero, List.map_nil, total_nil] at place
          omega
        | succ j =>
          rw [List.take_succ_cons, List.map_cons, total_cons] at place
          refine ⟨j, i, x, by simpa using hj, hp, hx, by omega, ?_⟩
          rw [List.take_succ_cons, List.filter_cons]
          split
          · rw [List.map_cons, total_cons]
            omega
          · rfl

/-! ## Cores -/

/-- An instrument plays on the cores that its mask names, or on the first if it names none of
those there are. The mask is the number stored and one, in 32 bits. -/
theorem playsOn_iff {cores core : Nat} (h : core < cores) (i : Instrument) :
    playsOn cores core i = true ↔
      (i.coreMaskLessOne + 1).toNat.testBit core = true ∨
        core = 0 ∧ ∀ other < cores, (i.coreMaskLessOne + 1).toNat.testBit other = false := by
  have named (c : Nat) : ((i.coreMaskLessOne + 1).toNat % 1 <<< cores).testBit c =
      (decide (c < cores) && (i.coreMaskLessOne + 1).toNat.testBit c) := by
    rw [Nat.one_shiftLeft, Nat.testBit_mod_two_pow]
  unfold playsOn
  simp only
  by_cases none : (i.coreMaskLessOne + 1).toNat % 1 <<< cores = 0
  · have unset (c : Nat) (hc : c < cores) : (i.coreMaskLessOne + 1).toNat.testBit c = false := by
      have := named c
      rw [none] at this
      simpa [hc] using this
    rw [if_pos none, unset core h]
    simp only [beq_iff_eq, Bool.false_eq_true, false_or]
    exact ⟨fun first => ⟨first, unset⟩, fun first => first.1⟩
  · rw [if_neg none, named core]
    obtain ⟨c, hc⟩ := Nat.exists_testBit_of_ne_zero none
    rw [named c, Bool.and_eq_true, decide_eq_true_eq] at hc
    simp only [h, decide_true, Bool.true_and]
    constructor
    · exact .inl
    · rintro (set | ⟨-, unset⟩)
      · exact set
      · rw [unset c hc.1] at hc
        exact absurd hc.2 (by simp)

/-- Every instrument plays on some core. -/
theorem exists_playsOn {cores : Nat} (some_core : 0 < cores) (i : Instrument) :
    ∃ core < cores, playsOn cores core i = true := by
  by_cases named : ∃ core < cores, (i.coreMaskLessOne + 1).toNat.testBit core = true
  · obtain ⟨core, h, set⟩ := named
    exact ⟨core, h, (playsOn_iff h i).mpr (.inl set)⟩
  · refine ⟨0, some_core, (playsOn_iff some_core i).mpr (.inr ⟨rfl, fun other ho => ?_⟩)⟩
    rw [Bool.eq_false_iff]
    exact fun set => named ⟨other, ho, set⟩

theorem coreCount_pos (patch : Patch) : 1 ≤ coreCount patch :=
  Nat.le_max_right _ _

theorem coreCount_le (patch : Patch) : coreCount patch ≤ maxCores := by
  unfold coreCount maxCores
  omega

/-! ## Parts -/

/-- The part of a patch that a core plays. -/
def part (patch : Patch) (core : Nat) : Patch :=
  ⟨(placedOn (coreCount patch) core patch).map (·.1)⟩

/-- Where in the patch the instruments of a core come from. -/
def places (patch : Patch) (core : Nat) : List Nat :=
  (placedOn (coreCount patch) core patch).map (·.2)

theorem ofPatch_patches (patch : Patch) :
    (ofPatch patch).patches = (List.range (coreCount patch)).map (part patch) := by
  simp [ofPatch, part, Function.comp_def]

theorem ofPatch_instruments (patch : Patch) :
    (ofPatch patch).instruments = (List.range (coreCount patch)).map (places patch) := by
  simp [ofPatch, places, Function.comp_def]

theorem cores_eq (patch : Patch) : (ofPatch patch).patches.length = coreCount patch := by
  rw [ofPatch_patches, List.length_map, List.length_range]

/-- What is known of a core: its part of the patch, where the instruments of that come from, and
how the voices are numbered there. -/
theorem ofPatch_core {patch part' : Patch} {core : Nat}
    (h : (ofPatch patch).patches[core]? = some part') :
    core < coreCount patch ∧ part' = part patch core ∧
      (ofPatch patch).instruments[core]? = some (places patch core) ∧
      (ofPatch patch).mapping[core]? = some ((List.range maxVoices).map
        (localVoice (playsOn (coreCount patch) core) 0 patch.instruments)) := by
  have inside : core < coreCount patch := by
    rw [← cores_eq]
    exact (List.getElem?_eq_some_iff.mp h).1
  rw [ofPatch_patches, List.getElem?_map, List.getElem?_range inside] at h
  cases h
  refine ⟨inside, rfl, ?_, ?_⟩
  · rw [ofPatch_instruments, List.getElem?_map, List.getElem?_range inside]
    rfl
  · simp [ofPatch, inside]

section Part

variable {patch : Patch} {core : Nat}

theorem part_instruments (patch : Patch) (core : Nat) :
    (part patch core).instruments =
      patch.instruments.filter (playsOn (coreCount patch) core) := by
  unfold part placedOn
  exact placed_fst (playsOn (coreCount patch) core) patch.instruments

/-- An instrument of a part, with its place in the patch. -/
theorem part_getElem? {k i : Nat} (hk : (places patch core)[k]? = some i) :
    ∃ instrument, patch.instruments[i]? = some instrument ∧
      (part patch core).instruments[k]? = some instrument ∧
      playsOn (coreCount patch) core instrument = true ∧
      k = (patch.instruments.take i).countP (playsOn (coreCount patch) core) := by
  unfold places at hk
  rw [List.getElem?_map] at hk
  obtain ⟨⟨instrument, i'⟩, hp, rfl⟩ := Option.map_eq_some_iff.mp hk
  have known := hp
  unfold placedOn at known
  have place := placed_getElem? (playsOn (coreCount patch) core) patch.instruments 0 k i' instrument
  rw [Nat.zero_add] at place
  obtain ⟨hi, plays, count⟩ := place.mp known
  refine ⟨instrument, hi, ?_, plays, count⟩
  unfold part
  simp [hp]

/-- An instrument that plays on a core has a place in its part. -/
theorem places_getElem? {i : Nat} {instrument : Instrument}
    (hi : patch.instruments[i]? = some instrument)
    (plays : playsOn (coreCount patch) core instrument = true) :
    (places patch core)[(patch.instruments.take i).countP (playsOn (coreCount patch) core)]? =
      some i := by
  have place := placed_getElem? (playsOn (coreCount patch) core) patch.instruments 0
    ((patch.instruments.take i).countP (playsOn (coreCount patch) core)) i instrument
  rw [Nat.zero_add] at place
  unfold places placedOn
  rw [List.getElem?_map, place.mpr ⟨hi, plays, rfl⟩]
  rfl

theorem mem_places {i : Nat} :
    i ∈ places patch core ↔ ∃ instrument, patch.instruments[i]? = some instrument ∧
      playsOn (coreCount patch) core instrument = true := by
  constructor
  · intro h
    obtain ⟨k, hk⟩ := List.mem_iff_getElem?.mp h
    obtain ⟨instrument, hi, -, plays, -⟩ := part_getElem? hk
    exact ⟨instrument, hi, plays⟩
  · rintro ⟨instrument, hi, plays⟩
    exact List.mem_of_getElem? (places_getElem? hi plays)

/-- The instruments of a part come in the order of the patch. -/
theorem places_rise (patch : Patch) (core : Nat) : (places patch core).Pairwise (· < ·) := by
  unfold places placedOn
  rw [List.pairwise_map]
  refine List.Pairwise.filter _ ?_
  rw [← List.pairwise_map (f := Prod.snd) (R := (· < ·)), List.zipIdx_map_snd]
  exact List.pairwise_lt_range'

theorem part_length (patch : Patch) (core : Nat) :
    (part patch core).instruments.length = (places patch core).length := by
  simp [part, places]

/-- Every instrument of a part has its place in the patch. -/
theorem place_of_part {k : Nat} {instrument : Instrument}
    (hk : (part patch core).instruments[k]? = some instrument) :
    ∃ i, (places patch core)[k]? = some i ∧ patch.instruments[i]? = some instrument := by
  have inside : k < (places patch core).length := by
    rw [← part_length]
    exact (List.getElem?_eq_some_iff.mp hk).1
  have place := List.getElem?_eq_getElem inside
  obtain ⟨instrument', hi, hk', -⟩ := part_getElem? place
  rw [hk] at hk'
  cases hk'
  exact ⟨_, place, hi⟩

theorem firstVoice_part {k i : Nat} (hk : (places patch core)[k]? = some i) :
    (part patch core).firstVoice k =
      total (((patch.instruments.take i).filter (playsOn (coreCount patch) core)).map
        (·.numVoices)) := by
  obtain ⟨_, -, -, -, count⟩ := part_getElem? hk
  rw [Patch.firstVoice, part_instruments, count, take_filter]

end Part

/-! ## Voices on cores -/

/-- The voice `l` of a part of the patch is the copy of the voice `v`: it belongs to the copy of
the same instrument, and stands there at the same offset. -/
def IsCopy (patch part : Patch) (places : List Nat) (v l : Nat) : Prop :=
  ∃ i k x instrument, places[k]? = some i ∧ patch.instruments[i]? = some instrument ∧
    part.instruments[k]? = some instrument ∧ x < instrument.numVoices ∧
    v = patch.firstVoice i + x ∧ l = part.firstVoice k + x

section Copies

variable {patch : Patch} {core v w l : Nat}

/-- The number of a voice on a core is that of its copy there. -/
theorem localVoice_iff_copy :
    localVoice (playsOn (coreCount patch) core) 0 patch.instruments v = some l ↔
      IsCopy patch (part patch core) (places patch core) v l := by
  rw [localVoice_eq_some]
  constructor
  · rintro ⟨i, instrument, x, hi, plays, hx, rfl, rfl⟩
    have hk := places_getElem? hi plays
    obtain ⟨instrument', hi', hk', -⟩ := part_getElem? hk
    rw [hi] at hi'
    cases hi'
    refine ⟨i, _, x, instrument, hk, hi, hk', hx, rfl, ?_⟩
    rw [firstVoice_part hk, Nat.zero_add]
  · rintro ⟨i, k, x, instrument, hk, hi, -, hx, rfl, rfl⟩
    obtain ⟨instrument', hi', -, plays, -⟩ := part_getElem? hk
    rw [hi] at hi'
    cases hi'
    refine ⟨i, instrument, x, hi, plays, hx, rfl, ?_⟩
    rw [firstVoice_part hk, Nat.zero_add]

/-- A voice has a copy on just those cores on which its instrument plays. -/
theorem exists_copy_iff :
    (∃ l, IsCopy patch (part patch core) (places patch core) v l) ↔
      ∃ i instrument, patch.instrumentForVoice v = some i ∧
        patch.instruments[i]? = some instrument ∧
        playsOn (coreCount patch) core instrument = true := by
  constructor
  · rintro ⟨l, i, k, x, instrument, hk, hi, -, hx, rfl, -⟩
    obtain ⟨instrument', hi', -, plays, -⟩ := part_getElem? hk
    rw [hi] at hi'
    cases hi'
    exact ⟨i, instrument, Patch.instrumentForVoice_eq hi hx, hi, plays⟩
  · rintro ⟨i, instrument, hv, hi, plays⟩
    obtain ⟨instrument', x, hi', hx, rfl⟩ := Patch.voice_offset hv
    rw [hi] at hi'
    cases hi'
    have hk := places_getElem? hi plays
    obtain ⟨instrument', hi', hk', -⟩ := part_getElem? hk
    rw [hi] at hi'
    cases hi'
    exact ⟨_, i, _, x, instrument, hk, hi, hk', hx, rfl, rfl⟩

theorem IsCopy.le (h : IsCopy patch (part patch core) (places patch core) v l) : l ≤ v := by
  obtain ⟨i, k, x, instrument, hk, -, -, -, rfl, rfl⟩ := h
  have fewer := total_le_of_sublist ((List.filter_sublist (p := playsOn (coreCount patch) core)
    (l := patch.instruments.take i)).map (·.numVoices))
  rw [firstVoice_part hk, Patch.firstVoice]
  omega

theorem IsCopy.unique {part : Patch} {places : List Nat} (hv : IsCopy patch part places v l)
    (hw : IsCopy patch part places w l) : v = w := by
  obtain ⟨i, k, x, instrument, hk, -, hp, hx, rfl, rfl⟩ := hv
  obtain ⟨j, m, y, instrument', hm, -, hp', hy, rfl, same⟩ := hw
  have owner := Patch.instrumentForVoice_eq hp hx
  rw [same, Patch.instrumentForVoice_eq hp' hy] at owner
  cases owner
  rw [hk] at hm
  cases hm
  omega

end Copies

end CoreSplit

/-! ## Making something of each part -/

section Each

variable {ε α β : Type} {f : α → Except ε β} {xs : List α}

theorem exists_ok {x : Except ε α} (h : x.toOption.isSome = true) : ∃ a, x = .ok a := by
  cases x with
  | ok a => exact ⟨a, rfl⟩
  | error e => cases h

/-- Where all of a list succeed, each has given what stands in its place. -/
theorem mapM_ok {ys : List β} (h : xs.mapM f = .ok ys) : xs.map f = ys.map .ok := by
  induction xs generalizing ys with
  | nil =>
    cases h
    rfl
  | cons x rest ih =>
    rw [List.mapM_cons] at h
    obtain ⟨y, hy, h⟩ := bind_eq_ok h
    obtain ⟨later, hl, h⟩ := bind_eq_ok h
    cases h
    rw [List.map_cons, List.map_cons, hy, ih hl]

/-- An error of a list is that of one of its members. -/
theorem mapM_error {e : ε} (h : xs.mapM f = .error e) : ∃ x ∈ xs, f x = .error e := by
  induction xs with
  | nil => cases h
  | cons x rest ih =>
    rw [List.mapM_cons] at h
    cases hx : f x with
    | error e' =>
      rw [hx] at h
      cases h
      exact ⟨x, List.mem_cons_self, hx⟩
    | ok y =>
      cases hr : rest.mapM f with
      | error e' =>
        rw [hx, hr] at h
        cases h
        obtain ⟨x', hx', failed⟩ := ih hr
        exact ⟨x', List.mem_cons_of_mem _ hx', failed⟩
      | ok ys =>
        rw [hx, hr] at h
        cases h

end Each

namespace CoreSplit

section Each

variable {α : Type} {patch : Patch} {make : Patch → Except CompileError α}

theorem ofPatch_zip (patch : Patch) :
    (ofPatch patch).patches.zip (ofPatch patch).instruments =
      (List.range (coreCount patch)).map fun core => (part patch core, places patch core) := by
  rw [ofPatch_patches, ofPatch_instruments, List.zip_map']

/-- Where something is made of every part, core for core. -/
theorem forEachCore_ok {made : List α} (h : (ofPatch patch).forEachCore make = .ok made) :
    made.length = coreCount patch ∧
      ∀ core x, made[core]? = some x → make (part patch core) = .ok x := by
  unfold forEachCore at h
  rw [ofPatch_zip] at h
  have each := mapM_ok h
  have length := congrArg List.length each
  simp only [List.length_map, List.length_range] at length
  refine ⟨length.symm, fun core x hx => ?_⟩
  have inside : core < coreCount patch := by
    rw [length]
    exact (List.getElem?_eq_some_iff.mp hx).1
  have here := congrArg (·[core]?) each
  simp only [List.getElem?_map, List.getElem?_range inside, Option.map_some, hx,
    Option.some.injEq] at here
  cases hm : make (part patch core) with
  | error e =>
    rw [hm] at here
    cases here
  | ok y =>
    rw [hm] at here
    cases here
    rfl

/-- An error is that of a part, told of the whole patch. -/
theorem forEachCore_error {e : CompileError} (h : (ofPatch patch).forEachCore make = .error e) :
    ∃ core < coreCount patch, ∃ e', make (part patch core) = .error e' ∧
      e = wholeError (places patch core) e' := by
  unfold forEachCore at h
  rw [ofPatch_zip] at h
  obtain ⟨x, hx, failed⟩ := mapM_error h
  obtain ⟨core, inside, rfl⟩ := List.mem_map.mp hx
  refine ⟨core, List.mem_range.mp inside, ?_⟩
  simp only at failed
  cases hm : make (part patch core) with
  | error e' =>
    rw [hm] at failed
    cases failed
    exact ⟨e', rfl, rfl⟩
  | ok y =>
    rw [hm] at failed
    cases failed

/-- Something is made of the parts just if it is of each. -/
theorem forEachCore_isOk (make : Patch → Except CompileError α) :
    (∃ made, (ofPatch patch).forEachCore make = .ok made) ↔
      ∀ core < coreCount patch, ∃ x, make (part patch core) = .ok x := by
  constructor
  · rintro ⟨made, h⟩ core inside
    obtain ⟨length, each⟩ := forEachCore_ok h
    rw [← length] at inside
    exact ⟨_, each core _ (List.getElem?_eq_getElem inside)⟩
  · intro each
    cases h : (ofPatch patch).forEachCore make with
    | ok made => exact ⟨made, rfl⟩
    | error e =>
      obtain ⟨core, inside, e', failed, -⟩ := forEachCore_error h
      obtain ⟨x, hx⟩ := each core inside
      rw [hx] at failed
      cases failed

end Each

end CoreSplit

/-! ## A synth for each part -/

theorem Synth.create_compiled {options : SynthOptions} {patch : Patch} {bpm : Nat} {s : Synth}
    (h : Synth.create options patch bpm = .ok s) :
    ∃ b, Bytecode.compile patch .all bpm = .ok b ∧
      s = ⟨⟨b, options.samples, options.trap⟩, .fresh patch.numDelayLines⟩ := by
  unfold Synth.create at h
  obtain ⟨b, hb, h⟩ := bind_eq_ok h
  cases h
  exact ⟨b, hb, rfl⟩

/-- There is a synth for a patch just if that compiles. -/
theorem Synth.create_isOk (options : SynthOptions) {patch : Patch} {bpm : Nat} :
    (∃ s, Synth.create options patch bpm = .ok s) ↔
      ∃ b, Bytecode.compile patch .all bpm = .ok b := by
  constructor
  · rintro ⟨s, h⟩
    obtain ⟨b, hb, -⟩ := Synth.create_compiled h
    exact ⟨b, hb⟩
  · rintro ⟨b, hb⟩
    refine ⟨⟨⟨b, options.samples, options.trap⟩, .fresh patch.numDelayLines⟩, ?_⟩
    unfold Synth.create
    rw [hb]
    rfl

namespace Ensemble

variable {options : SynthOptions} {patch : Patch} {bpm : Nat} {e : Ensemble}

theorem create_ok (h : Ensemble.create options patch bpm = .ok e) :
    e.mapping = (CoreSplit.ofPatch patch).mapping ∧
      e.synths.length = CoreSplit.coreCount patch ∧ ∀ core s, e.synths[core]? = some s →
        Synth.create options (CoreSplit.part patch core) bpm = .ok s := by
  unfold Ensemble.create at h
  obtain ⟨synths, hs, h⟩ := bind_eq_ok h
  cases h
  exact ⟨rfl, CoreSplit.forEachCore_ok hs⟩

/-- There is an ensemble for a patch just if the parts of all cores compile. -/
theorem create_isOk (options : SynthOptions) :
    (∃ e, Ensemble.create options patch bpm = .ok e) ↔ ∀ core < CoreSplit.coreCount patch,
      ∃ b, Bytecode.compile (CoreSplit.part patch core) .all bpm = .ok b := by
  constructor
  · rintro ⟨e, h⟩ core inside
    obtain ⟨-, length, each⟩ := create_ok h
    rw [← length] at inside
    exact (Synth.create_isOk options).mp ⟨_, each core _ (List.getElem?_eq_getElem inside)⟩
  · intro each
    obtain ⟨synths, hs⟩ := (CoreSplit.forEachCore_isOk (Synth.create options · bpm)).mpr
      fun core inside => (Synth.create_isOk options).mpr (each core inside)
    refine ⟨{ options, synths, mapping := (CoreSplit.ofPatch patch).mapping }, ?_⟩
    unfold Ensemble.create
    simp only [hs]
    rfl

end Ensemble

/-! ## Notes -/

theorem Ensemble.onVoice_getElem? {e : Ensemble} {core : Nat} {s : Synth}
    {numbers : List (Option Nat)} (hs : e.synths[core]? = some s)
    (hn : e.mapping[core]? = some numbers) (v : Nat) (f : Synth → Nat → Synth) :
    (e.onVoice v f).synths[core]? = some (match numbers[v]? with
      | some (some number) => f s number
      | _ => s) := by
  unfold onVoice
  simp only [List.getElem?_zipWith, hs, hn]
  rfl

theorem Synth.trigger_voice (s : Synth) (l w : Nat) (note : Note) :
    (s.trigger l note).machine.voice w =
      if l = w ∧ w < maxVoices then .playing note else s.machine.voice w :=
  s.machine.voice_adjustVoice l w _

theorem Synth.release_voice (s : Synth) (l w : Nat) :
    (s.release l).machine.voice w =
      if l = w ∧ w < maxVoices then (s.machine.voice w).released else s.machine.voice w :=
  s.machine.voice_adjustVoice l w _

open CoreSplit in
/-- A patch is divided among one to four cores, those that the masks of its instruments name, and
an instrument whose mask names none of them plays on the first. No instrument is lost, and each
core keeps the order of the patch. On each core, a voice of the patch has a number just if its
instrument plays there; that is then the voice at the same offset of the copy of this instrument,
and no other voice has it. So a note that starts or ends on a voice of the patch does so on the
copies of this voice and on no other. -/
theorem voices_reach_copies (patch : Patch) :
    let split := CoreSplit.ofPatch patch
    let cores := split.patches.length
    (1 ≤ cores ∧ cores ≤ maxCores) ∧
    (∀ core < cores, ∀ instrument, playsOn cores core instrument = true ↔
      (instrument.coreMaskLessOne + 1).toNat.testBit core = true ∨
        core = 0 ∧ ∀ other < cores,
          (instrument.coreMaskLessOne + 1).toNat.testBit other = false) ∧
    (∀ i < patch.instruments.length, ∃ (core : Nat) (places : List Nat),
      split.instruments[core]? = some places ∧ i ∈ places) ∧
    ∀ core part, split.patches[core]? = some part →
      ∃ places numbers, split.instruments[core]? = some places ∧
        split.mapping[core]? = some numbers ∧
        places.Pairwise (· < ·) ∧
        part.instruments.map some = places.map (patch.instruments[·]?) ∧
        (∀ v < maxVoices, ∃ number, numbers[v]? = some number ∧
          (∀ l, number = some l ↔ IsCopy patch part places v l) ∧
          (number.isSome = true ↔ ∃ i instrument, patch.instrumentForVoice v = some i ∧
            patch.instruments[i]? = some instrument ∧
            playsOn cores core instrument = true)) ∧
        (∀ v w l : Nat, numbers[v]? = some (some l) → numbers[w]? = some (some l) → v = w) ∧
        ∀ e : Ensemble, e.mapping = split.mapping → ∀ s, e.synths[core]? = some s →
          ∀ v < maxVoices, ∀ note, ∃ started stopped,
            (e.trigger v note).synths[core]? = some started ∧
            (e.release v).synths[core]? = some stopped ∧
            ∀ l, (IsCopy patch part places v l →
                started.machine.voice l = .playing note ∧
                  stopped.machine.voice l = (s.machine.voice l).released) ∧
              (¬ IsCopy patch part places v l →
                started.machine.voice l = s.machine.voice l ∧
                  stopped.machine.voice l = s.machine.voice l) := by
  intro split cores
  have count : cores = coreCount patch := cores_eq patch
  rw [count]
  refine ⟨⟨coreCount_pos patch, coreCount_le patch⟩, fun core h i => playsOn_iff h i, ?_, ?_⟩
  · intro i hi
    obtain ⟨core, h, plays⟩ := exists_playsOn (coreCount_pos patch) patch.instruments[i]
    refine ⟨core, places patch core, ?_, ?_⟩
    · rw [ofPatch_instruments, List.getElem?_map, List.getElem?_range h]
      rfl
    · exact mem_places.mpr ⟨_, List.getElem?_eq_getElem hi, plays⟩
  · intro core part' hp
    obtain ⟨inside, rfl, hplaces, hnumbers⟩ := ofPatch_core hp
    have number (v : Nat) (hv : v < maxVoices) : ((List.range maxVoices).map
        (localVoice (playsOn (coreCount patch) core) 0 patch.instruments))[v]? =
          some (localVoice (playsOn (coreCount patch) core) 0 patch.instruments v) := by
      rw [List.getElem?_map, List.getElem?_range hv]
      rfl
    refine ⟨places patch core, _, hplaces, hnumbers, places_rise patch core, ?_, ?_, ?_, ?_⟩
    · apply List.ext_getElem?
      intro k
      rw [List.getElem?_map, List.getElem?_map]
      cases hk : (places patch core)[k]? with
      | none =>
        rw [List.getElem?_eq_none_iff, ← part_length, ← List.getElem?_eq_none_iff] at hk
        rw [hk]
        rfl
      | some i =>
        obtain ⟨instrument, hi, hk', -⟩ := part_getElem? hk
        simp [hi, hk']
    · intro v hv
      refine ⟨_, number v hv, fun l => localVoice_iff_copy, ?_⟩
      rw [Option.isSome_iff_exists, ← exists_copy_iff]
      simp only [localVoice_iff_copy]
    · intro v w l hv hw
      have inside {v : Nat} {number : Option Nat} (h : ((List.range maxVoices).map
          (localVoice (playsOn (coreCount patch) core) 0 patch.instruments))[v]? = some number) :
          v < maxVoices := by
        simpa using (List.getElem?_eq_some_iff.mp h).1
      rw [number v (inside hv)] at hv
      rw [number w (inside hw)] at hw
      exact (localVoice_iff_copy.mp (Option.some.inj hv)).unique
        (localVoice_iff_copy.mp (Option.some.inj hw))
    · intro e mapping s hs v hv note
      rw [← mapping] at hnumbers
      have trigger := Ensemble.onVoice_getElem? hs hnumbers v (·.trigger · note)
      have release := Ensemble.onVoice_getElem? hs hnumbers v (·.release ·)
      rw [number v hv] at trigger release
      cases hl : localVoice (playsOn (coreCount patch) core) 0 patch.instruments v with
      | none =>
        rw [hl] at trigger release
        refine ⟨s, s, trigger, release, fun l => ⟨fun copy => ?_, fun _ => ⟨rfl, rfl⟩⟩⟩
        rw [localVoice_iff_copy.mpr copy] at hl
        cases hl
      | some l =>
        rw [hl] at trigger release
        refine ⟨s.trigger l note, s.release l, trigger, release, fun w => ⟨fun copy => ?_, ?_⟩⟩
        · rw [localVoice_iff_copy.mpr copy] at hl
          cases hl
          have fits := Nat.lt_of_le_of_lt copy.le hv
          simp [Synth.trigger_voice, Synth.release_voice, fits]
        · intro other
          have apart : l ≠ w := by
            rintro rfl
            exact other (localVoice_iff_copy.mp hl)
          simp [Synth.trigger_voice, Synth.release_voice, apart]

example : (CoreSplit.ofPatch ⟨[{ numVoices := 1 }, { numVoices := 2, coreMaskLessOne := 1 },
      { numVoices := 1, coreMaskLessOne := 2 }]⟩).mapping.map (·.take 4) =
    [[some 0, none, none, some 1], [none, some 0, some 1, some 2]] := by
  decide +kernel

end ModularSynth
