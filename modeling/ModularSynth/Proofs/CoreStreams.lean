-- What several cores play together. Each core has a stream of its own: what its synth alone
-- gives for the same calls, with the voices numbered as on the core. What is heard goes as far
-- as the slowest core in each call, and a core that has got further in a call goes on from there
-- in the next one. So the streams are added up frame by frame just as long as none runs ahead.
import ModularSynth.Playback
import ModularSynth.Proofs.CoreParts
import ModularSynth.Proofs.CoreRender

namespace ModularSynth

/-! ## Calls -/

/-- What a synth is told while it plays. -/
inductive SynthCall
  | play (event : NoteEvent)
  | render (buffer : Audio) (maxTime : Int)

/-- The event on a core, on which voices have numbers of their own, if the voice is there. -/
def NoteEvent.onCore (numbers : List (Option Nat)) : NoteEvent → Option NoteEvent
  | .release voice => numbers[voice]?.join.map .release
  | .trigger voice note => numbers[voice]?.join.map (.trigger · note)

/-- The call on a core. -/
def SynthCall.onCore (numbers : List (Option Nat)) : SynthCall → Option SynthCall
  | .play event => (event.onCore numbers).map .play
  | .render buffer maxTime => some (.render buffer maxTime)

/-- What comes of a call: the synth after it, the frames that it reports, and its fault. -/
structure CallResult where
  synth : AnySynth
  frames : Audio
  fault : Option RenderFault

namespace AnySynth

def call (s : AnySynth) : SynthCall → CallResult
  | .play event => ⟨s.apply event, [], none⟩
  | .render buffer maxTime =>
    let (s, buffer, report) := s.render buffer maxTime
    ⟨s, buffer.take report.progress.samples, report.fault⟩

/-- The frames that calls report, one after the other. -/
def heard : AnySynth → List SynthCall → Audio
  | _, [] => []
  | s, call :: calls => (s.call call).frames ++ (s.call call).synth.heard calls

/-- Do all calls succeed? -/
def succeeds : AnySynth → List SynthCall → Bool
  | _, [] => true
  | s, call :: calls => (s.call call).fault.isNone && (s.call call).synth.succeeds calls

end AnySynth

/-! ## One core -/

namespace Synth

/-- The synth of a core after a call. -/
def after (numbers : List (Option Nat)) (s : Synth) : SynthCall → Synth
  | .play (.release voice) =>
    match numbers[voice]? with
    | some (some number) => s.release number
    | _ => s
  | .play (.trigger voice note) =>
    match numbers[voice]? with
    | some (some number) => s.trigger number note
    | _ => s
  | .render buffer maxTime => (s.render buffer maxTime).1

/-- What a synth gives for a call. -/
def given (s : Synth) : SynthCall → Audio
  | .play _ => []
  | .render buffer maxTime => s.piece buffer.length maxTime

theorem after_program (numbers : List (Option Nat)) (s : Synth) (call : SynthCall) :
    (s.after numbers call).program = s.program := by
  unfold after
  split
  · split <;> rfl
  · split <;> rfl
  · rfl

/-- A core plays on its own what it is told of a call. -/
theorem heard_onCore (numbers : List (Option Nat)) (s : Synth) (call : SynthCall)
    (calls : List SynthCall) :
    (AnySynth.single s).heard ((call :: calls).filterMap (·.onCore numbers)) =
      s.given call ++
        (AnySynth.single (s.after numbers call)).heard (calls.filterMap (·.onCore numbers)) := by
  rw [List.filterMap_cons]
  cases call with
  | render buffer maxTime =>
    simp only [SynthCall.onCore, AnySynth.heard, AnySynth.call, AnySynth.render]
    rw [render_reported]
    rfl
  | play event =>
    cases event with
    | release voice =>
      simp only [SynthCall.onCore, NoteEvent.onCore, given, after]
      rcases numbers[voice]? with _ | _ | number
      · rfl
      · rfl
      · rfl
    | trigger voice note =>
      simp only [SynthCall.onCore, NoteEvent.onCore, given, after]
      rcases numbers[voice]? with _ | _ | number
      · rfl
      · rfl
      · rfl

end Synth

/-! ## All cores -/

namespace Ensemble

/-- The ensemble after a call. -/
def after (e : Ensemble) : SynthCall → Ensemble
  | .play (.release voice) => e.release voice
  | .play (.trigger voice note) => e.trigger voice note
  | .render buffer maxTime => (e.render buffer maxTime).1

/-- What is heard of a call. -/
def given (e : Ensemble) : SynthCall → Audio
  | .play _ => []
  | .render buffer maxTime => e.reported buffer maxTime

/-- The stream of a core: what its synth on its own gives for the calls, with the voices numbered
as on the core. -/
def stream (e : Ensemble) (core : Nat) (calls : List SynthCall) : Audio :=
  match e.synths[core]?, e.mapping[core]? with
  | some s, some numbers => (AnySynth.single s).heard (calls.filterMap (·.onCore numbers))
  | _, _ => []

/-- Before each render call, every core has given as much as has been heard. -/
def InStep (e : Ensemble) (calls : List SynthCall) : Prop :=
  ∀ before buffer maxTime later, calls = before ++ .render buffer maxTime :: later →
    ∀ core < e.synths.length,
      (e.stream core before).length = ((AnySynth.parallel e).heard before).length

/-- Each frame that is heard is the sum of those with its number in the streams of the cores. -/
def AddsStreams (e : Ensemble) (calls : List SynthCall) : Prop :=
  ∀ i < ((AnySynth.parallel e).heard calls).length, ∃ frames : List Frame,
    frames.length = e.synths.length ∧
      (∀ core < e.synths.length, (e.stream core calls)[i]? = frames[core]?) ∧
      ((AnySynth.parallel e).heard calls)[i]? = some (Frame.sum frames)

variable {e : Ensemble}

theorem call_synth (e : Ensemble) (call : SynthCall) :
    ((AnySynth.parallel e).call call).synth = .parallel (e.after call) := by
  cases call with
  | render buffer maxTime => rfl
  | play event => cases event <;> rfl

theorem heard_cons (e : Ensemble) (call : SynthCall) (calls : List SynthCall) :
    (AnySynth.parallel e).heard (call :: calls) =
      e.given call ++ (AnySynth.parallel (e.after call)).heard calls := by
  rw [AnySynth.heard, call_synth]
  cases call <;> rfl

theorem after_mapping (e : Ensemble) (call : SynthCall) : (e.after call).mapping = e.mapping := by
  unfold after
  split
  · rfl
  · rfl
  · rw [render_synths]

/-- Each core does what it is told of a call. -/
theorem after_synths {core : Nat} {s : Synth} {numbers : List (Option Nat)}
    (hs : e.synths[core]? = some s) (hn : e.mapping[core]? = some numbers) (call : SynthCall) :
    (e.after call).synths[core]? = some (s.after numbers call) := by
  cases call with
  | render buffer maxTime =>
    unfold after
    simp only
    rw [render_synths, List.getElem?_map, hs]
    rfl
  | play event =>
    cases event with
    | release voice => exact onVoice_getElem? hs hn voice _
    | trigger voice note => exact onVoice_getElem? hs hn voice _

/-- Every core has numbers for its voices. -/
def Numbered (e : Ensemble) : Prop :=
  e.synths.length = e.mapping.length

theorem Numbered.core (h : e.Numbered) {core : Nat} (inside : core < e.synths.length) :
    ∃ s numbers, e.synths[core]? = some s ∧ e.mapping[core]? = some numbers := by
  unfold Numbered at h
  exact ⟨_, _, List.getElem?_eq_getElem inside, List.getElem?_eq_getElem (h ▸ inside)⟩

theorem after_length (h : e.Numbered) (call : SynthCall) :
    (e.after call).synths.length = e.synths.length := by
  unfold Numbered at h
  unfold after
  split
  · unfold release onVoice
    simp [h]
  · unfold trigger onVoice
    simp [h]
  · rw [render_synths, List.length_map]

theorem Numbered.after (h : e.Numbered) (call : SynthCall) : (e.after call).Numbered := by
  unfold Numbered at h ⊢
  rw [after_length h, after_mapping, h]

theorem stream_nil (e : Ensemble) (core : Nat) : e.stream core [] = [] := by
  unfold stream
  split <;> rfl

theorem stream_cons {core : Nat} {s : Synth} {numbers : List (Option Nat)}
    (hs : e.synths[core]? = some s) (hn : e.mapping[core]? = some numbers) (call : SynthCall)
    (calls : List SynthCall) :
    e.stream core (call :: calls) = s.given call ++ (e.after call).stream core calls := by
  unfold stream
  rw [after_mapping, after_synths hs hn, hs, hn]
  exact s.heard_onCore numbers call calls

/-! ## What is heard -/

theorem given_length_le {core : Nat} {s : Synth} (hs : e.synths[core]? = some s)
    (call : SynthCall) : (e.given call).length ≤ (s.given call).length := by
  cases call with
  | play event => exact Nat.le_refl _
  | render buffer maxTime =>
    unfold given Synth.given
    simp only
    rw [reported_length]
    exact (e.render_samples buffer maxTime).1 s (List.mem_of_getElem? hs)

/-- No core is ever behind what is heard. -/
theorem heard_length_le (h : e.Numbered) {core : Nat} (inside : core < e.synths.length)
    (calls : List SynthCall) :
    ((AnySynth.parallel e).heard calls).length ≤ (e.stream core calls).length := by
  induction calls generalizing e with
  | nil => exact Nat.zero_le _
  | cons call calls ih =>
    obtain ⟨s, numbers, hs, hn⟩ := h.core inside
    have now := given_length_le hs call
    have later := ih (h.after call) (by rwa [after_length h])
    rw [heard_cons, stream_cons hs hn, List.length_append, List.length_append]
    omega

/-- Of a render call as much is heard as some core gives. -/
theorem heard_slowest (h : e.Numbered) (some_core : 0 < e.synths.length)
    (before : List SynthCall) (buffer : Audio) (maxTime : Int) :
    ∃ core < e.synths.length,
      ((AnySynth.parallel e).heard (before ++ [.render buffer maxTime])).length +
          (e.stream core before).length =
        (e.stream core (before ++ [.render buffer maxTime])).length +
          ((AnySynth.parallel e).heard before).length := by
  induction before generalizing e with
  | nil =>
    obtain ⟨s, hs, attained⟩ := (e.render_samples buffer maxTime).2.1
      (List.ne_nil_of_length_pos some_core)
    obtain ⟨core, hs⟩ := List.mem_iff_getElem?.mp hs
    have inside := (List.getElem?_eq_some_iff.mp hs).1
    obtain ⟨s', numbers, hs', hn⟩ := h.core inside
    rw [hs] at hs'
    cases hs'
    refine ⟨core, inside, ?_⟩
    rw [List.nil_append, heard_cons, stream_cons hs hn, stream_nil, stream_nil]
    simp only [AnySynth.heard, List.append_nil, List.length_nil, Nat.add_zero]
    exact (e.reported_length buffer maxTime).trans attained
  | cons call before ih =>
    obtain ⟨core, inside, same⟩ := ih (h.after call) (by rwa [after_length h])
    rw [after_length h] at inside
    obtain ⟨s, numbers, hs, hn⟩ := h.core inside
    refine ⟨core, inside, ?_⟩
    simp only [List.cons_append, heard_cons, stream_cons hs hn, List.length_append] at same ⊢
    omega

/-- Each frame that is heard is one of a render call. It is the sum of the frames of the cores at
its place in the call, wherever their streams were before the call. -/
theorem heard_sum (h : e.Numbered) (calls : List SynthCall) {i : Nat}
    (hi : i < ((AnySynth.parallel e).heard calls).length) :
    ∃ before buffer maxTime later k, ∃ frames : List Frame,
      calls = before ++ .render buffer maxTime :: later ∧
        i = ((AnySynth.parallel e).heard before).length + k ∧
        i < ((AnySynth.parallel e).heard (before ++ [.render buffer maxTime])).length ∧
        frames.length = e.synths.length ∧
        (∀ core < e.synths.length,
          (e.stream core calls)[(e.stream core before).length + k]? = frames[core]?) ∧
        ((AnySynth.parallel e).heard calls)[i]? = some (Frame.sum frames) := by
  induction calls generalizing e i with
  | nil => cases hi
  | cons call calls ih =>
    rw [heard_cons, List.length_append] at hi
    rw [heard_cons]
    by_cases now : i < (e.given call).length
    · cases call with
      | play event => cases now
      | render buffer maxTime =>
        obtain ⟨frames, each, sum⟩ := e.reported_sum buffer maxTime now
        have count := congrArg List.length each
        rw [List.length_map, List.length_map] at count
        refine ⟨[], buffer, maxTime, calls, i, frames, rfl, (Nat.zero_add i).symm, ?_, count, ?_,
          ?_⟩
        · rw [List.nil_append, heard_cons, List.length_append]
          omega
        · intro core inside
          obtain ⟨s, numbers, hs, hn⟩ := h.core inside
          have rendered := Nat.lt_of_lt_of_le now (given_length_le hs (.render buffer maxTime))
          rw [stream_cons hs hn, stream_nil, List.length_nil, Nat.zero_add,
            List.getElem?_append_left rendered]
          have here := congrArg (·[core]?) each
          simp only [List.getElem?_map, hs, Option.map_some] at here
          cases hf : frames[core]? with
          | none =>
            rw [hf] at here
            cases here
          | some frame =>
            rw [hf] at here
            exact (Option.some.inj here).symm
        · rw [List.getElem?_append_left now]
          exact sum
    · obtain ⟨before, buffer, maxTime, later, k, frames, rfl, place, inside, count, each, sum⟩ :=
        ih (h.after call) (i := i - (e.given call).length) (by omega)
      rw [after_length h] at count each
      refine ⟨call :: before, buffer, maxTime, later, k, frames, rfl, ?_, ?_, count, ?_, ?_⟩
      · rw [heard_cons, List.length_append]
        omega
      · rw [List.cons_append, heard_cons, List.length_append]
        omega
      · intro core hc
        obtain ⟨s, numbers, hs, hn⟩ := h.core hc
        rw [stream_cons hs hn, stream_cons hs hn, List.length_append, ← each core hc, Nat.add_assoc,
          List.getElem?_append_right (by omega)]
        congr 1
        omega
      · rw [List.getElem?_append_right (by omega)]
        exact sum

/-- Where no core is ahead before a render call, the streams are added up. -/
theorem InStep.addsStreams {calls : List SynthCall} (inStep : e.InStep calls) (h : e.Numbered) :
    e.AddsStreams calls := by
  intro i hi
  obtain ⟨before, buffer, maxTime, later, k, frames, whole, place, -, count, each, sum⟩ :=
    heard_sum h calls hi
  refine ⟨frames, count, ?_, sum⟩
  intro core inside
  rw [← each core inside, inStep before buffer maxTime later whole core inside, ← place]

/-! ## Cores that keep step -/

theorem succeeds_append {s : AnySynth} {before later : List SynthCall}
    (h : s.succeeds (before ++ later) = true) : s.succeeds before = true := by
  induction before generalizing s with
  | nil => rfl
  | cons call before ih =>
    rw [List.cons_append, AnySynth.succeeds, Bool.and_eq_true] at h
    rw [AnySynth.succeeds, Bool.and_eq_true]
    exact ⟨h.1, ih h.2⟩

/-- None of the cores has speed units. -/
def SpeedFree (e : Ensemble) : Prop :=
  ∀ s ∈ e.synths, ModularSynth.SpeedFree s.program.bytecode.opcodes

theorem SpeedFree.after (slow : e.SpeedFree) (h : e.Numbered) (call : SynthCall) :
    (e.after call).SpeedFree := by
  intro s' hs'
  obtain ⟨core, hs'⟩ := List.mem_iff_getElem?.mp hs'
  have inside : core < e.synths.length := by
    rw [← after_length h call]
    exact (List.getElem?_eq_some_iff.mp hs').1
  obtain ⟨s, numbers, hs, hn⟩ := h.core inside
  rw [after_synths hs hn] at hs'
  cases hs'
  rw [s.after_program]
  exact slow s (List.mem_of_getElem? hs)

/-- Without speed units, every core gives for a call that succeeds as much as is heard. -/
theorem given_length (slow : e.SpeedFree) {core : Nat} {s : Synth}
    (hs : e.synths[core]? = some s) {call : SynthCall}
    (fine : ((AnySynth.parallel e).call call).fault = none) :
    (s.given call).length = (e.given call).length := by
  cases call with
  | play event => rfl
  | render buffer maxTime =>
    have faults := e.render_fault buffer maxTime fine
    have paced : ∀ s ∈ e.synths, (s.piece buffer.length maxTime).length =
        min buffer.length maxTime.toNat := by
      intro s hs
      have length := s.program.renderFrom_paced (slow s hs) maxTime buffer.length s.machine
        Stack.start Moment.scratchStart {} [] (faults s hs)
      rw [List.length_nil, Nat.zero_add, Int.sub_zero] at length
      exact length
    have member := List.mem_of_getElem? hs
    obtain ⟨s', hs', attained⟩ := (e.render_samples buffer maxTime).2.1 (List.ne_nil_of_mem member)
    change (s.piece buffer.length maxTime).length = (e.reported buffer maxTime).length
    rw [reported_length, attained, paced s member, paced s' hs']

theorem stream_length (slow : e.SpeedFree) (h : e.Numbered) {core : Nat}
    (inside : core < e.synths.length) {calls : List SynthCall}
    (fine : (AnySynth.parallel e).succeeds calls = true) :
    (e.stream core calls).length = ((AnySynth.parallel e).heard calls).length := by
  induction calls generalizing e with
  | nil =>
    rw [stream_nil]
    rfl
  | cons call calls ih =>
    obtain ⟨s, numbers, hs, hn⟩ := h.core inside
    rw [AnySynth.succeeds, Bool.and_eq_true, Option.isNone_iff_eq_none, call_synth] at fine
    rw [heard_cons, stream_cons hs hn, List.length_append, List.length_append,
      given_length slow hs fine.1,
      ih (slow.after h call) (h.after call) (by rwa [after_length h]) fine.2]

theorem SpeedFree.inStep (slow : e.SpeedFree) (h : e.Numbered) {calls : List SynthCall}
    (fine : (AnySynth.parallel e).succeeds calls = true) : e.InStep calls := by
  rintro before buffer maxTime later rfl core inside
  exact stream_length slow h inside (succeeds_append fine)

/-! ## Ensembles of a patch -/

section Made

variable {options : SynthOptions} {patch : Patch} {bpm : Nat}
  (made : Ensemble.create options patch bpm = .ok e)
include made

theorem numbered_of_create : e.Numbered := by
  obtain ⟨mapping, length, -⟩ := create_ok made
  unfold Numbered
  rw [mapping, length]
  simp [CoreSplit.ofPatch]

/-- The stream of a core is that of a synth for its part of the patch. -/
theorem stream_of_create {core : Nat} (inside : core < CoreSplit.coreCount patch) :
    ∃ s numbers, Synth.create options (CoreSplit.part patch core) bpm = .ok s ∧
      (CoreSplit.ofPatch patch).mapping[core]? = some numbers ∧
      ∀ calls, e.stream core calls =
        (AnySynth.single s).heard (calls.filterMap (·.onCore numbers)) := by
  obtain ⟨mapping, length, each⟩ := create_ok made
  obtain ⟨s, numbers, hs, hn⟩ := (numbered_of_create made).core (length ▸ inside)
  refine ⟨s, numbers, each core s hs, by rw [← mapping, hn], ?_⟩
  intro calls
  unfold stream
  rw [hs, hn]

/-- A patch without active speed units has none on any core. -/
theorem speedFree_of_create (flags : patch.StereoFlags)
    (none : ∀ instrument ∈ patch.instruments, ∀ u ∈ instrument.units,
      u.activeKind? ≠ some .speed) : e.SpeedFree := by
  intro s hs
  obtain ⟨core, hs⟩ := List.mem_iff_getElem?.mp hs
  obtain ⟨b, hb, rfl⟩ := Synth.create_compiled ((create_ok made).2.2 core s hs)
  obtain ⟨assembled, compiled⟩ := Bytecode.compile_ok hb
  have inside : ∀ instrument ∈ (CoreSplit.part patch core).instruments,
      instrument ∈ patch.instruments := by
    rw [CoreSplit.part_instruments]
    exact fun instrument h => (List.mem_filter.mp h).1
  exact compiled.speedFree (fun instrument h => flags instrument (inside instrument h))
    fun instrument h => none instrument (inside instrument h)

end Made

/-- What the cores of a patch play together. The stream of a core is what a synth gives that has
its part of the patch to itself. No core gives less than is heard, and of each render call as much
is heard as some core gives. Each frame that is heard belongs to a render call, and is the sum, in
the order of the cores, of the frames that stand at its place after what each core has given before
the call. So the streams are added up frame by frame, as long as no core is ahead before a render
call; and without speed units none is, if all calls succeed. -/
theorem streams_heard {options : SynthOptions} {patch : Patch} {bpm : Nat} {e : Ensemble}
    (made : Ensemble.create options patch bpm = .ok e) :
    e.synths.length = (CoreSplit.ofPatch patch).patches.length ∧
    (∀ core part, (CoreSplit.ofPatch patch).patches[core]? = some part →
      ∃ s numbers, Synth.create options part bpm = .ok s ∧
        (CoreSplit.ofPatch patch).mapping[core]? = some numbers ∧
        ∀ calls, e.stream core calls =
          (AnySynth.single s).heard (calls.filterMap (·.onCore numbers))) ∧
    ∀ calls : List SynthCall,
      (∀ core < e.synths.length,
        ((AnySynth.parallel e).heard calls).length ≤ (e.stream core calls).length) ∧
      (∀ before buffer maxTime, calls = before ++ [.render buffer maxTime] →
        ∃ core < e.synths.length,
          ((AnySynth.parallel e).heard calls).length + (e.stream core before).length =
            (e.stream core calls).length + ((AnySynth.parallel e).heard before).length) ∧
      (∀ i < ((AnySynth.parallel e).heard calls).length,
        ∃ before buffer maxTime later k, ∃ frames : List Frame,
          calls = before ++ .render buffer maxTime :: later ∧
          i = ((AnySynth.parallel e).heard before).length + k ∧
          i < ((AnySynth.parallel e).heard (before ++ [.render buffer maxTime])).length ∧
          frames.length = e.synths.length ∧
          (∀ core < e.synths.length,
            (e.stream core calls)[(e.stream core before).length + k]? = frames[core]?) ∧
          ((AnySynth.parallel e).heard calls)[i]? = some (Frame.sum frames)) ∧
      (e.InStep calls → e.AddsStreams calls) ∧
      (e.SpeedFree → (AnySynth.parallel e).succeeds calls = true → e.InStep calls) := by
  have numbered := numbered_of_create made
  have cores := (create_ok made).2.1
  refine ⟨?_, ?_, fun calls => ⟨?_, ?_, ?_, ?_, ?_⟩⟩
  · rw [cores, CoreSplit.cores_eq]
  · intro core part hp
    obtain ⟨inside, rfl, -⟩ := CoreSplit.ofPatch_core hp
    exact stream_of_create made inside
  · intro core inside
    exact heard_length_le numbered inside calls
  · rintro before buffer maxTime rfl
    have some_core : 0 < e.synths.length := by
      rw [cores]
      exact CoreSplit.coreCount_pos patch
    exact heard_slowest numbered some_core before buffer maxTime
  · intro i hi
    exact heard_sum numbered calls hi
  · intro inStep
    exact inStep.addsStreams numbered
  · intro slow fine
    exact slow.inStep numbered fine

/-- Two instruments that play on a core each. -/
def twoTones : Patch :=
  let tone := [("loadval", [("value", 128)]), ("out", [("gain", 64)])].map fun (name, settings) =>
    { kindName := name, settings := .ofEntries settings : PatchUnit }
  ⟨[{ units := tone }, { coreMaskLessOne := 1, units := tone }]⟩

/-- A note that is heard in two calls. -/
def twoCalls : List SynthCall :=
  [.play (.trigger 1 64), .render (.silent 2) 2, .play (.release 1), .render (.silent 3) 4]

theorem streams_heard_tones : ∃ e : Ensemble, Ensemble.create {} twoTones 100 = .ok e ∧
    ((AnySynth.parallel e).heard twoCalls).length = 5 ∧ e.AddsStreams twoCalls := by
  have runs : (Ensemble.create {} twoTones 100).toOption.any (fun e =>
      (AnySynth.parallel e).succeeds twoCalls &&
        ((AnySynth.parallel e).heard twoCalls).length == 5) = true := by
    decide +kernel
  cases made : Ensemble.create {} twoTones 100 with
  | error error =>
    rw [made] at runs
    cases runs
  | ok e =>
    rw [made] at runs
    simp only [Except.toOption, Option.any_some, Bool.and_eq_true, beq_iff_eq] at runs
    have slow := speedFree_of_create made (by decide +kernel) (by decide +kernel)
    obtain ⟨-, -, each⟩ := streams_heard made
    obtain ⟨-, -, -, adds, steady⟩ := each twoCalls
    exact ⟨e, rfl, runs.2, adds (steady slow runs.1)⟩

end Ensemble

end ModularSynth
