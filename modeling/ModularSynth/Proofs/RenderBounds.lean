-- The bounds of a render call. A call has at most as many frames as its buffer, and leaves the rest
-- of the buffer alone; if it has no fault, it goes on until the buffer is full or the time is up.
-- Without speed units the time goes with the frames, on every core alike.
import ModularSynth.Proofs.CoreStreams
import ModularSynth.Proofs.FrameStarts
import ModularSynth.Proofs.OpcodeLoop
import ModularSynth.Proofs.RenderParts

namespace ModularSynth

/-! ## One synth -/

namespace Program

variable (p : Program)

theorem startsFrom_length (maxTime : Int) (frames : Nat) (s : Moment) :
    (p.startsFrom maxTime frames s).length ≤ frames := by
  induction frames generalizing s with
  | zero => exact Nat.le_refl 0
  | succ frames ih =>
    unfold startsFrom
    split
    · rw [List.length_cons]
      apply Nat.succ_le_succ
      split
      · exact ih _
      · exact Nat.zero_le _
    · exact Nat.zero_le _

/-- Without speed units, the time of a rendering goes with its frames, even if it fails. -/
theorem renderFrom_time (slow : SpeedFree p.bytecode.opcodes) (maxTime : Int) (frames : Nat)
    (m : Machine) (stack : Stack) (scratch : List Signal) (progress : Progress)
    (done : List Frame) :
    let r := p.renderFrom maxTime frames m stack scratch progress done
    r.progress.time - r.progress.samples = progress.time - progress.samples := by
  apply p.renderFrom_ends
    (I := fun _ _ _ _ now _ => now.time - now.samples = progress.time - progress.samples)
    (Q := fun r => r.progress.time - r.progress.samples = progress.time - progress.samples)
  · intro _ _ _ _ _ _ same _
    exact same
  · intro _ _ _ _ now _ same _
    refine (p.runFrame_time slow _).mono (fun _ s kept => ?_) fun _ s kept => ?_
    · rw [show s.time = now.time from kept]
      simp only
      omega
    · rw [show s.time = now.time from kept]
      exact same
  · rfl

end Program

namespace Synth

variable {s : Synth} {buffer : Audio} {maxTime : Int}

/-- A call that has no fault fills the buffer, or the time is up. -/
theorem render_full_or_late (fine : (s.render buffer maxTime).2.2.fault = none) :
    (s.render buffer maxTime).2.2.progress.samples = buffer.length ∨
      maxTime ≤ (s.render buffer maxTime).2.2.progress.time := by
  have counted := (s.piece_counts buffer.length maxTime).1
  have length := s.program.renderFrom_length maxTime buffer.length s.machine Stack.start
    Moment.scratchStart {} [] fine
  rw [List.length_nil, Nat.zero_add] at length
  rcases length with full | ⟨-, late⟩
  · exact .inl (counted.trans full)
  · exact .inr late

/-- Without speed units, a call that has no fault reports as many samples as time, and as many as
the buffer and the time allow. -/
theorem render_paced (slow : SpeedFree s.program.bytecode.opcodes)
    (fine : (s.render buffer maxTime).2.2.fault = none) :
    let k := min buffer.length maxTime.toNat
    (s.render buffer maxTime).2.2 = ⟨⟨k, k⟩, none⟩ := by
  have counted := (s.piece_counts buffer.length maxTime).1
  have paced := s.program.renderFrom_paced slow maxTime buffer.length s.machine Stack.start
    Moment.scratchStart {} [] fine
  have time := s.program.renderFrom_time slow maxTime buffer.length s.machine Stack.start
    Moment.scratchStart {} []
  change (s.piece buffer.length maxTime).length = _ at paced
  change (s.render buffer maxTime).2.2.progress.samples = _ at counted
  change (s.render buffer maxTime).2.2.progress.time -
    (s.render buffer maxTime).2.2.progress.samples = 0 - (0 : Nat) at time
  rw [List.length_nil, Nat.zero_add, Int.sub_zero] at paced
  cases reported : (s.render buffer maxTime).2.2 with
  | mk progress fault =>
    obtain ⟨samples, now⟩ := progress
    rw [reported] at fine counted time
    simp only at fine counted time
    simp only [RenderReport.mk.injEq, Progress.mk.injEq]
    exact ⟨⟨by omega, by omega⟩, fine⟩

end Synth

/-! ## All cores -/

namespace Ensemble

/-- The results that are alike add up to what each of them is. -/
theorem foldl_take_alike {progress : Progress} (results : List CoreResult) (g : Gathered)
    (all : ∀ r ∈ results, r.report = ⟨progress, none⟩) (known : g.progress = some progress)
    (fine : g.fault = none) :
    (results.foldl Gathered.take g).progress = some progress ∧
      (results.foldl Gathered.take g).fault = none := by
  induction results generalizing g with
  | nil => exact ⟨known, fine⟩
  | cons r rest ih =>
    have here := all r List.mem_cons_self
    apply ih (g.take r) fun r' h => all r' (List.mem_cons_of_mem _ h)
    · unfold Gathered.take slowest
      simp only [known, here, Nat.min_self, Int.min_self]
    · unfold Gathered.take
      simp only [fine, here]
      rfl

/-- Where all cores report the same, so does the call, in whatever order they deliver. -/
theorem gather_alike (e : Ensemble) (frames : Nat) {progress : Progress} {results : List CoreResult}
    (some_core : e.synths ≠ []) (complete : results.length = e.synths.length)
    (all : ∀ r ∈ results, r.report = ⟨progress, none⟩) :
    (e.gather frames results).2.2 = ⟨progress, none⟩ := by
  unfold gather
  cases results with
  | nil => exact absurd (List.length_eq_zero_iff.mp complete.symm) some_core
  | cons r rest =>
    have first := all r List.mem_cons_self
    obtain ⟨reached, fine⟩ := foldl_take_alike rest
      (Gathered.take { synths := e.synths, buffer := .silent frames } r)
      (fun r' h => all r' (List.mem_cons_of_mem _ h)) (by simp [Gathered.take, first])
      (by simp [Gathered.take, first])
    simp only [List.foldl_cons, reached, fine, complete, Nat.lt_irrefl, if_false, Option.getD_some]
    rfl

/-- The ensembles that there can be. -/
inductive Reached (options : SynthOptions) : Ensemble → Prop
  | create {patch : Patch} {bpm : Nat} {e : Ensemble} :
    Ensemble.create options patch bpm = .ok e → Reached options e
  | after {e : Ensemble} (call : SynthCall) : Reached options e → Reached options (e.after call)
  | update {e : Ensemble} (patch : Patch) (bpm : Nat) :
    Reached options e → Reached options (e.update patch bpm).1

theorem updateEach_length (bpm : Nat) (synths : List Synth) (parts : List (Patch × List Nat)) :
    (updateEach bpm synths parts).1.length = synths.length := by
  induction synths generalizing parts with
  | nil => cases parts <;> rfl
  | cons s synths ih =>
    cases parts with
    | nil => rfl
    | cons part parts =>
      unfold updateEach
      cases s.update part.1 bpm with
      | error error => rfl
      | ok s' => simp only [List.length_cons, ih]

theorem update_numbered {e : Ensemble} (numbered : e.Numbered) (some_core : e.synths ≠ [])
    (patch : Patch) (bpm : Nat) :
    (e.update patch bpm).1.Numbered ∧ (e.update patch bpm).1.synths ≠ [] := by
  unfold update
  simp only
  split
  · cases made : (CoreSplit.ofPatch patch).forEachCore (Synth.create e.options · bpm) with
    | error error => exact ⟨numbered, some_core⟩
    | ok synths =>
      have length := (CoreSplit.forEachCore_ok made).1
      constructor
      · unfold Numbered
        simp only
        rw [length]
        simp [CoreSplit.ofPatch]
      · apply List.ne_nil_of_length_pos
        simp only
        rw [length]
        exact CoreSplit.coreCount_pos patch
  · cases (CoreSplit.ofPatch patch).forEachCore (Bytecode.compile · .all bpm) with
    | error error => exact ⟨numbered, some_core⟩
    | ok trial =>
      have length := updateEach_length bpm e.synths
        ((CoreSplit.ofPatch patch).patches.zip (CoreSplit.ofPatch patch).instruments)
      constructor
      · exact length.trans numbered
      · apply List.ne_nil_of_length_pos
        exact length.symm ▸ List.length_pos_iff.mpr some_core

/-- An ensemble always has a core. -/
theorem Reached.some_core {options : SynthOptions} {e : Ensemble} (h : e.Reached options) :
    e.synths ≠ [] := by
  have both : e.Numbered ∧ e.synths ≠ [] := by
    induction h with
    | create made =>
      refine ⟨numbered_of_create made, ?_⟩
      apply List.ne_nil_of_length_pos
      rw [(create_ok made).2.1]
      exact CoreSplit.coreCount_pos _
    | after call _ ih =>
      refine ⟨ih.1.after call, ?_⟩
      apply List.ne_nil_of_length_pos
      rw [after_length ih.1]
      exact List.length_pos_iff.mpr ih.2
    | update patch bpm _ ih => exact update_numbered ih.1 ih.2 patch bpm
  exact both.2

/-- If a call on cores without speed units has no fault, all cores report the same. -/
theorem render_alike {e : Ensemble} {buffer : Audio} {maxTime : Int} (slow : e.SpeedFree)
    (fine : (e.render buffer maxTime).2.2.fault = none) :
    let k := min buffer.length maxTime.toNat
    ∀ s ∈ e.synths, (s.render (.silent buffer.length) maxTime).2.2 = ⟨⟨k, k⟩, none⟩ := by
  intro k s hs
  have length : (Audio.silent buffer.length).length = buffer.length := List.length_replicate
  have own : (s.render (.silent buffer.length) maxTime).2.2.fault = none := by
    have fault := e.render_fault buffer maxTime fine s hs
    rw [← length] at fault
    exact fault
  have paced := Synth.render_paced (slow s hs) own
  rw [length] at paced
  exact paced

end Ensemble

/-- A render call keeps to its bounds. It gives no more frames than the buffer has, leaves the rest
of the buffer alone, and without a fault goes on until the buffer is full or the time is up,
whichever way the time goes. It starts no more frames than the buffer has. Each is read to its end
or to its fault in as many readings as there are voices times the opcodes of the longest instrument
and an end, and runs no more units than voices times those opcodes. Without speed units the samples
and the time of a call without a fault are what the buffer and the time allow; so they are on every
core of an ensemble, and for all cores together in whatever order they deliver. -/
theorem render_keeps_bounds {options : SynthOptions} :
    (∀ (s : Synth) (buffer : Audio) (maxTime : Int),
      let (_, written, report) := s.render buffer maxTime
      let p := s.program
      let longest := longestBlock p.bytecode.opcodes
      let k := min buffer.length maxTime.toNat
      report.progress.samples ≤ buffer.length ∧
      (report.fault = none →
        report.progress.samples = buffer.length ∨ maxTime ≤ report.progress.time) ∧
      written.length = buffer.length ∧
      written.drop report.progress.samples = buffer.drop report.progress.samples ∧
      (p.starts s.machine buffer.length maxTime).length ≤ buffer.length ∧
      (∀ start ∈ p.starts s.machine buffer.length maxTime,
        (p.readAll (p.bytecode.voices * (longest + 1)) p.firstReader).run start =
            (p.runVoices p.bytecode.voices 0 p.bytecode.opcodes >>= fun _ => pure true).run start ∧
          (p.turns start).length ≤ p.bytecode.voices * longest) ∧
      (SpeedFree p.bytecode.opcodes → report.fault = none → report.progress = ⟨k, k⟩)) ∧
    ∀ (e : Ensemble) (buffer : Audio) (maxTime : Int), e.Reached options → e.SpeedFree →
      (e.render buffer maxTime).2.2.fault = none →
      let k := min buffer.length maxTime.toNat
      (∀ s ∈ e.synths, (s.render (.silent buffer.length) maxTime).2.2 = ⟨⟨k, k⟩, none⟩) ∧
      (e.render buffer maxTime).2.2 = ⟨⟨k, k⟩, none⟩ ∧
      ∀ results, results.Perm (Ensemble.coreResults e.synths buffer.length maxTime) →
        (e.gather buffer.length results).2.2 = ⟨⟨k, k⟩, none⟩ := by
  constructor
  · intro s buffer maxTime
    obtain ⟨counted, few⟩ := s.piece_counts buffer.length maxTime
    obtain ⟨length, untouched⟩ := s.render_untouched buffer maxTime
    refine ⟨counted ▸ few, Synth.render_full_or_late, length, untouched,
      s.program.startsFrom_length _ _ _, ?_, ?_⟩
    · intro start hs
      obtain ⟨operands, -⟩ := s.program.starts_operands s.machine buffer.length maxTime start hs
      exact ⟨s.program.readAll_frame operands, s.program.turns_length start⟩
    · intro slow fine
      exact congrArg (·.progress) (Synth.render_paced slow fine)
  · intro e buffer maxTime reached slow fine k
    have alike := Ensemble.render_alike slow fine
    have any_order : ∀ (e' : Ensemble) (results : List CoreResult),
        e'.synths.length = e.synths.length →
        results.Perm (Ensemble.coreResults e.synths buffer.length maxTime) →
        (e'.gather buffer.length results).2.2 = ⟨⟨k, k⟩, none⟩ := by
      intro e' results same order
      apply e'.gather_alike buffer.length
      · apply List.ne_nil_of_length_pos
        exact same ▸ List.length_pos_iff.mpr reached.some_core
      · rw [order.length_eq, same]
        simp [Ensemble.coreResults]
      · intro r hr
        obtain ⟨s, hs, report⟩ := Ensemble.mem_coreResults maxTime (order.mem_iff.mp hr)
        rw [report]
        exact alike s hs
    refine ⟨alike, ?_, fun results order => any_order e results rfl order⟩
    exact any_order { e with synths := e.synths.map fun _ => default } _ (List.length_map _)
      (.refl _)

theorem render_keeps_bounds_tones : ∃ (s : Synth) (e : Ensemble),
    Synth.create {} Ensemble.twoTones 100 = .ok s ∧
      Ensemble.create {} Ensemble.twoTones 100 = .ok e ∧
      (s.render (.silent 3) 2).2.2.progress = ⟨2, 2⟩ ∧
      (s.render (.silent 3) 2).2.1.drop 2 = Audio.silent 1 ∧
      (e.render (.silent 3) 2).2.2 = ⟨⟨2, 2⟩, none⟩ := by
  obtain ⟨s, single, slow, fine⟩ : ∃ s, Synth.create {} Ensemble.twoTones 100 = .ok s ∧
      SpeedFree s.program.bytecode.opcodes ∧ (s.render (.silent 3) 2).2.2.fault = none :=
    ⟨_, rfl, by decide +kernel, by decide +kernel⟩
  obtain ⟨e, made, succeeds⟩ : ∃ e, Ensemble.create {} Ensemble.twoTones 100 = .ok e ∧
      (e.render (.silent 3) 2).2.2.fault = none := ⟨_, rfl, by decide +kernel⟩
  have free := Ensemble.speedFree_of_create made (by decide +kernel) (by decide +kernel)
  obtain ⟨one, all⟩ := @render_keeps_bounds {}
  obtain ⟨-, -, -, untouched, -, -, paced⟩ := one s (.silent 3) 2
  obtain ⟨-, together, -⟩ := all e (.silent 3) 2 (.create made) free succeeds
  have progress := paced slow fine
  rw [progress] at untouched
  exact ⟨s, e, single, made, progress, untouched, together⟩

end ModularSynth
