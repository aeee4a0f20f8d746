-- One render call on several cores. Every synth renders for itself, as far as it gets. What is
-- reported goes as far as the slowest, and each of its frames is the sum of the frames that the
-- synths have given at this place of the call.
import ModularSynth.Ensemble.Basic
import ModularSynth.Proofs.Pace

namespace ModularSynth

/-- The sum of frames, added up in order. -/
def Frame.sum (frames : List Frame) : Frame :=
  frames.foldl (· + ·) .silence

/-! ## What one synth renders -/

namespace Synth

/-- The frames that a synth renders in a call. -/
def piece (s : Synth) (frames : Nat) (maxTime : Int) : Audio :=
  (s.program.render s.machine frames maxTime).frames

theorem piece_counts (s : Synth) (frames : Nat) (maxTime : Int) :
    (s.program.render s.machine frames maxTime).progress.samples = (s.piece frames maxTime).length ∧
      (s.piece frames maxTime).length ≤ frames := by
  have counts := s.program.renderFrom_counts maxTime frames s.machine Stack.start
    Moment.scratchStart {} [] rfl
  rw [List.length_nil, Nat.zero_add] at counts
  exact counts

/-- What a call reports of its buffer are the frames that are rendered. -/
theorem render_reported (s : Synth) (buffer : Audio) (maxTime : Int) :
    (s.render buffer maxTime).2.1.take (s.render buffer maxTime).2.2.progress.samples =
      s.piece buffer.length maxTime := by
  obtain ⟨counted, few⟩ := s.piece_counts buffer.length maxTime
  unfold Synth.render Audio.overwrite
  simp only [counted]
  unfold piece at few ⊢
  rw [List.take_of_length_le few, List.take_left]

/-- The frames of the buffer that a call does not get to are left as they were. -/
theorem render_untouched (s : Synth) (buffer : Audio) (maxTime : Int) :
    (s.render buffer maxTime).2.1.length = buffer.length ∧
      (s.render buffer maxTime).2.1.drop (s.render buffer maxTime).2.2.progress.samples =
        buffer.drop (s.render buffer maxTime).2.2.progress.samples := by
  obtain ⟨counted, few⟩ := s.piece_counts buffer.length maxTime
  unfold Synth.render Audio.overwrite
  simp only [counted]
  unfold piece at few ⊢
  rw [List.take_of_length_le few]
  constructor
  · rw [List.length_append, List.length_drop]
    omega
  · exact List.drop_left

/-- What the buffer holds before a call does not matter to the synth. -/
theorem render_silent (s : Synth) (buffer : Audio) (maxTime : Int) :
    (s.render (.silent buffer.length) maxTime).1 = (s.render buffer maxTime).1 := by
  simp [Synth.render, Audio.silent]

end Synth

namespace Ensemble

/-! ## Mixing -/

theorem mix_length (buffer frames : Audio) : (mix buffer frames).length = buffer.length := by
  induction buffer generalizing frames with
  | nil => cases frames <;> rfl
  | cons a buffer ih =>
    cases frames with
    | nil => rfl
    | cons b frames => simp [mix, ih]

theorem mix_getElem? {buffer frames : Audio} {k : Nat} {a b : Frame} (ha : buffer[k]? = some a)
    (hb : frames[k]? = some b) : (mix buffer frames)[k]? = some (a + b) := by
  induction buffer generalizing frames k with
  | nil => cases ha
  | cons a' buffer ih =>
    cases frames with
    | nil => cases hb
    | cons b' frames =>
      cases k with
      | zero =>
        cases ha
        cases hb
        rfl
      | succ k => exact ih ha hb

theorem foldl_mix_length (pieces : List Audio) (buffer : Audio) :
    (pieces.foldl mix buffer).length = buffer.length := by
  induction pieces generalizing buffer with
  | nil => rfl
  | cons piece rest ih => rw [List.foldl_cons, ih, mix_length]

/-- Where all pieces have a frame, these are added up. -/
theorem foldl_mix_getElem? {pieces : List Audio} {buffer : Audio} {frames : List Frame} {k : Nat}
    {a : Frame} (ha : buffer[k]? = some a) (hf : frames.map some = pieces.map (·[k]?)) :
    (pieces.foldl mix buffer)[k]? = some (frames.foldl (· + ·) a) := by
  induction pieces generalizing buffer frames a with
  | nil =>
    cases frames with
    | nil => exact ha
    | cons frame frames => cases hf
  | cons piece rest ih =>
    cases frames with
    | nil => cases hf
    | cons frame frames =>
      rw [List.map_cons, List.map_cons, List.cons.injEq] at hf
      rw [List.foldl_cons, List.foldl_cons]
      exact ih (mix_getElem? ha hf.1.symm) hf.2

/-! ## Gathering -/

section Gather

variable (results : List CoreResult) (g : Gathered)

theorem foldl_take_buffer : (results.foldl Gathered.take g).buffer =
    (results.map fun r => r.frames.take r.report.progress.samples).foldl mix g.buffer := by
  induction results generalizing g with
  | nil => rfl
  | cons r rest ih =>
    rw [List.foldl_cons, ih]
    rfl

/-- If no fault is known at the end, no core had one. -/
theorem foldl_take_fault (fine : (results.foldl Gathered.take g).fault = none) :
    g.fault = none ∧ ∀ r ∈ results, r.report.fault = none := by
  induction results generalizing g with
  | nil => exact ⟨fine, by simp⟩
  | cons r rest ih =>
    obtain ⟨first, later⟩ := ih _ fine
    unfold Gathered.take at first
    cases hg : g.fault with
    | some fault => simp [hg] at first
    | none =>
      rw [hg] at first
      refine ⟨rfl, ?_⟩
      intro r' h
      rcases List.mem_cons.mp h with rfl | h
      · exact first
      · exact later r' h

/-- The progress is that of the slowest core. -/
theorem foldl_take_progress {p : Progress} (hp : g.progress = some p) :
    ∃ q, (results.foldl Gathered.take g).progress = some q ∧ q.samples ≤ p.samples ∧
      (∀ r ∈ results, q.samples ≤ r.report.progress.samples) ∧
      (q.samples = p.samples ∨ ∃ r ∈ results, q.samples = r.report.progress.samples) := by
  induction results generalizing g p with
  | nil => exact ⟨p, hp, Nat.le_refl _, by simp, .inl rfl⟩
  | cons r rest ih =>
    have next : (g.take r).progress = some (slowest p r.report.progress) := by
      unfold Gathered.take
      rw [hp]
    obtain ⟨q, hq, few, all, attained⟩ := ih _ next
    have least : (slowest p r.report.progress).samples =
        min p.samples r.report.progress.samples := rfl
    rw [least] at few attained
    refine ⟨q, hq, by omega, ?_, ?_⟩
    · intro r' h
      rcases List.mem_cons.mp h with rfl | h
      · omega
      · exact all r' h
    · rcases attained with same | ⟨r', h, same⟩
      · rcases Nat.le_total p.samples r.report.progress.samples with le | le
        · exact .inl (by omega)
        · exact .inr ⟨r, List.mem_cons_self, by omega⟩
      · exact .inr ⟨r', List.mem_cons_of_mem _ h, same⟩

/-- Every core gets its synth back. -/
theorem foldl_take_synths {α : Type} (xs : List α) (start : Nat) (synth : α → Synth)
    (frames : α → Audio) (report : α → RenderReport) (h : g.synths.length = start + xs.length) :
    (((xs.zipIdx start).map fun (x, core) =>
      (⟨core, synth x, frames x, report x⟩ : CoreResult)).foldl Gathered.take g).synths =
      g.synths.take start ++ xs.map synth := by
  induction xs generalizing start g with
  | nil =>
    rw [List.length_nil, Nat.add_zero] at h
    simp [← h]
  | cons x rest ih =>
    rw [List.zipIdx_cons, List.map_cons, List.foldl_cons]
    rw [List.length_cons] at h
    rw [ih _ (start + 1)]
    · unfold Gathered.take
      simp only
      have inside : start < g.synths.length := by omega
      rw [List.take_add_one, List.take_set_of_le (Nat.le_refl _), List.getElem?_set_self inside]
      simp
    · unfold Gathered.take
      simp only [List.length_set]
      omega

end Gather

/-! ## Rendering -/

variable (e : Ensemble) (buffer : Audio) (maxTime : Int)

/-- The pieces that the cores render. -/
def pieces (e : Ensemble) (frames : Nat) (maxTime : Int) : List Audio :=
  e.synths.map (·.piece frames maxTime)

/-- The frames that a call reports. -/
def reported (e : Ensemble) (buffer : Audio) (maxTime : Int) : Audio :=
  (e.render buffer maxTime).2.1.take (e.render buffer maxTime).2.2.progress.samples

theorem render_synths :
    (e.render buffer maxTime).1 =
      { e with synths := e.synths.map fun s => (s.render buffer maxTime).1 } := by
  obtain ⟨options, synths, mapping⟩ := e
  unfold render gather coreResults
  simp only
  congr 1
  have each := foldl_take_synths
    { synths := synths.map fun _ => default, buffer := .silent buffer.length } synths 0
    (fun s => (s.render (.silent buffer.length) maxTime).1)
    (fun s => (s.render (.silent buffer.length) maxTime).2.1)
    (fun s => (s.render (.silent buffer.length) maxTime).2.2) (by simp)
  rw [List.take_zero, List.nil_append] at each
  apply each.trans
  simp only [Synth.render_silent]

theorem render_buffer :
    (e.render buffer maxTime).2.1 =
      (e.pieces buffer.length maxTime).foldl mix (.silent buffer.length) := by
  unfold render gather coreResults
  simp only [foldl_take_buffer, List.map_map]
  congr 1
  unfold pieces
  apply List.ext_getElem?
  intro core
  rw [List.getElem?_map, List.getElem?_map, List.getElem?_zipIdx]
  cases e.synths[core]? with
  | none => rfl
  | some s =>
    simp only [Option.map_some, Function.comp_apply]
    have reports := s.render_reported (.silent buffer.length) maxTime
    rw [Audio.silent, List.length_replicate] at reports
    rw [Audio.silent, reports]

theorem mem_coreResults {synths : List Synth} {frames : Nat} {r : CoreResult}
    (h : r ∈ coreResults synths frames maxTime) :
    ∃ s ∈ synths, r.report = (s.render (.silent frames) maxTime).2.2 := by
  unfold coreResults at h
  obtain ⟨⟨s, core⟩, hs, rfl⟩ := List.mem_map.mp h
  exact ⟨s, List.fst_mem_of_mem_zipIdx hs, rfl⟩

theorem exists_coreResult {synths : List Synth} {s : Synth} (h : s ∈ synths) (frames : Nat) :
    ∃ r ∈ coreResults synths frames maxTime,
      r.report = (s.render (.silent frames) maxTime).2.2 := by
  obtain ⟨core, hs⟩ := List.mem_iff_getElem?.mp h
  unfold coreResults
  exact ⟨_, List.mem_map.mpr ⟨(s, core), List.mem_zipIdx_iff_getElem?.mpr hs, rfl⟩, rfl⟩

/-- The samples that a core reports are those of its piece. -/
theorem report_samples (s : Synth) (frames : Nat) :
    (s.render (.silent frames) maxTime).2.2.progress.samples =
      (s.piece frames maxTime).length := by
  have counted := (s.piece_counts frames maxTime).1
  unfold Synth.render Audio.silent
  simp only [List.length_replicate]
  exact counted

/-- A call gets as far as the slowest core. -/
theorem render_samples :
    (∀ s ∈ e.synths, (e.render buffer maxTime).2.2.progress.samples ≤
      (s.piece buffer.length maxTime).length) ∧
    (e.synths ≠ [] → ∃ s ∈ e.synths, (e.render buffer maxTime).2.2.progress.samples =
      (s.piece buffer.length maxTime).length) ∧
    (e.render buffer maxTime).2.2.progress.samples ≤ buffer.length := by
  obtain ⟨options, synths, mapping⟩ := e
  unfold render gather
  simp only
  cases results : coreResults synths buffer.length maxTime with
  | nil =>
    have none : synths = [] := by simpa [coreResults] using results
    rw [none]
    simp
  | cons r rest =>
    have first : (Gathered.take
        { synths := synths.map fun _ => default, buffer := .silent buffer.length } r).progress =
          some r.report.progress := rfl
    obtain ⟨q, hq, few, all, attained⟩ := foldl_take_progress rest _ first
    rw [List.foldl_cons]
    rw [hq, Option.getD_some]
    have least : ∀ r' ∈ r :: rest, q.samples ≤ r'.report.progress.samples := by
      intro r' h
      rcases List.mem_cons.mp h with rfl | h
      · exact few
      · exact all r' h
    obtain ⟨r', h, same⟩ : ∃ r' ∈ r :: rest, q.samples = r'.report.progress.samples := by
      rcases attained with same | ⟨r', h, same⟩
      · exact ⟨r, List.mem_cons_self, same⟩
      · exact ⟨r', List.mem_cons_of_mem _ h, same⟩
    rw [← results] at least h
    obtain ⟨s, hs, reports⟩ := mem_coreResults maxTime h
    rw [reports, report_samples] at same
    refine ⟨?_, ?_, ?_⟩
    · intro s' hs'
      obtain ⟨r'', h', reports'⟩ := exists_coreResult maxTime hs' buffer.length
      have bound := least r'' h'
      rw [reports', report_samples] at bound
      exact bound
    · intro _
      exact ⟨s, hs, same⟩
    · rw [same]
      exact (s.piece_counts buffer.length maxTime).2

theorem reported_length :
    (e.reported buffer maxTime).length = (e.render buffer maxTime).2.2.progress.samples := by
  have few := (e.render_samples buffer maxTime).2.2
  unfold reported
  rw [List.length_take, render_buffer, foldl_mix_length, Audio.silent, List.length_replicate]
  omega

/-- Each frame that a call reports is the sum of the frames of all cores at its place. -/
theorem reported_sum {k : Nat} (hk : k < (e.reported buffer maxTime).length) :
    ∃ frames : List Frame,
      frames.map some = e.synths.map (fun s => (s.piece buffer.length maxTime)[k]?) ∧
        (e.reported buffer maxTime)[k]? = some (Frame.sum frames) := by
  rw [reported_length] at hk
  obtain ⟨least, -, few⟩ := e.render_samples buffer maxTime
  have all : ∀ s ∈ e.synths, k < (s.piece buffer.length maxTime).length :=
    fun s hs => Nat.lt_of_lt_of_le hk (least s hs)
  refine ⟨e.synths.map fun s => (s.piece buffer.length maxTime)[k]?.getD default, ?_, ?_⟩
  · rw [List.map_map]
    apply List.map_congr_left
    intro s hs
    rw [Function.comp_apply, List.getElem?_eq_getElem (all s hs)]
    rfl
  · unfold reported
    rw [List.getElem?_take_of_lt hk, render_buffer]
    have silent : (Audio.silent buffer.length)[k]? = some .silence := by
      rw [Audio.silent, List.getElem?_replicate_of_lt (by omega)]
    apply foldl_mix_getElem? silent
    unfold pieces
    rw [List.map_map, List.map_map]
    apply List.map_congr_left
    intro s hs
    simp only [Function.comp_apply]
    rw [List.getElem?_eq_getElem (all s hs)]
    rfl

/-- If a call succeeds, it does on every core. -/
theorem render_fault (fine : (e.render buffer maxTime).2.2.fault = none) :
    ∀ s ∈ e.synths, (s.program.render s.machine buffer.length maxTime).fault = none := by
  intro s hs
  obtain ⟨options, synths, mapping⟩ := e
  unfold render gather at fine
  simp only at fine
  cases known : ((coreResults synths buffer.length maxTime).foldl Gathered.take
      { synths := synths.map fun _ => default, buffer := .silent buffer.length }).fault with
  | some fault =>
    rw [known] at fine
    cases fine
  | none =>
    obtain ⟨r, hr, reports⟩ := exists_coreResult maxTime hs buffer.length
    have fault := (foldl_take_fault _ _ known).2 r hr
    rw [reports] at fault
    unfold Synth.render Audio.silent at fault
    simpa only [List.length_replicate] using fault

end Ensemble

end ModularSynth
