-- The order in which the cores deliver does not matter. Every delivery goes to the place of its
-- own core, the call gets as far as the slowest core whoever that is, and it fails if some core
-- does. Only the sum of the frames is added up in another order, and of several faults another
-- one may come first.
import ModularSynth.Ensemble.Workers
import ModularSynth.Proofs.CoreRender
import Mathlib.Data.List.Perm.Basic

namespace ModularSynth

/-! ## Mixing -/

namespace Ensemble

/-- Mixing leaves a frame alone where there is nothing to mix. -/
theorem mix_getElem?_beyond {buffer frames : Audio} {k : Nat} (hb : frames[k]? = none) :
    (mix buffer frames)[k]? = buffer[k]? := by
  induction buffer generalizing frames k with
  | nil => cases frames <;> rfl
  | cons a buffer ih =>
    cases frames with
    | nil => rfl
    | cons b frames =>
      cases k with
      | zero => cases hb
      | succ k => exact ih hb

/-- A frame of some pieces that are mixed is the sum of the frames that they have there. -/
theorem foldl_mix_frame (pieces : List Audio) {buffer : Audio} {k : Nat} {a : Frame}
    (ha : buffer[k]? = some a) :
    (pieces.foldl mix buffer)[k]? = some ((pieces.filterMap (·[k]?)).foldl (· + ·) a) := by
  induction pieces generalizing buffer a with
  | nil => exact ha
  | cons piece rest ih =>
    rw [List.foldl_cons, List.filterMap_cons]
    cases hp : piece[k]? with
    | none => exact ih (by rw [mix_getElem?_beyond hp, ha])
    | some b => exact ih (mix_getElem? ha hp)

end Ensemble

/-! ## Taking in deliveries -/

/-- The slowest progress that is known after one more is. -/
def Progress.slowestSoFar (known : Option Progress) (p : Progress) : Option Progress :=
  some (match known with
    | none => p
    | some q => Ensemble.slowest q p)

instance : RightCommutative Progress.slowestSoFar where
  right_comm known p q := by
    unfold Progress.slowestSoFar Ensemble.slowest
    cases known with
    | none =>
      simp only [Option.some_inj, Progress.mk.injEq]
      omega
    | some r =>
      simp only [Option.some_inj, Progress.mk.injEq]
      omega

namespace Tally

variable (deliveries : List CoreDelivery) (t : Tally)

theorem foldl_take_buffer : (deliveries.foldl take t).buffer =
    (deliveries.map (·.reported)).foldl Ensemble.mix t.buffer := by
  induction deliveries generalizing t with
  | nil => rfl
  | cons d rest ih =>
    rw [List.foldl_cons, ih]
    rfl

theorem foldl_take_progress : (deliveries.foldl take t).progress =
    (deliveries.map (·.report.progress)).foldl Progress.slowestSoFar t.progress := by
  induction deliveries generalizing t with
  | nil => rfl
  | cons d rest ih =>
    rw [List.foldl_cons, ih]
    rfl

/-- The fault that is known is the first one. -/
theorem foldl_take_fault : (deliveries.foldl take t).fault =
    (t.fault <|> deliveries.findSome? (·.report.fault)) := by
  induction deliveries generalizing t with
  | nil => simp
  | cons d rest ih =>
    rw [List.foldl_cons, ih, List.findSome?_cons]
    unfold take
    cases t.fault with
    | some fault => simp
    | none => cases d.report.fault <;> simp

theorem foldl_take_length : (deliveries.foldl take t).rack.length = t.rack.length := by
  induction deliveries generalizing t with
  | nil => rfl
  | cons d rest ih => rw [List.foldl_cons, ih, take, List.length_set]

/-- A core that delivers nothing has in its place what it had. -/
theorem foldl_take_untouched {core : Nat} (h : core ∉ deliveries.map (·.core)) :
    (deliveries.foldl take t).rack[core]? = t.rack[core]? := by
  induction deliveries generalizing t with
  | nil => rfl
  | cons d rest ih =>
    rw [List.map_cons, List.mem_cons, not_or] at h
    rw [List.foldl_cons, ih _ h.2, take, List.getElem?_set_ne (Ne.symm h.1)]

/-- A core that delivers once has in its place what it delivers. -/
theorem foldl_take_place (once : (deliveries.map (·.core)).Nodup) {d : CoreDelivery}
    (h : d ∈ deliveries) (inside : d.core < t.rack.length) :
    (deliveries.foldl take t).rack[d.core]? = some d.place := by
  induction deliveries generalizing t with
  | nil => cases h
  | cons d' rest ih =>
    rw [List.map_cons, List.nodup_cons] at once
    rw [List.foldl_cons]
    rcases List.mem_cons.mp h with rfl | later
    · rw [foldl_take_untouched _ _ once.1, take, List.getElem?_set_self inside]
    · exact ih _ once.2 later (by rw [take, List.length_set]; exact inside)

end Tally

namespace Rack

variable (rack : Rack) (frames : Nat)

/-- What is in the places of the cores after all deliveries does not depend on their order. -/
theorem collect_rack_perm {first second : List CoreDelivery} (same : first.Perm second)
    (once : (first.map (·.core)).Nodup) (inside : ∀ d ∈ first, d.core < rack.length) :
    (rack.collect frames first).1 = (rack.collect frames second).1 := by
  apply List.ext_getElem?
  intro core
  unfold collect
  by_cases h : core ∈ first.map (·.core)
  · obtain ⟨d, hd, rfl⟩ := List.mem_map.mp h
    rw [Tally.foldl_take_place _ _ once hd (inside d hd),
      Tally.foldl_take_place _ _ ((same.map _).nodup once) (same.mem_iff.mp hd) (inside d hd)]
  · rw [Tally.foldl_take_untouched _ _ h,
      Tally.foldl_take_untouched _ _ fun h' => h ((same.map _).mem_iff.mpr h')]

/-- Nor does how far the call got. -/
theorem collect_progress_perm {first second : List CoreDelivery} (same : first.Perm second) :
    (rack.collect frames first).2.2.progress = (rack.collect frames second).2.2.progress := by
  unfold collect
  simp only [Tally.foldl_take_progress]
  rw [(same.map _).foldl_eq]

/-- A call succeeds if all cores have delivered and none of them failed. -/
theorem collect_fault_none (deliveries : List CoreDelivery) :
    (rack.collect frames deliveries).2.2.fault = none ↔
      (∀ d ∈ deliveries, d.report.fault = none) ∧ rack.length ≤ deliveries.length := by
  unfold collect
  simp only [Tally.foldl_take_fault]
  rw [← Nat.not_lt, ← List.findSome?_eq_none_iff]
  cases deliveries.findSome? (·.report.fault) with
  | some fault => simp
  | none => by_cases few : deliveries.length < rack.length <;> simp [few]

/-- The fault of a call is that of a core, or that too few cores have delivered. -/
theorem collect_fault_some {deliveries : List CoreDelivery} {fault : RenderFault}
    (h : (rack.collect frames deliveries).2.2.fault = some fault) :
    (∃ d ∈ deliveries, d.report.fault = some fault) ∨
      fault = .workerLost ∧ deliveries.length < rack.length := by
  unfold collect at h
  simp only [Tally.foldl_take_fault] at h
  cases found : deliveries.findSome? (·.report.fault) with
  | some first =>
    rw [found] at h
    cases h
    exact .inl (List.exists_of_findSome?_eq_some found)
  | none =>
    rw [found] at h
    by_cases few : deliveries.length < rack.length
    · rw [if_pos few] at h
      cases h
      exact .inr ⟨rfl, few⟩
    · rw [if_neg few] at h
      cases h

/-- A frame of a call is the sum of the frames that the cores report at its place, in the order
in which they deliver. -/
theorem collect_frame (deliveries : List CoreDelivery) {k : Nat} (hk : k < frames) :
    (rack.collect frames deliveries).2.1[k]? =
      some (Frame.sum (deliveries.filterMap (·.reported[k]?))) := by
  have silent : (Audio.silent frames)[k]? = some .silence := List.getElem?_replicate_of_lt hk
  unfold collect Frame.sum
  simp only [Tally.foldl_take_buffer]
  rw [Ensemble.foldl_mix_frame _ silent, List.filterMap_map]
  rfl

/-! ## Jobs -/

theorem jobs_cores_sublist (maxTime : Int) (start : Nat) :
    (((rack.zipIdx start).filterMap fun (place, core) =>
      place.synth.map (Job.mk core · frames maxTime)).map (·.core)).Sublist
        (List.range' start rack.length) := by
  induction rack generalizing start with
  | nil => exact .slnil
  | cons place rest ih =>
    rw [List.zipIdx_cons, List.length_cons, List.range'_succ]
    cases hs : place.synth with
    | none =>
      rw [List.filterMap_cons_none (by simp [hs])]
      exact .cons _ (ih (start + 1))
    | some s =>
      rw [List.filterMap_cons_some (by simp [hs]; rfl), List.map_cons]
      exact .cons_cons _ (ih (start + 1))

/-- Every core has one job at most. -/
theorem jobs_nodup (maxTime : Int) : ((rack.jobs frames maxTime).map (·.core)).Nodup :=
  (rack.jobs_cores_sublist frames maxTime 0).nodup List.nodup_range'

theorem jobs_inside (maxTime : Int) {j : Job} (h : j ∈ rack.jobs frames maxTime) :
    j.core < rack.length := by
  have inside := (rack.jobs_cores_sublist frames maxTime 0).subset (List.mem_map_of_mem h)
  rw [List.mem_range'_1] at inside
  omega

end Rack

theorem Job.outcome_core (j : Job) (broken : Nat → Bool) : (j.outcome broken).core = j.core := by
  unfold outcome
  split <;> rfl

/-- The buffer that comes back from a job holds all frames that the core reports. -/
theorem Job.outcome_fits (j : Job) (broken : Nat → Bool) :
    (j.outcome broken).report.progress.samples ≤ (j.outcome broken).scratch.length := by
  unfold outcome
  split
  · exact Nat.le_refl 0
  · obtain ⟨counted, few⟩ := j.synth.piece_counts j.frames j.maxTime
    unfold Synth.piece at counted few
    unfold done Synth.render Audio.overwrite Audio.silent
    simp only [List.length_replicate, List.length_append, List.length_take, List.length_drop,
      counted]
    omega

theorem Job.map_outcome_core (jobs : List Job) (broken : Nat → Bool) :
    (jobs.map (outcome broken)).map (·.core) = jobs.map (·.core) := by
  rw [List.map_map]
  exact List.map_congr_left fun j _ => j.outcome_core broken

/-! ## Schedules -/

namespace Dispatch

variable {broken : Nat → Bool} {jobs : List Job}

/-- What has come of the jobs, or will. -/
def outcomes (broken : Nat → Bool) (s : Dispatch) : List CoreDelivery :=
  (s.unsent ++ s.queue ++ s.running).map (Job.outcome broken) ++ (s.returning ++ s.arrived)

/-- Whatever happens next, no outcome is lost and none is there twice. -/
theorem Step.conserves {s s' : Dispatch} (h : Step broken s s') :
    (s'.outcomes broken).Perm (s.outcomes broken) := by
  classical
  rw [List.perm_iff_count]
  intro d
  cases h <;> simp [outcomes, List.count_cons] <;> omega

theorem Reaches.outcomes {s : Dispatch} (h : Reaches broken jobs s) :
    (s.outcomes broken).Perm (jobs.map (Job.outcome broken)) := by
  induction h with
  | begin => simp [Dispatch.outcomes]
  | step _ next ih => exact next.conserves.trans ih

theorem reaches_queue (waiting queue : List Job)
    (h : Reaches broken jobs ⟨waiting, queue, [], [], []⟩) :
    Reaches broken jobs ⟨[], queue ++ waiting, [], [], []⟩ := by
  induction waiting generalizing queue with
  | nil => rwa [List.append_nil]
  | cons j rest ih =>
    rw [List.append_cons]
    exact ih _ (h.step .send)

theorem reaches_running (queue running : List Job)
    (h : Reaches broken jobs ⟨[], queue, running, [], []⟩) :
    Reaches broken jobs ⟨[], [], queue.reverse ++ running, [], []⟩ := by
  induction queue generalizing running with
  | nil => exact h
  | cons j rest ih =>
    rw [List.reverse_cons, List.append_assoc]
    exact ih _ (h.step .start)

/-- Jobs that workers are at can end in any order. -/
theorem reaches_returning (deliveries returning : List CoreDelivery) (running : List Job)
    (same : deliveries.Perm (running.map (Job.outcome broken)))
    (h : Reaches broken jobs ⟨[], [], running, returning, []⟩) :
    Reaches broken jobs ⟨[], [], [], returning ++ deliveries, []⟩ := by
  induction deliveries generalizing returning running with
  | nil =>
    obtain rfl : running = [] := by simpa using same.symm.eq_nil
    rwa [List.append_nil]
  | cons d rest ih =>
    obtain ⟨j, hj, rfl⟩ := List.mem_map.mp (same.subset List.mem_cons_self)
    obtain ⟨before, after, rfl⟩ := List.append_of_mem hj
    rw [List.append_cons]
    refine ih _ (before ++ after) ?_ (h.step .finish)
    rw [List.map_append, List.map_cons] at same
    rw [List.map_append]
    exact (same.trans List.perm_middle).cons_inv

theorem reaches_arrived (returning arrived : List CoreDelivery)
    (h : Reaches broken jobs ⟨[], [], [], returning, arrived⟩) :
    Reaches broken jobs ⟨[], [], [], [], arrived ++ returning⟩ := by
  induction returning generalizing arrived with
  | nil => rwa [List.append_nil]
  | cons d rest ih =>
    rw [List.append_cons]
    exact ih _ (h.step .receive)

/-- The workers deliver what comes of the jobs, each once, and in any order. -/
theorem completes_iff {deliveries : List CoreDelivery} :
    Completes broken jobs deliveries ↔ deliveries.Perm (jobs.map (Job.outcome broken)) := by
  constructor
  · intro h
    simpa [Dispatch.outcomes] using h.outcomes
  · intro same
    have queue : Reaches broken jobs ⟨[], jobs, [], [], []⟩ := reaches_queue jobs [] .begin
    have running : Reaches broken jobs ⟨[], [], jobs.reverse, [], []⟩ := by
      simpa using reaches_running jobs [] queue
    have returning := reaches_returning deliveries [] jobs.reverse
      (same.trans ((List.reverse_perm jobs).symm.map _)) running
    exact reaches_arrived deliveries [] returning

end Dispatch

/-! ## All synths at hand -/

/-- What a core of an ensemble gives back, as a delivery. -/
def CoreDelivery.ofResult (r : CoreResult) : CoreDelivery :=
  ⟨r.core, some r.synth, r.frames, r.report⟩

/-- Deliveries are taken in as the results of an ensemble are, apart from where the synths go. -/
theorem Tally.foldl_take_results (results : List CoreResult) (t : Tally) (g : Ensemble.Gathered)
    (buffer : t.buffer = g.buffer) (progress : t.progress = g.progress)
    (fault : t.fault = g.fault) :
    let t' := (results.map CoreDelivery.ofResult).foldl take t
    let g' := results.foldl Ensemble.Gathered.take g
    t'.buffer = g'.buffer ∧ t'.progress = g'.progress ∧ t'.fault = g'.fault := by
  induction results generalizing t g with
  | nil => exact ⟨buffer, progress, fault⟩
  | cons r rest ih =>
    refine ih (t.take (.ofResult r)) (g.take r) ?_ ?_ ?_
    · exact congrArg (Ensemble.mix · _) buffer
    · rw [take, Ensemble.Gathered.take, progress]
      rfl
    · exact congrArg (· <|> r.report.fault) fault

namespace Rack

theorem mem_jobs {rack : Rack} {place : CorePlace} {core : Nat} {s : Synth}
    (hp : rack[core]? = some place) (hs : place.synth = some s) (frames : Nat) (maxTime : Int) :
    ⟨core, s, frames, maxTime⟩ ∈ rack.jobs frames maxTime := by
  unfold jobs
  rw [List.mem_filterMap]
  refine ⟨(place, core), List.mem_zipIdx_iff_getElem?.mpr hp, ?_⟩
  simp only [hs, Option.map_some]

/-- The jobs of a rack that has all synths of an ensemble give what its cores give. -/
theorem jobs_done (rack : Rack) (synths : List Synth) (frames : Nat) (maxTime : Int)
    (full : rack.map (·.synth) = synths.map some) :
    (rack.jobs frames maxTime).map Job.done =
      (Ensemble.coreResults synths frames maxTime).map CoreDelivery.ofResult := by
  unfold jobs Ensemble.coreResults
  generalize 0 = start
  induction rack generalizing synths start with
  | nil =>
    obtain rfl : synths = [] := by simpa using full.symm
    rfl
  | cons place rest ih =>
    cases synths with
    | nil => cases full
    | cons s synths =>
      rw [List.map_cons, List.map_cons, List.cons.injEq] at full
      have first : place.synth.map (Job.mk start · frames maxTime) =
          some ⟨start, s, frames, maxTime⟩ := by
        rw [full.1]
        rfl
      rw [List.zipIdx_cons, List.zipIdx_cons, List.filterMap_cons]
      simp only [first, List.map_cons, ih synths full.2 (start + 1)]
      rfl

theorem emptied_length (rack : Rack) : rack.emptied.length = rack.length :=
  List.length_map _

theorem full_length {rack : Rack} {synths : List Synth}
    (full : rack.map (·.synth) = synths.map some) : rack.length = synths.length := by
  simpa using congrArg List.length full

section Ordered

variable {rack : Rack} {e : Ensemble} (full : rack.map (·.synth) = e.synths.map some)
  (buffer : Audio) (maxTime : Int)
include full

/-- When all synths are at hand and come back, they are as an ensemble leaves its own. -/
theorem collect_synths :
    (rack.emptied.collect buffer.length
      ((rack.jobs buffer.length maxTime).map Job.done)).1.map (·.synth) =
        (e.render buffer maxTime).1.synths.map some := by
  have length := full_length full
  apply List.ext_getElem?
  intro core
  rw [List.getElem?_map, List.getElem?_map, Ensemble.render_synths, List.getElem?_map]
  cases hs : e.synths[core]? with
  | none =>
    have beyond : (rack.emptied.collect buffer.length
        ((rack.jobs buffer.length maxTime).map Job.done)).1.length ≤ core := by
      rw [collect, Tally.foldl_take_length, emptied_length, length]
      exact List.getElem?_eq_none_iff.mp hs
    rw [List.getElem?_eq_none beyond]
    rfl
  | some s =>
    have inside := (List.getElem?_eq_some_iff.mp hs).1
    obtain ⟨place, hp, synth⟩ : ∃ place, rack[core]? = some place ∧ place.synth = some s := by
      apply Option.map_eq_some_iff.mp
      rw [← List.getElem?_map, full, List.getElem?_map, hs]
      rfl
    have job := mem_jobs hp synth buffer.length maxTime
    have once : (((rack.jobs buffer.length maxTime).map Job.done).map (·.core)).Nodup := by
      rw [List.map_map]
      exact rack.jobs_nodup buffer.length maxTime
    have back := Tally.foldl_take_place _
      { rack := rack.emptied, buffer := .silent buffer.length } once
      (List.mem_map_of_mem job) (by rw [emptied_length, length]; exact inside)
    unfold collect
    rw [show core = (Job.done ⟨core, s, buffer.length, maxTime⟩).core from rfl, back]
    exact congrArg (some ∘ some) (s.render_silent buffer maxTime)

/-- And if they come back in the order of the cores, the call gives and reports the same. -/
theorem collect_report :
    (rack.emptied.collect buffer.length ((rack.jobs buffer.length maxTime).map Job.done)).2 =
      (e.render buffer maxTime).2 := by
  have length := full_length full
  rw [rack.jobs_done e.synths buffer.length maxTime full]
  obtain ⟨options, synths, mapping⟩ := e
  obtain ⟨same, progress, fault⟩ := Tally.foldl_take_results
    (Ensemble.coreResults synths buffer.length maxTime)
    { rack := rack.emptied, buffer := .silent buffer.length }
    { synths := synths.map fun _ => default, buffer := .silent buffer.length } rfl rfl rfl
  simp only at length
  unfold collect Ensemble.render Ensemble.gather
  simp only [same, progress, fault, List.length_map, emptied_length, length]

end Ordered

/-- The deliveries of a render call can be taken in in any order. Whatever each core delivers, all
orders leave the same in the places of the cores and report the same progress, and either all of
them fail or none does. What a core delivers is in its own place afterwards, and the frames that it
reports are added once, in the order of the deliveries. The fault of a call is that of a core that
failed, or that a core has delivered nothing. Workers deliver what comes of the jobs of a rack, each
job once, in any order they like; and where no synth breaks down and the cores deliver in their own
order, the call is the one that an ensemble makes. -/
theorem deliveries_in_any_order (rack : Rack) (frames : Nat) :
    (∀ first second : List CoreDelivery, first.Perm second → (first.map (·.core)).Nodup →
      (∀ d ∈ first, d.core < rack.length) →
        (rack.collect frames first).1 = (rack.collect frames second).1 ∧
        (rack.collect frames first).2.2.progress = (rack.collect frames second).2.2.progress ∧
        ((rack.collect frames first).2.2.fault = none ↔
          (rack.collect frames second).2.2.fault = none) ∧
        (∀ d ∈ first, (rack.collect frames first).1[d.core]? = some d.place) ∧
        (∀ core, core ∉ first.map (·.core) →
          (rack.collect frames first).1[core]? = rack[core]?) ∧
        (∀ k < frames, (rack.collect frames first).2.1[k]? =
          some (Frame.sum (first.filterMap (·.reported[k]?)))) ∧
        ∀ fault, (rack.collect frames first).2.2.fault = some fault →
          (∃ d ∈ first, d.report.fault = some fault) ∨
            fault = .workerLost ∧ first.length < rack.length) ∧
    (∀ (maxTime : Int) (broken : Nat → Bool) (deliveries : List CoreDelivery),
      Dispatch.Completes broken (rack.jobs frames maxTime) deliveries ↔
        deliveries.Perm ((rack.jobs frames maxTime).map (Job.outcome broken))) ∧
    (∀ (maxTime : Int) (broken : Nat → Bool) (deliveries : List CoreDelivery),
      Dispatch.Completes broken (rack.jobs frames maxTime) deliveries →
        (deliveries.map (·.core)).Nodup ∧ ∀ d ∈ deliveries,
          d.core < rack.length ∧ d.report.progress.samples ≤ d.scratch.length) ∧
    ∀ (e : Ensemble) (buffer : Audio) (maxTime : Int), rack.map (·.synth) = e.synths.map some →
      buffer.length = frames →
        let r := rack.emptied.collect frames ((rack.jobs frames maxTime).map Job.done)
        r.1.map (·.synth) = (e.render buffer maxTime).1.synths.map some ∧
          r.2 = (e.render buffer maxTime).2 := by
  refine ⟨?_, ?_, ?_, ?_⟩
  · intro first second same once inside
    refine ⟨rack.collect_rack_perm frames same once inside, rack.collect_progress_perm frames same,
      ?_, ?_, ?_, ?_, ?_⟩
    · rw [collect_fault_none, collect_fault_none, same.length_eq]
      simp only [same.mem_iff]
    · intro d hd
      exact Tally.foldl_take_place _ _ once hd (inside d hd)
    · intro core nothing
      exact Tally.foldl_take_untouched _ _ nothing
    · intro k hk
      exact rack.collect_frame frames first hk
    · intro fault h
      exact rack.collect_fault_some frames h
  · intro maxTime broken deliveries
    exact Dispatch.completes_iff
  · intro maxTime broken deliveries completes
    have same := Dispatch.completes_iff.mp completes
    have cores := same.map (·.core)
    rw [Job.map_outcome_core] at cores
    refine ⟨cores.nodup_iff.mpr (rack.jobs_nodup frames maxTime), ?_⟩
    intro d hd
    obtain ⟨j, hj, rfl⟩ := List.mem_map.mp (same.subset hd)
    rw [j.outcome_core]
    exact ⟨rack.jobs_inside frames maxTime hj, j.outcome_fits broken⟩
  · rintro e buffer maxTime full rfl
    exact ⟨collect_synths full buffer maxTime, collect_report full buffer maxTime⟩

/-- Two cores deliver in either order, and the synth of the second one has been lost. -/
theorem deliveries_in_any_order_lost :
    let s : Synth := default
    let heard : CoreDelivery := ⟨0, some s, .silent 2, ⟨⟨2, 2⟩, none⟩⟩
    let first := [heard, Job.lost ⟨1, s, 2, 2⟩]
    let second := [Job.lost ⟨1, s, 2, 2⟩, heard]
    (collect [{}, {}] 2 first).1 = (collect [{}, {}] 2 second).1 ∧
      (collect [{}, {}] 2 first).2.2.progress = (collect [{}, {}] 2 second).2.2.progress ∧
      (collect [{}, {}] 2 first).1[0]? = some ⟨some s, .silent 2⟩ ∧
      (collect [{}, {}] 2 first).2.2.fault ≠ none := by
  intro s heard first second
  have inside : ∀ d ∈ first, d.core < 2 := by
    intro d hd
    rcases List.mem_cons.mp hd with rfl | hd
    · decide
    · rw [List.mem_singleton.mp hd]
      decide
  obtain ⟨rack, progress, -, places, -⟩ := (deliveries_in_any_order [{}, {}] 2).1 first second
    (.swap _ _ _) (by decide) inside
  exact ⟨rack, progress, places _ List.mem_cons_self, by decide +kernel⟩

end Rack

end ModularSynth
