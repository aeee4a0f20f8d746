-- A render call on workers. The synth of each core goes out as a job. The workers take the jobs
-- from a queue, render side by side and deliver each synth back with what it has rendered; a
-- job that no worker takes is done by the caller. The caller takes in the deliveries in the
-- order in which they arrive.
import ModularSynth.Ensemble.Basic

namespace ModularSynth

/-! ## Places and jobs -/

/-- The place of a core: its synth, unless that is at a worker or lost, and the buffer in which
the core renders. -/
structure CorePlace where
  synth : Option Synth := none
  scratch : Audio := []
  deriving Inhabited

/-- The places of all cores. -/
abbrev Rack := List CorePlace

/-- A synth on its way to a worker, where it has to render so many frames. -/
structure Job where
  core : Nat
  synth : Synth
  frames : Nat
  maxTime : Int

/-- What comes back from a job. -/
structure CoreDelivery where
  core : Nat
  /-- None if the synth has been lost. -/
  synth : Option Synth
  /-- What has been rendered, and silence after it. -/
  scratch : Audio
  report : RenderReport

namespace CoreDelivery

/-- The frames that a core reports. -/
def reported (d : CoreDelivery) : Audio :=
  d.scratch.take d.report.progress.samples

/-- What the core has in its place from then on. -/
def place (d : CoreDelivery) : CorePlace :=
  ⟨d.synth, d.scratch⟩

end CoreDelivery

namespace Job

/-- The synth renders into a buffer that has been cleared. -/
def done (j : Job) : CoreDelivery :=
  let (synth, scratch, report) := j.synth.render (.silent j.frames) j.maxTime
  ⟨j.core, some synth, scratch, report⟩

/-- The synth breaks down, and is lost with its buffer. -/
def lost (j : Job) : CoreDelivery :=
  ⟨j.core, none, [], ⟨{}, some .workerLost⟩⟩

/-- What comes of a job, if the synths of some cores break down. -/
def outcome (broken : Nat → Bool) (j : Job) : CoreDelivery :=
  if broken j.core then j.lost else j.done

end Job

namespace Rack

/-- The jobs of a render call: one for each core that has its synth. -/
def jobs (rack : Rack) (frames : Nat) (maxTime : Int) : List Job :=
  rack.zipIdx.filterMap fun (place, core) => place.synth.map (⟨core, ·, frames, maxTime⟩)

/-- The places while the jobs are out. -/
def emptied (rack : Rack) : Rack :=
  rack.map fun place => if place.synth.isSome then {} else place

end Rack

/-! ## Jobs under way -/

/-- The middle of a render call: the jobs that have not been handed out yet, those in the queue,
those that workers are at, the deliveries on their way back, and those that have arrived. -/
structure Dispatch where
  unsent : List Job
  queue : List Job := []
  running : List Job := []
  returning : List CoreDelivery := []
  arrived : List CoreDelivery := []

namespace Dispatch

/-- What can happen next. Every worker takes a job as it gets around to it, so jobs end in any
order. The caller waits for deliveries when it has handed out all jobs. -/
inductive Step (broken : Nat → Bool) : Dispatch → Dispatch → Prop
  /-- The caller puts a job into the queue. -/
  | send {j unsent queue running returning arrived} :
    Step broken ⟨j :: unsent, queue, running, returning, arrived⟩
      ⟨unsent, queue ++ [j], running, returning, arrived⟩
  /-- There are no workers, and the caller does a job itself. -/
  | inline {j unsent queue running returning arrived} :
    Step broken ⟨j :: unsent, queue, running, returning, arrived⟩
      ⟨unsent, queue, running, returning, arrived ++ [j.outcome broken]⟩
  /-- A worker takes the next job. -/
  | start {j unsent queue running returning arrived} :
    Step broken ⟨unsent, j :: queue, running, returning, arrived⟩
      ⟨unsent, queue, j :: running, returning, arrived⟩
  /-- A worker is through with a job. -/
  | finish {j unsent queue before after returning arrived} :
    Step broken ⟨unsent, queue, before ++ j :: after, returning, arrived⟩
      ⟨unsent, queue, before ++ after, returning ++ [j.outcome broken], arrived⟩
  /-- A delivery arrives. -/
  | receive {d queue running returning arrived} :
    Step broken ⟨[], queue, running, d :: returning, arrived⟩
      ⟨[], queue, running, returning, arrived ++ [d]⟩

/-- What can become of some jobs in the course of time. -/
inductive Reaches (broken : Nat → Bool) (jobs : List Job) : Dispatch → Prop
  | begin : Reaches broken jobs ⟨jobs, [], [], [], []⟩
  | step {s s' : Dispatch} : Reaches broken jobs s → Step broken s s' → Reaches broken jobs s'

/-- All jobs are done and have come back, in this order. -/
def Completes (broken : Nat → Bool) (jobs : List Job) (deliveries : List CoreDelivery) : Prop :=
  Reaches broken jobs ⟨[], [], [], [], deliveries⟩

end Dispatch

/-! ## Taking in deliveries -/

/-- What is known after some deliveries. -/
structure Tally where
  rack : Rack
  buffer : Audio
  progress : Option Progress := none
  fault : Option RenderFault := none

/-- Take in a delivery. The first fault counts. -/
def Tally.take (t : Tally) (d : CoreDelivery) : Tally where
  rack := t.rack.set d.core d.place
  buffer := Ensemble.mix t.buffer d.reported
  progress := some <| match t.progress with
    | none => d.report.progress
    | some p => Ensemble.slowest p d.report.progress
  fault := t.fault <|> d.report.fault

/-- Take in deliveries as they arrive, and mix what the cores report into a buffer of so many
frames. It is a fault if a core has delivered nothing. -/
def Rack.collect (rack : Rack) (frames : Nat) (deliveries : List CoreDelivery) :
    Rack × Audio × RenderReport :=
  let t := deliveries.foldl Tally.take { rack, buffer := .silent frames }
  let missing := if deliveries.length < rack.length then some .workerLost else none
  (t.rack, t.buffer, ⟨t.progress.getD {}, t.fault <|> missing⟩)

end ModularSynth
