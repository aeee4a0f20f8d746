-- Runs of the tool that leave a trail. They do what other runs do, and each session on the way
-- stands in a relation to the last one if that is so for the artifacts that are put out.
import ModularSynth.Files.Trail
import ModularSynth.Proofs.LastOutputs

namespace ModularSynth

/-! ## Steps of the tool -/

namespace Follows

variable {α β : Type} {R : Disk → Disk → Prop} {s : Session}

theorem ofHost (passing : Passing R) {x : Trail (Except FileError α)}
    {y : StateM Session (Except FileError α)} (failure : FileError → ToolError)
    (follows : Follows R x y s) :
    Follows R (ModularSynth.ofHost x failure).run (ModularSynth.ofHost y failure).run s :=
  follows.bind passing (.pure passing _)

theorem lift (passing : Passing R) {x : Trail α} {y : StateM Session α}
    (follows : Follows R x y s) :
    Follows R (liftM x : ToolM Trail α).run (liftM y : ToolM (StateM Session) α).run s :=
  follows.bind passing (f := fun a => Pure.pure (Except.ok a))
    (g := fun a => Pure.pure (Except.ok a)) (.pure passing _)

theorem bindTool (passing : Passing R) {x : ToolM Trail α} {y : ToolM (StateM Session) α}
    {f : α → ToolM Trail β} {g : α → ToolM (StateM Session) β} (first : Follows R x.run y.run s)
    (later : ∀ a t, y.run.run s = (.ok a, t) → Follows R (f a).run (g a).run t) :
    Follows R (x >>= f).run (y >>= g).run s := by
  rw [ExceptT.run_bind, ExceptT.run_bind]
  refine first.bind passing ?_
  cases stepped : y.run.run s with
  | mk result t =>
    cases result with
    | error e => exact .pure passing _
    | ok a => exact later a t stepped

end Follows

namespace ToolOptions

variable (o : ToolOptions) {R : Disk → Disk → Prop} (passing : Passing R)
include passing

/-! ## Putting out -/

theorem outputPlace_follows (s : Session) :
    Follows R (o.outputPlace Trail.host).run (o.outputPlace Session.host).run s := by
  unfold outputPlace
  split
  · exact .pure passing _
  · refine .bindTool passing (.lift passing (.look passing rfl)) fun found t _ => ?_
    split <;> exact .pure passing _

theorem outputPath_follows (input : Path) (extension : String) (s : Session) :
    Follows R (o.outputPath Trail.host input extension).run
      (o.outputPath Session.host input extension).run s := by
  unfold outputPath
  refine .bindTool passing (o.outputPlace_follows passing s) fun place t _ => ?_
  dsimp only
  split
  · exact .bindTool passing (.pure passing _) fun _ _ _ => .pure passing _
  · exact .bindTool passing (.ofHost passing _ (.look passing rfl)) fun _ _ _ => .pure passing _

theorem putOut_follows (input : Path) (a : Artifact) (s : Session)
    (storing : o.stdout = false → o.list = false →
      (∀ old, s.disk.readFile (o.pathOn s.disk input a.extension) = .ok old → o.safe = false) →
        Follows R (store Trail.host (o.pathOn s.disk input a.extension) a.contents).run
          (store Session.host (o.pathOn s.disk input a.extension) a.contents).run s) :
    Follows R (o.putOut Trail.host input a).run (o.putOut Session.host input a).run s := by
  unfold putOut
  split
  · exact .ofHost passing _ (.look passing rfl)
  · rename_i stdout
    refine .bindTool passing (o.outputPath_follows passing input a.extension s) fun path t led => ?_
    rw [outputPath_run] at led
    cases led
    refine .bindTool passing (.lift passing (.look passing rfl)) fun found t read => ?_
    rw [ToolM.run_lift] at read
    obtain ⟨there, rfl⟩ : s.disk.readFile (o.pathOn s.disk input a.extension) = found ∧ s = t := by
      cases read
      exact ⟨rfl, rfl⟩
    have written (free : o.list = false → ∀ old,
        s.disk.readFile (o.pathOn s.disk input a.extension) = .ok old → o.safe = false) :
        Follows R
          (if o.list then
            print Trail.host ((o.pathOn s.disk input a.extension).text ++ "\n").toUTF8.toList
          else store Trail.host (o.pathOn s.disk input a.extension) a.contents).run
          (if o.list then
            print Session.host ((o.pathOn s.disk input a.extension).text ++ "\n").toUTF8.toList
          else store Session.host (o.pathOn s.disk input a.extension) a.contents).run s := by
      cases list : o.list with
      | true => exact .ofHost passing _ (.look passing rfl)
      | false => exact storing (Bool.eq_false_iff.mpr stdout) list (free list)
    cases found with
    | error e => exact written fun _ old found => by cases found.symm.trans there
    | ok old =>
      dsimp only
      split
      · exact .pure passing _
      · split
        · exact .pure passing _
        · rename_i guarded
          exact written fun list _ _ => by simpa [list] using guarded

end ToolOptions

/-! ## Attempts -/

/-- An artifact of an input whose turn has come to be put out. -/
structure ArtifactTurn where
  input : Path
  artifact : Artifact
  before : Session
  deriving Inhabited

namespace ArtifactTurn

variable (o : ToolOptions) (turn : ArtifactTurn)

/-- Where the artifact goes. -/
def path : Path :=
  o.pathOn turn.before.disk turn.input turn.artifact.extension

def result : Except ToolError Unit × Session :=
  (o.putOut Session.host turn.input turn.artifact).run.run turn.before

def failed : Bool :=
  !(turn.result o).1.isOk

end ArtifactTurn

/-- What is counted as one failure or none: what is made of an input, and the turns of the
artifacts, up to the first that fails. -/
structure Attempt where
  input : Path
  made : Except ToolError (List Artifact)
  turns : List ArtifactTurn
  deriving Inhabited

def Attempt.failed (o : ToolOptions) (a : Attempt) : Bool :=
  !a.made.isOk || a.turns.any (·.failed o)

namespace ToolOptions

variable (o : ToolOptions)

def turnsOf (input : Path) : List Artifact → Session → List ArtifactTurn
  | [], _ => []
  | a :: rest, s =>
    let turn : ArtifactTurn := ⟨input, a, s⟩
    turn :: if turn.failed o then [] else turnsOf input rest (turn.result o).2

/-- What is attempted for a song. -/
def songAttempt (samples : SampleTable) (input : Path) (s : Session) : Attempt where
  input
  made := o.madeOf samples input s.disk
  turns := o.turnsOf input ((o.madeOf samples input s.disk).toOption.getD []) s

/-- What is attempted for a file besides songs. -/
def libraryAttempt (a : Artifact) (s : Session) : Attempt where
  input := libraryPath
  made := .ok [a]
  turns := o.turnsOf libraryPath [a] s

/-- Put out a file besides songs, and count whether that fails. -/
def tryLibrary (a : Artifact) : StateM Session Nat :=
  attempt Session.host "Could not output the library: " (o.putOut Session.host libraryPath a)

/-- Process a song, and count whether that fails. -/
def trySong (samples : SampleTable) (song : Path) : StateM Session Nat :=
  attempt Session.host s!"Could not process {song.text}: " (o.processSong Session.host samples song)

/-- What is attempted for the songs that a path stands for. -/
def attemptsAt (samples : SampleTable) (p : Path) (s : Session) : List Attempt :=
  match (songsAt Session.host p).run.run s with
  | (.error e, _) => [⟨p, .error e, []⟩]
  | (.ok songs, t) =>
    noteAlong (o.trySong samples) (fun song s => [o.songAttempt samples song s]) songs t

/-- All that a run attempts, in its order. -/
def attempts (samples : SampleTable) (s : Session) : List Attempt :=
  match o.templates with
  | some _ => []
  | none =>
    noteAlong o.tryLibrary (fun a s => [o.libraryAttempt a s]) o.libraryArtifacts s ++
      noteAlong (o.processPath Session.host samples) (o.attemptsAt samples) o.paths
        ((o.processLibrary Session.host).run s).2

/-! ## What holds of all attempts -/

theorem forall_noteAlong {α β γ : Type} {step : α → StateM Session β}
    {note : α → Session → List γ} {good : γ → Prop} {as : List α}
    (each : ∀ a ∈ as, ∀ s, ∀ c ∈ note a s, good c) (s : Session) :
    ∀ c ∈ noteAlong step note as s, good c := by
  induction as generalizing s with
  | nil => exact List.forall_mem_nil _
  | cons a rest ih =>
    intro c mem
    rcases List.mem_append.mp mem with first | later
    · exact each a List.mem_cons_self s c first
    · exact ih (fun b mem => each b (List.mem_cons_of_mem _ mem)) _ c later

/-- What is so for every song, for every other file, and for every directory that cannot be
listed, is so for all attempts of a run. -/
theorem forall_attempts {good : Attempt → Prop} {samples : SampleTable}
    (song : ∀ input s, good (o.songAttempt samples input s))
    (library : ∀ a ∈ o.libraryArtifacts, ∀ s, good (o.libraryAttempt a s))
    (unlisted : ∀ p e, good ⟨p, .error e, []⟩) (s : Session) :
    ∀ a ∈ o.attempts samples s, good a := by
  unfold attempts
  split
  · exact List.forall_mem_nil _
  · intro a mem
    rcases List.mem_append.mp mem with first | later
    · refine forall_noteAlong (fun a mem s c same => ?_) s a first
      rw [List.mem_singleton.mp same]
      exact library a mem s
    · refine forall_noteAlong (fun p _ s c mem => ?_) _ a later
      unfold attemptsAt at mem
      split at mem
      · rw [List.mem_singleton.mp mem]
        exact unlisted _ _
      · refine forall_noteAlong (fun input _ s c same => ?_) _ c mem
        rw [List.mem_singleton.mp same]
        exact song input s

theorem turnsOf_subset (input : Path) (artifacts : List Artifact) (s : Session) :
    ∀ turn ∈ o.turnsOf input artifacts s, turn.artifact ∈ artifacts := by
  induction artifacts generalizing s with
  | nil => exact List.forall_mem_nil _
  | cons a rest ih =>
    intro turn mem
    rcases List.mem_cons.mp mem with rfl | later
    · exact List.mem_cons_self
    · split at later
      · cases later
      · exact List.mem_cons_of_mem _ (ih _ turn later)

theorem attempts_extensions (samples : SampleTable) (s : Session) :
    ∀ a ∈ o.attempts samples s, ∀ turn ∈ a.turns,
      turn.artifact.extension ∈ Artifact.extensions := by
  refine o.forall_attempts (fun input s turn mem => ?_) (fun a known s turn mem => ?_)
    (fun p e => List.forall_mem_nil _) s
  · have inside := o.turnsOf_subset _ _ _ turn mem
    cases made : o.madeOf samples input s.disk with
    | error e =>
      rw [made] at inside
      cases inside
    | ok artifacts =>
      rw [made] at inside
      exact (madeOf_extensions made).subset (List.mem_map_of_mem inside)
  · have same := List.mem_singleton.mp (o.turnsOf_subset _ _ _ turn mem)
    rw [same]
    exact libraryArtifacts_extensions.subset (List.mem_map_of_mem known)

/-! ## Failures -/

theorem forM_isOk (input : Path) (artifacts : List Artifact) (s : Session) :
    ((artifacts.forM fun a => o.putOut Session.host input a).run.run s).1.isOk =
      !(o.turnsOf input artifacts s).any (·.failed o) := by
  induction artifacts generalizing s with
  | nil => rfl
  | cons a rest ih =>
    change ((o.putOut Session.host input a >>= fun _ =>
      rest.forM fun a => o.putOut Session.host input a).run.run s).1.isOk = _
    rw [ToolM.run_bind, turnsOf, List.any_cons]
    cases stepped : (o.putOut Session.host input a).run.run s with
    | mk result t =>
      have turn : (⟨input, a, s⟩ : ArtifactTurn).result o = (result, t) := stepped
      rw [ArtifactTurn.failed, turn]
      cases result with
      | error e => rfl
      | ok _ => exact ih t

theorem turnsOf_singleton (input : Path) (a : Artifact) (s : Session) :
    o.turnsOf input [a] s = [⟨input, a, s⟩] := by
  simp [turnsOf]

/-- Every artifact has its turn unless one of them fails. -/
theorem turnsOf_artifacts {input : Path} {artifacts : List Artifact} {s : Session}
    (fine : (o.turnsOf input artifacts s).any (·.failed o) = false) :
    (o.turnsOf input artifacts s).map (·.artifact) = artifacts := by
  induction artifacts generalizing s with
  | nil => rfl
  | cons a rest ih =>
    rw [turnsOf] at fine ⊢
    obtain ⟨first, later⟩ := Bool.or_eq_false_iff.mp fine
    simp only [first, Bool.false_eq_true, if_false] at later ⊢
    exact congrArg (a :: ·) (ih later)

/-- An attempt that does not fail has made all artifacts, and each has had its turn. -/
theorem attempts_complete (samples : SampleTable) (s : Session) :
    ∀ a ∈ o.attempts samples s, a.failed o = false →
      a.made = .ok (a.turns.map (·.artifact)) := by
  refine o.forall_attempts (fun input s fine => ?_) (fun a _ s _ => ?_)
    (fun p e failed => by cases failed) s
  · obtain ⟨made, turns⟩ := Bool.or_eq_false_iff.mp fine
    unfold songAttempt at made turns ⊢
    dsimp only at made turns ⊢
    cases all : o.madeOf samples input s.disk with
    | error e =>
      rw [all] at made
      cases made
    | ok artifacts =>
      rw [all] at turns
      exact congrArg _ (o.turnsOf_artifacts turns).symm
  · unfold libraryAttempt
    rw [turnsOf_singleton]
    rfl

theorem processSong_isOk (samples : SampleTable) (input : Path) (s : Session) :
    ((o.processSong Session.host samples input).run.run s).1.isOk =
      !(o.songAttempt samples input s).failed o := by
  rw [processSong_run]
  unfold Attempt.failed songAttempt
  dsimp only
  cases o.madeOf samples input s.disk with
  | error e => rfl
  | ok artifacts => exact o.forM_isOk input artifacts s

theorem attempt_count (introduction : String) (step : ToolM (StateM Session) Unit) (s : Session) :
    ((attempt Session.host introduction step).run s).1 =
      if (step.run.run s).1.isOk then 0 else 1 := by
  unfold attempt
  rw [StateT.run_bind]
  rcases step.run.run s with ⟨_ | _, t⟩ <;> rfl

theorem sumFailures_count {α γ : Type} {step : α → StateM Session Nat}
    {note : α → Session → List γ} {failed : γ → Bool}
    (each : ∀ a s, ((step a).run s).1 = (note a s).countP failed) (as : List α) (s : Session) :
    ((sumFailures step as).run s).1 = (noteAlong step note as s).countP failed := by
  induction as generalizing s with
  | nil => rfl
  | cons a rest ih =>
    rw [noteAlong, List.countP_append, ← each a s, ← ih]
    rfl

theorem processPath_count (samples : SampleTable) (p : Path) (s : Session) :
    ((o.processPath Session.host samples p).run s).1 =
      (o.attemptsAt samples p s).countP (·.failed o) := by
  unfold processPath attemptsAt
  rw [StateT.run_bind]
  cases found : (songsAt Session.host p).run.run s with
  | mk result t =>
    cases result with
    | error e => rfl
    | ok songs =>
      refine sumFailures_count (fun song s => ?_) songs t
      rw [attempt_count, processSong_isOk]
      cases failed : (o.songAttempt samples song s).failed o <;> simp [failed]

theorem tryLibrary_count (a : Artifact) (s : Session) :
    ((o.tryLibrary a).run s).1 = [o.libraryAttempt a s].countP (·.failed o) := by
  unfold tryLibrary
  rw [attempt_count]
  have failed : (o.libraryAttempt a s).failed o =
      !((o.putOut Session.host libraryPath a).run.run s).1.isOk := by
    unfold Attempt.failed libraryAttempt
    rw [turnsOf_singleton]
    simp [ArtifactTurn.failed, ArtifactTurn.result, Except.isOk, Except.toBool]
  cases fine : ((o.putOut Session.host libraryPath a).run.run s).1.isOk <;> simp [failed, fine]

/-- The failures of a run are the attempts that fail. -/
theorem run_count (samples : SampleTable) (s : Session) (templates : o.templates = none) :
    ((o.run Session.host samples).run s).1 = (o.attempts samples s).countP (·.failed o) := by
  unfold run attempts
  rw [templates]
  dsimp only
  rw [List.countP_append, ← sumFailures_count (o.processPath_count samples) o.paths,
    ← sumFailures_count o.tryLibrary_count o.libraryArtifacts s]
  rfl

/-! ## Trails of runs -/

/-- The trail of an artifact that is put out leads on in a relation. -/
def LeadsAt (R : Disk → Disk → Prop) (turn : ArtifactTurn) : Prop :=
  Follows R (o.putOut Trail.host turn.input turn.artifact).run
    (o.putOut Session.host turn.input turn.artifact).run turn.before

section Following

variable {R : Disk → Disk → Prop} (passing : Passing R)
include passing

theorem forM_follows (input : Path) (artifacts : List Artifact) (s : Session)
    (each : ∀ turn ∈ o.turnsOf input artifacts s, o.LeadsAt R turn) :
    Follows R (artifacts.forM fun a => o.putOut Trail.host input a).run
      (artifacts.forM fun a => o.putOut Session.host input a).run s := by
  induction artifacts generalizing s with
  | nil => exact .pure passing _
  | cons a rest ih =>
    refine .bindTool passing (each ⟨input, a, s⟩ List.mem_cons_self) fun _ t stepped => ?_
    refine ih t fun turn mem => each turn ?_
    have turn : (⟨input, a, s⟩ : ArtifactTurn).result o = (.ok _, t) := stepped
    rw [turnsOf, ArtifactTurn.failed, turn]
    exact List.mem_cons_of_mem _ mem

theorem processSong_follows (samples : SampleTable) (input : Path) (s : Session)
    (each : ∀ turn ∈ (o.songAttempt samples input s).turns, o.LeadsAt R turn) :
    Follows R (o.processSong Trail.host samples input).run
      (o.processSong Session.host samples input).run s := by
  unfold processSong
  refine .bindTool passing (.ofHost passing _ (.look passing rfl)) fun contents t read => ?_
  rw [ToolM.run_ofHost] at read
  change ((s.disk.readFile input).mapError _, s) = _ at read
  cases found : s.disk.readFile input with
  | error e =>
    rw [found] at read
    cases read
  | ok bytes =>
    rw [found] at read
    cases read
    cases parsed : Song.ofFile? contents with
    | none => exact .pure passing _
    | some song =>
      dsimp only
      cases made : o.artifactsOf samples song with
      | error e => exact .pure passing _
      | ok artifacts =>
        have all : o.madeOf samples input s.disk = .ok artifacts := by
          unfold madeOf
          simp only [found, parsed, made]
          rfl
        refine o.forM_follows passing input artifacts s fun turn mem => each turn ?_
        unfold songAttempt
        rw [all]
        exact mem

theorem attempt_follows (introduction : String) {x : ToolM Trail Unit}
    {y : ToolM (StateM Session) Unit} {s : Session} (follows : Follows R x.run y.run s) :
    Follows R (attempt Trail.host introduction x) (attempt Session.host introduction y) s := by
  unfold attempt
  refine .bind passing follows ?_
  split
  · exact .pure passing _
  · exact .bind passing (.look passing rfl) (.pure passing _)

theorem sumFailures_follows {α γ : Type} {x : α → Trail Nat} {y : α → StateM Session Nat}
    {note : α → Session → List γ} {good : γ → Prop}
    (each : ∀ a s, (∀ c ∈ note a s, good c) → Follows R (x a) (y a) s) (as : List α)
    (s : Session) (all : ∀ c ∈ noteAlong y note as s, good c) :
    Follows R (sumFailures x as) (sumFailures y as) s := by
  induction as generalizing s with
  | nil => exact .pure passing _
  | cons a rest ih =>
    rw [noteAlong] at all
    refine .bind passing (each a s fun c mem => all c (List.mem_append_left _ mem)) ?_
    refine .bind passing (ih _ fun c mem => all c (List.mem_append_right _ mem)) ?_
    exact .pure passing _

theorem processLibrary_follows (s : Session)
    (each : ∀ a ∈ noteAlong o.tryLibrary (fun a s => [o.libraryAttempt a s]) o.libraryArtifacts s,
      ∀ turn ∈ a.turns, o.LeadsAt R turn) :
    Follows R (o.processLibrary Trail.host) (o.processLibrary Session.host) s := by
  refine sumFailures_follows passing (fun a s good => ?_) o.libraryArtifacts s each
  refine attempt_follows passing _ (good _ (List.mem_singleton_self _) ⟨libraryPath, a, s⟩ ?_)
  unfold libraryAttempt
  rw [turnsOf_singleton]
  exact List.mem_singleton_self _

theorem songsAt_follows (p : Path) (s : Session) :
    Follows R (songsAt Trail.host p).run (songsAt Session.host p).run s := by
  unfold songsAt
  refine .bindTool passing (.lift passing (.look passing rfl)) fun found t _ => ?_
  split
  · exact .bindTool passing (.ofHost passing _ (.look passing rfl)) fun _ _ _ => .pure passing _
  · exact .pure passing _

theorem processPath_follows (samples : SampleTable) (p : Path) (s : Session)
    (each : ∀ a ∈ o.attemptsAt samples p s, ∀ turn ∈ a.turns, o.LeadsAt R turn) :
    Follows R (o.processPath Trail.host samples p) (o.processPath Session.host samples p) s := by
  unfold processPath
  refine .bind passing (songsAt_follows passing p s) ?_
  unfold attemptsAt at each
  cases found : (songsAt Session.host p).run.run s with
  | mk result t =>
    rw [found] at each
    cases result with
    | error e => exact .bind passing (.look passing rfl) (.pure passing _)
    | ok songs =>
      refine sumFailures_follows passing (fun song s good => ?_) songs t each
      exact attempt_follows passing _
        (o.processSong_follows passing samples song s (good _ (List.mem_singleton_self _)))

/-- A run with a trail does what every run does; and if the sessions on the way lead on where
artifacts are put out, they do so from the start of the run to its end. -/
theorem run_follows (samples : SampleTable) (s : Session)
    (each : ∀ a ∈ o.attempts samples s, ∀ turn ∈ a.turns, o.LeadsAt R turn) :
    Follows R (o.run Trail.host samples) (o.run Session.host samples) s := by
  unfold run
  unfold attempts at each
  cases templates : o.templates with
  | some directory => exact .bind passing (.look passing rfl) (.pure passing _)
  | none =>
    rw [templates] at each
    refine .bind passing ?_ (.bind passing ?_ (.pure passing _))
    · exact o.processLibrary_follows passing s fun c mem => each c (List.mem_append_left _ mem)
    · exact sumFailures_follows passing (o.processPath_follows passing samples) o.paths _
        fun c mem => each c (List.mem_append_right _ mem)

/-! ## The sessions before turns -/

theorem turnsOf_reached (steps : ∀ turn, o.LeadsAt R turn) (input : Path)
    (artifacts : List Artifact) (s : Session) :
    ∀ turn ∈ o.turnsOf input artifacts s, R s.disk turn.before.disk := by
  induction artifacts generalizing s with
  | nil => exact List.forall_mem_nil _
  | cons a rest ih =>
    intro turn mem
    rcases List.mem_cons.mp mem with rfl | later
    · exact passing.refl _
    · split at later
      · cases later
      · exact passing.trans ((steps ⟨input, a, s⟩).leads s List.mem_cons_self)
          (ih _ turn later)

theorem noteAlong_reached {α β : Type} {step : α → StateM Session β}
    {note : α → Session → List Attempt} (moves : ∀ a s, R s.disk ((step a).run s).2.disk)
    (inner : ∀ a s, ∀ c ∈ note a s, ∀ turn ∈ c.turns, R s.disk turn.before.disk) (as : List α)
    (s : Session) :
    ∀ c ∈ noteAlong step note as s, ∀ turn ∈ c.turns, R s.disk turn.before.disk := by
  induction as generalizing s with
  | nil => exact List.forall_mem_nil _
  | cons a rest ih =>
    intro c mem turn within
    rcases List.mem_append.mp mem with first | later
    · exact inner a s c first turn within
    · exact passing.trans (moves a s) (ih _ c later turn within)

/-- The sessions before the turns of a run come after its start. -/
theorem attempts_reached (steps : ∀ turn, o.LeadsAt R turn) (samples : SampleTable)
    (s : Session) :
    ∀ a ∈ o.attempts samples s, ∀ turn ∈ a.turns, R s.disk turn.before.disk := by
  have songs (p : Path) (s : Session) :
      ∀ c ∈ o.attemptsAt samples p s, ∀ turn ∈ c.turns, R s.disk turn.before.disk := by
    unfold attemptsAt
    have same := songsAt_run p s
    split
    · intro c mem
      rw [List.mem_singleton.mp mem]
      exact List.forall_mem_nil _
    · rename_i songs t found
      obtain rfl : t = s := by simpa [found] using same
      refine noteAlong_reached passing (fun song s => ?_) (fun song s c mem => ?_) songs t
      · exact (attempt_follows passing _
          (o.processSong_follows passing samples song s fun turn _ => steps turn)).leads s
            List.mem_cons_self
      · rw [List.mem_singleton.mp mem]
        exact o.turnsOf_reached passing steps _ _ s
  unfold attempts
  split
  · exact List.forall_mem_nil _
  · intro c mem turn within
    rcases List.mem_append.mp mem with first | later
    · refine noteAlong_reached passing (fun a s => ?_) (fun a s c mem => ?_) _ s c first turn within
      · have put : Follows R (o.putOut Trail.host libraryPath a).run _ s :=
          steps ⟨libraryPath, a, s⟩
        exact (attempt_follows passing _ put).leads s List.mem_cons_self
      · rw [List.mem_singleton.mp mem]
        exact o.turnsOf_reached passing steps _ _ s
    · refine passing.trans ?_
        (noteAlong_reached passing (fun p s => ?_) songs _ _ c later turn within)
      · exact (o.processLibrary_follows passing s fun _ _ turn _ => steps turn).leads s
          List.mem_cons_self
      · exact (o.processPath_follows passing samples p s fun _ _ turn _ => steps turn).leads s
          List.mem_cons_self

end Following

/-- The sessions that a run goes through, from its start to its end. -/
def sessions (samples : SampleTable) (s : Session) : List Session :=
  (o.run Trail.host samples).sessions s

end ToolOptions

end ModularSynth
