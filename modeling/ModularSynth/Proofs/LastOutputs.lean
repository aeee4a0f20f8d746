-- What a run of the tool leaves on the disk. A file that is put out stays as it is until a later one
-- of the same run takes its place, and that needs the same name in the same directory.
import ModularSynth.Proofs.StoredFiles

namespace ModularSynth

/-! ## What a run puts out -/

/-- A file that a run puts out: what it is made from, what it holds and where it goes. -/
structure Output where
  input : Path
  artifact : Artifact
  path : Path
  deriving DecidableEq, Repr, Inhabited

namespace Output

/-- The file is there as it was put out. -/
def Kept (d : Disk) (out : Output) : Prop :=
  d.readFile out.path = .ok out.artifact.contents

instance (d : Disk) (out : Output) : Decidable (out.Kept d) :=
  decidable_of_iff ((d.readFile out.path).toOption = some out.artifact.contents) (by
    unfold Kept
    cases d.readFile out.path <;> simp [Except.toOption])

/-- Two files have gone to one place. -/
def Meets (d : Disk) (a b : Output) : Prop :=
  ∃ place, d.locate a.path = .ok place ∧ d.locate b.path = .ok place

/-- The stem of the input's own name. -/
def inputStem (out : Output) : String :=
  stemOf (out.input.fileName?.getD "")

end Output

/-- What a run makes of an input, and the files that it puts out for it. -/
structure Batch where
  input : Path
  made : Except ToolError (List Artifact)
  outputs : List Output
  deriving Repr, Inhabited

/-- A batch has all that was made, in files of different extensions. -/
structure Batch.Full (b : Batch) : Prop where
  made : b.made = .ok (b.outputs.map (·.artifact))
  extensions : (b.outputs.map (·.artifact.extension)).Nodup

/-- What is noted of steps that are taken one after another, each where the ones before it lead. -/
def noteAlong {α β γ : Type} (step : α → StateM Session β) (note : α → Session → List γ) :
    List α → Session → List γ
  | [], _ => []
  | a :: rest, s => note a s ++ noteAlong step note rest ((step a).run s).2

namespace ToolOptions

variable (o : ToolOptions)

/-- The files that are put out for some artifacts of an input. -/
def outputsOf (input : Path) : List Artifact → Session → List Output :=
  noteAlong (fun a => (o.putOut Session.host input a).run) fun a s =>
    [⟨input, a, o.pathOn s.disk input a.extension⟩]

/-- What is made of a song file. -/
def madeOf (samples : SampleTable) (input : Path) (d : Disk) : Except ToolError (List Artifact) :=
  match d.readFile input with
  | .error e => .error (.unreadable input e)
  | .ok contents =>
    match Song.ofFile? contents with
    | none => .error .noSong
    | some song => (o.artifactsOf samples song).mapError .song

def batchOf (samples : SampleTable) (input : Path) (s : Session) : Batch where
  input
  made := o.madeOf samples input s.disk
  outputs := o.outputsOf input ((o.madeOf samples input s.disk).toOption.getD []) s

/-- What is put out for the songs that a path stands for, song by song. -/
def batchesAt (samples : SampleTable) (p : Path) (s : Session) : List Batch :=
  match (songsAt Session.host p).run.run s with
  | (.error _, _) => []
  | (.ok songs, t) =>
    noteAlong (fun song => (o.processSong Session.host samples song).run)
      (fun song s => [o.batchOf samples song s]) songs t

/-- All that a run puts out: first what is asked for besides songs, then the files for the songs. -/
def batches (samples : SampleTable) (s : Session) : List Batch :=
  ⟨libraryPath, .ok o.libraryArtifacts, o.outputsOf libraryPath o.libraryArtifacts s⟩ ::
    noteAlong (o.processPath Session.host samples) (o.batchesAt samples) o.paths
      ((o.processLibrary Session.host).run s).2

/-- All files that a run puts out, in their order. -/
def outputs (samples : SampleTable) (s : Session) : List Output :=
  (o.batches samples s).flatMap (·.outputs)

theorem processSong_run (samples : SampleTable) (input : Path) (s : Session) :
    (o.processSong Session.host samples input).run.run s =
      match o.madeOf samples input s.disk with
      | .error e => (.error e, s)
      | .ok artifacts =>
        (artifacts.forM fun a => o.putOut Session.host input a).run.run s := by
  unfold processSong madeOf
  rw [ToolM.run_bind, ToolM.run_ofHost]
  have read : (Session.host.readFile input).run s = (s.disk.readFile input, s) := rfl
  rw [read]
  cases s.disk.readFile input with
  | error _ => rfl
  | ok contents =>
    dsimp only [Except.mapError]
    cases Song.ofFile? contents with
    | none => rfl
    | some song =>
      dsimp only
      cases o.artifactsOf samples song <;> rfl

theorem attempt_eq_zero {introduction : String} {step : ToolM (StateM Session) Unit} {s : Session}
    (h : ((attempt Session.host introduction step).run s).1 = 0) :
    step.run.run s = (.ok (), ((attempt Session.host introduction step).run s).2) := by
  unfold attempt at h ⊢
  rw [StateT.run_bind] at h ⊢
  cases stepped : step.run.run s with
  | mk result t =>
    rw [stepped] at h
    cases result with
    | error _ => cases h
    | ok _ => rfl

end ToolOptions

/-! ## Names -/

namespace Artifact

/-- The extensions of the files that are put out. -/
def extensions : List String := ["lst", "wav", "json", "yml"]

theorem extensions_plain : ∀ e ∈ extensions, e.toList ≠ [] ∧ '.' ∉ e.toList ∧ '/' ∉ e.toList := by
  decide +kernel

end Artifact

/-- A name with a known extension is a plain name. -/
theorem Artifact.plain_name {stem extension : String} (known : extension ∈ Artifact.extensions)
    (slash : '/' ∉ stem.toList) :
    '/' ∉ (stem ++ "." ++ extension).toList ∧
      Path.isIdle (stem ++ "." ++ extension).toList = false ∧
      (stem ++ "." ++ extension).toList ≠ ['.', '.'] := by
  obtain ⟨some_chars, no_dot, no_slash⟩ := Artifact.extensions_plain extension known
  have chars : (stem ++ "." ++ extension).toList = stem.toList ++ '.' :: extension.toList := by
    simp [String.toList_append]
  have last : (stem ++ "." ++ extension).toList.getLast? ≠ some '.' := by
    rw [chars, List.getLast?_append, List.getLast?_cons_of_ne_nil some_chars,
      List.getLast?_eq_some_getLast some_chars, Option.some_or]
    intro dot
    exact no_dot (Option.some.inj dot ▸ List.getLast_mem some_chars)
  refine ⟨?_, ?_, ?_⟩
  · rw [chars]
    simp [slash, no_slash]
  · unfold Path.isIdle
    rw [Bool.or_eq_false_iff, beq_eq_false_iff_ne, beq_eq_false_iff_ne]
    refine ⟨by simp [chars], fun dot => last ?_⟩
    rw [dot]
    rfl
  · intro dots
    rw [dots] at last
    exact last rfl

/-- A path for a name with a known extension leads to a place of that name. -/
theorem Disk.locate_dotted {d : Disk} {directory : Path} {stem extension : String} {place : Place}
    (h : d.locate (directory.child (stem ++ "." ++ extension)) = .ok place)
    (known : extension ∈ Artifact.extensions) (slash : '/' ∉ stem.toList) :
    ∃ outer, place = (stem ++ "." ++ extension) :: outer := by
  obtain ⟨no_slash, idle, up⟩ := Artifact.plain_name known slash
  exact locate_child h no_slash idle up

namespace ToolOptions

variable (o : ToolOptions)

/-- The user gives no name for files, at most a directory. -/
def NamesNoFile (d : Disk) : Prop :=
  ∀ p, o.output = some p → (p.endsWithSlash || d.isDirectory p) = true

variable {o}

theorem NamesNoFile.grows {d e : Disk} (h : o.NamesNoFile d) (grows : d.Grows e) :
    o.NamesNoFile e := by
  intro p given
  rcases Bool.or_eq_true_iff.mp (h p given) with slash | directory
  · simp [slash]
  · simp [grows.isDirectory directory]

theorem NamesNoFile.name {d : Disk} (h : o.NamesNoFile d) : (o.placeOn d).2 = none := by
  unfold placeOn
  cases given : o.output with
  | none => rfl
  | some p =>
    dsimp only
    rw [if_pos (h p given)]

variable (o)

theorem slash_not_mem_stemOn (d : Disk) (input : Path) : '/' ∉ (o.stemOn d input).toList := by
  apply not_mem_stemOf _ (by decide)
  cases named : (o.placeOn d).2.or input.fileName? with
  | none => exact List.not_mem_nil
  | some name =>
    rcases Option.or_eq_some_iff.mp named with given | ⟨-, own⟩
    · unfold placeOn at given
      split at given
      · cases given
      · split at given
        · cases given
        · exact Path.slash_not_mem_fileName given
    · exact Path.slash_not_mem_fileName own

/-! ## Files one after another -/

/-- A file is put out. -/
structure Puts (d : Disk) (out : Output) (e : Disk) : Prop where
  path : out.path = o.pathOn d out.input out.artifact.extension
  known : out.artifact.extension ∈ Artifact.extensions
  stores : d.Stores out.path out.artifact.contents e

/-- Files are put out one after another. -/
inductive PutsAll : Disk → List Output → Disk → Prop
  | nil (d : Disk) : PutsAll d [] d
  | cons {d e f : Disk} {out : Output} {rest : List Output} :
      o.Puts d out e → PutsAll e rest f → PutsAll d (out :: rest) f

end ToolOptions

namespace ToolOptions.PutsAll

variable {o : ToolOptions} {d e f : Disk} {outputs rest : List Output}

theorem append (first : o.PutsAll d outputs e) (last : o.PutsAll e rest f) :
    o.PutsAll d (outputs ++ rest) f := by
  induction first with
  | nil => exact last
  | cons put _ ih => exact .cons put (ih last)

theorem grows (puts : o.PutsAll d outputs e) : d.Grows e := by
  induction puts with
  | nil => exact .refl _
  | cons put _ ih => exact put.stores.grows.trans ih

/-- A file stays as it is while the files that take its place hold the same. -/
theorem keeps (puts : o.PutsAll d outputs e) {place : Place} {contents : List UInt8}
    (found : d.find? place = some (.file contents))
    (same : ∀ out ∈ outputs, e.locate out.path = .ok place → out.artifact.contents = contents) :
    e.find? place = some (.file contents) := by
  induction puts with
  | nil => exact found
  | @cons d mid e out rest put puts ih =>
    refine ih ?_ fun later mem => same later (List.mem_cons_of_mem _ mem)
    by_cases led : mid.locate out.path = .ok place
    · obtain ⟨there, led', written⟩ := Disk.readFile_eq_ok.mp put.stores.reads
      have here : there = place := Except.ok.inj (led'.symm.trans led)
      rw [← same out List.mem_cons_self (puts.grows.locate led), ← here]
      exact written
    · exact put.stores.others place contents found led

/-- A file is kept unless one that is put out later meets it with other contents. -/
theorem kept {before after : List Output} {out : Output}
    (puts : o.PutsAll d (before ++ out :: after) e)
    (same : ∀ later ∈ after, later.Meets e out → later.artifact.contents = out.artifact.contents) :
    out.Kept e := by
  induction before generalizing d with
  | nil =>
    cases puts with
    | cons put later =>
      obtain ⟨place, led, written⟩ := Disk.readFile_eq_ok.mp put.stores.reads
      have there := later.grows.locate led
      exact Disk.readFile_eq_ok.mpr ⟨place, there, later.keeps written fun other mem led' =>
        same other mem ⟨place, led', there⟩⟩
  | cons first before ih =>
    cases puts with
    | cons _ later => exact ih later

/-- What a file's place is named after. -/
theorem named (puts : o.PutsAll d outputs e) {out : Output} (mem : out ∈ outputs) {place : Place}
    (led : e.locate out.path = .ok place) :
    out.artifact.extension ∈ Artifact.extensions ∧ ∃ stem outer,
      place = (stem ++ "." ++ out.artifact.extension) :: outer ∧
        (o.NamesNoFile d → stem = out.inputStem) := by
  induction puts with
  | nil => cases mem
  | @cons d mid e first rest put puts ih =>
    rcases List.mem_cons.mp mem with rfl | later
    · refine ⟨put.known, o.stemOn d out.input, ?_⟩
      rw [put.path] at led
      obtain ⟨outer, rfl⟩ :=
        Disk.locate_dotted led put.known (o.slash_not_mem_stemOn d out.input)
      refine ⟨outer, rfl, fun free => ?_⟩
      unfold stemOn
      rw [free.name]
      rfl
    · obtain ⟨known, stem, outer, rfl, own⟩ := ih later led
      exact ⟨known, stem, outer, rfl, fun free => own (free.grows put.stores.grows)⟩

/-- Files meet only if they have the same extension, and inputs of the same stem unless the user
gives the name. -/
theorem alike (puts : o.PutsAll d outputs e) {a b : Output} (ha : a ∈ outputs) (hb : b ∈ outputs)
    (meet : a.Meets e b) : a.artifact.extension = b.artifact.extension ∧
      (o.NamesNoFile d → a.inputStem = b.inputStem) := by
  obtain ⟨place, led, led'⟩ := meet
  obtain ⟨known, stem, outer, here, own⟩ := puts.named ha led
  obtain ⟨known', stem', outer', there, own'⟩ := puts.named hb led'
  have name := (List.cons.inj (here.symm.trans there)).1
  obtain ⟨stems, extensions⟩ := dotted_inj (Artifact.extensions_plain _ known).2.1
    (Artifact.extensions_plain _ known').2.1 name
  exact ⟨extensions, fun free => (own free).symm.trans (stems.trans (own' free))⟩

end ToolOptions.PutsAll

/-! ## Runs -/

namespace ToolOptions

variable {o : ToolOptions}

theorem libraryArtifacts_extensions :
    (o.libraryArtifacts.map (·.extension)).Sublist Artifact.extensions := by
  unfold libraryArtifacts
  split
  · decide
  · exact List.nil_sublist _

theorem audioOf_extension {samples : SampleTable} {song : Song} {a : Artifact}
    (h : o.audioOf samples song = .ok a) : a.extension = "wav" := by
  unfold audioOf at h
  cases played : song.play (o.engineFor song) { samples } true with
  | error _ =>
    rw [played] at h
    cases h
  | ok _ =>
    rw [played] at h
    cases h
    rfl

theorem artifactsOf_extensions {samples : SampleTable} {song : Song} {artifacts : List Artifact}
    (h : o.artifactsOf samples song = .ok artifacts) :
    (artifacts.map (·.extension)).Sublist Artifact.extensions := by
  unfold artifactsOf at h
  split at h
  · unfold compiled at h
    cases listed : song.listing o with
    | error _ =>
      rw [listed] at h
      cases h
    | ok listing =>
      rw [listed] at h
      cases audible : o.keeps "wav" with
      | false =>
        rw [audible] at h
        cases h
        cases o.keeps "lst" <;> simp [Artifact.ofText, Artifact.extensions]
      | true =>
        rw [audible] at h
        cases played : o.audioOf samples song with
        | error _ =>
          rw [played] at h
          cases h
        | ok audio =>
          rw [played] at h
          cases h
          have wav := audioOf_extension played
          cases o.keeps "lst" <;> simp [Artifact.ofText, Artifact.extensions, wav]
  · cases h
    unfold converted
    cases o.json <;> cases o.yaml <;> simp [Artifact.ofText, Artifact.extensions]

theorem madeOf_extensions {samples : SampleTable} {input : Path} {d : Disk}
    {artifacts : List Artifact} (h : o.madeOf samples input d = .ok artifacts) :
    (artifacts.map (·.extension)).Sublist Artifact.extensions := by
  unfold madeOf at h
  split at h
  · cases h
  · split at h
    · cases h
    · rename_i song _
      cases made : o.artifactsOf samples song with
      | error _ =>
        rw [made] at h
        cases h
      | ok _ =>
        rw [made] at h
        cases h
        exact artifactsOf_extensions made

theorem outputsOf_artifacts (input : Path) (artifacts : List Artifact) (s : Session) :
    (o.outputsOf input artifacts s).map (·.artifact) = artifacts := by
  unfold outputsOf
  induction artifacts generalizing s with
  | nil => rfl
  | cons a rest ih => exact congrArg (a :: ·) (ih _)

section Writing

variable (list : o.list = false) (stdout : o.stdout = false)
include list stdout

theorem putOut_puts {input : Path} {a : Artifact} (known : a.extension ∈ Artifact.extensions)
    {s t : Session} (h : (o.putOut Session.host input a).run.run s = (.ok (), t)) :
    o.Puts s.disk ⟨input, a, o.pathOn s.disk input a.extension⟩ t.disk :=
  ⟨rfl, known, o.putOut_stores list stdout h⟩

theorem forM_puts {input : Path} {artifacts : List Artifact}
    (known : ∀ a ∈ artifacts, a.extension ∈ Artifact.extensions) {s t : Session}
    (h : (artifacts.forM fun a => o.putOut Session.host input a).run.run s = (.ok (), t)) :
    o.PutsAll s.disk (o.outputsOf input artifacts s) t.disk := by
  induction artifacts generalizing s with
  | nil =>
    cases h
    exact .nil _
  | cons a rest ih =>
    change (o.putOut Session.host input a >>= fun _ =>
      rest.forM fun a => o.putOut Session.host input a).run.run s = _ at h
    rw [ToolM.run_bind] at h
    cases put : (o.putOut Session.host input a).run.run s with
    | mk result u =>
      rw [put] at h
      cases result with
      | error _ => cases h
      | ok _ =>
        have first := putOut_puts list stdout (known a List.mem_cons_self) put
        have later := ih (fun b mem => known b (List.mem_cons_of_mem _ mem)) h
        unfold outputsOf noteAlong
        rw [put]
        exact .cons first later

end Writing

/-- Steps have put out batches. -/
def PutsBatches (o : ToolOptions) (s : Session) (batches : List Batch) (t : Session) : Prop :=
  o.PutsAll s.disk (batches.flatMap (·.outputs)) t.disk ∧ ∀ b ∈ batches, b.Full

theorem PutsBatches.nil (s : Session) : o.PutsBatches s [] s :=
  ⟨.nil _, List.forall_mem_nil _⟩

theorem PutsBatches.single {s t : Session} (input : Path) {artifacts : List Artifact}
    {outputs : List Output} (puts : o.PutsAll s.disk outputs t.disk)
    (made : outputs.map (·.artifact) = artifacts)
    (extensions : (artifacts.map (·.extension)).Sublist Artifact.extensions) :
    o.PutsBatches s [⟨input, .ok artifacts, outputs⟩] t := by
  refine ⟨?_, fun b mem => ?_⟩
  · rw [List.flatMap_singleton]
    exact puts
  · rw [List.mem_singleton.mp mem]
    have apart : (artifacts.map (·.extension)).Nodup := extensions.nodup (by decide)
    rw [← made, List.map_map] at apart
    exact ⟨congrArg _ made.symm, apart⟩

theorem PutsBatches.append {s t u : Session} {batches rest : List Batch}
    (first : o.PutsBatches s batches t) (last : o.PutsBatches t rest u) :
    o.PutsBatches s (batches ++ rest) u := by
  refine ⟨?_, fun b mem => (List.mem_append.mp mem).elim (first.2 b) (last.2 b)⟩
  rw [List.flatMap_append]
  exact first.1.append last.1

theorem sumFailures_along {α β γ : Type} {step : α → StateM Session Nat}
    {next : α → StateM Session β} {note : α → Session → List γ}
    {R : Session → List γ → Session → Prop} (nil : ∀ s, R s [] s)
    (append : ∀ {s t u xs ys}, R s xs t → R t ys u → R s (xs ++ ys) u) {as : List α}
    (each : ∀ a ∈ as, ∀ s, ((step a).run s).1 = 0 →
      ((next a).run s).2 = ((step a).run s).2 ∧ R s (note a s) ((step a).run s).2)
    {s : Session} (h : ((sumFailures step as).run s).1 = 0) :
    R s (noteAlong next note as s) ((sumFailures step as).run s).2 := by
  induction as generalizing s with
  | nil => exact nil s
  | cons a rest ih =>
    change ((step a).run s).1 + ((sumFailures step rest).run ((step a).run s).2).1 = 0 at h
    obtain ⟨fine, later_fine⟩ := Nat.add_eq_zero_iff.mp h
    obtain ⟨same, first⟩ := each a List.mem_cons_self s fine
    have later := ih (fun b mem => each b (List.mem_cons_of_mem _ mem)) later_fine
    unfold noteAlong
    rw [same]
    exact append first later

theorem songsAt_run (p : Path) (s : Session) : ((songsAt Session.host p).run.run s).2 = s := by
  unfold songsAt
  rw [ToolM.run_bind, ToolM.run_lift]
  have there : (Session.host.isDirectory p).run s = (s.disk.isDirectory p, s) := rfl
  rw [there]
  dsimp only
  split
  · have names : (Session.host.listDirectory p).run s = (s.disk.listDirectory p, s) := rfl
    rw [ToolM.run_bind, ToolM.run_ofHost, names]
    cases s.disk.listDirectory p <;> rfl
  · rfl

section Writing

variable (list : o.list = false) (stdout : o.stdout = false)
include list stdout

theorem processLibrary_puts {s : Session}
    (fine : ((o.processLibrary Session.host).run s).1 = 0) :
    o.PutsAll s.disk (o.outputsOf libraryPath o.libraryArtifacts s)
      ((o.processLibrary Session.host).run s).2.disk := by
  refine sumFailures_along (R := fun s outputs t => o.PutsAll s.disk outputs t.disk)
    (fun s => .nil _) PutsAll.append ?_ fine
  intro a mem s fine
  have put := attempt_eq_zero fine
  have known := libraryArtifacts_extensions.subset (List.mem_map_of_mem mem)
  exact ⟨congrArg Prod.snd put, .cons (putOut_puts list stdout known put) (.nil _)⟩

theorem processSong_puts {samples : SampleTable} {input : Path} {s t : Session}
    (h : (o.processSong Session.host samples input).run.run s = (.ok (), t)) :
    o.PutsBatches s [o.batchOf samples input s] t := by
  rw [processSong_run] at h
  cases made : o.madeOf samples input s.disk with
  | error _ =>
    rw [made] at h
    cases h
  | ok artifacts =>
    rw [made] at h
    have extensions := madeOf_extensions made
    have puts := forM_puts list stdout
      (fun a mem => extensions.subset (List.mem_map_of_mem mem)) h
    have batch : o.batchOf samples input s =
        ⟨input, .ok artifacts, o.outputsOf input artifacts s⟩ := by
      unfold batchOf
      rw [made]
      rfl
    rw [batch]
    exact .single input puts (outputsOf_artifacts input artifacts s) extensions

theorem processPath_puts {samples : SampleTable} {p : Path} {s : Session}
    (fine : ((o.processPath Session.host samples p).run s).1 = 0) :
    o.PutsBatches s (o.batchesAt samples p s) ((o.processPath Session.host samples p).run s).2 := by
  have same := songsAt_run p s
  unfold processPath at fine ⊢
  unfold batchesAt
  rw [StateT.run_bind] at fine ⊢
  cases found : (songsAt Session.host p).run.run s with
  | mk result t =>
    rw [found] at fine same
    cases result with
    | error _ => cases fine
    | ok songs =>
      obtain rfl : t = s := same
      refine sumFailures_along .nil .append ?_ fine
      intro song _ s fine
      have processed := attempt_eq_zero fine
      exact ⟨congrArg Prod.snd processed, processSong_puts list stdout processed⟩

/-- A run without failures has put out all its batches. -/
theorem run_puts {samples : SampleTable} {s : Session}
    (fine : ((o.run Session.host samples).run s).1 = 0) :
    o.PutsBatches s (o.batches samples s) ((o.run Session.host samples).run s).2 := by
  unfold run at fine ⊢
  cases asked : o.templates with
  | some directory =>
    rw [asked] at fine
    cases fine
  | none =>
    rw [asked] at fine
    change ((o.processLibrary Session.host).run s).1 +
      ((sumFailures (o.processPath Session.host samples) o.paths).run
        ((o.processLibrary Session.host).run s).2).1 = 0 at fine
    obtain ⟨library_fine, paths_fine⟩ := Nat.add_eq_zero_iff.mp fine
    have library := processLibrary_puts list stdout library_fine
    have first := PutsBatches.single libraryPath library
      (outputsOf_artifacts libraryPath o.libraryArtifacts s) libraryArtifacts_extensions
    have songs := sumFailures_along .nil .append
      (fun _ _ _ fine => ⟨rfl, processPath_puts list stdout fine⟩)
      paths_fine
    exact first.append songs

end Writing

/-- Files on the disk after a run. If a run that writes files has no failures, it has put out all
that is made of each input, and files for one input never go to the same place. The file at the
path of each is the one that was put out, unless one that was put out later went to the same place
and holds something else. Two files that meet in this way have the same extension; and unless the
user gives the name of the files, the names of their inputs have the same stem. -/
theorem files_hold_last_outputs (o : ToolOptions) (samples : SampleTable) (s : Session)
    (list : o.list = false) (stdout : o.stdout = false)
    (fine : ((o.run Session.host samples).run s).1 = 0) :
    let final := ((o.run Session.host samples).run s).2.disk
    (∀ batch ∈ o.batches samples s, batch.made = .ok (batch.outputs.map (·.artifact)) ∧
      batch.outputs.Pairwise fun a b => ¬ a.Meets final b) ∧
    (∀ before out after, o.outputs samples s = before ++ out :: after →
      (∀ later ∈ after, later.Meets final out → later.artifact.contents = out.artifact.contents) →
        out.Kept final) ∧
    ∀ a ∈ o.outputs samples s, ∀ b ∈ o.outputs samples s, a.Meets final b →
      a.artifact.extension = b.artifact.extension ∧
        (o.NamesNoFile s.disk → a.inputStem = b.inputStem) := by
  obtain ⟨puts, full⟩ := run_puts list stdout fine
  refine ⟨fun batch mem => ⟨(full batch mem).made, ?_⟩, ?_, ?_⟩
  · have inside : ∀ out ∈ batch.outputs, out ∈ o.outputs samples s :=
      fun out mem' => List.mem_flatMap.mpr ⟨batch, mem, mem'⟩
    have apart := List.pairwise_map.mp (full batch mem).extensions
    refine apart.imp_of_mem fun {a b} ha hb differ meet => ?_
    exact differ (puts.alike (inside a ha) (inside b hb) meet).1
  · intro before out after split same
    unfold outputs at split
    rw [split] at puts
    exact puts.kept same
  · intro a ha b hb meet
    exact puts.alike ha hb meet

/-- A song file with rows of silence, each as long as a frame. -/
def silentFile (rows : Nat) : List UInt8 :=
  ("\x7b\"bpm\": 2646000, \"rowsperbeat\": 1, \"score\": \x7b\"rowsperpattern\": 1, \"length\": " ++
    toString rows ++ ", \"tracks\": [\x7b\x7d]\x7d\x7d").toUTF8.toList

/-- Two song files of one name in two directories, and one of another name. -/
def silentFiles : Session where
  disk := { entries := [
    (["a"], .directory), (["x.yml", "a"], .file (silentFile 0)),
    (["b"], .directory), (["x.yml", "b"], .file (silentFile 1)),
    (["y.yml", "b"], .file (silentFile 1))] }

/-- Put the audio of songs in a directory. -/
def audioOnly (paths : List Path) : ToolOptions where
  extensions := some "wav"
  output := some ⟨"out/"⟩
  paths

/-- Put out the audio of two songs whose files have different names. -/
def apartOptions : ToolOptions := audioOnly [⟨"a/x.yml"⟩, ⟨"b/y.yml"⟩]

theorem files_hold_last_outputs_apart :
    apartOptions.list = false ∧ apartOptions.stdout = false ∧
      ((apartOptions.run Session.host {}).run silentFiles).1 = 0 ∧
      (apartOptions.outputs {} silentFiles).length = 2 ∧
      ∀ out ∈ apartOptions.outputs {} silentFiles,
        out.Kept ((apartOptions.run Session.host {}).run silentFiles).2.disk := by
  have fine : ((apartOptions.run Session.host {}).run silentFiles).1 = 0 := by decide +kernel
  have stems : (apartOptions.outputs {} silentFiles).map (·.inputStem) = ["x", "y"] := by
    decide +kernel
  have free : apartOptions.NamesNoFile silentFiles.disk := by
    intro p given
    cases given
    decide
  obtain ⟨-, holds, alike⟩ := files_hold_last_outputs apartOptions {} silentFiles rfl rfl fine
  refine ⟨rfl, rfl, fine, (List.length_map _).symm.trans (congrArg _ stems), fun out mem => ?_⟩
  obtain ⟨before, after, split⟩ := List.append_of_mem mem
  refine holds before out after split fun later mem' meet => ?_
  have differ : (apartOptions.outputs {} silentFiles).Pairwise (·.inputStem ≠ ·.inputStem) := by
    rw [← List.pairwise_map, stems]
    decide
  rw [split, List.pairwise_append, List.pairwise_cons] at differ
  have same := (alike later (split ▸ by simp [mem']) out mem meet).2 free
  exact absurd same.symm (differ.2.1.1 later mem')

/-- Put out the audio of two songs whose files have one name. -/
def twinOptions : ToolOptions := audioOnly [⟨"a/x.yml"⟩, ⟨"b/x.yml"⟩]

/-- Files of one name overwrite each other, and nobody is told. -/
theorem equal_names_lose_outputs :
    ¬ ∀ (o : ToolOptions) (samples : SampleTable) (s : Session), o.list = false →
      o.stdout = false → o.safe = false → ((o.run Session.host samples).run s).1 = 0 →
      ∀ out ∈ o.outputs samples s, out.Kept ((o.run Session.host samples).run s).2.disk := by
  intro kept
  have fine : ((twinOptions.run Session.host {}).run silentFiles).1 = 0 := by decide +kernel
  have lost : ∃ out ∈ twinOptions.outputs {} silentFiles,
      ¬ out.Kept ((twinOptions.run Session.host {}).run silentFiles).2.disk := by decide +kernel
  obtain ⟨out, mem, gone⟩ := lost
  exact gone (kept twinOptions {} silentFiles rfl rfl rfl fine out mem)

end ToolOptions

end ModularSynth
