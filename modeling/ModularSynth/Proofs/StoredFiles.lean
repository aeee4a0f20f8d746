-- Putting a file on a disk. Afterwards it can be read, and no other file has changed; of what is in
-- the way, a directory that is missing is made, and nothing is taken away.
import ModularSynth.Files.Trail
import ModularSynth.Proofs.Places
import ModularSynth.Tool.Run

namespace ModularSynth

/-! ## Directories and files -/

namespace Disk

/-- Everything that was there is there as it was. -/
structure Gains (d e : Disk) : Prop where
  workingPlace : e.workingPlace = d.workingPlace
  entries : ∀ place entry, d.find? place = some entry → e.find? place = some entry

theorem Gains.refl (d : Disk) : d.Gains d := ⟨rfl, fun _ _ h => h⟩

theorem Gains.trans {d e f : Disk} (first : d.Gains e) (last : e.Gains f) : d.Gains f :=
  ⟨last.workingPlace.trans first.workingPlace,
    fun place entry h => last.entries place entry (first.entries place entry h)⟩

theorem Gains.passing : Passing Gains := ⟨.refl, .trans⟩

theorem Gains.grows {d e : Disk} (gains : d.Gains e) : d.Grows e :=
  ⟨gains.workingPlace, fun place h => gains.entries place _ h⟩

theorem Gains.put {d : Disk} {place : Place} (free : d.find? place = none) (entry : DiskEntry) :
    d.Gains (d.put place entry) := by
  refine ⟨rfl, fun other old found => ?_⟩
  have apart : other ≠ place := by
    rintro rfl
    rw [free] at found
    cases found
  rw [d.find?_put_of_ne apart]
  exact found

theorem createDirectory_eq_ok {d e : Disk} {p : Path} : d.createDirectory p = .ok e ↔
    ∃ place, d.locate p = .ok place ∧ d.find? place = none ∧ e = d.put place .directory := by
  unfold createDirectory
  cases d.locate p with
  | error _ => simp [bind, Except.bind]
  | ok place => cases found : d.find? place <;> simp [bind, Except.bind, found, eq_comm]

theorem writeFile_eq_ok {d e : Disk} {p : Path} {contents : List UInt8} :
    d.writeFile p contents = .ok e ↔ ∃ place, d.locate p = .ok place ∧
      d.find? place ≠ some .directory ∧ e = d.put place (.file contents) := by
  unfold writeFile
  cases d.locate p with
  | error _ => simp [bind, Except.bind]
  | ok place => rcases found : d.find? place with _ | _ | _ <;>
      simp [bind, Except.bind, found, eq_comm]

theorem createDirectory_gains {d e : Disk} {p : Path} (h : d.createDirectory p = .ok e) :
    d.Gains e := by
  obtain ⟨place, -, free, rfl⟩ := createDirectory_eq_ok.mp h
  exact .put free .directory

/-- A file has been put on a disk: it can be read, and the files elsewhere are as they were. -/
structure Stores (d : Disk) (p : Path) (contents : List UInt8) (e : Disk) : Prop where
  grows : d.Grows e
  reads : e.readFile p = .ok contents
  others : ∀ place old, d.find? place = some (.file old) → e.locate p ≠ .ok place →
    e.find? place = some (.file old)

theorem Stores.of_reads {d : Disk} {p : Path} {contents : List UInt8}
    (h : d.readFile p = .ok contents) : d.Stores p contents d :=
  ⟨.refl d, h, fun _ _ found _ => found⟩

theorem Gains.stores {d e f : Disk} {p : Path} {contents : List UInt8} (gains : d.Gains e)
    (stores : e.Stores p contents f) : d.Stores p contents f :=
  ⟨gains.grows.trans stores.grows, stores.reads,
    fun place old found => stores.others place old (gains.entries place _ found)⟩

theorem writeFile_stores {d e : Disk} {p : Path} {contents : List UInt8}
    (h : d.writeFile p contents = .ok e) : d.Stores p contents e := by
  obtain ⟨place, there, free, rfl⟩ := writeFile_eq_ok.mp h
  have grows := Grows.put free (.file contents)
  have led := grows.locate there
  have below : place ≠ [] := by
    rintro rfl
    exact free rfl
  refine ⟨grows, readFile_eq_ok.mpr ⟨place, led, d.find?_put_self below _⟩, ?_⟩
  intro other old found apart
  have different : other ≠ place := by
    rintro rfl
    exact apart led
  rw [d.find?_put_of_ne different]
  exact found

end Disk

namespace Session

/-- What holds of a disk and itself, and of what an operation makes of it, holds in any case. -/
theorem change_disk {R : Disk → Disk → Prop} (refl : ∀ d, R d d)
    {operation : Disk → Except FileError Disk} {s : Session}
    (step : ∀ e, operation s.disk = .ok e → R s.disk e) :
    R s.disk (change operation s).2.disk := by
  unfold change
  split
  · exact step _ ‹_›
  · exact refl _

theorem createDirectory_gains (p : Path) (s : Session) :
    s.disk.Gains ((host.createDirectory p).run s).2.disk := by
  change s.disk.Gains (change (·.createDirectory p) s).2.disk
  exact change_disk .refl fun _ => Disk.createDirectory_gains

theorem ensureDirectories_gains (ps : List Path) (s : Session) :
    s.disk.Gains ((host.ensureDirectories ps).run s).2.disk :=
  (Follows.ensureDirectories Disk.Gains.passing createDirectory_gains ps s).leads s
    List.mem_cons_self

/-- What writing a file does: it is there with these contents, and other files are as they were. -/
theorem writeFile_stores {p : Path} {contents : List UInt8} {s t : Session}
    (h : (host.writeFile p contents).run s = (.ok (), t)) : s.disk.Stores p contents t.disk := by
  change change (·.writeFile p contents) s = _ at h
  unfold change at h
  split at h
  · rename_i e wrote
    cases h
    exact Disk.writeFile_stores wrote
  · cases h

end Session

/-! ## Steps of the tool -/

namespace ToolM

variable {α β : Type}

theorem run_bind (x : ToolM (StateM Session) α) (f : α → ToolM (StateM Session) β) (s : Session) :
    (x >>= f).run.run s = match x.run.run s with
      | (.ok a, t) => (f a).run.run t
      | (.error e, t) => (.error e, t) := by
  rw [ExceptT.run_bind, StateT.run_bind]
  rcases x.run.run s with ⟨_ | _, t⟩ <;> rfl

theorem run_lift (x : StateM Session α) (s : Session) :
    (liftM x : ToolM (StateM Session) α).run.run s = (.ok (x.run s).1, (x.run s).2) := rfl

theorem run_ofHost (operation : StateM Session (Except FileError α))
    (failure : FileError → ToolError) (s : Session) :
    (ofHost operation failure).run.run s =
      ((operation.run s).1.mapError failure, (operation.run s).2) := rfl

end ToolM

/-! ## Where files go -/

namespace ToolOptions

variable (o : ToolOptions)

/-- The directory and the name that the user gives for files, as they are on a disk. -/
def placeOn (d : Disk) : Option Path × Option String :=
  match o.output with
  | none => (none, none)
  | some p =>
    if p.endsWithSlash || d.isDirectory p then (some p, none)
    else (p.parent?.filter (·.text != ""), p.fileName?)

/-- The stem of the files made from an input, by what is on a disk. -/
def stemOn (d : Disk) (input : Path) : String :=
  stemOf (((o.placeOn d).2.or input.fileName?).getD "")

/-- Where a file made from an input goes, by what is on a disk. -/
def pathOn (d : Disk) (input : Path) (extension : String) : Path :=
  ((o.placeOn d).1.getD d.workingDirectory).child (o.stemOn d input ++ "." ++ extension)

theorem outputPlace_run (s : Session) :
    (o.outputPlace Session.host).run.run s = (.ok (o.placeOn s.disk), s) := by
  unfold outputPlace placeOn
  cases o.output with
  | none => rfl
  | some p =>
    dsimp only
    rw [ToolM.run_bind, ToolM.run_lift]
    change StateT.run (ExceptT.run (if p.endsWithSlash || s.disk.isDirectory p then _ else _)) s = _
    split <;> rfl

theorem outputPath_run (input : Path) (extension : String) (s : Session) :
    (o.outputPath Session.host input extension).run.run s =
      (.ok (o.pathOn s.disk input extension), s) := by
  unfold outputPath pathOn stemOn
  rw [ToolM.run_bind, outputPlace_run]
  rcases o.placeOn s.disk with ⟨_ | directory, name?⟩ <;> rfl

/-! ## Putting out -/

theorem store_stores {path : Path} {contents : List UInt8} {s t : Session}
    (h : (store Session.host path contents).run.run s = (.ok (), t)) :
    s.disk.Stores path contents t.disk := by
  have written {s : Session} (h : (ofHost (Session.host.writeFile path contents)
      (.writeFile path)).run.run s = (.ok (), t)) : s.disk.Stores path contents t.disk := by
    rw [ToolM.run_ofHost] at h
    cases wrote : (Session.host.writeFile path contents).run s with
    | mk result u =>
      rw [wrote] at h
      cases result with
      | error _ => cases h
      | ok _ =>
        cases h
        exact Session.writeFile_stores wrote
  unfold store at h
  cases parent : path.parent? with
  | none =>
    simp only [parent] at h
    exact written h
  | some directory =>
    simp only [parent] at h
    have gains : s.disk.Gains ((Session.host.createDirectories directory).run s).2.disk :=
      Session.ensureDirectories_gains directory.ancestors s
    rw [ToolM.run_bind, ToolM.run_ofHost] at h
    cases made : (Session.host.createDirectories directory).run s with
    | mk result u =>
      rw [made] at h gains
      cases result with
      | error _ => cases h
      | ok _ => exact gains.stores (written h)

theorem putOut_run (list : o.list = false) (stdout : o.stdout = false) (input : Path)
    (a : Artifact) (s : Session) :
    (o.putOut Session.host input a).run.run s =
      match s.disk.readFile (o.pathOn s.disk input a.extension) with
      | .ok old =>
        if old = a.contents then (.ok (), s)
        else if o.safe then (.error (.wouldOverwrite (o.pathOn s.disk input a.extension)), s)
        else (store Session.host (o.pathOn s.disk input a.extension) a.contents).run.run s
      | .error _ => (store Session.host (o.pathOn s.disk input a.extension) a.contents).run.run s := by
  unfold putOut
  simp only [stdout, list, Bool.false_eq_true, if_false]
  rw [ToolM.run_bind, outputPath_run]
  dsimp only
  rw [ToolM.run_bind, ToolM.run_lift]
  change StateT.run (ExceptT.run (match s.disk.readFile (o.pathOn s.disk input a.extension) with
    | .ok old => _ | .error _ => _)) s = _
  cases s.disk.readFile (o.pathOn s.disk input a.extension) with
  | error _ => rfl
  | ok old =>
    dsimp only
    by_cases same : old = a.contents
    · rw [if_pos same, if_pos same]
      rfl
    · rw [if_neg same, if_neg same]
      cases o.safe <;> rfl

theorem putOut_stores (list : o.list = false) (stdout : o.stdout = false) {input : Path}
    {a : Artifact} {s t : Session} (h : (o.putOut Session.host input a).run.run s = (.ok (), t)) :
    s.disk.Stores (o.pathOn s.disk input a.extension) a.contents t.disk := by
  rw [putOut_run o list stdout] at h
  split at h
  · rename_i old there
    split at h
    · rename_i same
      cases h
      exact .of_reads (same ▸ there)
    · split at h
      · cases h
      · exact store_stores h
  · exact store_stores h

end ToolOptions

end ModularSynth
