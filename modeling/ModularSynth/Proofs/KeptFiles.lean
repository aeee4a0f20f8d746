-- What runs of the tool leave alone. Listing and printing change nothing. In safe mode the files
-- that are there at some time stay as they are, as long as the user gives no path that turns back on
-- its way: then a file that could not be seen at first can come into reach while directories are
-- made.
import ModularSynth.Proofs.Detours
import ModularSynth.Proofs.ToolTrails

namespace ModularSynth

/-! ## Operations -/

namespace Disk

/-- Files stay as they are, except at some places. -/
def KeepsBut (lost : Place → Prop) (d e : Disk) : Prop :=
  ∀ place contents, d.find? place = some (.file contents) →
    e.find? place = some (.file contents) ∨ lost place

theorem KeepsBut.passing (lost : Place → Prop) : Passing (KeepsBut lost) where
  refl _ _ _ found := .inl found
  trans first last place contents found :=
    (first place contents found).elim (last place contents) .inr

theorem IsTree.passing : Passing fun d e => d.IsTree → e.IsTree :=
  ⟨fun _ => id, fun first last => last ∘ first⟩

theorem writeFile_keepsBut {d e : Disk} {p : Path} {contents : List UInt8}
    (h : d.writeFile p contents = .ok e) {lost : Place → Prop}
    (loses : ∀ place old, d.locate p = .ok place → d.find? place = some (.file old) → lost place) :
    d.KeepsBut lost e := by
  obtain ⟨place, there, -, rfl⟩ := writeFile_eq_ok.mp h
  intro other old found
  by_cases same : other = place
  · exact .inr (loses other old (same ▸ there) found)
  · exact .inl ((d.find?_put_of_ne same _).trans found)

end Disk

namespace Session

theorem createDirectory_prepares (p : Path) (s : Session) :
    s.disk.Prepares ((host.createDirectory p).run s).2.disk := by
  change s.disk.Prepares (change (·.createDirectory p) s).2.disk
  exact change_disk Disk.Prepares.passing.refl fun _ => Disk.createDirectory_prepares

theorem createDirectory_tree (p : Path) (s : Session) :
    s.disk.IsTree → ((host.createDirectory p).run s).2.disk.IsTree := by
  change s.disk.IsTree → (change (·.createDirectory p) s).2.disk.IsTree
  exact change_disk (R := fun d e => d.IsTree → e.IsTree) (fun _ => id)
    fun _ made tree => Disk.createDirectory_tree tree made

theorem writeFile_tree (p : Path) (contents : List UInt8) (s : Session) :
    s.disk.IsTree → ((host.writeFile p contents).run s).2.disk.IsTree := by
  change s.disk.IsTree → (change (·.writeFile p contents) s).2.disk.IsTree
  exact change_disk (R := fun d e => d.IsTree → e.IsTree) (fun _ => id)
    fun _ wrote tree => Disk.writeFile_tree tree wrote

theorem writeFile_grows (p : Path) (contents : List UInt8) (s : Session) :
    s.disk.Grows ((host.writeFile p contents).run s).2.disk := by
  change s.disk.Grows (change (·.writeFile p contents) s).2.disk
  exact change_disk .refl fun _ wrote => (Disk.writeFile_stores wrote).grows

theorem writeFile_keepsBut (p : Path) (contents : List UInt8) (s : Session) {lost : Place → Prop}
    (loses : ∀ place old, s.disk.locate p = .ok place → s.disk.find? place = some (.file old) →
      lost place) :
    s.disk.KeepsBut lost ((host.writeFile p contents).run s).2.disk := by
  change s.disk.KeepsBut lost (change (·.writeFile p contents) s).2.disk
  exact change_disk (Disk.KeepsBut.passing lost).refl
    fun _ wrote => Disk.writeFile_keepsBut wrote loses

end Session

/-! ## Storing -/

namespace ToolOptions

variable (o : ToolOptions)

theorem store_follows {R : Disk → Disk → Prop} (passing : Passing R)
    (makes : ∀ p s, R s.disk ((Session.host.createDirectory p).run s).2.disk) (path : Path)
    (contents : List UInt8) (s : Session)
    (writes : ∀ t, s.disk.Prepares t.disk → ((store Session.host path contents).run.run s).2 =
        ((Session.host.writeFile path contents).run t).2 →
      R t.disk ((Session.host.writeFile path contents).run t).2.disk) :
    Follows R (store Trail.host path contents).run (store Session.host path contents).run s := by
  have written : ∀ t, s.disk.Prepares t.disk →
      ((store Session.host path contents).run.run s).2 =
        ((Session.host.writeFile path contents).run t).2 →
      Follows R (ofHost (Trail.host.writeFile path contents) (.writeFile path)).run
        (ofHost (Session.host.writeFile path contents) (.writeFile path)).run t :=
    fun t prepares result => .ofHost passing _ (.operate passing (writes t prepares result))
  unfold store at written ⊢
  cases parent : path.parent? with
  | none =>
    simp only [parent] at written ⊢
    exact written s (Disk.Prepares.passing.refl _) rfl
  | some directory =>
    simp only [parent] at written ⊢
    refine .bindTool passing (.ofHost passing _
      (.ensureDirectories passing makes directory.ancestors s)) fun _ t made => ?_
    have prepares : s.disk.Prepares ((Session.host.createDirectories directory).run s).2.disk :=
      (Follows.ensureDirectories Disk.Prepares.passing Session.createDirectory_prepares
        directory.ancestors s).leads s List.mem_cons_self
    rw [ToolM.run_ofHost] at made
    cases around : (Session.host.createDirectories directory).run s with
    | mk result u =>
      rw [around] at made prepares
      cases result with
      | error e => cases made
      | ok _ =>
        cases made
        refine written _ prepares ?_
        rw [ToolM.run_bind, ToolM.run_ofHost, around]
        rfl

/-! ## Turns -/

/-- Every artifact that is put out leaves a tree. -/
theorem leadsAt_tree (turn : ArtifactTurn) : o.LeadsAt (fun d e => d.IsTree → e.IsTree) turn :=
  o.putOut_follows Disk.IsTree.passing turn.input turn.artifact turn.before fun _ _ _ =>
    store_follows Disk.IsTree.passing Session.createDirectory_tree _ _ _ fun t _ _ =>
      Session.writeFile_tree _ _ t

/-- When files are listed or printed, the disk stays the same. -/
theorem leadsAt_still (still : o.list = true ∨ o.stdout = true) (turn : ArtifactTurn) :
    o.LeadsAt (· = ·) turn := by
  refine o.putOut_follows ⟨fun _ => rfl, Eq.trans⟩ turn.input turn.artifact turn.before
    fun stdout list => ?_
  rw [stdout, list] at still
  rcases still with wrong | wrong <;> cases wrong

/-- A path for a file turns back only if the one that the user gives does. -/
theorem pathOn_turnsBack {d : Disk} (tree : d.IsTree) {input : Path} {extension : String}
    (known : extension ∈ Artifact.extensions)
    (back : (o.pathOn d input extension).TurnsBack) : ∃ p, o.output = some p ∧ p.TurnsBack := by
  obtain ⟨slash, -, up⟩ := Artifact.plain_name known (o.slash_not_mem_stemOn d input)
  have directory := back.of_child slash up
  unfold placeOn at directory
  cases given : o.output with
  | none =>
    rw [given] at directory
    exact absurd directory tree.workingDirectory
  | some p =>
    refine ⟨p, rfl, ?_⟩
    rw [given] at directory
    dsimp only at directory
    split at directory
    · exact directory
    · cases above : p.parent?.filter (·.text != "") with
      | none =>
        rw [above] at directory
        exact absurd directory tree.workingDirectory
      | some parent =>
        rw [above] at directory
        exact directory.of_parent (Option.filter_eq_some_iff.mp above).1

end ToolOptions

namespace ArtifactTurn

variable (o : ToolOptions) (turn : ArtifactTurn)

/-- The path leads to a file with other contents. -/
def WouldChange : Prop :=
  ∃ old, turn.before.disk.readFile (turn.path o) = .ok old ∧ old ≠ turn.artifact.contents

/-- The path leads nowhere when its turn comes, because a directory is missing, but turns back and
leads to a place all the same after the directory has been made. -/
structure Slips (place : Place) : Prop where
  nowhere : turn.before.disk.locate (turn.path o) = .error .noSuchFile
  turnsBack : ∃ p, o.output = some p ∧ p.TurnsBack
  arrives : (turn.result o).2.disk.locate (turn.path o) = .ok place

variable {o turn}

theorem failed_of_wouldChange (safe : o.safe = true) (list : o.list = false)
    (stdout : o.stdout = false) (changes : turn.WouldChange o) : turn.failed o = true := by
  obtain ⟨old, there, other⟩ := changes
  unfold failed result
  rw [o.putOut_run list stdout]
  unfold path at there
  simp only [there, other, safe, if_true, if_false]
  rfl

/-- A file that has the same contents is not written again. -/
theorem result_of_same (list : o.list = false) (stdout : o.stdout = false)
    (same : turn.before.disk.readFile (turn.path o) = .ok turn.artifact.contents) :
    turn.result o = (.ok (), turn.before) := by
  unfold result
  rw [o.putOut_run list stdout]
  unfold path at same
  simp only [same, if_true]

/-- In safe mode the only files that can change are those that a path slips to. -/
theorem leadsAt_keepsBut (safe : o.safe = true) (tree : turn.before.disk.IsTree)
    (known : turn.artifact.extension ∈ Artifact.extensions) {lost : Place → Prop}
    (slips : ∀ place, turn.Slips o place → lost place) :
    o.LeadsAt (Disk.KeepsBut lost) turn := by
  have passing := Disk.KeepsBut.passing lost
  refine o.putOut_follows passing turn.input turn.artifact turn.before fun stdout list unsafe_ => ?_
  have unread : ∀ old, turn.before.disk.readFile (turn.path o) ≠ .ok old := by
    intro old there
    rw [unsafe_ old there] at safe
    cases safe
  refine ToolOptions.store_follows passing
    (fun p s place contents found =>
      .inl ((Session.createDirectory_prepares p s).gains.entries place _ found))
    _ _ _ fun t prepares result => Session.writeFile_keepsBut _ _ t fun place old led found => ?_
  have before := prepares.files place old found
  obtain ⟨nowhere, back⟩ := prepares.detour tree led unread before
  refine slips place ⟨nowhere, o.pathOn_turnsBack tree known back, ?_⟩
  have stored : (turn.result o).2 =
      ((Session.host.writeFile (turn.path o) turn.artifact.contents).run t).2 := by
    unfold ArtifactTurn.result
    rw [o.putOut_run list stdout]
    cases there : turn.before.disk.readFile
        (o.pathOn turn.before.disk turn.input turn.artifact.extension) with
    | ok old => exact absurd there (unread old)
    | error e => exact result
  rw [stored]
  exact (Session.writeFile_grows _ _ t).locate led

end ArtifactTurn

namespace ToolOptions

/-- What a run of the tool does to files, for every disk. Its sessions are those that it goes
through, one after each operation. With `-l` or `-s` the disk is the same in all of them. With `-n`
a file that is there in one of them is there in the end as it was, except where an artifact has
slipped: its path led nowhere when its turn came, and the user has given a path that turns back.
The failures are the attempts that fail, and unless files are listed or printed, these are in safe
mode all those with an artifact whose path leads to a file with other contents when its turn comes;
where an attempt does not fail, every artifact has its turn. A file that has the same contents is
not written again, and that is no failure. -/
theorem modes_protect_files (o : ToolOptions) (samples : SampleTable) (s : Session)
    (tree : s.disk.IsTree) :
    let failures := ((o.run Session.host samples).run s).1
    let final := ((o.run Session.host samples).run s).2
    ((o.run Trail.host samples s).1 = (failures, final)) ∧
    (o.list = true ∨ o.stdout = true →
      final.disk = s.disk ∧ ∀ t ∈ o.sessions samples s, t.disk = s.disk) ∧
    (o.safe = true → ∀ t ∈ o.sessions samples s, ∀ place contents,
      t.disk.find? place = some (.file contents) →
        final.disk.find? place = some (.file contents) ∨
          ∃ a ∈ o.attempts samples s, ∃ turn ∈ a.turns, turn.Slips o place) ∧
    (o.safe = true → o.list = false → o.stdout = false → o.templates = none →
      failures = (o.attempts samples s).countP (·.failed o) ∧
      ∀ a ∈ o.attempts samples s,
        ((∃ turn ∈ a.turns, turn.WouldChange o) → a.failed o = true) ∧
        (a.failed o = false → a.made = .ok (a.turns.map (·.artifact)))) ∧
    (o.list = false → o.stdout = false → ∀ a ∈ o.attempts samples s, ∀ turn ∈ a.turns,
      turn.before.disk.readFile (turn.path o) = .ok turn.artifact.contents →
        turn.result o = (.ok (), turn.before)) := by
  intro failures final
  have trees := o.attempts_reached Disk.IsTree.passing o.leadsAt_tree samples s
  have known := o.attempts_extensions samples s
  refine ⟨?_, fun still => ?_, fun safe => ?_, fun safe list stdout templates => ?_,
    fun list stdout a _ turn _ same => turn.result_of_same list stdout same⟩
  · exact (o.run_follows Disk.IsTree.passing samples s fun _ _ turn _ => o.leadsAt_tree turn).same
  · have same := (o.run_follows ⟨fun _ => rfl, Eq.trans⟩ samples s
      fun _ _ turn _ => o.leadsAt_still still turn).leads
    have first : s.disk = final.disk := same s List.mem_cons_self
    exact ⟨first.symm, fun t mem => (same t mem).trans first.symm⟩
  · refine (o.run_follows (Disk.KeepsBut.passing _) samples s fun a mem turn within => ?_).leads
    exact turn.leadsAt_keepsBut safe (trees a mem turn within tree) (known a mem turn within)
      fun place slips => ⟨a, mem, turn, within, slips⟩
  · refine ⟨o.run_count samples s templates, fun a mem => ⟨?_, o.attempts_complete samples s a mem⟩⟩
    rintro ⟨turn, within, changes⟩
    have failed := turn.failed_of_wouldChange safe list stdout changes
    unfold Attempt.failed
    rw [Bool.or_eq_true_iff, List.any_eq_true]
    exact .inr ⟨turn, within, failed⟩

/-- A song file, and a file where its audio goes. -/
def keptFiles : Session where
  disk := { entries := [
    (["songs"], .directory), (["a.yml", "songs"], .file (silentFile 0)),
    (["a.wav"], .file [1])] }

/-- Put out the audio of the song in safe mode. -/
def safely (output : Path) : ToolOptions where
  safe := true
  extensions := some "wav"
  output := some output
  paths := [⟨"songs/a.yml"⟩]

/-- The file in the way is kept if its directory is given as it is. By way of a directory that is
missing it is overwritten. -/
theorem modes_protect_files_slipping :
    keptFiles.disk.IsTree ∧
    (((safely ⟨"./"⟩).run Session.host {}).run keptFiles).2.disk.find? ["a.wav"] =
      some (.file [1]) ∧
    (((safely ⟨"missing/../"⟩).run Session.host {}).run keptFiles).1 = 0 ∧
    ∃ a ∈ (safely ⟨"missing/../"⟩).attempts {} keptFiles, ∃ turn ∈ a.turns,
      turn.Slips (safely ⟨"missing/../"⟩) ["a.wav"] := by
  have tree : keptFiles.disk.IsTree := by decide
  have there : keptFiles.disk.find? ["a.wav"] = some (.file [1]) := by decide
  obtain ⟨-, -, direct, -⟩ := modes_protect_files (safely ⟨"./"⟩) {} keptFiles tree
  obtain ⟨-, -, around, -⟩ := modes_protect_files (safely ⟨"missing/../"⟩) {} keptFiles tree
  refine ⟨tree, ?_, by decide +kernel, ?_⟩
  · rcases direct rfl keptFiles List.mem_cons_self _ _ there with kept | ⟨_, _, _, _, slips⟩
    · exact kept
    · obtain ⟨p, given, back⟩ := slips.turnsBack
      cases given
      exact absurd back (by decide)
  · refine (around rfl keptFiles List.mem_cons_self _ _ there).resolve_left ?_
    decide +kernel

end ToolOptions

end ModularSynth
