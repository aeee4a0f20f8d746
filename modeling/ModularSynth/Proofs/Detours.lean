-- Paths through directories that are missing. Such a path leads nowhere until the directories are
-- made. Then it can lead to a file that was there before, but only if it turns back on its way.
import ModularSynth.Proofs.StoredFiles

namespace ModularSynth

namespace Disk

/-! ## Disks as trees -/

/-- Everything on a disk lies in a directory, and the working directory has plain names. -/
structure IsTree (d : Disk) : Prop where
  inside : ∀ e ∈ d.entries, d.find? (e.1.drop 1) = some .directory
  names : ∀ name ∈ d.workingPlace, '/' ∉ name.toList ∧ name.toList ≠ ['.', '.']

instance (d : Disk) : Decidable d.IsTree :=
  decidable_of_iff
    ((∀ e ∈ d.entries, d.find? (e.1.drop 1) = some .directory) ∧
      ∀ name ∈ d.workingPlace, '/' ∉ name.toList ∧ name.toList ≠ ['.', '.'])
    ⟨fun h => ⟨h.1, h.2⟩, fun h => ⟨h.inside, h.names⟩⟩

theorem mem_of_find? {d : Disk} {name : String} {outer : Place} {entry : DiskEntry}
    (found : d.find? (name :: outer) = some entry) : (name :: outer, entry) ∈ d.entries := by
  obtain ⟨before, after, split, -⟩ := List.lookup_eq_some_iff.mp found
  rw [split]
  simp

theorem IsTree.outer {d : Disk} (tree : d.IsTree) {place : Place} {entry : DiskEntry}
    (found : d.find? place = some entry) : d.find? (place.drop 1) = some .directory := by
  cases place with
  | nil => rfl
  | cons name outer => exact tree.inside _ (mem_of_find? found)

/-- All places around a place that is taken are directories. -/
theorem IsTree.around {d : Disk} (tree : d.IsTree) {outer place : Place} {entry : DiskEntry}
    (around : outer <:+ place) (found : d.find? place = some entry) : outer = place ∨
      d.find? outer = some .directory := by
  induction place generalizing entry with
  | nil => exact .inl (List.suffix_nil.mp around)
  | cons name rest ih =>
    rcases List.suffix_cons_iff.mp around with same | inner
    · exact .inl same
    · have above := tree.outer found
      rcases ih inner above with rfl | directory
      · exact .inr above
      · exact .inr directory

theorem IsTree.put {d : Disk} (tree : d.IsTree) {place : Place} (entry : DiskEntry)
    (free : d.find? place ≠ some .directory) (inside : d.find? (place.drop 1) = some .directory) :
    (d.put place entry).IsTree := by
  have grows := Grows.put free entry
  refine ⟨fun e mem => grows.directories _ ?_, tree.names⟩
  rcases List.mem_cons.mp mem with rfl | old
  · exact inside
  · exact tree.inside e old

/-- Where a path leads there is a directory, or it lies in one. -/
theorem IsTree.follow {d : Disk} (tree : d.IsTree) {start place : Place}
    {parts : List (List Char)} (h : d.follow start parts = .ok place)
    (begins : d.find? start = some .directory ∨ d.find? (start.drop 1) = some .directory) :
    d.find? place = some .directory ∨ d.find? (place.drop 1) = some .directory := by
  induction parts generalizing start with
  | nil =>
    cases h
    exact begins
  | cons part parts ih =>
    obtain ⟨directory, next, led, later⟩ := follow_cons_ok.mp h
    refine ih later ?_
    rcases onward_cases led with rfl | ⟨-, rfl⟩ | rfl
    · exact .inl directory
    · exact .inl (tree.outer directory)
    · exact .inr directory

theorem IsTree.locate {d : Disk} (tree : d.IsTree) {p : Path} {place : Place}
    (h : d.locate p = .ok place) (free : d.find? place ≠ some .directory) :
    d.find? (place.drop 1) = some .directory := by
  unfold Disk.locate at h
  split at h
  · cases h
  · split at h
    · cases h
    · split at h
      · cases h
      · cases parts : p.parts with
        | nil => exact absurd parts (partsBetween_ne_nil '/' _)
        | cons part rest =>
          rw [parts] at h
          exact (tree.follow h (.inl (follow_cons_ok.mp h).1)).resolve_left free

/-! ## Directories that are made -/

/-- Directories have been made, and files are as they were. -/
structure Prepares (d e : Disk) : Prop where
  gains : d.Gains e
  files : ∀ place contents, e.find? place = some (.file contents) →
    d.find? place = some (.file contents)

theorem Prepares.passing : Passing Prepares where
  refl d := ⟨.refl d, fun _ _ found => found⟩
  trans first last :=
    ⟨first.gains.trans last.gains, fun place contents found =>
      first.files place contents (last.files place contents found)⟩

theorem createDirectory_prepares {d e : Disk} {p : Path} (h : d.createDirectory p = .ok e) :
    d.Prepares e := by
  refine ⟨createDirectory_gains h, ?_⟩
  obtain ⟨place, -, -, rfl⟩ := createDirectory_eq_ok.mp h
  intro other contents found
  by_cases same : other = place
  · subst same
    by_cases root : other = []
    · subst root
      cases found
    · rw [d.find?_put_self root] at found
      cases found
  · rwa [d.find?_put_of_ne same] at found

theorem createDirectory_tree {d e : Disk} (tree : d.IsTree) {p : Path}
    (h : d.createDirectory p = .ok e) : e.IsTree := by
  obtain ⟨place, there, free, rfl⟩ := createDirectory_eq_ok.mp h
  have no_directory : d.find? place ≠ some .directory := by simp [free]
  exact tree.put _ no_directory (tree.locate there no_directory)

theorem writeFile_tree {d e : Disk} (tree : d.IsTree) {p : Path} {contents : List UInt8}
    (h : d.writeFile p contents = .ok e) : e.IsTree := by
  obtain ⟨place, there, free, rfl⟩ := writeFile_eq_ok.mp h
  exact tree.put _ free (tree.locate there free)

/-! ## Ways back -/

/-- A path that never turns back leads further in. -/
theorem follow_inward {d : Disk} {start place : Place} {parts : List (List Char)}
    (h : d.follow start parts = .ok place) (onward : ['.', '.'] ∉ parts) : start <:+ place := by
  induction parts generalizing start with
  | nil =>
    cases h
    exact List.suffix_refl _
  | cons part parts ih =>
    obtain ⟨here, later⟩ := not_or.mp (mt List.mem_cons.mpr onward)
    obtain ⟨-, next, led, after⟩ := follow_cons_ok.mp h
    refine List.IsSuffix.trans ?_ (ih after later)
    rcases onward_cases led with rfl | ⟨up, -⟩ | rfl
    · exact List.suffix_refl _
    · exact absurd up.symm here
    · exact List.suffix_cons _ _

/-- A path that led nowhere until directories were made went through one that was missing; and if
it does not turn back, nothing was where it leads now. -/
theorem Prepares.follow {d e : Disk} (prepares : d.Prepares e) (tree : d.IsTree)
    {start place : Place} {parts : List (List Char)} {error : FileError}
    (before : d.follow start parts = .error error) (after : e.follow start parts = .ok place) :
    error = .noSuchFile ∧ (['.', '.'] ∉ parts → d.find? place = none) := by
  induction parts generalizing start with
  | nil => cases before
  | cons part parts ih =>
    obtain ⟨directory, next, led, later⟩ := follow_cons_ok.mp after
    cases there : d.find? start with
    | none =>
      have missing : d.requireDirectory start = .error .noSuchFile := by
        unfold requireDirectory
        rw [there]
      rw [follow_cons, missing] at before
      cases before
      refine ⟨rfl, fun onward => ?_⟩
      cases found : d.find? place with
      | none => rfl
      | some entry =>
        rcases tree.around (follow_inward after onward) found with rfl | taken
        · exact found.symm.trans there
        · exact absurd (taken.symm.trans there) (by simp)
    | some entry =>
      have kept := prepares.gains.entries start entry there
      obtain rfl : entry = .directory := Option.some.inj (kept.symm.trans directory)
      rw [follow_cons, requireDirectory_ok.mpr there, led] at before
      exact (ih before later).imp_right fun free onward => free (mt (List.mem_cons_of_mem _) onward)

/-- A file that a path leads to once directories are made, and that could not be read before,
lies on a way that turns back. -/
theorem Prepares.detour {d e : Disk} (prepares : d.Prepares e) (tree : d.IsTree) {p : Path}
    {place : Place} (led : e.locate p = .ok place) (unread : ∀ old, d.readFile p ≠ .ok old)
    {contents : List UInt8} (found : d.find? place = some (.file contents)) :
    d.locate p = .error .noSuchFile ∧ ['.', '.'] ∈ p.parts := by
  cases before : d.locate p with
  | ok other =>
    have still := prepares.gains.grows.locate before
    obtain rfl : other = place := Except.ok.inj (still.symm.trans led)
    exact absurd (readFile_eq_ok.mpr ⟨other, before, found⟩) (unread contents)
  | error error =>
    unfold Disk.locate at before led
    rw [prepares.gains.workingPlace] at led
    split at led
    · cases led
    · split at led
      · cases led
      · split at led
        · cases led
        · rename_i some_text no_zero short
          rw [if_neg some_text, if_neg no_zero, if_neg short] at before
          obtain ⟨missing, free⟩ := prepares.follow tree before led
          refine ⟨congrArg _ missing, Decidable.byContradiction fun onward => ?_⟩
          exact absurd (found.symm.trans (free onward)) (by simp)

end Disk

/-! ## Paths that turn back -/

theorem mem_partsBetween_joinParts {separator : Char} {parts : List (List Char)} {part : List Char}
    (plain : ∀ p ∈ parts, separator ∉ p)
    (h : part ∈ partsBetween separator (joinParts separator parts)) :
    part = [] ∨ part ∈ parts := by
  induction parts using joinParts.induct with
  | case1 => exact .inl (List.mem_singleton.mp h)
  | case2 only =>
    rw [joinParts, partsBetween_of_not_mem (plain only (List.mem_singleton_self _))] at h
    exact .inr h
  | case3 first rest some_rest ih =>
    rw [joinParts] at h
    · rw [partsBetween_append, partsBetween_of_not_mem (plain first List.mem_cons_self)] at h
      rcases List.mem_append.mp h with same | later
      · exact .inr (List.mem_singleton.mp same ▸ List.mem_cons_self)
      · exact (ih (fun p mem => plain p (List.mem_cons_of_mem _ mem)) later).imp_right
          (List.mem_cons_of_mem _)
    · exact some_rest

namespace Path

/-- A way that turns back. -/
def TurnsBack (p : Path) : Prop :=
  ['.', '.'] ∈ p.parts

instance (p : Path) : Decidable p.TurnsBack :=
  inferInstanceAs (Decidable (_ ∈ _))

theorem TurnsBack.of_parent {p parent : Path} (above : p.parent? = some parent)
    (back : parent.TurnsBack) : p.TurnsBack := by
  have inside : ∀ part ∈ trimParts (trimParts p.parts).dropLast, part ∈ p.parts :=
    fun part mem => mem_trimParts ((List.dropLast_sublist _).subset (mem_trimParts mem))
  unfold parent? split? at above
  cases last : (trimParts p.parts).getLast? with
  | none => simp [last] at above
  | some name =>
    simp only [last] at above
    by_cases unnamed : (name == []) = true
    · rw [if_pos unnamed] at above
      cases above
    · rw [if_neg unnamed] at above
      dsimp only at above
      split at above
      · cases above
        exact absurd back (by decide)
      · cases above
        unfold TurnsBack Path.parts at back
        rw [String.toList_ofList] at back
        have plain : ∀ part ∈ trimParts (trimParts p.parts).dropLast, '/' ∉ part :=
          fun part mem slash => (mem_of_partsBetween (inside part mem) slash).2 rfl
        exact inside _ ((mem_partsBetween_joinParts plain back).resolve_left (by simp))

theorem TurnsBack.of_child {directory : Path} {name : String} (slash : '/' ∉ name.toList)
    (up : name.toList ≠ ['.', '.']) (back : (directory.child name).TurnsBack) :
    directory.TurnsBack := by
  obtain ⟨before, parts, inside⟩ := directory.child_parts slash
  unfold TurnsBack at back
  rw [parts] at back
  rcases List.mem_append.mp back with outer | own
  · exact inside outer
  · exact absurd (List.mem_singleton.mp own).symm up

end Path

/-- The working directory is given by its own names. -/
theorem Disk.IsTree.workingDirectory {d : Disk} (tree : d.IsTree) :
    ¬ d.workingDirectory.TurnsBack := by
  have along (names : List String) (text : String)
      (plain : ∀ name ∈ names, '/' ∉ name.toList ∧ name.toList ≠ ['.', '.'])
      (begun : ['.', '.'] ∉ partsBetween '/' text.toList) :
      ['.', '.'] ∉ partsBetween '/'
        (names.foldl (fun text name => text ++ "/" ++ name) text).toList := by
    induction names generalizing text with
    | nil => exact begun
    | cons name names ih =>
      obtain ⟨slash, up⟩ := plain name List.mem_cons_self
      refine ih _ (fun other mem => plain other (List.mem_cons_of_mem _ mem)) ?_
      rw [String.toList_append, String.toList_append, List.append_assoc]
      change _ ∉ partsBetween '/' (text.toList ++ '/' :: name.toList)
      rw [partsBetween_append, partsBetween_of_not_mem slash, List.mem_append, not_or]
      exact ⟨begun, mt List.mem_singleton.mp (Ne.symm up)⟩
  unfold Disk.workingDirectory
  split
  · decide
  · exact along _ "" (fun name mem => tree.names name (List.mem_reverse.mp mem)) (by decide)

end ModularSynth
