-- Where paths lead. A path for a name in a directory leads to a place of that name, and it leads
-- there for good: a run only ever adds directories, and nothing takes the place of one.
import ModularSynth.Files.Host

namespace ModularSynth

/-! ## Parts of paths -/

theorem partsBetween_append (separator : Char) (text rest : List Char) :
    partsBetween separator (text ++ separator :: rest) =
      partsBetween separator text ++ partsBetween separator rest := by
  induction text with
  | nil => simp [partsBetween]
  | cons c text ih =>
    rw [List.cons_append, partsBetween, partsBetween, ih]
    split
    · rfl
    · cases parts : partsBetween separator text with
      | nil => exact absurd parts (partsBetween_ne_nil separator text)
      | cons part parts => rfl

theorem partsBetween_of_not_mem {separator : Char} {text : List Char} (h : separator ∉ text) :
    partsBetween separator text = [text] := by
  induction text with
  | nil => rfl
  | cons c text ih =>
    obtain ⟨other, absent⟩ := not_or.mp (mt List.mem_cons.mpr h)
    rw [partsBetween, if_neg (Ne.symm other), ih absent]

theorem mem_of_partsBetween {separator c : Char} {text part : List Char}
    (hp : part ∈ partsBetween separator text) (hc : c ∈ part) : c ∈ text ∧ c ≠ separator := by
  induction text generalizing part with
  | nil =>
    rw [List.mem_singleton.mp hp] at hc
    cases hc
  | cons b text ih =>
    rw [partsBetween] at hp
    split at hp
    · rcases List.mem_cons.mp hp with rfl | later
      · cases hc
      · exact (ih later hc).imp_left (List.mem_cons_of_mem _)
    · rename_i other
      cases parts : partsBetween separator text with
      | nil => exact absurd parts (partsBetween_ne_nil separator text)
      | cons first rest =>
        rw [parts] at hp ih
        rcases List.mem_cons.mp hp with rfl | later
        · rcases List.mem_cons.mp hc with rfl | inner
          · exact ⟨List.mem_cons_self, other⟩
          · exact (ih List.mem_cons_self inner).imp_left (List.mem_cons_of_mem _)
        · exact (ih (List.mem_cons_of_mem _ later) hc).imp_left (List.mem_cons_of_mem _)

theorem mem_joinParts {separator c : Char} {parts : List (List Char)}
    (h : c ∈ joinParts separator parts) : c = separator ∨ ∃ part ∈ parts, c ∈ part := by
  induction parts using joinParts.induct with
  | case1 => cases h
  | case2 part => exact .inr ⟨part, List.mem_singleton_self part, h⟩
  | case3 part parts some_parts ih =>
    rw [joinParts] at h
    · rcases List.mem_append.mp h with first | later
      · exact .inr ⟨part, List.mem_cons_self, first⟩
      · rcases List.mem_cons.mp later with same | later
        · exact .inl same
        · rcases ih later with same | ⟨other, mem, inner⟩
          · exact .inl same
          · exact .inr ⟨other, List.mem_cons_of_mem _ mem, inner⟩
    · exact some_parts

/-- A stem is made of the characters of its name. -/
theorem not_mem_stemOf {name : String} {c : Char} (h : c ∉ name.toList) (other : c ≠ '.') :
    c ∉ (stemOf name).toList := by
  unfold stemOf splitExtension
  split
  · exact h
  · split
    · rename_i extension before parts
      split
      · exact h
      · rw [String.toList_ofList]
        intro mem
        rcases mem_joinParts mem with same | ⟨part, hp, inner⟩
        · exact other same
        · have mem_reverse : part ∈ (partsBetween '.' name.toList).reverse := by
            rw [parts]
            exact List.mem_cons_of_mem _ (List.mem_reverse.mp hp)
          exact h (mem_of_partsBetween (List.mem_reverse.mp mem_reverse) inner).1
    · exact h

/-- A stem and an extension can be told from the name that they make. -/
theorem dotted_inj {stem stem' extension extension' : String} (plain : '.' ∉ extension.toList)
    (plain' : '.' ∉ extension'.toList)
    (h : stem ++ "." ++ extension = stem' ++ "." ++ extension') :
    stem = stem' ∧ extension = extension' := by
  have chars := congrArg String.toList h
  simp only [String.toList_append, List.append_assoc] at chars
  have parts := congrArg (partsBetween '.') chars
  change partsBetween '.' (stem.toList ++ '.' :: extension.toList) =
    partsBetween '.' (stem'.toList ++ '.' :: extension'.toList) at parts
  rw [partsBetween_append, partsBetween_append, partsBetween_of_not_mem plain,
    partsBetween_of_not_mem plain'] at parts
  have same := List.singleton_inj.mp (List.append_inj_right' parts rfl)
  rw [same] at chars
  exact ⟨String.toList_inj.mp (List.append_cancel_right chars), String.toList_inj.mp same⟩

namespace Path

theorem mem_trimParts {part : List Char} {parts : List (List Char)} (h : part ∈ trimParts parts) :
    part ∈ parts := by
  cases parts with
  | nil => exact h
  | cons first rest =>
    refine (List.mem_cons.mp h).elim (fun same => same ▸ List.mem_cons_self) fun later => ?_
    have kept := (List.dropWhile_suffix isIdle).subset (List.mem_reverse.mp later)
    exact List.mem_cons_of_mem _ (List.mem_reverse.mp kept)

/-- A file name has no slashes. -/
theorem slash_not_mem_fileName {p : Path} {name : String} (h : p.fileName? = some name) :
    '/' ∉ name.toList := by
  unfold fileName? split? at h
  cases last : (trimParts p.parts).getLast? with
  | none => simp [last] at h
  | some part =>
    have inside : part ∈ p.parts := mem_trimParts (List.mem_of_getLast? last)
    simp only [last] at h
    split at h
    · cases h
    · rename_i found
      split at found
      · cases found
      · cases found
        split at h
        · cases h
        · cases h
          rw [String.toList_ofList]
          exact fun mem => (mem_of_partsBetween inside mem).2 rfl

/-- The last part of the path for a name in a directory is the name, and the others are of the
directory. -/
theorem child_parts (directory : Path) {name : String} (h : '/' ∉ name.toList) :
    ∃ before, (directory.child name).parts = before ++ [name.toList] ∧
      before ⊆ directory.parts := by
  have single := partsBetween_of_not_mem h
  unfold child
  split
  · rename_i plain
    unfold parts
    rw [String.toList_append]
    rcases Bool.or_eq_true_iff.mp plain with empty | slash
    · rw [eq_of_beq empty]
      exact ⟨[], single, List.nil_subset _⟩
    · obtain ⟨text, ends⟩ : ∃ text, directory.text.toList = text ++ ['/'] :=
        List.getLast?_eq_some_iff.mp (eq_of_beq slash)
      refine ⟨partsBetween '/' text, ?_, ?_⟩
      · rw [ends, List.append_assoc, List.singleton_append, partsBetween_append, single]
      · rw [ends, partsBetween_append]
        exact List.subset_append_left _ _
  · refine ⟨directory.parts, ?_, List.Subset.refl _⟩
    unfold parts
    rw [String.toList_append, String.toList_append, List.append_assoc]
    exact (partsBetween_append '/' _ _).trans (congrArg _ single)

end Path

/-! ## Following paths -/

namespace Disk

theorem readFile_eq_ok {d : Disk} {p : Path} {contents : List UInt8} :
    d.readFile p = .ok contents ↔
      ∃ place, d.locate p = .ok place ∧ d.find? place = some (.file contents) := by
  unfold readFile entry
  cases d.locate p with
  | error e => simp [bind, Except.bind]
  | ok place =>
    cases found : d.find? place with
    | none => simp [bind, Except.bind, found]
    | some e => cases e <;> simp [bind, Except.bind, found]

theorem isDirectory_iff {d : Disk} {p : Path} :
    d.isDirectory p = true ↔ ∃ place, d.locate p = .ok place ∧ d.find? place = some .directory := by
  unfold isDirectory entry
  cases d.locate p with
  | error e => simp [bind, Except.bind]
  | ok place =>
    cases found : d.find? place with
    | none => simp [bind, Except.bind, found]
    | some e => cases e <;> simp [bind, Except.bind, found]

theorem requireDirectory_ok {d : Disk} {place : Place} :
    d.requireDirectory place = .ok () ↔ d.find? place = some .directory := by
  unfold requireDirectory
  cases d.find? place with
  | none => simp
  | some e => cases e <;> simp

/-- Where a part of a path leads from a directory, whatever is on the disk. -/
def onward (start : Place) (part : List Char) : Except FileError Place :=
  if Path.isIdle part then .ok start
  else if part = ['.', '.'] then .ok (start.drop 1)
  else if nameLimit < (String.ofList part).utf8ByteSize then .error .nameTooLong
  else .ok (String.ofList part :: start)

theorem onward_cases {start next : Place} {part : List Char} (h : onward start part = .ok next) :
    next = start ∨ (part = ['.', '.'] ∧ next = start.drop 1) ∨
      next = String.ofList part :: start := by
  unfold onward at h
  split at h
  · exact .inl (Except.ok.inj h).symm
  · split at h
    · exact .inr (.inl ⟨‹_›, (Except.ok.inj h).symm⟩)
    · split at h
      · cases h
      · exact .inr (.inr (Except.ok.inj h).symm)

theorem follow_cons (d : Disk) (start : Place) (part : List Char) (parts : List (List Char)) :
    d.follow start (part :: parts) =
      d.requireDirectory start >>= fun _ => onward start part >>= fun next =>
        d.follow next parts := by
  rw [follow]
  cases d.requireDirectory start with
  | error e => rfl
  | ok _ =>
    unfold onward
    simp only [bind, Except.bind]
    split
    · rfl
    · split
      · rfl
      · split <;> rfl

theorem follow_cons_ok {d : Disk} {start place : Place} {part : List Char}
    {parts : List (List Char)} : d.follow start (part :: parts) = .ok place ↔
      d.find? start = some .directory ∧
        ∃ next, onward start part = .ok next ∧ d.follow next parts = .ok place := by
  rw [follow_cons, ← requireDirectory_ok]
  cases d.requireDirectory start with
  | error e => simp [bind, Except.bind]
  | ok _ => cases onward start part <;> simp [bind, Except.bind]

theorem follow_append (d : Disk) (place : Place) (parts rest : List (List Char)) :
    d.follow place (parts ++ rest) =
      d.follow place parts >>= fun reached => d.follow reached rest := by
  induction parts generalizing place with
  | nil => rfl
  | cons part parts ih =>
    rw [List.cons_append, follow_cons, follow_cons]
    cases d.requireDirectory place with
    | error e => rfl
    | ok _ =>
      cases onward place part with
      | error e => rfl
      | ok next => exact ih next

/-- A path that ends with a name leads to a place of that name. -/
theorem follow_name {d : Disk} {start place : Place} {before : List (List Char)} {name : List Char}
    (h : d.follow start (before ++ [name]) = .ok place) (idle : Path.isIdle name = false)
    (up : name ≠ ['.', '.']) : ∃ directory, place = String.ofList name :: directory := by
  rw [follow_append] at h
  cases reached : d.follow start before with
  | error e => simp [reached, bind, Except.bind] at h
  | ok directory =>
    refine ⟨directory, ?_⟩
    rw [reached] at h
    obtain ⟨-, next, led, ends⟩ := follow_cons_ok.mp h
    obtain rfl : next = place := Except.ok.inj ends
    unfold onward at led
    rw [if_neg (by simp [idle]), if_neg up] at led
    split at led
    · cases led
    · exact (Except.ok.inj led).symm

theorem locate_child {d : Disk} {directory : Path} {name : String} {place : Place}
    (h : d.locate (directory.child name) = .ok place) (slash : '/' ∉ name.toList)
    (idle : Path.isIdle name.toList = false) (up : name.toList ≠ ['.', '.']) :
    ∃ outer, place = name :: outer := by
  obtain ⟨before, parts, -⟩ := directory.child_parts slash
  unfold locate at h
  split at h
  · cases h
  · split at h
    · cases h
    · split at h
      · cases h
      · rw [parts] at h
        obtain ⟨outer, rfl⟩ := follow_name h idle up
        exact ⟨outer, by rw [String.ofList_toList]⟩

/-! ## Growing disks -/

/-- Directories stay directories, and paths start from the same place. -/
structure Grows (d e : Disk) : Prop where
  workingPlace : e.workingPlace = d.workingPlace
  directories : ∀ place, d.find? place = some .directory → e.find? place = some .directory

theorem Grows.refl (d : Disk) : d.Grows d := ⟨rfl, fun _ h => h⟩

theorem Grows.trans {d e f : Disk} (first : d.Grows e) (last : e.Grows f) : d.Grows f :=
  ⟨last.workingPlace.trans first.workingPlace,
    fun place h => last.directories place (first.directories place h)⟩

theorem Grows.put {d : Disk} {place : Place} (free : d.find? place ≠ some .directory)
    (entry : DiskEntry) : d.Grows (d.put place entry) := by
  refine ⟨rfl, fun other h => ?_⟩
  have apart : other ≠ place := by
    rintro rfl
    exact free h
  rw [d.find?_put_of_ne apart]
  exact h

namespace Grows

variable {d e : Disk} (grows : d.Grows e)
include grows

theorem follow {start place : Place} {parts : List (List Char)}
    (h : d.follow start parts = .ok place) : e.follow start parts = .ok place := by
  induction parts generalizing start with
  | nil => exact h
  | cons part parts ih =>
    obtain ⟨there, next, led, later⟩ := follow_cons_ok.mp h
    exact follow_cons_ok.mpr ⟨grows.directories start there, next, led, ih later⟩

/-- A path that leads somewhere leads there for good. -/
theorem locate {p : Path} {place : Place} (h : d.locate p = .ok place) :
    e.locate p = .ok place := by
  unfold Disk.locate at h ⊢
  rw [grows.workingPlace]
  split at h
  · cases h
  · split at h
    · cases h
    · split at h
      · cases h
      · rename_i some_text no_zero short
        rw [if_neg some_text, if_neg no_zero, if_neg short]
        exact grows.follow h

theorem isDirectory {p : Path} (h : d.isDirectory p = true) : e.isDirectory p = true := by
  obtain ⟨place, there, found⟩ := isDirectory_iff.mp h
  exact isDirectory_iff.mpr ⟨place, grows.locate there, grows.directories place found⟩

end Grows

end Disk

end ModularSynth
