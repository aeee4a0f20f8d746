-- Reading the JSON values that songs are written as. Each record is written field by field, and a
-- field is left out only where what stands for a missing one is its value; so every part of a song,
-- and the song itself, is read as it was written.
import ModularSynth.Proofs.JsonValues
import ModularSynth.Proofs.ReadSongs
import ModularSynth.SongFile.Json

namespace ModularSynth.SongFile

open ModularSynth.Json

/-- Does a reading give this value, however many references may still be followed? -/
def Reads (r : Reading β) (b : β) : Prop :=
  ∀ left, r.run left = some (b, left)

namespace Reads

variable {α β γ : Type}

theorem pure (b : β) : Reads (pure b) b := by
  intro left
  rw [StateT.run_pure]
  rfl

theorem bind {x : Reading γ} {c : γ} {f : γ → Reading β} {b : β} (hx : Reads x c)
    (hf : Reads (f c) b) : Reads (x >>= f) b := by
  intro left
  rw [StateT.run_bind, hx left]
  exact hf left

theorem lift {o : Option β} {b : β} (h : o = some b) : Reads (liftM o : Reading β) b := by
  intro left
  rw [h]
  rfl

/-- Each of a list of values is read as what it was written for. -/
theorem mapM {read : α → Reading β} {write : γ → α} {f : γ → β} {cs : List γ}
    (h : ∀ c ∈ cs, Reads (read (write c)) (f c)) :
    Reads ((cs.map write).mapM read) (cs.map f) := by
  induction cs with
  | nil =>
    rw [List.map_nil, List.mapM_nil]
    exact .pure []
  | cons c cs ih =>
    rw [List.map_cons, List.mapM_cons]
    refine .bind (h c List.mem_cons_self) (.bind (ih fun c mem => ?_) (.pure _))
    exact h c (List.mem_cons_of_mem _ mem)

theorem within {r : Reading β} {b : β} (h : Reads r b) (limit : Nat) :
    r.within limit = some b := by
  unfold Reading.within
  rw [h limit]
  rfl

end Reads

/-! ## Values -/

theorem reads_text (s : String) : Reads (jsonDocument.text (.string s)) s :=
  .pure s

theorem reads_flag (b : Bool) : Reads (jsonDocument.flag (.bool b)) b :=
  .pure b

theorem reads_word {bits n : Nat} (h : n < 1 <<< bits) :
    Reads (jsonDocument.word bits (.natural n)) n := by
  unfold Document.word
  have natural : Reads (jsonDocument.natural (.natural n)) n := by
    intro left
    simp [jsonDocument, Value.natural]
  refine .bind natural ?_
  rw [if_pos h]
  exact .pure n

theorem reads_int32 {n : Int} (h : IsInt32 n) : Reads (jsonDocument.int32 (.integer n)) n := by
  unfold Document.int32
  unfold IsInt32 at h
  refine .bind (.pure n) ?_
  rw [if_pos h]
  exact .pure n

theorem reads_list {β γ : Type} {read : Value → Reading β} {write : γ → Value} {f : γ → β}
    {cs : List γ} (h : ∀ c ∈ cs, Reads (read (write c)) (f c)) :
    Reads (jsonDocument.list read (.array (cs.map write))) (cs.map f) := by
  unfold Document.list
  exact .bind (.pure _) (.mapM h)

theorem reads_each {β : Type} {read : Value → Reading β} {write : β → Value} {bs : List β}
    (h : ∀ b ∈ bs, Reads (read (write b)) b) :
    Reads (jsonDocument.list read (.array (bs.map write))) bs := by
  have each := reads_list (f := id) h
  rwa [List.map_id] at each

theorem namedMembers?_record (members : List (String × Value)) :
    namedMembers? (members.map fun m => (some m.1, m.2)) = some members := by
  unfold namedMembers?
  induction members with
  | nil => rfl
  | cons m members ih =>
    rw [List.map_cons, List.mapM_cons, ih]
    rfl

theorem reads_integers {ns : List Int} (h : ∀ n ∈ ns, IsInt32 n) :
    Reads (jsonDocument.list jsonDocument.int32 (integers ns)) ns :=
  reads_each fun n mem => reads_int32 (h n mem)

/-! ## Records -/

/-- A field as it is written: its name, its value, and whether it is left out. -/
structure WrittenField where
  leaveOut : Bool
  name : String
  value : Value

/-- The members that fields are written as. -/
def membersOf (parts : List WrittenField) : List (String × Value) :=
  parts.flatMap fun p => memberUnless p.leaveOut p.name p.value

/-- What is set for a field: its value, unless it was left out. -/
def WrittenField.set? (p : WrittenField) : Option Value :=
  if p.leaveOut then none else some p.value

/-- Is a field found by the name it is written with? -/
def FindsName (names : List FieldName) (name : String) : Prop :=
  (names.find? fun f => f.name == name || f.otherName == name).map (·.name) = some name

instance (names : List FieldName) (name : String) : Decidable (FindsName names name) :=
  inferInstanceAs (Decidable (_ = _))

/-- Members whose names differ and are names of fields all set their fields, and no others. -/
theorem setNamed_membersOf {names : List FieldName} {parts : List WrittenField}
    (found : ∀ p ∈ parts, FindsName names p.name) (distinct : (parts.map (·.name)).Nodup)
    (set : Fields Value) (fresh : ∀ p ∈ parts, set.lookup p.name = none) :
    ∃ fs, RecordForm.setNamed names set (membersOf parts) = some fs ∧
      (∀ p ∈ parts, fs.lookup p.name = p.set?) ∧
      ∀ name, (∀ p ∈ parts, p.name ≠ name) → fs.lookup name = set.lookup name := by
  induction parts generalizing set with
  | nil =>
    refine ⟨set, rfl, ?_, fun _ _ => rfl⟩
    intro p mem
    cases mem
  | cons p parts ih =>
    rw [List.map_cons, List.nodup_cons] at distinct
    have others : ∀ q ∈ parts, q.name ≠ p.name := by
      intro q mem same
      exact distinct.1 (List.mem_map.mpr ⟨q, mem, same⟩)
    have found' : ∀ q ∈ parts, FindsName names q.name :=
      fun q mem => found q (List.mem_cons_of_mem _ mem)
    have fresh' : ∀ q ∈ parts, set.lookup q.name = none :=
      fun q mem => fresh q (List.mem_cons_of_mem _ mem)
    have split : membersOf (p :: parts) =
        memberUnless p.leaveOut p.name p.value ++ membersOf parts := rfl
    rw [split]
    unfold memberUnless
    cases out : p.leaveOut with
    | true =>
      -- no later field has the name, so it is still not set in the end
      obtain ⟨fs, made, later, rest⟩ := ih found' distinct.2 set fresh'
      refine ⟨fs, made, ?_, ?_⟩
      · intro q mem
        rcases List.mem_cons.mp mem with rfl | mem
        · rw [rest _ others, fresh _ List.mem_cons_self, WrittenField.set?, if_pos out]
        · exact later q mem
      · intro name differ
        exact rest name fun q mem => differ q (List.mem_cons_of_mem _ mem)
    | false =>
      obtain ⟨f, finds, same⟩ := Option.map_eq_some_iff.mp (found p List.mem_cons_self)
      obtain ⟨fs, made, later, rest⟩ := ih found' distinct.2 ((p.name, p.value) :: set) (by
        intro q mem
        rw [List.lookup_cons, beq_eq_false_iff_ne.mpr (others q mem)]
        exact fresh' q mem)
      refine ⟨fs, ?_, ?_, ?_⟩
      · rw [if_neg Bool.false_ne_true, List.singleton_append, RecordForm.setNamed, finds]
        simp only [same, fresh p List.mem_cons_self]
        exact made
      · intro q mem
        rcases List.mem_cons.mp mem with rfl | mem
        · rw [rest _ others, List.lookup_cons, beq_self_eq_true, WrittenField.set?,
            if_neg (by simp [out])]
        · exact later q mem
      · intro name differ
        rw [rest name fun q mem => differ q (List.mem_cons_of_mem _ mem), List.lookup_cons,
          beq_eq_false_iff_ne.mpr (Ne.symm (differ p List.mem_cons_self))]

/-- Do the names that fields are written with differ, and is each field found by its own? -/
def Unambiguous (names : List FieldName) : Prop :=
  (names.map (·.name)).Nodup ∧ ∀ name ∈ names.map (·.name), FindsName names name

instance (names : List FieldName) : Decidable (Unambiguous names) :=
  inferInstanceAs (Decidable (_ ∧ _))

/-- The fields of a written record are set as they were written. -/
theorem reads_fields {names : List FieldName} (clear : Unambiguous names)
    {parts : List WrittenField} (inOrder : parts.map (·.name) = names.map (·.name)) :
    ∃ fs, Reads (jsonDocument.fields names (.record (membersOf parts))) fs ∧
      ∀ (i : Nat) p, parts[i]? = some p → fs.lookup p.name = p.set? := by
  have found : ∀ p ∈ parts, FindsName names p.name := by
    intro p mem
    apply clear.2
    rw [← inOrder]
    exact List.mem_map_of_mem mem
  obtain ⟨fs, made, set, -⟩ :=
    setNamed_membersOf found (inOrder ▸ clear.1) [] fun _ _ => rfl
  have record : Reads (jsonDocument.record (.record (membersOf parts)))
      (.named (membersOf parts)) :=
    .bind (.lift (namedMembers?_record _)) (.pure _)
  exact ⟨fs, .bind record (.lift made), fun i p at_i => set p (List.mem_of_getElem? at_i)⟩

/-- A field is read as it was written, if what stands for it is right where it is left out. -/
theorem reads_field {β : Type} {fs : Fields Value} {p : WrittenField}
    (set : fs.lookup p.name = p.set?) {missing b : β} {read : Value → Reading β}
    (omitted : p.leaveOut = true → missing = b) (written : Reads (read p.value) b) :
    Reads (Document.field fs p.name missing read) b := by
  unfold Document.field
  rw [set]
  unfold WrittenField.set?
  cases out : p.leaveOut with
  | true =>
    rw [← omitted out]
    exact .pure missing
  | false => exact written

/-! ## Songs and their parts -/

theorem reads_settings {s : Settings} (fits : s.AllValues IsInt32) (folded : s.IsFolded) :
    Reads (jsonDocument.settings (settingsToJson s)) s := by
  have entries : Reads (jsonDocument.map jsonDocument.int32 (settingsToJson s)) s.entries := by
    unfold Document.map settingsToJson
    refine .bind (.lift (namedMembers?_record _)) ?_
    have each : Reads ((s.entries.map fun e => (e.1, Value.integer e.2)).mapM fun e => do
        return (e.1, ← jsonDocument.int32 e.2)) (s.entries.map id) :=
      .mapM fun e mem => .bind (reads_int32 (fits e mem)) (.pure _)
    rwa [List.map_id] at each
  refine .bind entries ?_
  rw [Settings.ofEntries_entries, Settings.foldLegacy_of_isFolded folded]
  exact .pure s

/-- The fields of a unit as they are written. -/
def unitParts (u : PatchUnit) : List WrittenField :=
  [⟨u.kindName == "", "type", .string u.kindName⟩,
    ⟨u.id == 0, "id", .integer u.id⟩,
    ⟨false, "parameters", settingsToJson u.settings⟩,
    ⟨u.varArgs.isEmpty, "varargs", integers u.varArgs⟩,
    ⟨!u.disabled, "disabled", .bool u.disabled⟩,
    ⟨u.comment == "", "comment", .string u.comment⟩]

theorem unitToJson_eq (u : PatchUnit) : unitToJson u = .record (membersOf (unitParts u)) := by
  unfold unitToJson membersOf unitParts
  simp only [List.flatMap_cons, List.flatMap_nil, List.append_assoc, List.append_nil]
  rfl

/-- What is left out for being the default is the default. -/
theorem default_of_leftOut {β : Type} [BEq β] [LawfulBEq β] {b default : β}
    (out : (b == default) = true) : default = b :=
  (eq_of_beq out).symm

/-- A flag that is left out is off. -/
theorem off_of_leftOut {b : Bool} (out : (!b) = true) : false = b := by
  cases b with
  | false => rfl
  | true => cases out

theorem reads_unit {u : PatchUnit} (fits : u.Fits) (folded : u.settings.IsFolded) :
    Reads (jsonDocument.unit (unitToJson u)) u := by
  obtain ⟨fs, fields, set⟩ := reads_fields (by decide : Unambiguous unitFields)
    (rfl : (unitParts u).map (·.name) = _)
  rw [unitToJson_eq]
  unfold Document.unit
  refine .bind fields ?_
  refine .bind (reads_field (set 0 _ rfl) default_of_leftOut (reads_text u.kindName)) ?_
  refine .bind (reads_field (set 1 _ rfl) default_of_leftOut (reads_int32 fits.id)) ?_
  refine .bind (reads_field (set 2 _ rfl) nofun (reads_settings fits.settings folded)) ?_
  refine .bind (reads_field (set 3 _ rfl) ?_ (reads_integers fits.varArgs)) ?_
  · intro out
    exact (List.isEmpty_iff.mp out).symm
  refine .bind (reads_field (set 4 _ rfl) off_of_leftOut (reads_flag u.disabled)) ?_
  refine .bind (reads_field (set 5 _ rfl) default_of_leftOut (reads_text u.comment)) ?_
  exact .pure u

/-- The fields of an instrument as they are written. -/
def instrumentParts (i : Instrument) : List WrittenField :=
  [⟨i.name == "", "name", .string i.name⟩,
    ⟨i.comment == "", "comment", .string i.comment⟩,
    ⟨false, "numvoices", .natural i.numVoices⟩,
    ⟨!i.mute, "mute", .bool i.mute⟩,
    ⟨i.coreMaskLessOne == 0, "threadmaskm1", .natural i.coreMaskLessOne.toNat⟩,
    ⟨false, "units", .array (i.units.map unitToJson)⟩]

theorem instrumentToJson_eq (i : Instrument) :
    instrumentToJson i = .record (membersOf (instrumentParts i)) := by
  unfold instrumentToJson membersOf instrumentParts
  simp only [List.flatMap_cons, List.flatMap_nil, List.append_assoc, List.append_nil]
  rfl

theorem reads_instrument {i : Instrument} (fits : i.Fits) (folded : i.IsFolded) :
    Reads (jsonDocument.instrument (instrumentToJson i)) i := by
  obtain ⟨fs, fields, set⟩ := reads_fields (by decide : Unambiguous instrumentFields)
    (rfl : (instrumentParts i).map (·.name) = _)
  rw [instrumentToJson_eq]
  unfold Document.instrument
  refine .bind fields ?_
  refine .bind (reads_field (set 0 _ rfl) default_of_leftOut (reads_text i.name)) ?_
  refine .bind (reads_field (set 1 _ rfl) default_of_leftOut (reads_text i.comment)) ?_
  refine .bind (reads_field (set 2 _ rfl) nofun (reads_word fits.numVoices)) ?_
  refine .bind (reads_field (set 3 _ rfl) off_of_leftOut (reads_flag i.mute)) ?_
  refine .bind (reads_field (set 4 _ rfl) ?_ (reads_word i.coreMaskLessOne.toNat_lt)) ?_
  · intro out
    rw [eq_of_beq out]
    rfl
  refine .bind (reads_field (set 5 _ rfl) nofun
    (reads_each fun u mem => reads_unit (fits.units u mem) (folded u mem))) ?_
  rw [Nat.toUInt32_eq, UInt32.ofNat_toNat]
  exact .pure i

theorem reads_pattern (p : Pattern) :
    Reads (jsonDocument.pattern (.array (p.notes.map (.natural ·.toNat)))) p := by
  unfold Document.pattern
  refine .bind (reads_list fun note _ => reads_word note.toNat_lt) ?_
  have same : (p.notes.map (·.toNat)).map (·.toUInt8) = p.notes := by
    rw [List.map_map]
    apply List.map_id''
    intro note
    simp
  rw [same]
  exact .pure p

/-- The fields of a track as they are written. -/
def trackParts (t : Track) : List WrittenField :=
  [⟨false, "numvoices", .natural t.numVoices⟩,
    ⟨!t.effect, "effect", .bool t.effect⟩,
    ⟨false, "order", integers t.order.entries⟩,
    ⟨false, "patterns", .array (t.patterns.map fun p => .array (p.notes.map (.natural ·.toNat)))⟩]

theorem trackToJson_eq (t : Track) : trackToJson t = .record (membersOf (trackParts t)) := by
  unfold trackToJson membersOf trackParts
  simp only [List.flatMap_cons, List.flatMap_nil, List.append_assoc, List.append_nil]
  rfl

theorem reads_track {t : Track} (fits : t.Fits) : Reads (jsonDocument.track (trackToJson t)) t := by
  obtain ⟨fs, fields, set⟩ := reads_fields (by decide : Unambiguous trackFields)
    (rfl : (trackParts t).map (·.name) = _)
  rw [trackToJson_eq]
  unfold Document.track
  refine .bind fields ?_
  refine .bind (reads_field (set 0 _ rfl) nofun (reads_word fits.numVoices)) ?_
  refine .bind (reads_field (set 1 _ rfl) off_of_leftOut (reads_flag t.effect)) ?_
  have order : Reads (jsonDocument.order (integers t.order.entries)) t.order :=
    .bind (reads_integers fits.order) (.pure _)
  refine .bind (reads_field (set 2 _ rfl) nofun order) ?_
  refine .bind (reads_field (set 3 _ rfl) nofun (reads_each fun p _ => reads_pattern p)) ?_
  exact .pure t

/-- The fields of a score as they are written. -/
def scoreParts (s : Score) : List WrittenField :=
  [⟨false, "tracks", .array (s.tracks.map trackToJson)⟩,
    ⟨false, "rowsperpattern", .natural s.rowsPerPattern⟩,
    ⟨false, "length", .natural s.length⟩]

theorem reads_score {s : Score} (fits : s.Fits) : Reads (jsonDocument.score (scoreToJson s)) s := by
  obtain ⟨fs, fields, set⟩ := reads_fields (by decide : Unambiguous scoreFields)
    (rfl : (scoreParts s).map (·.name) = _)
  have written : scoreToJson s = .record (membersOf (scoreParts s)) := rfl
  rw [written]
  unfold Document.score
  refine .bind fields ?_
  refine .bind (reads_field (set 0 _ rfl) nofun
    (reads_each fun t mem => reads_track (fits.tracks t mem))) ?_
  refine .bind (reads_field (set 1 _ rfl) nofun (reads_word fits.rowsPerPattern)) ?_
  refine .bind (reads_field (set 2 _ rfl) nofun (reads_word fits.length)) ?_
  exact .pure s

/-- The fields of a song as they are written. -/
def songParts (s : Song) : List WrittenField :=
  [⟨false, "bpm", .natural s.bpm⟩,
    ⟨false, "rowsperbeat", .natural s.rowsPerBeat⟩,
    ⟨false, "score", scoreToJson s.score⟩,
    ⟨false, "patch", patchToJson s.patch⟩]

/-- A song is read as it was written. -/
theorem reads_song {s : Song} (fits : s.Fits) (folded : s.IsFolded) :
    Reads (jsonDocument.song (songToJson s)) s := by
  obtain ⟨fs, fields, set⟩ := reads_fields (by decide : Unambiguous songFields)
    (rfl : (songParts s).map (·.name) = _)
  have written : songToJson s = .record (membersOf (songParts s)) := rfl
  rw [written]
  unfold Document.song
  refine .bind fields ?_
  refine .bind (reads_field (set 0 _ rfl) nofun (reads_word fits.bpm)) ?_
  refine .bind (reads_field (set 1 _ rfl) nofun (reads_word fits.rowsPerBeat)) ?_
  refine .bind (reads_field (set 2 _ rfl) nofun (reads_score fits.score)) ?_
  have patch : Reads (jsonDocument.patch (patchToJson s.patch)) s.patch :=
    .bind (reads_each fun i mem => reads_instrument (fits.patch i mem) (folded i mem)) (.pure _)
  refine .bind (reads_field (set 3 _ rfl) nofun patch) ?_
  exact .pure s

/-! ## Texts -/

section Spelled

open Value

theorem spelled_record {members : List (String × Value)} (h : ∀ m ∈ members, m.2.Spelled) :
    (Value.record members).Spelled := by
  apply Spelled.object
  · intro m mem
    obtain ⟨m', _, rfl⟩ := List.mem_map.mp mem
    rfl
  · intro m mem
    obtain ⟨m', mem', rfl⟩ := List.mem_map.mp mem
    exact h m' mem'

theorem spelled_array {α : Type} {as : List α} {write : α → Value}
    (h : ∀ a ∈ as, (write a).Spelled) : (Value.array (as.map write)).Spelled := by
  apply Spelled.array
  intro v mem
  obtain ⟨a, mem', rfl⟩ := List.mem_map.mp mem
  exact h a mem'

theorem spelled_membersOf {parts : List WrittenField} (h : ∀ p ∈ parts, p.value.Spelled) :
    (Value.record (membersOf parts)).Spelled := by
  apply spelled_record
  intro m mem
  obtain ⟨p, part, mem⟩ := List.mem_flatMap.mp mem
  unfold memberUnless at mem
  split at mem
  · cases mem
  · rw [List.mem_singleton.mp mem]
    exact h p part

theorem spelled_integers (ns : List Int) : (integers ns).Spelled :=
  spelled_array fun n _ => .integer n

theorem spelled_unit (u : PatchUnit) : (unitToJson u).Spelled := by
  rw [unitToJson_eq]
  apply spelled_membersOf
  unfold unitParts
  simp only [List.forall_mem_cons]
  refine ⟨.text _, .integer _, ?_, spelled_integers _, .bool _, .text _, nofun⟩
  apply spelled_record
  intro m mem
  obtain ⟨e, _, rfl⟩ := List.mem_map.mp mem
  exact .integer e.2

theorem spelled_instrument (i : Instrument) : (instrumentToJson i).Spelled := by
  rw [instrumentToJson_eq]
  apply spelled_membersOf
  unfold instrumentParts
  simp only [List.forall_mem_cons]
  exact ⟨.text _, .text _, .integer _, .bool _, .integer _,
    spelled_array fun u _ => spelled_unit u, nofun⟩

theorem spelled_track (t : Track) : (trackToJson t).Spelled := by
  rw [trackToJson_eq]
  apply spelled_membersOf
  unfold trackParts
  simp only [List.forall_mem_cons]
  exact ⟨.integer _, .bool _, spelled_integers _,
    spelled_array fun p _ => spelled_array fun note _ => .integer _, nofun⟩

/-- Nothing of a song is lost in its text. -/
theorem spelled_song (s : Song) : (songToJson s).Spelled := by
  apply spelled_record
  simp only [List.forall_mem_cons]
  refine ⟨.integer _, .integer _, ?_, spelled_array fun i _ => spelled_instrument i, nofun⟩
  apply spelled_record
  simp only [List.forall_mem_cons]
  exact ⟨spelled_array fun t _ => spelled_track t, .integer _, .integer _, nofun⟩

end Spelled

end ModularSynth.SongFile
