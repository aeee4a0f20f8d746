-- What is known of any song that is read, from whatever document: its numbers have the sizes that
-- its fields have, and no unit sets a name of old patches.
import ModularSynth.Proofs.LegacySettings
import ModularSynth.SongFile.Fields

namespace ModularSynth

/-! ## Sizes -/

/-- A number of 64 bits. -/
def IsWord64 (n : Nat) : Prop :=
  n < 1 <<< 64

instance (n : Nat) : Decidable (IsWord64 n) :=
  inferInstanceAs (Decidable (_ < _))

structure PatchUnit.Fits (u : PatchUnit) : Prop where
  id : IsInt32 u.id
  settings : u.settings.AllValues IsInt32
  varArgs : ∀ n ∈ u.varArgs, IsInt32 n

structure Instrument.Fits (i : Instrument) : Prop where
  numVoices : IsWord64 i.numVoices
  units : ∀ u ∈ i.units, u.Fits

structure Track.Fits (t : Track) : Prop where
  numVoices : IsWord64 t.numVoices
  order : ∀ n ∈ t.order.entries, IsInt32 n

structure Score.Fits (s : Score) : Prop where
  tracks : ∀ t ∈ s.tracks, t.Fits
  rowsPerPattern : IsWord64 s.rowsPerPattern
  length : IsWord64 s.length

/-- Do the numbers of a song have the sizes that its fields have? -/
structure Song.Fits (s : Song) : Prop where
  bpm : IsWord64 s.bpm
  rowsPerBeat : IsWord64 s.rowsPerBeat
  score : s.score.Fits
  patch : ∀ i ∈ s.patch.instruments, i.Fits

/-- Does no unit set a name of old patches? -/
def Instrument.IsFolded (i : Instrument) : Prop :=
  ∀ u ∈ i.units, u.settings.IsFolded

/-- Does no unit set a name of old patches? -/
def Song.IsFolded (s : Song) : Prop :=
  ∀ i ∈ s.patch.instruments, i.IsFolded

namespace SongFile

/-! ## Readings and what they yield -/

/-- Does every value that a reading gives pass a test? -/
def Yields (r : Reading β) (P : β → Prop) : Prop :=
  ∀ left b rest, r.run left = some (b, rest) → P b

namespace Yields

variable {α β γ : Type} {P : β → Prop} {Q : γ → Prop}

theorem any (r : Reading β) : Yields r fun _ => True :=
  fun _ _ _ _ => trivial

theorem pure {b : β} (h : P b) : Yields (pure b) P := by
  intro left c rest same
  rw [StateT.run_pure] at same
  cases same
  exact h

theorem failure : Yields (failure : Reading β) P := by
  intro left b rest same
  cases same

theorem bind {x : Reading γ} {f : γ → Reading β} (hx : Yields x Q)
    (hf : ∀ c, Q c → Yields (f c) P) : Yields (x >>= f) P := by
  intro left b rest same
  rw [StateT.run_bind] at same
  obtain ⟨⟨c, middle⟩, first, later⟩ := Option.bind_eq_some_iff.mp same
  exact hf c (hx _ _ _ first) _ _ _ later

theorem mapM {read : α → Reading β} (h : ∀ a, Yields (read a) P) (as : List α) :
    Yields (as.mapM read) fun bs => ∀ b ∈ bs, P b := by
  induction as with
  | nil =>
    rw [List.mapM_nil]
    exact pure (List.forall_mem_nil _)
  | cons a as ih =>
    rw [List.mapM_cons]
    refine bind (h a) fun b hb => bind ih fun bs hbs => pure ?_
    intro b' mem
    rcases List.mem_cons.mp mem with rfl | mem
    · exact hb
    · exact hbs b' mem

end Yields

/-! ## Fields -/

namespace Document

variable {α β : Type} {P : β → Prop} (d : Document α)

theorem yields_field {fs : Fields α} {name : String} {missing : β} {read : α → Reading β}
    (absent : P missing) (h : ∀ a, Yields (read a) P) :
    Yields (field fs name missing read) P := by
  unfold field
  split
  · exact .pure absent
  · exact h _

theorem yields_word (bits : Nat) (a : α) : Yields (d.word bits a) fun n => n < 1 <<< bits := by
  unfold word
  refine .bind (.any _) fun n _ => ?_
  split
  · rename_i small
    exact .pure small
  · exact .failure

theorem yields_int32 (a : α) : Yields (d.int32 a) IsInt32 := by
  unfold int32
  refine .bind (.any _) fun n _ => ?_
  split
  · rename_i small
    exact .pure small
  · exact .failure

theorem yields_list {read : α → Reading β} (h : ∀ a, Yields (read a) P) (a : α) :
    Yields (d.list read a) fun bs => ∀ b ∈ bs, P b := by
  unfold list
  exact .bind (.any _) fun as _ => .mapM h as

theorem yields_map {read : α → Reading β} (h : ∀ a, Yields (read a) P) (a : α) :
    Yields (d.map read a) fun es => ∀ e ∈ es, P e.2 := by
  unfold map
  refine .bind (.any _) fun members _ => .mapM (fun (key, v) => ?_) members
  exact .bind (h v) fun b hb => .pure hb

/-! ## Songs and their parts -/

theorem yields_settings (a : α) :
    Yields (d.settings a) fun s => s.AllValues IsInt32 ∧ s.IsFolded := by
  unfold settings
  refine .bind (d.yields_map d.yields_int32 a) fun entries small => .pure ?_
  constructor
  · exact Settings.allValues_foldLegacy (Settings.allValues_ofEntries small)
  · exact Settings.isFolded_foldLegacy _

theorem yields_unit (a : α) :
    Yields (d.unit a) fun u => u.Fits ∧ u.settings.IsFolded := by
  unfold unit
  refine .bind (.any _) fun fs _ => ?_
  refine .bind (.any _) fun kindName _ => ?_
  refine .bind (yields_field (by decide) d.yields_int32) fun id hid => ?_
  have none : (default : Settings).AllValues IsInt32 ∧ (default : Settings).IsFolded :=
    ⟨List.forall_mem_nil _, by decide⟩
  refine .bind (yields_field none d.yields_settings) fun settings hsettings => ?_
  refine .bind (yields_field (List.forall_mem_nil _) (d.yields_list d.yields_int32))
    fun varArgs hvarArgs => ?_
  refine .bind (.any _) fun disabled _ => .bind (.any _) fun comment _ => .pure ?_
  exact ⟨⟨hid, hsettings.1, hvarArgs⟩, hsettings.2⟩

theorem yields_instrument (a : α) :
    Yields (d.instrument a) fun i => i.Fits ∧ i.IsFolded := by
  unfold instrument
  refine .bind (.any _) fun fs _ => ?_
  refine .bind (.any _) fun name _ => .bind (.any _) fun comment _ => ?_
  refine .bind (yields_field (by decide) (d.yields_word 64)) fun numVoices hvoices => ?_
  refine .bind (.any _) fun mute _ => .bind (.any _) fun mask _ => ?_
  refine .bind (yields_field (List.forall_mem_nil _) (d.yields_list d.yields_unit))
    fun units hunits => .pure ?_
  exact ⟨⟨hvoices, fun u mem => (hunits u mem).1⟩, fun u mem => (hunits u mem).2⟩

theorem yields_track (a : α) : Yields (d.track a) Track.Fits := by
  unfold track
  refine .bind (.any _) fun fs _ => ?_
  refine .bind (yields_field (by decide) (d.yields_word 64)) fun numVoices hvoices => ?_
  refine .bind (.any _) fun effect _ => ?_
  have orders : ∀ a, Yields (d.order a) fun o => ∀ n ∈ o.entries, IsInt32 n := by
    intro a
    exact .bind (d.yields_list d.yields_int32 a) fun entries small => .pure small
  refine .bind (yields_field (List.forall_mem_nil _) orders) fun order horder => ?_
  exact .bind (.any _) fun patterns _ => .pure ⟨hvoices, horder⟩

theorem yields_score (a : α) : Yields (d.score a) Score.Fits := by
  unfold score
  refine .bind (.any _) fun fs _ => ?_
  refine .bind (yields_field (List.forall_mem_nil _) (d.yields_list d.yields_track))
    fun tracks htracks => ?_
  refine .bind (yields_field (by decide) (d.yields_word 64)) fun rows hrows => ?_
  refine .bind (yields_field (by decide) (d.yields_word 64)) fun length hlength => ?_
  exact .pure ⟨htracks, hrows, hlength⟩

/-- A song that is read fits its fields, and has been folded. -/
theorem yields_song (a : α) : Yields (d.song a) fun s => s.Fits ∧ s.IsFolded := by
  unfold song
  refine .bind (.any _) fun fs _ => ?_
  refine .bind (yields_field (by decide) (d.yields_word 64)) fun bpm hbpm => ?_
  refine .bind (yields_field (by decide) (d.yields_word 64)) fun rows hrows => ?_
  have empty : Score.Fits {} := ⟨List.forall_mem_nil _, by decide, by decide⟩
  refine .bind (yields_field empty d.yields_score) fun score hscore => ?_
  have patches : ∀ a, Yields (d.patch a) fun p => ∀ i ∈ p.instruments, i.Fits ∧ i.IsFolded := by
    intro a
    exact .bind (d.yields_list d.yields_instrument a) fun instruments h => .pure h
  refine .bind (yields_field (List.forall_mem_nil _) patches) fun patch hpatch => .pure ?_
  exact ⟨⟨hbpm, hrows, hscore, fun i mem => (hpatch i mem).1⟩, fun i mem => (hpatch i mem).2⟩

end Document

/-- A reading with a limit gives what the reading yields. -/
theorem Yields.within {r : Reading β} {P : β → Prop} (h : Yields r P) {limit : Nat} {b : β}
    (given : r.within limit = some b) : P b := by
  unfold Reading.within at given
  obtain ⟨⟨b', rest⟩, run, rfl⟩ := Option.map_eq_some_iff.mp given
  exact h limit b' rest run

end SongFile

end ModularSynth
