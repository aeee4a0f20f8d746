-- The parameter values of a unit, by name. Names stand in order and at most once, so
-- two settings with the same values are equal; a name that is missing reads as zero.
namespace ModularSynth

/-- Names in strictly rising order. -/
def NamesRise (entries : List (String × Int)) : Prop :=
  entries.Pairwise (fun a b => a.1 < b.1)

/-- Parameter values by name, in the order of the names. -/
structure Settings where
  entries : List (String × Int) := []
  names_rise : NamesRise entries := by exact List.Pairwise.nil

namespace Settings

instance : DecidableEq Settings := fun a b =>
  match a, b with
  | ⟨xs, _⟩, ⟨ys, _⟩ =>
    if h : xs = ys then isTrue (by subst h; rfl) else isFalse (by intro e; cases e; exact h rfl)

instance : Inhabited Settings := ⟨{}⟩

/-! ## Entries -/

/-- Put an entry at its place among entries whose names rise. -/
def putEntry (name : String) (value : Int) : List (String × Int) → List (String × Int)
  | [] => [(name, value)]
  | (n, v) :: rest =>
    if name < n then (name, value) :: (n, v) :: rest
    else if name = n then (name, value) :: rest
    else (n, v) :: putEntry name value rest

theorem mem_putEntry {name : String} {value : Int} {entries : List (String × Int)}
    {e : String × Int} (h : e ∈ putEntry name value entries) :
    e = (name, value) ∨ e ∈ entries := by
  induction entries with
  | nil => simpa [putEntry] using h
  | cons head rest ih =>
    obtain ⟨n, v⟩ := head
    simp only [putEntry] at h
    split at h
    · simpa using h
    · split at h
      · rcases List.mem_cons.mp h with h | h
        · exact .inl h
        · exact .inr (List.mem_cons_of_mem _ h)
      · rcases List.mem_cons.mp h with h | h
        · exact .inr (h ▸ List.mem_cons_self)
        · exact (ih h).imp id (List.mem_cons_of_mem _)

theorem putEntry_names_rise (name : String) (value : Int) {entries : List (String × Int)}
    (h : NamesRise entries) : NamesRise (putEntry name value entries) := by
  induction entries with
  | nil => exact List.pairwise_singleton _ _
  | cons head rest ih =>
    obtain ⟨n, v⟩ := head
    have ⟨below, rises⟩ := List.pairwise_cons.mp h
    simp only [putEntry]
    split
    · rename_i lt
      refine List.pairwise_cons.mpr ⟨fun e he => ?_, h⟩
      rcases List.mem_cons.mp he with he | he
      · exact he ▸ lt
      · exact String.lt_trans lt (below e he)
    · split
      · rename_i eq
        subst eq
        exact List.pairwise_cons.mpr ⟨below, rises⟩
      · rename_i not_lt ne
        refine List.pairwise_cons.mpr ⟨fun e he => ?_, ih rises⟩
        rcases mem_putEntry he with he | he
        · subst he
          exact Std.lt_of_le_of_ne (Std.not_lt.mp not_lt) (Ne.symm ne)
        · exact below e he

/-! ## Reading and changing -/

/-- The value of a name, if it is set. -/
def get? (s : Settings) (name : String) : Option Int :=
  s.entries.lookup name

/-- The value of a name; zero if it is not set. -/
def get (s : Settings) (name : String) : Int :=
  (s.get? name).getD 0

def contains (s : Settings) (name : String) : Bool :=
  (s.get? name).isSome

def set (s : Settings) (name : String) (value : Int) : Settings :=
  ⟨putEntry name value s.entries, putEntry_names_rise name value s.names_rise⟩

def erase (s : Settings) (name : String) : Settings :=
  ⟨s.entries.filter (·.1 != name), List.Pairwise.filter _ s.names_rise⟩

/-- Set each entry in turn, so that the last of a name stays. -/
def ofEntries (entries : List (String × Int)) : Settings :=
  entries.foldl (fun s e => s.set e.1 e.2) {}

/-- Replace an entry by the one of another name, from which its value is taken away. Values
wrap around at 32 bits. -/
def foldNegative (s : Settings) (negative positive : String) : Settings :=
  match s.get? negative with
  | none => s
  | some n => let s := s.erase negative; s.set positive ((s.get positive - n).bmod (1 <<< 32))

/-- Old patches describe an inverted filter band by a parameter of its own. -/
def foldLegacy (s : Settings) : Settings :=
  (s.foldNegative "negbandpass" "bandpass").foldNegative "neghighpass" "highpass"

end Settings

end ModularSynth
