-- What parameter values are after they are put in, taken out, or folded from the names of old
-- patches. Folding is over once it is done: what it leaves, it leaves alone.
import ModularSynth.Patch.Settings

namespace ModularSynth

/-- A number of 32 bits with a sign. -/
def IsInt32 (n : Int) : Prop :=
  -0x80000000 ≤ n ∧ n ≤ 0x7fffffff

instance (n : Int) : Decidable (IsInt32 n) :=
  inferInstanceAs (Decidable (_ ∧ _))

namespace Settings

/-! ## Single names -/

theorem lookup_putEntry_of_ne {name other : String} (h : other ≠ name) (value : Int)
    (entries : List (String × Int)) :
    (putEntry name value entries).lookup other = entries.lookup other := by
  have differ := beq_eq_false_iff_ne.mpr h
  induction entries with
  | nil => simp [putEntry, h]
  | cons head rest ih =>
    obtain ⟨n, v⟩ := head
    unfold putEntry
    split
    · rw [List.lookup_cons, differ]
    · split
      · rename_i same
        subst same
        rw [List.lookup_cons, List.lookup_cons, differ]
      · rw [List.lookup_cons, List.lookup_cons, ih]

theorem get?_set_of_ne (s : Settings) {name other : String} (h : other ≠ name) (value : Int) :
    (s.set name value).get? other = s.get? other :=
  lookup_putEntry_of_ne h value s.entries

theorem get?_erase_self (s : Settings) (name : String) : (s.erase name).get? name = none := by
  unfold get? erase
  rw [List.lookup_eq_none_iff]
  intro e mem
  have kept := (List.mem_filter.mp mem).2
  simp at kept
  simp [Ne.symm kept]

theorem get?_erase_of_none (s : Settings) {name other : String} (h : s.get? other = none) :
    (s.erase name).get? other = none := by
  unfold get? at h ⊢
  rw [List.lookup_eq_none_iff] at h ⊢
  intro e mem
  exact h e (List.mem_filter.mp mem).1

/-! ## All entries -/

theorem putEntry_last {entries : List (String × Int)} {name : String}
    (below : ∀ e ∈ entries, e.1 < name) (value : Int) :
    putEntry name value entries = entries ++ [(name, value)] := by
  induction entries with
  | nil => rfl
  | cons head rest ih =>
    obtain ⟨n, v⟩ := head
    have lt : n < name := below _ List.mem_cons_self
    unfold putEntry
    rw [if_neg (String.lt_asymm lt), if_neg (by rintro rfl; exact String.lt_irrefl _ lt),
      ih fun e mem => below e (List.mem_cons_of_mem _ mem), List.cons_append]

/-- Entries whose names rise are put in one after the other. -/
theorem entries_foldl_set {entries : List (String × Int)} (s : Settings)
    (rise : NamesRise (s.entries ++ entries)) :
    (entries.foldl (fun s e => s.set e.1 e.2) s).entries = s.entries ++ entries := by
  induction entries generalizing s with
  | nil => simp
  | cons e entries ih =>
    have below : ∀ x ∈ s.entries, x.1 < e.1 := by
      intro x mem
      exact (List.pairwise_append.mp rise).2.2 x mem e List.mem_cons_self
    have put : (s.set e.1 e.2).entries = s.entries ++ [e] := putEntry_last below e.2
    rw [List.foldl_cons, ih, put, List.append_assoc, List.singleton_append]
    -- what is left is that names rise on from the longer list
    rw [put, List.append_assoc, List.singleton_append]
    exact rise

/-- Settings are made again from their entries. -/
theorem ofEntries_entries (s : Settings) : ofEntries s.entries = s := by
  have same : (ofEntries s.entries).entries = [] ++ s.entries :=
    entries_foldl_set {} s.names_rise
  obtain ⟨entries, rise⟩ := s
  cases made : ofEntries entries with
  | mk entries' rise' =>
    rw [made, List.nil_append] at same
    subst same
    rfl

section Values

variable {P : Int → Prop}

/-- Do all values pass a test? -/
def AllValues (P : Int → Prop) (s : Settings) : Prop :=
  ∀ e ∈ s.entries, P e.2

instance [DecidablePred P] (s : Settings) : Decidable (s.AllValues P) :=
  inferInstanceAs (Decidable (∀ e ∈ s.entries, P e.2))

theorem AllValues.set {s : Settings} (h : s.AllValues P) (name : String) {value : Int}
    (new : P value) : (s.set name value).AllValues P := by
  intro e mem
  rcases mem_putEntry mem with rfl | old
  · exact new
  · exact h e old

theorem AllValues.erase {s : Settings} (h : s.AllValues P) (name : String) :
    (s.erase name).AllValues P := by
  intro e mem
  exact h e (List.mem_filter.mp mem).1

theorem allValues_ofEntries {entries : List (String × Int)} (h : ∀ e ∈ entries, P e.2) :
    (ofEntries entries).AllValues P := by
  have folded : ∀ (entries : List (String × Int)) (s : Settings), (∀ e ∈ entries, P e.2) →
      s.AllValues P → (entries.foldl (fun s e => s.set e.1 e.2) s).AllValues P := by
    intro entries
    induction entries with
    | nil =>
      intro s _ all
      exact all
    | cons e entries ih =>
      intro s new all
      apply ih
      · intro e' mem
        exact new e' (List.mem_cons_of_mem _ mem)
      · exact all.set e.1 (new e List.mem_cons_self)
  apply folded entries {} h
  intro e mem
  cases mem

end Values

/-! ## Names of old patches -/

/-- Is neither name of old patches set? -/
def IsFolded (s : Settings) : Prop :=
  s.get? "negbandpass" = none ∧ s.get? "neghighpass" = none

instance (s : Settings) : Decidable s.IsFolded :=
  inferInstanceAs (Decidable (_ ∧ _))

theorem foldNegative_of_none {s : Settings} {negative : String} (h : s.get? negative = none)
    (positive : String) : s.foldNegative negative positive = s := by
  unfold foldNegative
  rw [h]

theorem get?_foldNegative_self (s : Settings) {negative positive : String}
    (h : negative ≠ positive) : (s.foldNegative negative positive).get? negative = none := by
  unfold foldNegative
  split
  · assumption
  · dsimp only
    rw [get?_set_of_ne _ h, get?_erase_self]

theorem get?_foldNegative_of_none {s : Settings} {negative positive other : String}
    (unset : s.get? other = none) (h : other ≠ positive) :
    (s.foldNegative negative positive).get? other = none := by
  unfold foldNegative
  split
  · exact unset
  · dsimp only
    rw [get?_set_of_ne _ h, get?_erase_of_none s unset]

/-- Folded settings stay as they are. -/
theorem foldLegacy_of_isFolded {s : Settings} (h : s.IsFolded) : s.foldLegacy = s := by
  unfold foldLegacy
  rw [foldNegative_of_none h.1, foldNegative_of_none h.2]

/-- Folding leaves neither name of old patches. -/
theorem isFolded_foldLegacy (s : Settings) : s.foldLegacy.IsFolded := by
  unfold foldLegacy
  constructor
  · apply get?_foldNegative_of_none
    · exact get?_foldNegative_self s (by decide)
    · decide
  · exact get?_foldNegative_self _ (by decide)

theorem isInt32_bmod (n : Int) : IsInt32 (n.bmod (1 <<< 32)) := by
  have below := @Int.bmod_lt n (1 <<< 32) (by decide)
  have above := @Int.le_bmod n (1 <<< 32) (by decide)
  have size : (1 <<< 32 : Nat) = 4294967296 := rfl
  unfold IsInt32
  rw [size] at below above ⊢
  omega

theorem allValues_foldNegative {s : Settings} (h : s.AllValues IsInt32)
    (negative positive : String) : (s.foldNegative negative positive).AllValues IsInt32 := by
  unfold foldNegative
  split
  · exact h
  · exact (h.erase negative).set positive (isInt32_bmod _)

theorem allValues_foldLegacy {s : Settings} (h : s.AllValues IsInt32) :
    s.foldLegacy.AllValues IsInt32 := by
  apply allValues_foldNegative
  exact allValues_foldNegative h _ _

end Settings

end ModularSynth
