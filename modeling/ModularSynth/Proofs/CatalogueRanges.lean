-- Patches that keep to the catalogue: their active units set only parameters of their own
-- kind, and only to values in range. A parameter that is not set reads as zero, which is in
-- the range of every parameter that counts.
import ModularSynth.Patch.Basic

namespace ModularSynth

/-! ## Patches that keep to the catalogue -/

/-- The unit sets only parameters of its kind, each to a value in range. -/
def PatchUnit.InCatalogue (u : PatchUnit) : Prop :=
  ∀ entry ∈ u.settings.entries, ∃ kind ∈ u.kind?, ∃ p ∈ kind.params,
    p.name = entry.1 ∧ p.min ≤ entry.2 ∧ entry.2 ≤ p.max

instance (u : PatchUnit) : Decidable u.InCatalogue :=
  inferInstanceAs (Decidable (∀ entry ∈ u.settings.entries, ∃ kind ∈ u.kind?,
    ∃ p ∈ kind.params, p.name = entry.1 ∧ p.min ≤ entry.2 ∧ entry.2 ≤ p.max))

/-- The lowest byte of the stereo parameter is the flag that the parameter is read as. -/
def PatchUnit.StereoFits (u : PatchUnit) : Prop :=
  u.param "stereo" = 1 ∨ u.param "stereo" % 256 = 0

instance (u : PatchUnit) : Decidable u.StereoFits :=
  inferInstanceAs (Decidable (_ ∨ _))

theorem PatchUnit.StereoFits.of_flag {u : PatchUnit}
    (h : u.param "stereo" = 0 ∨ u.param "stereo" = 1) : u.StereoFits := by
  unfold StereoFits
  omega

namespace Patch

/-- Something holds of every active unit. -/
def EachActive (patch : Patch) (P : PatchUnit → Prop) : Prop :=
  ∀ i ∈ patch.instruments, ∀ u ∈ i.units, u.isActive = true → P u

instance (patch : Patch) (P : PatchUnit → Prop) [DecidablePred P] :
    Decidable (patch.EachActive P) :=
  inferInstanceAs (Decidable (∀ i ∈ patch.instruments, ∀ u ∈ i.units, u.isActive = true → P u))

/-- Every active unit keeps to the catalogue. -/
def InCatalogue (patch : Patch) : Prop :=
  patch.EachActive PatchUnit.InCatalogue

/-- Every active unit is said to be in mono or in stereo. -/
def StereoFlags (patch : Patch) : Prop :=
  patch.EachActive fun u => u.param "stereo" = 0 ∨ u.param "stereo" = 1

instance (patch : Patch) : Decidable patch.InCatalogue :=
  inferInstanceAs (Decidable (patch.EachActive PatchUnit.InCatalogue))

instance (patch : Patch) : Decidable patch.StereoFlags :=
  inferInstanceAs (Decidable (patch.EachActive fun u =>
    u.param "stereo" = 0 ∨ u.param "stereo" = 1))

/-- The stereo parameters of all active units fit. -/
def StereoFits (patch : Patch) : Prop :=
  patch.EachActive PatchUnit.StereoFits

instance (patch : Patch) : Decidable patch.StereoFits :=
  inferInstanceAs (Decidable (patch.EachActive PatchUnit.StereoFits))

theorem StereoFlags.fits {patch : Patch} (h : patch.StereoFlags) : patch.StereoFits :=
  fun i hi u hu active => .of_flag (h i hi u hu active)

theorem EachActive.of_unit {patch : Patch} {P : PatchUnit → Prop} (h : patch.EachActive P)
    {i k : Nat} {u : PatchUnit} (hu : patch.unit? i k = some u) (active : u.isActive = true) :
    P u := by
  unfold unit? at hu
  obtain ⟨instrument, hi, hk⟩ := Option.bind_eq_some_iff.mp hu
  exact h instrument (List.mem_of_getElem? hi) u (List.mem_of_getElem? hk) active

end Patch

/-! ## Ranges -/

namespace PatchUnit.InCatalogue

variable {u : PatchUnit} {kind : UnitKind}

/-- A parameter is zero or one of the unit's kind, in its range. -/
theorem param_range (h : u.InCatalogue) (hk : u.kind? = some kind) (name : String) :
    u.param name = 0 ∨
      ∃ p ∈ kind.params, p.name = name ∧ p.min ≤ u.param name ∧ u.param name ≤ p.max := by
  unfold param Settings.get Settings.get?
  cases hl : u.settings.entries.lookup name with
  | none => exact .inl rfl
  | some value =>
    obtain ⟨before, after, hs, -⟩ := List.lookup_eq_some_iff.mp hl
    obtain ⟨kind', hk', p, hp, hn, lo, hi⟩ := h (name, value) (by rw [hs]; simp)
    rw [Option.mem_def, hk] at hk'
    cases hk'
    exact .inr ⟨p, hp, hn, lo, hi⟩

/-- The value of a parameter is in every range that holds zero and the range of the
parameter. -/
theorem param_bounds (h : u.InCatalogue) (hk : u.kind? = some kind) (name : String)
    (lo hi : Int) (range : ∀ p ∈ kind.params, p.name = name → lo ≤ p.min ∧ p.max ≤ hi)
    (zero : lo ≤ 0 ∧ 0 ≤ hi) : lo ≤ u.param name ∧ u.param name ≤ hi := by
  rcases h.param_range hk name with h0 | ⟨p, hp, hn, hlo, hhi⟩
  · rw [h0]
    exact zero
  · have := range p hp hn
    omega

theorem stereo_flag (h : u.InCatalogue) : u.param "stereo" = 0 ∨ u.param "stereo" = 1 := by
  cases hk : u.kind? with
  | none =>
    left
    unfold param Settings.get Settings.get?
    cases hl : u.settings.entries.lookup "stereo" with
    | none => rfl
    | some value =>
      obtain ⟨before, after, hs, -⟩ := List.lookup_eq_some_iff.mp hl
      obtain ⟨kind', hk', -⟩ := h ("stereo", value) (by rw [hs]; simp)
      simp [hk] at hk'
  | some kind =>
    have := h.param_bounds hk "stereo" 0 1 (by cases kind <;> decide) (by decide)
    omega

end PatchUnit.InCatalogue

theorem Patch.InCatalogue.stereoFlags {patch : Patch} (h : patch.InCatalogue) :
    patch.StereoFlags := fun i hi u hu active => (h i hi u hu active).stereo_flag

end ModularSynth
