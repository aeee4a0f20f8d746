-- Voices and the instruments that play them. The voices of an instrument come after each
-- other, and every voice of a patch belongs to one instrument.
import ModularSynth.Patch.Basic

namespace ModularSynth

namespace Patch

/-! ## Positions and their owners -/

theorem ownerOf_lt {sizes : List Nat} {position i : Nat} (h : ownerOf sizes position = some i) :
    i < sizes.length := by
  induction sizes generalizing position i with
  | nil => cases h
  | cons size sizes ih =>
    rw [ownerOf] at h
    split at h
    · cases h
      exact Nat.succ_pos _
    · obtain ⟨j, hj, rfl⟩ := Option.map_eq_some_iff.mp h
      exact Nat.succ_lt_succ (ih hj)

theorem ownerOf_isSome_iff (sizes : List Nat) (position : Nat) :
    (ownerOf sizes position).isSome = true ↔ position < total sizes := by
  induction sizes generalizing position with
  | nil => simp [ownerOf]
  | cons size sizes ih =>
    rw [ownerOf, total_cons]
    split
    · simp only [Option.isSome_some, true_iff]
      omega
    · rw [Option.isSome_map, ih]
      omega

/-- The first position is in the first element, if all elements take up positions. -/
theorem ownerOf_zero {sizes : List Nat} (hne : sizes ≠ []) (pos : ∀ n ∈ sizes, 1 ≤ n) :
    ownerOf sizes 0 = some 0 := by
  cases sizes with
  | nil => exact absurd rfl hne
  | cons size sizes =>
    have := pos size List.mem_cons_self
    rw [ownerOf, if_pos (by omega)]

/-- The next position is in the same element or in the next one. -/
theorem ownerOf_succ {sizes : List Nat} (pos : ∀ n ∈ sizes, 1 ≤ n) {position i : Nat}
    (h : ownerOf sizes position = some i) (hlt : position + 1 < total sizes) :
    ownerOf sizes (position + 1) = some i ∨ ownerOf sizes (position + 1) = some (i + 1) := by
  induction sizes generalizing position i with
  | nil => cases h
  | cons size sizes ih =>
    have later : ∀ n ∈ sizes, 1 ≤ n := fun n hn => pos n (List.mem_cons_of_mem _ hn)
    rw [total_cons] at hlt
    rw [ownerOf] at h ⊢
    split at h
    · cases h
      split
      · exact .inl rfl
      · right
        have first : position + 1 - size = 0 := by omega
        rw [first, ownerOf_zero (by rintro rfl; simp at hlt; omega) later]
        rfl
    · obtain ⟨j, hj, rfl⟩ := Option.map_eq_some_iff.mp h
      rw [if_neg (by omega), show position + 1 - size = position - size + 1 by omega]
      rcases ih later hj (by omega) with h | h <;> simp [h]

theorem ownerOf_total_take {sizes : List Nat} {t n x : Nat} (ht : sizes[t]? = some n) (hx : x < n) :
    ownerOf sizes (total (sizes.take t) + x) = some t := by
  induction sizes generalizing t with
  | nil => cases ht
  | cons size sizes ih =>
    cases t with
    | zero =>
      cases ht
      rw [List.take_zero, total_nil, Nat.zero_add, ownerOf, if_pos hx]
    | succ t =>
      rw [List.take_succ_cons, total_cons, ownerOf, if_neg (by omega),
        show size + total (sizes.take t) + x - size = total (sizes.take t) + x by omega, ih ht]
      rfl

/-- A position is in its owner at some offset. -/
theorem ownerOf_offset {sizes : List Nat} {position t : Nat} (h : ownerOf sizes position = some t) :
    ∃ n x, sizes[t]? = some n ∧ x < n ∧ position = total (sizes.take t) + x := by
  induction sizes generalizing position t with
  | nil => cases h
  | cons size sizes ih =>
    rw [ownerOf] at h
    split at h
    · rename_i inside
      cases h
      exact ⟨size, position, rfl, inside, by simp⟩
    · obtain ⟨j, hj, rfl⟩ := Option.map_eq_some_iff.mp h
      obtain ⟨n, x, hn, hx, place⟩ := ih hj
      refine ⟨n, x, by simpa using hn, hx, ?_⟩
      rw [List.take_succ_cons, total_cons]
      omega

/-- Every position belongs to one of the elements that the sizes are of. -/
theorem exists_owner {α : Type} (size : α → Nat) {xs : List α} {position : Nat}
    (inside : position < total (xs.map size)) :
    ∃ k x, xs[k]? = some x ∧ total ((xs.take k).map size) ≤ position ∧
      position < total ((xs.take k).map size) + size x := by
  obtain ⟨k, owner⟩ := Option.isSome_iff_exists.mp ((ownerOf_isSome_iff _ position).mpr inside)
  obtain ⟨n, offset, count, before, rfl⟩ := ownerOf_offset owner
  rw [List.getElem?_map] at count
  obtain ⟨x, hx, rfl⟩ := Option.map_eq_some_iff.mp count
  refine ⟨k, x, hx, ?_, ?_⟩
  · rw [List.map_take]
    omega
  · rw [List.map_take]
    omega

/-! ## The voices of a patch -/

variable {patch : Patch}

theorem instrumentForVoice_isSome_iff (patch : Patch) (voice : Nat) :
    (patch.instrumentForVoice voice).isSome = true ↔ voice < patch.numVoices :=
  ownerOf_isSome_iff _ voice

/-- The voices of an instrument come after each other, from its first voice on. -/
theorem instrumentForVoice_eq {t : Nat} {instrument : Instrument}
    (ht : patch.instruments[t]? = some instrument) {x : Nat} (hx : x < instrument.numVoices) :
    patch.instrumentForVoice (patch.firstVoice t + x) = some t := by
  rw [instrumentForVoice, firstVoice, List.map_take]
  exact ownerOf_total_take (by simp [ht]) hx

/-- A voice is one of its instrument's. -/
theorem voice_offset {voice t : Nat} (h : patch.instrumentForVoice voice = some t) :
    ∃ instrument x, patch.instruments[t]? = some instrument ∧ x < instrument.numVoices ∧
      voice = patch.firstVoice t + x := by
  obtain ⟨n, x, hn, hx, place⟩ := ownerOf_offset h
  rw [List.getElem?_map] at hn
  obtain ⟨instrument, ht, rfl⟩ := Option.map_eq_some_iff.mp hn
  refine ⟨instrument, x, ht, hx, ?_⟩
  rw [place, firstVoice, List.map_take]

theorem voice_lt {voice i : Nat} (h : patch.instrumentForVoice voice = some i) :
    voice < patch.numVoices :=
  (patch.instrumentForVoice_isSome_iff voice).mp (by rw [h]; rfl)

/-- What each instrument counts for is counted once for each of its voices. -/
theorem total_owners (weight : Instrument → Nat) (instruments : List Instrument) :
    total ((List.range (total (instruments.map (·.numVoices)))).map fun voice =>
        ((ownerOf (instruments.map (·.numVoices)) voice >>= (instruments[·]?)).map
          weight).getD 0) =
      total (instruments.map fun i => i.numVoices * weight i) := by
  induction instruments with
  | nil => rfl
  | cons i rest ih =>
    rw [List.map_cons, total_cons, List.range_add, List.map_append, total_append, List.map_cons,
      total_cons, ← ih, List.map_map]
    congr 1
    · have first : ∀ voice ∈ List.range i.numVoices,
          ((ownerOf (i.numVoices :: rest.map (·.numVoices)) voice >>= ((i :: rest)[·]?)).map
            weight).getD 0 = weight i := by
        intro voice hv
        simp [ownerOf, List.mem_range.mp hv]
      rw [List.map_congr_left first, List.map_const', List.length_range, total_replicate]
    · refine congrArg total (List.map_congr_left fun voice _ => ?_)
      simp only [Function.comp_apply, ownerOf, Nat.add_sub_cancel_left,
        if_neg (Nat.not_lt.mpr (Nat.le_add_right i.numVoices voice))]
      cases ownerOf (rest.map (·.numVoices)) voice <;> rfl

end Patch

end ModularSynth
