-- Whole numbers in JSON texts, as bytes: written in decimal, they are read back as they were, so
-- long as nothing follows that would go on with the number.
import Mathlib.Data.List.Basic
import ModularSynth.Proofs.JsonStrings

namespace ModularSynth.Json

/-! ## Digits -/

/-- The bytes of a number in decimal. -/
def digitBytes (n : Nat) : List UInt8 :=
  (Nat.toDigits 10 n).map fun c => c.toNat.toUInt8

theorem isDigit_range {c : Char} (h : c.isDigit) : 0x30 ≤ c.toNat ∧ c.toNat ≤ 0x39 := by
  simp only [Char.isDigit, Bool.and_eq_true, decide_eq_true_eq, ge_iff_le,
    UInt32.le_iff_toNat_le] at h
  exact h

theorem isDigit_of_mem {n : Nat} {c : Char} (h : c ∈ Nat.toDigits 10 n) : c.isDigit :=
  Nat.isDigit_of_mem_toDigits (b := 10) (by decide) (by decide) h

theorem utf8EncodeChar_digit {c : Char} (h : c.isDigit) :
    String.utf8EncodeChar c = [c.toNat.toUInt8] := by
  have range := isDigit_range h
  have small : c.val.toNat ≤ 127 := Nat.le_trans range.2 (by decide)
  unfold String.utf8EncodeChar
  simp only [if_pos small]
  rfl

theorem utf8_repr (n : Nat) : n.repr.toUTF8.toList = digitBytes n := by
  rw [Nat.repr_eq_ofList_toDigits, utf8_ofList]
  unfold digitBytes
  rw [List.map_eq_flatMap]
  apply List.flatMap_congr
  intro c mem
  exact utf8EncodeChar_digit (isDigit_of_mem mem)

theorem isDigit_digitBytes (n : Nat) : ∀ b ∈ digitBytes n, isDigit b := by
  intro b mem
  obtain ⟨c, digit, rfl⟩ := List.mem_map.mp mem
  have range := isDigit_range (isDigit_of_mem digit)
  unfold isDigit
  simp only [Bool.and_eq_true, decide_eq_true_eq, UInt8.le_iff_toNat_le, Nat.toUInt8_eq,
    UInt8.toNat_ofNat', UInt8.reduceToNat]
  omega

theorem digitBytes_ne_nil (n : Nat) : digitBytes n ≠ [] := by
  unfold digitBytes
  rw [ne_eq, List.map_eq_nil_iff]
  exact Nat.toDigits_ne_nil

theorem ofDigits_digitBytes (n : Nat) : ofDigits (digitBytes n) = n := by
  have spelt := @Nat.ofDigitChars_ten_toDigits n
  rw [Nat.ofDigitChars_eq_foldl] at spelt
  unfold ofDigits digitBytes
  rw [List.foldl_map]
  refine Eq.trans ?_ spelt
  apply List.foldl_ext
  intro sofar c mem
  have range := isDigit_range (isDigit_of_mem mem)
  rw [Nat.toUInt8_eq, UInt8.toNat_ofNat', Nat.mod_eq_of_lt (by omega), Nat.mul_comm]
  rfl

theorem digitBytes_eq_if (n : Nat) :
    digitBytes n = if n < 10 then [n.digitChar.toNat.toUInt8]
      else digitBytes (n / 10) ++ [(n % 10).digitChar.toNat.toUInt8] := by
  unfold digitBytes
  rw [Nat.toDigits_eq_if (by decide)]
  split
  · rfl
  · rw [List.map_append]
    rfl

theorem zero_of_digit : ∀ n < 10, n.digitChar.toNat.toUInt8 = 0x30 → n = 0 := by
  decide

/-- No decimal number but zero begins with a zero. -/
theorem digitBytes_head {n : Nat} (h : n ≠ 0) : (digitBytes n).head? ≠ some 0x30 := by
  induction n using Nat.strongRecOn with
  | _ n ih =>
    rw [digitBytes_eq_if]
    split
    · rename_i small
      rw [List.head?_cons, ne_eq, Option.some.injEq]
      intro zero
      exact h (zero_of_digit n small zero)
    · rw [List.head?_append_of_ne_nil _ (digitBytes_ne_nil (n / 10))]
      exact ih (n / 10) (by omega) (by omega)

/-- No decimal number has a zero before other digits. -/
theorem digitBytes_no_leading_zero (n : Nat) :
    ¬((digitBytes n).length > 1 ∧ (digitBytes n).head? = some 0x30) := by
  rintro ⟨long, zero⟩
  rcases Nat.eq_zero_or_pos n with rfl | positive
  · exact absurd long (by decide)
  · exact digitBytes_head (by omega) zero

/-! ## Numbers -/

/-- Do these bytes not go on with a number? -/
def EndsNumber (rest : List UInt8) : Prop :=
  ∀ b ∈ rest.head?, isDigit b = false ∧ b ≠ 0x2e ∧ b ≠ 0x65 ∧ b ≠ 0x45

/-- The bytes of a number with a sign if it is below zero. -/
def integerBytes (n : Int) : List UInt8 :=
  (if n < 0 then [0x2d] else []) ++ digitBytes n.natAbs

theorem utf8_toString (n : Int) : (toString n).toUTF8.toList = integerBytes n := by
  have same : toString n = n.repr := rfl
  unfold integerBytes
  rw [same, Int.repr_eq_if]
  split
  · rename_i nonneg
    rw [if_neg (by omega), utf8_repr, List.nil_append]
    congr 1
    omega
  · rename_i negative
    have sign : "-".toUTF8.toList = [0x2d] := (utf8_ofList ['-']).trans (by decide)
    rw [if_pos (by omega), utf8_append, sign, utf8_repr]
    congr 2
    omega

section Reading

variable {rest : List UInt8} (ends : EndsNumber rest)
include ends

theorem lexDigits_digitBytes (n : Nat) :
    lexDigits (digitBytes n ++ rest) = some (digitBytes n, rest) := by
  have digits := isDigit_digitBytes n
  have none : rest.takeWhile isDigit = [] ∧ rest.dropWhile isDigit = rest := by
    rcases rest with _ | ⟨b, rest⟩
    · exact ⟨rfl, rfl⟩
    · have stops := (ends b rfl).1
      exact ⟨List.takeWhile_cons_of_neg (by simp [stops]),
        List.dropWhile_cons_of_neg (by simp [stops])⟩
  unfold lexDigits
  rw [List.takeWhile_append_of_pos digits, List.dropWhile_append_of_pos digits, none.1, none.2,
    List.append_nil]
  split
  · rename_i empty
    exact absurd empty (digitBytes_ne_nil n)
  · rfl

theorem skipFraction_of_ends : skipFraction rest = some (false, rest) := by
  unfold skipFraction
  split
  · exact absurd rfl (ends _ rfl).2.1
  · rfl

theorem skipExponent_of_ends : skipExponent rest = some (false, rest) := by
  unfold skipExponent
  split
  · have stops := (ends _ rfl).2.2
    rw [if_neg (by simp [stops])]
  · rfl

theorem lexNumber_integerBytes (n : Int) :
    lexNumber (integerBytes n ++ rest) = some (.integer n, rest) := by
  unfold lexNumber
  split
  rename_i negative digits same
  have sign : negative = decide (n < 0) ∧ digits = digitBytes n.natAbs ++ rest := by
    by_cases below : n < 0
    · rw [integerBytes, if_pos below] at same
      simp only [List.cons_append, Prod.mk.injEq] at same
      exact ⟨by rw [← same.1, decide_eq_true below], same.2.symm⟩
    · rw [integerBytes, if_neg below, List.nil_append] at same
      split at same
      · rename_i more minus
        -- a minus is no digit
        have mem : 0x2d ∈ digitBytes n.natAbs := by
          cases form : digitBytes n.natAbs with
          | nil => exact absurd form (digitBytes_ne_nil _)
          | cons d ds =>
            rw [form, List.cons_append, List.cons.injEq] at minus
            rw [minus.1]
            exact List.mem_cons_self
        exact absurd (isDigit_digitBytes _ _ mem) (by decide)
      · simp only [Prod.mk.injEq] at same
        exact ⟨by rw [← same.1, decide_eq_false below], same.2.symm⟩
  obtain ⟨rfl, rfl⟩ := sign
  rw [lexDigits_digitBytes ends]
  simp only [Option.bind_eq_bind, Option.bind_some]
  rw [if_neg (digitBytes_no_leading_zero _), skipFraction_of_ends ends]
  simp only [Option.bind_some]
  rw [skipExponent_of_ends ends]
  simp only [Option.bind_some, ofDigits_digitBytes, Bool.false_or, decide_eq_true_eq]
  rw [if_neg]
  · congr 3
    split <;> omega
  · simp only [Bool.and_eq_true, decide_eq_true_eq, beq_iff_eq]
    omega

end Reading

end ModularSynth.Json
