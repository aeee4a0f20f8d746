-- The sum of a list of natural numbers.
namespace ModularSynth

def total (ns : List Nat) : Nat :=
  ns.foldr (· + ·) 0

@[simp]
theorem total_nil : total [] = 0 := rfl

@[simp]
theorem total_cons (n : Nat) (ns : List Nat) : total (n :: ns) = n + total ns := rfl

@[simp]
theorem total_append (a b : List Nat) : total (a ++ b) = total a + total b := by
  induction a with
  | nil => simp
  | cons n a ih => simp [ih, Nat.add_assoc]

@[simp]
theorem total_replicate (count n : Nat) : total (List.replicate count n) = count * n := by
  induction count with
  | zero => simp
  | succ count ih => simp [List.replicate_succ, ih, Nat.succ_mul, Nat.add_comm]

theorem total_le_of_sublist {xs ys : List Nat} (h : xs.Sublist ys) : total xs ≤ total ys := by
  induction h with
  | slnil => exact Nat.le_refl _
  | cons n _ ih => rw [total_cons]; omega
  | cons_cons n _ ih => rw [total_cons, total_cons]; omega

theorem total_map_le {α : Type} {f g : α → Nat} {xs : List α} (h : ∀ x ∈ xs, f x ≤ g x) :
    total (xs.map f) ≤ total (xs.map g) := by
  induction xs with
  | nil => exact Nat.le_refl _
  | cons x rest ih =>
    have here := h x List.mem_cons_self
    have later := ih fun y hy => h y (List.mem_cons_of_mem _ hy)
    rw [List.map_cons, List.map_cons, total_cons, total_cons]
    omega

theorem total_perm {xs ys : List Nat} (h : xs.Perm ys) : total xs = total ys := by
  induction h with
  | nil => rfl
  | cons n _ ih => rw [total_cons, total_cons, ih]
  | swap m n rest => simp only [total_cons]; omega
  | trans _ _ first later => exact first.trans later

end ModularSynth
