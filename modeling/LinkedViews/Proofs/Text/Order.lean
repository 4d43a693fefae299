import LinkedViews.Text.Order
import Mathlib

/-! The order of texts is the lexicographic order of lists. -/
namespace LinkedViews.Text

theorem precedes_iff_le {a b : List Char} : precedes a b = true ↔ a ≤ b := by
  induction a generalizing b with
  | nil => cases b <;> simp [precedes, le_iff_lt_or_eq]
  | cons x as ih =>
    cases b with
    | nil => simp [precedes, le_iff_lt_or_eq]
    | cons y bs =>
      have less : x.toNat < y.toNat ↔ x < y := Iff.rfl
      rw [le_iff_lt_or_eq, List.cons_lt_cons_iff, List.cons.injEq, or_assoc, ← and_or_left,
        ← le_iff_lt_or_eq, ← ih, precedes]
      simp [less]

end LinkedViews.Text
