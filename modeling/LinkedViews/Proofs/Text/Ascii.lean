import LinkedViews.Proofs.Text.Utf8
import LinkedViews.Text.Decimal

/-! Numbers and ASCII as text. The digits of a number are read as that number, and a text of ASCII
characters has one byte for each of them. -/
namespace LinkedViews

namespace Decimal

theorem digit_facts : ∀ d < 10, isDigit (digit d) = true ∧ digitValue (digit d) = d := by decide

theorem isDigit_digit {d : Nat} (small : d < 10) : isDigit (digit d) = true :=
  (digit_facts d small).1

theorem isDigit_of_mem_digits {n : Nat} {c : Char} (member : c ∈ digits n) : isDigit c = true := by
  fun_induction digits n with
  | case1 n small =>
    obtain rfl := List.mem_singleton.mp member
    exact isDigit_digit small
  | case2 n _ ih =>
    rcases List.mem_append.mp member with front | last
    · exact ih front
    · obtain rfl := List.mem_singleton.mp last
      exact isDigit_digit (Nat.mod_lt n (by decide))

theorem digits_ne_nil (n : Nat) : digits n ≠ [] := by
  unfold digits
  split <;> simp

theorem value_append_singleton (text : List Char) (c : Char) :
    value (text ++ [c]) = value text * 10 + digitValue c := by
  simp [value]

theorem value_digits (n : Nat) : value (digits n) = n := by
  fun_induction digits n with
  | case1 n small =>
    have := (digit_facts n small).2
    simp [value, this]
  | case2 n _ ih =>
    have := (digit_facts (n % 10) (Nat.mod_lt n (by decide))).2
    rw [value_append_singleton, ih, this]
    omega

/-- A number has as many digits as it takes, and no more. -/
theorem length_digits_le {n k : Nat} (short : n < 10 ^ (k + 1)) : (digits n).length ≤ k + 1 := by
  induction k generalizing n with
  | zero =>
    have small : n < 10 := by simpa using short
    unfold digits
    simp [small]
  | succ k ih =>
    unfold digits
    split
    · simp
    · have shorter : n / 10 < 10 ^ (k + 1) :=
        Nat.div_lt_of_lt_mul (by rw [Nat.mul_comm, ← Nat.pow_succ]; exact short)
      have := ih shorter
      simp
      omega

theorem read?_digits {n : Nat} (small : n ≤ maxWord) : read? (digits n) = some n := by
  have fits : value (digits n) ≤ maxWord := by rwa [value_digits]
  have all : (digits n).all isDigit = true :=
    List.all_eq_true.mpr fun c member => isDigit_of_mem_digits member
  have found : (if digits n ≠ [] ∧ (digits n).all isDigit ∧ value (digits n) ≤ maxWord then
      some (value (digits n)) else none) = some n := by
    rw [if_pos ⟨digits_ne_nil n, all, fits⟩, value_digits]
  obtain ⟨c, rest, eq⟩ := List.exists_cons_of_ne_nil (digits_ne_nil n)
  have unsigned : c ≠ '+' := by
    rintro rfl
    have plus : isDigit '+' = true := isDigit_of_mem_digits (n := n) (by simp [eq])
    revert plus
    decide
  rw [eq] at found ⊢
  simpa [read?, unsigned] using found

end Decimal

namespace Utf8

def IsAscii (text : List Char) : Prop := ∀ c ∈ text, c.toNat < 0x80

instance (text : List Char) : Decidable (IsAscii text) := List.decidableBAll _ text

theorem IsAscii.append {text text' : List Char} (ascii : IsAscii text) (ascii' : IsAscii text') :
    IsAscii (text ++ text') := by
  intro c member
  rcases List.mem_append.mp member with front | back
  · exact ascii c front
  · exact ascii' c back

theorem isAscii_of_digits (n : Nat) : IsAscii (Decimal.digits n) := by
  intro c member
  have digit := Decimal.isDigit_of_mem_digits member
  simp only [Decimal.isDigit, Bool.and_eq_true, decide_eq_true_eq] at digit
  have bound : c.toNat ≤ '9'.toNat := digit.2
  simp at bound
  omega

theorem encode_ascii {text : List Char} (ascii : IsAscii text) :
    encode text = text.map (·.toNat.toUInt8) := by
  induction text with
  | nil => rfl
  | cons c rest ih =>
    have rest := ih fun x member => ascii x (List.mem_cons_of_mem c member)
    rw [encode_cons, encodeChar_ascii (ascii c List.mem_cons_self), rest]
    rfl

end Utf8

end LinkedViews
