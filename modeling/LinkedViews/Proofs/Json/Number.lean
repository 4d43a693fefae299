import LinkedViews.Json.Scan
import LinkedViews.Proofs.Text.Ascii

/-! Integers are read from their digits, as long as a word holds them. -/
namespace LinkedViews

namespace Decimal

/-- Only zero begins with a zero. -/
theorem digitValue_head_digits {n : Nat} (some : 0 < n) :
    ∀ c ∈ (digits n).head?, digitValue c ≠ 0 := by
  fun_induction digits n with
  | case1 n small =>
    intro c first
    obtain rfl := Option.some.inj first
    rw [(digit_facts n small).2]
    omega
  | case2 n large ih =>
    rw [List.head?_append_of_ne_nil _ (digits_ne_nil _)]
    exact ih (by omega)

theorem digits_eq_cons_cons {n : Nat} {c d : Char} {text : List Char}
    (long : digits n = c :: d :: text) : digitValue c ≠ 0 := by
  have some : 0 < n := by
    by_contra none
    obtain rfl : n = 0 := by omega
    rw [digits] at long
    simp at long
  exact digitValue_head_digits some c (by rw [long]; rfl)

end Decimal

namespace Json

/-- Nothing at the front of the input goes on with a number. -/
def Ends (rest : Bytes) : Prop :=
  ∀ b ∈ rest.head?, isDigit b = false ∧ b ≠ 0x2E ∧ b ≠ 0x65 ∧ b ≠ 0x45

theorem isDigit_toUInt8 {c : Char} (digit : Decimal.isDigit c = true) :
    isDigit c.toNat.toUInt8 = true ∧ c.toNat.toUInt8.toNat - 0x30 = Decimal.digitValue c ∧
      c.toNat < 0x80 := by
  simp only [Decimal.isDigit, Bool.and_eq_true, decide_eq_true_eq] at digit
  have low : '0'.toNat ≤ c.toNat := digit.1
  have high : c.toNat ≤ '9'.toNat := digit.2
  simp at low high
  simp only [isDigit, UInt8.le_iff_toNat_le, Utf8.toNat_toUInt8_of_lt (show c.toNat < 0x100 by omega)]
  simp [Decimal.digitValue]
  omega

theorem encode_digits_eq_cons (n : Nat) :
    ∃ b tail, Utf8.encode (Decimal.digits n) = b :: tail ∧ isDigit b = true := by
  obtain ⟨c, text, eq⟩ := List.exists_cons_of_ne_nil (Decimal.digits_ne_nil n)
  obtain ⟨digit, -, ascii⟩ :=
    isDigit_toUInt8 (Decimal.isDigit_of_mem_digits (n := n) (c := c) (by simp [eq]))
  refine ⟨c.toNat.toUInt8, Utf8.encode text, ?_, digit⟩
  rw [eq, Utf8.encode_cons, Utf8.encodeChar_ascii ascii]
  rfl

/-- Nothing at the front of the input goes on with digits. -/
def Stops (rest : Bytes) : Prop := ∀ b ∈ rest.head?, isDigit b = false

theorem Ends.stops {rest : Bytes} (ends : Ends rest) : Stops rest := fun b first =>
  (ends b first).1

theorem takeDigits_stops {rest : Bytes} (stops : Stops rest) : takeDigits rest = ([], rest) := by
  cases rest with
  | nil => rfl
  | cons b rest => simp [takeDigits, stops b rfl]

theorem takeDigits_append {text : Bytes} (digits : ∀ b ∈ text, isDigit b = true) {rest : Bytes}
    (stops : Stops rest) :
    takeDigits (text ++ rest) = (text.map fun b => b.toNat - 0x30, rest) := by
  induction text with
  | nil => exact takeDigits_stops stops
  | cons b text ih =>
    have later := ih fun x member => digits x (List.mem_cons_of_mem b member)
    simp only [List.cons_append, takeDigits, digits b List.mem_cons_self, later, if_true]
    rfl

theorem takeDigits_encode {text : List Char} (digits : ∀ c ∈ text, Decimal.isDigit c = true)
    {rest : Bytes} (stops : Stops rest) :
    takeDigits (Utf8.encode text ++ rest) = (text.map Decimal.digitValue, rest) := by
  rw [Utf8.encode_ascii fun c member => (isDigit_toUInt8 (digits c member)).2.2,
    takeDigits_append _ stops, List.map_map]
  · congr 1
    exact List.map_congr_left fun c member => (isDigit_toUInt8 (digits c member)).2.1
  · intro b written
    obtain ⟨c, member, rfl⟩ := List.mem_map.mp written
    exact (isDigit_toUInt8 (digits c member)).1

theorem scanWhole_digits (n : Nat) {rest : Bytes} (ends : Ends rest) (passing : Bool) :
    scanWhole passing (Utf8.encode (Decimal.digits n) ++ rest) =
      .ok ((Decimal.digits n).map Decimal.digitValue, rest) := by
  rw [scanWhole, takeDigits_encode (fun c => Decimal.isDigit_of_mem_digits) ends.stops]
  split
  next none =>
    simp [Decimal.digits_ne_nil] at none
  next long =>
    obtain ⟨c, later, eq, zero, more⟩ := List.map_eq_cons_iff.mp (Prod.mk.inj long).1
    obtain ⟨d, text, rfl, -, -⟩ := List.map_eq_cons_iff.mp more
    exact absurd zero (Decimal.digits_eq_cons_cons eq)
  next _ _ eq =>
    obtain ⟨rfl, rfl⟩ := Prod.mk.inj eq
    rfl

theorem le_foldl_digits (text : List Char) (n : Nat) :
    n ≤ text.foldl (fun n c => n * 10 + Decimal.digitValue c) n := by
  induction text generalizing n with
  | nil => exact Nat.le_refl n
  | cons c text ih => exact Nat.le_trans (by omega) (ih (n * 10 + Decimal.digitValue c))

theorem absorb_digits {text : List Char} {n : Nat}
    (word : text.foldl (fun n c => n * 10 + Decimal.digitValue c) n ≤ Decimal.maxWord) :
    absorb n (text.map Decimal.digitValue) =
      (text.foldl (fun n c => n * 10 + Decimal.digitValue c) n, []) := by
  induction text generalizing n with
  | nil => rfl
  | cons c text ih =>
    have fits : n * 10 + Decimal.digitValue c ≤ Decimal.maxWord :=
      Nat.le_trans (le_foldl_digits text _) word
    rw [List.map_cons, absorb, if_pos fits, ih word]
    rfl

theorem absorb_digits_zero {n : Nat} (word : n ≤ Decimal.maxWord) :
    absorb 0 ((Decimal.digits n).map Decimal.digitValue) = (n, []) := by
  have value : (Decimal.digits n).foldl (fun n c => n * 10 + Decimal.digitValue c) 0 = n :=
    Decimal.value_digits n
  rw [absorb_digits (by rwa [value]), value]

/-- The numeral of an integer has neither fraction nor exponent. -/
def wholeNumeral (negative : Bool) (n : Nat) : Numeral :=
  ⟨negative, (Decimal.digits n).map Decimal.digitValue, [], none, true⟩

theorem scanFraction_ends {rest : Bytes} (ends : Ends rest) (passing : Bool) :
    scanFraction passing rest = .ok (none, rest) := by
  unfold scanFraction
  split
  next rest => exact absurd rfl (ends 0x2E rfl).2.1
  next => rfl

theorem scanExponent_ends {rest : Bytes} (ends : Ends rest) (passing : Bool) :
    scanExponent passing rest = .ok (none, rest) := by
  cases rest with
  | nil => rfl
  | cons b rest =>
    obtain ⟨-, -, small, capital⟩ := ends b rfl
    simp [scanExponent, small, capital]

theorem scanNumeral_digits (n : Nat) {rest : Bytes} (ends : Ends rest) (passing : Bool) :
    scanNumeral passing (Utf8.encode (Decimal.digits n) ++ rest) =
      .ok (wholeNumeral false n, rest) := by
  obtain ⟨b, tail, eq, digit⟩ := encode_digits_eq_cons n
  have minus : b ≠ 0x2D := by
    rintro rfl
    exact absurd digit (by decide)
  have scanned := scanWhole_digits n ends passing
  rw [eq, List.cons_append] at scanned ⊢
  have unsigned : ∀ rest', b :: (tail ++ rest) ≠ 0x2D :: rest' :=
    fun _ signed => minus (List.cons.inj signed).1
  rw [scanNumeral]
  · simp only [scanned, scanFraction_ends ends, scanExponent_ends ends, bind, Except.bind, pure,
      Except.pure]
    rfl
  · exact unsigned

theorem scanNumeral_minus (n : Nat) {rest : Bytes} (ends : Ends rest) (passing : Bool) :
    scanNumeral passing (0x2D :: Utf8.encode (Decimal.digits n) ++ rest) =
      .ok (wholeNumeral true n, rest) := by
  simp only [scanNumeral, List.cons_append, scanWhole_digits n ends, scanFraction_ends ends,
    scanExponent_ends ends, bind, Except.bind, pure, Except.pure]
  rfl

/-- The integers that are read as integers. -/
def FitsWord (n : Int) : Prop := -9223372036854775808 ≤ n ∧ n ≤ Decimal.maxWord

theorem readNumber_integerText {n : Int} (word : FitsWord n) {rest : Bytes} (ends : Ends rest) :
    readNumber (Utf8.encode (integerText n) ++ rest) = .ok (.integer n, rest) := by
  obtain ⟨low, high⟩ := word
  cases n with
  | ofNat n =>
    have word : n ≤ Decimal.maxWord := by simpa using high
    have value : (wholeNumeral false n).value? = some (.integer n) := by
      simp [Numeral.value?, wholeNumeral, absorb_digits_zero word]
    rw [readNumber, integerText, scanNumeral_digits n ends]
    simp [bind, Except.bind, value]
  | negSucc n =>
    have word : n + 1 ≤ 9223372036854775808 := by omega
    have value : (wholeNumeral true (n + 1)).value? = some (.integer (.negSucc n)) := by
      have absorbed := absorb_digits_zero (Nat.le_trans word (by decide))
      simp [Numeral.value?, wholeNumeral, absorbed, word]
      omega
    rw [readNumber]
    show (scanNumeral false (0x2D :: Utf8.encode (Decimal.digits (n + 1)) ++ rest) >>= _) = _
    rw [scanNumeral_minus (n + 1) ends]
    simp [bind, Except.bind, value]

end Json

end LinkedViews
