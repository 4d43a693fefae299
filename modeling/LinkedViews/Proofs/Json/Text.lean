import LinkedViews.Json.Scan
import LinkedViews.Json.Write
import LinkedViews.Proofs.Text.Utf8

/-! A text is read from what is written of it: escapes are undone one by one, and every other
character passes as its bytes. -/
namespace LinkedViews.Json

section Bytes

variable (seen rest : Bytes)

/-- The letter of a short escape is not that of a code unit. -/
theorem ne_of_shortEscape {e b : UInt8} (short : shortEscape? e = some b) : e ≠ 0x75 := by
  rintro rfl
  exact absurd short (by simp [shortEscape?])

theorem readBytes_short {e b : UInt8} (short : shortEscape? e = some b) :
    readBytes seen (0x5C :: e :: rest) = readBytes (b :: seen) rest := by
  conv_lhs => rw [readBytes.eq_def]
  simp [ne_of_shortEscape short, short]

/-- The character outside the basic plane that two surrogates stand for. -/
def surrogatePair (high low : Nat) : Char :=
  Char.ofNat ((high - 0xD800) * 0x400 + (low - 0xDC00) + 0x10000)

section Unit

variable {h₁ h₂ h₃ h₄ : UInt8} {n : Nat} (unit : hexUnit? h₁ h₂ h₃ h₄ = some n)

include unit

theorem readBytes_unit (high : isHighSurrogate n = false) (low : isLowSurrogate n = false) :
    readBytes seen (0x5C :: 0x75 :: h₁ :: h₂ :: h₃ :: h₄ :: rest) =
      readBytes ((Utf8.encodeChar (Char.ofNat n)).reverse ++ seen) rest := by
  conv_lhs => rw [readBytes.eq_def]
  simp [unit, low, high]

theorem readBytes_low (low : isLowSurrogate n = true) :
    readBytes seen (0x5C :: 0x75 :: h₁ :: h₂ :: h₃ :: h₄ :: rest) = .error .malformed := by
  rw [readBytes.eq_def]
  simp [unit, low]

omit unit in
theorem not_isLowSurrogate (high : isHighSurrogate n = true) : isLowSurrogate n = false := by
  simp only [isHighSurrogate, isLowSurrogate, Bool.and_eq_true, decide_eq_true_eq,
    Bool.and_eq_false_iff, decide_eq_false_iff_not] at high ⊢
  omega

theorem readBytes_pair (high : isHighSurrogate n = true) {l₁ l₂ l₃ l₄ : UInt8} {m : Nat}
    (unit' : hexUnit? l₁ l₂ l₃ l₄ = some m) (low : isLowSurrogate m = true) :
    readBytes seen (0x5C :: 0x75 :: h₁ :: h₂ :: h₃ :: h₄ ::
        0x5C :: 0x75 :: l₁ :: l₂ :: l₃ :: l₄ :: rest) =
      readBytes ((Utf8.encodeChar (surrogatePair n m)).reverse ++ seen) rest := by
  conv_lhs => rw [readBytes.eq_def]
  simp [unit, high, not_isLowSurrogate high, unit', low, surrogatePair]

/-- Only the escape of a low surrogate may come after a high one. -/
theorem readBytes_high (high : isHighSurrogate n = true)
    (other : ∀ l₁ l₂ l₃ l₄ tail m, rest = 0x5C :: 0x75 :: l₁ :: l₂ :: l₃ :: l₄ :: tail →
      hexUnit? l₁ l₂ l₃ l₄ = some m → isLowSurrogate m = false) :
    ∃ fault, readBytes seen (0x5C :: 0x75 :: h₁ :: h₂ :: h₃ :: h₄ :: rest) = .error fault := by
  rw [readBytes.eq_def]
  have quote : ¬(0x5C : UInt8) = 0x22 := by decide
  simp only [if_neg quote, unit, high, not_isLowSurrogate high, Bool.false_eq_true, if_false,
    if_true]
  -- Every branch ends in a fault, except for the one that goes on behind a low surrogate.
  repeat' split
  any_goals exact ⟨_, rfl⟩
  next slash _ _ letter _ _ _ _ _ _ _ _ found low =>
    rw [other _ _ _ _ _ _ (by rw [slash, letter]) found] at low
    contradiction

end Unit

/-- Bytes of a string that stand for themselves. -/
def IsPlain (b : UInt8) : Prop := 0x20 ≤ b ∧ b ≠ 0x22 ∧ b ≠ 0x5C

theorem readBytes_cons {b : UInt8} (plain : IsPlain b) :
    readBytes seen (b :: rest) = readBytes (b :: seen) rest := by
  obtain ⟨printed, quote, backslash⟩ := plain
  have shown : ¬b < 0x20 := UInt8.not_lt.mpr printed
  rw [readBytes.eq_def]
  simp only [if_neg quote, if_neg backslash, if_neg shown]

end Bytes

theorem isPlain_of_mem_encodeChar {c : Char} {b : UInt8} (printed : ¬c.toNat < 0x20)
    (quote : c ≠ '"') (backslash : c ≠ '\\') (member : b ∈ Utf8.encodeChar c) : IsPlain b := by
  have codes : c.toNat ≠ 0x22 ∧ c.toNat ≠ 0x5C := by
    refine ⟨fun eq => quote ?_, fun eq => backslash ?_⟩
    · rw [← Char.ofNat_toNat c, eq]
    · rw [← Char.ofNat_toNat c, eq]
  simp only [IsPlain, UInt8.le_iff_toNat_le, ne_eq, ← UInt8.toNat_inj]
  by_cases ascii : c.toNat < 0x80
  · rw [Utf8.encodeChar_ascii ascii] at member
    obtain rfl := List.mem_singleton.mp member
    rw [Utf8.toNat_toUInt8_of_lt (by omega)]
    simp
    omega
  · have high := Utf8.le_of_mem_encodeChar ascii member
    simp
    omega

theorem hexUnit?_control : ∀ n < 0x20, hexUnit? 0x30 0x30
    (Text.hexDigit (n / 16)).toNat.toUInt8 (Text.hexDigit (n % 16)).toNat.toUInt8 = some n := by
  decide

theorem encodeChar_hexDigit : ∀ n < 16, Utf8.encodeChar (Text.hexDigit n) =
    [(Text.hexDigit n).toNat.toUInt8] := by decide

/-- What stands between quotation marks, and the bytes that it stands for. Surrogates do so in pairs
only. -/
inductive Spells : Bytes → Bytes → Prop
  | nil : Spells [] []
  | plain (plain : IsPlain b) (later : Spells text bytes) : Spells (b :: text) (b :: bytes)
  | short (short : shortEscape? e = some b) (later : Spells text bytes) :
      Spells (0x5C :: e :: text) (b :: bytes)
  | unit (unit : hexUnit? h₁ h₂ h₃ h₄ = some n) (high : isHighSurrogate n = false)
      (low : isLowSurrogate n = false) (later : Spells text bytes) :
      Spells (0x5C :: 0x75 :: h₁ :: h₂ :: h₃ :: h₄ :: text)
        (Utf8.encodeChar (Char.ofNat n) ++ bytes)
  | pair (unit : hexUnit? h₁ h₂ h₃ h₄ = some n) (high : isHighSurrogate n = true)
      (unit' : hexUnit? l₁ l₂ l₃ l₄ = some m) (low : isLowSurrogate m = true)
      (later : Spells text bytes) :
      Spells (0x5C :: 0x75 :: h₁ :: h₂ :: h₃ :: h₄ :: 0x5C :: 0x75 :: l₁ :: l₂ :: l₃ :: l₄ :: text)
        (Utf8.encodeChar (surrogatePair n m) ++ bytes)

theorem readBytes_of_spells {text bytes : Bytes} (spells : Spells text bytes) (seen rest : Bytes) :
    readBytes seen (text ++ rest) = readBytes (bytes.reverse ++ seen) rest := by
  induction spells generalizing seen with
  | nil => rfl
  | plain plain _ ih =>
    rw [List.cons_append, readBytes_cons _ _ plain, ih]
    simp
  | short short _ ih =>
    simp only [List.cons_append]
    rw [readBytes_short _ _ short, ih]
    simp
  | unit unit high low _ ih =>
    simp only [List.cons_append]
    rw [readBytes_unit _ _ unit high low, ih]
    simp
  | pair unit high unit' low _ ih =>
    simp only [List.cons_append]
    rw [readBytes_pair _ _ unit high unit' low, ih]
    simp

theorem Spells.append {text text' bytes bytes' : Bytes} (spells : Spells text bytes)
    (later : Spells text' bytes') : Spells (text ++ text') (bytes ++ bytes') := by
  induction spells with
  | nil => exact later
  | plain plain _ ih => exact .plain plain ih
  | short short _ ih => exact .short short ih
  | unit unit high low _ ih =>
    rw [List.append_assoc]
    exact .unit unit high low ih
  | pair unit high unit' low _ ih =>
    rw [List.append_assoc]
    exact .pair unit high unit' low ih

theorem spells_of_plain {bytes : Bytes} (plain : ∀ b ∈ bytes, IsPlain b) : Spells bytes bytes := by
  induction bytes with
  | nil => exact .nil
  | cons b bytes ih =>
    exact .plain (plain b List.mem_cons_self) (ih fun x member =>
      plain x (List.mem_cons_of_mem b member))

/-- What is written for a character stands for its bytes. -/
theorem spells_escapeChar (c : Char) : Spells (Utf8.encode (escapeChar c)) (Utf8.encodeChar c) := by
  unfold escapeChar
  split
  next eq =>
    subst eq
    exact .short rfl .nil
  next quote =>
  split
  next eq =>
    subst eq
    exact .short rfl .nil
  next backslash =>
  split
  next eq =>
    subst eq
    exact .short rfl .nil
  next =>
  split
  next eq =>
    subst eq
    exact .short rfl .nil
  next =>
  split
  next eq =>
    subst eq
    exact .short rfl .nil
  next =>
  split
  next eq => simpa [Utf8.encodeChar, eq] using Spells.short (e := 0x62) rfl .nil
  next =>
  split
  next eq => simpa [Utf8.encodeChar, eq] using Spells.short (e := 0x66) rfl .nil
  next =>
  split
  next control =>
    have spells := Spells.unit (hexUnit?_control c.toNat control)
      (by simp [isHighSurrogate]; omega) (by simp [isLowSurrogate]; omega) .nil
    rw [Char.ofNat_toNat, List.append_nil] at spells
    convert spells
    simp [encodeChar_hexDigit _ (show c.toNat / 16 < 16 by omega),
      encodeChar_hexDigit _ (show c.toNat % 16 < 16 by omega)]
    rfl
  next printed =>
    rw [Utf8.encode_cons, Utf8.encode_nil, List.append_nil]
    exact spells_of_plain fun b => isPlain_of_mem_encodeChar printed quote backslash

theorem spells_escaped (text : List Char) :
    Spells (Utf8.encode (text.flatMap escapeChar)) (Utf8.encode text) := by
  induction text with
  | nil => exact .nil
  | cons c text ih =>
    rw [List.flatMap_cons, Utf8.encode_append]
    exact (spells_escapeChar c).append ih

/-- A text is read behind its opening quotation mark. -/
theorem readText_escaped (s : String) (rest : Bytes) :
    readText (Utf8.encode (s.toList.flatMap escapeChar) ++ 0x22 :: rest) = .ok (s, rest) := by
  rw [readText, readBytes_of_spells (spells_escaped s.toList), readBytes_quote]
  simp [bind, Except.bind, Utf8.decode?, Utf8.decode_encode]

theorem encode_writeText (s : String) (rest : Bytes) : Utf8.encode (writeText s) ++ rest =
    0x22 :: (Utf8.encode (s.toList.flatMap escapeChar) ++ 0x22 :: rest) := by
  simp [writeText, Utf8.encodeChar]

end LinkedViews.Json
