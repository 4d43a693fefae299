import LinkedViews.Text.Utf8
import Mathlib

/-! Text is decoded from its bytes: what a character is written as is read as that character, and its
lead decides how many bytes belong to it. -/
namespace LinkedViews.Utf8

theorem toNat_toUInt8_of_lt {n : Nat} (byte : n < 0x100) : n.toUInt8.toNat = n := by
  simp
  omega

theorem isTail_tail {m : Nat} (small : m < 0x40) : isTail (0x80 + m).toUInt8 = true := by
  simp only [isTail, UInt8.lt_iff_toNat_lt, UInt8.le_iff_toNat_le,
    toNat_toUInt8_of_lt (show 0x80 + m < 0x100 by omega)]
  simp
  omega

theorem isSecond_three {h m : Nat} (lead : h < 0x10) (small : m < 0x40) (long : h = 0 → 0x20 ≤ m)
    (unpaired : h = 0xD → m < 0x20) : isSecond (0xE0 + h).toUInt8 (0x80 + m).toUInt8 = true := by
  simp only [isSecond, isTail, UInt8.lt_iff_toNat_lt, UInt8.le_iff_toNat_le, ← UInt8.toNat_inj,
    toNat_toUInt8_of_lt (show 0x80 + m < 0x100 by omega),
    toNat_toUInt8_of_lt (show 0xE0 + h < 0x100 by omega)]
  simp
  grind

theorem isSecond_four {h m : Nat} (lead : h < 5) (small : m < 0x40) (long : h = 0 → 0x10 ≤ m)
    (last : h = 4 → m < 0x10) : isSecond (0xF0 + h).toUInt8 (0x80 + m).toUInt8 = true := by
  simp only [isSecond, isTail, UInt8.lt_iff_toNat_lt, UInt8.le_iff_toNat_le, ← UInt8.toNat_inj,
    toNat_toUInt8_of_lt (show 0x80 + m < 0x100 by omega),
    toNat_toUInt8_of_lt (show 0xF0 + h < 0x100 by omega)]
  simp
  grind

-- The lead of a sequence alone decides its length.
theorem lead_two {h : Nat} (long : 2 ≤ h) (lead : h < 0x20) : ¬(0xC0 + h).toUInt8 < 0x80 ∧
    (0xC2 ≤ (0xC0 + h).toUInt8 ∧ (0xC0 + h).toUInt8 < 0xE0) := by
  simp only [UInt8.lt_iff_toNat_lt, UInt8.le_iff_toNat_le,
    toNat_toUInt8_of_lt (show 0xC0 + h < 0x100 by omega)]
  simp
  omega

theorem lead_three {h : Nat} (lead : h < 0x10) : ¬(0xE0 + h).toUInt8 < 0x80 ∧
    ¬(0xC2 ≤ (0xE0 + h).toUInt8 ∧ (0xE0 + h).toUInt8 < 0xE0) ∧
    (0xE0 ≤ (0xE0 + h).toUInt8 ∧ (0xE0 + h).toUInt8 < 0xF0) := by
  simp only [UInt8.lt_iff_toNat_lt, UInt8.le_iff_toNat_le,
    toNat_toUInt8_of_lt (show 0xE0 + h < 0x100 by omega)]
  simp
  omega

theorem lead_four {h : Nat} (lead : h < 5) : ¬(0xF0 + h).toUInt8 < 0x80 ∧
    ¬(0xC2 ≤ (0xF0 + h).toUInt8 ∧ (0xF0 + h).toUInt8 < 0xE0) ∧
    ¬(0xE0 ≤ (0xF0 + h).toUInt8 ∧ (0xF0 + h).toUInt8 < 0xF0) ∧
    (0xF0 ≤ (0xF0 + h).toUInt8 ∧ (0xF0 + h).toUInt8 < 0xF5) := by
  simp only [UInt8.lt_iff_toNat_lt, UInt8.le_iff_toNat_le,
    toNat_toUInt8_of_lt (show 0xF0 + h < 0x100 by omega)]
  simp
  omega

section Sequences

variable (index : Nat) (seen : List Char) (rest : Bytes)

theorem decodeFrom_one {n : Nat} (one : n < 0x80) :
    decodeFrom index seen (n.toUInt8 :: rest) =
      decodeFrom (index + 1) (Char.ofNat n :: seen) rest := by
  have byte : n.toUInt8.toNat = n := toNat_toUInt8_of_lt (by omega)
  have first : n.toUInt8 < 0x80 := by
    rw [UInt8.lt_iff_toNat_lt, byte]
    exact one
  rw [decodeFrom.eq_def]
  simp only [if_pos first, byte]

theorem decodeFrom_two {h m : Nat} (long : 2 ≤ h) (lead : h < 0x20) (small : m < 0x40) :
    decodeFrom index seen ((0xC0 + h).toUInt8 :: (0x80 + m).toUInt8 :: rest) =
      decodeFrom (index + 2) (Char.ofNat (h * 0x40 + m) :: seen) rest := by
  have byte : (0xC0 + h).toUInt8.toNat = 0xC0 + h := toNat_toUInt8_of_lt (by omega)
  have byte' : (0x80 + m).toUInt8.toNat = 0x80 + m := toNat_toUInt8_of_lt (by omega)
  obtain ⟨first, pair⟩ := lead_two long lead
  rw [decodeFrom.eq_def]
  simp only [if_neg first, if_pos pair, isTail_tail small, if_true, byte, byte',
    Nat.add_sub_cancel_left]

theorem decodeFrom_three {h m l : Nat} (lead : h < 0x10) (small : m < 0x40) (small' : l < 0x40)
    (long : h = 0 → 0x20 ≤ m) (unpaired : h = 0xD → m < 0x20) :
    decodeFrom index seen
        ((0xE0 + h).toUInt8 :: (0x80 + m).toUInt8 :: (0x80 + l).toUInt8 :: rest) =
      decodeFrom (index + 3) (Char.ofNat (h * 0x1000 + m * 0x40 + l) :: seen) rest := by
  have byte : (0xE0 + h).toUInt8.toNat = 0xE0 + h := toNat_toUInt8_of_lt (by omega)
  have byte' : (0x80 + m).toUInt8.toNat = 0x80 + m := toNat_toUInt8_of_lt (by omega)
  have byte'' : (0x80 + l).toUInt8.toNat = 0x80 + l := toNat_toUInt8_of_lt (by omega)
  obtain ⟨first, second, third⟩ := lead_three lead
  rw [decodeFrom.eq_def]
  simp only [if_neg first, if_neg second, if_pos third,
    isSecond_three lead small long unpaired, isTail_tail small', if_true, byte, byte', byte'',
    Nat.add_sub_cancel_left]

theorem decodeFrom_four {h m l k : Nat} (lead : h < 5) (small : m < 0x40) (small' : l < 0x40)
    (small'' : k < 0x40) (long : h = 0 → 0x10 ≤ m) (last : h = 4 → m < 0x10) :
    decodeFrom index seen ((0xF0 + h).toUInt8 :: (0x80 + m).toUInt8 :: (0x80 + l).toUInt8 ::
        (0x80 + k).toUInt8 :: rest) =
      decodeFrom (index + 4)
        (Char.ofNat (h * 0x40000 + m * 0x1000 + l * 0x40 + k) :: seen) rest := by
  have byte : (0xF0 + h).toUInt8.toNat = 0xF0 + h := toNat_toUInt8_of_lt (by omega)
  have byte' : (0x80 + m).toUInt8.toNat = 0x80 + m := toNat_toUInt8_of_lt (by omega)
  have byte'' : (0x80 + l).toUInt8.toNat = 0x80 + l := toNat_toUInt8_of_lt (by omega)
  have byte3 : (0x80 + k).toUInt8.toNat = 0x80 + k := toNat_toUInt8_of_lt (by omega)
  obtain ⟨first, second, third, fourth⟩ := lead_four lead
  rw [decodeFrom.eq_def]
  simp only [if_neg first, if_neg second, if_neg third, if_pos fourth,
    isSecond_four lead small long last, isTail_tail small', isTail_tail small'', if_true, byte,
    byte', byte'', byte3, Nat.add_sub_cancel_left]

/-- A character's bytes are read as that character, whatever follows them. -/
theorem decodeFrom_encodeChar (c : Char) :
    decodeFrom index seen (encodeChar c ++ rest) =
      decodeFrom (index + (encodeChar c).length) (c :: seen) rest := by
  have valid : c.toNat < 0xD800 ∨ 0xDFFF < c.toNat ∧ c.toNat < 0x110000 := c.valid
  obtain ⟨n, number⟩ : ∃ n, c.toNat = n := ⟨_, rfl⟩
  have same {k : Nat} (eq : k = n) : Char.ofNat k = c := by rw [eq, ← number, Char.ofNat_toNat]
  rw [number] at valid
  simp only [encodeChar, number]
  split
  next one => exact (decodeFrom_one index seen rest one).trans (by rw [same rfl]; rfl)
  next =>
  split
  next two =>
    exact (decodeFrom_two index seen rest (by omega) (by omega) (by omega)).trans
      (by rw [same (by omega)]; rfl)
  next =>
  split
  next three =>
    exact (decodeFrom_three index seen rest (by omega) (by omega) (by omega) (by omega)
      (by omega)).trans (by rw [same (by omega)]; rfl)
  next =>
    exact (decodeFrom_four index seen rest (by omega) (by omega) (by omega) (by omega) (by omega)
      (by omega)).trans (by rw [same (by omega)]; rfl)

/-- Bytes that end inside a character are no text, and no longer sequence would be looked for. -/
theorem decodeFrom_take_encodeChar (c : Char) {k : Nat} (begun : 0 < k)
    (cut : k < (encodeChar c).length) :
    decodeFrom index seen ((encodeChar c).take k) = .error ⟨index, none⟩ := by
  have valid : c.toNat < 0xD800 ∨ 0xDFFF < c.toNat ∧ c.toNat < 0x110000 := c.valid
  obtain ⟨n, number⟩ : ∃ n, c.toNat = n := ⟨_, rfl⟩
  rw [number] at valid
  simp only [encodeChar, number] at cut ⊢
  split at cut
  next => simp at cut; omega
  next many =>
  split at cut
  next two =>
    obtain ⟨first, pair⟩ := lead_two (show 2 ≤ n / 0x40 by omega) (by omega)
    obtain rfl : k = 1 := by simp at cut; omega
    rw [decodeFrom.eq_def]
    simp only [if_neg many, if_pos two, List.take, if_neg first, if_pos pair]
  next more =>
  split at cut
  next three =>
    obtain ⟨first, second, third⟩ := lead_three (show n / 0x1000 < 0x10 by omega)
    have joined := isSecond_three (h := n / 0x1000) (m := n / 0x40 % 0x40) (by omega) (by omega)
      (by omega) (by omega)
    obtain rfl | rfl : k = 1 ∨ k = 2 := by simp at cut; omega
    · rw [decodeFrom.eq_def]
      simp only [if_neg many, if_neg more, if_pos three, List.take, if_neg first, if_neg second,
        if_pos third]
    · rw [decodeFrom.eq_def]
      simp only [if_neg many, if_neg more, if_pos three, List.take, if_neg first, if_neg second,
        if_pos third, joined, if_true]
  next four =>
    obtain ⟨first, second, third, fourth⟩ := lead_four (show n / 0x40000 < 5 by omega)
    have joined := isSecond_four (h := n / 0x40000) (m := n / 0x1000 % 0x40) (by omega) (by omega)
      (by omega) (by omega)
    have tail := isTail_tail (m := n / 0x40 % 0x40) (by omega)
    obtain rfl | rfl | rfl : k = 1 ∨ k = 2 ∨ k = 3 := by simp at cut; omega
    · rw [decodeFrom.eq_def]
      simp only [if_neg many, if_neg more, if_neg four, List.take, if_neg first, if_neg second,
        if_neg third, if_pos fourth]
    · rw [decodeFrom.eq_def]
      simp only [if_neg many, if_neg more, if_neg four, List.take, if_neg first, if_neg second,
        if_neg third, if_pos fourth, joined, if_true]
    · rw [decodeFrom.eq_def]
      simp only [if_neg many, if_neg more, if_neg four, List.take, if_neg first, if_neg second,
        if_neg third, if_pos fourth, joined, tail, if_true]

end Sequences

theorem decodeFrom_append (text : List Char) (index : Nat) (seen : List Char) (rest : Bytes) :
    decodeFrom index seen (encode text ++ rest) =
      decodeFrom (index + (encode text).length) (text.reverse ++ seen) rest := by
  induction text generalizing index seen with
  | nil => rfl
  | cons c text ih =>
    rw [encode_cons, List.append_assoc, decodeFrom_encodeChar, ih]
    simp [Nat.add_assoc]

/-- Every text is decoded from its bytes. -/
theorem decode_encode (text : List Char) : decode (encode text) = .ok text := by
  have all := decodeFrom_append text 0 [] []
  rw [List.append_nil] at all
  rw [decode, all, decodeFrom_nil]
  simp

/-- A text that is cut inside a character is not decoded, and the fault names where that character
begins. -/
theorem decode_cut (front : List Char) (c : Char) {k : Nat} (begun : 0 < k)
    (cut : k < (encodeChar c).length) :
    decode (encode front ++ (encodeChar c).take k) = .error ⟨(encode front).length, none⟩ := by
  rw [decode, decodeFrom_append, decodeFrom_take_encodeChar _ _ c begun cut, Nat.zero_add]

/-- Some characters fill the first bytes of a text, or one of them is cut. -/
theorem take_encode (text : List Char) {n : Nat} (long : n ≤ (encode text).length) :
    ∃ front back, text = front ++ back ∧ ((encode text).take n = encode front ∨
      ∃ c later k, back = c :: later ∧ 0 < k ∧ k < (encodeChar c).length ∧
        (encode text).take n = encode front ++ (encodeChar c).take k) := by
  induction text generalizing n with
  | nil =>
    obtain rfl : n = 0 := by simpa using long
    exact ⟨[], [], rfl, .inl rfl⟩
  | cons c text ih =>
    rw [encode_cons, List.length_append] at long
    by_cases whole : (encodeChar c).length ≤ n
    · obtain ⟨front, back, rfl, filled⟩ := ih (n := n - (encodeChar c).length) (by omega)
      have first : (encode (c :: (front ++ back))).take n =
          encodeChar c ++ (encode (front ++ back)).take (n - (encodeChar c).length) := by
        rw [encode_cons, List.take_append, List.take_of_length_le whole]
      refine ⟨c :: front, back, rfl, ?_⟩
      rw [first, encode_cons]
      rcases filled with same | ⟨d, later, k, eq, begun, cut, same⟩
      · exact .inl (by rw [same])
      · exact .inr ⟨d, later, k, eq, begun, cut, by rw [same, List.append_assoc]⟩
    · have inside : (encode (c :: text)).take n = (encodeChar c).take n := by
        rw [encode_cons, List.take_append_of_le_length (by omega)]
      refine ⟨[], c :: text, rfl, ?_⟩
      by_cases none : n = 0
      · exact .inl (by simp [none])
      · exact .inr ⟨c, text, n, rfl, by omega, by omega, inside⟩

theorem encodeChar_ascii {c : Char} (ascii : c.toNat < 0x80) :
    encodeChar c = [c.toNat.toUInt8] := by
  simp [encodeChar, ascii]

/-- A character beyond ASCII has no byte of ASCII. -/
theorem le_of_mem_encodeChar {c : Char} {b : UInt8} (high : ¬c.toNat < 0x80)
    (member : b ∈ encodeChar c) : 0x80 ≤ b.toNat := by
  have valid : c.toNat < 0x110000 := by
    rcases c.valid with low | high
    · exact Nat.lt_trans low (by decide)
    · exact high.2
  have byte {n : Nat} (least : 0x80 ≤ n) (most : n < 0x100) : 0x80 ≤ n.toUInt8.toNat := by
    rwa [toNat_toUInt8_of_lt most]
  simp only [encodeChar, if_neg high] at member
  split at member
  next =>
    simp only [List.mem_cons, List.not_mem_nil, or_false] at member
    rcases member with rfl | rfl
    · exact byte (by omega) (by omega)
    · exact byte (by omega) (by omega)
  next =>
  split at member
  next =>
    simp only [List.mem_cons, List.not_mem_nil, or_false] at member
    rcases member with rfl | rfl | rfl
    · exact byte (by omega) (by omega)
    · exact byte (by omega) (by omega)
    · exact byte (by omega) (by omega)
  next =>
    simp only [List.mem_cons, List.not_mem_nil, or_false] at member
    rcases member with rfl | rfl | rfl | rfl
    · exact byte (by omega) (by omega)
    · exact byte (by omega) (by omega)
    · exact byte (by omega) (by omega)
    · exact byte (by omega) (by omega)

/-- No byte of a text is a line feed if no character is. -/
theorem lineFeed_not_mem_encode {text : List Char} (whole : '\n' ∉ text) : 0x0A ∉ encode text := by
  intro member
  obtain ⟨c, inText, among⟩ := List.mem_flatMap.mp member
  by_cases ascii : c.toNat < 0x80
  · rw [encodeChar_ascii ascii, List.mem_singleton] at among
    have code : c.toNat = 10 := by
      rw [← toNat_toUInt8_of_lt (Nat.lt_trans ascii (by decide)), ← among]
      rfl
    have lineFeed : c = '\n' := by
      rw [← Char.ofNat_toNat c, code]
    exact whole (lineFeed ▸ inText)
  · exact absurd (le_of_mem_encodeChar ascii among) (by decide)

end LinkedViews.Utf8
