/-! Text as bytes: the UTF-8 form of characters, and a decoder that names the first fault.
A fault carries the index of the sequence it spoils and, unless the text merely stops inside a
sequence, how many bytes of that sequence were read before it went wrong. -/
namespace LinkedViews

abbrev Bytes := List UInt8

namespace Utf8

/-- Leading byte first, then six bits a byte. -/
def encodeChar (c : Char) : Bytes :=
  let n := c.toNat
  if n < 0x80 then [n.toUInt8]
  else if n < 0x800 then [(0xC0 + n / 0x40).toUInt8, (0x80 + n % 0x40).toUInt8]
  else if n < 0x10000 then
    [(0xE0 + n / 0x1000).toUInt8, (0x80 + n / 0x40 % 0x40).toUInt8, (0x80 + n % 0x40).toUInt8]
  else
    [(0xF0 + n / 0x40000).toUInt8, (0x80 + n / 0x1000 % 0x40).toUInt8,
      (0x80 + n / 0x40 % 0x40).toUInt8, (0x80 + n % 0x40).toUInt8]

def encode (text : List Char) : Bytes := text.flatMap encodeChar

@[simp] theorem encode_nil : encode [] = [] := rfl

@[simp] theorem encode_cons (c : Char) (text : List Char) :
    encode (c :: text) = encodeChar c ++ encode text := rfl

@[simp] theorem encode_append (a b : List Char) : encode (a ++ b) = encode a ++ encode b := by
  simp [encode]

/-- The first sequence that is not UTF-8. No length means that the bytes end inside it. -/
structure Fault where
  index : Nat
  length : Option Nat
  deriving DecidableEq, Repr

def Fault.message (fault : Fault) : String :=
  match fault.length with
  | some n => s!"invalid utf-8 sequence of {n} bytes from index {fault.index}"
  | none => s!"incomplete utf-8 byte sequence from index {fault.index}"

def isTail (b : UInt8) : Bool := 0x80 ≤ b && b < 0xC0

/-- The second byte decides against overlong forms, surrogates and values past the last plane. -/
def isSecond (a b : UInt8) : Bool :=
  if a = 0xE0 then 0xA0 ≤ b && b < 0xC0
  else if a = 0xED then 0x80 ≤ b && b < 0xA0
  else if a = 0xF0 then 0x90 ≤ b && b < 0xC0
  else if a = 0xF4 then 0x80 ≤ b && b < 0x90
  else isTail b

def decodeFrom (index : Nat) (seen : List Char) : Bytes → Except Fault (List Char)
  | [] => .ok seen.reverse
  | a :: rest =>
    if a < 0x80 then decodeFrom (index + 1) (Char.ofNat a.toNat :: seen) rest
    else if 0xC2 ≤ a ∧ a < 0xE0 then
      match rest with
      | [] => .error ⟨index, none⟩
      | b :: rest =>
        if isTail b then
          decodeFrom (index + 2)
            (Char.ofNat ((a.toNat - 0xC0) * 0x40 + (b.toNat - 0x80)) :: seen) rest
        else .error ⟨index, some 1⟩
    else if 0xE0 ≤ a ∧ a < 0xF0 then
      match rest with
      | [] => .error ⟨index, none⟩
      | b :: rest =>
        if isSecond a b then
          match rest with
          | [] => .error ⟨index, none⟩
          | c :: rest =>
            if isTail c then
              decodeFrom (index + 3)
                (Char.ofNat ((a.toNat - 0xE0) * 0x1000 + (b.toNat - 0x80) * 0x40
                  + (c.toNat - 0x80)) :: seen) rest
            else .error ⟨index, some 2⟩
        else .error ⟨index, some 1⟩
    else if 0xF0 ≤ a ∧ a < 0xF5 then
      match rest with
      | [] => .error ⟨index, none⟩
      | b :: rest =>
        if isSecond a b then
          match rest with
          | [] => .error ⟨index, none⟩
          | c :: rest =>
            if isTail c then
              match rest with
              | [] => .error ⟨index, none⟩
              | d :: rest =>
                if isTail d then
                  decodeFrom (index + 4)
                    (Char.ofNat ((a.toNat - 0xF0) * 0x40000 + (b.toNat - 0x80) * 0x1000
                      + (c.toNat - 0x80) * 0x40 + (d.toNat - 0x80)) :: seen) rest
                else .error ⟨index, some 3⟩
            else .error ⟨index, some 2⟩
        else .error ⟨index, some 1⟩
    else .error ⟨index, some 1⟩

theorem decodeFrom_nil (index : Nat) (seen : List Char) :
    decodeFrom index seen [] = .ok seen.reverse := by
  rw [decodeFrom.eq_def]

def decode (bytes : Bytes) : Except Fault (List Char) := decodeFrom 0 [] bytes

def decode? (bytes : Bytes) : Option (List Char) :=
  match decode bytes with
  | .ok text => some text
  | .error _ => none

end Utf8

end LinkedViews
