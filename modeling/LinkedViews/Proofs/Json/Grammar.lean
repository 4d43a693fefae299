import LinkedViews.Json.Read
import LinkedViews.Proofs.Json.Text

/-! JSON texts as bytes, by the rules of their grammar alone. What a text means is not looked at:
surrogates need not come in pairs, numbers may have any size, keys may repeat, and brackets nest
without limit. -/
namespace LinkedViews.Json

/-- Blanks may stand around every value, key and sign. -/
abbrev Blanks := {text : Bytes // ∀ b ∈ text, isBlank b = true}

def Blanks.none : Blanks := ⟨[], nofun⟩

/-- What may stand between quotation marks. -/
inductive Quoted : Bytes → Prop
  | nil : Quoted []
  | plain (plain : IsPlain b) (later : Quoted text) : Quoted (b :: text)
  | short (short : shortEscape? e = some b) (later : Quoted text) : Quoted (0x5C :: e :: text)
  | unit (unit : hexUnit? h₁ h₂ h₃ h₄ = some n) (later : Quoted text) :
      Quoted (0x5C :: 0x75 :: h₁ :: h₂ :: h₃ :: h₄ :: text)

theorem Spells.quoted {text bytes : Bytes} (spells : Spells text bytes) : Quoted text := by
  induction spells with
  | nil => exact .nil
  | plain plain _ ih => exact .plain plain ih
  | short short _ ih => exact .short short ih
  | unit unit _ _ _ ih => exact .unit unit ih
  | pair unit _ unit' _ _ ih => exact .unit unit (.unit unit' ih)

/-- What stands between quotation marks, once its escapes are undone, is this text. -/
def Means (text : Bytes) (content : String) : Prop :=
  ∃ bytes, Spells text bytes ∧ Utf8.decode? bytes = some content.toList

/-- One digit at least, and nothing else. -/
structure IsDigits (text : Bytes) : Prop where
  nonempty : text ≠ []
  digits : ∀ b ∈ text, isDigit b = true

/-- No zero in front of another digit. -/
structure IsWhole (text : Bytes) : Prop extends IsDigits text where
  alone : text.head? = some 0x30 → text = [0x30]

inductive IsFraction : Bytes → Prop
  | absent : IsFraction []
  | point (digits : IsDigits text) : IsFraction (0x2E :: text)

inductive IsExponent : Bytes → Prop
  | absent : IsExponent []
  | letter (letter : e = 0x65 ∨ e = 0x45) (signed : sign = [] ∨ sign = [0x2B] ∨ sign = [0x2D])
      (digits : IsDigits text) : IsExponent (e :: (sign ++ text))

inductive IsNumeral : Bytes → Prop
  | parts (signed : sign = [] ∨ sign = [0x2D]) (whole : IsWhole digits)
      (fraction : IsFraction fractional) (exponent : IsExponent power) :
      IsNumeral (sign ++ (digits ++ (fractional ++ power)))

/-- A value among blanks. -/
structure Padded where
  before : Blanks
  value : Bytes
  after : Blanks

def Padded.text (p : Padded) : Bytes := p.before.1 ++ (p.value ++ p.after.1)

theorem Padded.text_append (p : Padded) (rest : Bytes) :
    p.text ++ rest = p.before.1 ++ (p.value ++ (p.after.1 ++ rest)) := by
  simp [Padded.text]

/-- A member of an object, with the blanks in front of its key and between the key and the colon. -/
structure Member where
  blanks : Blanks
  key : {text : Bytes // Quoted text}
  gap : Blanks
  content : Padded

namespace Member

def text (m : Member) : Bytes :=
  m.blanks.1 ++ 0x22 :: (m.key.1 ++ 0x22 :: (m.gap.1 ++ 0x3A :: m.content.text))

theorem text_append (m : Member) (rest : Bytes) : m.text ++ rest =
    m.blanks.1 ++ 0x22 :: (m.key.1 ++ 0x22 :: (m.gap.1 ++ 0x3A :: (m.content.text ++ rest))) := by
  simp [text]

def Named (m : Member) (name : String) : Prop := Means m.key.1 name

end Member

def Bracket.opening : Bracket → UInt8
  | array => 0x5B
  | object => 0x7B

/-- The parts after the first, each behind a comma, and the closing bracket. -/
def laterParts (bracket : Bracket) (parts : List Bytes) : Bytes :=
  parts.flatMap (0x2C :: ·) ++ [bracket.closing]

/-- Parts in brackets, with commas between them; if there are none, maybe blanks. -/
def enclosed (bracket : Bracket) (blanks : Blanks) : List Bytes → Bytes
  | [] => bracket.opening :: (blanks.1 ++ [bracket.closing])
  | part :: parts => bracket.opening :: (part ++ laterParts bracket parts)

theorem laterParts_cons (bracket : Bracket) (part : Bytes) (parts : List Bytes) :
    laterParts bracket (part :: parts) = 0x2C :: (part ++ laterParts bracket parts) := by
  simp [laterParts]

theorem laterParts_cons_append (bracket : Bracket) (part : Bytes) (parts : List Bytes)
    (rest : Bytes) : laterParts bracket (part :: parts) ++ rest =
      0x2C :: (part ++ (laterParts bracket parts ++ rest)) := by
  rw [laterParts_cons, List.cons_append, List.append_assoc]

theorem enclosed_nil (bracket : Bracket) (blanks : Blanks) (rest : Bytes) :
    enclosed bracket blanks [] ++ rest =
      bracket.opening :: (blanks.1 ++ bracket.closing :: rest) := by
  simp [enclosed]

theorem enclosed_cons (bracket : Bracket) (blanks : Blanks) (part : Bytes) (parts : List Bytes)
    (rest : Bytes) : enclosed bracket blanks (part :: parts) ++ rest =
      bracket.opening :: (part ++ (laterParts bracket parts ++ rest)) := by
  simp [enclosed]

def nullText : Bytes := 0x6E :: nullTail

inductive IsValue : Bytes → Prop
  | null : IsValue nullText
  | true : IsValue (0x74 :: trueTail)
  | false : IsValue (0x66 :: falseTail)
  | numeral (numeral : IsNumeral text) : IsValue text
  | string (quoted : Quoted text) : IsValue (0x22 :: (text ++ [0x22]))
  | array (blanks : Blanks) {items : List Padded} (values : ∀ p ∈ items, IsValue p.value) :
      IsValue (enclosed .array blanks (items.map Padded.text))
  | object (blanks : Blanks) {members : List Member}
      (values : ∀ m ∈ members, IsValue m.content.value) :
      IsValue (enclosed .object blanks (members.map Member.text))

/-- A whole text that is one object. -/
structure ObjectText where
  before : Blanks
  blanks : Blanks
  members : List Member
  after : Blanks
  values : ∀ m ∈ members, IsValue m.content.value

def ObjectText.text (o : ObjectText) : Bytes :=
  o.before.1 ++ (enclosed .object o.blanks (o.members.map Member.text) ++ o.after.1)

end LinkedViews.Json
