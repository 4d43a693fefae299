import LinkedViews.Text.Utf8

/-! Percent triples: each part of an identifier has its own characters that stand for themselves,
and every other character is written as the triples of its bytes. -/
namespace LinkedViews.Uri

def upperHex (d : Nat) : Char := if d < 10 then Char.ofNat (48 + d) else Char.ofNat (55 + d)

def triple (b : UInt8) : List Char := ['%', upperHex (b.toNat / 16), upperHex (b.toNat % 16)]

def escapeChar (reserved : Char → Bool) (c : Char) : List Char :=
  if reserved c then (Utf8.encodeChar c).flatMap triple else [c]

def escape (reserved : Char → Bool) (text : List Char) : List Char :=
  text.flatMap (escapeChar reserved)

/-- Controls and everything past ASCII; the only characters escaped in an opaque part. -/
def isControl (c : Char) : Bool := c.toNat < 0x20 || 0x7F ≤ c.toNat

def reservedInFragment (c : Char) : Bool :=
  isControl c || c == ' ' || c == '"' || c == '<' || c == '>' || c == '`'

def reservedInPath (c : Char) : Bool :=
  reservedInFragment c || c == '#' || c == '?' || c == '\x7b' || c == '\x7d'

def reservedInCredentials (c : Char) : Bool :=
  reservedInPath c || ['/', ':', ';', '=', '@', '[', '\\', ']', '^', '|'].contains c

def reservedInQuery (c : Char) : Bool :=
  isControl c || c == ' ' || c == '"' || c == '#' || c == '<' || c == '>'

/-- Queries of the schemes with a fixed meaning also escape the apostrophe. -/
def reservedInSpecialQuery (c : Char) : Bool := reservedInQuery c || c == '\''

theorem escape_of_free {reserved : Char → Bool} {text : List Char}
    (free : ∀ c ∈ text, reserved c = false) : escape reserved text = text := by
  induction text with
  | nil => rfl
  | cons c rest ih =>
    have hc := free c (by simp)
    have hr := ih fun x hx => free x (by simp [hx])
    simp only [escape, List.flatMap_cons, escapeChar, hc] at hr ⊢
    simp [hr]

end LinkedViews.Uri
