import LinkedViews.Text.Blank
import LinkedViews.Text.Printable
import LinkedViews.Uri.Punycode

/-! Domain names: letters are small, labels are divided by full stops, and a label with a character
outside ASCII is written in its ASCII form. -/
namespace LinkedViews.Uri.Domain

open Text

/-- Capital letters outside ASCII, as first and last of a run, the step within it, and how far the
small letter lies behind the capital. -/
def capitals : List (Nat × Nat × Nat × Nat) :=
  [(0xC0, 0xD6, 1, 32), (0xD8, 0xDE, 1, 32), (0x100, 0x12E, 2, 1), (0x134, 0x136, 2, 1),
    (0x139, 0x13D, 2, 1), (0x141, 0x147, 2, 1), (0x14A, 0x176, 2, 1), (0x179, 0x17D, 2, 1),
    (0x1CD, 0x1DB, 2, 1), (0x1DE, 0x1EE, 2, 1), (0x1F8, 0x21E, 2, 1), (0x222, 0x232, 2, 1),
    (0x370, 0x372, 2, 1), (0x386, 0x386, 1, 38), (0x388, 0x38A, 1, 37), (0x38C, 0x38C, 1, 64),
    (0x38E, 0x38F, 1, 63), (0x391, 0x3A1, 1, 32), (0x3A3, 0x3AB, 1, 32), (0x3D8, 0x3EE, 2, 1),
    (0x400, 0x40F, 1, 80), (0x410, 0x42F, 1, 32), (0x460, 0x480, 2, 1), (0x48A, 0x4BE, 2, 1),
    (0x4C1, 0x4CD, 2, 1), (0x4D0, 0x52E, 2, 1), (0x531, 0x556, 1, 48), (0x1E00, 0x1E94, 2, 1),
    (0x1EA0, 0x1EFE, 2, 1)]

def small (c : Char) : Char :=
  match capitals.find? fun (low, high, step, _) =>
      low ≤ c.toNat && c.toNat ≤ high && (c.toNat - low) % step = 0 with
  | some (_, _, _, distance) => Char.ofNat (c.toNat + distance)
  | none => lower c

/-- The soft hyphen, the joiner of words, the byte order mark and the choice of a glyph. -/
def ignored : List (Nat × Nat) :=
  [(0xAD, 0xAD), (0x34F, 0x34F), (0x180B, 0x180D), (0x200B, 0x200B), (0x2060, 0x2060),
    (0x2064, 0x2064), (0xFE00, 0xFE0F), (0xFEFF, 0xFEFF)]

/-- Small letters for capitals, narrow characters for wide ones, the full stop for its variants. -/
def fold (c : Char) : List Char :=
  if within ignored c then []
  else if c.toNat = 0x3002 ∨ c.toNat = 0xFF61 then ['.']
  else if 0xFF01 ≤ c.toNat ∧ c.toNat ≤ 0xFF5E then [lower (Char.ofNat (c.toNat - 0xFEE0))]
  else [small c]

/-- Controls, separators and the replacement character have no place in a label, and it cannot
begin with a mark that needs a character before it. -/
def admits (label : List Char) : Bool :=
  (label.filter (!Punycode.isPlain ·)).all (fun c => !within unseen c && c.toNat ≠ 0xFFFD) &&
    (label.head?.all fun c => !within attached c)

/-- A label that comes in its ASCII form has to stand for one that needs it. -/
def labelText? (label : List Char) : Option (List Char) :=
  match label with
  | 'x' :: 'n' :: '-' :: '-' :: rest => do
    let name ← Punycode.decode? rest
    if name.flatMap fold = name ∧ admits name ∧ ¬ name.all Punycode.isPlain then some label
    else none
  | _ =>
    if label.all Punycode.isPlain then some label
    else if admits label then some ('x' :: 'n' :: '-' :: '-' :: Punycode.encode label)
    else none

def ascii? (name : List Char) : Option (List Char) := do
  let labels ← (splitOn (· = '.') (name.flatMap fold)).mapM labelText?
  some (['.'].intercalate labels)

end LinkedViews.Uri.Domain
