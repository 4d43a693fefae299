import LinkedViews.Product.RangePair
import LinkedViews.Uri.Basic

/-! Products: read-only documents derived from a source document, published whole. -/
namespace LinkedViews

/-- `name` is the kind of product, `language` the language its content is shown in. -/
structure Product where
  source : Uri
  name : String
  language : String
  content : String
  rangeMap : List RangePair
  deriving DecidableEq, Repr

inductive ProductError
  | invalidUri (raw : String) (cause : UriError)
  | notAProduct (target : Uri)
  | invertedSpan (index : Nat) (pair : RangePair)
  deriving DecidableEq, Repr

namespace ProductError

def message : ProductError → String
  | invalidUri raw cause => "invalid uri " ++ raw ++ ": " ++ cause.message
  | notAProduct target => "not a product uri: " ++ toString target
  | invertedSpan index pair =>
    "inverted span at rangeMap[" ++ toString index ++ "]: " ++ pair.text

def chain (e : ProductError) : List String :=
  match e with
  | invalidUri _ cause => [e.message, cause.message]
  | _ => [e.message]

end ProductError

namespace Product

/-- Stands in for a product that was never published. -/
def placeholder : Product := ⟨Uri.root, "", "", "", [.degenerate]⟩

/-- The first pair with an inverted span, and its place. -/
def firstInverted? (pairs : List RangePair) : Option (Nat × RangePair) :=
  (pairs.zipIdx.find? fun (pair, _) => !pair.isOrdered).map fun (pair, i) => (i, pair)

def validate (p : Product) : Except ProductError Unit :=
  match firstInverted? p.rangeMap with
  | some (index, pair) => .error (.invertedSpan index pair)
  | none => .ok ()

/-- A dash in the name or language moves the cut that leads back to the source. -/
def hasAmbiguousName (p : Product) : Bool :=
  p.name.toList.contains '-' || p.language.toList.contains '-'

end Product

/-- The number of a publish, counted over all products; it stops at the largest word. Zero is the
generation of what was never published. -/
structure Generation where
  value : Nat
  deriving DecidableEq, Repr

namespace Generation

def zero : Generation := ⟨0⟩

def next (g : Generation) : Generation := ⟨min (g.value + 1) Decimal.maxWord⟩

def debugText (g : Generation) : String := "Generation(" ++ toString g.value ++ ")"

end Generation

end LinkedViews
