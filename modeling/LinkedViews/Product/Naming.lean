import LinkedViews.Product.Basic
import LinkedViews.Text.Quoted
import LinkedViews.Uri.Parse

/-! The identifiers of products. A product is named by the path of its source, a dash, its name, a
dot and its language, under the scheme of products; cutting at the last dash leads back. -/
namespace LinkedViews

structure Naming where
  scheme : String
  sourceScheme : String
  deriving DecidableEq, Repr

def Uri.read (raw : String) : Except ProductError Uri :=
  match Uri.parse raw with
  | .ok uri => .ok uri
  | .error cause => .error (.invalidUri raw cause)

namespace Naming

def default : Naming := ⟨"monto", "file"⟩

def lowered (s : String) : String := String.ofList (s.toList.map Text.lower)

/-- Each scheme must begin an identifier; letters are lowered. -/
def new (scheme sourceScheme : String) : Except ProductError Naming := do
  let _ ← Uri.read (scheme ++ ":/")
  let _ ← Uri.read (sourceScheme ++ ":/")
  return ⟨lowered scheme, lowered sourceScheme⟩

/-- Of the source only the path is kept. -/
def encode (naming : Naming) (source : Uri) (name language : String) :
    Except ProductError Uri :=
  Uri.read (naming.scheme ++ ":" ++ source.path ++ "-" ++ name ++ "." ++ language)

def decode (naming : Naming) (target : Uri) : Except ProductError Uri :=
  match Text.beforeLast '-' target.path.toList with
  | some path => Uri.read (naming.sourceScheme ++ ":" ++ String.ofList path)
  | none => .error (.notAProduct target)

def isTarget (naming : Naming) (uri : Uri) : Bool := uri.scheme = naming.scheme

def debugText (naming : Naming) : String :=
  "UriCodec \x7b scheme: " ++ Text.quote naming.scheme.toList ++ ", source_scheme: "
    ++ Text.quote naming.sourceScheme.toList ++ " \x7d"

end Naming

def Product.target (p : Product) (naming : Naming) : Except ProductError Uri :=
  naming.encode p.source p.name p.language

end LinkedViews
