import LinkedViews.Text.Decimal

/-! Document identifiers in normal form. An identifier is its parts; its text puts them together
again, and two documents are the same when scheme, host and path agree. -/
namespace LinkedViews

/-- What follows the two slashes. Credentials stand without their at sign. -/
structure Authority where
  credentials : String
  host : String
  port : Option Nat
  deriving DecidableEq, Repr

structure Uri where
  scheme : String
  authority : Option Authority
  path : String
  query : Option String
  fragment : Option String
  deriving DecidableEq, Repr

namespace Authority

/-- The authority of a local file: nothing between the second slash and the third. -/
def none : Authority := ⟨"", "", Option.none⟩

def text (a : Authority) : List Char :=
  (if a.credentials = "" then [] else a.credentials.toList ++ ['@']) ++ a.host.toList ++
    match a.port with
    | some port => ':' :: Decimal.digits port
    | .none => []

end Authority

namespace Uri

/-- Without an authority, a path that begins with two slashes is set off by a dot segment, or its
first segment would read as one. -/
def hierarchy (u : Uri) : List Char :=
  match u.authority, u.path.toList with
  | some a, path => '/' :: '/' :: a.text ++ path
  | none, '/' :: '/' :: rest => '/' :: '.' :: '/' :: '/' :: rest
  | none, path => path

def marked (mark : Char) : Option String → List Char
  | some text => mark :: text.toList
  | none => []

def text (u : Uri) : List Char :=
  u.scheme.toList ++ ':' :: u.hierarchy ++ marked '?' u.query ++ marked '#' u.fragment

instance : ToString Uri := ⟨fun u => String.ofList u.text⟩

/-- An empty host counts as no host. -/
def host? (u : Uri) : Option String :=
  u.authority.bind fun a => if a.host = "" then none else some a.host

/-- Query and fragment do not tell documents apart. -/
def SameDocument (u v : Uri) : Prop :=
  u.scheme = v.scheme ∧ u.host? = v.host? ∧ u.path = v.path

instance (u v : Uri) : Decidable (u.SameDocument v) := by
  unfold SameDocument; infer_instance

/-- The root of the local file system. -/
def root : Uri := ⟨"file", some .none, "/", none, none⟩

end Uri

/-- Why a text is no identifier. -/
inductive UriError
  | relativeWithoutBase
  | emptyHost
  | invalidPort
  | invalidIpv4
  | invalidIpv6
  | invalidDomainName
  | invalidDomainCharacter
  deriving DecidableEq, Repr

def UriError.message : UriError → String
  | relativeWithoutBase => "relative URL without a base"
  | emptyHost => "empty host"
  | invalidPort => "invalid port number"
  | invalidIpv4 => "invalid IPv4 address"
  | invalidIpv6 => "invalid IPv6 address"
  | invalidDomainName => "invalid international domain name"
  | invalidDomainCharacter => "invalid domain character"

end LinkedViews
