/-! Configuration documents: values, tables, and how a table came to be, which decides what may
still be added to it. -/
namespace LinkedViews

namespace Toml

/-- A table is written inline, opened by a header of its own, implied by the header of a table
below it, or made by dotted keys. -/
inductive Origin
  | inline
  | header
  | implied
  | dotted
  deriving DecidableEq, Repr

end Toml

/-- Moments, and numbers that are not integers, are kept without their content: no setting asks for
one. `tables` are the tables of repeated headers, the latest first. -/
inductive Toml
  | string (value : String)
  | integer (value : Int)
  | real
  | bool (value : Bool)
  | moment
  | array (items : List Toml)
  | table (origin : Toml.Origin) (entries : List (String × Toml))
  | tables (items : List (List (String × Toml)))
  deriving Repr, Inhabited

end LinkedViews
