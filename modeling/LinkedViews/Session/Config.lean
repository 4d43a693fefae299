import LinkedViews.Files
import LinkedViews.Product.Naming
import LinkedViews.Toml.Read
import LinkedViews.View.Editor

/-! The settings of a session, each with a default. A section may also be given as a list of its
settings in their order; unknown settings are passed over. -/
namespace LinkedViews

structure DocumentSettings where
  scheme : String := "monto"
  sourceScheme : String := "file"
  unknownContent : String := "unknown content"
  deriving DecidableEq, Repr

structure ViewSettings where
  reveal : Reveal := .centerIfOutside
  targetColumn : UInt8 := 2
  sourceColumn : UInt8 := 1
  deriving DecidableEq, Repr

structure SessionSettings where
  eventCapacity : Nat := 256
  changeCapacity : Nat := 64
  logFilter : String := "info"
  deriving DecidableEq, Repr

structure Config where
  documents : DocumentSettings := {}
  views : ViewSettings := {}
  session : SessionSettings := {}
  deriving DecidableEq, Repr

namespace Toml

/-- A setting under its key or in its place, if it is given. -/
def member? (value : Toml) (place : Nat) (key : String) : Option (Option Toml) :=
  match value with
  | .table _ entries => some (lookUp key entries)
  | .array items => some items[place]?
  | .tables items => some ((items.reverse[place]?).map (.table .header ·))
  | .moment => some none
  | _ => none

/-- The setting, its default if it is absent, and nothing if it is of the wrong kind. -/
def setting? (value : Toml) (place : Nat) (key : String) (absent : α) (read : Toml → Option α) :
    Option α :=
  match value.member? place key with
  | some (some member) => read member
  | some none => some absent
  | none => none

def string? : Toml → Option String
  | string s => some s
  | _ => none

def natUpTo? (limit : Nat) : Toml → Option Nat
  | integer (.ofNat n) => if n ≤ limit then some n else none
  | _ => none

def column? (value : Toml) : Option UInt8 := (natUpTo? 255 value).map Nat.toUInt8

def isEmptyList : Toml → Bool
  | array [] | table _ [] => true
  | _ => false

/-- A choice is its name, or a table from its name to nothing. -/
def reveal? : Toml → Option Reveal
  | string s => Reveal.ofText? s
  | table _ [(name, value)] => if value.isEmptyList then Reveal.ofText? name else none
  | _ => none

end Toml

def DocumentSettings.ofToml? (value : Toml) : Option DocumentSettings := do
  let scheme ← value.setting? 0 "scheme" "monto" Toml.string?
  let sourceScheme ← value.setting? 1 "source_scheme" "file" Toml.string?
  let unknownContent ← value.setting? 2 "unknown_content" "unknown content" Toml.string?
  return ⟨scheme, sourceScheme, unknownContent⟩

def ViewSettings.ofToml? (value : Toml) : Option ViewSettings := do
  let reveal ← value.setting? 0 "reveal" .centerIfOutside Toml.reveal?
  let targetColumn ← value.setting? 1 "target_column" 2 Toml.column?
  let sourceColumn ← value.setting? 2 "source_column" 1 Toml.column?
  return ⟨reveal, targetColumn, sourceColumn⟩

def SessionSettings.ofToml? (value : Toml) : Option SessionSettings := do
  let eventCapacity ← value.setting? 0 "event_capacity" 256 (Toml.natUpTo? Decimal.maxWord)
  let changeCapacity ← value.setting? 1 "change_capacity" 64 (Toml.natUpTo? Decimal.maxWord)
  let logFilter ← value.setting? 2 "log_filter" "info" Toml.string?
  return ⟨eventCapacity, changeCapacity, logFilter⟩

/-- Why a configuration file cannot be used. -/
inductive ConfigError
  | unreadable (path : String) (fault : FileFault)
  | invalid
  deriving DecidableEq, Repr

/-- What is wrong with an invalid file is not told. -/
def ConfigError.message : ConfigError → String
  | unreadable path fault => "failed to read config file " ++ path ++ ": " ++ fault.message
  | invalid => "failed to parse config"

namespace Config

def ofToml? (root : Toml) : Option Config := do
  let documents ← root.setting? 0 "documents" {} DocumentSettings.ofToml?
  let views ← root.setting? 1 "views" {} ViewSettings.ofToml?
  let session ← root.setting? 2 "session" {} SessionSettings.ofToml?
  return ⟨documents, views, session⟩

def parse? (text : List Char) : Option Config := do
  let entries ← Toml.parse? text
  ofToml? (.table .header entries)

def ofText (text : List Char) : Except ConfigError Config :=
  match parse? text with
  | some config => .ok config
  | none => .error .invalid

def load (files : Files) (path : String) : Except ConfigError Config :=
  match files.readText path with
  | .ok text => ofText text
  | .error fault => .error (.unreadable path fault)

def naming (c : Config) : Except ProductError Naming :=
  Naming.new c.documents.scheme c.documents.sourceScheme

/-- Product views open beside the source and leave the focus where it is. -/
def targetPlacement (c : Config) : Placement := ⟨c.views.targetColumn, true⟩

def sourcePlacement (c : Config) : Placement := ⟨c.views.sourceColumn, false⟩

end Config

end LinkedViews
