import LinkedViews.Session.Basic

/-! Why a command fails. A failure is told as a chain: what was attempted, and then cause after
cause. -/
namespace LinkedViews

inductive CommandFailure
  | configuration (error : ConfigError)
  | unreadable (path : String) (fault : FileFault)
  | noPublication (error : MessageError)
  | otherMessage (method : Option String)
  | invalidProduct (error : ProductError)
  | invalidScheme (error : ProductError)
  | notStored (error : ProductError)
  | unreadableScript (path : String) (fault : FileFault)
  | invalidStep (line : Nat) (fault : Json.Fault)
  | notStarted (error : SessionError)
  | unopened (path : String) (fault : FileFault)
  | invalidUri (line : Nat) (raw : String) (cause : UriError)
  deriving DecidableEq, Repr

namespace CommandFailure

def methodText : Option String → String
  | some method => "Some(" ++ Text.quote method.toList ++ ")"
  | none => "None"

def chain : CommandFailure → List String
  | configuration error => ["Failed to load configuration", error.message]
  | unreadable path fault => ["Failed to read " ++ path, fault.message]
  | noPublication error => "Not a product or publish notification" :: error.chain
  | otherMessage method => ["Not a publish notification (method: " ++ methodText method ++ ")"]
  | invalidProduct error => "Invalid product" :: error.chain
  | invalidScheme error => "Invalid document scheme" :: error.chain
  | notStored error => "Failed to store product" :: error.chain
  | unreadableScript path fault => ["Failed to read script " ++ path, fault.message]
  | invalidStep line fault => [s!"line {line}: invalid step", fault.message]
  | notStarted error => "Failed to start session" :: error.chain
  | unopened path fault => ["Failed to open " ++ path, fault.message]
  | invalidUri line raw cause =>
    [s!"line {line}: invalid uri " ++ Text.quote raw.toList, cause.message]

/-- What was attempted. -/
def message (f : CommandFailure) : String := f.chain.headD ""

end CommandFailure

end LinkedViews
