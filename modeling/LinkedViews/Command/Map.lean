import LinkedViews.Command.Failure

/-! Mapping one offset through the range pairs of a product file. -/
namespace LinkedViews

/-- A file holds the payload alone, or the whole notification. -/
def Publication.ofFile (bytes : Bytes) : Except CommandFailure Publication :=
  match Publication.parse bytes with
  | .ok publication => .ok publication
  | .error _ =>
    match Message.parse bytes with
    | .error error => .error (.noPublication error)
    | .ok (.ignored method) => .error (.otherMessage method)
    | .ok (.publish publication) => .ok publication

def Publication.load (files : Files) (path : String) : Except CommandFailure Publication :=
  match files path with
  | .ok bytes => ofFile bytes
  | .error fault => .error (.unreadable path fault)

namespace MapCommand

def line (target : Uri) (direction : Direction) (offset : UInt64) (found : Option RangePair) :
    String :=
  s!"{target} {direction.text} {offset.toNat} -> " ++
    match found with
    | some pair => (direction.destination pair).text
    | none => "unmapped"

/-- The answer of a store that holds this one product. -/
def answer (config : Config) (publication : Publication) (offset : UInt64)
    (direction : Direction) : Except CommandFailure String := do
  let product ← publication.toProduct.mapError .invalidProduct
  let naming ← config.naming.mapError .invalidScheme
  let (target, store) ← ((Store.new naming).save product).mapError .notStored
  return line target direction offset ((store.get target).index.find? direction offset)

def run (config : Config) (files : Files) (path : String) (offset : UInt64)
    (direction : Direction) : Except CommandFailure String := do
  answer config (← Publication.load files path) offset direction

end MapCommand

end LinkedViews
