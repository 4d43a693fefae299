import LinkedViews.Wire.Envelope
import LinkedViews.Wire.Publication

/-! Message bodies. One notification is acted on, the publication of a product; everything else that
is a proper message is ignored. -/
namespace LinkedViews

inductive Message
  | publish (publication : Publication)
  | ignored (method : Option String)
  deriving DecidableEq, Repr

/-- Why a body is no message, or its payload no product. -/
inductive MessageError
  | undecodable (fault : Json.Fault)
  | unsupportedVersion (version : String)
  | missingParams (method : String)
  | product (error : ProductError)
  deriving DecidableEq, Repr

namespace MessageError

def message : MessageError → String
  | undecodable fault => "deserialization failed: " ++ fault.message
  | unsupportedVersion version => "unsupported jsonrpc version: " ++ version
  | missingParams method => "notification " ++ method ++ " has no params"
  | product error => error.message

def chain (e : MessageError) : List String :=
  match e with
  | undecodable fault => [e.message, fault.message]
  | product error => error.chain
  | _ => [e.message]

def ofEnvelope : EnvelopeError → MessageError
  | .undecodable fault => undecodable fault
  | .unsupportedVersion version => unsupportedVersion version

end MessageError

namespace Message

def publishMethod : String := "monto/publishProduct"

def parse (body : Bytes) : Except MessageError Message :=
  match Envelope.parse body with
  | .error e => .error (.ofEnvelope e)
  | .ok envelope =>
    if envelope.isNotification ∧ envelope.method = some publishMethod then
      match envelope.params with
      | none => .error (.missingParams publishMethod)
      | some params =>
        match Publication.ofJson params with
        | .ok publication => .ok (.publish publication)
        | .error fault => .error (.undecodable fault)
    else .ok (.ignored envelope.method)

/-- What was ignored has no form of its own, and is written with its method and no content. -/
def envelope : Message → Envelope
  | publish publication => .notification publishMethod publication.toJson
  | ignored method => .notification (method.getD "") .null

def encode (m : Message) : Bytes := m.envelope.encode

end Message

end LinkedViews
