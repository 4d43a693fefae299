import LinkedViews.Store.Documents
import LinkedViews.View.Synchronizer
import LinkedViews.Wire.Message

/-! A session: one store, and everything that drives it, one event at a time. Processing an event
may ask for documents to be opened; each open later comes back as an event of its own, with the
selection that waits for it. -/
namespace LinkedViews

/-- Whether a published product is opened beside its source. -/
inductive Display
  | present
  | ignore
  deriving DecidableEq, Repr

/-- Asked once for each product that is stored. -/
abbrev Policy := Product → Display

namespace Policy

def all : Policy := fun _ => .present

def none : Policy := fun _ => .ignore

def named (names : List String) : Policy := fun p => if p.name ∈ names then .present else .ignore

end Policy

inductive Event
  | notification (body : Bytes)
  | channelClosed
  | selectionChanged (document : Uri) (view : View) (selections : List Span)
  | manualSync (document : Uri) (view : View)
  | viewOpened (document : Uri) (result : Except EditorError View)
      (pending : Option PendingSelection)
  | viewClosed (document : Uri)
  | shutdown

inductive Flow
  | continue
  | stop
  deriving DecidableEq, Repr

/-- An event that failed stops nothing. -/
def Flow.ofResult {ε : Type} : Except ε Flow → Flow
  | .ok flow => flow
  | .error _ => .continue

/-- Why an event failed, or a session cannot start. -/
inductive SessionError
  | malformed (error : MessageError)
  | editor (error : EditorError)
  | invalidConfig (error : ProductError)
  | closed
  deriving DecidableEq, Repr

namespace SessionError

def message : SessionError → String
  | malformed error => "malformed notification: " ++ error.message
  | editor error => error.message
  | invalidConfig error => "invalid configuration: " ++ error.message
  | closed => "session closed"

def chain (e : SessionError) : List String :=
  match e with
  | malformed error => e.message :: error.chain
  | invalidConfig error => e.message :: error.chain
  | editor _ | closed => [e.message]

end SessionError

/-- An open that the session asks the editor for. -/
structure OpenRequest where
  document : Uri
  placement : Placement
  pending : Option PendingSelection
  deriving DecidableEq, Repr

/-- A publish that was stored, and what the policy says to it. -/
structure Published where
  target : Uri
  generation : Generation
  display : Display
  deriving DecidableEq, Repr

namespace Store

/-- Stores a product and asks the policy. -/
def publish (s : Store) (policy : Policy) (product : Product) :
    Except ProductError (Published × Store) := do
  let (target, s) ← s.save product
  return (⟨target, (s.get target).generation, policy product⟩, s)

/-- One message body. Messages that publish nothing leave the store alone. -/
def receive (s : Store) (policy : Policy) (body : Bytes) :
    Except MessageError (Option Published × Store) :=
  match Message.parse body with
  | .error error => .error error
  | .ok (.ignored _) => .ok (none, s)
  | .ok (.publish publication) =>
    match publication.toProduct with
    | .error error => .error (.product error)
    | .ok product =>
      match s.publish policy product with
      | .error error => .error (.product error)
      | .ok (published, s) => .ok (some published, s)

end Store

structure Session where
  store : Store
  documents : Documents
  policy : Policy
  synchronizer : Synchronizer
  pendingOpens : Nat
  readers : Nat

/-- What processing an event leads to; an error keeps what was done before it. -/
structure Step (ε : Type) where
  session : Session
  editor : ε
  requests : List OpenRequest
  result : Except SessionError Flow

namespace Session

def new (config : Config) (policy : Policy) : Except SessionError Session :=
  match config.naming with
  | .error error => .error (.invalidConfig error)
  | .ok naming =>
    let (documents, store) :=
      Documents.new (.new naming) config.documents.unknownContent config.session.changeCapacity
    .ok ⟨store, documents, policy, .new config, 0, 0⟩

variable {ε : Type} [Editor ε]

def request (s : Session) (r : OpenRequest) : Session :=
  { s with
    pendingOpens := s.pendingOpens + 1
    synchronizer := s.synchronizer.expectOpen r.document }

/-- The open that carries a pending selection to its document. -/
def OpenRequest.of (p : PendingSelection) : OpenRequest := ⟨p.document, p.placement, some p⟩

def requestAll (s : Session) (pending : List PendingSelection) (editor : ε) : Step ε :=
  let requests := pending.map OpenRequest.of
  ⟨requests.foldl request s, editor, requests, .ok .continue⟩

/-- A product that is to be shown is opened, unless it is open or about to be. -/
def onNotification (s : Session) (editor : ε) (body : Bytes) : Step ε :=
  match s.store.receive s.policy body with
  | .error error => ⟨s, editor, [], .error (.malformed error)⟩
  | .ok (none, _) => ⟨s, editor, [], .ok .continue⟩
  | .ok (some published, store) =>
    let y := s.synchronizer.contentReplaced published.target
    let s := { s with store := store, synchronizer := y }
    if published.display = .present ∧ y.isOpen published.target = false
        ∧ y.isOpening published.target = false then
      let r : OpenRequest := ⟨published.target, y.targetPlacement, none⟩
      ⟨s.request r, editor, [r], .ok .continue⟩
    else ⟨s, editor, [], .ok .continue⟩

/-- An open came back: the document is shown, and the selection that waited for it is written. -/
def onViewOpened (s : Session) (editor : ε) (document : Uri) (result : Except EditorError View)
    (pending : Option PendingSelection) : Step ε :=
  let s := { s with
    pendingOpens := s.pendingOpens - 1
    synchronizer := s.synchronizer.openFinished document }
  match result with
  | .error error => ⟨s, editor, [], .error (.editor error)⟩
  | .ok view =>
    let s := { s with synchronizer := s.synchronizer.registerView document view }
    match pending with
    | none => ⟨s, editor, [], .ok .continue⟩
    | some p =>
      match s.synchronizer.apply s.store editor view p with
      | .error error => ⟨s, editor, [], .error (.editor error)⟩
      | .ok (_, y, editor) => ⟨{ s with synchronizer := y }, editor, [], .ok .continue⟩

theorem requests_onViewOpened (s : Session) (editor : ε) (document : Uri)
    (result : Except EditorError View) (pending : Option PendingSelection) :
    (s.onViewOpened editor document result pending).requests = [] := by
  unfold onViewOpened
  grind

def process (s : Session) (editor : ε) : Event → Step ε
  | .notification body => s.onNotification editor body
  | .channelClosed => ⟨{ s with readers := s.readers - 1 }, editor, [], .ok .continue⟩
  | .selectionChanged document view selections =>
    let (pending, y, store) :=
      s.synchronizer.onSelectionChanged s.store document view selections
    { s with synchronizer := y, store := store }.requestAll pending editor
  | .manualSync document view =>
    match Editor.selections editor view with
    | .error error => ⟨s, editor, [], .error (.editor error)⟩
    | .ok selections =>
      let (pending, store) := s.synchronizer.manualSync s.store document selections
      { s with store := store }.requestAll pending editor
  | .viewOpened document result pending => s.onViewOpened editor document result pending
  | .viewClosed document =>
    ⟨{ s with synchronizer := s.synchronizer.forgetView document }, editor, [], .ok .continue⟩
  | .shutdown => ⟨s, editor, [], .ok .stop⟩

def debugText (s : Session) : String :=
  "Session \x7b pending_opens: " ++ toString s.pendingOpens ++ ", readers: "
    ++ toString s.readers ++ ", .. \x7d"

end Session

end LinkedViews
