import LinkedViews.Command.Script
import LinkedViews.Session.EventLoop

/-! Replaying a script in a session of its own. After every step the session comes to rest, and the
transcript tells what changed since the step before: contents, opens, and writes of selections. -/
namespace LinkedViews

/-- How much of the changes, the opens and the writes has been told. -/
structure Transcript where
  receiver : Receiver
  opensSeen : Nat
  appliedSeen : Nat
  deriving DecidableEq, Repr

namespace Transcript

def changeLine : Received ContentChange → String
  | .entry change => s!"  content {change.target} generation {change.generation.value}"
  | .lagged lost => s!"  content ({lost} changes skipped)"

def spansText (spans : List Span) : String := " ".intercalate (spans.map Span.text)

def openLine (o : Opened) : String := s!"  open {o.document} column {o.placement.column.toNat}"

def applyLine (a : Applied) : String := s!"  apply {a.document} " ++ spansText a.selections

def flush (t : Transcript) (l : EventLoop) : List String × Transcript :=
  let (changes, receiver) := l.session.documents.drain l.session.store t.receiver
  (changes.map changeLine ++ (l.editor.opens.drop t.opensSeen).map openLine
      ++ (l.editor.applied.drop t.appliedSeen).map applyLine,
    ⟨receiver, l.editor.opens.length, l.editor.applied.length⟩)

end Transcript

/-- What the user does in the editor, the line that announces it, and the event that it leads to. -/
structure Move where
  editor : HeadlessEditor
  announcement : String
  event : Event

namespace ScriptStep

def readDocument (line : Nat) (raw : String) : Except CommandFailure Uri :=
  (Uri.parse raw).mapError (.invalidUri line raw)

/-- A document that is selected or synced is opened by the user if it has no view. -/
def move (editor : HeadlessEditor) (line : Nat) : ScriptStep → Except CommandFailure Move
  | .publish p =>
    .ok ⟨editor, s!"> publish {p.uri} {p.name}.{p.language}",
      .notification (Message.publish p).encode⟩
  | .select raw selections => do
    let uri ← readDocument line raw
    let (view, editor) := editor.select uri selections
    return ⟨editor, s!"> select {uri} " ++ Transcript.spansText selections,
      .selectionChanged uri view selections⟩
  | .sync raw => do
    let uri ← readDocument line raw
    let (view, editor) := editor.openNow uri
    return ⟨editor, s!"> sync {uri}", .manualSync uri view⟩
  | .close raw => do
    let uri ← readDocument line raw
    return ⟨editor, s!"> close {uri}", .viewClosed uri⟩

end ScriptStep

structure Replay where
  loop : EventLoop
  transcript : Transcript

namespace Replay

def start (config : Config) (policy : Policy) : Except CommandFailure Replay := do
  let l ← (EventLoop.new config policy).mapError .notStarted
  return ⟨l, ⟨l.session.documents.subscribe l.session.store, 0, 0⟩⟩

/-- What is written of an event that was met with an error. -/
def complaint : Except SessionError Flow → List String
  | .ok _ => []
  | .error error => ["  ! " ++ error.message]

/-- The loop once it met the event of a move, and what is written before it comes to rest. -/
def begin (r : Replay) (move : Move) : List String × EventLoop :=
  let (result, l) := { r.loop with editor := move.editor }.process move.event
  (move.announcement :: complaint result, l)

/-- What the session did until it came to rest, after the heading. -/
def tell (r : Replay) (heading : List String) (l : EventLoop) : List String × Replay :=
  let (lines, transcript) := r.transcript.flush l
  (heading ++ lines, ⟨l, transcript⟩)

def make (r : Replay) (move : Move) : List String × Replay :=
  let (heading, l) := r.begin move
  r.tell heading l.settle.2

def play (r : Replay) (line : Nat) (step : ScriptStep) :
    Except CommandFailure (List String × Replay) :=
  (step.move r.loop.editor line).map r.make

def openFrames (files : Files) (path : String) : Except CommandFailure Channel :=
  match files path with
  | .ok stream => .ok (.framed ⟨stream, true⟩)
  | .error .directory => .ok (.framed ⟨[], true⟩)
  | .error fault => .error (.unopened path fault)

def framesHeading (path : String) : List String := ["> frames " ++ path]

/-- A framed stream from a file, read to its end before the script. -/
def playFrames (r : Replay) (files : Files) (path : String) :
    Except CommandFailure (List String × Replay) :=
  (openFrames files path).map fun channel =>
    r.tell (framesHeading path) (r.loop.attach channel).settle.2

/-- Lines told so far, and what ended the replay before its time. -/
structure Outcome where
  lines : List String
  failure : Option CommandFailure
  replay : Option Replay

def Outcome.failed (failure : CommandFailure) : Outcome := ⟨[], some failure, none⟩

/-- The lines of the steps, up to the first that fails. -/
def playAll (r : Replay) : Script → Outcome
  | [] => ⟨[], none, some r⟩
  | (line, step) :: script =>
    match r.play line step with
    | .error failure => ⟨[], some failure, some r⟩
    | .ok (lines, r) =>
      let rest := r.playAll script
      { rest with lines := lines ++ rest.lines }

def playWithFrames (r : Replay) (files : Files) (frames : Option String) (script : Script) :
    Outcome :=
  match frames with
  | none => r.playAll script
  | some path =>
    match r.playFrames files path with
    | .error failure => ⟨[], some failure, some r⟩
    | .ok (lines, r) =>
      let rest := r.playAll script
      { rest with lines := lines ++ rest.lines }

def run (config : Config) (files : Files) (path : String) (frames : Option String)
    (policy : Policy) : Outcome :=
  match Script.load files path with
  | .error failure => .failed failure
  | .ok script =>
    match start config policy with
    | .error failure => .failed failure
    | .ok r => r.playWithFrames files frames script

end Replay

end LinkedViews
