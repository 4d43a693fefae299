import LinkedViews.Keyed
import LinkedViews.Product.RangePair
import LinkedViews.Uri.Basic

/-! What a session needs of an editor: to read the selections of a view, and to replace them. An
editor without windows keeps documents, views and selections, and logs what was opened and written;
its opens can be held back, and the next one can be made to fail. -/
namespace LinkedViews

/-- The editor's own number for an open view. -/
structure View where
  number : Nat
  deriving DecidableEq, Repr

structure Placement where
  column : UInt8
  preserveFocus : Bool
  deriving DecidableEq, Repr

/-- How a view scrolls once its selections are replaced. -/
inductive Reveal
  | centerIfOutside
  | minimal
  | none
  deriving DecidableEq, Repr

namespace Reveal

def text : Reveal → String
  | centerIfOutside => "center_if_outside"
  | minimal => "minimal"
  | none => "none"

def ofText? (s : String) : Option Reveal :=
  [centerIfOutside, minimal, none].find? (·.text = s)

end Reveal

inductive EditorError
  | openFailed (document : String) (reason : String)
  | unknownView (view : View)
  | closed
  deriving DecidableEq, Repr

def EditorError.message : EditorError → String
  | openFailed document reason => "failed to open " ++ document ++ ": " ++ reason
  | unknownView view => "unknown view: ViewHandle(" ++ toString view.number ++ ")"
  | closed => "editor closed"

/-- The part of an editor that answers at once. -/
class Editor (ε : Type) where
  selections : ε → View → Except EditorError (List Span)
  setSelections : ε → View → List Span → Reveal → Except EditorError ε

/-- A selection write. -/
structure Applied where
  document : Uri
  selections : List Span
  reveal : Reveal
  deriving DecidableEq, Repr

/-- An open that completed. -/
structure Opened where
  document : Uri
  placement : Placement
  deriving DecidableEq, Repr

structure HeadlessEditor where
  lastView : Nat
  views : Keyed Uri View
  documents : Keyed View Uri
  selected : Keyed View (List Span)
  opens : List Opened
  applied : List Applied
  failNext : Option String
  held : Bool

namespace HeadlessEditor

def new : HeadlessEditor := ⟨0, .empty, .empty, .empty, [], [], none, false⟩

def viewOf? (e : HeadlessEditor) (document : Uri) : Option View := e.views.find? document

def selectionsOf (e : HeadlessEditor) (document : Uri) : List Span :=
  ((e.viewOf? document).bind e.selected.find?).getD []

/-- The view of a document. A new one has a caret at the start. -/
def openNow (e : HeadlessEditor) (document : Uri) : View × HeadlessEditor :=
  match e.viewOf? document with
  | some view => (view, e)
  | none =>
    let view : View := ⟨e.lastView + 1⟩
    (view, { e with
      lastView := e.lastView + 1
      views := e.views.put document view
      documents := e.documents.put view document
      selected := e.selected.put view [.caret 0] })

/-- The user selects in a document, and opens it if need be. -/
def select (e : HeadlessEditor) (document : Uri) (selections : List Span) :
    View × HeadlessEditor :=
  let (view, e) := e.openNow document
  (view, { e with selected := e.selected.put view selections })

def selections (e : HeadlessEditor) (view : View) : Except EditorError (List Span) :=
  match e.selected.find? view with
  | some selections => .ok selections
  | none => .error (.unknownView view)

def setSelections (e : HeadlessEditor) (view : View) (selections : List Span) (reveal : Reveal) :
    Except EditorError HeadlessEditor :=
  match e.documents.find? view with
  | some document => .ok { e with
      selected := e.selected.put view selections
      applied := e.applied ++ [⟨document, selections, reveal⟩] }
  | none => .error (.unknownView view)

instance : Editor HeadlessEditor := ⟨selections, setSelections⟩

def hold (e : HeadlessEditor) : HeadlessEditor := { e with held := true }

def release (e : HeadlessEditor) : HeadlessEditor := { e with held := false }

def failOpen (e : HeadlessEditor) (reason : String) : HeadlessEditor :=
  { e with failNext := some reason }

/-- What an open comes to: a view, a failure, or nothing yet while opens are held. A failure that
was asked for does not wait. -/
def openView (e : HeadlessEditor) (document : Uri) (placement : Placement) :
    Option (Except EditorError View) × HeadlessEditor :=
  match e.failNext with
  | some reason =>
    (some (.error (.openFailed (toString document) reason)), { e with failNext := none })
  | none =>
    if e.held then (none, e)
    else
      let (view, e) := e.openNow document
      (some (.ok view), { e with opens := e.opens ++ [⟨document, placement⟩] })

end HeadlessEditor

end LinkedViews
