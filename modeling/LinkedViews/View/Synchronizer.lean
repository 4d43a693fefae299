import LinkedViews.Session.Config
import LinkedViews.Store.Basic
import LinkedViews.View.Echoes

/-! Routing selections. An event on a product view maps backward into the source; an event on a
source view maps forward into every linked product that is open. What comes out is pending: it
waits for its document to open, and is dropped if its product is published again meanwhile. -/
namespace LinkedViews

/-- Mapped selections on their way to `document`, and the snapshot they were mapped through. -/
structure PendingSelection where
  document : Uri
  placement : Placement
  origin : Uri
  generation : Generation
  selections : List Span
  deriving DecidableEq, Repr

inductive ApplyOutcome
  | applied
  | stale
  deriving DecidableEq, Repr

/-- The open views, the writes whose report is awaited, and the documents that are being opened. -/
structure Synchronizer where
  views : Keyed Uri View
  echoes : Echoes Uri
  opening : Keyed Uri Unit
  targetPlacement : Placement
  sourcePlacement : Placement
  reveal : Reveal

namespace Synchronizer

def new (config : Config) : Synchronizer where
  views := .empty
  echoes := .empty
  opening := .empty
  targetPlacement := config.targetPlacement
  sourcePlacement := config.sourcePlacement
  reveal := config.views.reveal

def registerView (y : Synchronizer) (document : Uri) (view : View) : Synchronizer :=
  { y with views := y.views.put document view }

/-- A closed view leaves nothing behind. -/
def forgetView (y : Synchronizer) (document : Uri) : Synchronizer :=
  { y with
    views := y.views.erase document
    echoes := y.echoes.forget document
    opening := y.opening.erase document }

def expectOpen (y : Synchronizer) (document : Uri) : Synchronizer :=
  { y with opening := y.opening.put document () }

def openFinished (y : Synchronizer) (document : Uri) : Synchronizer :=
  { y with opening := y.opening.erase document }

def isOpening (y : Synchronizer) (document : Uri) : Bool := y.opening.contains document

def view? (y : Synchronizer) (document : Uri) : Option View := y.views.find? document

def isOpen (y : Synchronizer) (document : Uri) : Bool := y.views.contains document

/-- New content makes a write to it moot. -/
def contentReplaced (y : Synchronizer) (target : Uri) : Synchronizer :=
  { y with echoes := y.echoes.forget target }

def route? (y : Synchronizer) (store : Store) (target : Uri) (action : Action)
    (selections : List Span) (direction : Direction) : Option PendingSelection :=
  if action = .propagate then
    let stored := store.get target
    let mapped := stored.index.mapSelections direction selections
    if mapped = [] then none
    else
      let (document, placement) := match direction with
        | .forward => (target, y.targetPlacement)
        | .backward => (stored.product.source, y.sourcePlacement)
      some ⟨document, placement, target, stored.generation, mapped⟩
  else none

def openLinked (y : Synchronizer) (store : Store) (source : Uri) : List Uri :=
  (store.linkedTargets source).filter y.isOpen

/-- One event sent forward into each of the targets, in their order. -/
def routeForward (y : Synchronizer) (event : Store → Uri → Action × Store)
    (selections : List Span) : List Uri → Store → List PendingSelection × Store
  | [], store => ([], store)
  | target :: targets, store =>
    let (action, store) := event store target
    let pending := y.route? store target action selections .forward
    let (rest, store) := y.routeForward event selections targets store
    (pending.toList ++ rest, store)

/-- A selection that the editor reports. While the document is being opened, and when it is the
echo of a write, it is no gesture. -/
def onSelectionChanged (y : Synchronizer) (store : Store) (document : Uri) (view : View)
    (selections : List Span) : List PendingSelection × Synchronizer × Store :=
  let y := y.registerView document view
  if y.isOpening document then ([], y, store)
  else
    let (isEcho, echoes) := y.echoes.absorb document selections
    let y := { y with echoes := echoes }
    if isEcho then ([], y, store)
    else if store.naming.isTarget document then
      let (action, store) := store.onSelection document
      ((y.route? store document action selections .backward).toList, y, store)
    else
      let (pending, store) :=
        y.routeForward Store.onSelection selections (y.openLinked store document) store
      (pending, y, store)

/-- The selections of a source document, pushed into all open linked products whatever their
state. -/
def manualSync (y : Synchronizer) (store : Store) (document : Uri) (selections : List Span) :
    List PendingSelection × Store :=
  if store.naming.isTarget document then ([], store)
  else y.routeForward Store.onManualSync selections (y.openLinked store document) store

/-- Writes a pending selection into its view, unless its snapshot is gone. -/
def apply {ε : Type} [Editor ε] (y : Synchronizer) (store : Store) (editor : ε) (view : View)
    (pending : PendingSelection) : Except EditorError (ApplyOutcome × Synchronizer × ε) :=
  if store.isCurrent pending.origin pending.generation then do
    let editor ← Editor.setSelections editor view pending.selections y.reveal
    let y := y.registerView pending.document view
    return (.applied, { y with echoes := y.echoes.record pending.document pending.selections },
      editor)
  else .ok (.stale, y, editor)

end Synchronizer

end LinkedViews
