import LinkedViews.Store.Basic
import LinkedViews.Store.ChangeFeed

/-! Product documents as read-only text: the content of what was published, a fixed text for what
was not, and a feed of the changes for the views that show them. -/
namespace LinkedViews

/-- The feed is what one listener of the store has been told. -/
structure Documents where
  unknownContent : String
  capacity : Nat
  listener : Nat
  deriving DecidableEq, Repr

namespace Documents

/-- The documents of a store, registered as its latest listener. -/
def new (store : Store) (unknownContent : String) (capacity : Nat) : Documents × Store :=
  (⟨unknownContent, roundCapacity capacity, store.inboxes.length⟩, store.subscribe)

def content (d : Documents) (store : Store) (target : Uri) : String :=
  (store.content? target).getD d.unknownContent

def changes (d : Documents) (store : Store) : List ContentChange :=
  (store.inboxes[d.listener]?).getD []

def subscribe (d : Documents) (store : Store) : Receiver := .new (d.changes store)

def next? (d : Documents) (store : Store) (r : Receiver) :
    Option (Received ContentChange × Receiver) :=
  r.next? d.capacity (d.changes store)

def drain (d : Documents) (store : Store) (r : Receiver) :
    List (Received ContentChange) × Receiver :=
  r.drain d.capacity (d.changes store)

def debugText (d : Documents) (subscribers : Nat) : String :=
  "VirtualDocumentProvider \x7b unknown_content: " ++ Text.quote d.unknownContent.toList
    ++ ", subscribers: " ++ toString subscribers ++ " \x7d"

end Documents

end LinkedViews
