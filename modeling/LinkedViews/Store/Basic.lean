import LinkedViews.Keyed
import LinkedViews.Product.Naming
import LinkedViews.Product.RangeIndex
import LinkedViews.Product.Suppression
import LinkedViews.Text.Order

/-! The latest product under each identifier, with all that is derived from it. Looking up never
fails: what was never published answers as a placeholder. Listeners are told of each save once the
new product is in place. -/
namespace LinkedViews

structure StoredProduct where
  product : Product
  index : RangeIndex
  state : Suppression
  generation : Generation
  deriving DecidableEq, Repr

namespace StoredProduct

def placeholder : StoredProduct := ⟨.placeholder, .neutral, .unarmed, .zero⟩

def isPlaceholder (s : StoredProduct) : Bool := s.generation = .zero

end StoredProduct

/-- The content under `target` is now that of the publish numbered `generation`. -/
structure ContentChange where
  target : Uri
  generation : Generation
  deriving DecidableEq, Repr

/-- Each listener has an inbox, oldest change first; inboxes stand in the order of subscription. -/
structure Store where
  naming : Naming
  products : Keyed Uri StoredProduct
  generation : Generation
  inboxes : List (List ContentChange)

namespace Store

def new (naming : Naming) : Store := ⟨naming, .empty, .zero, []⟩

def subscribe (s : Store) : Store := { s with inboxes := s.inboxes ++ [[]] }

def find? (s : Store) (target : Uri) : Option StoredProduct := s.products.find? target

def get (s : Store) (target : Uri) : StoredProduct := (s.find? target).getD .placeholder

def contains (s : Store) (target : Uri) : Bool := s.products.contains target

def content? (s : Store) (target : Uri) : Option String :=
  (s.find? target).map (·.product.content)

def generation? (s : Store) (target : Uri) : Option Generation :=
  (s.find? target).map (·.generation)

def isCurrent (s : Store) (target : Uri) (generation : Generation) : Bool :=
  s.generation? target = some generation

def size (s : Store) : Nat := s.products.size

/-- The state after a publish; the first publish finds none. -/
def stateAfterPublish (s : Store) (target : Uri) : Suppression :=
  match s.find? target with
  | some stored => (stored.state.react .republished).1
  | none => .unarmed

/-- A valid product in place, under the next generation. -/
def install (s : Store) (target : Uri) (product : Product) : Store :=
  { s with
    generation := s.generation.next
    products := s.products.put target
      ⟨product, .build product.rangeMap, s.stateAfterPublish target, s.generation.next⟩ }

/-- Every listener learns what the store now answers for `target`. -/
def announce (s : Store) (target : Uri) : Store :=
  { s with inboxes := s.inboxes.map (· ++ [⟨target, (s.get target).generation⟩]) }

def save (s : Store) (product : Product) : Except ProductError (Uri × Store) := do
  product.validate
  let target ← product.target s.naming
  return (target, (s.install target product).announce target)

/-- One event on a stored product; nothing happens to a product that was never published. -/
def react (s : Store) (target : Uri) (trigger : Trigger) (unknown : Action) : Action × Store :=
  match s.find? target with
  | none => (unknown, s)
  | some stored =>
    let (state, action) := stored.state.react trigger
    (action, { s with products := s.products.put target { stored with state } })

def onSelection (s : Store) (target : Uri) : Action × Store :=
  s.react target .selectionChanged .absorb

def onManualSync (s : Store) (target : Uri) : Action × Store :=
  s.react target .manualSync .none

/-- The products of a document, by the source they were published with, in the order of their
identifiers. -/
def linkedTargets (s : Store) (source : Uri) : List Uri :=
  let linked := s.products.entries.filter fun (_, stored) =>
    decide (stored.product.source.SameDocument source)
  (linked.map Prod.fst).mergeSort fun a b => Text.precedes a.text b.text

def debugText (s : Store) : String :=
  "ProductStore \x7b codec: " ++ s.naming.debugText ++ ", products: " ++ toString s.size
    ++ ", generation: " ++ s.generation.debugText ++ ", listeners: "
    ++ toString s.inboxes.length ++ " \x7d"

end Store

end LinkedViews
