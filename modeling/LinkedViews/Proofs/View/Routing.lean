import LinkedViews.Proofs.Store.Operations
import LinkedViews.View.Synchronizer

/-! What a gesture leads to. Each pending selection that comes of it was mapped through the snapshot
that the store held, and nothing happens to the store but that products are armed. -/
namespace LinkedViews

/-- The pending selection carries `selections` of `document` through the snapshot `stored`: from the
product back into its source, or from the source forth into the product. -/
structure PendingSelection.Carries (p : PendingSelection) (naming : Naming) (stored : StoredProduct)
    (direction : Direction) (document : Uri) (selections : List Span) : Prop where
  route : match direction with
    | .backward => naming.isTarget document = true ∧ document = p.origin ∧
        p.document = stored.product.source
    | .forward => naming.isTarget document = false ∧
        stored.product.source.SameDocument document ∧ p.document = p.origin
  generation : p.generation = stored.generation
  mapped : p.selections = stored.index.mapSelections direction selections
  some_mapped : p.selections ≠ []

theorem PendingSelection.Carries.congr {p : PendingSelection} {naming : Naming}
    {stored stored' : StoredProduct} {direction : Direction} {source : Uri} {selections : List Span}
    (carries : p.Carries naming stored direction source selections)
    (product : stored'.product = stored.product) (index : stored'.index = stored.index)
    (generation : stored'.generation = stored.generation) :
    p.Carries naming stored' direction source selections := by
  obtain ⟨route, number, mapped, some_mapped⟩ := carries
  refine ⟨?_, number.trans generation.symm, index ▸ mapped, some_mapped⟩
  rw [product]
  exact route

/-- The document at the other end, seen from the product. -/
def StoredProduct.across (stored : StoredProduct) (target : Uri) : Direction → Uri
  | .forward => target
  | .backward => stored.product.source

namespace Store

/-- An event arms products and nothing else, and propagates only from a product that is stored. -/
def Consults (event : Store → Uri → Action × Store) : Prop :=
  ∀ s target, Arms s (event s target).2 ∧
    ((event s target).1 = .propagate → ∃ stored, s.find? target = some stored)

theorem consults_react {trigger : Trigger} {unknown : Action} (event : trigger ≠ .republished)
    (silent : unknown ≠ .propagate) : Consults fun s target => s.react target trigger unknown := by
  intro s target
  refine ⟨arms_react s target trigger unknown event, fun propagates => ?_⟩
  simp only at propagates
  cases present : s.find? target with
  | none =>
    rw [react_of_unknown present] at propagates
    exact absurd propagates silent
  | some stored => exact ⟨stored, rfl⟩

theorem consults_onSelection : Consults onSelection := consults_react (by decide) (by decide)

theorem consults_onManualSync : Consults onManualSync := consults_react (by decide) (by decide)

end Store

namespace Synchronizer

theorem isOpen_registerView (y : Synchronizer) (document : Uri) (view : View)
    (other : Uri) :
    (y.registerView document view).isOpen other ↔ document = other ∨ y.isOpen other := by
  simp only [isOpen, registerView, Keyed.contains, Keyed.find?_put]
  split <;> simp_all

/-- What a selection of the user leads to. -/
def gesture (y : Synchronizer) (store : Store) (document : Uri) (selections : List Span) :
    List PendingSelection × Store :=
  if store.naming.isTarget document then
    let (action, store) := store.onSelection document
    ((y.route? store document action selections .backward).toList, store)
  else y.routeForward Store.onSelection selections (y.openLinked store document) store

/-- A report is no gesture while its document is being opened, nor when it is an echo. -/
theorem onSelectionChanged_eq (y : Synchronizer) (store : Store) (document : Uri) (view : View)
    (selections : List Span) : y.onSelectionChanged store document view selections =
      let seen := y.registerView document view
      let heard := { seen with echoes := y.echoes.forget document }
      if y.isOpening document then ([], seen, store)
      else if y.echoes.written.find? document = some selections then ([], heard, store)
      else ((heard.gesture store document selections).1, heard,
        (heard.gesture store document selections).2) := by
  have opening : (y.registerView document view).isOpening document = y.isOpening document := rfl
  simp only [onSelectionChanged, opening, gesture, Echoes.absorb]
  split
  · rfl
  · by_cases echo : y.echoes.written.find? document = some selections
    · simp [registerView, echo]
    · simp only [registerView, beq_iff_eq, echo, if_false]
      split <;> rfl

variable {y : Synchronizer} {store : Store} {selections : List Span} {p : PendingSelection}

theorem mem_route? {target : Uri} {action : Action} {direction : Direction}
    (routed : y.route? store target action selections direction = some p) :
    action = .propagate ∧ p.origin = target ∧ p.generation = (store.get target).generation ∧
    p.selections = (store.get target).index.mapSelections direction selections ∧
    p.selections ≠ [] ∧ p.document = (store.get target).across target direction := by
  unfold route? at routed
  split at routed
  next propagates =>
    simp only at routed
    split at routed
    next => contradiction
    next mapped =>
      cases direction <;>
        (obtain rfl := Option.some.inj routed; exact ⟨propagates, rfl, rfl, rfl, mapped, rfl⟩)
  next => contradiction

/-- A pending selection carries what the store held before the event. -/
theorem carries_of_route? {event : Store → Uri → Action × Store} (consults : Store.Consults event)
    {target : Uri} {direction : Direction} (routed : y.route? (event store target).2 target
      (event store target).1 selections direction = some p) :
    ∃ stored, store.find? target = some stored ∧ p.origin = target ∧
      p.generation = stored.generation ∧
      p.selections = stored.index.mapSelections direction selections ∧ p.selections ≠ [] ∧
      p.document = stored.across target direction := by
  obtain ⟨propagates, origin, generation, mapped, some_mapped, document⟩ := mem_route? routed
  obtain ⟨arms, known⟩ := consults store target
  obtain ⟨stored, present⟩ := known propagates
  have found : ∃ after, (event store target).2.find? target = some after := by
    rcases arms.products target with same | ⟨_, _, armed⟩
    · exact ⟨stored, same.trans present⟩
    · exact ⟨_, armed⟩
  obtain ⟨after, found⟩ := found
  obtain ⟨before, held, product, index, number⟩ := arms.of_find? found
  have across : after.across target direction = before.across target direction := by
    cases direction <;> simp [StoredProduct.across, product]
  simp only [Store.get, found, Option.getD_some, across, index, number] at generation mapped document
  exact ⟨before, held, origin, generation, mapped, some_mapped, document⟩

theorem arms_routeForward {event : Store → Uri → Action × Store} (consults : Store.Consults event)
    (targets : List Uri) (store : Store) :
    Store.Arms store (y.routeForward event selections targets store).2 := by
  induction targets generalizing store with
  | nil => exact .refl store
  | cons target targets ih => exact (consults store target).1.trans (ih _)

/-- Going forward, each target adds at most one pending selection, and arming one target takes
nothing from what the next ones carry. -/
theorem mem_routeForward {event : Store → Uri → Action × Store} (consults : Store.Consults event)
    {targets : List Uri} (member : p ∈ (y.routeForward event selections targets store).1) :
    ∃ stored, p.origin ∈ targets ∧ store.find? p.origin = some stored ∧ p.document = p.origin ∧
      p.generation = stored.generation ∧
      p.selections = stored.index.mapSelections .forward selections ∧ p.selections ≠ [] := by
  induction targets generalizing store with
  | nil => simp [routeForward] at member
  | cons target targets ih =>
    rcases List.mem_append.mp member with here | later
    · obtain ⟨stored, found, origin, generation, mapped, some_mapped, document⟩ :=
        carries_of_route? consults (Option.mem_toList.mp here)
      subst origin
      exact ⟨stored, by simp, found, document, generation, mapped, some_mapped⟩
    · obtain ⟨after, among, found, document, generation, mapped, some_mapped⟩ := ih later
      obtain ⟨stored, held, _, index, number⟩ := (consults store target).1.of_find? found
      exact ⟨stored, List.mem_cons_of_mem _ among, held, document, generation.trans number,
        index ▸ mapped, some_mapped⟩

/-- At most one pending selection goes into each target. -/
theorem sublist_routeForward (event : Store → Uri → Action × Store) (targets : List Uri)
    (store : Store) : ((y.routeForward event selections targets store).1.map
      PendingSelection.document).Sublist targets := by
  induction targets generalizing store with
  | nil => exact List.Sublist.refl []
  | cons target targets ih =>
    rw [routeForward, List.map_append]
    cases routed : y.route? (event store target).2 target (event store target).1 selections
        .forward with
    | none => simpa [routed] using (ih (event store target).2).cons target
    | some p =>
      obtain ⟨-, -, -, -, -, document⟩ := mem_route? routed
      simpa [routed, document, StoredProduct.across] using (ih (event store target).2).cons_cons target

theorem carries_of_mem_routeForward {event : Store → Uri → Action × Store}
    (consults : Store.Consults event) {document : Uri}
    (source : store.naming.isTarget document = false)
    (member : p ∈ (y.routeForward event selections (y.openLinked store document) store).1) :
    ∃ stored, store.find? p.origin = some stored ∧
      p.Carries store.naming stored .forward document selections := by
  obtain ⟨stored, among, found, same, generation, mapped, some_mapped⟩ :=
    mem_routeForward consults member
  obtain ⟨linked, present, sameDocument⟩ := Store.mem_linkedTargets.mp (List.mem_filter.mp among).1
  obtain rfl := Option.some.inj (found.symm.trans present)
  exact ⟨stored, found, ⟨source, sameDocument, same⟩, generation, mapped, some_mapped⟩

theorem carries_of_mem_gesture {document : Uri}
    (member : p ∈ (y.gesture store document selections).1) :
    ∃ stored direction, store.find? p.origin = some stored ∧
      p.Carries store.naming stored direction document selections := by
  unfold gesture at member
  split at member
  next target =>
    obtain ⟨stored, found, origin, generation, mapped, some_mapped, source⟩ :=
      carries_of_route? Store.consults_onSelection (Option.mem_toList.mp member)
    exact ⟨stored, .backward, origin ▸ found, ⟨target, origin.symm, source⟩, generation, mapped,
      some_mapped⟩
  next source =>
    obtain ⟨stored, found, carries⟩ :=
      carries_of_mem_routeForward Store.consults_onSelection (by simpa using source) member
    exact ⟨stored, .forward, found, carries⟩

theorem arms_gesture (y : Synchronizer) (store : Store) (document : Uri) (selections : List Span) :
    Store.Arms store (y.gesture store document selections).2 := by
  unfold gesture
  split
  · exact (Store.consults_onSelection store document).1
  · exact arms_routeForward Store.consults_onSelection _ _

theorem carries_of_mem_manualSync {document : Uri}
    (member : p ∈ (y.manualSync store document selections).1) :
    ∃ stored, store.find? p.origin = some stored ∧
      p.Carries store.naming stored .forward document selections := by
  unfold manualSync at member
  split at member
  next => simp at member
  next source =>
    exact carries_of_mem_routeForward Store.consults_onManualSync (by simpa using source) member

theorem arms_manualSync (y : Synchronizer) (store : Store) (document : Uri)
    (selections : List Span) : Store.Arms store (y.manualSync store document selections).2 := by
  unfold manualSync
  split
  · exact .refl store
  · exact arms_routeForward Store.consults_onManualSync _ _

end Synchronizer

end LinkedViews
