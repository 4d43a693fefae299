import LinkedViews.Proofs.Product.Governing
import LinkedViews.Proofs.Store.Linked
import LinkedViews.Proofs.View.Arming

/-! One gesture, many products. Each product that is linked to the source and open answers for itself,
from what the store held of it when the gesture came; that others are armed on the way is no part of
it. -/
namespace LinkedViews

namespace Store

/-- An event arms the product that it is about, and what becomes of it rests on what is found there. -/
structure Own (event : Store → Uri → Action × Store) : Prop where
  arms : ∀ s target, (event s target).2 = s.arm target
  action : ∀ s s' target, s.find? target = s'.find? target → (event s target).1 = (event s' target).1

theorem own_onSelection : Own onSelection where
  arms := onSelection_snd
  action s s' target same := by rw [onSelection_action, onSelection_action, state?, state?, same]

theorem own_onManualSync : Own onManualSync where
  arms := onManualSync_snd
  action s s' target same := by rw [onManualSync_action, onManualSync_action, state?, state?, same]

end Store

namespace Synchronizer

variable (y : Synchronizer) (s : Store) (selections : List Span)

def placement : Direction → Placement
  | .forward => y.targetPlacement
  | .backward => y.sourcePlacement

/-- What a product makes of the selections that get through to it, if it maps any. -/
def carried? (direction : Direction) (target : Uri) (stored : StoredProduct) :
    Option PendingSelection :=
  let mapped := stored.index.mapSelections direction selections
  if mapped = [] then none
  else some ⟨stored.across target direction, y.placement direction, target, stored.generation, mapped⟩

theorem route?_eq (target : Uri) (action : Action) (direction : Direction) :
    y.route? s target action selections direction =
      if action = .propagate then y.carried? selections direction target (s.get target) else none := by
  cases direction <;> rfl

/-- What comes of an event about one product. -/
def answer? (event : Store → Uri → Action × Store) (direction : Direction) (target : Uri) :
    Option PendingSelection :=
  y.route? (event s target).2 target (event s target).1 selections direction

variable {s} in
theorem answer?_congr {event : Store → Uri → Action × Store} (own : Store.Own event) {s' : Store}
    {target : Uri} (same : s.find? target = s'.find? target) (direction : Direction) :
    y.answer? s selections event direction target =
      y.answer? s' selections event direction target := by
  have after : (s.arm target).get target = (s'.arm target).get target := by
    rw [Store.get, Store.get, (s.armsJust_arm target).arms target rfl,
      (s'.armsJust_arm target).arms target rfl, same]
  rw [answer?, answer?, route?_eq, route?_eq, own.arms, own.arms, own.action s s' target same, after]

/-- Each target answers as if it were the only one. -/
theorem routeForward_fst {event : Store → Uri → Action × Store} (own : Store.Own event)
    {targets : List Uri} (nodup : targets.Nodup) :
    (y.routeForward event selections targets s).1 =
      targets.filterMap (y.answer? s selections event .forward) := by
  induction targets generalizing s with
  | nil => rfl
  | cons target targets ih =>
    obtain ⟨fresh, rest⟩ := List.nodup_cons.mp nodup
    have others : targets.filterMap (y.answer? (s.arm target) selections event .forward) =
        targets.filterMap (y.answer? s selections event .forward) := by
      refine List.filterMap_congr fun other member => ?_
      have differ : target ≠ other := fun same => fresh (same ▸ member)
      exact y.answer?_congr selections own ((s.armsJust_arm target).keeps other differ) .forward
    have head : (y.routeForward event selections (target :: targets) s).1 =
        (y.answer? s selections event .forward target).toList ++
          (y.routeForward event selections targets (s.arm target)).1 := by
      rw [← own.arms]
      rfl
    rw [head, ih _ rest, others, List.filterMap_cons]
    cases y.answer? s selections event .forward target <;> rfl

/-- A selection gets through to a product that is armed. -/
theorem answer?_onSelection (direction : Direction) (target : Uri) :
    y.answer? s selections Store.onSelection direction target =
      (s.find? target).bind fun stored =>
        if stored.state = .armed then y.carried? selections direction target stored else none := by
  have after := (s.armsJust_arm target).arms target rfl
  rw [answer?, route?_eq, Store.onSelection_snd, Store.onSelection_action, Store.get, after,
    Store.state?]
  cases s.find? target with
  | none => rfl
  | some stored =>
    by_cases armed : stored.state = .armed
    · simp [armed]
      rfl
    · simp [armed]

/-- A manual sync gets through to every product that was published. -/
theorem answer?_onManualSync (direction : Direction) (target : Uri) :
    y.answer? s selections Store.onManualSync direction target =
      (s.find? target).bind (y.carried? selections direction target) := by
  have after := (s.armsJust_arm target).arms target rfl
  rw [answer?, route?_eq, Store.onManualSync_snd, Store.onManualSync_action, Store.get, after,
    Store.state?]
  cases s.find? target <;> rfl

variable {y s selections}

theorem carried?_eq_some_iff {direction : Direction} {target : Uri} {stored : StoredProduct}
    {p : PendingSelection} : y.carried? selections direction target stored = some p ↔
      (∃ selection ∈ selections, (stored.index.find? direction selection.start).isSome) ∧
      p = ⟨stored.across target direction, y.placement direction, target, stored.generation,
        stored.index.mapSelections direction selections⟩ := by
  rw [← RangeIndex.mapSelections_ne_nil_iff, carried?]
  by_cases unmapped : stored.index.mapSelections direction selections = []
  · simp [unmapped]
  · simp [unmapped, eq_comm]

theorem answer?_onSelection_eq_some_iff {direction : Direction} {target : Uri}
    {p : PendingSelection} :
    y.answer? s selections Store.onSelection direction target = some p ↔
      ∃ stored, s.find? target = some stored ∧ stored.state = .armed ∧
        (∃ selection ∈ selections, (stored.index.find? direction selection.start).isSome) ∧
        p = ⟨stored.across target direction, y.placement direction, target, stored.generation,
          stored.index.mapSelections direction selections⟩ := by
  rw [answer?_onSelection, Option.bind_eq_some_iff]
  refine exists_congr fun stored => and_congr_right fun _ => ?_
  by_cases armed : stored.state = .armed
  · rw [if_pos armed, carried?_eq_some_iff]
    simp [armed]
  · simp [armed]

theorem mem_openLinked {source target : Uri} : target ∈ y.openLinked s source ↔
    (∃ stored, s.find? target = some stored ∧ stored.product.source.SameDocument source) ∧
      y.isOpen target := by
  rw [openLinked, List.mem_filter, Store.mem_linkedTargets]

/-- To show the source itself opens no product. -/
theorem openLinked_registerView {source : Uri} (apart : source ∉ s.linkedTargets source)
    (view : View) : (y.registerView source view).openLinked s source = y.openLinked s source := by
  refine List.filter_congr fun target member => ?_
  have differ : source ≠ target := fun same => apart (same ▸ member)
  rw [Bool.eq_iff_iff, isOpen_registerView]
  simp [differ]

theorem openLinked_foldl_arm (targets : List Uri) (source : Uri) :
    y.openLinked (targets.foldl Store.arm s) source = y.openLinked s source := by
  rw [openLinked, openLinked, Store.linkedTargets_foldl_arm]

theorem onSelectionChanged_target {document : Uri} (view : View)
    (settled : y.isOpening document = false)
    (gesture : y.echoes.written.find? document ≠ some selections)
    (target : s.naming.isTarget document = true) :
    let outcome := y.onSelectionChanged s document view selections
    outcome.1 = (y.answer? s selections Store.onSelection .backward document).toList ∧
      outcome.2.2 = s.arm document := by
  intro outcome
  rw [← Store.onSelection_snd]
  simp only [outcome, onSelectionChanged_eq, settled, gesture, Synchronizer.gesture, target, if_true,
    if_false, Bool.false_eq_true, and_true]
  rfl

section Source

variable {history : List Store.Operation} {document : Uri}
  (source : Naming.default.isTarget document = false)

include source

theorem not_mem_linkedTargets :
    document ∉ ((Store.new .default).run history).linkedTargets document := by
  intro member
  obtain ⟨stored, found, -⟩ := Store.mem_linkedTargets.mp member
  have target := Store.isTarget_of_find?_run Naming.isScheme_default found
  rw [source] at target
  contradiction

theorem onSelectionChanged_source (view : View) (settled : y.isOpening document = false)
    (gesture : y.echoes.written.find? document ≠ some selections) :
    let s := (Store.new .default).run history
    let outcome := y.onSelectionChanged s document view selections
    outcome.1 = (y.openLinked s document).filterMap
        (y.answer? s selections Store.onSelection .forward) ∧
      outcome.2.2 = (y.openLinked s document).foldl Store.arm s := by
  intro s outcome
  let heard : Synchronizer :=
    { y.registerView document view with echoes := y.echoes.forget document }
  have asked : heard.openLinked s document = y.openLinked s document :=
    openLinked_registerView (not_mem_linkedTargets source) view
  have named : s.naming = .default := Store.naming_run _ _
  have nodup : (y.openLinked s document).Nodup := (s.nodup_linkedTargets document).filter _
  simp only [outcome, onSelectionChanged_eq, settled, gesture, Synchronizer.gesture, named, source,
    if_false, Bool.false_eq_true]
  rw [asked, routeForward_fst _ _ _ Store.own_onSelection nodup,
    routeForward_snd _ _ _ Store.onSelection_snd]
  exact ⟨rfl, rfl⟩

end Source

/-- A product that a gesture in a source document gets through to: it was published for the document,
is open and armed, and has a pair for one of the selections. -/
structure Reaches (y : Synchronizer) (s : Store) (document : Uri) (selections : List Span)
    (target : Uri) (stored : StoredProduct) : Prop where
  published : s.find? target = some stored
  linked : stored.product.source.SameDocument document
  shown : y.isOpen target = true
  armed : stored.state = .armed
  mapped : ∃ selection ∈ selections, (stored.index.find? .forward selection.start).isSome

theorem Reaches.congr {y' : Synchronizer} {s' : Store} {document target : Uri}
    {stored : StoredProduct} (reaches : y.Reaches s document selections target stored)
    (same : s.find? target = s'.find? target) (shown : y.isOpen target = y'.isOpen target) :
    y'.Reaches s' document selections target stored where
  published := same ▸ reaches.published
  linked := reaches.linked
  shown := shown ▸ reaches.shown
  armed := reaches.armed
  mapped := reaches.mapped

/-- The products that a gesture gets through to, and no others, carry its selections on. -/
theorem mem_onSelectionChanged_source {history : List Store.Operation} {document : Uri}
    (source : Naming.default.isTarget document = false) (view : View)
    (settled : y.isOpening document = false)
    (gesture : y.echoes.written.find? document ≠ some selections) {p : PendingSelection} :
    let s := (Store.new .default).run history
    p ∈ (y.onSelectionChanged s document view selections).1 ↔
      ∃ target stored, y.Reaches s document selections target stored ∧
        p = ⟨target, y.targetPlacement, target, stored.generation,
          stored.index.mapSelections .forward selections⟩ := by
  intro s
  rw [(onSelectionChanged_source source view settled gesture).1, List.mem_filterMap]
  refine exists_congr fun target => ?_
  rw [mem_openLinked, answer?_onSelection_eq_some_iff]
  constructor
  · rintro ⟨⟨⟨stored, found, linked⟩, shown⟩, stored', found', armed, mapped, rfl⟩
    obtain rfl := Option.some.inj (found.symm.trans found')
    exact ⟨stored, ⟨found, linked, shown, armed, mapped⟩, rfl⟩
  · rintro ⟨stored, reaches, rfl⟩
    exact ⟨⟨⟨stored, reaches.published, reaches.linked⟩, reaches.shown⟩, stored, reaches.published,
      reaches.armed, reaches.mapped, rfl⟩

theorem armsJust_onSelectionChanged_source {history : List Store.Operation} {document : Uri}
    (source : Naming.default.isTarget document = false) (view : View)
    (settled : y.isOpening document = false)
    (gesture : y.echoes.written.find? document ≠ some selections) :
    let s := (Store.new .default).run history
    s.ArmsJust (y.onSelectionChanged s document view selections).2.2 fun target =>
      (∃ stored, s.find? target = some stored ∧ stored.product.source.SameDocument document) ∧
        y.isOpen target := by
  intro s
  rw [(onSelectionChanged_source source view settled gesture).2]
  exact (s.armsJust_foldl _).congr fun target => mem_openLinked

/-- The rest of the store and the other views have no part in what a product carries on. -/
theorem mem_onSelectionChanged_congr {y' : Synchronizer} {history history' : List Store.Operation}
    {document : Uri} (source : Naming.default.isTarget document = false) (view : View)
    (settled : y.isOpening document = false) (settled' : y'.isOpening document = false)
    (gesture : y.echoes.written.find? document ≠ some selections)
    (gesture' : y'.echoes.written.find? document ≠ some selections)
    (placed : y.targetPlacement = y'.targetPlacement) {p : PendingSelection}
    (same : ((Store.new .default).run history).find? p.origin =
      ((Store.new .default).run history').find? p.origin)
    (shown : y.isOpen p.origin = y'.isOpen p.origin)
    (member : p ∈ (y.onSelectionChanged ((Store.new .default).run history) document view
      selections).1) :
    p ∈ (y'.onSelectionChanged ((Store.new .default).run history') document view selections).1 := by
  obtain ⟨target, stored, reaches, rfl⟩ :=
    (mem_onSelectionChanged_source source view settled gesture).mp member
  refine (mem_onSelectionChanged_source source view settled' gesture').mpr
    ⟨target, stored, reaches.congr same shown, ?_⟩
  rw [placed]

/-- What a gesture leads to, after any history of the store and whatever views are open.

In a source, each product that it gets through to has one pending selection, and there are no others;
they come in the order of the texts of their products. The products that are linked and open are armed
after it, and every other is as it was. What becomes of a product rests on that product alone: where it
is as here, and open or not as here, the same comes of it in any other store, among any other views.

In a product, there is one pending selection, back into the source, if the product was published and
armed and has a pair for one of the selections, and else there is none. -/
theorem selection_fans_out (y : Synchronizer) (history : List Store.Operation) (document : Uri)
    (view : View) (selections : List Span) (settled : y.isOpening document = false)
    (gesture : y.echoes.written.find? document ≠ some selections) :
    let s := (Store.new .default).run history
    let outcome := y.onSelectionChanged s document view selections
    (Naming.default.isTarget document = false →
      outcome.1.Pairwise (fun p q => p.origin.text < q.origin.text) ∧
      (∀ p, p ∈ outcome.1 ↔ ∃ target stored, y.Reaches s document selections target stored ∧
        p = ⟨target, y.targetPlacement, target, stored.generation,
          stored.index.mapSelections .forward selections⟩) ∧
      s.ArmsJust outcome.2.2 (fun target =>
        (∃ stored, s.find? target = some stored ∧ stored.product.source.SameDocument document) ∧
          y.isOpen target) ∧
      ∀ (y' : Synchronizer) (history' : List Store.Operation) (target : Uri),
        let s' := (Store.new .default).run history'
        let outcome' := y'.onSelectionChanged s' document view selections
        y'.isOpening document = false → y'.echoes.written.find? document ≠ some selections →
        y'.targetPlacement = y.targetPlacement → s'.find? target = s.find? target →
        y'.isOpen target = y.isOpen target →
        (∀ p, p.origin = target → (p ∈ outcome'.1 ↔ p ∈ outcome.1)) ∧
          outcome'.2.2.find? target = outcome.2.2.find? target) ∧
    (Naming.default.isTarget document = true →
      outcome.1.length ≤ 1 ∧
      (∀ p, p ∈ outcome.1 ↔ ∃ stored, s.find? document = some stored ∧ stored.state = .armed ∧
        (∃ selection ∈ selections, (stored.index.find? .backward selection.start).isSome) ∧
        p = ⟨stored.product.source, y.sourcePlacement, document, stored.generation,
          stored.index.mapSelections .backward selections⟩) ∧
      s.ArmsJust outcome.2.2 (document = ·)) := by
  intro s outcome
  refine ⟨fun source => ⟨?ascending, ?each, ?armed, ?apart⟩, fun target => ?product⟩
  case each => exact fun p => mem_onSelectionChanged_source source view settled gesture
  case armed => exact armsJust_onSelectionChanged_source source view settled gesture
  case ascending =>
    have order := (Store.ascending_linkedTargets .default history document).filter y.isOpen
    have pending : outcome.1 = _ := (onSelectionChanged_source source view settled gesture).1
    rw [pending, List.pairwise_filterMap]
    refine order.imp fun {a b} before p answered q answered' => ?_
    rw [(mem_route? answered).2.1, (mem_route? answered').2.1]
    exact before
  case apart =>
    intro y' history' target s' outcome' settled' gesture' placed same shown
    refine ⟨?_, ?_⟩
    · rintro p rfl
      constructor
      · exact mem_onSelectionChanged_congr source view settled' settled gesture' gesture placed same
          shown
      · exact mem_onSelectionChanged_congr source view settled settled' gesture gesture' placed.symm
          same.symm shown.symm
    · refine (armsJust_onSelectionChanged_source source view settled' gesture').find?_congr
        (armsJust_onSelectionChanged_source source view settled gesture) same ?_
      rw [same, shown]
  case product =>
    have named : s.naming.isTarget document = true := by
      rw [Store.naming_run]
      exact target
    obtain ⟨pending, armed⟩ := onSelectionChanged_target view settled gesture named
    refine ⟨?_, fun p => ?_, ?_⟩
    · rw [pending]
      exact Option.length_toList_le
    · rw [pending, Option.mem_toList]
      exact answer?_onSelection_eq_some_iff
    · rw [armed]
      exact s.armsJust_arm document

namespace Sample

open Store.Republished

/-- Another product of the same document. -/
def graph : Product := { product with name := "cfg" }

def graphTarget : Uri := ⟨"monto", none, "/a.mj-cfg.txt", none, none⟩

def history : List Store.Operation := [.save product, .selection target, .save graph]

def stocked : Store := (Store.new .default).run history

def shown : Synchronizer :=
  ((Synchronizer.new {}).registerView target ⟨2⟩).registerView graphTarget ⟨3⟩

theorem found : stocked.find? target = some ⟨product, .build product.rangeMap, .armed, ⟨1⟩⟩ := by cbv

theorem found_graph :
    stocked.find? graphTarget = some ⟨graph, .build graph.rangeMap, .unarmed, ⟨2⟩⟩ := by cbv

/-- Of two products that are open, the gesture gets through to the one that is armed. The other is
armed by it. -/
theorem armed_product_follows :
    let outcome := shown.onSelectionChanged stocked product.source ⟨1⟩ [.caret 2]
    shown.isOpening product.source = false ∧
    shown.echoes.written.find? product.source ≠ some [.caret 2] ∧
    Naming.default.isTarget product.source = false ∧
    ⟨target, ⟨2, true⟩, target, ⟨1⟩, [⟨0, 3⟩]⟩ ∈ outcome.1 ∧
    (∀ p ∈ outcome.1, p.origin ≠ graphTarget) ∧
    outcome.2.2.find? graphTarget = some ⟨graph, .build graph.rangeMap, .armed, ⟨2⟩⟩ := by
  intro outcome
  have settled : shown.isOpening product.source = false := rfl
  have gesture : shown.echoes.written.find? product.source ≠ some [.caret 2] := nofun
  have source : Naming.default.isTarget product.source = false := by decide
  obtain ⟨-, each, arms, -⟩ :=
    (selection_fans_out shown history product.source ⟨1⟩ [.caret 2] settled gesture).1 source
  refine ⟨settled, gesture, source, (each _).mpr ⟨target, _, ⟨found, ?_, rfl, rfl, ?_⟩, ?_⟩, ?_, ?_⟩
  · exact ⟨rfl, rfl, rfl⟩
  · exact ⟨_, List.mem_singleton_self _, by cbv⟩
  · cbv
  · intro p member other
    obtain ⟨_, stored, reaches, rfl⟩ := (each p).mp member
    obtain rfl := other
    obtain rfl := Option.some.inj (found_graph.symm.trans reaches.published)
    exact absurd reaches.armed (by decide)
  · have linked : graph.source.SameDocument product.source := ⟨rfl, rfl, rfl⟩
    refine (arms.arms graphTarget ⟨⟨_, found_graph, linked⟩, rfl⟩).trans ?_
    have present : ((Store.new .default).run history).find? graphTarget = _ := found_graph
    rw [present]
    rfl

end Sample

end Synchronizer

end LinkedViews
