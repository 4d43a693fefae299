import LinkedViews.Proofs.Session.Run

/-! Selections are written through the snapshot that the store holds when they are written. Between
the gesture and the write products are published, opens come back in any order and views close; what
ties a pending selection to its snapshot is the generation, which no two publishes share. -/
namespace LinkedViews.SessionRun

variable {ε : Type} [Editor ε] {config : Config} {policy : Policy} {l : SessionRun ε}

/-- As long as generations can be told apart they count the publishes; and whatever waits for an
open, its snapshot is gone or is the one it was mapped through. -/
structure Faithful (l : SessionRun ε) : Prop where
  counted : l.session.store.generation.value = l.published.length
  numbered : ∀ target stored, l.session.store.find? target = some stored →
    1 ≤ stored.generation.value ∧ stored.generation.value ≤ l.session.store.generation.value
  waiting : ∀ r ∈ l.outstanding, ∀ p, r.pending = some p →
    p.generation.value ≤ l.session.store.generation.value
  mapped : ∀ r ∈ l.outstanding, ∀ p, r.pending = some p → ∀ stored,
    l.session.store.find? p.origin = some stored → stored.generation = p.generation →
    ∃ m ∈ l.past, ∃ direction document selections, m.Reports direction document selections ∧
      p.Carries l.session.store.naming stored direction document selections

theorem Faithful.start {s : Session} (created : Session.new config policy = .ok s) :
    Faithful (⟨s, [], []⟩ : SessionRun ε) := by
  obtain ⟨empty, zero, _, _⟩ := new_empty created
  refine ⟨?_, ?_, ?_, ?_⟩
  · rw [zero]
    rfl
  · intro target stored found
    simp [empty] at found
  · intro r member
    simp at member
  · intro r member
    simp at member

theorem generation_meet (faithful : Faithful l) {rest : List OpenRequest} {editor : ε}
    {event : Event} (few : (l.meet rest editor event).published.length ≤ Decimal.maxWord) :
    (l.meet rest editor event).session.store.generation.value =
      (l.meet rest editor event).published.length := by
  rw [published_meet, List.length_append, ← faithful.counted] at few ⊢
  simp only [meet, Moment.generation_after]
  cases published : (l.facing editor event).publish? with
  | none => rfl
  | some p =>
    simp only [published, Option.toList_some, List.length_singleton, Option.isSome_some, if_true,
      Generation.next] at few ⊢
    exact Nat.min_eq_left few

theorem Faithful.meet (faithful : Faithful l) {event : Event} {rest : List OpenRequest}
    (offers : l.Offers event rest) (editor : ε)
    (few : (l.meet rest editor event).published.length ≤ Decimal.maxWord) :
    Faithful (l.meet rest editor event) := by
  have counted := generation_meet faithful few
  have grows : l.session.store.generation.value ≤
      (l.meet rest editor event).session.store.generation.value := by
    rw [counted, published_meet, List.length_append, faithful.counted]
    exact Nat.le_add_right _ _
  have fresh : (l.facing editor event).publish?.isSome → l.session.store.generation.next.value =
      l.session.store.generation.value + 1 := by
    intro publishes
    rw [published_meet, List.length_append, ← faithful.counted] at few
    obtain ⟨p, published⟩ := Option.isSome_iff_exists.mp publishes
    rw [published] at few
    exact Nat.min_eq_left few
  constructor
  case counted => exact counted
  case numbered =>
    intro target stored found
    rcases Moment.snapshot_origin found with ⟨before, held, _, _, number⟩ | ⟨publishes, number⟩
    · have := faithful.numbered target before held
      rw [number]
      omega
    · have next : (l.meet rest editor event).session.store.generation =
          l.session.store.generation.next := by
        simp only [SessionRun.meet, Moment.generation_after, publishes, if_true]
        rfl
      rw [next, number]
      have := fresh publishes
      simp only [facing] at *
      omega
  case waiting =>
    intro r member p waits
    rcases List.mem_append.mp member with old | asked
    · have := faithful.waiting r (mem_outstanding_of_offers offers old) p waits
      omega
    · rcases Moment.carries_of_request asked with empty |
        ⟨p', stored, _, _, _, rfl, _, held, carries⟩
      · simp [empty] at waits
      · obtain rfl := Option.some.inj waits
        have := faithful.numbered p'.origin stored held
        rw [carries.generation]
        omega
  case mapped =>
    intro r member p waits stored found current
    have naming : (l.meet rest editor event).session.store.naming = l.session.store.naming :=
      Moment.naming_after _
    rw [naming]
    rcases List.mem_append.mp member with old | asked
    · have outstanding := mem_outstanding_of_offers offers old
      rcases Moment.snapshot_origin found with
        ⟨before, held, product, index, number⟩ | ⟨publishes, number⟩
      · obtain ⟨m, met, direction, document, selections, reports, carries⟩ :=
          faithful.mapped r outstanding p waits before held (number ▸ current)
        exact ⟨m, List.mem_append_left _ met, direction, document, selections, reports,
          carries.congr product index number⟩
      · -- The generation of a new snapshot is larger than that of anything that waits.
        have := faithful.waiting r outstanding p waits
        have := fresh publishes
        rw [← current, number] at *
        simp only [facing] at *
        omega
    · rcases Moment.carries_of_request asked with empty |
        ⟨p', before, direction, document, selections, rfl, reports, held, carries⟩
      · simp [empty] at waits
      · obtain rfl := Option.some.inj waits
        refine ⟨l.facing editor event, by simp [SessionRun.meet], direction, document, selections,
          reports, ?_⟩
        rcases Moment.snapshot_origin found with
          ⟨before', held', product, index, number⟩ | ⟨publishes, _⟩
        · obtain rfl := Option.some.inj (held.symm.trans held')
          exact carries.congr product index number
        · obtain ⟨published, publishes⟩ := Option.isSome_iff_exists.mp publishes
          exact absurd (Moment.pending_of_publish publishes asked) (by simp [waits])

theorem faithful_of_reachable (reachable : Reachable config policy l)
    (few : l.published.length ≤ Decimal.maxWord) : Faithful l := by
  induction reachable with
  | start created => exact .start created
  | attach _ ih =>
    obtain ⟨counted, numbered, waiting, mapped⟩ := ih few
    exact ⟨counted, numbered, waiting, mapped⟩
  | meet _ offers editor ih =>
    refine (ih ?_).meet offers editor few
    rw [published_meet, List.length_append] at few
    exact Nat.le_of_add_right_le few

theorem outstanding_of_write {event : Event} {rest : List OpenRequest}
    (offers : l.Offers event rest) {editor : ε} {w : Write}
    (asks : w ∈ (l.facing editor event).writes) : ∃ r ∈ l.outstanding, ∃ p stored,
      event = .viewOpened r.document (.ok w.view) (some p) ∧ r.pending = some p ∧
      l.session.store.find? p.origin = some stored ∧ stored.generation = p.generation ∧
      w.selections = p.selections := by
  obtain ⟨document, p, same, current, selections, _⟩ := Moment.mem_writes_iff.mp asks
  obtain ⟨stored, found, number⟩ : ∃ stored,
      l.session.store.find? p.origin = some stored ∧ stored.generation = p.generation := by
    simpa [facing, Store.isCurrent, Store.generation?] using current
  change event = _ at same
  cases offers with
  | outside input => simp [same, Event.completed?] at input
  | completed asked result =>
    obtain ⟨rfl, rfl, waits⟩ := Event.viewOpened.inj same
    exact ⟨_, asked, p, stored, by rw [waits], waits, found, number, selections⟩

/-- In every run with room for its publishes, whatever comes next: each call that replaces
selections is made while an open of the document comes back with the view and with selections that
waited for it. Their product is published, and its snapshot is the one they were mapped through: they
are what the store now makes of selections that were reported earlier, of the product's view and on
their way to its source, or of a document that is its source and on their way to the product. By
these calls alone does the session change the editor. -/
theorem write_carries_current_snapshot (reachable : Reachable config policy l)
    (few : l.published.length < Decimal.maxWord) {event : Event} {rest : List OpenRequest}
    (offers : l.Offers event rest) (editor : ε) :
    (∀ w ∈ (l.facing editor event).writes, ∃ document p stored,
      event = .viewOpened document (.ok w.view) (some p) ∧ p.document = document ∧
      l.session.store.find? p.origin = some stored ∧ stored.isPlaceholder = false ∧
      stored.generation = p.generation ∧ w.selections = p.selections ∧ w.selections ≠ [] ∧
      ∃ m ∈ l.past, ∃ direction reported selections, m.Reports direction reported selections ∧
        w.selections = (l.session.store.get p.origin).index.mapSelections direction selections ∧
        match direction with
        | .backward => l.session.store.naming.isTarget reported = true ∧ reported = p.origin ∧
            document = stored.product.source
        | .forward => l.session.store.naming.isTarget reported = false ∧
            stored.product.source.SameDocument reported ∧ document = p.origin) ∧
    (l.facing editor event).after.editor = (l.facing editor event).writes.foldl (fun editor w =>
      (Editor.setSelections editor w.view w.selections w.reveal).toOption.getD editor) editor := by
  refine ⟨?_, Moment.editor_after _⟩
  intro w asks
  have faithful := faithful_of_reachable reachable (Nat.le_of_lt few)
  obtain ⟨r, outstanding, p, stored, same, waits, found, number, selections⟩ :=
    outstanding_of_write offers asks
  have document := document_of_outstanding reachable outstanding waits
  obtain ⟨m, met, direction, reported, before, reports, carries⟩ :=
    faithful.mapped r outstanding p waits stored found number
  have placed : stored.isPlaceholder = false := by
    have := faithful.numbered p.origin stored found
    simp only [StoredProduct.isPlaceholder, decide_eq_false_iff_not]
    intro zero
    simp [zero, Generation.zero] at this
  refine ⟨r.document, p, stored, same, document, found, placed, number, selections,
    selections ▸ carries.some_mapped, m, met, direction, reported, before, reports, ?_, ?_⟩
  · rw [selections, carries.mapped, Store.get, found]
    rfl
  · have route := carries.route
    rw [document] at route
    exact route

open TwoGestures in
/-- The first of the two opens comes back, and what is written is what the source's first span maps
to. -/
theorem two_gestures_write :
    let event := Event.viewOpened target (.ok ⟨1⟩) (request ⟨0, 3⟩).pending
    let w : Write := ⟨⟨1⟩, [⟨0, 3⟩], .centerIfOutside⟩
    Reachable {} .none gestured ∧ gestured.published.length < Decimal.maxWord ∧
    gestured.Offers event (gestured.outstanding.erase (request ⟨0, 3⟩)) ∧
    w ∈ (gestured.facing editor event).writes ∧
    ∃ m ∈ gestured.past, ∃ direction reported selections, m.Reports direction reported selections ∧
      w.selections = (gestured.session.store.get target).index.mapSelections direction selections := by
  intro event w
  have offers : gestured.Offers event (gestured.outstanding.erase (request ⟨0, 3⟩)) :=
    .completed first_outstanding (.ok ⟨1⟩)
  have asks : w ∈ (gestured.facing editor event).writes :=
    Moment.mem_writes_iff.mpr ⟨target, _, rfl, by cbv, rfl, by cbv⟩
  obtain ⟨document, p, stored, same, _, _, _, _, _, _, m, met, direction, reported, selections,
    reports, mapped, _⟩ := (write_carries_current_snapshot reachable few offers editor).1 w asks
  obtain ⟨_, _, waits⟩ := Event.viewOpened.inj same
  obtain rfl := Option.some.inj waits
  exact ⟨reachable, few, offers, asks, m, met, direction, reported, selections, reports, mapped⟩

end LinkedViews.SessionRun
