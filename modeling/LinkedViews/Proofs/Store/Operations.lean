import LinkedViews.Store.Basic

/-! What each operation of a store does to what looking up finds. A save replaces what one identifier
finds; an event on a product does nothing more than arm it. -/
namespace LinkedViews

theorem Suppression.react_armed {trigger : Trigger} (state : Suppression)
    (event : trigger ≠ .republished) : (state.react trigger).1 = .armed := by
  cases trigger with
  | republished => contradiction
  | selectionChanged => cases state <;> rfl
  | manualSync => cases state <;> rfl

namespace Store

@[simp] theorem find?_new (naming : Naming) (target : Uri) : (new naming).find? target = none := rfl

@[simp] theorem naming_new (naming : Naming) : (new naming).naming = naming := rfl

@[simp] theorem find?_subscribe (s : Store) (target : Uri) :
    s.subscribe.find? target = s.find? target := rfl

/-- No state survives a publish, so there is nothing to remember of the one before. -/
@[simp] theorem stateAfterPublish_eq (s : Store) (target : Uri) :
    s.stateAfterPublish target = .unarmed := by
  unfold stateAfterPublish
  split
  · simp [Suppression.react]
  · rfl

theorem find?_install (s : Store) (target other : Uri) (product : Product) :
    (s.install target product).find? other =
      if target = other then
        some ⟨product, .build product.rangeMap, .unarmed, s.generation.next⟩
      else s.find? other := by
  simp [install, find?, Keyed.find?_put]

theorem save_eq_ok_iff {s s' : Store} {product : Product} {target : Uri} :
    s.save product = .ok (target, s') ↔ product.validate = .ok () ∧
      product.target s.naming = .ok target ∧ s' = (s.install target product).announce target := by
  unfold save
  cases valid : product.validate with
  | error e => simp [bind, Except.bind]
  | ok u =>
    cases named : product.target s.naming with
    | error e => simp [bind, Except.bind]
    | ok t =>
      simp only [bind, Except.bind, pure, Except.pure, Except.ok.injEq, Prod.mk.injEq, true_and]
      constructor
      · rintro ⟨rfl, rfl⟩; exact ⟨rfl, rfl⟩
      · rintro ⟨rfl, rfl⟩; exact ⟨rfl, rfl⟩

/-- What a save leaves behind, seen from every identifier. -/
structure Saved (s s' : Store) (target : Uri) (product : Product) : Prop where
  naming : s'.naming = s.naming
  generation : s'.generation = s.generation.next
  here : s'.find? target =
    some ⟨product, .build product.rangeMap, .unarmed, s.generation.next⟩
  elsewhere : ∀ other, target ≠ other → s'.find? other = s.find? other

theorem saved_of_save {s s' : Store} {product : Product} {target : Uri}
    (saved : s.save product = .ok (target, s')) : Saved s s' target product := by
  obtain ⟨_, _, rfl⟩ := save_eq_ok_iff.mp saved
  constructor
  · rfl
  · rfl
  · exact (find?_install s target target product).trans (if_pos rfl)
  · intro other differ
    exact (find?_install s target other product).trans (if_neg differ)

theorem react_of_unknown {s : Store} {target : Uri} (absent : s.find? target = none)
    (trigger : Trigger) (unknown : Action) : s.react target trigger unknown = (unknown, s) := by
  simp [react, absent]

theorem react_of_stored {s : Store} {target : Uri} {stored : StoredProduct}
    (present : s.find? target = some stored) (trigger : Trigger) (unknown : Action) :
    (s.react target trigger unknown).1 = (stored.state.react trigger).2 ∧
    ∀ other, (s.react target trigger unknown).2.find? other =
      if target = other then some { stored with state := (stored.state.react trigger).1 }
      else s.find? other := by
  simp only [react, present]
  refine ⟨trivial, fun other => ?_⟩
  simp [find?, Keyed.find?_put]

/-- The second store is the first, with some of its products armed. -/
structure Arms (s s' : Store) : Prop where
  naming : s'.naming = s.naming
  generation : s'.generation = s.generation
  inboxes : s'.inboxes = s.inboxes
  products : ∀ target, s'.find? target = s.find? target ∨
    ∃ stored, s.find? target = some stored ∧
      s'.find? target = some { stored with state := .armed }

namespace Arms

theorem refl (s : Store) : Arms s s := ⟨rfl, rfl, rfl, fun _ => .inl rfl⟩

theorem trans {s s' s'' : Store} (first : Arms s s') (second : Arms s' s'') : Arms s s'' where
  naming := second.naming.trans first.naming
  generation := second.generation.trans first.generation
  inboxes := second.inboxes.trans first.inboxes
  products := by
    intro target
    rcases first.products target with same | ⟨stored, present, armed⟩
    · rw [← same]
      exact second.products target
    · refine .inr ⟨stored, present, ?_⟩
      rcases second.products target with same | ⟨again, found, armedAgain⟩
      · rw [same, armed]
      · rw [armedAgain, ← Option.some.inj (armed.symm.trans found)]

/-- All but the state of a product is as it was. -/
theorem of_find? {s s' : Store} (arms : Arms s s') {target : Uri} {stored : StoredProduct}
    (found : s'.find? target = some stored) : ∃ before, s.find? target = some before ∧
      stored.product = before.product ∧ stored.index = before.index ∧
      stored.generation = before.generation := by
  rcases arms.products target with same | ⟨before, present, armed⟩
  · exact ⟨stored, same ▸ found, rfl, rfl, rfl⟩
  · obtain rfl := Option.some.inj (found.symm.trans armed)
    exact ⟨before, present, rfl, rfl, rfl⟩

end Arms

theorem arms_react (s : Store) (target : Uri) (trigger : Trigger) (unknown : Action)
    (event : trigger ≠ .republished) : Arms s (s.react target trigger unknown).2 := by
  cases present : s.find? target with
  | none =>
    rw [react_of_unknown present]
    exact .refl s
  | some stored =>
    refine ⟨?_, ?_, ?_, fun other => ?_⟩
    · simp [react, present]
    · simp [react, present]
    · simp [react, present]
    · rw [(react_of_stored present trigger unknown).2, stored.state.react_armed event]
      by_cases same : target = other
      · subst same
        exact .inr ⟨stored, present, if_pos rfl⟩
      · exact .inl (if_neg same)

theorem mem_linkedTargets {s : Store} {source target : Uri} :
    target ∈ s.linkedTargets source ↔
      ∃ stored, s.find? target = some stored ∧ stored.product.source.SameDocument source := by
  simp only [linkedTargets, List.mem_mergeSort, List.mem_map, List.mem_filter, decide_eq_true_eq]
  constructor
  · rintro ⟨⟨key, stored⟩, ⟨entry, linked⟩, rfl⟩
    exact ⟨stored, (s.products.mem_entries_iff key stored).mp entry, linked⟩
  · rintro ⟨stored, found, linked⟩
    exact ⟨(target, stored), ⟨(s.products.mem_entries_iff target stored).mpr found, linked⟩, rfl⟩

end Store

end LinkedViews
