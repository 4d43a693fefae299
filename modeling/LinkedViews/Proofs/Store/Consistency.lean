import LinkedViews.Proofs.Product.Ordered
import LinkedViews.Proofs.Store.History
import Mathlib

/-! What a store's entries have to do with their keys, their contents and the counter. Generations
are never given twice, so whoever holds an older one can tell that it was replaced. -/
namespace LinkedViews

/-- Short of the largest word, counting on gives a larger number. -/
theorem Generation.value_next {g : Generation} (room : g.value < Decimal.maxWord) :
    g.next.value = g.value + 1 := by
  simp only [next]
  omega

namespace Store

/-- Every entry stands under the identifier of its own product, its index belongs to its pairs, and
its generation was given to it alone. -/
structure Consistent (s : Store) : Prop where
  named : ∀ {target stored}, s.find? target = some stored →
    stored.product.target s.naming = .ok target
  indexed : ∀ {target stored}, s.find? target = some stored →
    stored.index = .build stored.product.rangeMap
  valid : ∀ {target stored}, s.find? target = some stored → stored.product.validate = .ok ()
  positive : ∀ {target stored}, s.find? target = some stored → 1 ≤ stored.generation.value
  counted : ∀ {target stored}, s.find? target = some stored →
    stored.generation.value ≤ s.generation.value
  unshared : ∀ {target other stored stored'}, s.find? target = some stored →
    s.find? other = some stored' → stored.generation = stored'.generation → target = other

namespace Consistent

theorem new (naming : Naming) : Consistent (new naming) := by
  constructor <;> intros <;> simp_all

theorem subscribe {s : Store} (consistent : Consistent s) : Consistent s.subscribe where
  named := consistent.named
  indexed := consistent.indexed
  valid := consistent.valid
  positive := consistent.positive
  counted := consistent.counted
  unshared := consistent.unshared

theorem arms {s s' : Store} (consistent : Consistent s) (arms : Arms s s') : Consistent s' where
  named found := by
    obtain ⟨before, present, product, -, -⟩ := arms.of_find? found
    rw [product, arms.naming]
    exact consistent.named present
  indexed found := by
    obtain ⟨before, present, product, index, -⟩ := arms.of_find? found
    rw [product, index]
    exact consistent.indexed present
  valid found := by
    obtain ⟨before, present, product, -, -⟩ := arms.of_find? found
    rw [product]
    exact consistent.valid present
  positive found := by
    obtain ⟨before, present, -, -, generation⟩ := arms.of_find? found
    rw [generation]
    exact consistent.positive present
  counted found := by
    obtain ⟨before, present, -, -, generation⟩ := arms.of_find? found
    rw [generation, arms.generation]
    exact consistent.counted present
  unshared found found' same := by
    obtain ⟨before, present, -, -, generation⟩ := arms.of_find? found
    obtain ⟨before', present', -, -, generation'⟩ := arms.of_find? found'
    exact consistent.unshared present present' (generation ▸ generation' ▸ same)

/-- A save is the one step that writes an entry, and it writes one with a number that no entry has
yet. -/
theorem save {s s' : Store} {product : Product} {target : Uri} (consistent : Consistent s)
    (room : s.generation.value < Decimal.maxWord) (result : s.save product = .ok (target, s')) :
    Consistent s' := by
  obtain ⟨valid, named, -⟩ := save_eq_ok_iff.mp result
  have saved := saved_of_save result
  have next := Generation.value_next room
  have entry {other stored} (found : s'.find? other = some stored) :
      target = other ∧ stored = ⟨product, .build product.rangeMap, .unarmed, s.generation.next⟩ ∨
      target ≠ other ∧ s.find? other = some stored := by
    by_cases same : target = other
    · subst same
      exact .inl ⟨rfl, Option.some.inj (found.symm.trans saved.here)⟩
    · exact .inr ⟨same, saved.elsewhere other same ▸ found⟩
  -- an entry from before has a number that was counted before, so not the one given now
  have older {other stored} (present : s.find? other = some stored) :
      stored.generation ≠ s.generation.next := by
    intro same
    have := consistent.counted present
    rw [same, next] at this
    omega
  constructor
  case named =>
    intro other stored found
    rw [saved.naming]
    rcases entry found with ⟨rfl, rfl⟩ | ⟨-, present⟩
    · exact named
    · exact consistent.named present
  case indexed =>
    intro other stored found
    rcases entry found with ⟨rfl, rfl⟩ | ⟨-, present⟩
    · rfl
    · exact consistent.indexed present
  case valid =>
    intro other stored found
    rcases entry found with ⟨rfl, rfl⟩ | ⟨-, present⟩
    · exact valid
    · exact consistent.valid present
  case positive =>
    intro other stored found
    rcases entry found with ⟨rfl, rfl⟩ | ⟨-, present⟩
    · simp only [next]
      omega
    · exact consistent.positive present
  case counted =>
    intro other stored found
    rw [saved.generation]
    rcases entry found with ⟨rfl, rfl⟩ | ⟨-, present⟩
    · exact Nat.le_refl _
    · have := consistent.counted present
      omega
  case unshared =>
    intro other other' stored stored' found found' same
    rcases entry found with ⟨rfl, rfl⟩ | ⟨-, present⟩ <;>
      rcases entry found' with ⟨rfl, rfl⟩ | ⟨-, present'⟩
    · rfl
    · exact absurd same.symm (older present')
    · exact absurd same (older present)
    · exact consistent.unshared present present' same

theorem isPlaceholder_get {s : Store} (consistent : Consistent s) (target : Uri) :
    (s.get target).isPlaceholder = true ↔ s.contains target = false := by
  cases found : s.find? target with
  | none =>
    have absent : s.products.find? target = none := found
    simp [get, found, contains, Keyed.contains, absent, StoredProduct.isPlaceholder,
      StoredProduct.placeholder]
  | some stored =>
    have present : s.products.find? target = some stored := found
    have positive := consistent.positive found
    have numbered : stored.generation ≠ .zero := by
      intro zero
      simp [zero, Generation.zero] at positive
    simp [get, found, contains, Keyed.contains, present, StoredProduct.isPlaceholder, numbered]

end Consistent

/-- How many operations of a history save something. -/
def saves (naming : Naming) (history : List Operation) : Nat :=
  history.countP fun o => (o.saved? naming).isSome

theorem saves_append (naming : Naming) (history after : List Operation) :
    saves naming (history ++ after) = saves naming history + saves naming after := by
  simp [saves]

theorem saves_singleton (naming : Naming) (o : Operation) :
    saves naming [o] = if (o.saved? naming).isSome then 1 else 0 := by
  simp [saves, List.countP_singleton]

theorem generation_perform (s : Store) (o : Operation) : (s.perform o).generation =
    if (o.saved? s.naming).isSome then s.generation.next else s.generation := by
  cases o with
  | subscribe => rfl
  | selection target => exact (arms_react s target .selectionChanged .absorb (by decide)).generation
  | manualSync target => exact (arms_react s target .manualSync .none (by decide)).generation
  | save product =>
    rw [Operation.saved?_save]
    simp only [perform]
    split
    next result => simp [result, Except.toOption, (saved_of_save result).generation]
    next result => simp [result, Except.toOption]

/-- The counter tells how many saves there were, until it runs out. -/
theorem generation_run {naming : Naming} {history : List Operation}
    (few : saves naming history < Decimal.maxWord) :
    ((new naming).run history).generation.value = saves naming history := by
  induction history using List.reverseRecOn with
  | nil => rfl
  | append_singleton history o ih =>
    rw [saves_append] at few
    have counted := ih (by omega)
    rw [run_concat, generation_perform, naming_run, naming_new, saves_append]
    rw [saves_singleton] at few ⊢
    split
    next saved =>
      rw [if_pos saved] at few
      rw [Generation.value_next (by omega), counted]
    next => rw [counted, Nat.add_zero]

theorem Consistent.perform {s : Store} {o : Operation} (consistent : Consistent s)
    (room : (o.saved? s.naming).isSome → s.generation.value < Decimal.maxWord) :
    Consistent (s.perform o) := by
  cases o with
  | subscribe => exact consistent.subscribe
  | selection target =>
    exact consistent.arms (arms_react s target .selectionChanged .absorb (by decide))
  | manualSync target => exact consistent.arms (arms_react s target .manualSync .none (by decide))
  | save product =>
    rw [Operation.saved?_save] at room
    simp only [Store.perform]
    split
    next result => exact consistent.save (room (by simp [result, Except.toOption])) result
    next => exact consistent

theorem consistent_run {naming : Naming} {history : List Operation}
    (few : saves naming history < Decimal.maxWord) : Consistent ((new naming).run history) := by
  induction history using List.reverseRecOn with
  | nil => exact .new naming
  | append_singleton history o ih =>
    rw [saves_append] at few
    rw [run_concat]
    refine (ih (by omega)).perform fun saved => ?_
    rw [naming_run, naming_new] at saved
    rw [generation_run (by omega)]
    rw [saves_singleton, if_pos saved] at few
    omega

/-- An operation that saves nothing under an identifier does at most arm what is there. -/
theorem find?_perform_of_unsaved {s : Store} {o : Operation} {target : Uri}
    (unsaved : o.saved? s.naming ≠ some target) : (s.perform o).find? target = s.find? target ∨
      ∃ stored, s.find? target = some stored ∧
        (s.perform o).find? target = some { stored with state := .armed } := by
  cases o with
  | subscribe => exact .inl rfl
  | selection other => exact (arms_react s other .selectionChanged .absorb (by decide)).products target
  | manualSync other => exact (arms_react s other .manualSync .none (by decide)).products target
  | save product =>
    rw [Operation.saved?_save] at unsaved
    simp only [Store.perform]
    split
    next here s' result =>
      refine .inl ((saved_of_save result).elsewhere target ?_)
      rintro rfl
      exact unsaved (by simp [result, Except.toOption])
    next => exact .inl rfl

theorem find?_perform_of_saved {s : Store} {o : Operation} {target : Uri}
    (saved : o.saved? s.naming = some target) : ∃ product, o = .save product ∧
      product.target s.naming = .ok target ∧ (s.perform o).find? target =
        some ⟨product, .build product.rangeMap, .unarmed, s.generation.next⟩ := by
  cases o with
  | subscribe | selection | manualSync => simp [Operation.saved?] at saved
  | save product =>
    rw [Operation.saved?_save] at saved
    cases result : s.save product with
    | error e => simp [result, Except.toOption] at saved
    | ok pair =>
      obtain ⟨here, s'⟩ := pair
      obtain rfl : here = target := by simpa [result, Except.toOption] using saved
      refine ⟨product, rfl, (save_eq_ok_iff.mp result).2.1, ?_⟩
      simp only [Store.perform, result]
      exact (saved_of_save result).here

/-- What an operation leaves under an identifier is as old as before, or it is the latest of all. -/
theorem generation?_perform (s : Store) (o : Operation) (target : Uri) :
    (s.perform o).generation? target =
      if o.saved? s.naming = some target then some s.generation.next else s.generation? target := by
  split
  next saved =>
    obtain ⟨product, -, -, found⟩ := find?_perform_of_saved saved
    simp [generation?, found]
  next unsaved =>
    rcases find?_perform_of_unsaved unsaved with same | ⟨stored, present, armed⟩
    · simp [generation?, same]
    · simp [generation?, present, armed]

/-- The generation under an identifier never goes back. -/
theorem generation?_run_append {naming : Naming} {history after : List Operation} {target : Uri}
    {g : Generation} (few : saves naming (history ++ after) < Decimal.maxWord)
    (had : ((new naming).run history).generation? target = some g) :
    ∃ g', ((new naming).run (history ++ after)).generation? target = some g' ∧
      g.value ≤ g'.value := by
  induction after using List.reverseRecOn with
  | nil => exact ⟨g, by simpa using had, Nat.le_refl _⟩
  | append_singleton after o ih =>
    rw [← List.append_assoc, saves_append] at few
    obtain ⟨g', has, least⟩ := ih (by omega)
    rw [← List.append_assoc, run_concat, generation?_perform, naming_run, naming_new]
    split
    next saved =>
      obtain ⟨stored, found, rfl⟩ := Option.map_eq_some_iff.mp has
      have counted := (consistent_run (by omega)).counted found
      rw [saves_singleton, saved] at few
      rw [← generation_run (by omega)] at few
      refine ⟨_, rfl, ?_⟩
      rw [Generation.value_next (by simp at few; omega)]
      omega
    next => exact ⟨g', has, least⟩

/-- A generation that a later save replaced is out of date from then on. -/
theorem isCurrent_run_of_replaced {naming : Naming} {earlier between after : List Operation}
    {o : Operation} {target : Uri} {g : Generation}
    (few : saves naming (earlier ++ between ++ o :: after) < Decimal.maxWord)
    (had : ((new naming).run earlier).generation? target = some g)
    (saved : o.saved? naming = some target) :
    ((new naming).run (earlier ++ between ++ o :: after)).isCurrent target g = false := by
  rw [← List.singleton_append, ← List.append_assoc] at few ⊢
  have upTo : saves naming (earlier ++ between ++ [o]) < Decimal.maxWord := by
    rw [saves_append] at few
    omega
  have before : saves naming (earlier ++ between) + 1 < Decimal.maxWord := by
    rw [saves_append, saves_singleton, saved] at upTo
    simpa using upTo
  obtain ⟨g', has, least⟩ : ∃ g', ((new naming).run (earlier ++ between)).generation? target =
      some g' ∧ g.value ≤ g'.value := generation?_run_append (by omega) had
  obtain ⟨stored, found, rfl⟩ := Option.map_eq_some_iff.mp has
  have counted := (consistent_run (by omega)).counted found
  have replaced : ((new naming).run (earlier ++ between ++ [o])).generation? target =
      some ((new naming).run (earlier ++ between)).generation.next := by
    rw [run_concat, generation?_perform, naming_run, naming_new, if_pos saved]
  obtain ⟨g'', now, most⟩ := generation?_run_append few replaced
  rw [Generation.value_next (by rw [generation_run (by omega)]; omega)] at most
  have differ : g'' ≠ g := by
    rintro rfl
    omega
  rw [isCurrent, now]
  simp [differ]

/-- The invariant of a store, after any history with fewer saves than the counter can tell apart. An
entry stands under the identifier that its product encodes to, with the index of its pairs, all of
them ordered, and with a generation that is counted and that no other entry has. So the placeholder
answers exactly where nothing is stored, and a save puts every generation that its identifier had
before out of date for good. -/
theorem entries_consistent (naming : Naming) (history : List Operation)
    (few : saves naming history < Decimal.maxWord) :
    let s := (new naming).run history
    (∀ target stored, (target, stored) ∈ s.products.entries →
      naming.encode stored.product.source stored.product.name stored.product.language = .ok target ∧
      stored.index = .build stored.product.rangeMap ∧
      (∀ pair ∈ stored.product.rangeMap, pair.source.start ≤ pair.source.stop ∧
        pair.target.start ≤ pair.target.stop) ∧
      1 ≤ stored.generation.value ∧ stored.generation.value ≤ s.generation.value) ∧
    (∀ entry ∈ s.products.entries, ∀ other ∈ s.products.entries, entry ≠ other →
      entry.2.generation ≠ other.2.generation) ∧
    (∀ target, (s.get target).isPlaceholder = true ↔ s.contains target = false) ∧
    ∀ earlier between product after target g,
      history = earlier ++ between ++ .save product :: after →
      (Operation.save product).saved? naming = some target →
      ((new naming).run earlier).generation? target = some g → s.isCurrent target g = false := by
  intro s
  have consistent : Consistent s := consistent_run few
  have named : s.naming = naming := naming_run _ _
  have found {target stored} (entry : (target, stored) ∈ s.products.entries) :
      s.find? target = some stored := (s.products.mem_entries_iff target stored).mp entry
  refine ⟨fun target stored entry => ?_, ?_, consistent.isPlaceholder_get, ?_⟩
  · refine ⟨?_, consistent.indexed (found entry), fun pair member => ?_,
      consistent.positive (found entry), consistent.counted (found entry)⟩
    · rw [← named]
      exact consistent.named (found entry)
    · exact pair.isOrdered_iff.mp
        (Product.validate_eq_ok_iff.mp (consistent.valid (found entry)) pair member)
  · rintro ⟨target, stored⟩ entry ⟨other, stored'⟩ entry' differ same
    obtain rfl := consistent.unshared (found entry) (found entry') same
    exact differ (congrArg _ (Option.some.inj ((found entry).symm.trans (found entry'))))
  · rintro earlier between product after target g rfl saved had
    exact isCurrent_run_of_replaced few had saved

namespace Republished

def product : Product :=
  ⟨⟨"file", some .none, "/a.mj", none, none⟩, "ast", "txt", "leaf", [⟨⟨0, 5⟩, ⟨0, 3⟩⟩]⟩

def target : Uri := ⟨"monto", none, "/a.mj-ast.txt", none, none⟩

def history : List Operation := [.save product, .selection target, .save product, .manualSync target]

theorem saved : (Operation.save product).saved? .default = some target := by
  have result : (new .default).save product =
      .ok (target, ((new .default).install target product).announce target) :=
    save_eq_ok_iff.mpr ⟨by cbv, by cbv, rfl⟩
  simp [Operation.saved?, result, Except.toOption]

theorem few : saves .default history < Decimal.maxWord :=
  Nat.lt_of_le_of_lt List.countP_le_length (by decide)

theorem first_generation :
    ((new .default).run [.save product]).generation? target = some ⟨1⟩ := by
  have saved : (Operation.save product).saved? (new .default).naming = some target := saved
  rw [show (new .default).run [.save product] = (new .default).perform (.save product) from rfl,
    generation?_perform, if_pos saved]
  rfl

/-- The first of two publishes is out of date. -/
theorem first_replaced : saves .default history < Decimal.maxWord ∧
    ((new .default).run [.save product]).generation? target = some ⟨1⟩ ∧
    ((new .default).run history).isCurrent target ⟨1⟩ = false :=
  ⟨few, first_generation, (entries_consistent .default history few).2.2.2 [.save product]
    [.selection target] product [.manualSync target] target ⟨1⟩ rfl saved first_generation⟩

end Republished

end Store

end LinkedViews
