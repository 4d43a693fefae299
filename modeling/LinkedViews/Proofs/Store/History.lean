import LinkedViews.Proofs.History
import LinkedViews.Proofs.Store.Operations
import Mathlib.Data.List.Induction

/-! Histories of a store. Whether an event on a product is absorbed depends on what was done before
only through the latest save under its identifier and the events on it since. -/
namespace LinkedViews.Store

inductive Operation
  | subscribe
  | save (product : Product)
  | selection (target : Uri)
  | manualSync (target : Uri)

/-- A save that is refused changes nothing. -/
def perform (s : Store) : Operation → Store
  | .subscribe => s.subscribe
  | .save product =>
    match s.save product with
    | .ok (_, saved) => saved
    | .error _ => s
  | .selection target => (s.onSelection target).2
  | .manualSync target => (s.onManualSync target).2

def run (s : Store) (history : List Operation) : Store := history.foldl perform s

namespace Operation

/-- The identifier under which an operation saves. What a store holds has no part in it, so any
store of that naming tells. -/
def saved? (naming : Naming) : Operation → Option Uri
  | save product => ((new naming).save product).toOption.map Prod.fst
  | _ => none

def consulted? : Operation → Option Uri
  | selection target | manualSync target => some target
  | _ => none

/-- Whether an operation saves under an identifier or asks for its state. -/
def concerns (naming : Naming) (target : Uri) (o : Operation) : Bool :=
  o.saved? naming = some target ∨ o.consulted? = some target

theorem saved?_save (s : Store) (product : Product) :
    (save product).saved? s.naming = (s.save product).toOption.map Prod.fst := by
  simp only [saved?, Store.save, naming_new]
  cases product.validate with
  | error e => rfl
  | ok u => cases product.target s.naming <;> rfl

end Operation

def state? (s : Store) (target : Uri) : Option Suppression := (s.find? target).map (·.state)

theorem state?_react (s : Store) (target other : Uri) (trigger : Trigger) (unknown : Action)
    (event : trigger ≠ .republished) : (s.react target trigger unknown).2.state? other =
      if target = other then (s.state? other).map fun _ => .armed else s.state? other := by
  cases present : s.find? target with
  | none =>
    rw [react_of_unknown present]
    split
    next same => simp [state?, ← same, present]
    next => rfl
  | some stored =>
    simp only [state?, (react_of_stored present trigger unknown).2, stored.state.react_armed event]
    split
    next same => simp [← same, present]
    next => rfl

theorem naming_perform (s : Store) (o : Operation) : (s.perform o).naming = s.naming := by
  cases o with
  | subscribe => rfl
  | save product =>
    simp only [perform]
    split
    next saved => exact (saved_of_save saved).naming
    next => rfl
  | selection target => exact (arms_react s target .selectionChanged .absorb (by decide)).naming
  | manualSync target => exact (arms_react s target .manualSync .none (by decide)).naming

/-- One operation: a save under an identifier disarms it, a question about it arms it if it is
published, and nothing else touches it. -/
theorem state?_perform (s : Store) (o : Operation) (target : Uri) :
    (s.perform o).state? target =
      if o.saved? s.naming = some target then some .unarmed
      else if o.consulted? = some target then (s.state? target).map fun _ => .armed
      else s.state? target := by
  cases o with
  | subscribe => simp [perform, Operation.saved?, Operation.consulted?, state?]
  | selection other =>
    rw [perform, onSelection, state?_react s other target .selectionChanged .absorb (by decide)]
    simp [Operation.saved?, Operation.consulted?]
  | manualSync other =>
    rw [perform, onManualSync, state?_react s other target .manualSync .none (by decide)]
    simp [Operation.saved?, Operation.consulted?]
  | save product =>
    rw [Operation.saved?_save]
    simp only [perform, Operation.consulted?, reduceCtorEq, if_false]
    cases result : s.save product with
    | error e => simp [Except.toOption]
    | ok pair =>
      obtain ⟨here, s'⟩ := pair
      have saved := saved_of_save result
      by_cases same : here = target
      · subst same
        simp [Except.toOption, state?, saved.here]
      · simp [Except.toOption, state?, saved.elsewhere target same, same]

theorem run_concat (s : Store) (history : List Operation) (o : Operation) :
    s.run (history ++ [o]) = (s.run history).perform o := by
  simp [run]

theorem naming_run (s : Store) (history : List Operation) : (s.run history).naming = s.naming := by
  induction history using List.reverseRecOn with
  | nil => rfl
  | append_singleton history o ih => rw [run_concat, naming_perform, ih]

theorem isSome_state?_run (naming : Naming) (history : List Operation) (target : Uri) :
    (((new naming).run history).state? target).isSome ↔
      ∃ o ∈ history, o.saved? naming = some target := by
  induction history using List.reverseRecOn with
  | nil => simp [run, state?]
  | append_singleton history o ih =>
    rw [run_concat, state?_perform, naming_run, naming_new]
    by_cases saves : o.saved? naming = some target
    · simp [saves]
    · simp [saves, ← ih, apply_ite]

/-- A product is armed when it was asked for since the latest save under its identifier. -/
theorem state?_run_eq_armed_iff (naming : Naming) (history : List Operation) (target : Uri) :
    ((new naming).run history).state? target = some .armed ↔
      (∃ o ∈ history, o.saved? naming = some target) ∧
      Since (·.saved? naming = some target) (·.consulted? = some target) history := by
  induction history using List.reverseRecOn with
  | nil => simp [run, state?]
  | append_singleton history o ih =>
    rw [run_concat, state?_perform, naming_run, naming_new, since_concat]
    have published := isSome_state?_run naming history target
    by_cases saves : o.saved? naming = some target
    · have asks : o.consulted? ≠ some target := by
        cases o <;> simp [Operation.saved?, Operation.consulted?] at saves ⊢
      simp [saves, asks]
    · by_cases asks : o.consulted? = some target
      · simp [saves, asks, ← published, Option.isSome_iff_exists]
      · simp [saves, asks, ih]

/-- What concerns other identifiers leaves no trace. -/
theorem state?_run_filter (naming : Naming) (history : List Operation) (target : Uri) :
    ((new naming).run (history.filter (·.concerns naming target))).state? target =
      ((new naming).run history).state? target := by
  induction history using List.reverseRecOn with
  | nil => rfl
  | append_singleton history o ih =>
    rw [List.filter_append, run_concat, state?_perform, naming_run, naming_new]
    by_cases own : o.concerns naming target
    · rw [List.filter_cons_of_pos own, List.filter_nil, run_concat, state?_perform, naming_run,
        naming_new, ih]
    · rw [List.filter_cons_of_neg own, List.filter_nil, List.append_nil, ih]
      simp only [Operation.concerns, decide_eq_true_eq, not_or] at own
      rw [if_neg own.1, if_neg own.2]

theorem onSelection_action (s : Store) (target : Uri) : (s.onSelection target).1 =
    if s.state? target = some .armed then .propagate else .absorb := by
  cases present : s.find? target with
  | none => simp [onSelection, react_of_unknown present, state?, present]
  | some stored =>
    rw [onSelection, (react_of_stored present .selectionChanged .absorb).1]
    cases armed : stored.state <;> simp [state?, present, armed, Suppression.react]

theorem onManualSync_action (s : Store) (target : Uri) : (s.onManualSync target).1 =
    if (s.state? target).isSome then .propagate else .none := by
  cases present : s.find? target with
  | none => simp [onManualSync, react_of_unknown present, state?, present]
  | some stored =>
    rw [onManualSync, (react_of_stored present .manualSync .none).1]
    cases armed : stored.state <;> simp [state?, present, Suppression.react]

/-- The law of suppression, over every history. A selection of a product propagates exactly if
something was saved under its identifier and the product was asked for since the latest such save; a
manual sync propagates exactly if anything was ever saved there. Operations on other identifiers,
and saves that were refused, could as well be left out. -/
theorem propagates_iff_consulted_since_save (naming : Naming) (history : List Operation)
    (target : Uri) :
    let s := (new naming).run history
    let own := (new naming).run (history.filter (·.concerns naming target))
    let published := ∃ o ∈ history, o.saved? naming = some target
    ((s.onSelection target).1 = .propagate ↔ published ∧
      Since (·.saved? naming = some target) (·.consulted? = some target) history) ∧
    ((s.onSelection target).1 ≠ .propagate → (s.onSelection target).1 = .absorb) ∧
    ((s.onManualSync target).1 = .propagate ↔ published) ∧
    ((s.onManualSync target).1 ≠ .propagate → (s.onManualSync target).1 = .none) ∧
    (own.onSelection target).1 = (s.onSelection target).1 ∧
    (own.onManualSync target).1 = (s.onManualSync target).1 := by
  intro s own published
  have armed := state?_run_eq_armed_iff naming history target
  have known := isSome_state?_run naming history target
  have same : own.state? target = s.state? target := state?_run_filter naming history target
  simp only [onSelection_action, onManualSync_action, same]
  refine ⟨?_, ?_, ?_, ?_, trivial, trivial⟩
  · rw [← armed]
    split <;> simp_all [s]
  · split <;> simp
  · simp only [published, ← known]
    split <;> simp_all [s]
  · split <;> simp

end LinkedViews.Store
