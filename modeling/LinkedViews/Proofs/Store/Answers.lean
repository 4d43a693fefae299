import LinkedViews.Proofs.Store.Consistency
import LinkedViews.Store.Documents

/-! What a store says of its history. Looking up answers with the latest save under an identifier,
numbered by its place among all saves; a listener is told of every save that came after it, in
order, each time when the store already answers with the new product. -/
namespace LinkedViews.Store

/-- Every question about an identifier is answered with one product, under one generation. -/
structure Answers (s : Store) (target : Uri) (p : Product) (g : Generation) : Prop where
  product : (s.get target).product = p
  index : (s.get target).index = .build p.rangeMap
  generation : (s.get target).generation = g
  content? : s.content? target = some p.content
  generation? : s.generation? target = some g
  documents : ∀ d : Documents, d.content s target = p.content

/-- Every question about an identifier is answered as if nothing had ever been published. -/
structure Blank (s : Store) (target : Uri) : Prop where
  get : s.get target = .placeholder
  content? : s.content? target = none
  generation? : s.generation? target = none
  documents : ∀ d : Documents, d.content s target = d.unknownContent

theorem answers_of_find? {s : Store} {target : Uri} {stored : StoredProduct}
    (found : s.find? target = some stored)
    (indexed : stored.index = .build stored.product.rangeMap) :
    s.Answers target stored.product stored.generation := by
  constructor
  case documents =>
    intro d
    simp [Documents.content, Store.content?, found]
  all_goals simp [Store.get, Store.content?, Store.generation?, found, indexed]

theorem blank_iff {s : Store} {target : Uri} : s.Blank target ↔ s.find? target = none := by
  constructor
  · intro blank
    simpa [Store.content?] using blank.content?
  · intro absent
    constructor
    case documents =>
      intro d
      simp [Documents.content, Store.content?, absent]
    all_goals simp [Store.get, Store.content?, Store.generation?, absent]

theorem blank_of_documents {s : Store} {target : Uri}
    (unknown : ∀ d : Documents, d.content s target = d.unknownContent) : s.Blank target := by
  rw [blank_iff]
  cases found : s.find? target with
  | none => rfl
  | some stored =>
    have served (text : String) : stored.product.content = text := by
      simpa [Documents.content, Store.content?, found] using unknown ⟨text, 0, 0⟩
    exact absurd ((served "").symm.trans (served " ")) (by decide)

theorem blank_run_iff (naming : Naming) (history : List Operation) (target : Uri) :
    ((new naming).run history).Blank target ↔ ∀ o ∈ history, o.saved? naming ≠ some target := by
  have published := isSome_state?_run naming history target
  rw [state?, Option.isSome_map] at published
  rw [blank_iff, ← Option.not_isSome_iff_eq_none, published]
  simp

theorem find?_run_of_latest {naming : Naming} {before after : List Operation} {product : Product}
    {target : Uri} (saved : (Operation.save product).saved? naming = some target)
    (latest : ∀ o ∈ after, o.saved? naming ≠ some target) :
    ∃ stored, ((new naming).run (before ++ .save product :: after)).find? target = some stored ∧
      stored.product = product ∧ stored.index = .build product.rangeMap ∧
      stored.generation = ((new naming).run before).generation.next := by
  induction after using List.reverseRecOn with
  | nil =>
    have here : (Operation.save product).saved? ((new naming).run before).naming = some target := by
      rw [naming_run]
      exact saved
    obtain ⟨product', same, -, found⟩ := find?_perform_of_saved here
    obtain rfl := Operation.save.inj same
    rw [run_concat]
    exact ⟨_, found, rfl, rfl, rfl⟩
  | append_singleton after o ih =>
    obtain ⟨stored, found, kept⟩ := ih fun o' member => latest o' (List.mem_append_left _ member)
    have unsaved : o.saved? ((new naming).run (before ++ .save product :: after)).naming ≠
        some target := by
      rw [naming_run]
      exact latest o (by simp)
    rw [← List.cons_append, ← List.append_assoc, run_concat]
    rcases find?_perform_of_unsaved unsaved with same | ⟨stored', present, armed⟩
    · exact ⟨stored, same.trans found, kept⟩
    · obtain rfl := Option.some.inj (found.symm.trans present)
      exact ⟨_, armed, kept⟩

/-- The identifiers that a history saves under, in order. -/
def savedTargets (naming : Naming) (history : List Operation) : List Uri :=
  history.filterMap (·.saved? naming)

theorem savedTargets_concat (naming : Naming) (history : List Operation) (o : Operation) :
    savedTargets naming (history ++ [o]) =
      savedTargets naming history ++ (o.saved? naming).toList := by
  cases saved : o.saved? naming <;> simp [savedTargets, saved]

theorem length_savedTargets (naming : Naming) (history : List Operation) :
    (savedTargets naming history).length = saves naming history := by
  rw [savedTargets, saves, List.length_filterMap_eq_countP]

/-- What is told of a series of saves that comes after `count` others. -/
def changesFrom (count : Nat) (targets : List Uri) : List ContentChange :=
  (targets.zipIdx (count + 1)).map fun (target, number) => ⟨target, ⟨number⟩⟩

theorem changesFrom_concat (count : Nat) (targets : List Uri) (target : Uri) :
    changesFrom count (targets ++ [target]) =
      changesFrom count targets ++ [⟨target, ⟨count + targets.length + 1⟩⟩] := by
  simp [changesFrom, List.zipIdx_append]
  omega

theorem save_eq_announce {s : Store} {product : Product} {target : Uri}
    (saved : (Operation.save product).saved? s.naming = some target) :
    s.perform (.save product) = (s.install target product).announce target ∧
    ((s.install target product).get target).generation = s.generation.next := by
  rw [Operation.saved?_save] at saved
  cases result : s.save product with
  | error e => simp [result, Except.toOption] at saved
  | ok pair =>
    obtain ⟨here, s'⟩ := pair
    obtain rfl : here = target := by simpa [result, Except.toOption] using saved
    obtain ⟨-, -, rfl⟩ := save_eq_ok_iff.mp result
    simp [perform, result, get, find?_install]

/-- One operation: a save is told to every listener, and nothing else is told. -/
theorem inbox_perform {s : Store} {i : Nat} {inbox : List ContentChange}
    (listens : s.inboxes[i]? = some inbox) (o : Operation) : (s.perform o).inboxes[i]? =
      some (inbox ++ (o.saved? s.naming).toList.map (⟨·, s.generation.next⟩)) := by
  cases o with
  | subscribe =>
    have earlier : i < s.inboxes.length := (List.getElem?_eq_some_iff.mp listens).1
    simp [perform, subscribe, Operation.saved?, List.getElem?_append_left earlier, listens]
  | selection target =>
    rw [perform, onSelection, (arms_react s target .selectionChanged .absorb (by decide)).inboxes]
    simp [Operation.saved?, listens]
  | manualSync target =>
    rw [perform, onManualSync, (arms_react s target .manualSync .none (by decide)).inboxes]
    simp [Operation.saved?, listens]
  | save product =>
    cases saved : (Operation.save product).saved? s.naming with
    | some target =>
      obtain ⟨told, answers⟩ := save_eq_announce saved
      rw [told, announce, answers]
      simp [install, listens]
    | none =>
      have refused : ∃ e, s.save product = .error e := by
        rw [Operation.saved?_save] at saved
        cases result : s.save product with
        | error e => exact ⟨e, rfl⟩
        | ok pair => simp [result, Except.toOption] at saved
      obtain ⟨e, refused⟩ := refused
      simp [perform, refused, listens]

theorem next_run {naming : Naming} {history : List Operation}
    (room : saves naming history < Decimal.maxWord) :
    ((new naming).run history).generation.next = ⟨saves naming history + 1⟩ := by
  have counted := generation_run room
  rw [← counted] at room ⊢
  exact congrArg Generation.mk (Generation.value_next room)

/-- A listener has been told of the saves since it subscribed, and of nothing else. -/
theorem inbox_run {naming : Naming} {before after : List Operation}
    (few : saves naming (before ++ .subscribe :: after) < Decimal.maxWord) :
    ((new naming).run (before ++ .subscribe :: after)).inboxes[
        ((new naming).run before).inboxes.length]? =
      some (changesFrom (saves naming before) (savedTargets naming after)) := by
  induction after using List.reverseRecOn with
  | nil =>
    rw [run_concat]
    simp [perform, subscribe, savedTargets, changesFrom]
  | append_singleton after o ih =>
    rw [← List.cons_append, ← List.append_assoc, saves_append] at few
    have room : saves naming (before ++ .subscribe :: after) < Decimal.maxWord := by omega
    have count : saves naming (before ++ .subscribe :: after) =
        saves naming before + (savedTargets naming after).length := by
      rw [length_savedTargets, saves_append]
      rfl
    rw [← List.cons_append, ← List.append_assoc, run_concat, inbox_perform (ih room), next_run room,
      naming_run, naming_new, savedTargets_concat, count]
    cases o.saved? naming with
    | none => simp
    | some target => simp [changesFrom_concat]

def Operation.subscribes : Operation → Bool
  | subscribe => true
  | _ => false

theorem length_inboxes_perform (s : Store) (o : Operation) :
    (s.perform o).inboxes.length = s.inboxes.length + if o.subscribes then 1 else 0 := by
  cases o with
  | subscribe => simp [perform, subscribe, Operation.subscribes]
  | selection target =>
    rw [perform, onSelection, (arms_react s target .selectionChanged .absorb (by decide)).inboxes]
    rfl
  | manualSync target =>
    rw [perform, onManualSync, (arms_react s target .manualSync .none (by decide)).inboxes]
    rfl
  | save product =>
    simp only [perform]
    split
    next saved =>
      obtain ⟨-, -, rfl⟩ := save_eq_ok_iff.mp saved
      simp [announce, install, Operation.subscribes]
    next => rfl

theorem length_inboxes_run (naming : Naming) (history : List Operation) :
    ((new naming).run history).inboxes.length = history.countP (·.subscribes) := by
  induction history using List.reverseRecOn with
  | nil => rfl
  | append_singleton history o ih =>
    rw [run_concat, length_inboxes_perform, ih, List.countP_append, List.countP_singleton]

/-- A store and its history, as long as saves can be told apart. When a product is saved, the store
answers with it, under the next number, before any listener is told; and it goes on to do so until
the next save under that identifier. What was never saved is blank, and nothing else is. There is
one inbox for each subscription, and it holds the changes of the saves since, in order, with
consecutive numbers; so does the feed of documents that are registered then. -/
theorem history_answered_and_told (naming : Naming) (history : List Operation)
    (few : saves naming history < Decimal.maxWord) :
    let s := (new naming).run history
    (∀ before product after target, history = before ++ .save product :: after →
      (Operation.save product).saved? naming = some target →
      let installed := ((new naming).run before).install target product
      (new naming).run (before ++ [.save product]) = installed.announce target ∧
      installed.Answers target product ⟨saves naming before + 1⟩ ∧
      ((∀ o ∈ after, o.saved? naming ≠ some target) →
        s.Answers target product ⟨saves naming before + 1⟩)) ∧
    (∀ target, (s.Blank target ↔ ∀ o ∈ history, o.saved? naming ≠ some target) ∧
      ((∀ d : Documents, d.content s target = d.unknownContent) ↔ s.Blank target)) ∧
    s.inboxes.length = history.countP (·.subscribes) ∧
    ∀ before after, history = before ++ .subscribe :: after →
      s.inboxes[before.countP (·.subscribes)]? =
        some (changesFrom (saves naming before) (savedTargets naming after)) ∧
      ∀ unknown capacity,
        (Documents.new ((new naming).run before) unknown capacity).1.changes s =
          changesFrom (saves naming before) (savedTargets naming after) := by
  intro s
  refine ⟨?answers, fun target => ⟨blank_run_iff naming history target, ?_, ?_⟩,
    length_inboxes_run naming history, ?told⟩
  case answers =>
    rintro before product after target rfl saved installed
    have next : ((new naming).run before).generation.next = ⟨saves naming before + 1⟩ := by
      rw [saves_append] at few
      exact next_run (by omega)
    have here : (Operation.save product).saved? ((new naming).run before).naming = some target := by
      rw [naming_run]
      exact saved
    have placed : installed.find? target =
        some ⟨product, .build product.rangeMap, .unarmed, ⟨saves naming before + 1⟩⟩ := by
      rw [find?_install, if_pos rfl, next]
    refine ⟨?_, answers_of_find? placed rfl, fun latest => ?_⟩
    · rw [run_concat]
      exact (save_eq_announce here).1
    · obtain ⟨stored, found, rfl, index, number⟩ := find?_run_of_latest saved latest
      rw [← next, ← number]
      exact answers_of_find? found index
  case told =>
    rintro before after rfl
    have inbox := inbox_run few
    refine ⟨length_inboxes_run naming before ▸ inbox, fun unknown capacity => ?_⟩
    simp only [Documents.new, Documents.changes]
    rw [inbox, Option.getD_some]
  · exact blank_of_documents
  · exact fun blank => blank.documents

namespace Republished

def inverted : Product := { product with rangeMap := [⟨⟨0, 5⟩, ⟨0, 3⟩⟩, ⟨⟨9, 5⟩, ⟨3, 9⟩⟩] }

/-- The second listener comes late. -/
def heard : List Operation :=
  [.subscribe, .save product, .subscribe, .save inverted, .selection target, .save product]

theorem refused : (Operation.save inverted).saved? .default = none := by cbv

theorem savedTargets_heard : savedTargets .default heard = [target, target] ∧
    savedTargets .default (heard.take 2) = [target] ∧
    savedTargets .default (heard.take 5) = [target] ∧
    savedTargets .default (heard.drop 3) = [target] := by
  have subscribing : Operation.subscribe.saved? .default = none := rfl
  have selecting : (Operation.selection target).saved? .default = none := rfl
  simp [heard, savedTargets, saved, refused, subscribing, selecting]

/-- The refused save has no number, and the late listener hears of the second save alone. -/
theorem late_listener_told : saves .default heard < Decimal.maxWord ∧
    ((new .default).run heard).inboxes[1]? = some [⟨target, ⟨2⟩⟩] ∧
    ((new .default).run heard).Answers target product ⟨2⟩ := by
  obtain ⟨all, early, before, late⟩ := savedTargets_heard
  have few : saves .default heard < Decimal.maxWord := by
    rw [← length_savedTargets, all]
    decide
  obtain ⟨answered, -, -, told⟩ := history_answered_and_told .default heard few
  have inbox := (told (heard.take 2) (heard.drop 3) rfl).1
  have answers := (answered (heard.take 5) product [] target rfl saved).2.2 (by simp)
  rw [late, ← length_savedTargets, early] at inbox
  rw [← length_savedTargets, before] at answers
  exact ⟨few, inbox, answers⟩

end Republished

end LinkedViews.Store
