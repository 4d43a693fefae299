import LinkedViews.View.Editor
import Mathlib.Data.List.Induction

/-! The editor without windows, whatever is done with it. Documents and views pair off, a document
keeps the view that it was first given, and selections are replaced where that was asked for and
nowhere else. -/
namespace LinkedViews.HeadlessEditor

variable {e e' : HeadlessEditor} {document : Uri} {view : View}

/-- Nothing in the log is lost or changed. -/
structure Grows (e e' : HeadlessEditor) : Prop where
  opens : e.opens <+: e'.opens
  applied : e.applied <+: e'.applied

theorem Grows.refl (e : HeadlessEditor) : Grows e e := ⟨List.prefix_refl _, List.prefix_refl _⟩

theorem Grows.trans {e e' e'' : HeadlessEditor} (first : Grows e e') (second : Grows e' e'') :
    Grows e e'' :=
  ⟨first.opens.trans second.opens, first.applied.trans second.applied⟩

/-- What is done by hand is not logged. -/
structure SameLog (e e' : HeadlessEditor) : Prop where
  opens : e'.opens = e.opens
  applied : e'.applied = e.applied

theorem SameLog.grows (same : SameLog e e') : Grows e e' :=
  ⟨same.opens ▸ List.prefix_refl _, same.applied ▸ List.prefix_refl _⟩

theorem sameLog_openNow (e : HeadlessEditor) (document : Uri) :
    SameLog e (e.openNow document).2 := by
  unfold openNow
  split <;> exact ⟨rfl, rfl⟩

theorem sameLog_select (e : HeadlessEditor) (document : Uri) (selections : List Span) :
    SameLog e (e.select document selections).2 :=
  ⟨(e.sameLog_openNow document).opens, (e.sameLog_openNow document).applied⟩

/-- An open that nothing keeps from completing. -/
def complete (e : HeadlessEditor) (document : Uri) (placement : Placement) :
    View × HeadlessEditor :=
  ((e.openNow document).1, { (e.openNow document).2 with
    opens := (e.openNow document).2.opens ++ [⟨document, placement⟩] })

theorem openView_of_released (unfailing : e.failNext = none) (released : e.held = false)
    (document : Uri) (placement : Placement) : e.openView document placement =
      (some (.ok (e.complete document placement).1), (e.complete document placement).2) := by
  simp only [openView, unfailing, released]
  rfl

/-- An open fails if it was to fail, else waits while opens are held back, and else completes. -/
theorem openView_cases (e : HeadlessEditor) (document : Uri) (placement : Placement) :
    (∃ reason, e.failNext = some reason ∧ e.openView document placement =
      (some (.error (.openFailed (toString document) reason)), { e with failNext := none })) ∨
    (e.failNext = none ∧ e.held = true ∧ e.openView document placement = (none, e)) ∨
    (e.failNext = none ∧ e.held = false ∧ e.openView document placement =
      (some (.ok (e.complete document placement).1), (e.complete document placement).2)) := by
  cases failing : e.failNext with
  | some reason => exact .inl ⟨reason, rfl, by simp only [openView, failing]⟩
  | none =>
    cases held : e.held with
    | true => exact .inr (.inl ⟨rfl, rfl, by simp only [openView, failing, held, if_true]⟩)
    | false => exact .inr (.inr ⟨rfl, rfl, openView_of_released failing held document placement⟩)

/-- An open that has to wait changes nothing. -/
theorem openView_of_waiting {placement : Placement}
    (waiting : (e.openView document placement).1 = none) :
    (e.openView document placement).2 = e := by
  obtain ⟨_, -, eq⟩ | ⟨-, -, eq⟩ | ⟨-, -, eq⟩ := e.openView_cases document placement
  · simp [eq] at waiting
  · rw [eq]
  · simp [eq] at waiting

theorem grows_openView (e : HeadlessEditor) (document : Uri) (placement : Placement) :
    Grows e (e.openView document placement).2 := by
  obtain ⟨_, -, eq⟩ | ⟨-, -, eq⟩ | ⟨-, -, eq⟩ := e.openView_cases document placement
  · rw [eq]
    exact SameLog.grows ⟨rfl, rfl⟩
  · rw [eq]
    exact .refl e
  · rw [eq]
    have opened := e.sameLog_openNow document
    exact ⟨opened.opens ▸ List.prefix_append _ _, opened.applied ▸ List.prefix_refl _⟩

theorem openNow_of_known (known : e.viewOf? document = some view) :
    e.openNow document = (view, e) := by
  simp only [openNow, known]

/-- How the next opens will go is not for an open to change. -/
theorem gates_openNow (e : HeadlessEditor) (document : Uri) :
    (e.openNow document).2.held = e.held ∧ (e.openNow document).2.failNext = e.failNext := by
  unfold openNow
  split <;> exact ⟨rfl, rfl⟩

/-- The view that the next new document is given. -/
def nextView (e : HeadlessEditor) : View := ⟨e.lastView + 1⟩

theorem openNow_of_unknown (unknown : e.viewOf? document = none) : e.openNow document =
    (e.nextView, { e with
      lastView := e.lastView + 1
      views := e.views.put document e.nextView
      documents := e.documents.put e.nextView document
      selected := e.selected.put e.nextView [.caret 0] }) := by
  simp only [openNow, unknown]
  rfl

theorem viewOf?_openNow (e : HeadlessEditor) (document : Uri) :
    (e.openNow document).2.viewOf? document = some (e.openNow document).1 := by
  cases known : e.viewOf? document with
  | some view => rw [openNow_of_known known, known]
  | none =>
    rw [openNow_of_unknown known]
    exact e.views.find?_put_self _ _

theorem viewOf?_openNow_of_ne (e : HeadlessEditor) {document other : Uri}
    (differ : other ≠ document) : (e.openNow document).2.viewOf? other = e.viewOf? other := by
  cases known : e.viewOf? document with
  | some view => rw [openNow_of_known known]
  | none =>
    rw [openNow_of_unknown known]
    exact e.views.find?_put_of_ne _ differ.symm

theorem lastView_openNow_le (e : HeadlessEditor) (document : Uri) :
    (e.openNow document).2.lastView ≤ e.lastView + 1 := by
  cases known : e.viewOf? document with
  | some view => simp [openNow_of_known known]
  | none => simp [openNow_of_unknown known]

/-- Whatever is opened, a document that has a view keeps it. -/
theorem viewOf?_openNow_of_known (known : e.viewOf? document = some view) (other : Uri) :
    (e.openNow other).2.viewOf? document = some view := by
  by_cases same : document = other
  · subst same
    rw [openNow_of_known known, known]
  · rw [e.viewOf?_openNow_of_ne same, known]

/-- Selections of a view in place of those it had. -/
def replace (e : HeadlessEditor) (view : View) (selections : List Span) : HeadlessEditor :=
  { e with selected := e.selected.put view selections }

theorem setSelections_of_known (known : e.documents.find? view = some document)
    (selections : List Span) (reveal : Reveal) : e.setSelections view selections reveal =
      .ok { e.replace view selections with
        applied := e.applied ++ [⟨document, selections, reveal⟩] } := by
  simp only [setSelections, known]
  rfl

theorem eq_of_setSelections {selections : List Span} {reveal : Reveal}
    (written : e.setSelections view selections reveal = .ok e') :
    ∃ document, e.documents.find? view = some document ∧
      e' = { e.replace view selections with
        applied := e.applied ++ [⟨document, selections, reveal⟩] } := by
  cases known : e.documents.find? view with
  | none => simp [setSelections, known] at written
  | some document =>
    rw [setSelections_of_known known] at written
    exact ⟨document, rfl, (Except.ok.inj written).symm⟩

theorem grows_setSelections {selections : List Span} {reveal : Reveal}
    (written : e.setSelections view selections reveal = .ok e') : Grows e e' := by
  obtain ⟨_, -, rfl⟩ := eq_of_setSelections written
  exact ⟨List.prefix_refl _, List.prefix_append _ _⟩

theorem held_setSelections {selections : List Span} {reveal : Reveal}
    (written : e.setSelections view selections reveal = .ok e') : e'.held = e.held := by
  obtain ⟨_, -, rfl⟩ := eq_of_setSelections written
  rfl

theorem setSelections_of_unknown (unknown : e.documents.find? view = none)
    (selections : List Span) (reveal : Reveal) :
    e.setSelections view selections reveal = .error (.unknownView view) := by
  simp only [setSelections, unknown]

/-- The same documents have the same views with the same selections. -/
structure SameViews (e e' : HeadlessEditor) : Prop where
  lastView : e'.lastView = e.lastView
  views : e'.views = e.views
  documents : e'.documents = e.documents
  selected : e'.selected = e.selected

theorem SameViews.viewOf? (same : e.SameViews e') (document : Uri) :
    e'.viewOf? document = e.viewOf? document := by
  rw [HeadlessEditor.viewOf?, same.views]
  rfl

/-- A document has a view exactly if the view has the document. The views are those up to the last
number, and they are also what has selections. -/
structure Paired (e : HeadlessEditor) : Prop where
  inverse : ∀ document view,
    e.views.find? document = some view ↔ e.documents.find? view = some document
  live : ∀ view, (e.documents.find? view).isSome ↔ 1 ≤ view.number ∧ view.number ≤ e.lastView
  selecting : ∀ view, (e.selected.find? view).isSome ↔ (e.documents.find? view).isSome

theorem paired_new : new.Paired where
  inverse _ _ := by simp [new]
  live _ := by simp [new]; omega
  selecting _ := by simp [new]

namespace Paired

theorem documents_nextView (paired : e.Paired) : e.documents.find? e.nextView = none := by
  have beyond := mt (paired.live e.nextView).mp (by simp [nextView])
  simpa using beyond

/-- A view that is still to come belongs to no document. -/
theorem viewOf?_ne_nextView (paired : e.Paired) (document : Uri) :
    e.viewOf? document ≠ some e.nextView := by
  intro known
  have documents := (paired.inverse _ _).mp known
  rw [paired.documents_nextView] at documents
  contradiction

/-- Two documents do not share a view. -/
theorem eq_of_viewOf? (paired : e.Paired) {other : Uri} (here : e.viewOf? document = some view)
    (there : e.viewOf? other = some view) : document = other := by
  have documents := (paired.inverse _ _).mp here
  rw [(paired.inverse _ _).mp there] at documents
  exact (Option.some.inj documents).symm

/-- A view tells the selections of its document. -/
theorem selections_eq (paired : e.Paired) (known : e.viewOf? document = some view) :
    e.selections view = .ok (e.selectionsOf document) := by
  have live := (paired.selecting view).mpr (by simp [(paired.inverse _ _).mp known])
  obtain ⟨selections, selected⟩ := Option.isSome_iff_exists.mp live
  simp [HeadlessEditor.selections, selectionsOf, known, selected]

theorem congr (paired : e.Paired) (same : e.SameViews e') : e'.Paired := by
  constructor
  · rw [same.views, same.documents]
    exact paired.inverse
  · rw [same.documents, same.lastView]
    exact paired.live
  · rw [same.selected, same.documents]
    exact paired.selecting

theorem openNow (paired : e.Paired) (document : Uri) : (e.openNow document).2.Paired := by
  cases known : e.viewOf? document with
  | some view => exact openNow_of_known known ▸ paired
  | none =>
    rw [openNow_of_unknown known]
    constructor
    case inverse =>
      intro other view
      rw [Keyed.find?_put, Keyed.find?_put]
      by_cases same : document = other
      · subst same
        have unpaired : e.documents.find? view ≠ some document := by
          rw [Ne, ← paired.inverse]
          exact fun seen => Option.some_ne_none view (seen.symm.trans known)
        by_cases next : e.nextView = view <;> simp [next, unpaired]
      · by_cases next : e.nextView = view
        · subst next
          have unseen : e.views.find? other ≠ some e.nextView := paired.viewOf?_ne_nextView other
          simp [same, unseen]
        · simpa [same, next] using paired.inverse other view
    case live =>
      intro view
      rw [Keyed.find?_put]
      by_cases next : e.nextView = view
      · subst next
        simp [nextView]
      · have differ : view.number ≠ e.lastView + 1 := fun number =>
          next (by rw [nextView, ← number])
        have old := paired.live view
        simp only [next, if_false, old]
        omega
    case selecting =>
      intro view
      rw [Keyed.find?_put, Keyed.find?_put]
      by_cases next : e.nextView = view
      · simp [next]
      · simpa [next] using paired.selecting view

theorem replace (paired : e.Paired) (known : e.viewOf? document = some view)
    (selections : List Span) : (e.replace view selections).Paired where
  inverse := paired.inverse
  live := paired.live
  selecting other := by
    simp only [HeadlessEditor.replace, Keyed.find?_put]
    by_cases same : view = other
    · subst same
      simp [(paired.inverse _ _).mp known]
    · simpa [same] using paired.selecting other

theorem select (paired : e.Paired) (document : Uri) (selections : List Span) :
    (e.select document selections).2.Paired :=
  (paired.openNow document).replace (e.viewOf?_openNow document) selections

end Paired

/-- The selections of one document are replaced, and all others stay as they are. -/
structure Replaces (e : HeadlessEditor) (document : Uri) (selections : List Span)
    (e' : HeadlessEditor) : Prop where
  shown : (e'.viewOf? document).isSome
  here : e'.selectionsOf document = selections
  unmoved : ∀ other, other ≠ document → e'.viewOf? other = e.viewOf? other
  elsewhere : ∀ other, other ≠ document → e'.selectionsOf other = e.selectionsOf other

theorem selectionsOf_openNow_of_ne (paired : e.Paired) {other : Uri} (differ : other ≠ document) :
    (e.openNow document).2.selectionsOf other = e.selectionsOf other := by
  have views := e.viewOf?_openNow_of_ne differ
  cases known : e.viewOf? document with
  | some view => rw [openNow_of_known known]
  | none =>
    rw [selectionsOf, selectionsOf, views, openNow_of_unknown known]
    cases seen : e.viewOf? other with
    | none => rfl
    | some view =>
      have old : e.nextView ≠ view := by
        rintro rfl
        exact paired.viewOf?_ne_nextView other seen
      simp only [Option.bind_some, e.selected.find?_put_of_ne _ old]

theorem replaces_replace (paired : e.Paired) (known : e.viewOf? document = some view)
    (selections : List Span) : e.Replaces document selections (e.replace view selections) where
  shown := Option.isSome_of_eq_some known
  here := by
    have same : (e.replace view selections).viewOf? document = some view := known
    have own : (e.replace view selections).selected.find? view = some selections :=
      e.selected.find?_put_self view selections
    rw [selectionsOf, same, Option.bind_some, own, Option.getD_some]
  unmoved _ _ := rfl
  elsewhere other differ := by
    have same : (e.replace view selections).viewOf? other = e.viewOf? other := rfl
    rw [selectionsOf, selectionsOf, same]
    cases seen : e.viewOf? other with
    | none => rfl
    | some view' =>
      have apart : view ≠ view' := by
        rintro rfl
        exact differ (paired.eq_of_viewOf? seen known)
      simp only [Option.bind_some, replace, e.selected.find?_put_of_ne _ apart]

theorem replaces_select (paired : e.Paired) (document : Uri) (selections : List Span) :
    e.Replaces document selections (e.select document selections).2 := by
  have replaces := replaces_replace (paired.openNow document) (e.viewOf?_openNow document) selections
  refine ⟨replaces.shown, replaces.here, fun other differ => ?_, fun other differ => ?_⟩
  · exact (replaces.unmoved other differ).trans (e.viewOf?_openNow_of_ne differ)
  · exact (replaces.elsewhere other differ).trans (selectionsOf_openNow_of_ne paired differ)

/-- A write is logged, beside replacing the selections. -/
structure Writes (e : HeadlessEditor) (document : Uri) (selections : List Span) (reveal : Reveal)
    (e' : HeadlessEditor) : Prop extends Replaces e document selections e' where
  views : e'.views = e.views
  documents : e'.documents = e.documents
  opens : e'.opens = e.opens
  applied : e'.applied = e.applied ++ [⟨document, selections, reveal⟩]

theorem writes_setSelections (paired : e.Paired) (known : e.viewOf? document = some view)
    (selections : List Span) (reveal : Reveal) : ∃ e',
      e.setSelections view selections reveal = .ok e' ∧ e.Writes document selections reveal e' := by
  have documents := (paired.inverse _ _).mp known
  obtain ⟨shown, here, unmoved, elsewhere⟩ := replaces_replace paired known selections
  exact ⟨_, setSelections_of_known documents selections reveal,
    ⟨shown, here, unmoved, elsewhere⟩, rfl, rfl, rfl, rfl⟩

/-- What may be done with an editor. An open that was held back goes on at any later time; that it is
not to fail was settled before it had to wait. -/
inductive Operation
  | openView (document : Uri) (placement : Placement)
  | resume (document : Uri) (placement : Placement)
  | openNow (document : Uri)
  | select (document : Uri) (selections : List Span)
  | selections (view : View)
  | setSelections (view : View) (selections : List Span) (reveal : Reveal)
  | hold
  | release
  | failOpen (reason : String)

def perform (e : HeadlessEditor) : Operation → HeadlessEditor
  | .openView document placement => (e.openView document placement).2
  | .resume document placement => (e.complete document placement).2
  | .openNow document => (e.openNow document).2
  | .select document selections => (e.select document selections).2
  | .selections _ => e
  | .setSelections view selections reveal =>
    (e.setSelections view selections reveal).toOption.getD e
  | .hold => e.hold
  | .release => e.release
  | .failOpen reason => e.failOpen reason

def run (e : HeadlessEditor) (history : List Operation) : HeadlessEditor :=
  history.foldl perform e

/-- The document that an operation was to show, and the view that it answers with. -/
def shown? (e : HeadlessEditor) : Operation → Option (Uri × View)
  | .openView document placement =>
    match (e.openView document placement).1 with
    | some (.ok view) => some (document, view)
    | _ => none
  | .resume document placement => some (document, (e.complete document placement).1)
  | .openNow document => some (document, (e.openNow document).1)
  | .select document selections => some (document, (e.select document selections).1)
  | .selections _ | .setSelections .. | .hold | .release | .failOpen _ => none

/-- Whether an operation answers with an error. -/
def Fails (e : HeadlessEditor) : Operation → Prop
  | .openView document placement =>
    ∃ error, (e.openView document placement).1 = some (.error error)
  | .selections view => ∃ error, e.selections view = .error error
  | .setSelections view selections reveal =>
    ∃ error, e.setSelections view selections reveal = .error error
  | .resume .. | .openNow _ | .select .. | .hold | .release | .failOpen _ => False

/-- All that an operation can do to documents, views and selections. -/
inductive Changes (e e' : HeadlessEditor) : Prop
  | nothing (same : e.SameViews e')
  | opens (document : Uri) (same : (e.openNow document).2.SameViews e')
  | selects (document : Uri) (selections : List Span)
      (same : (e.select document selections).2.SameViews e')
  | writes {document : Uri} {view : View} (known : e.documents.find? view = some document)
      (selections : List Span) (same : (e.replace view selections).SameViews e')

theorem changes_perform (e : HeadlessEditor) (o : Operation) : e.Changes (e.perform o) := by
  cases o with
  | openView document placement =>
    obtain ⟨_, -, eq⟩ | ⟨-, -, eq⟩ | ⟨-, -, eq⟩ := e.openView_cases document placement
    · rw [perform, eq]
      exact .nothing ⟨rfl, rfl, rfl, rfl⟩
    · rw [perform, eq]
      exact .nothing ⟨rfl, rfl, rfl, rfl⟩
    · rw [perform, eq]
      exact .opens document ⟨rfl, rfl, rfl, rfl⟩
  | resume document _ | openNow document => exact .opens document ⟨rfl, rfl, rfl, rfl⟩
  | select document selections => exact .selects document selections ⟨rfl, rfl, rfl, rfl⟩
  | setSelections view selections reveal =>
    cases known : e.documents.find? view with
    | none =>
      rw [perform, setSelections_of_unknown known]
      exact .nothing ⟨rfl, rfl, rfl, rfl⟩
    | some document =>
      rw [perform, setSelections_of_known known]
      exact .writes known selections ⟨rfl, rfl, rfl, rfl⟩
  | selections | hold | release | failOpen => exact .nothing ⟨rfl, rfl, rfl, rfl⟩

namespace Changes

theorem paired (changes : e.Changes e') (paired : e.Paired) : e'.Paired := by
  cases changes with
  | nothing same => exact paired.congr same
  | opens document same => exact (paired.openNow document).congr same
  | selects document selections same => exact (paired.select document selections).congr same
  | writes known selections same =>
    exact (paired.replace ((paired.inverse _ _).mpr known) selections).congr same

/-- No operation takes a document's view away. -/
theorem viewOf? (changes : e.Changes e') (known : e.viewOf? document = some view) :
    e'.viewOf? document = some view := by
  cases changes with
  | nothing same => rw [same.viewOf?, known]
  | opens other same => rw [same.viewOf?, viewOf?_openNow_of_known known]
  | selects other selections same =>
    rw [same.viewOf?]
    exact viewOf?_openNow_of_known known other
  | writes _ selections same =>
    rw [same.viewOf?]
    exact known

theorem lastView_le (changes : e.Changes e') : e'.lastView ≤ e.lastView + 1 := by
  cases changes with
  | nothing same => exact same.lastView ▸ Nat.le_succ _
  | opens document same => exact same.lastView ▸ e.lastView_openNow_le document
  | selects document selections same => exact same.lastView ▸ e.lastView_openNow_le document
  | writes _ selections same => exact same.lastView ▸ Nat.le_succ _

end Changes

theorem run_concat (e : HeadlessEditor) (history : List Operation) (o : Operation) :
    e.run (history ++ [o]) = (e.run history).perform o := by
  simp [run]

/-- Each operation takes at most one number, so numbers last as long as there are operations left. -/
theorem paired_run (history : List Operation) :
    (new.run history).Paired ∧ (new.run history).lastView ≤ history.length := by
  induction history using List.reverseRecOn with
  | nil => exact ⟨paired_new, Nat.le_refl _⟩
  | append_singleton history o ih =>
    have changes := (new.run history).changes_perform o
    have next := changes.lastView_le
    rw [run_concat, List.length_append, List.length_singleton]
    exact ⟨changes.paired ih.1, by omega⟩

theorem viewOf?_run (known : e.viewOf? document = some view) (later : List Operation) :
    (e.run later).viewOf? document = some view := by
  induction later using List.reverseRecOn with
  | nil => exact known
  | append_singleton later o ih =>
    rw [run_concat]
    exact ((e.run later).changes_perform o).viewOf? ih

theorem viewOf?_of_shown {o : Operation} (shown : e.shown? o = some (document, view)) :
    (e.perform o).viewOf? document = some view := by
  cases o with
  | openView other placement =>
    obtain ⟨_, -, eq⟩ | ⟨-, -, eq⟩ | ⟨-, -, eq⟩ := e.openView_cases other placement
    · simp [shown?, eq] at shown
    · simp [shown?, eq] at shown
    · rw [shown?, eq] at shown
      obtain ⟨rfl, rfl⟩ := Prod.mk.inj (Option.some.inj shown)
      rw [perform, eq]
      exact e.viewOf?_openNow other
  | resume other _ | openNow other | select other _ =>
    obtain ⟨rfl, rfl⟩ := Prod.mk.inj (Option.some.inj shown)
    exact e.viewOf?_openNow other
  | selections | setSelections | hold | release | failOpen => simp [shown?] at shown

/-- What fails leaves no trace, but that an open which was to fail has failed. -/
theorem same_of_fails {o : Operation} (fails : e.Fails o) :
    e.SameViews (e.perform o) ∧ e.SameLog (e.perform o) := by
  cases o with
  | openView document placement =>
    obtain ⟨error, failed⟩ := fails
    obtain ⟨_, -, eq⟩ | ⟨-, -, eq⟩ | ⟨-, -, eq⟩ := e.openView_cases document placement
    · rw [perform, eq]
      exact ⟨⟨rfl, rfl, rfl, rfl⟩, ⟨rfl, rfl⟩⟩
    · simp [eq] at failed
    · simp [eq] at failed
  | setSelections view selections reveal =>
    obtain ⟨error, failed⟩ := fails
    rw [perform, failed]
    exact ⟨⟨rfl, rfl, rfl, rfl⟩, ⟨rfl, rfl⟩⟩
  | selections view => exact ⟨⟨rfl, rfl, rfl, rfl⟩, ⟨rfl, rfl⟩⟩
  | resume | openNow | select | hold | release | failOpen => exact fails.elim

theorem fails_openView_iff {placement : Placement} :
    e.Fails (.openView document placement) ↔ e.failNext.isSome := by
  obtain ⟨_, failing, eq⟩ | ⟨unfailing, -, eq⟩ | ⟨unfailing, -, eq⟩ :=
    e.openView_cases document placement
  · simp [Fails, eq, failing]
  · simp [Fails, eq, unfailing]
  · simp [Fails, eq, unfailing]

theorem fails_setSelections_iff (paired : e.Paired) {selections : List Span} {reveal : Reveal} :
    e.Fails (.setSelections view selections reveal) ↔
      ¬(1 ≤ view.number ∧ view.number ≤ e.lastView) := by
  rw [← paired.live]
  cases known : e.documents.find? view with
  | none => simp [Fails, setSelections_of_unknown known]
  | some document => simp [Fails, setSelections_of_known known]

/-- After any operations, views and documents are paired, the views are numbered from one on, and each
has selections, those of its document. A document keeps its view, whatever is done later, and every
open and every gesture answers with it. A gesture and a write replace the selections of one document;
a write is logged, once. What fails, as an open does that was to fail and a write to a view that there
is not, leaves views, selections and logs alone, and so does an open that has to wait. -/
theorem one_view_for_each_document (history later : List Operation) :
    let e := new.run history
    e.Paired ∧ e.lastView ≤ history.length ∧
    (∀ document view, e.viewOf? document = some view →
      e.selections view = .ok (e.selectionsOf document) ∧
      (e.run later).viewOf? document = some view) ∧
    (∀ o document view, e.shown? o = some (document, view) →
      ((e.perform o).run later).viewOf? document = some view) ∧
    (∀ document selections, e.Replaces document selections (e.select document selections).2 ∧
      e.SameLog (e.select document selections).2) ∧
    (∀ document view, e.viewOf? document = some view → ∀ selections reveal, ∃ e',
      e.setSelections view selections reveal = .ok e' ∧ e.Writes document selections reveal e') ∧
    (∀ view selections reveal, e.Fails (.setSelections view selections reveal) ↔
      ¬(1 ≤ view.number ∧ view.number ≤ e.lastView)) ∧
    (∀ document placement, e.Fails (.openView document placement) ↔ e.failNext.isSome) ∧
    (∀ o, e.Fails o → e.SameViews (e.perform o) ∧ e.SameLog (e.perform o)) ∧
    (∀ document placement, (e.openView document placement).1 = none →
      e.perform (.openView document placement) = e) := by
  intro e
  obtain ⟨paired, numbers⟩ := paired_run history
  refine ⟨paired, numbers, ?kept, ?answered, ?gestures, ?writes, ?unknown, ?failing, ?failed, ?waits⟩
  case kept =>
    intro document view known
    exact ⟨paired.selections_eq known, viewOf?_run known later⟩
  case answered =>
    intro o document view shown
    exact viewOf?_run (viewOf?_of_shown shown) later
  case gestures =>
    intro document selections
    exact ⟨replaces_select paired document selections, e.sameLog_select document selections⟩
  case writes =>
    intro document view known selections reveal
    exact writes_setSelections paired known selections reveal
  case unknown => exact fun view selections reveal => fails_setSelections_iff paired
  case failing => exact fun document placement => fails_openView_iff
  case failed => exact fun o fails => same_of_fails fails
  case waits => exact fun document placement waiting => openView_of_waiting waiting

namespace Sample

def source : Uri := ⟨"file", some .none, "/a.mj", none, none⟩

def product : Uri := ⟨"monto", none, "/a.mj-target.js", none, none⟩

def beside : Placement := ⟨2, true⟩

/-- An open of the source is held back, one of the product fails, and the user opens the product
before the source comes. Then the product is written to, and a view that there is not. -/
def history : List Operation :=
  [.hold, .openView source beside, .failOpen "no pane", .openView product beside,
    .select product [⟨0, 3⟩], .release, .resume source beside,
    .setSelections ⟨1⟩ [⟨3, 9⟩] .minimal, .setSelections ⟨99⟩ [] .none]

theorem views_told_apart :
    let e := new.run history
    e.Paired ∧ e.viewOf? product = some ⟨1⟩ ∧ e.viewOf? source = some ⟨2⟩ ∧
    e.applied = [⟨product, [⟨3, 9⟩], .minimal⟩] ∧
    (e.run [.failOpen "no pane", .openNow source, .openView product beside]).viewOf? product =
      some ⟨1⟩ ∧
    (∃ e', e.setSelections ⟨2⟩ [.caret 7] .none = .ok e' ∧
      e.Writes source [.caret 7] .none e' ∧ e'.selectionsOf product = [⟨3, 9⟩]) ∧
    e.Fails (.setSelections ⟨3⟩ [.caret 7] .none) ∧
    e.SameViews (e.perform (.setSelections ⟨3⟩ [.caret 7] .none)) := by
  intro e
  obtain ⟨paired, -, kept, -, -, writes, unknown, -, failed, -⟩ := one_view_for_each_document history
    [.failOpen "no pane", .openNow source, .openView product beside]
  have first : e.viewOf? product = some ⟨1⟩ := by decide
  have second : e.viewOf? source = some ⟨2⟩ := by decide
  have fails := (unknown ⟨3⟩ [.caret 7] .none).mpr (by decide)
  obtain ⟨e', written, does⟩ := writes source ⟨2⟩ second [.caret 7] .none
  have aside := does.elsewhere product (by decide)
  refine ⟨paired, first, second, by decide, (kept product ⟨1⟩ first).2, ⟨e', written, does, ?_⟩,
    fails, (failed _ fails).1⟩
  rw [aside]
  decide

end Sample

end LinkedViews.HeadlessEditor
