import LinkedViews.Proofs.Session.Growth
import LinkedViews.Proofs.Session.Similar
import Mathlib.Logic.Relation

/-! A session beside the tasks that it started. One task reads a channel to its end, and each open is
a task of its own: the editor opens the document, and later the session meets the completion. Any of
them may go next. What two similar states can do is the same, step by step. -/
namespace LinkedViews

/-- Events that are still to be read come in their order. Opens were requested, and the completions
of those that the editor carried out are on their way. -/
structure ConcurrentState where
  session : Session
  editor : HeadlessEditor
  incoming : List Event
  requested : List OpenRequest
  opened : List Event

namespace ConcurrentState

/-- One event. The opens it asks for become tasks. -/
def process (x : ConcurrentState) (event : Event) : ConcurrentState :=
  let step := x.session.process x.editor event
  { x with
    session := step.session
    editor := step.editor
    requested := x.requested ++ step.requests }

inductive Next (x : ConcurrentState) : ConcurrentState → Prop
  | receive {event : Event} {later : List Event} (first : x.incoming = event :: later) :
      Next x (({ x with incoming := later }).process event)
  | openView {front back : List OpenRequest} {r : OpenRequest} {result : Except EditorError View}
      {editor : HeadlessEditor} (asked : x.requested = front ++ r :: back)
      (opened : x.editor.openView r.document r.placement = (some result, editor)) :
      Next x { x with
        editor := editor
        requested := front ++ back
        opened := x.opened ++ [.viewOpened r.document result r.pending] }
  | complete {front back : List Event} {event : Event} (waits : x.opened = front ++ event :: back) :
      Next x (({ x with opened := front ++ back }).process event)

abbrev Reaches : ConcurrentState → ConcurrentState → Prop := Relation.ReflTransGen Next

/-- No task has anything left to do. -/
structure AtRest (x : ConcurrentState) : Prop where
  incoming : x.incoming = []
  requested : x.requested = []
  opened : x.opened = []

variable {x x' y : ConcurrentState}

theorem moments_of_next (next : x.Next y) : ∃ moments : List (Moment HeadlessEditor),
    Moment.Row x.session.store moments y.session.store ∧
    y.session.documents = x.session.documents ∧ x.editor.Grows y.editor := by
  have processed (z : ConcurrentState) (event : Event) (session : z.session = x.session)
      (editor : z.editor = x.editor) : ∃ moments : List (Moment HeadlessEditor),
      Moment.Row x.session.store moments (z.process event).session.store ∧
      (z.process event).session.documents = x.session.documents ∧
      x.editor.Grows (z.process event).editor := by
    let m : Moment HeadlessEditor := ⟨z.session, z.editor, event⟩
    rw [← session, ← editor]
    exact ⟨[m], .meet (m := m) (.rest _), m.settings_after.documents, HeadlessEditor.grows_after m⟩
  cases next with
  | receive first => exact processed _ _ rfl rfl
  | @openView front back r result editor asked opened =>
    have grows := x.editor.grows_openView r.document r.placement
    rw [opened] at grows
    exact ⟨[], .rest _, rfl, grows⟩
  | complete waits => exact processed _ _ rfl rfl

theorem moments_of_reaches (reaches : x.Reaches y) : ∃ moments : List (Moment HeadlessEditor),
    Moment.Row x.session.store moments y.session.store ∧
    y.session.documents = x.session.documents ∧ x.editor.Grows y.editor := by
  induction reaches with
  | refl => exact ⟨[], .rest _, rfl, .refl _⟩
  | tail _ next ih =>
    obtain ⟨before, row, documents, grows⟩ := ih
    obtain ⟨moments, row', documents', grows'⟩ := moments_of_next next
    exact ⟨before ++ moments, row.append row', documents'.trans documents, grows.trans grows'⟩

/-- The same tasks beside similar sessions. -/
structure Similar (x x' : ConcurrentState) : Prop where
  session : x.session.Similar x'.session
  editor : x.editor.Similar x'.editor
  ready : x.editor.Ready
  ready' : x'.editor.Ready
  received : List.Forall₂ (Event.Similar x.editor x'.editor) x.incoming x'.incoming
  requested : x'.requested = x.requested
  opened : List.Forall₂ (Event.Similar x.editor x'.editor) x.opened x'.opened

theorem forall₂_split {α β : Type} {R : α → β → Prop} {front back : List α} {a : α} {l : List β}
    (all : List.Forall₂ R (front ++ a :: back) l) : ∃ front' b back', l = front' ++ b :: back' ∧
      R a b ∧ List.Forall₂ R (front ++ back) (front' ++ back') := by
  induction front generalizing l with
  | nil =>
    obtain ⟨b, back', here, rest, rfl⟩ := List.forall₂_cons_left_iff.mp all
    exact ⟨[], b, back', rfl, here, rest⟩
  | cons c front ih =>
    obtain ⟨d, l, first, rest, rfl⟩ := List.forall₂_cons_left_iff.mp all
    obtain ⟨front', b, back', rfl, here, others⟩ := ih rest
    exact ⟨d :: front', b, back', rfl, here, .cons first others⟩

theorem Similar.process {event event' : Event} (similar : Similar x x')
    (same : event.Similar x.editor x'.editor event') :
    Similar (x.process event) (x'.process event') ∧
    ∃ applied, x.editor.Logs [] applied (x.process event).editor ∧
      x'.editor.Logs [] applied (x'.process event').editor := by
  have step := Session.similar_process similar.session similar.editor similar.ready similar.ready' same
  obtain ⟨kept, kept'⟩ := step.kept
  refine ⟨⟨step.session, step.editor, step.ready.1, step.ready.2, ?_, ?_, ?_⟩, step.logs⟩
  · exact similar.received.imp fun _ _ same => same.mono kept kept'
  · exact congrArg₂ (· ++ ·) similar.requested step.requests
  · exact similar.opened.imp fun _ _ same => same.mono kept kept'

theorem Similar.openView (similar : Similar x x') {front back : List OpenRequest} {r : OpenRequest}
    {result : Except EditorError View} {editor : HeadlessEditor}
    (asked : x.requested = front ++ r :: back)
    (opened : x.editor.openView r.document r.placement = (some result, editor)) :
    ∃ y', x'.Next y' ∧ Similar { x with
        editor := editor
        requested := front ++ back
        opened := x.opened ++ [.viewOpened r.document result r.pending] } y' ∧
      x.editor.Logs [⟨r.document, r.placement⟩] [] editor ∧
      x'.editor.Logs [⟨r.document, r.placement⟩] [] y'.editor := by
  -- Neither editor holds the open back or fails it, so both complete it, each with a view of its own.
  have here := HeadlessEditor.openView_of_released similar.ready.unfailing similar.ready.released
    r.document r.placement
  have there := HeadlessEditor.openView_of_released similar.ready'.unfailing similar.ready'.released
    r.document r.placement
  rw [here] at opened
  obtain ⟨rfl, rfl⟩ : _ = result ∧ _ = editor := by simpa using opened
  refine ⟨_, .openView (similar.requested.trans asked) there, ?_, x.editor.logs_complete _ _,
    x'.editor.logs_complete _ _⟩
  have kept := x.editor.keeps_complete r.document r.placement
  have kept' := x'.editor.keeps_complete r.document r.placement
  constructor
  case session => exact similar.session
  case editor => exact similar.editor.complete similar.ready similar.ready' _ _
  case ready => exact similar.ready.complete _ _
  case ready' => exact similar.ready'.complete _ _
  case received => exact similar.received.imp fun _ _ same => same.mono kept kept'
  case requested => rfl
  case opened =>
    refine List.rel_append (similar.opened.imp fun _ _ same => same.mono kept kept') ?_
    exact .cons (.viewOpened (x.editor.viewOf?_openNow r.document)
      (x'.editor.viewOf?_openNow r.document)) .nil

/-- Whatever the one does next, the other can do as well, and both log the same. -/
theorem Similar.next (similar : Similar x x') (next : x.Next y) : ∃ y' opens applied, x'.Next y' ∧
    Similar y y' ∧ x.editor.Logs opens applied y.editor ∧ x'.editor.Logs opens applied y'.editor := by
  cases next with
  | @receive event later first =>
    have all := similar.received
    rw [first] at all
    obtain ⟨event', later', same, rest, first'⟩ := List.forall₂_cons_left_iff.mp all
    have left : Similar { x with incoming := later } { x' with incoming := later' } :=
      { similar with received := rest }
    obtain ⟨similar', applied, logs⟩ := left.process same
    exact ⟨_, [], applied, .receive first', similar', logs⟩
  | openView asked opened =>
    obtain ⟨y', next, similar', logs⟩ := similar.openView asked opened
    exact ⟨y', _, _, next, similar', logs⟩
  | @complete front back event waits =>
    have all := similar.opened
    rw [waits] at all
    obtain ⟨front', event', back', waits', same, rest⟩ := forall₂_split all
    have left : Similar { x with opened := front ++ back } { x' with opened := front' ++ back' } :=
      { similar with opened := rest }
    obtain ⟨similar', applied, logs⟩ := left.process same
    exact ⟨_, [], applied, .complete waits', similar', logs⟩

theorem Similar.reaches (similar : Similar x x') (reaches : x.Reaches y) : ∃ y' opens applied,
    x'.Reaches y' ∧ Similar y y' ∧ x.editor.Logs opens applied y.editor ∧
      x'.editor.Logs opens applied y'.editor := by
  induction reaches with
  | refl => exact ⟨x', [], [], .refl, similar, .refl _, .refl _⟩
  | tail _ next ih =>
    obtain ⟨y', opens, applied, reached, similar', logs, logs'⟩ := ih
    obtain ⟨z', opens', applied', next', last, more, more'⟩ := similar'.next next
    exact ⟨z', _, _, reached.tail next', last, logs.trans more, logs'.trans more'⟩

theorem Similar.atRest (similar : Similar x x') (rest : x.AtRest) : x'.AtRest where
  incoming := List.forall₂_nil_left_iff.mp (rest.incoming ▸ similar.received)
  requested := similar.requested.trans rest.requested
  opened := List.forall₂_nil_left_iff.mp (rest.opened ▸ similar.opened)

end ConcurrentState

end LinkedViews
