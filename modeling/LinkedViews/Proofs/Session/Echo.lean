import LinkedViews.Proofs.History
import LinkedViews.Proofs.Session.Run

/-! An editor that reports every write back, in the order of the writes and as late as it likes. A
document has one record for its latest write, which the next event on the document uses up; so an
echo is known as one as long as nothing came between the write and it. -/
namespace LinkedViews

def Report.event (r : Report) : Event := .selectionChanged r.document r.view r.selections

def Event.selects : Event → Bool
  | selectionChanged _ _ _ | manualSync _ _ => true
  | _ => false

namespace Moment

variable {ε : Type} [Editor ε]

def heard? (m : Moment ε) : Option Uri :=
  match m.event with
  | .selectionChanged document _ _ =>
    if m.session.synchronizer.isOpening document then none else some document
  | _ => none

def Wrote (document : Uri) (selections : List Span) (m : Moment ε) : Prop :=
  ∃ r ∈ m.reports, r.document = document ∧ r.selections = selections

/-- The moment writes to the document, hears of its selections, replaces its content, or loses its
view. -/
def Touches (document : Uri) (m : Moment ε) : Prop :=
  (∃ r ∈ m.reports, r.document = document) ∨ m.heard? = some document ∨
    m.publish?.map (·.target) = some document ∨ m.event.closed? = some document

theorem record_onViewOpened (s : Session) (editor : ε) {document : Uri}
    (result : Except EditorError View) {pending : Option PendingSelection}
    (own : ∀ p, pending = some p → p.document = document) (other : Uri) (selections : List Span) :
    let m : Moment ε := ⟨s, editor, .viewOpened document result pending⟩
    m.after.session.synchronizer.echoes.written.find? other = some selections ↔
      m.Wrote other selections ∨
      s.synchronizer.echoes.written.find? other = some selections ∧
        ¬∃ r ∈ m.reports, r.document = other := by
  intro m
  have silent (unasked : m.reports = [])
      (same : m.after.session.synchronizer.echoes = s.synchronizer.echoes) :
      m.after.session.synchronizer.echoes.written.find? other = some selections ↔
        m.Wrote other selections ∨
        s.synchronizer.echoes.written.find? other = some selections ∧
          ¬∃ r ∈ m.reports, r.document = other := by
    simp [Wrote, unasked, same]
  rcases result with e | view
  · exact silent (by simp [m, reports, writes_eq]) rfl
  · rcases pending with _ | p
    · exact silent (by simp [m, reports, writes_eq]) rfl
    · cases current : s.store.isCurrent p.origin p.generation with
      | false =>
        refine silent (by simp [m, reports, writes_eq, current]) ?_
        simp only [m, after, Session.process]
        rw [onViewOpened_stale current]
        rfl
      | true =>
        cases answer : Editor.setSelections editor view p.selections s.synchronizer.reveal with
        | error e =>
          refine silent (by simp [m, reports, writes_eq, current, accepts, answer,
            Except.toOption]) ?_
          simp only [m, after, Session.process]
          rw [onViewOpened_refused current answer]
          rfl
        | ok editor' =>
          have reported : m.reports = [⟨document, view, p.selections⟩] := by
            simp [m, reports, writes_eq, current, accepts, answer, Except.toOption]
          simp only [m, after, Session.process]
          rw [onViewOpened_written current answer]
          simp only [written, Echoes.find?_record, own p rfl, Wrote]
          simp only [m] at reported
          rw [reported]
          by_cases here : document = other
          · simp [here]
          · simp [here]

/-- The record of a document: a write sets it, and everything else that touches it takes it away. -/
theorem record_after (m : Moment ε) (own : ∀ document result p,
      m.event = .viewOpened document result (some p) → p.document = document)
    (document : Uri) (selections : List Span) :
    m.after.session.synchronizer.echoes.written.find? document = some selections ↔
      m.Wrote document selections ∨
      m.session.synchronizer.echoes.written.find? document = some selections ∧
        ¬m.Touches document := by
  obtain ⟨s, editor, event⟩ := m
  cases event with
  | viewOpened other result pending =>
    have recorded := record_onViewOpened s editor result
      (fun p waits => own other result p (waits ▸ rfl)) document selections
    simpa [Touches, heard?, publish?, Event.closed?] using recorded
  | notification body =>
    cases published : (Moment.mk s editor (.notification body)).publish? with
    | none =>
      obtain ⟨result, after⟩ := after_notification_of_none published
      simp [after, Wrote, Touches, reports, heard?, published, Event.closed?]
    | some p =>
      obtain ⟨product, store, requests, _, _, after⟩ := after_notification_of_some published
      rw [after, foldl_request]
      simp [Synchronizer.contentReplaced, Echoes.find?_forget, Wrote, Touches, reports, heard?,
        published, Event.closed?, and_comm]
  | selectionChanged other view reported =>
    have forgotten : (s.synchronizer.echoes.forget other).written.find? document =
        some selections ↔
        s.synchronizer.echoes.written.find? document = some selections ∧ other ≠ document := by
      simp [Echoes.find?_forget, and_comm]
    rw [after_selectionChanged]
    by_cases opening : s.synchronizer.isOpening other
    · rw [if_pos opening]
      simp [Synchronizer.registerView, Wrote, Touches, reports, heard?, opening, publish?,
        Event.closed?]
    · rw [if_neg opening]
      simp only [Bool.not_eq_true] at opening
      simp only [Wrote, Touches, reports, heard?, opening, publish?, Event.closed?]
      split
      · simp [forgotten]
      · rw [Session.requestAll, foldl_request]
        simp [forgotten]
  | manualSync other view =>
    simp only [after, Session.process]
    split
    · simp [Wrote, Touches, reports, heard?, publish?, Event.closed?]
    · simp only [Session.requestAll, foldl_request]
      simp [Wrote, Touches, reports, heard?, publish?, Event.closed?]
  | viewClosed other =>
    simp [after, Session.process, Synchronizer.forgetView, Echoes.find?_forget, Wrote, Touches,
      reports, heard?, publish?, Event.closed?, and_comm]
  | channelClosed =>
    simp [after, Session.process, Wrote, Touches, reports, heard?, publish?, Event.closed?]
  | shutdown =>
    simp [after, Session.process, Wrote, Touches, reports, heard?, publish?, Event.closed?]

theorem after_unselecting {m : Moment ε} (other : m.event.selects = false) :
    (∀ r ∈ m.after.requests, r.pending = none) ∧
    ∀ target, m.publish?.map (·.target) ≠ some target →
      m.after.session.store.find? target = m.session.store.find? target := by
  constructor
  · intro r asked
    rcases carries_of_request asked with empty | ⟨p, _, _, _, _, _, reported, _⟩
    · exact empty
    · cases reported with
      | selection direction event => simp [event, Event.selects] at other
      | sync event selected => simp [event, Event.selects] at other
  · intro target unpublished
    cases published : m.publish? with
    | some p =>
      obtain ⟨product, save⟩ := saved_after published
      refine (Store.saved_of_save save).elsewhere target ?_
      rintro rfl
      exact unpublished (by rw [published]; rfl)
    | none =>
      obtain ⟨s, editor, event⟩ := m
      cases event with
      | notification body =>
        obtain ⟨result, after⟩ := after_notification_of_none published
        rw [after]
      | viewOpened document result pending => rw [after, Session.process, store_onViewOpened]
      | selectionChanged document view selections => simp [Event.selects] at other
      | manualSync document view => simp [Event.selects] at other
      | channelClosed => rfl
      | viewClosed document => rfl
      | shutdown => rfl

end Moment

namespace SessionRun

variable {ε : Type} [Editor ε] {config : Config} {policy : Policy} {l : SessionRun ε}

theorem record_iff_since (reachable : Reachable config policy l) (document : Uri)
    (selections : List Span) :
    l.session.synchronizer.echoes.written.find? document = some selections ↔
      Since (·.Touches document) (·.Wrote document selections) l.past := by
  induction reachable with
  | start created => simp [(new_empty created).2.2.2 document]
  | attach _ ih => exact ih
  | @meet l event rest reachable offers editor ih =>
    rw [meet, since_concat, ← ih]
    refine Moment.record_after _ ?_ document selections
    intro opened result p same
    change event = _ at same
    cases offers with
    | outside input => simp [same, Event.completed?] at input
    | completed asked result' =>
      obtain ⟨rfl, _, waits⟩ := Event.viewOpened.inj same
      exact document_of_outstanding reachable asked waits

end SessionRun

/-- A session and an editor that reports every write back: `unreported` are the writes that were
carried out and whose echo is still to come, oldest first. -/
structure Dialogue (ε : Type) where
  run : SessionRun ε
  unreported : List Report

namespace Dialogue

variable {ε : Type} [Editor ε]

def meet (g : Dialogue ε) (rest : List OpenRequest) (editor : ε) (event : Event) : Dialogue ε where
  run := g.run.meet rest editor event
  unreported := g.unreported ++ (g.run.facing editor event).reports

/-- Echoes come in the order of the writes. Between them comes whatever else a session can meet. -/
inductive Reachable (config : Config) (policy : Policy) : Dialogue ε → Prop
  | start {s : Session} (created : Session.new config policy = .ok s) :
      Reachable config policy ⟨⟨s, [], []⟩, []⟩
  | attach {g : Dialogue ε} (reachable : Reachable config policy g) :
      Reachable config policy { g with run := g.run.attach }
  | meet {g : Dialogue ε} {event : Event} {rest : List OpenRequest}
      (reachable : Reachable config policy g) (offers : g.run.Offers event rest) (editor : ε) :
      Reachable config policy (g.meet rest editor event)
  | echo {g : Dialogue ε} {r : Report} {later : List Report}
      (reachable : Reachable config policy g) (next : g.unreported = r :: later) (editor : ε) :
      Reachable config policy
        ({ g with unreported := later }.meet g.run.outstanding editor r.event)

variable {config : Config} {policy : Policy} {g : Dialogue ε}

theorem Reachable.run (reachable : Reachable config policy g) :
    SessionRun.Reachable config policy g.run := by
  induction reachable with
  | start created => exact .start created
  | attach _ ih => exact ih.attach
  | meet _ offers editor ih => exact ih.meet offers editor
  | echo _ next editor ih => exact ih.hear rfl editor

theorem reachable_of_run {l : SessionRun ε} (reachable : SessionRun.Reachable config policy l) :
    Reachable config policy ⟨l, l.past.flatMap Moment.reports⟩ := by
  induction reachable with
  | start created => exact .start created
  | attach _ ih => exact ih.attach
  | meet _ offers editor ih =>
    have reported := ih.meet offers editor
    simpa [meet, SessionRun.meet] using reported

theorem unreported_suffix (reachable : Reachable config policy g) :
    g.unreported <:+ g.run.past.flatMap Moment.reports := by
  induction reachable with
  | start => exact List.suffix_refl []
  | attach _ ih => exact ih
  | meet _ offers editor ih =>
    obtain ⟨delivered, all⟩ := ih
    exact ⟨delivered, by simp [meet, SessionRun.meet, ← all]⟩
  | @echo _ r _ _ next editor ih =>
    obtain ⟨delivered, all⟩ := ih
    exact ⟨delivered ++ [r], by simp [meet, SessionRun.meet, ← all, next]⟩

/-- Why an echo that comes now does no harm: its document is being opened, or the document's latest
write is of the same selections and nothing touched the document since. -/
def Recognizes (g : Dialogue ε) (r : Report) : Prop :=
  g.run.session.synchronizer.isOpening r.document = true ∨
  Since (·.Touches r.document) (·.Wrote r.document r.selections) g.run.past

/-- Echoes that are still to come are of the latest writes, in their order. The next one asks for
nothing and touches no product if it is recognized; if not, it is taken for a gesture. Apart from
selections that the editor reports and manual syncs, no event asks for anything to be written, or
touches a product that it does not publish. -/
theorem echo_absorbed_if_recognized (reachable : Reachable config policy g) (editor : ε) :
    g.unreported <:+ g.run.past.flatMap Moment.reports ∧
    (∀ r ∈ g.unreported.head?,
      let step := (g.run.facing editor r.event).after
      (g.Recognizes r → step.requests = [] ∧ step.session.store = g.run.session.store) ∧
      (¬g.Recognizes r →
        let gesture := g.run.session.gesture r.document r.view r.selections
        step.requests = gesture.1.map Session.OpenRequest.of ∧ step.session.store = gesture.2)) ∧
    ∀ event : Event, event.selects = false →
      let step := (g.run.facing editor event).after
      (∀ r ∈ step.requests, r.pending = none) ∧
      ∀ target, (g.run.facing editor event).publish?.map (·.target) ≠ some target →
        step.session.store.find? target = g.run.session.store.find? target := by
  refine ⟨unreported_suffix reachable, ?_, fun event other => Moment.after_unselecting other⟩
  intro r _
  have recorded := SessionRun.record_iff_since reachable.run r.document r.selections
  constructor
  · intro known
    exact Moment.after_absorbed (known.imp_right recorded.mpr)
  · intro unknown
    obtain ⟨notOpening, touched⟩ := not_or.mp unknown
    exact Moment.after_gesture (Bool.not_eq_true _ ▸ notOpening)
      (fun kept => touched (recorded.mp kept))

end Dialogue

namespace SessionRun

section TwoGestures

open TwoGestures

theorem two_gestures_echo :
    let g : Dialogue HeadlessEditor := ⟨halfway, [report ⟨0, 3⟩]⟩
    let step := (halfway.facing editor (report ⟨0, 3⟩).event).after
    Dialogue.Reachable {} .none g ∧ g.Recognizes (report ⟨0, 3⟩) ∧
    step.requests = [] ∧ step.session.store = halfway.session.store := by
  intro g step
  have reachable : Dialogue.Reachable {} .none ⟨halfway, [report ⟨0, 3⟩]⟩ :=
    halfway_reports ▸ Dialogue.reachable_of_run reachable_halfway
  have wrote : Moment.Wrote target [⟨0, 3⟩] (gestured.facing editor
      (.viewOpened target (.ok ⟨1⟩) (request ⟨0, 3⟩).pending)) :=
    ⟨report ⟨0, 3⟩, by rw [first_reports]; exact List.mem_singleton_self _, rfl, rfl⟩
  have known : g.Recognizes (report ⟨0, 3⟩) := .inr ((since_concat _ _ _ _).mpr (.inl wrote))
  have law := (Dialogue.echo_absorbed_if_recognized reachable editor).2.1 (report ⟨0, 3⟩) rfl
  exact ⟨reachable, known, law.1 known⟩

/-- Both opens came back before either write was reported. Nothing was published twice and no view
was closed; yet the first echo asks for the source. -/
theorem late_echo_propagates :
    Dialogue.Reachable {} .none ⟨finished, [report ⟨0, 3⟩, report ⟨3, 9⟩]⟩ ∧
    (finished.published.map (·.target)).Nodup ∧
    (∀ m ∈ finished.past, m.event.closed? = none) ∧
    (finished.facing editor (report ⟨0, 3⟩).event).after.requests =
      [⟨source, ⟨1, false⟩, some ⟨source, ⟨1, false⟩, target, ⟨1⟩, [⟨0, 5⟩]⟩⟩] := by
  refine ⟨finished_reports ▸ Dialogue.reachable_of_run reachable_finished, ?_, unclosed, by cbv⟩
  simp [finished_published]

end TwoGestures

end SessionRun

end LinkedViews
