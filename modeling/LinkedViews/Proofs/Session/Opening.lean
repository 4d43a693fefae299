import LinkedViews.Proofs.History
import LinkedViews.Proofs.Session.Run

/-! When a document counts as being opened. It is marked by each request for it and unmarked by one
completed open, however many are outstanding; so while opens of one document overlap, the mark says
no more than that it was asked for since one of them last came back. -/
namespace LinkedViews

namespace Moment

variable {ε : Type} [Editor ε]

def Asks (document : Uri) (m : Moment ε) : Prop := ∃ r ∈ m.after.requests, r.document = document

omit [Editor ε] in
def Returns (document : Uri) (m : Moment ε) : Prop := m.event.completed? = some document

omit [Editor ε] in
def Fails (document : Uri) (m : Moment ε) : Prop :=
  ∃ error pending, m.event = .viewOpened document (.error error) pending

omit [Editor ε] in
def Closes (document : Uri) (m : Moment ε) : Prop := m.event.closed? = some document

theorem not_returns_of_asks {document : Uri} {m : Moment ε} (asks : m.Asks document) :
    ¬m.Returns document := by
  intro returns
  obtain ⟨s, editor, event⟩ := m
  obtain ⟨r, member, _⟩ := asks
  cases event with
  | viewOpened other result pending =>
    simp [after, Session.process, Session.requests_onViewOpened] at member
  | _ => simp [Returns, Event.completed?] at returns

end Moment

namespace SessionRun

variable {ε : Type} [Editor ε] {config : Config} {policy : Policy} {l : SessionRun ε}

theorem isOpening_iff_since (reachable : Reachable config policy l) (document : Uri) :
    l.session.synchronizer.isOpening document ↔
      Since (fun m => m.Returns document ∨ m.Closes document) (·.Asks document) l.past := by
  induction reachable with
  | start created => simp [(new_empty created).2.2.1 document]
  | attach _ ih => exact ih
  | meet _ offers editor ih =>
    rw [meet, since_concat, ← ih]
    exact Moment.isOpening_after _ document

theorem asks_of_outstanding (reachable : Reachable config policy l) {r : OpenRequest}
    (member : r ∈ l.outstanding) : ∃ m ∈ l.past, m.Asks r.document := by
  induction reachable with
  | start => simp at member
  | attach _ ih => exact ih member
  | meet _ offers editor ih =>
    rcases List.mem_append.mp member with old | asked
    · obtain ⟨m, met, asks⟩ := ih (mem_outstanding_of_offers offers old)
      exact ⟨m, List.mem_append_left _ met, asks⟩
    · exact ⟨_, by simp [meet], r, asked, rfl⟩

/-- With an open of a document outstanding, and the document never closed: it still counts as being
opened unless an open of it came back and none was asked for since. While it counts, a selection of
it asks for nothing and touches no product. When it does not, a selection of it that is no echo is
taken for a gesture, for all that an open is outstanding. -/
theorem opening_unless_returned_since_request (reachable : Reachable config policy l)
    {r : OpenRequest} (outstanding : r ∈ l.outstanding)
    (unclosed : ∀ m ∈ l.past, ¬m.Closes r.document) :
    (l.session.synchronizer.isOpening r.document = false ↔
      Since (·.Asks r.document) (·.Returns r.document) l.past) ∧
    ∀ (editor : ε) (view : View) (selections : List Span),
      let step := (l.facing editor (.selectionChanged r.document view selections)).after
      (l.session.synchronizer.isOpening r.document = true →
        step.requests = [] ∧ step.session.store = l.session.store) ∧
      (l.session.synchronizer.isOpening r.document = false →
        l.session.synchronizer.echoes.written.find? r.document ≠ some selections →
        step.requests =
          (l.session.gesture r.document view selections).1.map Session.OpenRequest.of ∧
        step.session.store = (l.session.gesture r.document view selections).2) := by
  refine ⟨?_, fun editor view selections => ⟨fun opening => ?_, fun unmarked noEcho => ?_⟩⟩
  · have marked : l.session.synchronizer.isOpening r.document ↔
        Since (·.Returns r.document) (·.Asks r.document) l.past := by
      rw [isOpening_iff_since reachable]
      refine since_congr (fun m met => ?_) (fun _ _ => .rfl)
      exact ⟨fun stops => stops.resolve_right (unclosed m met), .inl⟩
    rw [← not_since_iff (fun m => Moment.not_returns_of_asks)
      (asks_of_outstanding reachable outstanding), ← marked, Bool.not_eq_true]
  · exact Moment.after_absorbed (.inl opening)
  · exact Moment.after_gesture unmarked noEcho

section TwoGestures

open TwoGestures

theorem not_closes (document : Uri) :
    (∀ m ∈ gestured.past, ¬m.Closes document) ∧ ∀ m ∈ halfway.past, ¬m.Closes document := by
  have never : ∀ m ∈ finished.past, ¬m.Closes document := by
    intro m met closes
    simp [Moment.Closes, unclosed m met] at closes
  refine ⟨fun m met => ?_, fun m met => ?_⟩
  · exact never m (List.mem_append_left _ (List.mem_append_left _ met))
  · exact never m (List.mem_append_left _ met)

/-- Both opens are outstanding, and selections of the product are absorbed. -/
theorem two_gestures_absorb :
    let step := (gestured.facing editor (.selectionChanged target ⟨1⟩ [.caret 4])).after
    Reachable {} .none gestured ∧ request ⟨3, 9⟩ ∈ gestured.outstanding ∧
    (∀ m ∈ gestured.past, ¬m.Closes target) ∧ ¬Since (·.Asks target) (·.Returns target) gestured.past ∧
    step.requests = [] ∧ step.session.store = gestured.session.store := by
  intro step
  have outstanding : request ⟨3, 9⟩ ∈ gestured.outstanding := by simp [gestured_outstanding]
  have law := opening_unless_returned_since_request reachable outstanding (not_closes target).1
  have opening : gestured.session.synchronizer.isOpening target = true := by cbv
  refine ⟨reachable, outstanding, (not_closes target).1, ?_,
    (law.2 editor ⟨1⟩ [.caret 4]).1 opening⟩
  intro returned
  have unmarked : gestured.session.synchronizer.isOpening target = false := law.1.mpr returned
  exact Bool.noConfusion (unmarked.symm.trans opening)

/-- One of two opens came back, and the other is outstanding: the product no longer counts as being
opened, and a caret in it asks for its source. -/
theorem overlapping_opens_propagate : Reachable {} .none halfway ∧
    request ⟨3, 9⟩ ∈ halfway.outstanding ∧ (∀ m ∈ halfway.past, ¬m.Closes target) ∧
    halfway.session.synchronizer.isOpening target = false ∧
    (halfway.facing editor (.selectionChanged target ⟨1⟩ [.caret 4])).after.requests =
      [⟨source, ⟨1, false⟩, some ⟨source, ⟨1, false⟩, target, ⟨1⟩, [⟨5, 10⟩]⟩⟩] := by
  exact ⟨reachable_halfway, halfway_outstanding, (not_closes target).2, by cbv, by cbv⟩

end TwoGestures

end SessionRun

end LinkedViews
