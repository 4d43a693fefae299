import LinkedViews.Proofs.Session.Echo

/-! How long the record of a write lasts. An event on a document uses the record up, echo or not, and
so a write absorbs one event at most. But events that come while the document is being opened do not
look at the record, and it outlives them; if that open then writes nothing, a gesture that selects
what was written before is taken for the echo. -/
namespace LinkedViews

variable {ε : Type} [Editor ε]

namespace Moment

/-- The record of a document after an event on it is the one before, or none. -/
theorem record_after_selectionChanged (s : Session) (editor : ε) (document : Uri) (view : View)
    (selections : List Span) :
    let m : Moment ε := ⟨s, editor, .selectionChanged document view selections⟩
    m.after.session.synchronizer.echoes.written.find? document =
      if s.synchronizer.isOpening document then s.synchronizer.echoes.written.find? document
      else none := by
  intro m
  have forgotten : (s.synchronizer.echoes.forget document).written.find? document = none := by
    simp [Echoes.find?_forget]
  simp only [m, after_selectionChanged]
  by_cases opening : s.synchronizer.isOpening document
  · rw [if_pos opening, if_pos opening]
    rfl
  · rw [if_neg opening, if_neg opening]
    split
    · exact forgotten
    · rw [Session.requestAll, foldl_request]
      exact forgotten

end Moment

namespace SessionRun

variable {config : Config} {policy : Policy} {l : SessionRun ε}

/-- After an event on a document a write to it is on record only if the document is being opened and
the write was on record before. Outside an open, the event is absorbed if the latest write was of the
same selections and nothing touched the document since, no earlier event in particular; otherwise it
is a gesture. -/
theorem recorded_only_while_opening (reachable : Reachable config policy l) (editor : ε)
    (document : Uri) (view : View) (selections : List Span) :
    let before := l.session.synchronizer
    let step := (l.facing editor (.selectionChanged document view selections)).after
    let known := Since (·.Touches document) (·.Wrote document selections) l.past
    (step.session.synchronizer.echoes.isPending document = true ↔
      before.isOpening document = true ∧ before.echoes.isPending document = true) ∧
    (known → Since (·.heard? = some document) (·.Wrote document selections) l.past) ∧
    (before.isOpening document = true ∨ known →
      step.requests = [] ∧ step.session.store = l.session.store) ∧
    (before.isOpening document = false ∧ ¬known →
      let gesture := l.session.gesture document view selections
      step.requests = gesture.1.map Session.OpenRequest.of ∧ step.session.store = gesture.2) := by
  intro before step known
  have recorded := record_iff_since reachable document selections
  refine ⟨?_, fun since => ?_, fun absorbed => ?_, fun ⟨unmarked, unknown⟩ => ?_⟩
  · have left := Moment.record_after_selectionChanged l.session editor document view selections
    simp only [Echoes.isPending, Keyed.contains]
    simp only [step, facing]
    rw [left]
    by_cases opening : l.session.synchronizer.isOpening document
    · simp [before, opening]
    · simp [before, opening]
  · apply since.mono
    intro m heard
    exact .inr (.inl heard)
  · apply Moment.after_absorbed
    exact absorbed.imp_right recorded.mpr
  · apply Moment.after_gesture unmarked
    intro kept
    exact unknown (recorded.mp kept)

-- The first gesture's selections are written into the product's view and not reported. The next
-- gesture has the view opened once more; meanwhile the user moves the caret in it, and then the open
-- fails.
namespace TwoGestures

def waiting : SessionRun HeadlessEditor := shown.hear editor (.selectionChanged source ⟨2⟩ [.caret 1])

def once : SessionRun HeadlessEditor := waiting.finish editor (request ⟨0, 3⟩) (.ok ⟨1⟩)

def reopening : SessionRun HeadlessEditor := once.hear editor (.selectionChanged source ⟨2⟩ [.caret 7])

def moved : SessionRun HeadlessEditor := reopening.hear editor (.selectionChanged target ⟨1⟩ [.caret 4])

def abandoned : SessionRun HeadlessEditor := moved.finish editor (request ⟨3, 9⟩) (.error .closed)

end TwoGestures

section TwoGestures

open TwoGestures

theorem reachable_once : Reachable {} .none once := by
  apply (reachable_shown.hear rfl editor).finish
  have outstanding : waiting.outstanding = [request ⟨0, 3⟩] := by cbv
  exact outstanding ▸ List.mem_singleton_self _

theorem reachable_moved : Reachable {} .none moved :=
  (reachable_once.hear rfl editor).hear rfl editor

theorem reachable_abandoned : Reachable {} .none abandoned := by
  apply reachable_moved.finish
  have outstanding : moved.outstanding = [request ⟨3, 9⟩] := by cbv
  exact outstanding ▸ List.mem_singleton_self _

theorem waiting_reports : (waiting.facing editor (.viewOpened target (.ok ⟨1⟩)
    (request ⟨0, 3⟩).pending)).reports = [report ⟨0, 3⟩] := by cbv

/-- The echo of the first write is absorbed and leaves no record; a caret elsewhere is a gesture, and
leaves none either. -/
theorem once_recorded :
    let echo := (once.facing editor (.selectionChanged target ⟨1⟩ [⟨0, 3⟩])).after
    let other := (once.facing editor (.selectionChanged target ⟨1⟩ [.caret 4])).after
    Reachable {} .none once ∧ echo.requests = [] ∧
    echo.session.synchronizer.echoes.isPending target = false ∧
    other.requests = (once.session.gesture target ⟨1⟩ [.caret 4]).1.map Session.OpenRequest.of ∧
    other.session.synchronizer.echoes.isPending target = false := by
  intro echo other
  have unmarked : once.session.synchronizer.isOpening target = false := by cbv
  have known : Since (·.Touches target) (·.Wrote target [⟨0, 3⟩]) once.past := by
    apply (since_concat _ _ _ _).mpr
    exact .inl ⟨report ⟨0, 3⟩, waiting_reports ▸ List.mem_singleton_self _, rfl, rfl⟩
  have written := (record_iff_since reachable_once target [⟨0, 3⟩]).mpr known
  have law := recorded_only_while_opening reachable_once editor target ⟨1⟩
  have unknown : ¬Since (·.Touches target) (·.Wrote target [.caret 4]) once.past := by
    rw [← record_iff_since reachable_once, written]
    decide
  have unrecorded (selections : List Span) : (once.facing editor
      (.selectionChanged target ⟨1⟩ selections)).after.session.synchronizer.echoes.isPending target =
        false := by
    rw [← Bool.not_eq_true, (law selections).1, unmarked]
    simp
  exact ⟨reachable_once, ((law _).2.2.1 (.inr known)).1, unrecorded _,
    ((law _).2.2.2 ⟨unmarked, unknown⟩).1, unrecorded _⟩

/-- The caret that the user moved during the open leaves the write on record. Once the open failed,
what was written long before is taken for its echo when the user selects it. -/
theorem record_outlives_event : Reachable {} .none reopening ∧
    (reopening.facing editor (.selectionChanged target ⟨1⟩
      [.caret 4])).after.session.synchronizer.echoes.isPending target = true ∧
    Reachable {} .none abandoned ∧ abandoned.session.synchronizer.isOpening target = false ∧
    (abandoned.session.gesture target ⟨1⟩ [⟨0, 3⟩]).1.map Session.OpenRequest.of =
      [⟨source, ⟨1, false⟩, some ⟨source, ⟨1, false⟩, target, ⟨1⟩, [⟨0, 5⟩]⟩⟩] ∧
    (abandoned.facing editor (.selectionChanged target ⟨1⟩ [⟨0, 3⟩])).after.requests = [] :=
  ⟨reachable_once.hear rfl editor, by cbv, reachable_abandoned, by cbv, by cbv, by cbv⟩

end TwoGestures

end SessionRun

end LinkedViews
