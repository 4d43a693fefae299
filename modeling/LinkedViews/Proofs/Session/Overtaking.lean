import LinkedViews.Proofs.Session.Accounts
import LinkedViews.Proofs.Session.Opening

/-! The order of writes. Every gesture sends its selections with an open of its own, and a write
waits for nothing but that open; so selections are written in the order in which their opens come
back, and those of an earlier gesture may come last. -/
namespace LinkedViews

variable {ε : Type} [Editor ε]

namespace Moment

/-- The selections that are sent on their way. -/
def sent (m : Moment ε) : List PendingSelection := m.after.requests.filterMap (·.pending)

omit [Editor ε] in
/-- The selections whose open comes back. -/
def landed (m : Moment ε) : List PendingSelection :=
  match m.event with
  | .viewOpened _ _ pending => pending.toList
  | _ => []

/-- The calls for the document whose open comes back; reports are those that are carried out. -/
def calls (m : Moment ε) : List Report :=
  match m.event with
  | .viewOpened document _ _ => m.writes.map fun w => ⟨document, w.view, w.selections⟩
  | _ => []

theorem reports_eq_calls {m : Moment ε} (obeys : ∀ w ∈ m.writes, m.accepts w) :
    m.reports = m.calls := by
  have carried : m.writes.filter m.accepts = m.writes := List.filter_eq_self.mpr obeys
  obtain ⟨s, editor, event⟩ := m
  cases event with
  | viewOpened document result pending => exact congrArg (List.map _) carried
  | _ => rfl

end Moment

namespace SessionRun

variable {config : Config} {policy : Policy} {l : SessionRun ε}

def sent (l : SessionRun ε) : List PendingSelection := l.past.flatMap Moment.sent

omit [Editor ε] in
def landed (l : SessionRun ε) : List PendingSelection := l.past.flatMap Moment.landed

def calls (l : SessionRun ε) : List Report := l.past.flatMap Moment.calls

theorem sent_meet (l : SessionRun ε) (rest : List OpenRequest) (editor : ε) (event : Event) :
    (l.meet rest editor event).sent = l.sent ++ (l.facing editor event).sent :=
  flatMap_past_meet _ l rest editor event

theorem landed_meet (l : SessionRun ε) (rest : List OpenRequest) (editor : ε) (event : Event) :
    (l.meet rest editor event).landed = l.landed ++ (l.facing editor event).landed :=
  flatMap_past_meet _ l rest editor event

theorem calls_meet (l : SessionRun ε) (rest : List OpenRequest) (editor : ε) (event : Event) :
    (l.meet rest editor event).calls = l.calls ++ (l.facing editor event).calls :=
  flatMap_past_meet _ l rest editor event

/-- Until an open comes back, all that was sent is outstanding. -/
theorem sent_hear {l : SessionRun ε} (unlanded : l.sent = l.outstanding.filterMap (·.pending))
    {editor : ε} {event : Event} : (l.hear editor event).sent =
      (l.hear editor event).outstanding.filterMap (·.pending) := by
  rw [hear, sent_meet, unlanded]
  exact List.filterMap_append.symm

theorem sent_finish (l : SessionRun ε) (editor : ε) (r : OpenRequest)
    (result : Except EditorError View) : (l.finish editor r result).sent = l.sent := by
  have silent : (l.facing editor (.viewOpened r.document result r.pending)).after.requests = [] :=
    Moment.requests_of_opens rfl
  rw [finish, sent_meet, Moment.sent, silent, List.filterMap_nil, List.append_nil]

theorem published_finish (l : SessionRun ε) (editor : ε) (r : OpenRequest)
    (result : Except EditorError View) : (l.finish editor r result).published = l.published := by
  rw [finish, published_meet]
  exact List.append_nil _

omit [Editor ε] in
theorem perm_of_offers {event : Event} {rest : List OpenRequest} (offers : l.Offers event rest)
    (editor : ε) : (rest.filterMap (·.pending) ++ (l.facing editor event).landed).Perm
      (l.outstanding.filterMap (·.pending)) := by
  cases offers with
  | outside input =>
    have nothing : (l.facing editor event).landed = [] := by
      cases event with
      | viewOpened => contradiction
      | _ => rfl
    rw [nothing, List.append_nil]
  | @completed r asked result =>
    refine List.Perm.trans ?_ ((List.perm_cons_erase asked).filterMap (·.pending)).symm
    cases waits : r.pending with
    | none => simp [facing, Moment.landed, waits]
    | some p =>
      rw [List.filterMap_cons_some waits]
      exact List.perm_append_singleton p _

theorem perm_sent (reachable : Reachable config policy l) :
    (l.outstanding.filterMap (·.pending) ++ l.landed).Perm l.sent := by
  induction reachable with
  | start => exact .refl []
  | attach _ ih => exact ih
  | @meet l event rest _ offers editor ih =>
    have waiting : (l.meet rest editor event).outstanding.filterMap (·.pending) =
        rest.filterMap (·.pending) ++ (l.facing editor event).sent := List.filterMap_append
    rw [sent_meet, landed_meet, waiting]
    refine List.perm_iff_count.mpr fun p => ?_
    have before := ih.count_eq p
    have step := (perm_of_offers offers editor).count_eq p
    simp only [List.count_append] at before step ⊢
    omega

theorem published_of_stored (reachable : Reachable config policy l) {target : Uri}
    {stored : StoredProduct} (found : l.session.store.find? target = some stored) :
    target ∈ l.published.map (·.target) := by
  induction reachable generalizing stored with
  | start created => simp [(new_empty created).1] at found
  | attach _ ih => exact ih found
  | @meet l event rest _ offers editor ih =>
    rw [published_meet, List.map_append, List.mem_append]
    cases publishes : (l.facing editor event).publish? with
    | none =>
      obtain ⟨before, held, _⟩ := (Moment.arms_after publishes).of_find? found
      exact .inl (ih held)
    | some p =>
      by_cases same : p.target = target
      · exact .inr (by simp [same])
      · obtain ⟨product, save⟩ := Moment.saved_after publishes
        exact .inl (ih (((Store.saved_of_save save).elsewhere target same).symm.trans found))

/-- With nothing published twice, no snapshot goes away while selections that were mapped through it
are on their way. -/
theorem current_of_outstanding (reachable : Reachable config policy l)
    (once : (l.published.map (·.target)).Nodup) {r : OpenRequest} (member : r ∈ l.outstanding)
    {p : PendingSelection} (waits : r.pending = some p) :
    l.session.store.isCurrent p.origin p.generation := by
  induction reachable with
  | start => contradiction
  | attach _ ih => exact ih once member
  | @meet l event rest reachable offers editor ih =>
    rcases List.mem_append.mp member with old | asked
    · rw [published_meet, List.map_append, List.nodup_append] at once
      obtain ⟨before, -, apart⟩ := once
      have current := ih before (mem_outstanding_of_offers offers old)
      refine Moment.isCurrent_after (m := l.facing editor event) current
        fun published publishes same => ?_
      obtain ⟨stored, found, _⟩ := Store.isCurrent_iff.mp current
      have again : published.target ∈ (l.facing editor event).publish?.toList.map (·.target) := by
        simp [publishes]
      exact apart _ (published_of_stored reachable found) _ again same.symm
    · exact Moment.current_of_request asked waits

/-- At each event the calls for a document are for the selections that land there. -/
theorem calls_of_offers (reachable : Reachable config policy l)
    (once : (l.published.map (·.target)).Nodup) {event : Event} {rest : List OpenRequest}
    (offers : l.Offers event rest) (editor : ε) {document : Uri}
    (succeeds : ¬(l.facing editor event).Fails document) :
    ((l.facing editor event).calls.filter (·.document = document)).map (·.selections) =
      ((l.facing editor event).landed.filter (·.document = document)).map (·.selections) := by
  cases offers with
  | outside input =>
    cases event with
    | viewOpened => contradiction
    | _ => rfl
  | @completed r asked result =>
    cases waits : r.pending with
    | none => simp [facing, Moment.calls, Moment.landed, Moment.writes_eq]
    | some p =>
      have own : p.document = r.document := document_of_outstanding reachable asked waits
      cases result with
      | error e =>
        have other : r.document ≠ document := by
          rintro rfl
          exact succeeds ⟨e, r.pending, rfl⟩
        simp [facing, Moment.calls, Moment.landed, Moment.writes_eq, own, other]
      | ok view =>
        have current := current_of_outstanding reachable once asked waits
        by_cases same : r.document = document
        · simp [facing, Moment.calls, Moment.landed, Moment.writes_eq, current, own, same]
        · simp [facing, Moment.calls, Moment.landed, Moment.writes_eq, current, own, same]

theorem calls_eq_landed (reachable : Reachable config policy l)
    (once : (l.published.map (·.target)).Nodup) {document : Uri}
    (succeeds : ∀ m ∈ l.past, ¬m.Fails document) :
    (l.calls.filter (·.document = document)).map (·.selections) =
      (l.landed.filter (·.document = document)).map (·.selections) := by
  induction reachable with
  | start => rfl
  | attach _ ih => exact ih once succeeds
  | @meet l event rest reachable offers editor ih =>
    have before : (l.published.map (·.target)).Nodup := by
      rw [published_meet, List.map_append] at once
      exact once.of_append_left
    have succeeded : ∀ m ∈ l.past, ¬m.Fails document :=
      fun m met => succeeds m (List.mem_append_left _ met)
    have step := calls_of_offers reachable before offers editor
      (succeeds _ (List.mem_append_right _ (List.mem_singleton_self _)))
    rw [calls_meet, landed_meet, List.filter_append, List.filter_append, List.map_append,
      List.map_append, ih before succeeded, step]

/-- Nothing is published twice, no open of the document fails, and all opens came back, in whatever
order. Then all selections that were sent to the document have landed, each once, and the session
has called for all of them to be written, in the order in which they landed. The last to be written
are the last that landed, and these are the last that were sent if their open was the last to come
back. An editor that obeys carries out all calls. -/
theorem last_landed_last_written (reachable : Reachable config policy l) (document : Uri)
    (once : (l.published.map (·.target)).Nodup) (succeeds : ∀ m ∈ l.past, ¬m.Fails document)
    (done : l.outstanding = []) :
    let sent := l.sent.filter (·.document = document)
    let landed := l.landed.filter (·.document = document)
    let calls := l.calls.filter (·.document = document)
    landed.Perm sent ∧ calls.map (·.selections) = landed.map (·.selections) ∧
    calls.getLast?.map (·.selections) = landed.getLast?.map (·.selections) ∧
    (landed.getLast? = sent.getLast? →
      calls.getLast?.map (·.selections) = sent.getLast?.map (·.selections)) ∧
    ((∀ m ∈ l.past, ∀ w ∈ m.writes, m.accepts w) →
      l.past.flatMap Moment.reports = l.calls) := by
  intro sent landed calls
  have all : l.landed.Perm l.sent := by
    have perm := perm_sent reachable
    rwa [done, List.filterMap_nil, List.nil_append] at perm
  have written : calls.map (·.selections) = landed.map (·.selections) :=
    calls_eq_landed reachable once succeeds
  have last : calls.getLast?.map (·.selections) = landed.getLast?.map (·.selections) := by
    rw [← List.getLast?_map, ← List.getLast?_map, written]
  refine ⟨all.filter _, written, last, fun inOrder => last.trans (by rw [inOrder]), fun obeys => ?_⟩
  exact List.flatMap_congr fun m met => Moment.reports_eq_calls (obeys m met)

end SessionRun

namespace SessionRun.TwoGestures

theorem gestured_sent : gestured.sent = [request ⟨0, 3⟩, request ⟨3, 9⟩].filterMap (·.pending) := by
  have received : started.store.receive started.policy body = _ := received
  have first : supplied.sent = supplied.outstanding.filterMap (·.pending) := by
    simp only [sent, supplied, List.flatMap_singleton, Moment.sent, Moment.after, Session.process,
      Session.onNotification, received]
    rfl
  have unlanded : gestured.sent = gestured.outstanding.filterMap (·.pending) :=
    sent_hear (sent_hear (sent_hear first))
  rw [unlanded, gestured_outstanding]

theorem finished_sent : finished.sent = gestured.sent := by
  rw [finished, halfway, sent_finish, sent_finish]

/-- The opens come back in the order of the gestures. -/
theorem second_gesture_lands_last : Reachable {} .none finished ∧
    (finished.published.map (·.target)).Nodup ∧ (∀ m ∈ finished.past, ¬m.Fails target) ∧
    finished.outstanding = [] ∧
    (finished.calls.filter (·.document = target)).getLast?.map (·.selections) =
      some [⟨3, 9⟩] := by
  have once : (finished.published.map (·.target)).Nodup := by simp [finished_published]
  have outstanding : finished.outstanding = [] := by cbv
  have landed : finished.landed = [request ⟨0, 3⟩, request ⟨3, 9⟩].filterMap (·.pending) := rfl
  have succeeds : ∀ m ∈ finished.past, ¬m.Fails target := by
    simp [Moment.Fails, finished, halfway, gestured, shown, supplied, hear, finish, meet, facing]
  obtain ⟨-, -, -, inOrder, -⟩ :=
    last_landed_last_written reachable_finished target once succeeds outstanding
  refine ⟨reachable_finished, once, succeeds, outstanding, ?_⟩
  rw [inOrder (by rw [landed, finished_sent, gestured_sent]), finished_sent, gestured_sent]
  rfl

/-- The second of the two opens comes back, and the first is still outstanding. -/
def swapped : SessionRun HeadlessEditor := gestured.finish editor (request ⟨3, 9⟩) (.ok ⟨1⟩)

def overtaken : SessionRun HeadlessEditor := swapped.finish editor (request ⟨0, 3⟩) (.ok ⟨1⟩)

/-- The second open comes back first, and the selections of the first gesture stay. -/
theorem first_gesture_lands_last : Reachable {} .none overtaken ∧
    (overtaken.published.map (·.target)).Nodup ∧ (∀ m ∈ overtaken.past, m.event.closed? = none) ∧
    (∀ m ∈ overtaken.past, ∀ document, ¬m.Fails document) ∧ overtaken.outstanding = [] ∧
    (overtaken.sent.filter (·.document = target)).getLast? = (request ⟨3, 9⟩).pending ∧
    overtaken.past.flatMap Moment.reports = [report ⟨3, 9⟩, report ⟨0, 3⟩] := by
  have back : request ⟨0, 3⟩ ∈ swapped.outstanding := by
    rw [swapped, outstanding_finish, gestured_outstanding]
    decide
  have reachable : Reachable {} .none overtaken :=
    (reachable.finish (by simp [gestured_outstanding]) (.ok ⟨1⟩) editor).finish back (.ok ⟨1⟩) editor
  have published : overtaken.published = finished.published := by
    rw [overtaken, swapped, finished, halfway]
    simp only [published_finish]
  have once : (overtaken.published.map (·.target)).Nodup := by
    simp [published, finished_published]
  have unclosed : ∀ m ∈ overtaken.past, m.event.closed? = none := by
    simp [overtaken, swapped, gestured, shown, supplied, hear, finish, meet, facing, Event.closed?]
  have succeeds : ∀ m ∈ overtaken.past, ∀ document, ¬m.Fails document := by
    simp [Moment.Fails, overtaken, swapped, gestured, shown, supplied, hear, finish, meet, facing]
  have last : (overtaken.sent.filter (·.document = target)).getLast? =
      (request ⟨3, 9⟩).pending := by
    rw [overtaken, swapped, sent_finish, sent_finish, gestured_sent]
    rfl
  have outstanding : overtaken.outstanding = [] := by
    rw [overtaken, swapped, outstanding_finish, outstanding_finish, gestured_outstanding]
    decide
  exact ⟨reachable, once, unclosed, succeeds, outstanding, last, by cbv⟩

end SessionRun.TwoGestures

end LinkedViews
