import Mathlib
import LinkedViews.Proofs.Session.Moment

/-! Runs of a session: events from outside in any order, with the completions of the opens that the
session asked for coming back whenever and in whatever order they like. The editor may change freely
between two events. -/
namespace LinkedViews

variable {ε : Type} [Editor ε]

/-- `outstanding` are the opens that were asked for and have not come back, and `past` is all that
the session met, oldest first. -/
structure SessionRun (ε : Type) where
  session : Session
  outstanding : List OpenRequest
  past : List (Moment ε)

namespace SessionRun

/-- What can come next, and which opens are outstanding when it does: anything from outside, or one
of the opens, with whatever result. -/
inductive Offers (l : SessionRun ε) : Event → List OpenRequest → Prop
  | outside {event : Event} (input : event.completed? = none) : Offers l event l.outstanding
  | completed {r : OpenRequest} (asked : r ∈ l.outstanding) (result : Except EditorError View) :
      Offers l (.viewOpened r.document result r.pending) (l.outstanding.erase r)

/-- The moment at which the session meets an event. -/
def facing (l : SessionRun ε) (editor : ε) (event : Event) : Moment ε := ⟨l.session, editor, event⟩

def meet (l : SessionRun ε) (rest : List OpenRequest) (editor : ε) (event : Event) : SessionRun ε where
  session := (l.facing editor event).after.session
  outstanding := rest ++ (l.facing editor event).after.requests
  past := l.past ++ [l.facing editor event]

/-- A channel is attached; its bodies come as notifications, and its end as an event. -/
def attach (l : SessionRun ε) : SessionRun ε :=
  { l with session := { l.session with readers := l.session.readers + 1 } }

inductive Reachable (config : Config) (policy : Policy) : SessionRun ε → Prop
  | start {s : Session} (created : Session.new config policy = .ok s) :
      Reachable config policy ⟨s, [], []⟩
  | attach {l : SessionRun ε} (reachable : Reachable config policy l) : Reachable config policy l.attach
  | meet {l : SessionRun ε} {event : Event} {rest : List OpenRequest}
      (reachable : Reachable config policy l) (offers : l.Offers event rest) (editor : ε) :
      Reachable config policy (l.meet rest editor event)

/-- Something from outside, such as a gesture. -/
def hear (l : SessionRun ε) (editor : ε) (event : Event) : SessionRun ε :=
  l.meet l.outstanding editor event

/-- One of the opens comes back. -/
def finish (l : SessionRun ε) (editor : ε) (r : OpenRequest) (result : Except EditorError View) :
    SessionRun ε :=
  l.meet (l.outstanding.erase r) editor (.viewOpened r.document result r.pending)

theorem Reachable.hear {config : Config} {policy : Policy} {l : SessionRun ε} {event : Event}
    (reachable : Reachable config policy l) (input : event.completed? = none) (editor : ε) :
    Reachable config policy (l.hear editor event) :=
  reachable.meet (.outside input) editor

theorem Reachable.finish {config : Config} {policy : Policy} {l : SessionRun ε} {r : OpenRequest}
    (reachable : Reachable config policy l) (asked : r ∈ l.outstanding)
    (result : Except EditorError View) (editor : ε) :
    Reachable config policy (l.finish editor r result) :=
  reachable.meet (.completed asked result) editor

/-- Everything that was published, in order. -/
def published (l : SessionRun ε) : List Published := l.past.filterMap Moment.publish?

theorem published_meet (l : SessionRun ε) (rest : List OpenRequest) (editor : ε) (event : Event) :
    (l.meet rest editor event).published =
      l.published ++ (l.facing editor event).publish?.toList := by
  simp only [published, meet, List.filterMap_append, List.filterMap_cons, List.filterMap_nil]
  cases (l.facing editor event).publish? <;> rfl

/-- What is collected over all moments grows by what the latest adds. -/
theorem flatMap_past_meet {α : Type} (f : Moment ε → List α) (l : SessionRun ε)
    (rest : List OpenRequest) (editor : ε) (event : Event) :
    (l.meet rest editor event).past.flatMap f = l.past.flatMap f ++ f (l.facing editor event) := by
  simp [meet]

variable {config : Config} {policy : Policy} {l : SessionRun ε}

/-- A new session has published nothing, opens nothing and awaits no echo. -/
theorem new_empty {s : Session} (created : Session.new config policy = .ok s) :
    (∀ target, s.store.find? target = none) ∧ s.store.generation = .zero ∧
    (∀ document, s.synchronizer.isOpening document = false) ∧
    ∀ document, s.synchronizer.echoes.written.find? document = none := by
  unfold Session.new at created
  split at created
  next => contradiction
  next =>
    obtain rfl := Except.ok.inj created
    exact ⟨fun _ => rfl, rfl, fun _ => rfl, fun _ => rfl⟩

omit [Editor ε] in
theorem mem_outstanding_of_offers {event : Event} {rest : List OpenRequest}
    (offers : l.Offers event rest) {r : OpenRequest} (member : r ∈ rest) : r ∈ l.outstanding := by
  cases offers with
  | outside => exact member
  | completed => exact List.mem_of_mem_erase member

/-- What waits for an open is for the document that is opened. -/
theorem document_of_outstanding (reachable : Reachable config policy l) {r : OpenRequest}
    (member : r ∈ l.outstanding) {p : PendingSelection} (waits : r.pending = some p) :
    p.document = r.document := by
  induction reachable with
  | start => simp at member
  | attach _ ih => exact ih member
  | meet _ offers editor ih =>
    rcases List.mem_append.mp member with old | asked
    · exact ih (mem_outstanding_of_offers offers old)
    · rcases Moment.carries_of_request asked with empty | ⟨p', _, _, _, _, rfl, _⟩
      · simp [empty] at waits
      · obtain rfl := Option.some.inj waits
        rfl

-- A product is published, its view is open, and the user selects twice in its source before either of
-- the two opens of the product comes back.
namespace TwoGestures

def source : Uri := ⟨"file", some .none, "/a.mj", none, none⟩

def target : Uri := ⟨"monto", none, "/a.mj-target.js", none, none⟩

def product : Product :=
  ⟨source, "target", "js", "generated", [⟨⟨0, 5⟩, ⟨0, 3⟩⟩, ⟨⟨5, 10⟩, ⟨3, 9⟩⟩]⟩

/-- The product's view is the editor's first, and its source's the second. -/
def editor : HeadlessEditor := (HeadlessEditor.new.openNow target).2.openNow source |>.2

def body : Bytes := (Message.publish (Publication.ofProduct product)).encode

def started : Session :=
  let (documents, store) := Documents.new (.new .default) "unknown content" 64
  ⟨store, documents, .none, .new {}, 0, 0⟩

def stocked : Session := { started with
  store := (started.store.install target product).announce target
  synchronizer := started.synchronizer.contentReplaced target }

def supplied : SessionRun HeadlessEditor := ⟨stocked, [], [⟨started, editor, .notification body⟩]⟩

def shown : SessionRun HeadlessEditor := supplied.hear editor (.selectionChanged target ⟨1⟩ [.caret 0])

def gestured : SessionRun HeadlessEditor :=
  (shown.hear editor (.selectionChanged source ⟨2⟩ [.caret 1])).hear editor
    (.selectionChanged source ⟨2⟩ [.caret 7])

/-- The request that a selection in one of the two spans of the source leads to. -/
def request (span : Span) : OpenRequest :=
  ⟨target, ⟨2, true⟩, some ⟨target, ⟨2, true⟩, target, ⟨1⟩, [span]⟩⟩

/-- The first open came back and its selections are written; the second is still outstanding. -/
def halfway : SessionRun HeadlessEditor := gestured.finish editor (request ⟨0, 3⟩) (.ok ⟨1⟩)

/-- The other open came back too. -/
def finished : SessionRun HeadlessEditor := halfway.finish editor (request ⟨3, 9⟩) (.ok ⟨1⟩)

def report (span : Span) : Report := ⟨target, ⟨1⟩, [span]⟩

theorem new_started : Session.new {} .none = .ok started := by
  have naming : Config.naming {} = .ok .default := by cbv
  rw [Session.new, naming]
  rfl

theorem received : started.store.receive .none body =
    .ok (some ⟨target, ⟨1⟩, .ignore⟩, stocked.store) := by
  have parsed : (Message.parse body).toOption = some (.publish (Publication.ofProduct product)) := by
    decide +kernel
  have read : (Publication.ofProduct product).toProduct = .ok product := by cbv
  have saved : started.store.save product = .ok (target, stocked.store) :=
    Store.save_eq_ok_iff.mpr ⟨by cbv, by cbv, rfl⟩
  unfold Store.receive
  cases parse : Message.parse body with
  | error e => simp [parse, Except.toOption] at parsed
  | ok message =>
    obtain rfl : message = .publish (Publication.ofProduct product) := by
      simpa [parse, Except.toOption] using parsed
    simp only [read, Store.publish, saved]
    cbv

theorem hear_body : SessionRun.hear ⟨started, [], []⟩ editor (.notification body) = supplied := by
  have received : started.store.receive started.policy body = _ := received
  simp only [SessionRun.hear, SessionRun.meet, facing, Moment.after, Session.process,
    Session.onNotification, received]
  rfl

theorem few : gestured.published.length < Decimal.maxWord :=
  Nat.lt_of_le_of_lt (List.length_filterMap_le _ _) (by decide : gestured.past.length < _)

theorem reachable_supplied : Reachable {} .none supplied :=
  hear_body ▸ (Reachable.start new_started).hear rfl editor

theorem reachable_shown : Reachable {} .none shown := reachable_supplied.hear rfl _

theorem reachable : Reachable {} .none gestured := (reachable_shown.hear rfl _).hear rfl _

theorem gestured_outstanding : gestured.outstanding = [request ⟨0, 3⟩, request ⟨3, 9⟩] := by cbv

theorem first_outstanding : request ⟨0, 3⟩ ∈ gestured.outstanding := by simp [gestured_outstanding]

theorem reachable_halfway : Reachable {} .none halfway :=
  reachable.finish first_outstanding _ _

theorem halfway_outstanding : request ⟨3, 9⟩ ∈ halfway.outstanding := by
  have left : request ⟨3, 9⟩ ∈ gestured.outstanding.erase (request ⟨0, 3⟩) := by
    rw [gestured_outstanding]
    decide
  exact List.mem_append_left _ left

theorem reachable_finished : Reachable {} .none finished :=
  reachable_halfway.finish halfway_outstanding _ _

theorem first_reports : (gestured.facing editor (.viewOpened target (.ok ⟨1⟩)
    (request ⟨0, 3⟩).pending)).reports = [report ⟨0, 3⟩] := by cbv

theorem halfway_reports : halfway.past.flatMap Moment.reports = [report ⟨0, 3⟩] := by cbv

theorem finished_reports :
    finished.past.flatMap Moment.reports = [report ⟨0, 3⟩, report ⟨3, 9⟩] := by cbv

theorem finished_published : finished.published = [⟨target, ⟨1⟩, .ignore⟩] := by
  have publish : (⟨started, editor, .notification body⟩ : Moment HeadlessEditor).publish? =
      some ⟨target, ⟨1⟩, .ignore⟩ := by
    have received : started.store.receive started.policy body = _ := received
    simp [Moment.publish?, received, Except.toOption]
  rw [published]
  exact List.filterMap_cons_some publish

theorem unclosed : ∀ m ∈ finished.past, m.event.closed? = none := by
  have past : finished.past.map (·.event.closed?) = [none, none, none, none, none, none] := rfl
  intro m met
  have known : m.event.closed? ∈ finished.past.map (·.event.closed?) := List.mem_map_of_mem met
  simpa [past] using known

end TwoGestures

end SessionRun

end LinkedViews
