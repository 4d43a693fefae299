import LinkedViews.Proofs.Session.Accounts
import LinkedViews.Proofs.Session.Notification
import LinkedViews.Proofs.Session.Opening

/-! Opens that nobody selected for: a product that is published and shown is opened beside its
source. A product that is open, or about to be, is not opened again, and between its request and its
view there is no moment at which it is neither; so it is opened of itself once at most. -/
namespace LinkedViews

/-- A product that is published then is not opened again. -/
def Synchronizer.OpenOrOpening (y : Synchronizer) (document : Uri) : Prop :=
  y.isOpen document ∨ y.isOpening document

instance (y : Synchronizer) (document : Uri) : Decidable (y.OpenOrOpening document) :=
  inferInstanceAs (Decidable (_ ∨ _))

variable {ε : Type} [Editor ε]

namespace Moment

omit [Editor ε] in
/-- The product is published, and the policy's answer is to show it. -/
def Presents (target : Uri) (m : Moment ε) : Prop :=
  ∃ body product, m.event = .notification body ∧
    Message.Publishes m.session.store.naming body product target ∧
    m.session.policy product = .present

/-- The opens of a document that are asked for with nothing to write. -/
def displays (target : Uri) (m : Moment ε) : List OpenRequest :=
  m.after.requests.filter fun r => r.pending = none ∧ r.document = target

theorem mem_displays {target : Uri} {m : Moment ε} {r : OpenRequest} : r ∈ m.displays target ↔
    r ∈ m.after.requests ∧ r.pending = none ∧ r.document = target := by
  simp [displays]

omit [Editor ε] in
theorem presents_iff {target : Uri} {m : Moment ε} : m.Presents target ↔
    ∃ published, m.publish? = some published ∧ published.target = target ∧
      published.display = .present := by
  constructor
  · rintro ⟨body, product, event, publishes, present⟩
    exact ⟨⟨target, m.session.store.generation.next, m.session.policy product⟩,
      publish?_eq_some_iff.mpr ⟨body, product, event, publishes, rfl, rfl⟩, rfl, present⟩
  · rintro ⟨published, publishes, rfl, present⟩
    obtain ⟨body, product, event, brings, -, display⟩ := publish?_eq_some_iff.mp publishes
    exact ⟨body, product, event, brings, display ▸ present⟩

theorem requests_of_publish? {m : Moment ε} {published : Published}
    (publishes : m.publish? = some published) : m.after.requests =
      if published.display = .present ∧ ¬m.session.synchronizer.OpenOrOpening published.target then
        [⟨published.target, m.session.synchronizer.targetPlacement, none⟩]
      else [] := by
  obtain ⟨s, editor, event⟩ := m
  cases event with
  | notification body =>
    simp only [publish?] at publishes
    simp only [after, Session.process, Session.onNotification]
    cases received : s.store.receive s.policy body with
    | error e => simp [received, Except.toOption] at publishes
    | ok pair =>
      obtain ⟨answer, store⟩ := pair
      simp only [received, Except.toOption, Option.map_some, Option.join_some] at publishes
      subst publishes
      have unopened : ¬s.synchronizer.OpenOrOpening published.target ↔
          s.synchronizer.isOpen published.target = false ∧
            s.synchronizer.isOpening published.target = false := by
        simp [Synchronizer.OpenOrOpening]
      simp only [unopened]
      split
      next fresh => exact (if_pos fresh).symm
      next stays => exact (if_neg stays).symm
  | _ => simp [publish?] at publishes

/-- Without a publish, whatever is asked for has something to write. -/
theorem requests_of_silent {m : Moment ε} (silent : m.publish? = none) :
    ∃ pending : List PendingSelection, m.after.requests = pending.map Session.OpenRequest.of := by
  obtain ⟨s, editor, event⟩ := m
  cases event with
  | notification body =>
    obtain ⟨result, after⟩ := after_notification_of_none silent
    exact ⟨[], by rw [after]; rfl⟩
  | selectionChanged document view selections =>
    rw [after_selectionChanged]
    split
    · exact ⟨[], rfl⟩
    · split
      · exact ⟨[], rfl⟩
      · exact ⟨_, rfl⟩
  | manualSync document view =>
    simp only [after, Session.process]
    split
    · exact ⟨[], rfl⟩
    · exact ⟨_, rfl⟩
  | viewOpened document result pending => exact ⟨[], s.requests_onViewOpened editor _ _ _⟩
  | _ => exact ⟨[], rfl⟩

theorem displays_of_presents {target : Uri} {m : Moment ε} (presents : m.Presents target)
    (unopened : ¬m.session.synchronizer.OpenOrOpening target) :
    m.displays target = [⟨target, m.session.synchronizer.targetPlacement, none⟩] := by
  obtain ⟨published, publishes, rfl, present⟩ := presents_iff.mp presents
  rw [displays, requests_of_publish? publishes, if_pos ⟨present, unopened⟩]
  simp

theorem displays_eq_nil {target : Uri} {m : Moment ε}
    (quiet : ¬(m.Presents target ∧ ¬m.session.synchronizer.OpenOrOpening target)) :
    m.displays target = [] := by
  refine List.eq_nil_iff_forall_not_mem.mpr fun r displayed => ?_
  obtain ⟨asked, empty, rfl⟩ := mem_displays.mp displayed
  cases publishes : m.publish? with
  | none =>
    obtain ⟨pending, requests⟩ := requests_of_silent publishes
    obtain ⟨p, _, rfl⟩ := List.mem_map.mp (requests ▸ asked)
    contradiction
  | some published =>
    rw [requests_of_publish? publishes] at asked
    by_cases shows : published.display = .present ∧
        ¬m.session.synchronizer.OpenOrOpening published.target
    · rw [if_pos shows, List.mem_singleton] at asked
      subst asked
      exact quiet ⟨presents_iff.mpr ⟨published, publishes, rfl, shows.1⟩, shows.2⟩
    · rw [if_neg shows] at asked
      contradiction

theorem displays_ne_nil_iff (target : Uri) (m : Moment ε) : m.displays target ≠ [] ↔
    m.Presents target ∧ ¬m.session.synchronizer.OpenOrOpening target := by
  constructor
  · intro displays
    by_contra quiet
    exact displays (displays_eq_nil quiet)
  · rintro ⟨presents, unopened⟩
    rw [displays_of_presents presents unopened]
    exact List.cons_ne_nil _ _

theorem isOpen_onViewOpened (s : Session) (editor : ε) {document other : Uri} (view : View)
    (pending : Option PendingSelection)
    (shows : document = other ∨ s.synchronizer.isOpen other) :
    (s.onViewOpened editor document (.ok view) pending).session.synchronizer.isOpen other := by
  have opened : (shown s document view).synchronizer.isOpen other :=
    (Synchronizer.isOpen_registerView _ _ _ _).mpr shows
  cases pending with
  | none => exact opened
  | some p =>
    cases current : s.store.isCurrent p.origin p.generation with
    | false =>
      rw [onViewOpened_stale current]
      exact opened
    | true =>
      cases answer : Editor.setSelections editor view p.selections s.synchronizer.reveal with
      | error e =>
        rw [onViewOpened_refused current answer]
        exact opened
      | ok editor' =>
        rw [onViewOpened_written current answer]
        exact (Synchronizer.isOpen_registerView _ p.document view other).mpr (.inr opened)

theorem isOpen_of_returns {m : Moment ε} {document : Uri} (returns : m.Returns document)
    (succeeds : ¬m.Fails document) : m.after.session.synchronizer.isOpen document := by
  obtain ⟨s, editor, event⟩ := m
  cases event with
  | viewOpened other result pending =>
    obtain rfl : other = document := Option.some.inj returns
    cases result with
    | error error => exact absurd ⟨error, pending, rfl⟩ succeeds
    | ok view => exact isOpen_onViewOpened s editor view pending (.inl rfl)
  | _ => contradiction

/-- An open document stays open until it is closed. -/
theorem isOpen_after {m : Moment ε} {document : Uri}
    (opened : m.session.synchronizer.isOpen document) (unclosed : ¬m.Closes document) :
    m.after.session.synchronizer.isOpen document := by
  obtain ⟨s, editor, event⟩ := m
  cases event with
  | notification body =>
    cases published : (Moment.mk s editor (.notification body)).publish? with
    | none =>
      obtain ⟨result, after⟩ := after_notification_of_none published
      rw [after]
      exact opened
    | some published' =>
      obtain ⟨product, store, requests, _, _, after⟩ := after_notification_of_some published
      rw [after, foldl_request]
      exact opened
  | selectionChanged other view selections =>
    have seen : (s.synchronizer.registerView other view).isOpen document :=
      (s.synchronizer.isOpen_registerView other view document).mpr (.inr opened)
    rw [after_selectionChanged]
    split
    · exact seen
    · split
      · exact seen
      · rw [Session.requestAll, foldl_request]
        exact seen
  | manualSync other view =>
    simp only [after, Session.process]
    split
    · exact opened
    · rw [Session.requestAll, foldl_request]
      exact opened
  | viewOpened other result pending =>
    cases result with
    | error e => exact opened
    | ok view => exact isOpen_onViewOpened s editor view pending (.inr opened)
  | viewClosed other =>
    have differ : other ≠ document := fun same => unclosed (congrArg some same)
    have kept := s.synchronizer.views.find?_erase other document
    rw [if_neg differ] at kept
    simp only [after, Session.process, Synchronizer.forgetView, Synchronizer.isOpen,
      Keyed.contains, kept]
    exact opened
  | channelClosed => exact opened
  | shutdown => exact opened

/-- What is open or being opened stays one of the two: when the mark of the request goes, the view
is there. -/
theorem openOrOpening_after {m : Moment ε} {document : Uri}
    (attends : m.session.synchronizer.OpenOrOpening document) (succeeds : ¬m.Fails document)
    (unclosed : ¬m.Closes document) : m.after.session.synchronizer.OpenOrOpening document := by
  rcases attends with opened | opening
  · exact .inl (isOpen_after opened unclosed)
  · by_cases returns : m.Returns document
    · exact .inl (isOpen_of_returns returns succeeds)
    · refine .inr ((m.isOpening_after document).mpr (.inr ⟨opening, ?_⟩))
      exact not_or.mpr ⟨returns, unclosed⟩

theorem openOrOpening_of_displays {m : Moment ε} {target : Uri} (displays : m.displays target ≠ []) :
    m.after.session.synchronizer.OpenOrOpening target := by
  obtain ⟨r, displayed⟩ := List.exists_mem_of_ne_nil _ displays
  obtain ⟨asked, -, same⟩ := mem_displays.mp displayed
  exact .inr ((m.isOpening_after target).mpr (.inl ⟨r, asked, same⟩))

end Moment

namespace SessionRun

variable {config : Config} {l : SessionRun ε} {target : Uri}

/-- As `Reachable`, with a policy that may change between two events. It is asked once at most while
an event is processed, so its answers may depend on anything. -/
inductive ReachableAnyPolicy (config : Config) : SessionRun ε → Prop
  | start {policy : Policy} {s : Session} (created : Session.new config policy = .ok s) :
      ReachableAnyPolicy config ⟨s, [], []⟩
  | setPolicy {l : SessionRun ε} (reachable : ReachableAnyPolicy config l) (policy : Policy) :
      ReachableAnyPolicy config { l with session := { l.session with policy := policy } }
  | attach {l : SessionRun ε} (reachable : ReachableAnyPolicy config l) :
      ReachableAnyPolicy config l.attach
  | meet {l : SessionRun ε} {event : Event} {rest : List OpenRequest}
      (reachable : ReachableAnyPolicy config l) (offers : l.Offers event rest) (editor : ε) :
      ReachableAnyPolicy config (l.meet rest editor event)

theorem Reachable.anyPolicy {policy : Policy} (reachable : Reachable config policy l) :
    ReachableAnyPolicy config l := by
  induction reachable with
  | start created => exact .start created
  | attach _ ih => exact ih.attach
  | meet _ offers editor ih => exact ih.meet offers editor

/-- All opens of a document that were asked for with nothing to write. -/
def displays (l : SessionRun ε) (target : Uri) : List OpenRequest := l.past.flatMap (·.displays target)

theorem displays_meet (l : SessionRun ε) (rest : List OpenRequest) (editor : ε) (event : Event) :
    (l.meet rest editor event).displays target =
      l.displays target ++ (l.facing editor event).displays target :=
  flatMap_past_meet _ l rest editor event

/-- No open of the document failed, and its view was not closed. -/
def NeverFailsOrCloses (l : SessionRun ε) (document : Uri) : Prop :=
  ∀ m ∈ l.past, ¬m.Fails document ∧ ¬m.Closes document

theorem neverFailsOrCloses_meet {rest : List OpenRequest} {editor : ε} {event : Event}
    {document : Uri} :
    (l.meet rest editor event).NeverFailsOrCloses document ↔ l.NeverFailsOrCloses document ∧
      ¬(l.facing editor event).Fails document ∧ ¬(l.facing editor event).Closes document := by
  rw [NeverFailsOrCloses, meet, List.forall_mem_append, List.forall_mem_singleton]
  exact .rfl

theorem openOrOpening_of_displayed (reachable : ReachableAnyPolicy config l)
    (undisturbed : l.NeverFailsOrCloses target) (displayed : l.displays target ≠ []) :
    l.session.synchronizer.OpenOrOpening target := by
  induction reachable with
  | start => contradiction
  | setPolicy _ _ ih => exact ih undisturbed displayed
  | attach _ ih => exact ih undisturbed displayed
  | @meet l event rest _ offers editor ih =>
    obtain ⟨before, succeeds, unclosed⟩ := neverFailsOrCloses_meet.mp undisturbed
    by_cases now : (l.facing editor event).displays target = []
    · rw [displays_meet, now, List.append_nil] at displayed
      exact Moment.openOrOpening_after (ih before displayed) succeeds unclosed
    · exact Moment.openOrOpening_of_displays now

theorem length_displays_le_one (reachable : ReachableAnyPolicy config l)
    (undisturbed : l.NeverFailsOrCloses target) : (l.displays target).length ≤ 1 := by
  induction reachable with
  | start => exact Nat.zero_le 1
  | setPolicy _ _ ih => exact ih undisturbed
  | attach _ ih => exact ih undisturbed
  | @meet l event rest reachable offers editor ih =>
    obtain ⟨before, -, -⟩ := neverFailsOrCloses_meet.mp undisturbed
    by_cases now : (l.facing editor event).displays target = []
    · rw [displays_meet, now, List.append_nil]
      exact ih before
    · obtain ⟨presents, unopened⟩ := (Moment.displays_ne_nil_iff _ _).mp now
      have first : l.displays target = [] := by
        by_contra displayed
        exact unopened (openOrOpening_of_displayed reachable before displayed)
      rw [displays_meet, first, Moment.displays_of_presents presents unopened]
      exact le_rfl

/-- An open that was asked for is outstanding, or came back. -/
theorem outstanding_or_returned (reachable : ReachableAnyPolicy config l) {m : Moment ε}
    (met : m ∈ l.past) {r : OpenRequest} (asked : r ∈ m.after.requests) :
    r ∈ l.outstanding ∨ ∃ m ∈ l.past, m.Returns r.document := by
  induction reachable with
  | start => contradiction
  | setPolicy _ _ ih => exact ih met
  | attach _ ih => exact ih met
  | @meet l event rest _ offers editor ih =>
    rcases List.mem_append.mp met with old | new
    · rcases ih old with waits | ⟨m, earlier, returns⟩
      · cases offers with
        | outside => exact .inl (List.mem_append_left _ waits)
        | @completed r' _ result =>
          by_cases same : r = r'
          · refine .inr ⟨_, List.mem_append_right _ (List.mem_singleton_self _), ?_⟩
            exact congrArg (some ·.document) same.symm
          · exact .inl (List.mem_append_left _ ((List.mem_erase_of_ne same).mpr waits))
      · exact .inr ⟨m, List.mem_append_left _ earlier, returns⟩
    · obtain rfl := List.mem_singleton.mp new
      exact .inl (List.mem_append_right _ asked)

theorem isOpen_of_returned (reachable : ReachableAnyPolicy config l)
    (undisturbed : l.NeverFailsOrCloses target) (returned : ∃ m ∈ l.past, m.Returns target) :
    l.session.synchronizer.isOpen target := by
  induction reachable with
  | start => simp at returned
  | setPolicy _ _ ih => exact ih undisturbed returned
  | attach _ ih => exact ih undisturbed returned
  | @meet l event rest _ offers editor ih =>
    obtain ⟨before, succeeds, unclosed⟩ := neverFailsOrCloses_meet.mp undisturbed
    obtain ⟨m, met, returns⟩ := returned
    rcases List.mem_append.mp met with old | new
    · exact Moment.isOpen_after (ih before ⟨m, old, returns⟩) unclosed
    · obtain rfl := List.mem_singleton.mp new
      exact Moment.isOpen_of_returns returns succeeds

/-- While no open of a product fails and its view is not closed, at most one open of it is asked for
with nothing to write. That happens exactly when it is published, the policy shows it, and it is
neither open nor being opened; from then on it is one of the two, and it is open once that open, or
any other, came back. -/
theorem displayed_at_most_once (reachable : ReachableAnyPolicy config l)
    (undisturbed : l.NeverFailsOrCloses target) :
    (l.displays target).length ≤ 1 ∧
    (∀ m ∈ l.past, m.displays target ≠ [] ↔
      m.Presents target ∧ ¬m.session.synchronizer.OpenOrOpening target) ∧
    (l.displays target ≠ [] → l.session.synchronizer.OpenOrOpening target) ∧
    (∀ r ∈ l.displays target, r ∉ l.outstanding → ∃ m ∈ l.past, m.Returns target) ∧
    ((∃ m ∈ l.past, m.Returns target) → l.session.synchronizer.isOpen target) := by
  refine ⟨length_displays_le_one reachable undisturbed, fun m _ => m.displays_ne_nil_iff target,
    openOrOpening_of_displayed reachable undisturbed, fun r displayed back => ?_,
    isOpen_of_returned reachable undisturbed⟩
  obtain ⟨m, met, displays⟩ := List.mem_flatMap.mp displayed
  obtain ⟨asked, -, rfl⟩ := Moment.mem_displays.mp displays
  exact (outstanding_or_returned reachable met asked).resolve_left back

end SessionRun

namespace SessionRun.TwoGestures

-- A product is published and not shown. The policy changes its mind, and the product is published
-- again: once when it is neither open nor being opened, once while it is being opened, and once when
-- it is open.
def beside : OpenRequest := ⟨target, ⟨2, true⟩, none⟩

def eager : SessionRun HeadlessEditor :=
  { supplied with session := { supplied.session with policy := .all } }

def awaiting : SessionRun HeadlessEditor :=
  (eager.hear editor (.notification body)).hear editor (.notification body)

def settled : SessionRun HeadlessEditor :=
  (awaiting.finish editor beside (.ok ⟨1⟩)).hear editor (.notification body)

theorem presents_body : (eager.facing editor (.notification body)).Presents target :=
  ⟨body, product, rfl, Session.Bodies.publishes_body, rfl⟩

theorem displays_eager : (eager.facing editor (.notification body)).displays target = [beside] :=
  Moment.displays_of_presents presents_body (by decide)

theorem reachable_awaiting : ReachableAnyPolicy {} awaiting :=
  ((reachable_supplied.anyPolicy.setPolicy .all).meet (.outside rfl) editor).meet (.outside rfl) editor

theorem beside_outstanding : beside ∈ awaiting.outstanding := by
  have displayed : beside ∈ (eager.facing editor (.notification body)).displays target := by
    rw [displays_eager]
    exact List.mem_singleton_self beside
  have asked := (Moment.mem_displays.mp displayed).1
  exact List.mem_append_left _ (List.mem_append_right _ asked)

/-- The product is opened beside its source at the second publish, and not again. -/
theorem four_publishes_display_once :
    ReachableAnyPolicy {} settled ∧ settled.NeverFailsOrCloses target ∧
    (eager.facing editor (.notification body)).Presents target ∧
    settled.displays target = [beside] ∧
    settled.session.synchronizer.isOpen target = true := by
  have back := reachable_awaiting.meet (.completed beside_outstanding (.ok ⟨1⟩)) editor
  have reachable : ReachableAnyPolicy {} settled := back.meet (.outside rfl) editor
  have undisturbed : settled.NeverFailsOrCloses target := by
    simp [NeverFailsOrCloses, settled, awaiting, eager, supplied, hear, finish, meet, facing,
      Moment.Fails, Moment.Closes, Event.closed?]
  obtain ⟨once, -, -, -, opened⟩ := displayed_at_most_once reachable undisturbed
  refine ⟨reachable, undisturbed, presents_body, ?once, opened ?back⟩
  case once =>
    have second : eager.facing editor (.notification body) ∈ settled.past := by
      simp [settled, awaiting, hear, finish, meet]
    have displayed : beside ∈ settled.displays target :=
      List.mem_flatMap.mpr ⟨_, second, by simp [displays_eager]⟩
    have single : (settled.displays target).length = 1 :=
      Nat.le_antisymm once (List.length_pos_of_mem displayed)
    obtain ⟨r, only⟩ := List.length_eq_one_iff.mp single
    rw [only] at displayed ⊢
    rw [List.mem_singleton.mp displayed]
  case back =>
    refine ⟨awaiting.facing editor (.viewOpened target (.ok ⟨1⟩) none), ?_, rfl⟩
    simp [settled, beside, hear, finish, meet]

end SessionRun.TwoGestures

end LinkedViews
