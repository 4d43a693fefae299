import LinkedViews.Proofs.View.Routing
import LinkedViews.Session.Basic

/-! One event as a session meets it: what it asks of the editor, what it publishes, and what becomes
of the store, of the documents that are being opened, and of the writes that await their echo. -/
namespace LinkedViews

/-- A call that asks the editor to replace the selections of a view. -/
structure Write where
  view : View
  selections : List Span
  reveal : Reveal
  deriving DecidableEq, Repr

/-- An editor that accepts every write and keeps a list of them. -/
structure Recorder where
  selected : View → Except EditorError (List Span)
  writes : List Write

instance : Editor Recorder where
  selections e := e.selected
  setSelections e view selections reveal :=
    .ok { e with writes := e.writes ++ [⟨view, selections, reveal⟩] }

theorem Store.isCurrent_iff {s : Store} {target : Uri} {generation : Generation} :
    s.isCurrent target generation ↔
      ∃ stored, s.find? target = some stored ∧ stored.generation = generation := by
  simp [isCurrent, generation?]

/-- A write that was carried out, in the document that its view shows. -/
structure Report where
  document : Uri
  view : View
  selections : List Span
  deriving DecidableEq, Repr

namespace Event

/-- The document whose open comes back. -/
def completed? : Event → Option Uri
  | viewOpened document _ _ => some document
  | _ => none

def closed? : Event → Option Uri
  | viewClosed document => some document
  | _ => none

end Event

/-- What selections of a document lead to when they are taken for a gesture. -/
def Session.gesture (s : Session) (document : Uri) (view : View) (selections : List Span) :
    List PendingSelection × Store :=
  let y := { s.synchronizer.registerView document view with
    echoes := s.synchronizer.echoes.forget document }
  y.gesture s.store document selections

/-- An event, the session that is to process it, and the editor as it is then. -/
structure Moment (ε : Type) where
  session : Session
  editor : ε
  event : Event

namespace Moment

variable {ε : Type} [Editor ε]

def after (m : Moment ε) : Step ε := m.session.process m.editor m.event

/-- The calls are those that a recorder sees in place of the editor. -/
def writes (m : Moment ε) : List Write :=
  (m.session.process (⟨Editor.selections m.editor, []⟩ : Recorder) m.event).editor.writes

def accepts (m : Moment ε) (w : Write) : Bool :=
  (Editor.setSelections m.editor w.view w.selections w.reveal).toOption.isSome

/-- The writes that the editor carries out, for the document whose view was opened. -/
def reports (m : Moment ε) : List Report :=
  match m.event with
  | .viewOpened document _ _ =>
    (m.writes.filter m.accepts).map fun w => ⟨document, w.view, w.selections⟩
  | _ => []

def publish? (m : Moment ε) : Option Published :=
  match m.event with
  | .notification body => ((m.session.store.receive m.session.policy body).toOption.map Prod.fst).join
  | _ => none

/-- The editor reports selections of a document, or is asked for them by a manual sync; these only
go forward. -/
inductive Reports (m : Moment ε) : Direction → Uri → List Span → Prop
  | selection (direction : Direction) (event : m.event = .selectionChanged document view selections) :
      Reports m direction document selections
  | sync (event : m.event = .manualSync document view)
      (selected : Editor.selections m.editor view = .ok selections) :
      Reports m .forward document selections

/-- Asking for documents counts the opens and marks the documents, and does nothing else. -/
theorem foldl_request (requests : List OpenRequest) (s : Session) :
    requests.foldl Session.request s = { s with
      pendingOpens := s.pendingOpens + requests.length
      synchronizer := { s.synchronizer with
        opening := requests.foldl (fun opening r => opening.put r.document ())
          s.synchronizer.opening } } := by
  induction requests generalizing s with
  | nil => rfl
  | cons r requests ih =>
    rw [List.foldl_cons, ih]
    simp only [Session.request, Synchronizer.expectOpen, List.length_cons, List.foldl_cons]
    congr 1
    omega

theorem isOpening_request (s : Session) (r : OpenRequest) (document : Uri) :
    (s.request r).synchronizer.isOpening document ↔
      r.document = document ∨ s.synchronizer.isOpening document := by
  simp only [Session.request, Synchronizer.expectOpen, Synchronizer.isOpening, Keyed.contains,
    Keyed.find?_put]
  split <;> simp_all

theorem isOpening_foldl_request (requests : List OpenRequest) (s : Session) (document : Uri) :
    (requests.foldl Session.request s).synchronizer.isOpening document ↔
      (∃ r ∈ requests, r.document = document) ∨ s.synchronizer.isOpening document := by
  induction requests generalizing s with
  | nil => simp
  | cons r requests ih =>
    rw [List.foldl_cons, ih, isOpening_request]
    simp only [List.mem_cons, exists_eq_or_imp]
    rw [or_left_comm, ← or_assoc]

theorem saved_of_receive {s s' : Store} {policy : Policy} {body : Bytes} {published : Published}
    (received : s.receive policy body = .ok (some published, s')) :
    ∃ product, s.save product = .ok (published.target, s') ∧
      published.display = policy product := by
  unfold Store.receive at received
  split at received
  next => contradiction
  next => simp at received
  next =>
    split at received
    next => contradiction
    next product _ =>
      cases saved : s.save product with
      | error e => simp [Store.publish, saved, bind, Except.bind] at received
      | ok pair =>
        simp only [Store.publish, saved, bind, Except.bind, pure, Except.pure, Except.ok.injEq,
          Prod.mk.injEq, Option.some.injEq] at received
        obtain ⟨rfl, rfl⟩ := received
        exact ⟨product, saved, rfl⟩

/-- A body that publishes nothing leaves everything as it is. -/
theorem after_notification_of_none {s : Session} {editor : ε} {body : Bytes}
    (silent : (Moment.mk s editor (.notification body)).publish? = none) :
    ∃ result, (Moment.mk s editor (.notification body)).after = ⟨s, editor, [], result⟩ := by
  simp only [publish?] at silent
  simp only [after, Session.process, Session.onNotification]
  cases received : s.store.receive s.policy body with
  | error e => exact ⟨_, rfl⟩
  | ok pair =>
    obtain ⟨_ | published, store⟩ := pair
    · exact ⟨_, rfl⟩
    · simp [received, Except.toOption] at silent

theorem after_notification_of_some {s : Session} {editor : ε} {body : Bytes} {published : Published}
    (publishes : (Moment.mk s editor (.notification body)).publish? = some published) :
    ∃ product store requests, s.store.save product = .ok (published.target, store) ∧
      (∀ r ∈ requests, r.document = published.target ∧ r.pending = none) ∧
      (Moment.mk s editor (.notification body)).after =
        ⟨requests.foldl Session.request { s with
            store := store
            synchronizer := s.synchronizer.contentReplaced published.target },
          editor, requests, .ok .continue⟩ := by
  simp only [publish?] at publishes
  simp only [after, Session.process, Session.onNotification]
  cases received : s.store.receive s.policy body with
  | error e => simp [received, Except.toOption] at publishes
  | ok pair =>
    obtain ⟨answer, store⟩ := pair
    simp only [received, Except.toOption, Option.map_some, Option.join_some] at publishes
    subst publishes
    obtain ⟨product, saved, _⟩ := saved_of_receive received
    simp only
    split
    · exact ⟨product, store, [_], saved, by simp, rfl⟩
    · exact ⟨product, store, [], saved, by simp, rfl⟩

/-- A report of selections is no gesture while its document is being opened, nor when it is an echo;
only then is nothing asked for. -/
theorem after_selectionChanged (s : Session) (editor : ε) (document : Uri) (view : View)
    (selections : List Span) :
    let seen := s.synchronizer.registerView document view
    let heard := { seen with echoes := s.synchronizer.echoes.forget document }
    (Moment.mk s editor (.selectionChanged document view selections)).after =
      if s.synchronizer.isOpening document then
        ⟨{ s with synchronizer := seen }, editor, [], .ok .continue⟩
      else if s.synchronizer.echoes.written.find? document = some selections then
        ⟨{ s with synchronizer := heard }, editor, [], .ok .continue⟩
      else
        { s with
          synchronizer := heard
          store := (s.gesture document view selections).2 }.requestAll
            (s.gesture document view selections).1 editor := by
  intro seen heard
  simp only [after, Session.process]
  rw [Synchronizer.onSelectionChanged_eq]
  simp only
  split
  · rfl
  · split <;> rfl

theorem store_onViewOpened (s : Session) (editor : ε) (document : Uri)
    (result : Except EditorError View) (pending : Option PendingSelection) :
    (s.onViewOpened editor document result pending).session.store = s.store := by
  unfold Session.onViewOpened
  grind

theorem arms_after {m : Moment ε} (silent : m.publish? = none) :
    m.session.store.Arms m.after.session.store := by
  obtain ⟨s, editor, event⟩ := m
  cases event with
  | notification body =>
    obtain ⟨result, after⟩ := after_notification_of_none silent
    rw [after]
    exact .refl s.store
  | selectionChanged document view selections =>
    rw [after_selectionChanged]
    split
    · exact .refl s.store
    · split
      · exact .refl s.store
      · rw [Session.requestAll, foldl_request]
        exact Synchronizer.arms_gesture _ _ _ _
  | manualSync document view =>
    simp only [after, Session.process]
    split
    · exact .refl s.store
    · simp only [Session.requestAll, foldl_request]
      exact Synchronizer.arms_manualSync _ _ _ _
  | viewOpened document result pending =>
    rw [after, Session.process, store_onViewOpened]
    exact .refl s.store
  | channelClosed => exact .refl s.store
  | viewClosed document => exact .refl s.store
  | shutdown => exact .refl s.store

theorem saved_after {m : Moment ε} {published : Published}
    (publishes : m.publish? = some published) :
    ∃ product, m.session.store.save product = .ok (published.target, m.after.session.store) := by
  obtain ⟨s, editor, event⟩ := m
  cases event with
  | notification body =>
    obtain ⟨product, store, requests, saved, _, after⟩ := after_notification_of_some publishes
    refine ⟨product, ?_⟩
    rw [after, foldl_request]
    exact saved
  | _ => simp [publish?] at publishes

theorem naming_after (m : Moment ε) : m.after.session.store.naming = m.session.store.naming := by
  cases published : m.publish? with
  | none => exact (arms_after published).naming
  | some p =>
    obtain ⟨product, saved⟩ := saved_after published
    exact (Store.saved_of_save saved).naming

theorem generation_after (m : Moment ε) : m.after.session.store.generation =
    if m.publish?.isSome then m.session.store.generation.next else m.session.store.generation := by
  cases published : m.publish? with
  | none => exact (arms_after published).generation
  | some p =>
    obtain ⟨product, saved⟩ := saved_after published
    exact (Store.saved_of_save saved).generation

theorem snapshot_origin {m : Moment ε} {target : Uri} {stored : StoredProduct}
    (found : m.after.session.store.find? target = some stored) :
    (∃ before, m.session.store.find? target = some before ∧ stored.product = before.product ∧
      stored.index = before.index ∧ stored.generation = before.generation) ∨
    m.publish?.isSome ∧ stored.generation = m.session.store.generation.next := by
  cases published : m.publish? with
  | none => exact .inl ((arms_after published).of_find? found)
  | some p =>
    obtain ⟨product, save⟩ := saved_after published
    have saved := Store.saved_of_save save
    by_cases same : p.target = target
    · subst same
      obtain rfl := Option.some.inj (saved.here.symm.trans found)
      exact .inr ⟨rfl, rfl⟩
    · rw [saved.elsewhere target same] at found
      exact .inl ⟨stored, found, rfl, rfl, rfl⟩

/-- A request carries nothing, or selections that were reported at this moment. -/
theorem carries_of_request {m : Moment ε} {r : OpenRequest} (asked : r ∈ m.after.requests) :
    r.pending = none ∨ ∃ p stored direction document selections,
      r = Session.OpenRequest.of p ∧ m.Reports direction document selections ∧
      m.session.store.find? p.origin = some stored ∧
      p.Carries m.session.store.naming stored direction document selections := by
  obtain ⟨s, editor, event⟩ := m
  cases event with
  | notification body =>
    cases published : (Moment.mk s editor (.notification body)).publish? with
    | none =>
      obtain ⟨result, after⟩ := after_notification_of_none published
      rw [after] at asked
      simp at asked
    | some published' =>
      obtain ⟨product, store, requests, _, empty, after⟩ := after_notification_of_some published
      rw [after] at asked
      exact .inl (empty r asked).2
  | selectionChanged document view selections =>
    rw [after_selectionChanged] at asked
    split at asked
    · simp at asked
    · split at asked
      · simp at asked
      · obtain ⟨p, member, rfl⟩ := List.mem_map.mp asked
        obtain ⟨stored, direction, found, carries⟩ := Synchronizer.carries_of_mem_gesture member
        exact .inr ⟨p, stored, direction, document, selections, rfl, .selection direction rfl,
          found, carries⟩
  | manualSync document view =>
    simp only [after, Session.process] at asked
    split at asked
    · simp at asked
    next selections selected =>
      simp only [Session.requestAll, List.mem_map] at asked
      obtain ⟨p, member, rfl⟩ := asked
      obtain ⟨stored, found, carries⟩ := Synchronizer.carries_of_mem_manualSync member
      exact .inr ⟨p, stored, .forward, document, selections, rfl, .sync rfl selected, found,
        carries⟩
  | viewOpened document result pending =>
    simp [after, Session.process, Session.requests_onViewOpened] at asked
  | channelClosed => simp [after, Session.process] at asked
  | viewClosed document => simp [after, Session.process] at asked
  | shutdown => simp [after, Session.process] at asked

theorem pending_of_publish {m : Moment ε} {published : Published}
    (publishes : m.publish? = some published) {r : OpenRequest} (asked : r ∈ m.after.requests) :
    r.pending = none := by
  obtain ⟨s, editor, event⟩ := m
  cases event with
  | notification body =>
    obtain ⟨product, store, requests, _, empty, after⟩ := after_notification_of_some publishes
    rw [after] at asked
    exact (empty r asked).2
  | _ => simp [publish?] at publishes

theorem isCurrent_after {m : Moment ε} {target : Uri} {generation : Generation}
    (current : m.session.store.isCurrent target generation)
    (unpublished : ∀ p, m.publish? = some p → p.target ≠ target) :
    m.after.session.store.isCurrent target generation := by
  obtain ⟨stored, found, number⟩ := Store.isCurrent_iff.mp current
  cases publishes : m.publish? with
  | none =>
    rcases (arms_after publishes).products target with same | ⟨before, held, armed⟩
    · exact Store.isCurrent_iff.mpr ⟨stored, same.trans found, number⟩
    · obtain rfl := Option.some.inj (found.symm.trans held)
      exact Store.isCurrent_iff.mpr ⟨_, armed, number⟩
  | some p =>
    obtain ⟨product, save⟩ := saved_after publishes
    have kept := (Store.saved_of_save save).elsewhere target (unpublished p publishes)
    exact Store.isCurrent_iff.mpr ⟨stored, kept.trans found, number⟩

/-- What is sent was mapped through a snapshot that the store holds, and still holds afterwards. -/
theorem current_of_request {m : Moment ε} {r : OpenRequest} (asked : r ∈ m.after.requests)
    {p : PendingSelection} (waits : r.pending = some p) :
    m.after.session.store.isCurrent p.origin p.generation := by
  rcases carries_of_request asked with empty | ⟨p', stored, _, _, _, rfl, _, found, carries⟩
  · simp [empty] at waits
  · obtain rfl := Option.some.inj waits
    refine isCurrent_after (Store.isCurrent_iff.mpr ⟨stored, found, carries.generation.symm⟩) ?_
    intro published publishes
    simp [pending_of_publish publishes asked] at waits

def shown (s : Session) (document : Uri) (view : View) : Session := { s with
  pendingOpens := s.pendingOpens - 1
  synchronizer := (s.synchronizer.openFinished document).registerView document view }

def written (s : Session) (document : Uri) (view : View) (p : PendingSelection) : Session :=
  { shown s document view with
    synchronizer := { (shown s document view).synchronizer.registerView p.document view with
      echoes := s.synchronizer.echoes.record p.document p.selections } }

section Completed

variable {s : Session} {editor : ε} {document : Uri} {view : View} {p : PendingSelection}

theorem onViewOpened_stale (stale : s.store.isCurrent p.origin p.generation = false) :
    s.onViewOpened editor document (.ok view) (some p) =
      ⟨shown s document view, editor, [], .ok .continue⟩ := by
  simp [Session.onViewOpened, Synchronizer.apply, stale, shown]

theorem onViewOpened_refused {error : EditorError}
    (current : s.store.isCurrent p.origin p.generation = true)
    (refused : Editor.setSelections editor view p.selections s.synchronizer.reveal = .error error) :
    s.onViewOpened editor document (.ok view) (some p) =
      ⟨shown s document view, editor, [], .error (.editor error)⟩ := by
  simp [Session.onViewOpened, Synchronizer.apply, current, shown, Synchronizer.openFinished,
    Synchronizer.registerView, refused, bind, Except.bind]

theorem onViewOpened_written {editor' : ε}
    (current : s.store.isCurrent p.origin p.generation = true)
    (accepted : Editor.setSelections editor view p.selections s.synchronizer.reveal = .ok editor') :
    s.onViewOpened editor document (.ok view) (some p) =
      ⟨written s document view p, editor', [], .ok .continue⟩ := by
  simp [Session.onViewOpened, Synchronizer.apply, current, written, shown,
    Synchronizer.openFinished, Synchronizer.registerView, accepted, bind, Except.bind, pure,
    Except.pure]

end Completed

/-- Writes come of completed opens only, and only of snapshots that the store still holds. -/
theorem writes_eq (m : Moment ε) : m.writes =
    match m.event with
    | .viewOpened _ (.ok view) (some p) =>
      if m.session.store.isCurrent p.origin p.generation then
        [⟨view, p.selections, m.session.synchronizer.reveal⟩]
      else []
    | _ => [] := by
  obtain ⟨s, editor, event⟩ := m
  cases event with
  | viewOpened document result pending =>
    rcases result with e | view
    · rfl
    · rcases pending with _ | p
      · rfl
      · simp only [writes, Session.process]
        split
        next current => rw [onViewOpened_written current rfl]; rfl
        next stale => rw [onViewOpened_stale (by simpa using stale)]
  | notification body =>
    simp only [writes, Session.process, Session.onNotification]
    split
    · rfl
    · rfl
    · split <;> rfl
  | manualSync document view =>
    simp only [writes, Session.process]
    split <;> rfl
  | _ => rfl

theorem mem_writes_iff {m : Moment ε} {w : Write} : w ∈ m.writes ↔ ∃ document p,
    m.event = .viewOpened document (.ok w.view) (some p) ∧
    m.session.store.isCurrent p.origin p.generation = true ∧
    w.selections = p.selections ∧ w.reveal = m.session.synchronizer.reveal := by
  rw [writes_eq]
  constructor
  · intro member
    split at member
    next document view p event =>
      split at member
      next current =>
        obtain rfl := List.mem_singleton.mp member
        exact ⟨document, p, event, current, rfl, rfl⟩
      next => simp at member
    next => simp at member
  · rintro ⟨document, p, event, current, selections, reveal⟩
    simp only [event, current, if_true, List.mem_singleton, ← selections, ← reveal]

/-- A refused write leaves the editor as it is, and nothing but writes changes it. -/
theorem editor_after (m : Moment ε) : m.after.editor = m.writes.foldl (fun editor w =>
    (Editor.setSelections editor w.view w.selections w.reveal).toOption.getD editor) m.editor := by
  rw [writes_eq]
  obtain ⟨s, editor, event⟩ := m
  cases event with
  | viewOpened document result pending =>
    rcases result with e | view
    · rfl
    · rcases pending with _ | p
      · rfl
      · simp only [after, Session.process]
        split
        next current =>
          cases answer : Editor.setSelections editor view p.selections s.synchronizer.reveal with
          | error e => simp [onViewOpened_refused current answer, answer, Except.toOption]
          | ok editor' => simp [onViewOpened_written current answer, answer, Except.toOption]
        next stale => rw [onViewOpened_stale (by simpa using stale)]; rfl
  | notification body =>
    simp only [after, Session.process, Session.onNotification]
    split
    · rfl
    · rfl
    · split <;> rfl
  | manualSync document view =>
    simp only [after, Session.process]
    split <;> rfl
  | _ => rfl

theorem after_editor_of_writes {P : ε → Prop} (m : Moment ε) (start : P m.editor)
    (kept : ∀ editor editor' (w : Write), P editor →
      Editor.setSelections editor w.view w.selections w.reveal = .ok editor' → P editor') :
    P m.after.editor := by
  rw [editor_after]
  refine List.foldlRecOn m.writes _ start fun editor holds w _ => ?_
  cases written : Editor.setSelections editor w.view w.selections w.reveal with
  | error e => exact holds
  | ok editor' => exact kept editor editor' w holds written

theorem isOpening_erase (y : Synchronizer) (document other : Uri) :
    (y.opening.erase document).contains other ↔ y.isOpening other ∧ some document ≠ some other := by
  simp only [Synchronizer.isOpening, Keyed.contains, Keyed.find?_erase]
  split <;> simp_all

theorem opening_onViewOpened (s : Session) (editor : ε) (document : Uri)
    (result : Except EditorError View) (pending : Option PendingSelection) :
    (s.onViewOpened editor document result pending).session.synchronizer.opening =
      s.synchronizer.opening.erase document := by
  rcases result with e | view
  · rfl
  · rcases pending with _ | p
    · rfl
    · cases current : s.store.isCurrent p.origin p.generation with
      | false => rw [onViewOpened_stale current]; rfl
      | true =>
        cases answer : Editor.setSelections editor view p.selections s.synchronizer.reveal with
        | error e => rw [onViewOpened_refused current answer]; rfl
        | ok editor' => rw [onViewOpened_written current answer]; rfl

/-- A document is marked by each request for it; one completed open, or its closing, unmarks it. -/
theorem isOpening_after (m : Moment ε) (document : Uri) :
    m.after.session.synchronizer.isOpening document ↔
      (∃ r ∈ m.after.requests, r.document = document) ∨
      m.session.synchronizer.isOpening document ∧
        ¬(m.event.completed? = some document ∨ m.event.closed? = some document) := by
  obtain ⟨s, editor, event⟩ := m
  cases event with
  | notification body =>
    cases published : (Moment.mk s editor (.notification body)).publish? with
    | none =>
      obtain ⟨result, after⟩ := after_notification_of_none published
      simp [after, Event.completed?, Event.closed?]
    | some published' =>
      obtain ⟨product, store, requests, _, _, after⟩ := after_notification_of_some published
      simp only [after, isOpening_foldl_request]
      simp [Event.completed?, Event.closed?, Synchronizer.isOpening, Synchronizer.contentReplaced]
  | selectionChanged other view selections =>
    rw [after_selectionChanged]
    split
    · simp [Event.completed?, Event.closed?, Synchronizer.isOpening, Synchronizer.registerView]
    · split
      · simp [Event.completed?, Event.closed?, Synchronizer.isOpening, Synchronizer.registerView]
      · simp only [Session.requestAll, isOpening_foldl_request]
        simp [Event.completed?, Event.closed?, Synchronizer.isOpening, Synchronizer.registerView]
  | manualSync other view =>
    simp only [after, Session.process]
    split
    · simp [Event.completed?, Event.closed?]
    · simp [Session.requestAll, isOpening_foldl_request, Event.completed?, Event.closed?]
  | viewOpened other result pending =>
    simp only [after, Session.process, Session.requests_onViewOpened]
    rw [Synchronizer.isOpening, opening_onViewOpened, isOpening_erase]
    simp [Event.completed?, Event.closed?]
  | viewClosed other =>
    simp only [after, Session.process, Synchronizer.forgetView]
    rw [Synchronizer.isOpening, isOpening_erase]
    simp [Event.completed?, Event.closed?]
  | channelClosed => simp [after, Session.process, Event.completed?, Event.closed?]
  | shutdown => simp [after, Session.process, Event.completed?, Event.closed?]

theorem after_absorbed {s : Session} {editor : ε} {document : Uri} {view : View}
    {selections : List Span} (absorbed : s.synchronizer.isOpening document ∨
      s.synchronizer.echoes.written.find? document = some selections) :
    let step := (Moment.mk s editor (.selectionChanged document view selections)).after
    step.requests = [] ∧ step.session.store = s.store := by
  intro step
  simp only [step, after_selectionChanged]
  by_cases opening : s.synchronizer.isOpening document
  · rw [if_pos opening]
    exact ⟨rfl, rfl⟩
  · rw [if_neg opening, if_pos (absorbed.resolve_left opening)]
    exact ⟨rfl, rfl⟩

theorem after_gesture {s : Session} {editor : ε} {document : Uri} {view : View}
    {selections : List Span} (opening : s.synchronizer.isOpening document = false)
    (echo : s.synchronizer.echoes.written.find? document ≠ some selections) :
    let step := (Moment.mk s editor (.selectionChanged document view selections)).after
    step.requests = (s.gesture document view selections).1.map Session.OpenRequest.of ∧
    step.session.store = (s.gesture document view selections).2 := by
  intro step
  have notOpening : ¬s.synchronizer.isOpening document = true := by simp [opening]
  simp only [step, after_selectionChanged, if_neg notOpening, if_neg echo]
  rw [Session.requestAll, foldl_request]
  exact ⟨rfl, rfl⟩

end Moment

end LinkedViews
