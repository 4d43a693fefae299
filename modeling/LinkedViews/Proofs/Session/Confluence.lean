import LinkedViews.Proofs.Session.Accounts
import LinkedViews.Proofs.Session.Concurrent
import LinkedViews.Proofs.View.FanOut

/-! In whatever order the tasks of a session go, it comes to the same. The opens under way are of
different documents, so each document can be foreseen by itself: as it is, or as it will be once its
open came back. No task changes what is foreseen. -/
namespace LinkedViews

theorem Synchronizer.nodup_gesture (y : Synchronizer) (store : Store) (document : Uri)
    (selections : List Span) :
    ((y.gesture store document selections).1.map PendingSelection.document).Nodup := by
  have single (pending : Option PendingSelection) :
      (pending.toList.map PendingSelection.document).Nodup := by
    cases pending <;> simp
  unfold gesture
  split
  · exact single _
  · exact (store.nodup_linkedTargets document).filter _ |>.sublist (sublist_routeForward ..)

theorem Synchronizer.nodup_manualSync (y : Synchronizer) (store : Store) (document : Uri)
    (selections : List Span) :
    ((y.manualSync store document selections).1.map PendingSelection.document).Nodup := by
  unfold manualSync
  split
  · simp
  · exact (store.nodup_linkedTargets document).filter _ |>.sublist (sublist_routeForward ..)

namespace Moment

theorem nodup_requests {ε : Type} [Editor ε] (m : Moment ε) :
    (m.after.requests.map OpenRequest.document).Nodup := by
  have pending (all : List PendingSelection) (nodup : (all.map PendingSelection.document).Nodup) :
      ((all.map Session.OpenRequest.of).map OpenRequest.document).Nodup := by
    rwa [List.map_map]
  obtain ⟨s, editor, event⟩ := m
  cases event with
  | notification body =>
    simp only [after, Session.process, Session.onNotification]
    split
    · simp
    · simp
    · split <;> simp
  | selectionChanged document view selections =>
    rw [after_selectionChanged]
    split
    · simp
    · split
      · simp
      · exact pending _ (Synchronizer.nodup_gesture _ _ _ _)
  | manualSync document view =>
    simp only [after, Session.process]
    split
    · simp
    · exact pending _ (Synchronizer.nodup_manualSync _ _ _ _)
  | viewOpened document result pending =>
    simp [after, Session.process, Session.requests_onViewOpened]
  | channelClosed => simp [after, Session.process]
  | viewClosed document => simp [after, Session.process]
  | shutdown => simp [after, Session.process]

theorem editor_of_opens {ε : Type} [Editor ε] {m : Moment ε} (asks : m.event.opens = 0) :
    m.after.editor = m.editor := by
  have silent : m.writes = [] := by
    rw [writes_eq]
    cases event : m.event <;> simp_all [Event.opens]
  rw [editor_after, silent]
  rfl

end Moment

theorem Session.Similar.settings {s s' : Session} (similar : s.Similar s') : s.SameSettings s' :=
  ⟨similar.documents, similar.policy, similar.synchronizer.targetPlacement,
    similar.synchronizer.sourcePlacement, similar.synchronizer.reveal⟩

/-- A document as the session and the editor have it. -/
structure DocumentState where
  isOpen : Bool
  echo : Option (List Span)
  shown : Bool
  selections : List Span

namespace DocumentState

def complete (o : DocumentState) : Option PendingSelection → DocumentState
  | none => ⟨true, o.echo, true, if o.shown then o.selections else [.caret 0]⟩
  | some p => ⟨true, some p.selections, true, p.selections⟩

/-- The document has new content. It is opened if it is to be shown and is not open. -/
def replace (o : DocumentState) (display : Display) : DocumentState :=
  let o := { o with echo := none }
  if display = .present ∧ o.isOpen = false then o.complete none else o

end DocumentState

/-- What is to become of a store and of each document. -/
structure FinalState where
  store : Store
  documents : Uri → DocumentState

def FinalState.receive (policy : Policy) (o : FinalState) : Event → FinalState
  | .notification body =>
    match o.store.receive policy body with
    | .ok (some published, store) => ⟨store, fun d =>
        if published.target = d then (o.documents d).replace published.display else o.documents d⟩
    | _ => o
  | _ => o

theorem Keyed.findIn_of_perm {κ α : Type} [DecidableEq κ] {entries entries' : List (κ × α)}
    (nodup : (entries.map Prod.fst).Nodup) (perm : entries.Perm entries') (key : κ) :
    findIn key entries' = findIn key entries := by
  have nodup' := ((perm.map Prod.fst).nodup_iff).mp nodup
  ext value
  rw [← mem_iff_findIn nodup, ← mem_iff_findIn nodup', perm.mem_iff]

theorem Keyed.findIn_eq_none {κ α : Type} [DecidableEq κ] {entries : List (κ × α)} {key : κ}
    (absent : key ∉ entries.map Prod.fst) : findIn key entries = none := by
  induction entries with
  | nil => rfl
  | cons e entries ih =>
    rw [List.map_cons, List.mem_cons, not_or] at absent
    rw [findIn, if_neg (Ne.symm absent.1), ih absent.2]

namespace ConcurrentState

def documentState (x : ConcurrentState) (document : Uri) : DocumentState where
  isOpen := x.session.synchronizer.isOpen document
  echo := x.session.synchronizer.echoes.written.find? document
  shown := (x.editor.viewOf? document).isSome
  selections := x.editor.selectionsOf document

/-- The opens that the session waits for. -/
def underWay (x : ConcurrentState) : List (Uri × Option PendingSelection) :=
  x.requested.map OpenRequest.key ++ x.opened.flatMap Event.keys

/-- With all that is under way completed. -/
def settled (x : ConcurrentState) : FinalState where
  store := x.session.store
  documents d := (Keyed.findIn d x.underWay).elim (x.documentState d) (x.documentState d).complete

/-- With all that is still to be read received after that. -/
def finalState (x : ConcurrentState) : FinalState :=
  x.incoming.foldl (FinalState.receive x.session.policy) x.settled

/-- The opens under way are those that the session counts. What is to be written is of a snapshot
that the store still holds. -/
structure Sound (x : ConcurrentState) : Prop where
  ready : x.editor.Ready
  opened : ∀ event ∈ x.opened, ∃ document view pending,
    event = .viewOpened document (.ok view) pending ∧ x.editor.viewOf? document = some view
  nodup : (x.underWay.map Prod.fst).Nodup
  opening : ∀ d, x.session.synchronizer.isOpening d ↔ d ∈ x.underWay.map Prod.fst
  pendingOpens : x.session.pendingOpens = x.underWay.length
  current : ∀ d p, (d, some p) ∈ x.underWay →
    p.document = d ∧ x.session.store.isCurrent p.origin p.generation

variable {x y : ConcurrentState}

theorem underWay_openView {front back : List OpenRequest} {r : OpenRequest} {editor : HeadlessEditor}
    {result : Except EditorError View} (asked : x.requested = front ++ r :: back) :
    x.underWay.Perm ({ x with
      editor := editor
      requested := front ++ back
      opened := x.opened ++ [.viewOpened r.document result r.pending] } : ConcurrentState).underWay := by
  have before : x.underWay = front.map OpenRequest.key ++ r.key ::
      (back.map OpenRequest.key ++ x.opened.flatMap Event.keys) := by
    simp [underWay, asked]
  have after : ({ x with
      editor := editor
      requested := front ++ back
      opened := x.opened ++ [.viewOpened r.document result r.pending] } : ConcurrentState).underWay =
      front.map OpenRequest.key ++
        (back.map OpenRequest.key ++ x.opened.flatMap Event.keys ++ [r.key]) := by
    simp [underWay, Event.keys, OpenRequest.key]
  rw [before, after]
  exact (List.perm_append_singleton _ _).symm.append_left _

/-- The editor shows the document of an open, and has a caret in it if it is new there. -/
theorem documentState_openView {document : Uri} {placement : Placement} (ready : x.editor.Ready)
    (session : y.session = x.session) (editor : y.editor = (x.editor.complete document placement).2)
    (d : Uri) : y.documentState d = { x.documentState d with
      shown := decide (document = d) || (x.documentState d).shown
      selections := if document = d ∧ x.editor.viewOf? document = none then [.caret 0]
        else (x.documentState d).selections } := by
  have shown : (y.editor.viewOf? d).isSome = (decide (document = d) || (x.editor.viewOf? d).isSome) := by
    rw [editor]
    exact x.editor.isSome_viewOf?_openNow document d
  have selections : y.editor.selectionsOf d =
      if document = d ∧ x.editor.viewOf? document = none then [.caret 0]
      else x.editor.selectionsOf d := by
    rw [editor]
    exact HeadlessEditor.selectionsOf_openNow ready.paired document d
  simp only [documentState, session, shown, selections]

/-- Only the document itself is seen otherwise after an open, and its completion was foreseen. -/
theorem settled_openView {document : Uri} {pending : Option PendingSelection} {placement : Placement}
    (sound : x.Sound) (session : y.session = x.session)
    (editor : y.editor = (x.editor.complete document placement).2)
    (among : (document, pending) ∈ x.underWay) (perm : x.underWay.Perm y.underWay) :
    y.settled = x.settled := by
  rw [settled, settled, session]
  congr 1
  funext d
  rw [Keyed.findIn_of_perm sound.nodup perm, documentState_openView sound.ready session editor]
  by_cases same : document = d
  · subst same
    have found : Keyed.findIn document x.underWay = some pending :=
      (Keyed.mem_iff_findIn sound.nodup).mp among
    rw [found]
    cases pending with
    | some p => rfl
    | none =>
      cases known : x.editor.viewOf? document <;>
        simp [DocumentState.complete, documentState, known]
  · simp [same]

theorem Sound.openView {front back : List OpenRequest} {r : OpenRequest}
    {result : Except EditorError View} {editor : HeadlessEditor} (sound : x.Sound)
    (asked : x.requested = front ++ r :: back)
    (opened : x.editor.openView r.document r.placement = (some result, editor)) :
    let y : ConcurrentState := { x with
      editor := editor
      requested := front ++ back
      opened := x.opened ++ [.viewOpened r.document result r.pending] }
    y.Sound ∧ y.settled = x.settled ∧ x.underWay.Perm y.underWay := by
  intro y
  rw [HeadlessEditor.openView_of_released sound.ready.unfailing sound.ready.released] at opened
  obtain ⟨rfl, rfl⟩ : _ = result ∧ _ = editor := by simpa using opened
  have perm : x.underWay.Perm y.underWay := underWay_openView asked
  have among : (r.document, r.pending) ∈ x.underWay :=
    List.mem_append_left _ (List.mem_map.mpr ⟨r, by simp [asked], rfl⟩)
  refine ⟨?_, settled_openView sound rfl rfl among perm, perm⟩
  constructor
  case ready => exact sound.ready.complete _ _
  case opened =>
    intro event among
    rcases List.mem_append.mp among with before | new
    · obtain ⟨document, view, pending, rfl, known⟩ := sound.opened event before
      exact ⟨document, view, pending, rfl,
        HeadlessEditor.viewOf?_openNow_of_known known r.document⟩
    · exact ⟨r.document, _, r.pending, List.mem_singleton.mp new,
        x.editor.viewOf?_openNow r.document⟩
  case nodup => exact (perm.map Prod.fst).nodup_iff.mp sound.nodup
  case opening => exact fun d => (sound.opening d).trans (perm.map Prod.fst).mem_iff
  case pendingOpens => exact sound.pendingOpens.trans perm.length_eq
  case current => exact fun d p waits => sound.current d p (perm.mem_iff.mpr waits)

def writeOf (reveal : Reveal) (key : Uri × Option PendingSelection) : Option Applied :=
  key.2.map fun p => ⟨key.1, p.selections, reveal⟩

/-- What comes of a completed open: the document is open, and what was pending is written. -/
structure Completes (x : ConcurrentState) (document : Uri) (pending : Option PendingSelection)
    (y : ConcurrentState) : Prop where
  ready : y.editor.Ready
  views : y.editor.views = x.editor.views
  documentState : ∀ d, y.documentState d =
    if document = d then (x.documentState d).complete pending else x.documentState d
  logs : x.editor.Logs [] (writeOf x.session.synchronizer.reveal (document, pending)).toList y.editor

theorem isOpen_registered (y : Synchronizer) (document : Uri) (view : View) (d : Uri) :
    (y.registerView document view).isOpen d = if document = d then true else y.isOpen d := by
  rw [Bool.eq_iff_iff, Synchronizer.isOpen_registerView]
  split <;> simp_all

theorem completes_written {document : Uri} {view : View} {p : PendingSelection}
    (ready : x.editor.Ready) (known : x.editor.viewOf? document = some view)
    (same : p.document = document) (held : x.session.store.isCurrent p.origin p.generation) :
    x.Completes document (some p) (x.process (.viewOpened document (.ok view) (some p))) := by
  obtain ⟨editor, accepted, writes⟩ := HeadlessEditor.writes_setSelections ready.paired known
    p.selections x.session.synchronizer.reveal
  have processed : x.process (.viewOpened document (.ok view) (some p)) = { x with
      session := Moment.written x.session document view p
      editor := editor
      requested := x.requested ++ [] } := by
    have written : x.session.onViewOpened x.editor document (.ok view) (some p) =
        ⟨Moment.written x.session document view p, editor, [], .ok .continue⟩ :=
      Moment.onViewOpened_written held accepted
    simp only [ConcurrentState.process, Session.process, written]
  rw [processed]
  refine ⟨ready.setSelections known accepted, writes.views, fun d => ?_,
    ⟨by simp [writes.opens], writes.applied⟩⟩
  have observed : ({ x with
      session := Moment.written x.session document view p
      editor := editor
      requested := x.requested ++ [] } : ConcurrentState).documentState d =
      ⟨((x.session.synchronizer.registerView document view).registerView p.document view).isOpen d,
        (x.session.synchronizer.echoes.record p.document p.selections).written.find? d,
        (editor.viewOf? d).isSome, editor.selectionsOf d⟩ := rfl
  rw [observed, same, Echoes.find?_record, isOpen_registered, isOpen_registered]
  by_cases here : document = d
  · subst here
    simp [DocumentState.complete, writes.shown, writes.here]
  · simp only [if_neg here, writes.unmoved d (Ne.symm here), writes.elsewhere d (Ne.symm here)]
    rfl

theorem completes_viewOpened {document : Uri} {view : View} {pending : Option PendingSelection}
    (ready : x.editor.Ready) (known : x.editor.viewOf? document = some view)
    (current : ∀ p ∈ pending, p.document = document ∧
      x.session.store.isCurrent p.origin p.generation) :
    x.Completes document pending (x.process (.viewOpened document (.ok view) pending)) := by
  cases pending with
  | some p =>
    obtain ⟨same, held⟩ := current p rfl
    exact completes_written ready known same held
  | none =>
    refine ⟨ready, rfl, fun d => ?_, .refl _⟩
    have observed : (x.process (.viewOpened document (.ok view) none)).documentState d =
        { x.documentState d with
          isOpen := (x.session.synchronizer.registerView document view).isOpen d } := rfl
    rw [observed, isOpen_registered]
    split
    next same =>
      subst same
      simp [DocumentState.complete, documentState, known]
    next => rfl

theorem underWay_complete {front back : List Event} {document : Uri} {view : View}
    {pending : Option PendingSelection}
    (waits : x.opened = front ++ .viewOpened document (.ok view) pending :: back) :
    x.underWay.Perm ((document, pending) :: (({ x with opened := front ++ back }).process
      (.viewOpened document (.ok view) pending)).underWay) := by
  have silent := x.session.requests_onViewOpened x.editor document (.ok view) pending
  have after : (({ x with opened := front ++ back }).process
      (.viewOpened document (.ok view) pending)).underWay =
      x.requested.map OpenRequest.key ++ (front ++ back).flatMap Event.keys := by
    simp only [underWay, process, Session.process, silent, List.append_nil]
  have before : x.underWay = (x.requested.map OpenRequest.key ++ front.flatMap Event.keys) ++
      (document, pending) :: back.flatMap Event.keys := by
    simp [underWay, waits, Event.keys]
  rw [after, before, List.flatMap_append, ← List.append_assoc]
  exact List.perm_middle

/-- No other open of the document is under way, so what comes of this one is what was foreseen. -/
theorem settled_complete {document : Uri} {pending : Option PendingSelection}
    (nodup : (x.underWay.map Prod.fst).Nodup) (store : y.session.store = x.session.store)
    (perm : x.underWay.Perm ((document, pending) :: y.underWay))
    (completes : x.Completes document pending y) : y.settled = x.settled := by
  rw [settled, settled, store]
  congr 1
  funext d
  rw [completes.documentState d, ← Keyed.findIn_of_perm nodup perm, Keyed.findIn]
  split
  next same =>
    subst same
    have apart := (List.nodup_cons.mp ((perm.map Prod.fst).nodup_iff.mp nodup)).1
    rw [Keyed.findIn_eq_none apart]
    rfl
  next => rfl

theorem Sound.complete {front back : List Event} {event : Event} (sound : x.Sound)
    (waits : x.opened = front ++ event :: back) :
    let y := ({ x with opened := front ++ back }).process event
    y.Sound ∧ y.settled = x.settled ∧ ∃ document pending,
      x.underWay.Perm ((document, pending) :: y.underWay) ∧ x.Completes document pending y := by
  intro y
  obtain ⟨document, view, pending, rfl, known⟩ := sound.opened event (by simp [waits])
  have perm : x.underWay.Perm ((document, pending) :: y.underWay) := underWay_complete waits
  obtain ⟨apart, nodup⟩ := List.nodup_cons.mp ((perm.map Prod.fst).nodup_iff.mp sound.nodup)
  have mem {key : Uri × Option PendingSelection} (left : key ∈ (document, pending) :: y.underWay) :
      key ∈ x.underWay := perm.mem_iff.mpr left
  have current (p : PendingSelection) (waiting : p ∈ pending) : p.document = document ∧
      x.session.store.isCurrent p.origin p.generation := by
    obtain rfl : pending = some p := waiting
    exact sound.current document p (mem List.mem_cons_self)
  have completes : x.Completes document pending y := by
    obtain ⟨ready, views, documentState, logs⟩ := completes_viewOpened
      (x := { x with opened := front ++ back }) sound.ready known current
    exact ⟨ready, views, documentState, logs⟩
  have store : y.session.store = x.session.store := Moment.store_onViewOpened _ _ _ _ _
  refine ⟨?_, settled_complete sound.nodup store perm completes, document, pending, perm, completes⟩
  constructor
  case ready => exact completes.ready
  case opened =>
    intro event left
    have before : event ∈ x.opened := by
      rw [waits]
      rcases List.mem_append.mp left with front | back
      · exact List.mem_append_left _ front
      · exact List.mem_append_right _ (List.mem_cons_of_mem _ back)
    obtain ⟨d, v, p, rfl, known'⟩ := sound.opened event before
    exact ⟨d, v, p, rfl, by rwa [HeadlessEditor.viewOf?, completes.views]⟩
  case nodup => exact nodup
  case opening =>
    intro d
    have marked := (Moment.mk x.session x.editor
      (.viewOpened document (.ok view) pending)).isOpening_after d
    rw [Moment.requests_of_opens rfl] at marked
    simp only [Event.completed?, Event.closed?, List.not_mem_nil, false_and, exists_false, false_or,
      Option.some.injEq, reduceCtorEq, or_false] at marked
    refine marked.trans ?_
    rw [sound.opening d, (perm.map Prod.fst).mem_iff, List.map_cons, List.mem_cons]
    constructor
    · rintro ⟨rfl | left, other⟩
      · contradiction
      · exact left
    · intro left
      exact ⟨.inr left, fun same => apart (same ▸ left)⟩
  case pendingOpens =>
    have counted : y.session.pendingOpens = x.session.pendingOpens - 1 :=
      (Moment.counts_onViewOpened _ _ _ _ _).1
    rw [counted, sound.pendingOpens, perm.length_eq, List.length_cons, Nat.add_sub_cancel]
  case current =>
    intro d p left
    rw [store]
    exact sound.current d p (mem (List.mem_cons_of_mem _ left))

theorem underWay_process (x : ConcurrentState) (event : Event) : (x.process event).underWay.Perm
    ((x.session.process x.editor event).requests.map OpenRequest.key ++ x.underWay) := by
  have after : (x.process event).underWay = x.requested.map OpenRequest.key ++
      ((x.session.process x.editor event).requests.map OpenRequest.key ++
        x.opened.flatMap Event.keys) := by
    simp [underWay, process]
  rw [after, underWay]
  exact List.perm_append_comm_assoc _ _ _

theorem Sound.process {event : Event} (sound : x.Sound) (asks : event.opens = 0)
    (closes : event.closed? = none ∨ x.underWay = [])
    (apart : ∀ r ∈ (x.session.process x.editor event).requests, r.document ∉ x.underWay.map Prod.fst)
    (kept : (Moment.mk x.session x.editor event).publish? = none ∨
      ∀ key ∈ x.underWay, key.2 = none) : (x.process event).Sound := by
  let m : Moment HeadlessEditor := ⟨x.session, x.editor, event⟩
  have editor : (x.process event).editor = x.editor := Moment.editor_of_opens (m := m) asks
  have perm : (x.process event).underWay.Perm
      (m.after.requests.map OpenRequest.key ++ x.underWay) := x.underWay_process event
  have documents : (m.after.requests.map OpenRequest.key).map Prod.fst =
      m.after.requests.map OpenRequest.document := by
    rw [List.map_map]
    rfl
  constructor
  case ready => exact editor ▸ sound.ready
  case opened => exact editor ▸ sound.opened
  case nodup =>
    rw [(perm.map Prod.fst).nodup_iff, List.map_append, documents, List.nodup_append]
    refine ⟨m.nodup_requests, sound.nodup, ?_⟩
    rintro _ asked _ waits rfl
    obtain ⟨r, among, rfl⟩ := List.mem_map.mp asked
    exact apart r among waits
  case opening =>
    intro d
    have marked := m.isOpening_after d
    have still : ¬m.event.completed? = some d := by
      cases event <;> simp_all [m, Event.completed?, Event.opens]
    rw [(perm.map Prod.fst).mem_iff, List.map_append, documents, List.mem_append, ← sound.opening d]
    refine marked.trans (or_congr List.mem_map.symm ⟨And.left, fun opening => ⟨opening, ?_⟩⟩)
    rcases closes with never | idle
    · simp [still, m, never]
    · rw [sound.opening d, idle] at opening
      contradiction
  case pendingOpens =>
    have counted := m.counts_after.1
    rw [perm.length_eq, List.length_append, List.length_map, ← sound.pendingOpens]
    change m.after.session.pendingOpens = _
    rw [counted]
    simp only [m, asks]
    omega
  case current =>
    intro d p among
    rcases List.mem_append.mp (perm.mem_iff.mp among) with asked | waits
    · obtain ⟨r, new, key⟩ := List.mem_map.mp asked
      obtain ⟨rfl, pending⟩ : r.document = d ∧ r.pending = some p := Prod.mk.inj key
      refine ⟨?_, Moment.current_of_request (m := m) new pending⟩
      rcases Moment.carries_of_request new with empty | ⟨p', _, _, _, _, rfl, -⟩
      · rw [empty] at pending
        contradiction
      · exact congrArg PendingSelection.document (Option.some.inj pending).symm
    · obtain ⟨document, current⟩ := sound.current d p waits
      -- A publish would make the snapshot stale, but none comes while a write is to be made.
      refine ⟨document, Moment.isCurrent_after (m := m) current fun published publishes => ?_⟩
      rcases kept with silent | plain
      · rw [silent] at publishes
        contradiction
      · have := plain _ waits
        contradiction

theorem requests_notification {body : Bytes} {r : OpenRequest}
    (asked : r ∈ (x.session.process x.editor (.notification body)).requests) :
    r.pending = none ∧ x.session.synchronizer.isOpening r.document = false := by
  simp only [Session.process, Session.onNotification] at asked
  split at asked
  · simp at asked
  · simp at asked
  · split at asked
    next unopened =>
      obtain rfl := List.mem_singleton.mp asked
      exact ⟨rfl, unopened.2.2⟩
    next => simp at asked

/-- A session asks for the target of a product that is to be shown and neither open nor about to be. -/
def Wanted (x : ConcurrentState) (published : Published) : Prop :=
  published.display = .present ∧ x.session.synchronizer.isOpen published.target = false ∧
    x.session.synchronizer.isOpening published.target = false

/-- What comes of a product that is stored. -/
structure Stores (x : ConcurrentState) (published : Published) (store : Store)
    (y : ConcurrentState) : Prop where
  store : y.session.store = store
  documentState : ∀ d, y.documentState d =
    if published.target = d then { x.documentState d with echo := none } else x.documentState d
  asked : x.Wanted published → ((published.target, none) :: x.underWay).Perm y.underWay
  unasked : ¬x.Wanted published → y.underWay = x.underWay

theorem stores_notification {body : Bytes} {published : Published} {store : Store}
    (received : x.session.store.receive x.session.policy body = .ok (some published, store)) :
    x.Stores published store (x.process (.notification body)) := by
  let synchronizer := x.session.synchronizer.contentReplaced published.target
  let stored : Session := { x.session with store := store, synchronizer := synchronizer }
  let r : OpenRequest := ⟨published.target, synchronizer.targetPlacement, none⟩
  have echo (d : Uri) : ({ x.documentState d with echo := synchronizer.echoes.written.find? d }) =
      if published.target = d then { x.documentState d with echo := none } else x.documentState d := by
    rw [show synchronizer.echoes.written.find? d = _ from
      x.session.synchronizer.echoes.find?_forget published.target d]
    split <;> rfl
  by_cases wanted : x.Wanted published
  · have processed : x.process (.notification body) = { x with
        session := stored.request r
        requested := x.requested ++ [r] } := by
      simp only [ConcurrentState.process, Session.process, Session.onNotification, received]
      split
      next => rfl
      next unwanted => exact absurd wanted unwanted
    rw [processed]
    refine ⟨rfl, echo, fun _ => ?_, fun unwanted => absurd wanted unwanted⟩
    simp only [underWay, List.map_append, List.append_assoc]
    exact List.perm_middle.symm
  · have processed : x.process (.notification body) = { x with session := stored } := by
      simp only [ConcurrentState.process, Session.process, Session.onNotification, received]
      split
      next asked => exact absurd asked wanted
      next => simp [stored, synchronizer]
    rw [processed]
    exact ⟨rfl, echo, fun asked => absurd asked wanted, fun _ => rfl⟩

theorem Stores.settled {published : Published} {store : Store} (stores : x.Stores published store y)
    (sound : x.Sound) (plain : ∀ key ∈ x.underWay, key.2 = none) : y.settled = ⟨store, fun d =>
      if published.target = d then (x.settled.documents d).replace published.display
      else x.settled.documents d⟩ := by
  rw [ConcurrentState.settled, stores.store]
  congr 1
  funext d
  rw [stores.documentState d]
  have opening := sound.opening published.target
  by_cases wanted : x.Wanted published
  · have apart : published.target ∉ x.underWay.map Prod.fst := by
      rw [← opening, wanted.2.2]
      simp
    have nodup : (((published.target, none) :: x.underWay).map Prod.fst).Nodup :=
      List.nodup_cons.mpr ⟨apart, sound.nodup⟩
    rw [Keyed.findIn_of_perm nodup (stores.asked wanted), Keyed.findIn]
    by_cases same : published.target = d
    · subst same
      have closed : published.display = .present ∧ (x.documentState published.target).isOpen = false :=
        ⟨wanted.1, wanted.2.1⟩
      simp only [if_true, Option.elim_some, ConcurrentState.settled, Keyed.findIn_eq_none apart,
        Option.elim_none, DocumentState.replace, if_pos closed]
    · simp only [if_neg same, ConcurrentState.settled]
  · rw [stores.unasked wanted]
    split
    next same =>
      subst same
      cases found : Keyed.findIn published.target x.underWay with
      | none =>
        have known : ¬(published.display = .present ∧
            (x.documentState published.target).isOpen = false) := by
          rintro ⟨display, closed⟩
          refine wanted ⟨display, closed, ?_⟩
          rw [← Bool.not_eq_true, opening]
          intro waits
          obtain ⟨⟨_, pending⟩, among, rfl⟩ := List.mem_map.mp waits
          rw [(Keyed.mem_iff_findIn sound.nodup).mp among] at found
          contradiction
        simp only [ConcurrentState.settled, found, Option.elim_none, DocumentState.replace,
          if_neg known]
      | some pending =>
        obtain rfl : pending = none := plain _ ((Keyed.mem_iff_findIn sound.nodup).mpr found)
        simp [ConcurrentState.settled, found, DocumentState.replace, DocumentState.complete]
    next => rfl

theorem settled_notification {body : Bytes} (sound : x.Sound)
    (plain : ∀ key ∈ x.underWay, key.2 = none) : (x.process (.notification body)).settled =
      x.settled.receive x.session.policy (.notification body) := by
  have unchanged (result : Except SessionError Flow) (silent : x.session.process x.editor
      (.notification body) = ⟨x.session, x.editor, [], result⟩) :
      x.process (.notification body) = x := by
    simp [ConcurrentState.process, silent]
  have store : x.settled.store = x.session.store := rfl
  cases received : x.session.store.receive x.session.policy body with
  | error e =>
    rw [unchanged (.error (.malformed e)) (by
      simp only [Session.process, Session.onNotification, received])]
    simp only [FinalState.receive, store, received]
  | ok heard =>
    obtain ⟨_ | published, store'⟩ := heard
    · rw [unchanged (.ok .continue) (by
        simp only [Session.process, Session.onNotification, received])]
      simp only [FinalState.receive, store, received]
    · rw [(stores_notification received).settled sound plain]
      simp only [FinalState.receive, store, received]

/-- Nothing is to be written as long as something is still to be read. -/
structure Invariant (x : ConcurrentState) : Prop extends Sound x where
  received : ∀ event ∈ x.incoming, event = .channelClosed ∨ ∃ body, event = .notification body
  readers : x.session.readers = tally Event.ends x.incoming
  plain : x.incoming ≠ [] → ∀ key ∈ x.underWay, key.2 = none

theorem settings_of_next (next : x.Next y) : x.session.SameSettings y.session := by
  cases next with
  | @receive event later first => exact Moment.settings_after ⟨x.session, x.editor, event⟩
  | openView asked opened => exact ⟨rfl, rfl, rfl, rfl, rfl⟩
  | @complete front back event waits => exact Moment.settings_after ⟨x.session, x.editor, event⟩

theorem Invariant.receive {event : Event} {later : List Event} (inv : x.Invariant)
    (first : x.incoming = event :: later) :
    let y := ({ x with incoming := later }).process event
    y.Invariant ∧ y.settled = x.settled.receive x.session.policy event := by
  intro y
  let z : ConcurrentState := { x with incoming := later }
  have plain := inv.plain (by simp [first])
  have sound : z.Sound := ⟨inv.ready, inv.opened, inv.nodup, inv.opening, inv.pendingOpens, inv.current⟩
  have received (other : Event) (among : other ∈ later) :=
    inv.received other (first ▸ List.mem_cons_of_mem _ among)
  have readers := inv.readers
  have ended : y.session.readers = x.session.readers - event.ends :=
    (Moment.counts_after ⟨x.session, x.editor, event⟩).2
  rw [first, tally_cons] at readers
  have left : y.session.readers = tally Event.ends later := by omega
  rcases inv.received event (by simp [first]) with rfl | ⟨body, rfl⟩
  · have same : y.underWay = x.underWay := by
      simp [y, underWay, process, Session.process]
    refine ⟨⟨?_, received, left, fun _ => same ▸ plain⟩, ?_⟩
    · exact sound.process rfl (.inl rfl) (by simp [Session.process]) (.inl rfl)
    · rw [settled, same]
      rfl
  · have apart (r : OpenRequest)
        (asked : r ∈ (z.session.process z.editor (.notification body)).requests) :
        r.document ∉ z.underWay.map Prod.fst := by
      rw [← sound.opening, (requests_notification asked).2]
      simp
    refine ⟨⟨sound.process rfl (.inl rfl) apart (.inr plain), received, left, fun _ key among => ?_⟩,
      settled_notification sound plain⟩
    rcases List.mem_append.mp ((z.underWay_process _).mem_iff.mp among) with new | old
    · obtain ⟨r, asked, rfl⟩ := List.mem_map.mp new
      exact (requests_notification asked).1
    · exact plain key old

theorem Invariant.next (inv : x.Invariant) (next : x.Next y) :
    y.Invariant ∧ y.finalState = x.finalState := by
  have policy := (settings_of_next next).policy
  cases next with
  | @receive event later first =>
    obtain ⟨inv', settled⟩ := inv.receive first
    refine ⟨inv', ?_⟩
    rw [finalState, finalState, policy, settled, first, List.foldl_cons]
    rfl
  | @openView front back r result editor asked opened =>
    obtain ⟨sound, settled, perm⟩ := inv.toSound.openView asked opened
    refine ⟨⟨sound, inv.received, inv.readers, fun some key among => ?_⟩, ?_⟩
    · exact inv.plain some key (perm.mem_iff.mpr among)
    · rw [finalState, settled]
      rfl
  | @complete front back event waits =>
    obtain ⟨sound, settled, document, pending, perm, -⟩ := inv.toSound.complete waits
    have readers := (Moment.counts_after ⟨x.session, x.editor, event⟩).2
    obtain ⟨_, _, _, rfl, -⟩ := inv.opened event (by simp [waits])
    refine ⟨⟨sound, inv.received, readers.trans inv.readers, fun some key among => ?_⟩, ?_⟩
    · exact inv.plain some key (perm.mem_iff.mpr (List.mem_cons_of_mem _ among))
    · rw [finalState, finalState, policy, settled]
      rfl

/-- Any number of steps, by induction on them. -/
theorem Invariant.reaches (inv : x.Invariant) (reaches : x.Reaches y) :
    y.Invariant ∧ y.finalState = x.finalState ∧ x.session.SameSettings y.session := by
  induction reaches with
  | refl => exact ⟨inv, rfl, rfl, rfl, rfl, rfl, rfl⟩
  | tail _ next ih =>
    obtain ⟨before, same, settings⟩ := ih
    obtain ⟨after, same'⟩ := before.next next
    exact ⟨after, same'.trans same, settings.trans (settings_of_next next)⟩

/-- At rest everything that is foreseen has come. -/
theorem Invariant.similar_of_rest (inv : x.Invariant) (inv' : y.Invariant) (rest : x.AtRest)
    (rest' : y.AtRest) (settings : x.session.SameSettings y.session)
    (same : y.finalState = x.finalState) : Similar x y := by
  have idle (z : ConcurrentState) (rest : z.AtRest) : z.underWay = [] := by
    simp [underWay, rest.requested, rest.opened]
  have seen (z : ConcurrentState) (rest : z.AtRest) :
      z.finalState = ⟨z.session.store, z.documentState⟩ := by
    rw [finalState, rest.incoming, List.foldl_nil, settled, idle z rest]
    rfl
  rw [seen x rest, seen y rest', FinalState.mk.injEq] at same
  -- With nothing under way each document is seen as it is.
  obtain ⟨store, observed⟩ := same
  have closed (z : ConcurrentState) (inv : z.Invariant) (rest : z.AtRest) (d : Uri) :
      z.session.synchronizer.isOpening d = false := by
    rw [← Bool.not_eq_true, inv.opening, idle z rest]
    simp
  have at_ (d : Uri) : y.documentState d = x.documentState d := congrFun observed d
  constructor
  case session =>
    constructor
    case store => exact store
    case documents => exact settings.documents
    case policy => exact settings.policy
    case synchronizer =>
      exact ⟨fun d => congrArg DocumentState.isOpen (at_ d),
        fun d => (closed y inv' rest' d).trans (closed x inv rest d).symm,
        fun d => congrArg DocumentState.echo (at_ d), settings.targetPlacement,
        settings.sourcePlacement, settings.reveal⟩
    case pendingOpens => rw [inv.pendingOpens, inv'.pendingOpens, idle x rest, idle y rest']
    case readers => rw [inv.readers, inv'.readers, rest.incoming, rest'.incoming]
  case editor =>
    exact ⟨fun d => congrArg DocumentState.shown (at_ d),
      fun d => congrArg DocumentState.selections (at_ d)⟩
  case ready => exact inv.ready
  case ready' => exact inv'.ready
  case received => rw [rest.incoming, rest'.incoming]; exact .nil
  case requested => rw [rest.requested, rest'.requested]
  case opened => rw [rest.opened, rest'.opened]; exact .nil

def allOpens (x : ConcurrentState) : List Opened :=
  x.editor.opens ++ x.requested.map fun r => ⟨r.document, r.placement⟩

def allApplied (x : ConcurrentState) : List Applied :=
  x.editor.applied ++ x.underWay.filterMap (writeOf x.session.synchronizer.reveal)

/-- With nothing to be read, no step changes what will have been logged, but for its order. -/
theorem Invariant.logs_of_next (inv : x.Invariant) (read : x.incoming = []) (next : x.Next y) :
    y.incoming = [] ∧ y.allOpens.Perm x.allOpens ∧ y.allApplied.Perm x.allApplied := by
  have reveal := (settings_of_next next).reveal
  cases next with
  | receive first =>
    rw [read] at first
    contradiction
  | @openView front back r result editor asked opened =>
    obtain ⟨-, -, perm⟩ := inv.toSound.openView asked opened
    have completed := HeadlessEditor.openView_of_released inv.ready.unfailing inv.ready.released
      r.document r.placement
    rw [opened] at completed
    obtain ⟨rfl, rfl⟩ : _ = _ ∧ editor = _ := by simpa using completed
    obtain ⟨opens, applied⟩ := x.editor.logs_complete r.document r.placement
    refine ⟨read, ?_, ?_⟩
    · simp only [allOpens, opens, asked, List.map_append, List.map_cons, List.append_assoc,
        List.singleton_append]
      exact List.perm_middle.symm.append_left _
    · simp only [allApplied, applied, List.append_nil]
      exact (perm.symm.filterMap _).append_left _
  | @complete front back event waits =>
    obtain ⟨-, -, document, pending, perm, completes⟩ := inv.toSound.complete waits
    obtain ⟨_, _, _, rfl, -⟩ := inv.opened event (by simp [waits])
    obtain ⟨opens, applied⟩ := completes.logs
    refine ⟨read, ?_, ?_⟩
    · rw [allOpens, opens, List.append_nil]
      simp [allOpens, process, Session.process, Session.requests_onViewOpened]
    · have written := perm.filterMap (writeOf x.session.synchronizer.reveal)
      rw [allApplied, allApplied, reveal, applied, List.append_assoc]
      refine (List.Perm.trans ?_ written.symm).append_left _
      cases pending <;> exact .refl _

theorem Invariant.logs_of_reaches (inv : x.Invariant) (read : x.incoming = [])
    (reaches : x.Reaches y) :
    y.incoming = [] ∧ y.allOpens.Perm x.allOpens ∧ y.allApplied.Perm x.allApplied := by
  induction reaches with
  | refl => exact ⟨read, .refl _, .refl _⟩
  | tail before next ih =>
    obtain ⟨read', opens, applied⟩ := ih
    obtain ⟨read'', opens', applied'⟩ := (inv.reaches before).1.logs_of_next read' next
    exact ⟨read'', opens'.trans opens, applied'.trans applied⟩

theorem Similar.underWay (similar : Similar x x') : x'.underWay = x.underWay := by
  have keys {events events' : List Event}
      (same : List.Forall₂ (Event.Similar x.editor x'.editor) events events') :
      events'.flatMap Event.keys = events.flatMap Event.keys := by
    induction same with
    | nil => rfl
    | cons first _ ih =>
      rw [List.flatMap_cons, List.flatMap_cons, ih]
      cases first <;> rfl
  rw [ConcurrentState.underWay, ConcurrentState.underWay, similar.requested, keys similar.opened]

theorem Similar.settled (similar : Similar x x') : x'.settled = x.settled := by
  have observed (d : Uri) : x'.documentState d = x.documentState d := by
    simp only [documentState, similar.session.synchronizer.isOpen, similar.session.synchronizer.echo,
      similar.editor.shown, similar.editor.selections]
  rw [ConcurrentState.settled, ConcurrentState.settled, similar.session.store, similar.underWay]
  congr 1
  funext d
  rw [observed d]

/-- What was logged on the way to rest is what was asked for, but for its order. -/
theorem Invariant.logs_of_rest (inv : x.Invariant) (read : x.incoming = []) (reaches : x.Reaches y)
    (rest : y.AtRest) : ∃ opens applied, x.editor.Logs opens applied y.editor ∧
      opens.Perm (x.requested.map fun r => ⟨r.document, r.placement⟩) ∧
      applied.Perm (x.underWay.filterMap (writeOf x.session.synchronizer.reveal)) := by
  obtain ⟨-, -, -, ⟨opens, eq⟩, applied, eq'⟩ := moments_of_reaches reaches
  obtain ⟨-, allOpens, allApplied⟩ := inv.logs_of_reaches read reaches
  refine ⟨opens, applied, ⟨eq.symm, eq'.symm⟩, ?_, ?_⟩
  · rw [ConcurrentState.allOpens, rest.requested, List.map_nil, List.append_nil, ← eq] at allOpens
    exact (List.perm_append_left_iff _).mp allOpens
  · have idle : y.underWay = [] := by simp [ConcurrentState.underWay, rest.requested, rest.opened]
    rw [ConcurrentState.allApplied, idle, List.filterMap_nil, List.append_nil, ← eq'] at allApplied
    exact (List.perm_append_left_iff _).mp allApplied

/-- From similar states, whatever order the tasks go in, they come to similar states, and what they
log differs in its order at most. -/
theorem Similar.confluent {y' : ConcurrentState} (similar : Similar x x') (inv : x.Invariant)
    (inv' : x'.Invariant) (read : x.incoming = []) (reaches : x.Reaches y) (reaches' : x'.Reaches y')
    (rest : y.AtRest) (rest' : y'.AtRest) : Similar y y' ∧ ∃ opens opens' applied applied',
      x.editor.Logs opens applied y.editor ∧ x'.editor.Logs opens' applied' y'.editor ∧
      opens.Perm opens' ∧ applied.Perm applied' := by
  have read' : x'.incoming = [] := List.forall₂_nil_left_iff.mp (read ▸ similar.received)
  obtain ⟨after, finalState, settings⟩ := inv.reaches reaches
  obtain ⟨after', finalState', settings'⟩ := inv'.reaches reaches'
  obtain ⟨opens, applied, logs, asked, written⟩ := inv.logs_of_rest read reaches rest
  obtain ⟨opens', applied', logs', asked', written'⟩ := inv'.logs_of_rest read' reaches' rest'
  rw [similar.requested] at asked'
  rw [similar.underWay, similar.session.synchronizer.reveal] at written'
  have foreseen : x'.finalState = x.finalState := by
    rw [ConcurrentState.finalState, ConcurrentState.finalState, read, read', similar.settled]
    rfl
  have between : y.session.SameSettings y'.session :=
    settings.symm.trans (similar.session.settings.trans settings')
  exact ⟨after.similar_of_rest after' rest rest' between (by rw [finalState', foreseen, finalState]),
    opens, opens', applied, applied', logs, logs', asked.trans asked'.symm,
    written.trans written'.symm⟩

theorem Invariant.process (inv : x.Invariant) (rest : x.AtRest) {event : Event}
    (plain : event.IsPlain) : (x.process event).Invariant := by
  have idle : x.underWay = [] := by simp [underWay, rest.requested, rest.opened]
  have sound := inv.toSound.process plain.1 (.inr idle) (by simp [idle]) (.inr (by simp [idle]))
  have readers := (Moment.counts_after ⟨x.session, x.editor, event⟩).2
  refine ⟨sound, inv.received, ?_, fun some => absurd rest.incoming some⟩
  refine readers.trans ?_
  simp only [plain.2, Nat.sub_zero]
  exact inv.readers

end ConcurrentState

end LinkedViews
