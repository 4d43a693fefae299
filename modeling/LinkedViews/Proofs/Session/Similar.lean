import LinkedViews.Proofs.Session.Moment
import LinkedViews.Proofs.View.Editor

/-! The number of a view, and the order in which views were registered, have no part in what a
session does. Two sessions that differ in these alone answer an event alike, ask for the same opens
and write the same selections. -/
namespace LinkedViews

namespace HeadlessEditor

/-- Opens are neither held back nor about to fail. -/
structure Ready (e : HeadlessEditor) : Prop where
  released : e.held = false
  unfailing : e.failNext = none
  paired : e.Paired

theorem ready_new : new.Ready := ⟨rfl, rfl, paired_new⟩

/-- The same documents are shown, with the same selections. -/
structure Similar (e e' : HeadlessEditor) : Prop where
  shown : ∀ document, (e'.viewOf? document).isSome = (e.viewOf? document).isSome
  selections : ∀ document, e'.selectionsOf document = e.selectionsOf document

/-- What an editor adds to its logs. -/
structure Logs (e : HeadlessEditor) (opens : List Opened) (applied : List Applied)
    (e' : HeadlessEditor) : Prop where
  opens : e'.opens = e.opens ++ opens
  applied : e'.applied = e.applied ++ applied

/-- Documents that have a view keep it. -/
def Keeps (e e' : HeadlessEditor) : Prop :=
  ∀ document view, e.viewOf? document = some view → e'.viewOf? document = some view

variable {e e' e₁ e₁' : HeadlessEditor} {document : Uri}

theorem Keeps.refl (e : HeadlessEditor) : e.Keeps e := fun _ _ known => known

theorem Keeps.trans {e'' : HeadlessEditor} (first : e.Keeps e') (second : e'.Keeps e'') :
    e.Keeps e'' :=
  fun document view known => second document view (first document view known)

theorem Keeps.of_views (same : e'.views = e.views) : e.Keeps e' := fun document view known => by
  rwa [viewOf?, same]

theorem keeps_complete (e : HeadlessEditor) (document : Uri) (placement : Placement) :
    e.Keeps (e.complete document placement).2 :=
  fun _ _ known => viewOf?_openNow_of_known known document

theorem Ready.openNow (ready : e.Ready) (document : Uri) : (e.openNow document).2.Ready where
  released := (e.gates_openNow document).1.trans ready.released
  unfailing := (e.gates_openNow document).2.trans ready.unfailing
  paired := ready.paired.openNow document

theorem Ready.select (ready : e.Ready) (document : Uri) (selections : List Span) :
    (e.select document selections).2.Ready :=
  { ready.openNow document with paired := ready.paired.select document selections }

theorem Ready.setSelections {view : View} {selections : List Span} {reveal : Reveal}
    (ready : e.Ready) (known : e.viewOf? document = some view)
    (written : e.setSelections view selections reveal = .ok e') : e'.Ready := by
  obtain ⟨_, -, rfl⟩ := eq_of_setSelections written
  exact ⟨ready.released, ready.unfailing,
    (ready.paired.replace known selections).congr ⟨rfl, rfl, rfl, rfl⟩⟩

theorem Logs.refl (e : HeadlessEditor) : e.Logs [] [] e := ⟨by simp, by simp⟩

theorem Logs.trans {e'' : HeadlessEditor} {opens opens' : List Opened} {applied applied' : List Applied}
    (first : e.Logs opens applied e') (second : e'.Logs opens' applied' e'') :
    e.Logs (opens ++ opens') (applied ++ applied') e'' :=
  ⟨by rw [second.opens, first.opens, List.append_assoc],
    by rw [second.applied, first.applied, List.append_assoc]⟩

theorem Ready.complete (ready : e.Ready) (document : Uri) (placement : Placement) :
    (e.complete document placement).2.Ready :=
  { ready.openNow document with
    paired := (ready.paired.openNow document).congr ⟨rfl, rfl, rfl, rfl⟩ }

theorem logs_complete (e : HeadlessEditor) (document : Uri) (placement : Placement) :
    e.Logs [⟨document, placement⟩] [] (e.complete document placement).2 where
  opens := congrArg (· ++ _) (e.sameLog_openNow document).opens
  applied := (e.sameLog_openNow document).applied.trans (List.append_nil _).symm

/-- Replacing the selections of one document in both keeps two editors similar. -/
theorem Replaces.similar {selections : List Span} (here : e.Replaces document selections e₁)
    (there : e'.Replaces document selections e₁') (similar : e.Similar e') : e₁.Similar e₁' where
  shown d := by
    by_cases same : d = document
    · rw [same, here.shown, there.shown]
    · rw [here.unmoved d same, there.unmoved d same, similar.shown d]
  selections d := by
    by_cases same : d = document
    · rw [same, here.here, there.here]
    · rw [here.elsewhere d same, there.elsewhere d same, similar.selections d]

theorem selectionsOf_openNow (paired : e.Paired) (document other : Uri) :
    (e.openNow document).2.selectionsOf other =
      if document = other ∧ e.viewOf? document = none then [.caret 0]
      else e.selectionsOf other := by
  by_cases same : other = document
  · subst same
    cases known : e.viewOf? other with
    | some view => simp [openNow_of_known known]
    | none =>
      have view : ((e.openNow other).2).viewOf? other = some e.nextView := by
        rw [viewOf?_openNow, openNow_of_unknown known]
      rw [selectionsOf, view, openNow_of_unknown known]
      simp
  · rw [selectionsOf_openNow_of_ne paired same, if_neg (fun both => same both.1.symm)]

theorem isSome_viewOf?_openNow (e : HeadlessEditor) (document other : Uri) :
    ((e.openNow document).2.viewOf? other).isSome =
      (decide (document = other) || (e.viewOf? other).isSome) := by
  by_cases same : other = document
  · subst same
    simp [viewOf?_openNow]
  · simp [e.viewOf?_openNow_of_ne same, Ne.symm same]

/-- A document that is opened in both has a view in both. -/
theorem Similar.openNow (similar : e.Similar e') (ready : e.Ready) (ready' : e'.Ready)
    (document : Uri) : (e.openNow document).2.Similar (e'.openNow document).2 where
  shown d := by rw [isSome_viewOf?_openNow, isSome_viewOf?_openNow, similar.shown d]
  selections d := by
    have none_iff : e'.viewOf? document = none ↔ e.viewOf? document = none := by
      rw [← Option.not_isSome_iff_eq_none, ← Option.not_isSome_iff_eq_none, similar.shown document]
    rw [selectionsOf_openNow ready.paired, selectionsOf_openNow ready'.paired, similar.selections d]
    simp only [none_iff]

theorem Similar.complete (similar : e.Similar e') (ready : e.Ready) (ready' : e'.Ready)
    (document : Uri) (placement : Placement) :
    (e.complete document placement).2.Similar (e'.complete document placement).2 :=
  ⟨(similar.openNow ready ready' document).shown, (similar.openNow ready ready' document).selections⟩

theorem Similar.select (similar : e.Similar e') (ready : e.Ready) (ready' : e'.Ready)
    (document : Uri) (selections : List Span) :
    (e.select document selections).2.Similar (e'.select document selections).2 :=
  (replaces_select ready.paired document selections).similar
    (replaces_select ready'.paired document selections) similar

end HeadlessEditor

namespace Synchronizer

/-- The same documents are open, are being opened and await an echo. -/
structure Similar (y y' : Synchronizer) : Prop where
  isOpen : ∀ document, y'.isOpen document = y.isOpen document
  isOpening : ∀ document, y'.isOpening document = y.isOpening document
  echo : ∀ document, y'.echoes.written.find? document = y.echoes.written.find? document
  targetPlacement : y'.targetPlacement = y.targetPlacement
  sourcePlacement : y'.sourcePlacement = y.sourcePlacement
  reveal : y'.reveal = y.reveal

variable {y y' : Synchronizer}

theorem Similar.route? (similar : y.Similar y') (store : Store) (target : Uri) (action : Action)
    (selections : List Span) (direction : Direction) :
    y'.route? store target action selections direction =
      y.route? store target action selections direction := by
  rw [Synchronizer.route?, Synchronizer.route?, similar.targetPlacement, similar.sourcePlacement]

theorem Similar.routeForward (similar : y.Similar y') (event : Store → Uri → Action × Store)
    (selections : List Span) (targets : List Uri) (store : Store) :
    y'.routeForward event selections targets store =
      y.routeForward event selections targets store := by
  induction targets generalizing store with
  | nil => rfl
  | cons target targets ih => simp only [Synchronizer.routeForward, ih, similar.route?]

theorem Similar.openLinked (similar : y.Similar y') (store : Store) (source : Uri) :
    y'.openLinked store source = y.openLinked store source := by
  rw [Synchronizer.openLinked, Synchronizer.openLinked, funext similar.isOpen]

theorem Similar.gesture (similar : y.Similar y') (store : Store) (document : Uri)
    (selections : List Span) :
    y'.gesture store document selections = y.gesture store document selections := by
  simp only [Synchronizer.gesture, similar.openLinked, similar.routeForward, similar.route?]

theorem Similar.manualSync (similar : y.Similar y') (store : Store) (document : Uri)
    (selections : List Span) :
    y'.manualSync store document selections = y.manualSync store document selections := by
  rw [Synchronizer.manualSync, Synchronizer.manualSync, similar.openLinked, similar.routeForward]

theorem Similar.registerView (similar : y.Similar y') (document : Uri) (view view' : View) :
    (y.registerView document view).Similar (y'.registerView document view') :=
  { similar with
    isOpen := fun d => by
      rw [Bool.eq_iff_iff, isOpen_registerView, isOpen_registerView, similar.isOpen d] }

theorem Similar.forget (similar : y.Similar y') (document : Uri) :
    { y with echoes := y.echoes.forget document }.Similar
      { y' with echoes := y'.echoes.forget document } :=
  { similar with
    isOpen := similar.isOpen
    isOpening := similar.isOpening
    echo := fun d => by rw [Echoes.find?_forget, Echoes.find?_forget, similar.echo d] }

theorem Similar.contentReplaced (similar : y.Similar y') (target : Uri) :
    (y.contentReplaced target).Similar (y'.contentReplaced target) :=
  similar.forget target

theorem Similar.record (similar : y.Similar y') (document : Uri) (selections : List Span) :
    { y with echoes := y.echoes.record document selections }.Similar
      { y' with echoes := y'.echoes.record document selections } :=
  { similar with
    isOpen := similar.isOpen
    isOpening := similar.isOpening
    echo := fun d => by rw [Echoes.find?_record, Echoes.find?_record, similar.echo d] }

theorem isOpening_openFinished (y : Synchronizer) (document other : Uri) :
    (y.openFinished document).isOpening other =
      (y.isOpening other && !decide (document = other)) := by
  simp only [openFinished, isOpening, Keyed.contains, Keyed.find?_erase]
  split <;> simp_all

theorem Similar.openFinished (similar : y.Similar y') (document : Uri) :
    (y.openFinished document).Similar (y'.openFinished document) :=
  { similar with
    isOpen := similar.isOpen
    isOpening := fun d => by
      rw [isOpening_openFinished, isOpening_openFinished, similar.isOpening d]
    echo := similar.echo }

theorem isOpen_forgetView (y : Synchronizer) (document other : Uri) :
    (y.forgetView document).isOpen other = (y.isOpen other && !decide (document = other)) := by
  simp only [forgetView, isOpen, Keyed.contains, Keyed.find?_erase]
  split <;> simp_all

theorem Similar.forgetView (similar : y.Similar y') (document : Uri) :
    (y.forgetView document).Similar (y'.forgetView document) where
  isOpen d := by rw [isOpen_forgetView, isOpen_forgetView, similar.isOpen d]
  isOpening := (similar.openFinished document).isOpening
  echo := (similar.forget document).echo
  targetPlacement := similar.targetPlacement
  sourcePlacement := similar.sourcePlacement
  reveal := similar.reveal

end Synchronizer

namespace Session

structure Similar (s s' : Session) : Prop where
  store : s'.store = s.store
  documents : s'.documents = s.documents
  policy : s'.policy = s.policy
  synchronizer : s.synchronizer.Similar s'.synchronizer
  pendingOpens : s'.pendingOpens = s.pendingOpens
  readers : s'.readers = s.readers

variable {s s' : Session}

/-- Other synchronizers in place of the two, and another store. -/
theorem Similar.replace (similar : s.Similar s') {y y' : Synchronizer} (same : y.Similar y')
    (store : Store) : { s with synchronizer := y, store := store }.Similar
      { s' with synchronizer := y', store := store } :=
  { similar with store := rfl, synchronizer := same }

theorem Similar.request (similar : s.Similar s') (r : OpenRequest) :
    (s.request r).Similar (s'.request r) where
  store := similar.store
  documents := similar.documents
  policy := similar.policy
  synchronizer := { similar.synchronizer with
    isOpen := similar.synchronizer.isOpen
    isOpening := fun d => by
      rw [Bool.eq_iff_iff, Moment.isOpening_request, Moment.isOpening_request,
        similar.synchronizer.isOpening d]
    echo := similar.synchronizer.echo }
  pendingOpens := by rw [Session.request, Session.request, similar.pendingOpens]
  readers := similar.readers

theorem Similar.foldl_request (similar : s.Similar s') (requests : List OpenRequest) :
    (requests.foldl Session.request s).Similar (requests.foldl Session.request s') := by
  induction requests generalizing s s' with
  | nil => exact similar
  | cons r requests ih => exact ih (similar.request r)

end Session

/-- The same event, as each of two editors numbers the view that it is about. -/
inductive Event.Similar (e e' : HeadlessEditor) : Event → Event → Prop
  | notification (body : Bytes) : Similar e e' (.notification body) (.notification body)
  | channelClosed : Similar e e' .channelClosed .channelClosed
  | selectionChanged (document : Uri) (view view' : View) (selections : List Span) : Similar e e'
      (.selectionChanged document view selections) (.selectionChanged document view' selections)
  | manualSync {document shown : Uri} {view view' : View} (here : e.viewOf? shown = some view)
      (there : e'.viewOf? shown = some view') :
      Similar e e' (.manualSync document view) (.manualSync document view')
  | viewOpened {document : Uri} {view view' : View} {pending : Option PendingSelection}
      (here : e.viewOf? document = some view) (there : e'.viewOf? document = some view') :
      Similar e e' (.viewOpened document (.ok view) pending)
        (.viewOpened document (.ok view') pending)
  | viewClosed (document : Uri) : Similar e e' (.viewClosed document) (.viewClosed document)
  | shutdown : Similar e e' .shutdown .shutdown

theorem Event.Similar.mono {e e' e₁ e₁' : HeadlessEditor} {event event' : Event}
    (same : event.Similar e e' event') (kept : e.Keeps e₁) (kept' : e'.Keeps e₁') :
    event.Similar e₁ e₁' event' := by
  cases same with
  | notification body => exact .notification body
  | channelClosed => exact .channelClosed
  | selectionChanged => exact .selectionChanged ..
  | manualSync here there => exact .manualSync (kept _ _ here) (kept' _ _ there)
  | viewOpened here there => exact .viewOpened (kept _ _ here) (kept' _ _ there)
  | viewClosed document => exact .viewClosed document
  | shutdown => exact .shutdown

/-- Two steps ask for the same, answer the same, and write the same. -/
structure Step.Similar (e e' : HeadlessEditor) (step step' : Step HeadlessEditor) : Prop where
  session : step.session.Similar step'.session
  editor : step.editor.Similar step'.editor
  requests : step'.requests = step.requests
  result : step'.result = step.result
  ready : step.editor.Ready ∧ step'.editor.Ready
  kept : e.Keeps step.editor ∧ e'.Keeps step'.editor
  logs : ∃ applied, e.Logs [] applied step.editor ∧ e'.Logs [] applied step'.editor

namespace Session

section Steps

variable {s s' : Session} {e e' : HeadlessEditor} (similar : s.Similar s') (editors : e.Similar e')
  (ready : e.Ready) (ready' : e'.Ready)

include editors ready ready' in
/-- An event that leaves the editor alone. -/
theorem similar_still {step step' : Step HeadlessEditor} (session : step.session.Similar step'.session)
    (here : step.editor = e) (there : step'.editor = e') (requests : step'.requests = step.requests)
    (result : step'.result = step.result) : step.Similar e e' step' where
  session := session
  editor := here ▸ there ▸ editors
  requests := requests
  result := result
  ready := ⟨here ▸ ready, there ▸ ready'⟩
  kept := ⟨here ▸ .refl e, there ▸ .refl e'⟩
  logs := ⟨[], here ▸ .refl e, there ▸ .refl e'⟩

include similar editors ready ready'

theorem similar_requestAll (pending : List PendingSelection) :
    (s.requestAll pending e).Similar e e' (s'.requestAll pending e') :=
  similar_still editors ready ready' (similar.foldl_request _) rfl rfl rfl rfl

theorem similar_onNotification (body : Bytes) :
    (s.onNotification e body).Similar e e' (s'.onNotification e' body) := by
  have same : s'.store.receive s'.policy body = s.store.receive s.policy body := by
    rw [similar.store, similar.policy]
  simp only [onNotification, same]
  split
  next => exact similar_still editors ready ready' similar rfl rfl rfl rfl
  next => exact similar_still editors ready ready' similar rfl rfl rfl rfl
  next published store _ =>
    have content := similar.synchronizer.contentReplaced published.target
    have replaced := similar.replace content store
    simp only [content.isOpen, content.isOpening, content.targetPlacement]
    split
    next => exact similar_still editors ready ready' (replaced.request _) rfl rfl rfl rfl
    next => exact similar_still editors ready ready' replaced rfl rfl rfl rfl

theorem similar_selectionChanged (document : Uri) (view view' : View) (selections : List Span) :
    (s.process e (.selectionChanged document view selections)).Similar e e'
      (s'.process e' (.selectionChanged document view' selections)) := by
  have first := Moment.after_selectionChanged s e document view selections
  have second := Moment.after_selectionChanged s' e' document view' selections
  have seen := similar.synchronizer.registerView document view view'
  have heard := seen.forget document
  have gesture : s'.gesture document view' selections = s.gesture document view selections := by
    rw [Session.gesture, Session.gesture, similar.store]
    exact heard.gesture s.store document selections
  simp only [Moment.after] at first second
  rw [first, second, similar.synchronizer.isOpening document, similar.synchronizer.echo document,
    gesture]
  split
  · exact similar_still editors ready ready' { similar with synchronizer := seen } rfl rfl rfl rfl
  · split
    · exact similar_still editors ready ready' { similar with synchronizer := heard } rfl rfl rfl rfl
    · exact similar_requestAll (similar.replace heard _) editors ready ready' _

theorem similar_manualSync {document shown : Uri} {view view' : View}
    (here : e.viewOf? shown = some view) (there : e'.viewOf? shown = some view') :
    (s.process e (.manualSync document view)).Similar e e'
      (s'.process e' (.manualSync document view')) := by
  have read : Editor.selections e view = .ok (e.selectionsOf shown) := ready.paired.selections_eq here
  have read' : Editor.selections e' view' = .ok (e.selectionsOf shown) :=
    (ready'.paired.selections_eq there).trans (by rw [editors.selections])
  have same := similar.synchronizer.manualSync s.store document (e.selectionsOf shown)
  simp only [process, read, read', similar.store, same]
  exact similar_requestAll (similar.replace similar.synchronizer _) editors ready ready' _

theorem similar_onViewOpened {document : Uri} {view view' : View}
    (here : e.viewOf? document = some view) (there : e'.viewOf? document = some view')
    (pending : Option PendingSelection) :
    (s.onViewOpened e document (.ok view) pending).Similar e e'
      (s'.onViewOpened e' document (.ok view') pending) := by
  have shown : (Moment.shown s document view).Similar (Moment.shown s' document view') :=
    { similar with
      pendingOpens := by rw [Moment.shown, Moment.shown, similar.pendingOpens]
      synchronizer := (similar.synchronizer.openFinished document).registerView document view view' }
  cases pending with
  | none => exact similar_still editors ready ready' shown rfl rfl rfl rfl
  | some p =>
    have current' :
        s'.store.isCurrent p.origin p.generation = s.store.isCurrent p.origin p.generation := by
      rw [similar.store]
    cases current : s.store.isCurrent p.origin p.generation with
    | false =>
      rw [Moment.onViewOpened_stale current, Moment.onViewOpened_stale (current'.trans current)]
      exact similar_still editors ready ready' shown rfl rfl rfl rfl
    | true =>
      obtain ⟨e₁, accepted, writes⟩ := HeadlessEditor.writes_setSelections ready.paired here
        p.selections s.synchronizer.reveal
      obtain ⟨e₁', accepted', writes'⟩ := HeadlessEditor.writes_setSelections ready'.paired
        there p.selections s.synchronizer.reveal
      rw [Moment.onViewOpened_written current accepted, Moment.onViewOpened_written
        (current'.trans current) (similar.synchronizer.reveal ▸ accepted')]
      constructor
      case session =>
        exact { shown with
          synchronizer := (shown.synchronizer.registerView p.document view view').record p.document
            p.selections }
      case editor => exact writes.toReplaces.similar writes'.toReplaces editors
      case requests => rfl
      case result => rfl
      case ready => exact ⟨ready.setSelections here accepted, ready'.setSelections there accepted'⟩
      case kept => exact ⟨.of_views writes.views, .of_views writes'.views⟩
      case logs =>
        exact ⟨_, ⟨by simp [writes.opens], writes.applied⟩,
          ⟨by simp [writes'.opens], writes'.applied⟩⟩

/-- Whatever the event is. -/
theorem similar_process {event event' : Event} (same : event.Similar e e' event') :
    (s.process e event).Similar e e' (s'.process e' event') := by
  cases same with
  | notification body => exact similar_onNotification similar editors ready ready' body
  | channelClosed =>
    exact similar_still editors ready ready' { similar with
      readers := by rw [process, process, similar.readers] } rfl rfl rfl rfl
  | selectionChanged document view view' selections =>
    exact similar_selectionChanged similar editors ready ready' document view view' selections
  | manualSync here there => exact similar_manualSync similar editors ready ready' here there
  | viewOpened here there => exact similar_onViewOpened similar editors ready ready' here there _
  | viewClosed document =>
    exact similar_still editors ready ready' { similar with
      synchronizer := similar.synchronizer.forgetView document } rfl rfl rfl rfl
  | shutdown => exact similar_still editors ready ready' similar rfl rfl rfl rfl

end Steps

end Session

end LinkedViews
