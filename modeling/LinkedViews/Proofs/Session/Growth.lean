import LinkedViews.Proofs.Session.Notification
import LinkedViews.Proofs.Store.Answers
import LinkedViews.Proofs.View.Editor
import LinkedViews.Session.EventLoop

/-! What only grows while a session goes on: the changes that its documents are told of, one for each
product that is stored, and the opens and writes in the log of its editor. -/
namespace LinkedViews

/-- What is told of a product that was stored. -/
def Published.change (p : Published) : ContentChange := ⟨p.target, p.generation⟩

/-- What the configuration says, and who is told of changes. -/
structure Session.SameSettings (s s' : Session) : Prop where
  documents : s'.documents = s.documents
  policy : s'.policy = s.policy
  targetPlacement : s'.synchronizer.targetPlacement = s.synchronizer.targetPlacement
  sourcePlacement : s'.synchronizer.sourcePlacement = s.synchronizer.sourcePlacement
  reveal : s'.synchronizer.reveal = s.synchronizer.reveal

theorem Session.SameSettings.symm {s s' : Session} (same : s.SameSettings s') : s'.SameSettings s :=
  ⟨same.documents.symm, same.policy.symm, same.targetPlacement.symm, same.sourcePlacement.symm,
    same.reveal.symm⟩

theorem Session.SameSettings.trans {s s' s'' : Session} (first : s.SameSettings s')
    (second : s'.SameSettings s'') : s.SameSettings s'' where
  documents := second.documents.trans first.documents
  policy := second.policy.trans first.policy
  targetPlacement := second.targetPlacement.trans first.targetPlacement
  sourcePlacement := second.sourcePlacement.trans first.sourcePlacement
  reveal := second.reveal.trans first.reveal

namespace Moment

section Stores

variable {ε : Type} [Editor ε]

/-- Each moment finds the store that the one before it left. -/
inductive Row : Store → List (Moment ε) → Store → Prop
  | rest (s : Store) : Row s [] s
  | meet {m : Moment ε} {later : List (Moment ε)} {last : Store}
      (row : Row m.after.session.store later last) : Row m.session.store (m :: later) last

theorem Row.append {s s' s'' : Store} {first second : List (Moment ε)} (front : Row s first s')
    (back : Row s' second s'') : Row s (first ++ second) s'' := by
  induction front with
  | rest s => exact back
  | meet _ ih => exact .meet (ih back)

/-- The products that are stored at these moments, in order. -/
def stored (moments : List (Moment ε)) : List Published := moments.filterMap publish?

theorem inboxes_after (m : Moment ε) : m.after.session.store.inboxes =
    m.session.store.inboxes.map (· ++ m.publish?.toList.map Published.change) := by
  cases publishes : m.publish? with
  | none => simp [(arms_after publishes).inboxes]
  | some p =>
    obtain ⟨product, saved⟩ := saved_after publishes
    obtain ⟨-, -, -, -, number, -⟩ := publish?_eq_some_iff.mp publishes
    obtain ⟨-, -, store⟩ := Store.save_eq_ok_iff.mp saved
    rw [store, Store.inboxes_announce_install]
    simp [Published.change, number]

/-- A listener hears of what is stored, in order, and of nothing else. -/
theorem Row.inboxes {s last : Store} {moments : List (Moment ε)} (row : Row s moments last) :
    last.inboxes = s.inboxes.map (· ++ (stored moments).map Published.change) := by
  induction row with
  | rest s => simp [stored]
  | @meet m later last _ ih =>
    rw [ih, inboxes_after, List.map_map]
    cases publishes : m.publish? <;> simp [stored, publishes]

theorem Row.changes {s last : Store} {moments : List (Moment ε)} (row : Row s moments last)
    {d : Documents} (listens : d.listener < s.inboxes.length) :
    d.listener < last.inboxes.length ∧
    d.changes last = d.changes s ++ (stored moments).map Published.change := by
  have inboxes := row.inboxes
  refine ⟨by simpa [inboxes] using listens, ?_⟩
  simp [Documents.changes, inboxes, List.getElem?_eq_getElem listens]

/-- Numbers one after the other. The largest word is not exceeded. -/
def numbers (count n : Nat) : List Nat := (List.range' (count + 1) n).map (min · Decimal.maxWord)

theorem settings_after (m : Moment ε) :
    m.session.SameSettings m.after.session := by
  have asked {s s' : Session} (same : s.SameSettings s') (requests : List OpenRequest) :
      s.SameSettings (requests.foldl Session.request s') := by
    rw [foldl_request]
    exact ⟨same.documents, same.policy, same.targetPlacement, same.sourcePlacement, same.reveal⟩
  obtain ⟨s, editor, event⟩ := m
  cases event with
  | notification body =>
    cases published : (Moment.mk s editor (.notification body)).publish? with
    | none =>
      obtain ⟨result, after⟩ := after_notification_of_none published
      rw [after]
      exact ⟨rfl, rfl, rfl, rfl, rfl⟩
    | some published' =>
      obtain ⟨product, store, requests, _, _, after⟩ := after_notification_of_some published
      rw [after]
      refine asked ?_ requests
      exact ⟨rfl, rfl, rfl, rfl, rfl⟩
  | selectionChanged document view selections =>
    rw [after_selectionChanged]
    split
    · exact ⟨rfl, rfl, rfl, rfl, rfl⟩
    · split
      · exact ⟨rfl, rfl, rfl, rfl, rfl⟩
      · refine asked ?_ _
        exact ⟨rfl, rfl, rfl, rfl, rfl⟩
  | manualSync document view =>
    simp only [after, Session.process]
    split
    · exact ⟨rfl, rfl, rfl, rfl, rfl⟩
    · refine asked ?_ _
      exact ⟨rfl, rfl, rfl, rfl, rfl⟩
  | viewOpened document result pending =>
    rcases result with e | view
    · exact ⟨rfl, rfl, rfl, rfl, rfl⟩
    · rcases pending with _ | p
      · exact ⟨rfl, rfl, rfl, rfl, rfl⟩
      · simp only [after, Session.process]
        cases current : s.store.isCurrent p.origin p.generation with
        | false =>
          rw [onViewOpened_stale current]
          exact ⟨rfl, rfl, rfl, rfl, rfl⟩
        | true =>
          cases answer : Editor.setSelections editor view p.selections s.synchronizer.reveal with
          | error e =>
            rw [onViewOpened_refused current answer]
            exact ⟨rfl, rfl, rfl, rfl, rfl⟩
          | ok editor' =>
            rw [onViewOpened_written current answer]
            exact ⟨rfl, rfl, rfl, rfl, rfl⟩
  | channelClosed => exact ⟨rfl, rfl, rfl, rfl, rfl⟩
  | viewClosed document => exact ⟨rfl, rfl, rfl, rfl, rfl⟩
  | shutdown => exact ⟨rfl, rfl, rfl, rfl, rfl⟩

end Stores

end Moment

namespace HeadlessEditor

theorem grows_after (m : Moment HeadlessEditor) : Grows m.editor m.after.editor := by
  apply m.after_editor_of_writes (.refl m.editor)
  intro editor editor' w grows written
  exact grows.trans (grows_setSelections written)

end HeadlessEditor

namespace EventLoop

/-- The loop goes on through these moments; its documents stay registered, and its editor loses
nothing of the log. -/
structure Leads (l : EventLoop) (moments : List (Moment HeadlessEditor)) (l' : EventLoop) : Prop where
  row : Moment.Row l.session.store moments l'.session.store
  documents : l'.session.documents = l.session.documents
  editor : l.editor.Grows l'.editor

theorem Leads.trans {l l' l'' : EventLoop} {first second : List (Moment HeadlessEditor)}
    (front : l.Leads first l') (back : l'.Leads second l'') : l.Leads (first ++ second) l'' where
  row := front.row.append back.row
  documents := back.documents.trans front.documents
  editor := front.editor.trans back.editor

theorem leads_process (l : EventLoop) (event : Event) :
    l.Leads [⟨l.session, l.editor, event⟩] (l.process event).2 where
  row := Moment.Row.meet (m := ⟨l.session, l.editor, event⟩) (.rest _)
  documents := (Moment.settings_after ⟨l.session, l.editor, event⟩).documents
  editor := HeadlessEditor.grows_after ⟨l.session, l.editor, event⟩

theorem leads_attach (l : EventLoop) (channel : Channel) : l.Leads [] (l.attach channel) :=
  ⟨.rest _, rfl, .refl _⟩

end EventLoop

end LinkedViews
