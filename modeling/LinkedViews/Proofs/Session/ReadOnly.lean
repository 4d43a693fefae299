import LinkedViews.Proofs.Session.Notification
import LinkedViews.Proofs.View.Arming

/-! Products are read-only to everything but publishes. Whatever else a session meets, and however
it ends, no product, index or number changes and no listener is told of anything; a gesture arms the
products that it asks, and leaves no other trace in the store. -/
namespace LinkedViews

def Session.Heeds (s : Session) (document : Uri) (selections : List Span) : Prop :=
  s.synchronizer.isOpening document = false ∧
    s.synchronizer.echoes.written.find? document ≠ some selections

namespace Moment

variable {ε : Type} [Editor ε]

/-- The products whose state a moment asks for: the one in whose view the user selects, or those
that are linked to the source and open. A view that reports selections is open itself. -/
def Consults (m : Moment ε) (target : Uri) : Prop :=
  match m.event with
  | .selectionChanged document _ selections => m.session.Heeds document selections ∧
      if m.session.store.naming.isTarget document then document = target
      else target ∈ m.session.store.linkedTargets document ∧
        (document = target ∨ m.session.synchronizer.isOpen target)
  | .manualSync document view => (∃ selections, Editor.selections m.editor view = .ok selections) ∧
      m.session.store.naming.isTarget document = false ∧
      target ∈ m.session.store.linkedTargets document ∧ m.session.synchronizer.isOpen target
  | _ => False

theorem armsJust_selectionChanged (s : Session) (editor : ε) (document : Uri) (view : View)
    (selections : List Span) :
    let m : Moment ε := ⟨s, editor, .selectionChanged document view selections⟩
    s.store.ArmsJust m.after.session.store m.Consults := by
  intro m
  by_cases heeds : s.Heeds document selections
  · let heard : Synchronizer := { s.synchronizer.registerView document view with
      echoes := s.synchronizer.echoes.forget document }
    have gesture : m.after.session.store = (heard.gesture s.store document selections).2 :=
      (after_gesture heeds.1 heeds.2).2
    rw [gesture]
    refine (heard.armsJust_gesture s.store selections document).congr fun target => ?_
    have shown : heard.isOpen target ↔ document = target ∨ s.synchronizer.isOpen target :=
      s.synchronizer.isOpen_registerView document view target
    simp only [m, Consults, heeds, true_and, Synchronizer.Asks, shown]
  · have absorbed : s.synchronizer.isOpening document ∨
        s.synchronizer.echoes.written.find? document = some selections := by
      by_contra neither
      obtain ⟨opening, echo⟩ := not_or.mp neither
      exact heeds ⟨Bool.not_eq_true _ ▸ opening, echo⟩
    have kept : m.after.session.store = s.store := (after_absorbed absorbed).2
    rw [kept]
    exact .of_none s.store fun target consults => heeds consults.1

theorem armsJust_manualSync (s : Session) (editor : ε) (document : Uri) (view : View) :
    let m : Moment ε := ⟨s, editor, .manualSync document view⟩
    s.store.ArmsJust m.after.session.store m.Consults := by
  intro m
  cases selected : Editor.selections editor view with
  | error e =>
    have kept : m.after.session.store = s.store := by
      simp only [m, after, Session.process, selected]
    rw [kept]
    refine .of_none s.store fun target consults => ?_
    simp [m, Consults, selected] at consults
  | ok selections =>
    have synced : m.after.session.store =
        (s.synchronizer.manualSync s.store document selections).2 := by
      simp only [m, after, Session.process, selected, Session.requestAll, foldl_request]
    rw [synced]
    refine (s.synchronizer.armsJust_manualSync s.store selections document).congr fun target => ?_
    simp only [m, Consults, selected, Synchronizer.Asks]
    by_cases product : s.store.naming.isTarget document <;> simp [product]

theorem armsJust_after {m : Moment ε} (silent : m.publish? = none) :
    m.session.store.ArmsJust m.after.session.store m.Consults := by
  obtain ⟨s, editor, event⟩ := m
  cases event with
  | notification body =>
    obtain ⟨result, after⟩ := after_notification_of_none silent
    rw [after]
    exact .of_none s.store fun _ => id
  | selectionChanged document view selections =>
    exact armsJust_selectionChanged s editor document view selections
  | manualSync document view => exact armsJust_manualSync s editor document view
  | viewOpened document result pending =>
    rw [after, Session.process, store_onViewOpened]
    exact .of_none s.store fun _ => id
  | channelClosed => exact .of_none s.store fun _ => id
  | viewClosed document => exact .of_none s.store fun _ => id
  | shutdown => exact .of_none s.store fun _ => id

/-- Whatever a session meets but a body that publishes: the counter stays as it is, no listener is
told of anything, and every product stays with its index and its generation. A product may go from
unarmed to armed, and does so exactly if its state is asked for. -/
theorem products_kept_unless_published (m : Moment ε)
    (silent : ∀ body, m.event = .notification body → ∀ product target,
      ¬Message.Publishes m.session.store.naming body product target) :
    let s := m.session.store
    let s' := m.after.session.store
    s'.naming = s.naming ∧ s'.generation = s.generation ∧ s'.inboxes = s.inboxes ∧
    (∀ target, s'.find? target = s.find? target ∨ m.Consults target ∧
      ∃ stored, s.find? target = some stored ∧ stored.state = .unarmed ∧
        s'.find? target = some { stored with state := .armed }) ∧
    s.ArmsJust s' m.Consults := by
  intro s s'
  have unpublished : m.publish? = none := publish?_eq_none_iff.mpr silent
  have same := arms_after unpublished
  have exactly : s.ArmsJust s' m.Consults := armsJust_after unpublished
  refine ⟨same.naming, same.generation, same.inboxes, fun target => ?_, exactly⟩
  by_cases consults : m.Consults target
  · have after := exactly.arms target consults
    cases found : s.find? target with
    | none =>
      rw [found] at after
      exact .inl after
    | some stored =>
      rw [found] at after
      cases armed : stored.state with
      | armed =>
        have again : stored.armed = stored := by
          rw [StoredProduct.armed, ← armed]
        rw [Option.map_some, again] at after
        exact .inl after
      | unarmed => exact .inr ⟨consults, stored, rfl, armed, after⟩
  · exact .inl (exactly.keeps target consults)

end Moment

namespace SessionRun.TwoGestures

theorem first_selection_arms :
    let m : Moment HeadlessEditor := ⟨stocked, editor, .selectionChanged target ⟨1⟩ [.caret 0]⟩
    (∀ body, m.event = .notification body → ∀ product target,
      ¬Message.Publishes m.session.store.naming body product target) ∧
    m.Consults target ∧ m.after.session.store.generation = ⟨1⟩ ∧
    stocked.store.find? target = some ⟨product, .build product.rangeMap, .unarmed, ⟨1⟩⟩ ∧
    m.after.session.store.find? target = some ⟨product, .build product.rangeMap, .armed, ⟨1⟩⟩ := by
  intro m
  have silent : ∀ body, m.event = .notification body → ∀ product target,
      ¬Message.Publishes m.session.store.naming body product target := by
    intro body event
    contradiction
  obtain ⟨-, generation, -, -, exactly⟩ := m.products_kept_unless_published silent
  have consults : m.Consults target := ⟨⟨rfl, nofun⟩, rfl⟩
  have found : stocked.store.find? target =
      some ⟨product, .build product.rangeMap, .unarmed, ⟨1⟩⟩ :=
    (Store.find?_install started.store target target product).trans (if_pos rfl)
  have armed := exactly.arms target consults
  refine ⟨silent, consults, generation, found, ?_⟩
  rw [armed, show m.session.store.find? target = _ from found]
  rfl

end SessionRun.TwoGestures

end LinkedViews
