import LinkedViews.Proofs.Store.Arming
import LinkedViews.Proofs.View.Routing

/-! What gestures do to a store. A gesture arms the products that it asks and leaves no other trace. -/
namespace LinkedViews.Synchronizer

variable (y : Synchronizer) (store : Store) (selections : List Span)

theorem routeForward_snd {event : Store → Uri → Action × Store}
    (arms : ∀ s target, (event s target).2 = s.arm target) (targets : List Uri) :
    (y.routeForward event selections targets store).2 = targets.foldl Store.arm store := by
  induction targets generalizing store with
  | nil => rfl
  | cons target targets ih =>
    rw [List.foldl_cons, ← ih, ← arms]
    rfl

/-- The products that a gesture in a document asks: the product itself, or those that are linked to
the source and open. -/
def Asks (document target : Uri) : Prop :=
  if store.naming.isTarget document then document = target
  else target ∈ store.linkedTargets document ∧ y.isOpen target

theorem armsJust_gesture (document : Uri) :
    store.ArmsJust (y.gesture store document selections).2 (y.Asks store document) := by
  unfold gesture Asks
  by_cases product : store.naming.isTarget document
  · simp only [product, if_true, Store.onSelection_snd]
    exact store.armsJust_arm document
  · simp only [product, Bool.false_eq_true, if_false, routeForward_snd _ _ _ Store.onSelection_snd]
    refine (store.armsJust_foldl _).congr fun target => ?_
    simp [openLinked]

theorem armsJust_manualSync (document : Uri) : store.ArmsJust
    (y.manualSync store document selections).2
      fun target => store.naming.isTarget document = false ∧ y.Asks store document target := by
  unfold manualSync Asks
  by_cases product : store.naming.isTarget document
  · rw [if_pos product]
    exact .of_none store (by simp [product])
  · rw [if_neg product, routeForward_snd _ _ _ Store.onManualSync_snd]
    refine (store.armsJust_foldl _).congr fun target => ?_
    simp [openLinked, product]

end LinkedViews.Synchronizer
