import LinkedViews.Proofs.View.FanOut

/-! A manual sync is a selection that nothing suppresses. Both ask the same products and leave the same
store; what a manual sync leads to beyond a selection is what the selection would have been absorbed
for, and to sync again leads to the same. -/
namespace LinkedViews.Synchronizer

variable {y : Synchronizer} {s : Store} {selections : List Span}

theorem origin_of_carried? {direction : Direction} {target : Uri} {stored : StoredProduct}
    {p : PendingSelection} (carried : y.carried? selections direction target stored = some p) :
    p.origin = target := by
  obtain ⟨-, rfl⟩ := carried?_eq_some_iff.mp carried
  rfl

theorem answer?_onSelection_eq_filter (direction : Direction) (target : Uri) :
    y.answer? s selections Store.onSelection direction target =
      (y.answer? s selections Store.onManualSync direction target).filter fun p =>
        s.state? p.origin = some .armed := by
  rw [answer?_onSelection, answer?_onManualSync]
  cases found : s.find? target with
  | none => rfl
  | some stored =>
    simp only [Option.bind_some]
    cases carried : y.carried? selections direction target stored with
    | none => simp
    | some p =>
      have origin := origin_of_carried? carried
      by_cases armed : stored.state = .armed
      · simp [Option.filter, Store.state?, origin, found, armed]
      · simp [Option.filter, Store.state?, origin, found, armed]

theorem answer?_onManualSync_of_armsJust {s' : Store} {asked : Uri → Prop}
    (arms : s.ArmsJust s' asked) (direction : Direction) (target : Uri) :
    y.answer? s' selections Store.onManualSync direction target =
      y.answer? s selections Store.onManualSync direction target := by
  rw [answer?_onManualSync, answer?_onManualSync]
  by_cases asks : asked target
  · rw [arms.arms target asks]
    cases s.find? target <;> rfl
  · rw [arms.keeps target asks]

theorem manualSync_source {document : Uri} (source : s.naming.isTarget document = false) :
    y.manualSync s document selections =
      ((y.openLinked s document).filterMap (y.answer? s selections Store.onManualSync .forward),
        (y.openLinked s document).foldl Store.arm s) := by
  have nodup : (y.openLinked s document).Nodup := (s.nodup_linkedTargets document).filter _
  rw [manualSync, if_neg (by simp [source]), Prod.ext_iff]
  exact ⟨y.routeForward_fst s selections Store.own_onManualSync nodup,
    y.routeForward_snd s selections Store.onManualSync_snd _⟩

/-- A manual sync can be made again, and again leads to the same. -/
theorem manualSync_again {document : Uri} (source : s.naming.isTarget document = false) :
    let synced := y.manualSync s document selections
    y.manualSync synced.2 document selections = synced := by
  intro synced
  let targets := y.openLinked s document
  have after : synced.2 = targets.foldl Store.arm s := congrArg Prod.snd (manualSync_source source)
  have named : (targets.foldl Store.arm s).naming.isTarget document = false := by
    rw [Store.naming_foldl_arm]
    exact source
  have answers : y.answer? (targets.foldl Store.arm s) selections Store.onManualSync .forward =
      y.answer? s selections Store.onManualSync .forward :=
    funext (answer?_onManualSync_of_armsJust (s.armsJust_foldl targets) .forward)
  rw [after, manualSync_source named, openLinked_foldl_arm, Store.foldl_arm_twice, answers]
  exact (manualSync_source source).symm

/-- A selection in a source does to the store what a manual sync does, and leads to the part of what a
manual sync leads to that comes from products which were armed before. A manual sync leads to the same
the second time, and changes nothing more. -/
theorem manual_sync_ignores_suppression (y : Synchronizer) (history : List Store.Operation)
    (document : Uri) (view : View) (selections : List Span)
    (source : Naming.default.isTarget document = false) (settled : y.isOpening document = false)
    (gesture : y.echoes.written.find? document ≠ some selections) :
    let s := (Store.new .default).run history
    let selected := y.onSelectionChanged s document view selections
    let synced := y.manualSync s document selections
    selected.2.2 = synced.2 ∧
    selected.1 = synced.1.filter (fun p => s.state? p.origin = some .armed) ∧
    y.manualSync synced.2 document selections = synced := by
  intro s selected synced
  have named : s.naming.isTarget document = false := by
    rw [Store.naming_run]
    exact source
  have sync : synced = _ := manualSync_source named
  obtain ⟨pending, armed⟩ := onSelectionChanged_source source view settled gesture
  refine ⟨?_, ?_, manualSync_again named⟩
  · rw [sync]
    exact armed
  · rw [sync, List.filter_filterMap]
    refine pending.trans (List.filterMap_congr fun target _ => ?_)
    exact answer?_onSelection_eq_filter .forward target

namespace Sample

open Store.Republished

theorem synced_both : (shown.manualSync stocked product.source [.caret 2]).1 =
    [⟨target, ⟨2, true⟩, target, ⟨1⟩, [⟨0, 3⟩]⟩,
      ⟨graphTarget, ⟨2, true⟩, graphTarget, ⟨2⟩, [⟨0, 3⟩]⟩] := by cbv

theorem state?_stocked :
    stocked.state? target = some .armed ∧ stocked.state? graphTarget = some .unarmed := by
  rw [Store.state?, Store.state?, found, found_graph]
  exact ⟨rfl, rfl⟩

/-- A manual sync gets through to both products, and a selection to one of them. -/
theorem sync_reaches_unarmed :
    let selected := shown.onSelectionChanged stocked product.source ⟨1⟩ [.caret 2]
    let synced := shown.manualSync stocked product.source [.caret 2]
    Naming.default.isTarget product.source = false ∧
    shown.isOpening product.source = false ∧
    shown.echoes.written.find? product.source ≠ some [.caret 2] ∧
    synced.1.map (·.origin) = [target, graphTarget] ∧ selected.1.map (·.origin) = [target] ∧
    selected.2.2 = synced.2 ∧ shown.manualSync synced.2 product.source [.caret 2] = synced := by
  intro selected synced
  have source : Naming.default.isTarget product.source = false := by decide
  have settled : shown.isOpening product.source = false := rfl
  have gesture : shown.echoes.written.find? product.source ≠ some [.caret 2] := nofun
  obtain ⟨store, suppressed, again⟩ := manual_sync_ignores_suppression shown history product.source
    ⟨1⟩ [.caret 2] source settled gesture
  obtain ⟨armed, unarmed⟩ := state?_stocked
  have one : selected.1 = [⟨target, ⟨2, true⟩, target, ⟨1⟩, [⟨0, 3⟩]⟩] := by
    have through : selected.1 = synced.1.filter fun p => stocked.state? p.origin = some .armed :=
      suppressed
    rw [through, synced_both]
    simp [armed, unarmed]
  refine ⟨source, settled, gesture, ?_, ?_, store, again⟩
  · rw [synced_both]
    rfl
  · rw [one]
    rfl

end Sample

end LinkedViews.Synchronizer
