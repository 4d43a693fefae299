import LinkedViews.Proofs.Product.Governing
import Mathlib

/-! Selections carried across. A selection lands on the other span of the pair that governs its start,
or on none. Of those that land on one span the first decides where the span stands, and the others
leave no trace. -/
namespace LinkedViews.RangeIndex

section Carried

variable (index : RangeIndex) (direction : Direction)

/-- How many of these selections come before the first one that lands on the span. -/
def firstLanding (selections : List Span) (span : Span) : Nat :=
  selections.findIdx fun selection => index.destination? direction selection = some span

/-- What these selections leave: the spans on which they land, in the order in which each was landed
on first. -/
structure Collected (selections spans : List Span) : Prop where
  landed : ∀ span, span ∈ spans ↔
    ∃ selection ∈ selections, index.destination? direction selection = some span
  ordered : spans.Pairwise fun a b =>
    index.firstLanding direction selections a < index.firstLanding direction selections b

variable {index direction} {selections spans : List Span} {selection span : Span}

theorem firstLanding_lt_length :
    index.firstLanding direction selections span < selections.length ↔
      ∃ selection ∈ selections, index.destination? direction selection = some span := by
  simp [firstLanding, List.findIdx_lt_length]

theorem firstLanding_append_of_lt
    (earlier : index.firstLanding direction selections span < selections.length)
    (later : List Span) : index.firstLanding direction (selections ++ later) span =
      index.firstLanding direction selections span := by
  rw [firstLanding, List.findIdx_append]
  exact if_pos earlier

theorem firstLanding_concat_self
    (new : ¬index.firstLanding direction selections span < selections.length)
    (lands : index.destination? direction selection = some span) :
    index.firstLanding direction (selections ++ [selection]) span = selections.length := by
  rw [firstLanding, List.findIdx_append]
  refine (if_neg new).trans ?_
  simp [lands]

namespace Collected

theorem nodup (collected : Collected index direction selections spans) : spans.Nodup := by
  refine collected.ordered.imp fun {a b} before same => ?_
  rw [same] at before
  exact Nat.lt_irrefl _ before

/-- The spans so far keep their order when one more selection is made. -/
theorem ordered_concat (collected : Collected index direction selections spans)
    (selection : Span) : spans.Pairwise fun a b =>
      index.firstLanding direction (selections ++ [selection]) a <
        index.firstLanding direction (selections ++ [selection]) b := by
  refine collected.ordered.imp_of_mem fun {a b} left right before => ?_
  have first {span : Span} (among : span ∈ spans) :=
    firstLanding_append_of_lt (firstLanding_lt_length.mpr ((collected.landed span).mp among))
      [selection]
  rwa [first left, first right]

theorem concat_unmapped (collected : Collected index direction selections spans)
    (unmapped : index.destination? direction selection = none) :
    Collected index direction (selections ++ [selection]) spans where
  landed span := by
    rw [collected.landed]
    simp [or_and_right, exists_or, unmapped]
  ordered := collected.ordered_concat selection

theorem concat_mapped (collected : Collected index direction selections spans)
    (lands : index.destination? direction selection = some span) :
    Collected index direction (selections ++ [selection]) (addNew spans span) := by
  have among (other : Span) : other ∈ spans ∨ other = span ↔
      ∃ s ∈ selections ++ [selection], index.destination? direction s = some other := by
    rw [collected.landed]
    simp [or_and_right, exists_or, lands, eq_comm]
  unfold addNew
  split
  next seen =>
    refine ⟨fun other => ?_, collected.ordered_concat selection⟩
    rw [← among other, or_iff_left_of_imp]
    rintro rfl
    exact seen
  next new =>
    refine ⟨fun other => ?_, List.pairwise_append.mpr
      ⟨collected.ordered_concat selection, List.pairwise_singleton _ _, fun a earlier b last => ?_⟩⟩
    · rw [← among other, List.mem_append, List.mem_singleton]
    · obtain rfl := List.mem_singleton.mp last
      have before := firstLanding_lt_length.mpr ((collected.landed a).mp earlier)
      rw [collected.landed b, ← firstLanding_lt_length] at new
      rwa [firstLanding_append_of_lt before, firstLanding_concat_self new lands]

end Collected

theorem mapSelections_concat (selections : List Span) (selection : Span) :
    index.mapSelections direction (selections ++ [selection]) =
      match index.destination? direction selection with
      | none => index.mapSelections direction selections
      | some span => addNew (index.mapSelections direction selections) span := by
  cases lands : index.destination? direction selection with
  | none => simp [mapSelections, lands]
  | some span => simp [mapSelections, lands]

/-- By induction on the selections, from the last one on. -/
theorem collected_mapSelections (selections : List Span) :
    Collected index direction selections (index.mapSelections direction selections) := by
  induction selections using List.reverseRecOn with
  | nil => exact ⟨fun span => by simp [mapSelections], List.Pairwise.nil⟩
  | append_singleton selections selection ih =>
    rw [mapSelections_concat]
    cases lands : index.destination? direction selection with
    | none => exact ih.concat_unmapped lands
    | some span => exact ih.concat_mapped lands

theorem addNew_append_filter (seen spans : List Span) (span : Span) :
    addNew (seen ++ spans.filter (· ∉ seen)) span =
      seen ++ (addNew spans span).filter (· ∉ seen) := by
  by_cases old : span ∈ seen
  · by_cases again : span ∈ spans <;> simp [addNew, old, again]
  · by_cases again : span ∈ spans <;> simp [addNew, old, again]

theorem mapSelections_append (front back : List Span) :
    index.mapSelections direction (front ++ back) = index.mapSelections direction front ++
      (index.mapSelections direction back).filter
        (· ∉ index.mapSelections direction front) := by
  induction back using List.reverseRecOn with
  | nil => simp [mapSelections]
  | append_singleton back selection ih =>
    rw [← List.append_assoc, mapSelections_concat, mapSelections_concat, ih]
    cases index.destination? direction selection with
    | none => rfl
    | some span => exact addNew_append_filter _ _ span

theorem destination?_congr {a b : Span} (same : a.start = b.start) :
    index.destination? direction a = index.destination? direction b := by
  rw [destination?, destination?, same]

theorem mapSelections_concat_again {earlier : Span} (among : earlier ∈ selections)
    (same : earlier.start = selection.start) :
    index.mapSelections direction (selections ++ [selection]) =
      index.mapSelections direction selections := by
  rw [mapSelections_concat, ← destination?_congr same]
  cases lands : index.destination? direction earlier with
  | none => rfl
  | some span =>
    have seen : span ∈ index.mapSelections direction selections :=
      ((collected_mapSelections selections).landed span).mpr ⟨earlier, among, lands⟩
    exact if_pos seen

theorem mapSelections_of_starts {a b : List Span} (same : a.map Span.start = b.map Span.start) :
    index.mapSelections direction a = index.mapSelections direction b := by
  have starts (selections : List Span) :
      selections.filterMap (index.destination? direction) =
        (selections.map Span.start).filterMap
          fun start => (index.find? direction start).map direction.destination := by
    rw [List.filterMap_map]
    rfl
  rw [mapSelections, mapSelections, starts, starts, same]

end Carried

/-- Selections are carried across as one list without repetitions, for every index. It holds the
destinations of the pairs that govern the starts of selections, and nothing else, in the order in
which the selections first lead there; it is empty exactly if no start is governed. Carrying two
lists across one behind the other keeps of the second what the first did not bring. So a selection
that starts where an earlier one does adds nothing, and the ends of selections are never looked at. -/
theorem selections_carried_across (index : RangeIndex) (direction : Direction) :
    let carried := index.mapSelections direction
    (∀ selections, (carried selections).Nodup ∧
      (∀ span, span ∈ carried selections ↔ ∃ selection ∈ selections, ∃ pair,
        index.find? direction selection.start = some pair ∧ direction.destination pair = span) ∧
      ((carried selections).Pairwise fun a b => index.firstLanding direction selections a <
        index.firstLanding direction selections b) ∧
      (carried selections = [] ↔
        ∀ selection ∈ selections, index.find? direction selection.start = none)) ∧
    (∀ front back, carried (front ++ back) =
      carried front ++ (carried back).filter (· ∉ carried front)) ∧
    (∀ front selection back, (∃ earlier ∈ front, earlier.start = selection.start) →
      carried (front ++ selection :: back) = carried (front ++ back)) ∧
    ∀ a b, a.map Span.start = b.map Span.start → carried a = carried b := by
  intro carried
  refine ⟨fun selections => ?_, mapSelections_append, ?_, fun a b => mapSelections_of_starts⟩
  · have collected : Collected index direction selections (carried selections) :=
      collected_mapSelections selections
    refine ⟨collected.nodup, fun span => ?_, collected.ordered, ?_⟩
    · rw [collected.landed]
      simp only [destination?, Option.map_eq_some_iff]
    · rw [← not_iff_not]
      refine mapSelections_ne_nil_iff.trans ?_
      simp [Option.isSome_iff_ne_none]
  · rintro front selection back ⟨earlier, among, same⟩
    have again : carried (front ++ [selection]) = carried front :=
      mapSelections_concat_again among same
    calc carried (front ++ selection :: back)
      _ = carried (front ++ [selection] ++ back) := by rw [List.append_cons]
      _ = carried (front ++ [selection]) ++
          (carried back).filter (· ∉ carried (front ++ [selection])) :=
        mapSelections_append _ back
      _ = carried (front ++ back) := by
        rw [again]
        exact (mapSelections_append front back).symm

namespace Sample

/-- Two selections in the outer span, one between them that nothing governs, and one in the inner. -/
def made : List Span := [⟨12, 12⟩, ⟨30, 31⟩, ⟨6, 9⟩]

/-- The outer source span comes first, as its selection does; a selection that starts like the first
one changes nothing, wherever it ends. -/
theorem first_landing_first :
    (build published).mapSelections .backward made = [outer.source, inner.source] ∧
    (∃ selection ∈ made, ∃ pair, (build published).find? .backward selection.start = some pair ∧
      Direction.backward.destination pair = inner.source) ∧
    (∃ earlier ∈ made, earlier.start = 12) ∧
    (build published).mapSelections .backward (made ++ [⟨12, 40⟩]) =
      (build published).mapSelections .backward (made ++ []) ∧
    made.map Span.start = [Span.caret 12, .caret 30, .caret 6].map Span.start ∧
    (build published).mapSelections .backward made =
      (build published).mapSelections .backward [.caret 12, .caret 30, .caret 6] := by
  obtain ⟨each, _, again, starts⟩ := selections_carried_across (build published) .backward
  have carried : (build published).mapSelections .backward made =
      [outer.source, inner.source] := by cbv
  have landed : inner.source ∈ (build published).mapSelections .backward made := by simp [carried]
  have earlier : ∃ earlier ∈ made, earlier.start = 12 := ⟨⟨12, 12⟩, by simp [made], rfl⟩
  have same : made.map Span.start = [Span.caret 12, .caret 30, .caret 6].map Span.start := rfl
  exact ⟨carried, ((each made).2.1 inner.source).mp landed, earlier,
    again made ⟨12, 40⟩ [] earlier, same, starts made _ same⟩

end Sample

end LinkedViews.RangeIndex
