import LinkedViews.Product.RangeIndex
import Mathlib.Data.List.Basic

/-! Which pair governs an offset. Both orders of an index are stable, so the first match in either is
the pair of extreme size that was published first, however the spans overlap. -/
namespace LinkedViews

/-- The item matches; of the matches before it each is larger, and after it none is smaller. -/
def FirstLeast {α : Type} (le : α → α → Bool) (p : α → Bool) (l : List α) (a : α) : Prop :=
  p a ∧ ∃ before after, l = before ++ a :: after ∧
    (∀ b ∈ before, p b → le b a = false) ∧ ∀ b ∈ after, p b → le a b

theorem FirstLeast.unique {α : Type} {le : α → α → Bool} {p : α → Bool} {l : List α} {a c : α}
    (first : FirstLeast le p l a) (second : FirstLeast le p l c) : a = c := by
  obtain ⟨holds, before, after, rfl, larger, least⟩ := first
  obtain ⟨holds', before', after', same, larger', least'⟩ := second
  rcases List.append_eq_append_iff.mp same with ⟨between, rfl, eq⟩ | ⟨between, rfl, eq⟩ <;>
    rw [List.cons_eq_append_iff] at eq <;> rcases eq with ⟨-, eq⟩ | ⟨rest, rfl, rfl⟩
  case inl.inl => exact (List.cons.inj eq).1.symm
  case inr.inl => exact (List.cons.inj eq).1
  case inl.inr =>
    have smaller := least c (by simp) holds'
    rw [larger' a (by simp) holds] at smaller
    contradiction
  case inr.inr =>
    have smaller := least' a (by simp) holds
    rw [larger c (by simp) holds'] at smaller
    contradiction

section Sorted

variable {α : Type} {le : α → α → Bool} (trans : ∀ a b c, le a b → le b c → le a c)
  (total : ∀ a b, le a b || le b a)

include trans total

/-- Items of one size stay as they stand among each other. -/
theorem filter_mergeSort_of_tied {p : α → Bool} (tied : ∀ a b, p a → p b → le a b) (l : List α) :
    (l.mergeSort le).filter p = l.filter p := by
  have inOrder : (l.filter p).Pairwise (le · ·) := by
    rw [List.pairwise_filter]
    exact List.pairwise_of_forall fun a b holds holds' => tied a b holds holds'
  have kept := (List.sublist_mergeSort trans total inOrder List.filter_sublist).filter p
  simp only [List.filter_filter, Bool.and_self] at kept
  exact (kept.eq_of_length ((List.mergeSort_perm l le).filter p).length_eq.symm).symm

theorem firstLeast_of_find?_mergeSort {p : α → Bool} {l : List α} {a : α}
    (found : (l.mergeSort le).find? p = some a) : FirstLeast le p l a := by
  obtain ⟨holds, skipped, rest, sorted, none⟩ := List.find?_eq_some_iff_append.mp found
  have free {b : α} (member : b ∈ skipped) : p b = false := by simpa using none b member
  have inOrder : (skipped ++ a :: rest).Pairwise (le · ·) :=
    sorted ▸ List.pairwise_mergeSort trans total l
  have among {b : α} : b ∈ l ↔ b ∈ skipped ++ a :: rest := by rw [← sorted, List.mem_mergeSort]
  have least {b : α} (member : b ∈ l) (holds' : p b) : le a b := by
    rw [among, List.mem_append, List.mem_cons] at member
    rcases member with earlier | rfl | later
    · rw [free earlier] at holds'
      contradiction
    · simpa using total b b
    · exact (List.pairwise_cons.mp (List.pairwise_append.mp inOrder).2.1).1 b later
  obtain ⟨before, after, rfl, first⟩ := List.eq_append_cons_of_mem (among.mpr (by simp : a ∈ _))
  refine ⟨holds, before, after, rfl, fun b earlier holds' => ?_, fun b later holds' =>
    least (by simp [later]) holds'⟩
  by_contra tied
  -- both lists begin alike once only the matches of this size are kept, and `b` is one of them
  let q (x : α) : Bool := p x && le x a && le a x
  have same : (skipped ++ a :: rest).filter q = (before ++ a :: after).filter q := by
    rw [← sorted]
    refine filter_mergeSort_of_tied trans total (fun x z small large => ?_) _
    simp only [q, Bool.and_eq_true] at small large
    exact trans x a z small.1.2 large.2
  have own : q a := by simpa [q, holds] using total a a
  have skip : skipped.filter q = [] := by
    rw [List.filter_eq_nil_iff]
    intro x earlier
    simp [q, free earlier]
  have kept : b ∈ before.filter q := by
    rw [List.mem_filter]
    refine ⟨earlier, ?_⟩
    simp only [q, holds', Bool.true_and, Bool.and_eq_true]
    exact ⟨by simpa using tied, least (by simp [earlier]) holds'⟩
  obtain ⟨x, others, eq⟩ := List.exists_cons_of_ne_nil (List.ne_nil_of_mem kept)
  rw [List.filter_append, skip, List.nil_append, List.filter_cons_of_pos own,
    List.filter_append, eq, List.cons_append] at same
  obtain ⟨rfl, -⟩ := List.cons.inj same
  exact first (List.mem_of_mem_filter (eq ▸ List.mem_cons_self))

theorem find?_mergeSort_eq_some_iff {p : α → Bool} {l : List α} {a : α} :
    (l.mergeSort le).find? p = some a ↔ FirstLeast le p l a := by
  refine ⟨firstLeast_of_find?_mergeSort trans total, fun first => ?_⟩
  cases found : (l.mergeSort le).find? p with
  | none =>
    obtain ⟨holds, before, after, rfl, -, -⟩ := first
    exact absurd holds (List.find?_eq_none.mp found a (by simp))
  | some c => rw [first.unique (firstLeast_of_find?_mergeSort trans total found)]

end Sorted

namespace Span

/-- All offsets of one span are offsets of the other. -/
def Within (s t : Span) : Prop := ∀ offset, s.contains offset = true → t.contains offset = true

/-- No offset lies in both. -/
def Apart (s t : Span) : Prop := ∀ offset, s.contains offset = true → t.contains offset = false

theorem contains_iff (s : Span) (offset : UInt64) :
    s.contains offset = true ↔ s.start.toNat ≤ offset.toNat ∧ offset.toNat < s.stop.toNat := by
  simp [contains, UInt64.le_iff_toNat_le, UInt64.lt_iff_toNat_lt]

/-- A span with an offset fills one that holds it and is no longer. -/
theorem within_of_length_le {s t : Span} {offset : UInt64} (inner : t.Within s)
    (holds : t.contains offset = true) (short : s.length ≤ t.length) : s.Within t := by
  rw [contains_iff] at holds
  have first := (s.contains_iff _).mp (inner t.start (by rw [contains_iff]; omega))
  have last : t.stop.toNat ≤ s.stop.toNat := by
    have bound := t.stop.toNat_lt
    have value : (UInt64.ofNat (t.stop.toNat - 1)).toNat = t.stop.toNat - 1 := by
      rw [UInt64.toNat_ofNat']
      omega
    have held := (s.contains_iff _).mp
      (inner (UInt64.ofNat (t.stop.toNat - 1)) (by rw [contains_iff, value]; omega))
    omega
  intro x inside
  rw [contains_iff] at inside ⊢
  rw [length, length] at short
  omega

end Span

/-- Any two product spans lie in each other or apart. -/
def Nested (pairs : List RangePair) : Prop :=
  ∀ p ∈ pairs, ∀ q ∈ pairs,
    p.target.Within q.target ∨ q.target.Within p.target ∨ p.target.Apart q.target

namespace RangeIndex

variable {pairs : List RangePair} {pair : RangePair} {offset : UInt64}

/-- Whether its size lets a pair be looked at before another. -/
def ahead : Direction → RangePair → RangePair → Bool
  | .forward, a, b => b.target.length ≤ a.target.length
  | .backward, a, b => a.target.length ≤ b.target.length

theorem ordered_build (pairs : List RangePair) (direction : Direction) :
    (build pairs).ordered direction = pairs.mergeSort (ahead direction) := by
  cases direction <;> rfl

theorem ahead_trans (direction : Direction) (a b c : RangePair) (first : ahead direction a b)
    (second : ahead direction b c) : ahead direction a c := by
  cases direction <;> simp only [ahead, decide_eq_true_eq] at * <;> omega

theorem ahead_total (direction : Direction) (a b : RangePair) :
    ahead direction a b || ahead direction b a := by
  cases direction <;> simp only [ahead, Bool.or_eq_true, decide_eq_true_eq] <;> omega

theorem find?_build_eq_some_iff (direction : Direction) :
    (build pairs).find? direction offset = some pair ↔
      FirstLeast (ahead direction) (fun pair => (direction.origin pair).contains offset) pairs
        pair := by
  rw [← find?_mergeSort_eq_some_iff (ahead_trans direction) (ahead_total direction), find?,
    ordered_build]
  simp [build]

theorem find?_build_eq_none_iff (direction : Direction) :
    (build pairs).find? direction offset = none ↔
      ∀ pair ∈ pairs, (direction.origin pair).contains offset = false := by
  rw [find?, ordered_build]
  simp [build]

/-- The pair that governs an offset, for every list of pairs. An offset of the product is governed by
the shortest product span that holds it, an offset of the source by the pair with the longest product
span whose source span holds it; of equal lengths the pair that comes first governs, and nothing
governs an offset that no span holds. Where product spans nest, the one that governs lies in all
others that hold the offset. -/
theorem governing_pair (pairs : List RangePair) (offset : UInt64) :
    let index := build pairs
    (index.find? .backward offset = none ↔ ∀ p ∈ pairs, p.target.contains offset = false) ∧
    (∀ p, index.find? .backward offset = some p ↔ p.target.contains offset = true ∧
      ∃ before after, pairs = before ++ p :: after ∧
        (∀ q ∈ before, q.target.contains offset = true → p.target.length < q.target.length) ∧
        ∀ q ∈ after, q.target.contains offset = true → p.target.length ≤ q.target.length) ∧
    (index.find? .forward offset = none ↔ ∀ p ∈ pairs, p.source.contains offset = false) ∧
    (∀ p, index.find? .forward offset = some p ↔ p.source.contains offset = true ∧
      ∃ before after, pairs = before ++ p :: after ∧
        (∀ q ∈ before, q.source.contains offset = true → q.target.length < p.target.length) ∧
        ∀ q ∈ after, q.source.contains offset = true → q.target.length ≤ p.target.length) ∧
    (Nested pairs → ∀ p, index.find? .backward offset = some p →
      ∀ q ∈ pairs, q.target.contains offset = true → p.target.Within q.target) := by
  intro index
  refine ⟨find?_build_eq_none_iff .backward, fun p => ?_, find?_build_eq_none_iff .forward,
    fun p => ?_, fun nested p found q among holds => ?_⟩
  · rw [find?_build_eq_some_iff]
    simp [FirstLeast, ahead, Direction.origin]
  · rw [find?_build_eq_some_iff]
    simp [FirstLeast, ahead, Direction.origin]
  · obtain ⟨own, before, after, rfl, larger, least⟩ := (find?_build_eq_some_iff .backward).mp found
    simp only [ahead, Direction.origin, decide_eq_true_eq, decide_eq_false_iff_not,
      Nat.not_le] at larger least
    have shortest : p.target.length ≤ q.target.length := by
      rcases List.mem_append.mp among with earlier | rest
      · exact Nat.le_of_lt (larger q earlier holds)
      · rcases List.mem_cons.mp rest with rfl | later
        · exact Nat.le_refl _
        · exact least q later holds
    rcases nested p (by simp) q among with within | within | apart
    · exact within
    · exact Span.within_of_length_le within holds shortest
    · rw [apart offset own] at holds
      contradiction

namespace Sample

def inner : RangePair := ⟨⟨2, 4⟩, ⟨5, 8⟩⟩

def twin : RangePair := { inner with source := ⟨3, 5⟩ }

def outer : RangePair := ⟨⟨0, 10⟩, ⟨0, 20⟩⟩

def published : List RangePair := [outer, inner, twin, outer]

theorem nested : Nested published := by
  have within : inner.target.Within outer.target := by
    intro offset
    simp only [Span.contains_iff, inner, outer, UInt64.reduceToNat]
    omega
  have same (s : Span) : s.Within s := fun _ => id
  simp [Nested, published, twin, within, same]

/-- Of the two shortest spans the first governs, and it lies in the others. -/
theorem innermost_first : Nested published ∧ (build published).find? .backward 6 = some inner ∧
    inner ∈ published ∧ outer ∈ published ∧ outer.target.contains 6 = true ∧
    inner.target.Within outer.target := by
  have governs := governing_pair published 6
  have found : (build published).find? .backward 6 = some inner := by
    refine (governs.2.1 inner).mpr ⟨rfl, [outer], [twin, outer], rfl, ?_, ?_⟩
    · simp [inner, outer, Span.length]
    · simp [inner, twin, outer, Span.length]
  exact ⟨nested, found, by simp [published], by simp [published], rfl,
    governs.2.2.2.2 nested inner found outer (by simp [published]) rfl⟩

end Sample

theorem foldl_addNew_eq_nil_iff {seen spans : List Span} :
    spans.foldl addNew seen = [] ↔ seen = [] ∧ spans = [] := by
  induction spans generalizing seen with
  | nil => simp
  | cons span spans ih =>
    have kept : addNew seen span ≠ [] := by
      unfold addNew
      split
      next member => exact List.ne_nil_of_mem member
      next => simp
    rw [List.foldl_cons, ih]
    simp [kept]

/-- Selections are mapped to something as soon as a pair governs the start of one of them. -/
theorem mapSelections_ne_nil_iff {index : RangeIndex} {direction : Direction}
    {selections : List Span} : index.mapSelections direction selections ≠ [] ↔
      ∃ selection ∈ selections, (index.find? direction selection.start).isSome := by
  rw [mapSelections, ne_eq, foldl_addNew_eq_nil_iff]
  simp [List.filterMap_eq_nil_iff, destination?, Option.isSome_iff_ne_none]

end RangeIndex

end LinkedViews
