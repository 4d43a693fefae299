import LinkedViews.Product.Basic
import Mathlib.Data.List.Basic

/-! Validation of a product: whether all of its pairs are ordered, and which pair is blamed if not. -/
namespace LinkedViews

theorem RangePair.isOrdered_iff (p : RangePair) : p.isOrdered = true ↔
    p.source.start ≤ p.source.stop ∧ p.target.start ≤ p.target.stop := by
  simp [isOrdered, Span.isOrdered]

namespace Product

theorem firstInverted?_eq_none_iff {pairs : List RangePair} :
    firstInverted? pairs = none ↔ ∀ pair ∈ pairs, pair.isOrdered = true := by
  rw [firstInverted?, Option.map_eq_none_iff, List.find?_eq_none]
  constructor
  · intro ordered pair member
    obtain ⟨i, bound, rfl⟩ := List.mem_iff_getElem.mp member
    have inPlace : (pairs[i], i) ∈ pairs.zipIdx := List.mk_mem_zipIdx_iff_getElem?.mpr (by simp)
    simpa using ordered _ inPlace
  · intro ordered item member
    simp [ordered item.1 (List.fst_mem_of_mem_zipIdx member)]

/-- The pair that is blamed stands in its place, is not ordered, and all before it are. -/
theorem of_firstInverted? {pairs : List RangePair} {i : Nat} {pair : RangePair}
    (found : firstInverted? pairs = some (i, pair)) :
    pairs[i]? = some pair ∧ pair.isOrdered = false ∧
      ∀ j < i, ∀ earlier, pairs[j]? = some earlier → earlier.isOrdered = true := by
  obtain ⟨⟨pair', i'⟩, first, same⟩ := Option.map_eq_some_iff.mp found
  obtain ⟨rfl, rfl⟩ : i' = i ∧ pair' = pair := Prod.mk.inj same
  obtain ⟨inverted, k, bound, here, before⟩ := List.find?_eq_some_iff_getElem.mp first
  simp only [List.getElem_zipIdx, Nat.zero_add, Prod.mk.injEq] at here
  obtain ⟨rfl, rfl⟩ := here
  rw [List.length_zipIdx] at bound
  refine ⟨List.getElem?_eq_getElem bound, by simpa using inverted, fun j less earlier there => ?_⟩
  obtain ⟨inside, rfl⟩ := List.getElem?_eq_some_iff.mp there
  simpa using before j less

theorem validate_eq_ok_iff {p : Product} :
    p.validate = .ok () ↔ ∀ pair ∈ p.rangeMap, pair.isOrdered = true := by
  rw [← firstInverted?_eq_none_iff, validate]
  cases firstInverted? p.rangeMap <;> simp

/-- The pair with the least index of those that are not ordered. -/
theorem validate_of_inverted {p : Product} (inverted : ∃ pair ∈ p.rangeMap, pair.isOrdered = false) :
    ∃ i pair, p.validate = .error (.invertedSpan i pair) ∧ p.rangeMap[i]? = some pair ∧
      pair.isOrdered = false ∧
      ∀ j < i, ∀ earlier, p.rangeMap[j]? = some earlier → earlier.isOrdered = true := by
  cases first : firstInverted? p.rangeMap with
  | none =>
    obtain ⟨pair, member, bad⟩ := inverted
    rw [firstInverted?_eq_none_iff.mp first pair member] at bad
    contradiction
  | some blamed => exact ⟨blamed.1, blamed.2, by rw [validate, first], of_firstInverted? first⟩

end Product

end LinkedViews
