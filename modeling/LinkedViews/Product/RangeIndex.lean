import LinkedViews.Product.RangePair

/-! Looking up the pair that governs an offset. Among the pairs that hold an offset of the product,
the one with the smallest product span governs it; among those that hold an offset of the source,
the one with the largest product span. Of equal sizes the first published governs. -/
namespace LinkedViews

/-- The same pairs in both orders, and the answer when no pair holds an offset. -/
structure RangeIndex where
  ascending : List RangePair
  descending : List RangePair
  fallback : Option RangePair
  deriving DecidableEq, Repr

namespace RangeIndex

def build (pairs : List RangePair) : RangeIndex where
  ascending := pairs.mergeSort fun a b => a.target.length ≤ b.target.length
  descending := pairs.mergeSort fun a b => b.target.length ≤ a.target.length
  fallback := none

/-- Answers every offset with the degenerate pair. -/
def neutral : RangeIndex where
  ascending := [.degenerate]
  descending := [.degenerate]
  fallback := some .degenerate

def size (index : RangeIndex) : Nat := index.ascending.length

def ordered (index : RangeIndex) : Direction → List RangePair
  | .forward => index.descending
  | .backward => index.ascending

def find? (index : RangeIndex) (direction : Direction) (offset : UInt64) : Option RangePair :=
  ((index.ordered direction).find? fun pair => (direction.origin pair).contains offset).or
    index.fallback

/-- Where a selection lands, by its start. -/
def destination? (index : RangeIndex) (direction : Direction) (selection : Span) : Option Span :=
  (index.find? direction selection.start).map direction.destination

def addNew (seen : List Span) (span : Span) : List Span :=
  if span ∈ seen then seen else seen ++ [span]

/-- Unmapped selections are dropped, and each span is kept once, where it came first. -/
def mapSelections (index : RangeIndex) (direction : Direction) (selections : List Span) :
    List Span :=
  (selections.filterMap (index.destination? direction)).foldl addNew []

end RangeIndex

end LinkedViews
