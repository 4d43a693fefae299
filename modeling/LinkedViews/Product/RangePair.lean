import LinkedViews.Text.Decimal

/-! Spans of text and the pairs that relate a span of a source document to a span of a product. -/
namespace LinkedViews

/-- The offsets from `start` up to but not including `stop`. A selection is a span, and a caret is
an empty one. -/
structure Span where
  start : UInt64
  stop : UInt64
  deriving DecidableEq, Repr, Inhabited

namespace Span

def caret (offset : UInt64) : Span := ⟨offset, offset⟩

def contains (s : Span) (offset : UInt64) : Bool := s.start ≤ offset && offset < s.stop

def isOrdered (s : Span) : Bool := s.start ≤ s.stop

/-- An inverted span has no offsets. -/
def length (s : Span) : Nat := s.stop.toNat - s.start.toNat

def text (s : Span) : String := s!"[{s.start.toNat}, {s.stop.toNat})"

end Span

structure RangePair where
  source : Span
  target : Span
  deriving DecidableEq, Repr, Inhabited

namespace RangePair

/-- Maps to the empty selection at the start of the document. -/
def degenerate : RangePair := ⟨⟨0, 0⟩, ⟨0, 0⟩⟩

def isOrdered (p : RangePair) : Bool := p.source.isOrdered && p.target.isOrdered

def text (p : RangePair) : String :=
  "RangePair \x7b sbegin: " ++ toString p.source.start.toNat ++ ", send: "
    ++ toString p.source.stop.toNat ++ ", tbegin: " ++ toString p.target.start.toNat
    ++ ", tend: " ++ toString p.target.stop.toNat ++ " \x7d"

end RangePair

/-- Which way a selection travels. -/
inductive Direction
  | forward
  | backward
  deriving DecidableEq, Repr

namespace Direction

/-- Forward from the source to the product. -/
def origin : Direction → RangePair → Span
  | forward, p => p.source
  | backward, p => p.target

def destination : Direction → RangePair → Span
  | forward, p => p.target
  | backward, p => p.source

def text : Direction → String
  | forward => "forward"
  | backward => "backward"

end Direction

end LinkedViews
