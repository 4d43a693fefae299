import LinkedViews.Keyed
import LinkedViews.Product.RangePair

/-! The selections last written to each document, so that the report of a write can be told from a
gesture. Whatever event comes next uses up the record. -/
namespace LinkedViews

structure Echoes (κ : Type) where
  written : Keyed κ (List Span)

namespace Echoes

variable {κ : Type} [DecidableEq κ]

def empty : Echoes κ := ⟨.empty⟩

def record (e : Echoes κ) (document : κ) (selections : List Span) : Echoes κ :=
  ⟨e.written.put document selections⟩

def forget (e : Echoes κ) (document : κ) : Echoes κ := ⟨e.written.erase document⟩

def isPending (e : Echoes κ) (document : κ) : Bool := e.written.contains document

/-- Whether the event reports the recorded write; the record is gone either way. -/
def absorb (e : Echoes κ) (document : κ) (selections : List Span) : Bool × Echoes κ :=
  (e.written.find? document == some selections, e.forget document)

theorem find?_record (e : Echoes κ) (document other : κ) (selections : List Span) :
    (e.record document selections).written.find? other =
      if document = other then some selections else e.written.find? other :=
  e.written.find?_put document other selections

theorem find?_forget (e : Echoes κ) (document other : κ) :
    (e.forget document).written.find? other =
      if document = other then none else e.written.find? other :=
  e.written.find?_erase document other

end Echoes

end LinkedViews
