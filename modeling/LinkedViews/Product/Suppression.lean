/-! Telling gestures from artifacts. An editor that refreshes a view reports a selection of its own;
so after each publish the first selection event is absorbed, and only later ones propagate. -/
namespace LinkedViews

/-- Armed products propagate selection events. -/
inductive Suppression
  | unarmed
  | armed
  deriving DecidableEq, Repr

inductive Trigger
  | republished
  | selectionChanged
  | manualSync
  deriving DecidableEq, Repr

inductive Action
  | none
  | absorb
  | propagate
  deriving DecidableEq, Repr

namespace Suppression

/-- A manual sync always propagates, and arms for the events that follow it. -/
def react : Suppression → Trigger → Suppression × Action
  | _, .republished => (unarmed, .none)
  | unarmed, .selectionChanged => (armed, .absorb)
  | armed, .selectionChanged => (armed, .propagate)
  | _, .manualSync => (armed, .propagate)

end Suppression

end LinkedViews
