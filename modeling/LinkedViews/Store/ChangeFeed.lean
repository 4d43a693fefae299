/-! A bounded broadcast over a log that only grows. A receiver that fell behind by more than the
capacity is told once how much it lost, and goes on with the oldest entry that is kept. -/
namespace LinkedViews

def roundCapacity (requested : Nat) : Nat := (max requested 1).nextPowerOfTwo

/-- How much of the log a receiver has taken or lost. -/
structure Receiver where
  position : Nat
  deriving DecidableEq, Repr

inductive Received (α : Type)
  | entry (value : α)
  | lagged (lost : Nat)
  deriving DecidableEq, Repr

namespace Receiver

variable {α : Type}

def new (log : List α) : Receiver := ⟨log.length⟩

def lost (r : Receiver) (capacity : Nat) (log : List α) : Nat :=
  (log.length - capacity) - r.position

/-- The next thing there is for the receiver, if any. -/
def next? (r : Receiver) (capacity : Nat) (log : List α) : Option (Received α × Receiver) :=
  if r.lost capacity log ≠ 0 then
    some (.lagged (r.lost capacity log), ⟨r.position + r.lost capacity log⟩)
  else (log[r.position]?).map fun value => (.entry value, ⟨r.position + 1⟩)

theorem position_lt_of_next? {r next : Receiver} {capacity : Nat} {log : List α} {received : Received α}
    (some : r.next? capacity log = some (received, next)) :
    log.length - next.position < log.length - r.position := by
  unfold next? at some
  split at some
  next behind =>
    simp only [Option.some.injEq, Prod.mk.injEq] at some
    simp only [← some.2, lost] at behind ⊢
    omega
  next =>
    obtain ⟨value, here, same⟩ := Option.map_eq_some_iff.mp some
    have within := (List.getElem?_eq_some_iff.mp here).1
    simp only [Prod.mk.injEq] at same
    simp only [← same.2]
    omega

/-- Asks until there is nothing more. -/
def drain (r : Receiver) (capacity : Nat) (log : List α) : List (Received α) × Receiver :=
  match _ : r.next? capacity log with
  | none => ([], r)
  | some (received, next) =>
    let (rest, last) := next.drain capacity log
    (received :: rest, last)
termination_by log.length - r.position
decreasing_by exact position_lt_of_next? ‹_›

end Receiver

end LinkedViews
