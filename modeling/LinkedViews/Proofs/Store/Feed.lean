import LinkedViews.Store.Documents

/-! What a feed gives to one that asks until there is nothing more. -/
namespace LinkedViews.Receiver

variable {α : Type} {r : Receiver} {capacity : Nat} {log : List α}

theorem next?_of_current (current : r.lost capacity log = 0) : r.next? capacity log =
    (log[r.position]?).map fun value => (.entry value, ⟨r.position + 1⟩) := by
  simp [next?, current]

theorem drain_of_next? {received : Received α} {next : Receiver}
    (some : r.next? capacity log = some (received, next)) : r.drain capacity log =
      (received :: (next.drain capacity log).1, (next.drain capacity log).2) := by
  rw [drain]
  split
  next none => rw [none] at some; contradiction
  next received' next' some' =>
    obtain ⟨rfl, rfl⟩ := Prod.mk.inj (Option.some.inj (some'.symm.trans some))
    rfl

theorem drain_of_none (none : r.next? capacity log = none) : r.drain capacity log = ([], r) := by
  rw [drain]
  split
  next => rfl
  next some => rw [none] at some; contradiction

/-- One that lost nothing is given all that it has not taken, by induction on how much that is. -/
theorem drain_of_current (current : r.lost capacity log = 0) (within : r.position ≤ log.length) :
    r.drain capacity log = ((log.drop r.position).map .entry, ⟨log.length⟩) := by
  induction left : log.length - r.position generalizing r with
  | zero =>
    obtain rfl : r = ⟨log.length⟩ := by
      obtain ⟨position⟩ := r
      simp only [mk.injEq] at left within ⊢
      omega
    have nothing : log[log.length]? = none := by simp
    rw [drain_of_none (by simp [next?_of_current current])]
    simp
  | succ left ih =>
    have here : r.position < log.length := by omega
    have next : r.next? capacity log = some (.entry log[r.position], ⟨r.position + 1⟩) := by
      simp [next?_of_current current, here]
    have still : lost ⟨r.position + 1⟩ capacity log = 0 := by
      simp only [lost] at current ⊢
      omega
    have rest := ih still here (by simp only; omega)
    rw [drain_of_next? next, rest, List.drop_eq_getElem_cons here, List.map_cons]

/-- Of what was added, as much as is kept, after one report of how much was lost. -/
def kept (capacity : Nat) (new : List α) : List (Received α) :=
  (if new.length ≤ capacity then [] else [.lagged (new.length - capacity)])
    ++ (new.drop (new.length - capacity)).map .entry

theorem drain_append (capacity : Nat) (old new : List α) :
    drain ⟨old.length⟩ capacity (old ++ new) = (kept capacity new, ⟨(old ++ new).length⟩) := by
  have lost : lost ⟨old.length⟩ capacity (old ++ new) = new.length - capacity := by
    simp only [Receiver.lost, List.length_append]
    omega
  by_cases fits : new.length ≤ capacity
  · have none : new.length - capacity = 0 := by omega
    rw [drain_of_current (lost.trans none) (by simp), kept, if_pos fits, none]
    simp
  · have behind : Receiver.lost ⟨old.length⟩ capacity (old ++ new) ≠ 0 := by omega
    have next : next? ⟨old.length⟩ capacity (old ++ new) =
        some (.lagged (new.length - capacity), ⟨old.length + (new.length - capacity)⟩) := by
      rw [next?, if_pos behind, lost]
    have caught : Receiver.lost ⟨old.length + (new.length - capacity)⟩ capacity (old ++ new) = 0 := by
      simp only [Receiver.lost, List.length_append]
      omega
    have rest := drain_of_current caught (by simp)
    rw [drain_of_next? next, rest, kept, if_neg fits]
    simp [List.drop_append]

end LinkedViews.Receiver
