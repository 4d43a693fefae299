import LinkedViews.Proofs.Store.Operations

/-! Arming products. Every event but a publish arms the product that it is about, whatever becomes of
the event; what is armed already stays as it is. -/
namespace LinkedViews

namespace Keyed

variable {κ α : Type} [DecidableEq κ]

theorem putIn_of_findIn {entries : List (κ × α)} {key : κ} {value : α}
    (found : findIn key entries = some value) : putIn key value entries = entries := by
  induction entries with
  | nil => simp [findIn] at found
  | cons e rest ih =>
    obtain ⟨k, v⟩ := e
    simp only [findIn] at found
    simp only [putIn]
    by_cases same : k = key
    · rw [if_pos same, Option.some.injEq] at found
      rw [if_pos same, same, found]
    · rw [if_neg same] at found
      rw [if_neg same, ih found]

/-- A value put back where it was found leaves no trace. -/
theorem put_of_find? {m : Keyed κ α} {key : κ} {value : α} (found : m.find? key = some value) :
    m.put key value = m := by
  obtain ⟨entries, nodup⟩ := m
  rw [put, mk.injEq]
  exact putIn_of_findIn found

/-- A list of keys by what is under them does not change with the rest of a value. -/
theorem keys_filter_putIn {entries : List (κ × α)} {key : κ} {value : α} (value' : α)
    (p : α → Bool) (found : findIn key entries = some value) (same : p value' = p value) :
    ((putIn key value' entries).filter fun e => p e.2).map Prod.fst =
      (entries.filter fun e => p e.2).map Prod.fst := by
  induction entries with
  | nil => simp [findIn] at found
  | cons e rest ih =>
    obtain ⟨k, v⟩ := e
    simp only [findIn] at found
    simp only [putIn]
    by_cases here : k = key
    · rw [if_pos here, Option.some.injEq] at found
      rw [if_pos here]
      cases picked : p value <;> simp [same, found, picked, here]
    · rw [if_neg here] at found
      rw [if_neg here]
      cases picked : p v <;> simp [picked, ih found]

end Keyed

def StoredProduct.armed (stored : StoredProduct) : StoredProduct := { stored with state := .armed }

namespace StoredProduct

theorem armed_eq_self {stored : StoredProduct} (armed : stored.state = .armed) :
    stored.armed = stored := by
  rw [StoredProduct.armed, ← armed]

end StoredProduct

namespace Store

/-- What was never published cannot be armed. -/
def arm (s : Store) (target : Uri) : Store :=
  match s.find? target with
  | some stored => { s with products := s.products.put target stored.armed }
  | none => s

theorem react_snd (s : Store) (target : Uri) {trigger : Trigger} (unknown : Action)
    (event : trigger ≠ .republished) : (s.react target trigger unknown).2 = s.arm target := by
  unfold react arm
  cases s.find? target with
  | none => rfl
  | some stored =>
    have armed := stored.state.react_armed event
    simp only [armed]
    rfl

theorem onSelection_snd (s : Store) (target : Uri) : (s.onSelection target).2 = s.arm target :=
  s.react_snd target .absorb (by decide)

theorem onManualSync_snd (s : Store) (target : Uri) : (s.onManualSync target).2 = s.arm target :=
  s.react_snd target .none (by decide)

theorem arm_of_armed {s : Store} {target : Uri}
    (armed : ∀ stored, s.find? target = some stored → stored.state = .armed) : s.arm target = s := by
  unfold arm
  cases found : s.find? target with
  | none => rfl
  | some stored =>
    have same := StoredProduct.armed_eq_self (armed stored found)
    simp only [same, Keyed.put_of_find? found]

/-- To look-ups the second store is the first, with just these products armed. -/
structure ArmsJust (s s' : Store) (asked : Uri → Prop) : Prop where
  arms : ∀ target, asked target → s'.find? target = (s.find? target).map StoredProduct.armed
  keeps : ∀ target, ¬asked target → s'.find? target = s.find? target

theorem ArmsJust.of_none (s : Store) {asked : Uri → Prop} (none : ∀ target, ¬asked target) :
    s.ArmsJust s asked :=
  ⟨fun target asks => absurd asks (none target), fun _ _ => rfl⟩

theorem ArmsJust.congr {s s' : Store} {asked asked' : Uri → Prop} (arms : s.ArmsJust s' asked)
    (same : ∀ target, asked target ↔ asked' target) : s.ArmsJust s' asked' :=
  ⟨fun target asks => arms.arms target ((same target).mpr asks),
    fun target silent => arms.keeps target (mt (same target).mp silent)⟩

/-- Arming twice is arming once. -/
theorem ArmsJust.trans {s s' s'' : Store} {asked asked' : Uri → Prop} (first : s.ArmsJust s' asked)
    (second : s'.ArmsJust s'' asked') :
    s.ArmsJust s'' fun target => asked target ∨ asked' target := by
  constructor
  · intro target asks
    by_cases late : asked' target
    · rw [second.arms target late]
      by_cases early : asked target
      · rw [first.arms target early, Option.map_map]
        rfl
      · rw [first.keeps target early]
    · rw [second.keeps target late, first.arms target (asks.resolve_right late)]
  · intro target silent
    obtain ⟨early, late⟩ := not_or.mp silent
    rw [second.keeps target late, first.keeps target early]

theorem armsJust_arm (s : Store) (target : Uri) : s.ArmsJust (s.arm target) (target = ·) := by
  unfold arm
  cases present : s.find? target with
  | none =>
    refine ⟨?_, fun _ _ => rfl⟩
    rintro _ rfl
    simp [present]
  | some stored =>
    refine ⟨?_, fun other differ => s.products.find?_put_of_ne _ differ⟩
    rintro _ rfl
    rw [present]
    exact s.products.find?_put_self _ _

theorem armsJust_foldl (s : Store) (targets : List Uri) :
    s.ArmsJust (targets.foldl arm s) (· ∈ targets) := by
  induction targets generalizing s with
  | nil => exact .of_none s (by simp)
  | cons target targets ih =>
    refine ((s.armsJust_arm target).trans (ih _)).congr fun other => ?_
    rw [List.mem_cons, eq_comm]

/-- A product that is the same in two stores stays so if it is asked in both or in neither. -/
theorem ArmsJust.find?_congr {s s' t t' : Store} {asked asked' : Uri → Prop}
    (arms : s.ArmsJust t asked) (arms' : s'.ArmsJust t' asked') {target : Uri}
    (same : s.find? target = s'.find? target) (asks : asked target ↔ asked' target) :
    t.find? target = t'.find? target := by
  by_cases here : asked target
  · rw [arms.arms target here, arms'.arms target (asks.mp here), same]
  · rw [arms.keeps target here, arms'.keeps target (mt asks.mpr here), same]

/-- Whoever finds something after products were armed found the same before, but for its state. -/
theorem ArmsJust.state_of_asked {s s' : Store} {asked : Uri → Prop} (arms : s.ArmsJust s' asked)
    {target : Uri} {stored : StoredProduct} (asks : asked target)
    (found : s'.find? target = some stored) : stored.state = .armed := by
  rw [arms.arms target asks] at found
  obtain ⟨before, -, rfl⟩ := Option.map_eq_some_iff.mp found
  rfl

/-- Once some products are armed, arming them again changes nothing. -/
theorem foldl_arm_of_armed {s : Store} {targets : List Uri} (armed : ∀ target ∈ targets, ∀ stored,
    s.find? target = some stored → stored.state = .armed) : targets.foldl arm s = s := by
  induction targets with
  | nil => rfl
  | cons target targets ih =>
    rw [List.foldl_cons, arm_of_armed (armed target List.mem_cons_self)]
    exact ih fun other member => armed other (List.mem_cons_of_mem _ member)

theorem foldl_arm_twice (s : Store) (targets : List Uri) :
    targets.foldl arm (targets.foldl arm s) = targets.foldl arm s :=
  foldl_arm_of_armed fun _ member _ found => (s.armsJust_foldl targets).state_of_asked member found

theorem naming_arm (s : Store) (target : Uri) : (s.arm target).naming = s.naming := by
  unfold arm
  cases s.find? target <;> rfl

theorem naming_foldl_arm (s : Store) (targets : List Uri) :
    (targets.foldl arm s).naming = s.naming := by
  induction targets generalizing s with
  | nil => rfl
  | cons target targets ih => rw [List.foldl_cons, ih, naming_arm]

end Store

end LinkedViews
