import Mathlib.Data.List.Induction

/-! Histories, oldest item first. What is asked of one is mostly whether something happened that
nothing has undone since. -/
namespace LinkedViews

/-- Some item was a start, and no item after it was a stop. -/
def Since (stop start : α → Prop) (history : List α) : Prop :=
  ∃ before item after, history = before ++ item :: after ∧ start item ∧ ∀ later ∈ after, ¬stop later

@[simp] theorem not_since_nil (stop start : α → Prop) : ¬Since stop start [] := by
  rintro ⟨before, item, after, eq, _, _⟩
  simp at eq

theorem since_concat (stop start : α → Prop) (history : List α) (item : α) :
    Since stop start (history ++ [item]) ↔ start item ∨ Since stop start history ∧ ¬stop item := by
  constructor
  · rintro ⟨before, first, after, eq, started, quiet⟩
    rcases after.eq_nil_or_concat with rfl | ⟨rest, last, rfl⟩
    · obtain ⟨_, same⟩ := List.append_inj' eq rfl
      exact .inl (List.singleton_inj.mp same ▸ started)
    · rw [List.concat_eq_append] at eq quiet
      rw [← List.cons_append, ← List.append_assoc] at eq
      obtain ⟨rfl, same⟩ := List.append_inj' eq rfl
      obtain rfl := List.singleton_inj.mp same
      exact .inr ⟨⟨before, first, rest, rfl, started,
        fun later member => quiet later (List.mem_append_left _ member)⟩,
        quiet item (by simp)⟩
  · rintro (started | ⟨⟨before, first, rest, rfl, started, quiet⟩, ends⟩)
    · exact ⟨history, item, [], rfl, started, by simp⟩
    · refine ⟨before, first, rest ++ [item], by simp, started, ?_⟩
      intro later member
      rcases List.mem_append.mp member with earlier | latest
      · exact quiet later earlier
      · exact List.mem_singleton.mp latest ▸ ends

theorem since_congr {stop stop' start start' : α → Prop} {history : List α}
    (stops : ∀ item ∈ history, (stop item ↔ stop' item))
    (starts : ∀ item ∈ history, (start item ↔ start' item)) :
    Since stop start history ↔ Since stop' start' history := by
  induction history using List.reverseRecOn with
  | nil => simp
  | append_singleton history item ih =>
    rw [since_concat, since_concat, stops item (by simp), starts item (by simp),
      ih (fun other member => stops other (List.mem_append_left _ member))
        (fun other member => starts other (List.mem_append_left _ member))]

theorem Since.mono {stop stop' start : α → Prop} {history : List α}
    (since : Since stop start history) (fewer : ∀ item, stop' item → stop item) :
    Since stop' start history := by
  obtain ⟨before, item, after, eq, started, quiet⟩ := since
  exact ⟨before, item, after, eq, started, fun later member stops =>
    quiet later member (fewer later stops)⟩

/-- Once something started, the latest start was stopped or nothing stopped since. -/
theorem not_since_iff {stop start : α → Prop} {history : List α}
    (apart : ∀ item, start item → ¬stop item) (started : ∃ item ∈ history, start item) :
    ¬Since stop start history ↔ Since start stop history := by
  induction history using List.reverseRecOn with
  | nil => simp at started
  | append_singleton history item ih =>
    rw [since_concat, since_concat]
    by_cases starts : start item
    · simp [starts, apart item starts]
    · have earlier : ∃ item ∈ history, start item := by
        obtain ⟨first, member, begins⟩ := started
        rcases List.mem_append.mp member with before | latest
        · exact ⟨first, before, begins⟩
        · exact absurd (List.mem_singleton.mp latest ▸ begins) starts
      rw [← ih earlier]
      by_cases stops : stop item <;> simp [starts, stops]

end LinkedViews
