import LinkedViews.View.Echoes
import Mathlib.Data.List.Induction

/-! Histories of the record of writes. What becomes of the next event on a document is decided by the
latest operation on it, whatever was done before and whatever is done about other documents. -/
namespace LinkedViews.Echoes

variable {κ : Type}

inductive Operation (κ : Type)
  | record (document : κ) (selections : List Span)
  | absorb (document : κ) (selections : List Span)
  | forget (document : κ)

namespace Operation

def document : Operation κ → κ
  | record document _ | absorb document _ | forget document => document

/-- What an operation leaves on record for its document. -/
def recorded? : Operation κ → Option (List Span)
  | record _ selections => some selections
  | absorb _ _ | forget _ => none

theorem recorded?_eq_some_iff {o : Operation κ} {selections : List Span} :
    o.recorded? = some selections ↔ o = record o.document selections := by
  cases o <;> simp [recorded?, document]

end Operation

variable [DecidableEq κ]

def perform (e : Echoes κ) : Operation κ → Echoes κ
  | .record document selections => e.record document selections
  | .absorb document selections => (e.absorb document selections).2
  | .forget document => e.forget document

def run (e : Echoes κ) (history : List (Operation κ)) : Echoes κ := history.foldl perform e

theorem run_concat (e : Echoes κ) (history : List (Operation κ)) (o : Operation κ) :
    e.run (history ++ [o]) = (e.run history).perform o := by
  simp [run]

/-- The last of the operations on a document. -/
def latest? (document : κ) (history : List (Operation κ)) : Option (Operation κ) :=
  (history.filter (·.document = document)).getLast?

theorem latest?_concat (document : κ) (history : List (Operation κ)) (o : Operation κ) :
    latest? document (history ++ [o]) =
      if o.document = document then some o else latest? document history := by
  by_cases own : o.document = document <;> simp [latest?, own]

theorem latest?_filter (document : κ) (history : List (Operation κ)) :
    latest? document (history.filter (·.document = document)) = latest? document history := by
  simp [latest?]

theorem document_of_latest? {document : κ} {history : List (Operation κ)} {o : Operation κ}
    (latest : latest? document history = some o) : o.document = document := by
  have among := (List.mem_filter.mp (List.mem_of_getLast? latest)).2
  exact of_decide_eq_true among

/-- An operation settles what is on record for its document, and touches no other. -/
theorem find?_perform (e : Echoes κ) (o : Operation κ) (document : κ) :
    (e.perform o).written.find? document =
      if o.document = document then o.recorded? else e.written.find? document := by
  cases o with
  | record other selections => exact e.find?_record other document selections
  | absorb other _ | forget other => exact e.find?_forget other document

/-- On record is what the latest operation left there. -/
theorem find?_run (history : List (Operation κ)) (document : κ) :
    ((empty : Echoes κ).run history).written.find? document =
      (latest? document history).bind Operation.recorded? := by
  induction history using List.reverseRecOn with
  | nil => rfl
  | append_singleton history o ih =>
    rw [run_concat, find?_perform, latest?_concat, ih]
    split <;> rfl

theorem find?_run_eq_some_iff (history : List (Operation κ)) (document : κ)
    (selections : List Span) :
    ((empty : Echoes κ).run history).written.find? document = some selections ↔
      latest? document history = some (.record document selections) := by
  rw [find?_run, Option.bind_eq_some_iff]
  constructor
  · rintro ⟨o, latest, recorded⟩
    rw [latest, Operation.recorded?_eq_some_iff.mp recorded, document_of_latest? latest]
  · intro latest
    exact ⟨_, latest, rfl⟩

/-- The law of echoes, over every history. An event counts as an echo exactly if the latest operation
on its document recorded these very selections, and an echo is awaited exactly if the latest
operation recorded some. What was done about other documents could as well be left out. -/
theorem absorbed_iff_latest_recorded (history : List (Operation κ)) (document : κ)
    (selections : List Span) :
    let e := (empty : Echoes κ).run history
    let own := (empty : Echoes κ).run (history.filter (·.document = document))
    ((e.absorb document selections).1 = true ↔
      latest? document history = some (.record document selections)) ∧
    (e.isPending document = true ↔
      ∃ written, latest? document history = some (.record document written)) ∧
    (own.absorb document selections).1 = (e.absorb document selections).1 ∧
    own.isPending document = e.isPending document := by
  intro e own
  have same : own.written.find? document = e.written.find? document := by
    rw [find?_run, find?_run, latest?_filter]
  refine ⟨?_, ?_, ?_, ?_⟩
  · rw [← find?_run_eq_some_iff]
    exact beq_iff_eq
  · simp only [← find?_run_eq_some_iff]
    exact Option.isSome_iff_exists
  · simp only [absorb, same]
  · simp only [isPending, Keyed.contains, same]

/-- An event that differs uses up the record, and the echo that follows it is none any more. -/
example : ((((empty : Echoes Nat).record 1 [⟨0, 3⟩]).absorb 1 [.caret 1]).2.absorb 1 [⟨0, 3⟩]).1 =
    false := by decide

end LinkedViews.Echoes
