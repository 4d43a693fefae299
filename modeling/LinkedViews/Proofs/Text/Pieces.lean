import LinkedViews.Text.Blank
import Mathlib.Data.List.TakeWhile

/-! Cutting a text up and putting it together again. A cut is undone by writing the separator back,
and it finds its way where the pieces hold no separator themselves. -/
namespace LinkedViews.Text

theorem splitOn_eq_splitOnP (sep : Char → Bool) (text : List Char) :
    splitOn sep text = text.splitOnP sep := by
  induction text with
  | nil => simp [splitOn, List.splitOnP_nil]
  | cons c rest ih =>
    rw [splitOn, List.splitOnP_cons_eq_if_modifyHead, ih]
    obtain ⟨piece, pieces, eq⟩ := List.exists_cons_of_ne_nil (List.splitOnP_ne_nil sep rest)
    simp [eq]

theorem splitOn_ne_nil (sep : Char → Bool) (text : List Char) : splitOn sep text ≠ [] := by
  rw [splitOn_eq_splitOnP]
  exact List.splitOnP_ne_nil sep text

theorem splitOn_of_free {sep : Char → Bool} {piece : List Char}
    (free : ∀ c ∈ piece, sep c = false) : splitOn sep piece = [piece] := by
  rw [splitOn_eq_splitOnP, List.splitOnP_eq_singleton free]

theorem splitOn_append_cons {sep : Char → Bool} {piece text : List Char} {c : Char}
    (free : ∀ c ∈ piece, sep c = false) (stops : sep c = true) :
    splitOn sep (piece ++ c :: text) = piece :: splitOn sep text := by
  simp only [splitOn_eq_splitOnP]
  rw [List.splitOnP_append_cons piece text stops, List.splitOnP_eq_singleton free]
  rfl

/-- A piece has its characters from the text, and none of them parts pieces. -/
theorem mem_of_mem_splitOn {sep : Char → Bool} {text piece : List Char} {c : Char}
    (among : piece ∈ splitOn sep text) (member : c ∈ piece) : c ∈ text ∧ sep c = false := by
  induction text generalizing piece with
  | nil =>
    obtain rfl : piece = [] := by simpa [splitOn] using among
    simp at member
  | cons x rest ih =>
    rw [splitOn] at among
    split at among
    next stops =>
      rcases List.mem_cons.mp among with rfl | later
      · simp at member
      · exact ⟨List.mem_cons_of_mem _ (ih later member).1, (ih later member).2⟩
    next goes =>
      obtain ⟨first, others, eq⟩ := List.exists_cons_of_ne_nil (splitOn_ne_nil sep rest)
      rw [eq] at among ih
      rcases List.mem_cons.mp among with rfl | later
      · rcases List.mem_cons.mp member with rfl | inner
        · exact ⟨List.mem_cons_self, by simpa using goes⟩
        · have := ih List.mem_cons_self inner
          exact ⟨List.mem_cons_of_mem _ this.1, this.2⟩
      · have := ih (List.mem_cons_of_mem _ later) member
        exact ⟨List.mem_cons_of_mem _ this.1, this.2⟩

theorem cut_append_cons {c : Char} {head : List Char} (free : c ∉ head) (rest : List Char) :
    cut c (head ++ c :: rest) = some (head, rest) := by
  induction head with
  | nil => simp [cut]
  | cons x head ih =>
    simp only [List.mem_cons, not_or] at free
    simp [cut, Ne.symm free.1, ih free.2]

theorem cut_eq_none_iff {c : Char} {text : List Char} : cut c text = none ↔ c ∉ text := by
  induction text with
  | nil => simp [cut]
  | cons x rest ih =>
    by_cases same : x = c
    · simp [cut, same]
    · have other : c ≠ x := fun eq => same eq.symm
      simp [cut, same, ih, other]

theorem eq_of_cut {c : Char} {text head rest : List Char} (eq : cut c text = some (head, rest)) :
    text = head ++ c :: rest ∧ c ∉ head := by
  induction text generalizing head with
  | nil => simp [cut] at eq
  | cons x text ih =>
    rw [cut] at eq
    split at eq
    next same =>
      simp only [Option.some.injEq, Prod.mk.injEq] at eq
      obtain ⟨rfl, rfl⟩ := eq
      simp [same]
    next differ =>
      obtain ⟨⟨before, after⟩, inner, same⟩ := Option.map_eq_some_iff.mp eq
      simp only [Prod.mk.injEq] at same
      obtain ⟨rfl, rfl⟩ := same
      obtain ⟨rfl, free⟩ := ih inner
      exact ⟨rfl, by simp [Ne.symm differ, free]⟩

theorem beforeLast_of_not_mem {c : Char} {text : List Char} (free : c ∉ text) :
    beforeLast c text = none := by
  induction text with
  | nil => rfl
  | cons x rest ih =>
    simp only [List.mem_cons, not_or] at free
    simp [beforeLast, ih free.2, Ne.symm free.1]

theorem beforeLast_append_cons {c : Char} {rest : List Char} (free : c ∉ rest) (head : List Char) :
    beforeLast c (head ++ c :: rest) = some head := by
  induction head with
  | nil => simp [beforeLast, beforeLast_of_not_mem free]
  | cons x head ih => simp [beforeLast, ih]

/-- What follows the last mark tells two texts apart. -/
theorem append_cons_inj {c : Char} {head head' rest rest' : List Char} (free : c ∉ rest)
    (free' : c ∉ rest') (eq : head ++ c :: rest = head' ++ c :: rest') :
    head = head' ∧ rest = rest' := by
  have same : head = head' := by
    have := congrArg (beforeLast c) eq
    rw [beforeLast_append_cons free, beforeLast_append_cons free'] at this
    exact Option.some.inj this
  subst same
  exact ⟨rfl, (List.cons.inj (List.append_cancel_left eq)).2⟩

theorem dropWhile_of_head {p : Char → Bool} {text : List Char}
    (stays : ∀ c ∈ text.head?, p c = false) : text.dropWhile p = text := by
  cases text with
  | nil => rfl
  | cons c rest => simp [stays c rfl]

theorem dropEndWhile_of_last {p : Char → Bool} {text : List Char}
    (stays : ∀ c ∈ text.getLast?, p c = false) : dropEndWhile p text = text := by
  rw [dropEndWhile, dropWhile_of_head, List.reverse_reverse]
  simpa using stays

/-- Dropping at the end does not go beyond what stays. -/
theorem dropEndWhile_append_cons {p : Char → Bool} {c : Char} (stays : p c = false)
    (head rest : List Char) :
    dropEndWhile p (head ++ c :: rest) = head ++ c :: dropEndWhile p rest := by
  simp only [dropEndWhile, List.reverse_append, List.reverse_cons, List.append_assoc,
    List.singleton_append, List.dropWhile_append]
  split
  next none => simp [stays, List.isEmpty_iff.mp none]
  next => simp

theorem dropEndWhile_append_of_all {p : Char → Bool} {tail : List Char}
    (goes : ∀ c ∈ tail, p c = true) (text : List Char) :
    dropEndWhile p (text ++ tail) = dropEndWhile p text := by
  have none : tail.reverse.dropWhile p = [] := by
    apply List.dropWhile_eq_nil_iff.mpr
    simpa using goes
  simp [dropEndWhile, List.dropWhile_append, none]

theorem dropEndWhile_append (p : Char → Bool) (text : List Char) :
    ∃ tail, text = dropEndWhile p text ++ tail ∧ ∀ c ∈ tail, p c = true := by
  refine ⟨(text.reverse.takeWhile p).reverse, ?_, fun c member => ?_⟩
  · rw [dropEndWhile, ← List.reverse_append, List.takeWhile_append_dropWhile, List.reverse_reverse]
  · exact List.mem_takeWhile_imp (List.mem_reverse.mp member)

/-- Blanks at the end are trimmed away, also where nothing else is left. -/
theorem trim_append_of_blank {tail : List Char} (blank : ∀ c ∈ tail, isBlank c = true)
    (text : List Char) : trim (text ++ tail) = trim text := by
  have none : tail.dropWhile isBlank = [] := List.dropWhile_eq_nil_iff.mpr blank
  simp only [trim, trimStart, List.dropWhile_append, none]
  split
  next empty => rw [List.isEmpty_iff.mp empty]
  next => exact dropEndWhile_append_of_all blank _

theorem trim_dropEndWhile {p : Char → Bool} (blank : ∀ c, p c = true → isBlank c = true)
    (text : List Char) : trim (dropEndWhile p text) = trim text := by
  obtain ⟨tail, eq, goes⟩ := dropEndWhile_append p text
  conv => rhs; rw [eq]
  exact (trim_append_of_blank (fun c member => blank c (goes c member)) _).symm

end LinkedViews.Text
