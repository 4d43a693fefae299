import LinkedViews.Proofs.Text.Pieces

/-! The lines of a text, one after the other. What a trimmed line is does not depend on how the line
ends, nor on what it is indented by. -/
namespace LinkedViews.Text

/-- A line feed with or without a carriage return ends a line, and so does the end of the text. -/
def IsEnding (ending rest : List Char) : Prop :=
  ending = ['\n'] ∨ ending = ['\r', '\n'] ∨ ending = [] ∧ rest = []

/-- A line up to its line feed, less the carriage return that belongs to the ending. -/
def unreturned (line : List Char) : List Char :=
  if line.getLast? = some '\r' then line.dropLast else line

theorem trim_unreturned (line : List Char) : trim (unreturned line) = trim line := by
  unfold unreturned
  split
  next returns =>
    obtain ⟨line, rfl⟩ := List.getLast?_eq_some_iff.mp returns
    rw [List.dropLast_concat, trim_append_of_blank (by simp [isBlank])]
  next => rfl

theorem trim_append_of_indent {indent : List Char} (blank : ∀ c ∈ indent, isBlank c = true)
    (line : List Char) : trim (indent ++ line) = trim line := by
  have none : indent.dropWhile isBlank = [] := List.dropWhile_eq_nil_iff.mpr blank
  simp only [trim, trimStart, List.dropWhile_append, none, List.isEmpty_nil, if_true]

theorem unparted_of_free {line : List Char} (free : '\n' ∉ line) :
    ∀ c ∈ line, decide (c = '\n') = false := by
  intro c member
  rw [decide_eq_false_iff_not]
  rintro rfl
  exact free member

theorem lines_of_free {line : List Char} (free : '\n' ∉ line) (some : line ≠ []) :
    lines line = [line] := by
  have whole : splitOn (· = '\n') line = [line] := splitOn_of_free (unparted_of_free free)
  obtain ⟨c, rest, rfl⟩ := List.exists_cons_of_ne_nil some
  simp [lines, whole]

theorem lines_append_cons {line : List Char} (free : '\n' ∉ line) (rest : List Char) :
    lines (line ++ '\n' :: rest) = unreturned line :: lines rest := by
  have cut : splitOn (· = '\n') (line ++ '\n' :: rest) = line :: splitOn (· = '\n') rest :=
    splitOn_append_cons (unparted_of_free free) (by simp)
  obtain ⟨piece, pieces, eq⟩ := List.exists_cons_of_ne_nil (splitOn_ne_nil (· = '\n') rest)
  simp only [lines, cut, eq, List.dropLast_cons_cons, List.map_cons, List.getLast?_cons_cons]
  split <;> simp_all [unreturned]

/-- Trimmed lines, whatever they end with. -/
theorem trim_lines_append {line ending rest : List Char} (free : '\n' ∉ line)
    (ends : IsEnding ending rest) (some : line ++ ending ≠ []) :
    (lines (line ++ ending ++ rest)).map trim = trim line :: (lines rest).map trim := by
  rcases ends with rfl | rfl | ⟨rfl, rfl⟩
  · rw [List.append_assoc, List.singleton_append, lines_append_cons free, List.map_cons,
      trim_unreturned]
  · have whole : line ++ ['\r', '\n'] ++ rest = (line ++ ['\r']) ++ '\n' :: rest := by simp
    rw [whole, lines_append_cons (by simpa using free), List.map_cons, trim_unreturned,
      trim_append_of_blank (by simp [isBlank])]
  · rw [List.append_nil] at some ⊢
    rw [List.append_nil, lines_of_free free some]
    rfl

end LinkedViews.Text
