import LinkedViews.Proofs.Text.Pieces
import LinkedViews.Uri.Path
import Mathlib

/-! Paths in normal form: proper segments, each after a slash. Reading such a path once more finds
the same segments and leaves them as they are. -/
namespace LinkedViews.Uri

open Text

/-- The characters that triples are written with. -/
def tripleChars : List Char := "%0123456789ABCDEF".toList

theorem upperHex_mem_tripleChars : ∀ d < 16, upperHex d ∈ tripleChars := by decide

theorem mem_tripleChars_of_mem_triple {b : UInt8} {c : Char} (member : c ∈ triple b) :
    c ∈ tripleChars := by
  have bound := b.toNat_lt
  simp only [triple, List.mem_cons, List.not_mem_nil, or_false] at member
  rcases member with rfl | rfl | rfl
  · decide
  · exact upperHex_mem_tripleChars _ (by omega)
  · exact upperHex_mem_tripleChars _ (by omega)

theorem mem_escape {reserved : Char → Bool} {text : List Char} {c : Char}
    (member : c ∈ escape reserved text) : c ∈ text ∧ reserved c = false ∨ c ∈ tripleChars := by
  obtain ⟨x, among, member⟩ := List.mem_flatMap.mp member
  rw [escapeChar] at member
  split at member
  next =>
    obtain ⟨b, -, inTriple⟩ := List.mem_flatMap.mp member
    exact .inr (mem_tripleChars_of_mem_triple inTriple)
  next free =>
    obtain rfl := List.mem_singleton.mp member
    exact .inl ⟨among, by simpa using free⟩

/-- Nothing reserved is left, provided that triples can be written. -/
theorem free_of_mem_escape {reserved : Char → Bool} {text : List Char} {c : Char}
    (writable : tripleChars.all (! reserved ·) = true) (member : c ∈ escape reserved text) :
    reserved c = false := by
  rcases mem_escape member with ⟨-, free⟩ | inTriple
  · exact free
  · simpa using List.all_eq_true.mp writable c inTriple

theorem isControl_of_free {c : Char} (free : reservedInPath c = false) : isControl c = false := by
  simp only [reservedInPath, reservedInFragment, Bool.or_eq_false_iff] at free
  exact free.1.1.1.1.1.1.1.1.1

namespace Path

/-- A segment that holds no separator and nothing to escape. -/
def Plain (sep : Char → Bool) (s : Segment) : Prop :=
  ∀ c ∈ s, reservedInPath c = false ∧ sep c = false

/-- A plain segment that stands for itself, and not for a step. -/
structure Proper (sep : Char → Bool) (s : Segment) : Prop where
  plain : Plain sep s
  dot : isDot s = false
  doubleDot : isDoubleDot s = false

theorem Proper.nil (sep : Char → Bool) : Proper sep [] := ⟨by simp [Plain], rfl, rfl⟩

/-- No dot segment has a dash in it. -/
theorem isDot_of_dash {s : Segment} (dash : '-' ∈ s) : isDot s = false := by
  simp only [isDot, Bool.or_eq_false_iff, decide_eq_false_iff_not]
  refine ⟨⟨?_, ?_⟩, ?_⟩ <;> rintro rfl <;> simp at dash

theorem isDoubleDot_of_dash {s : Segment} (dash : '-' ∈ s) : isDoubleDot s = false := by
  unfold isDoubleDot
  split
  · exact isDot_of_dash (by simpa using dash)
  · exact isDot_of_dash (by simpa using dash)
  · exact isDot_of_dash (by simpa using dash)
  · rfl

theorem Proper.of_dash {sep : Char → Bool} {s : Segment} (plain : Plain sep s) (dash : '-' ∈ s) :
    Proper sep s :=
  ⟨plain, isDot_of_dash dash, isDoubleDot_of_dash dash⟩

theorem plain_of_mem_split {sep : Char → Bool} {text : List Char} {s : Segment}
    (among : s ∈ split sep text) : Plain sep s := by
  intro c member
  obtain ⟨inText, free⟩ := mem_of_mem_splitOn among member
  exact ⟨free_of_mem_escape (by decide) inText, free⟩

theorem join_cons (s : Segment) (rest : List Segment) : join (s :: rest) = '/' :: (s ++ join rest) :=
  rfl

theorem join_concat (front : List Segment) (s : Segment) (text : List Char) :
    join (front ++ [s]) ++ text = join (front ++ [s ++ text]) := by
  simp [join]

theorem mem_join {segments : List Segment} {c : Char} (member : c ∈ join segments) :
    c = '/' ∨ ∃ s ∈ segments, c ∈ s := by
  obtain ⟨s, among, member⟩ := List.mem_flatMap.mp member
  rcases List.mem_cons.mp member with slash | inner
  · exact .inl slash
  · exact .inr ⟨s, among, inner⟩

/-- Nothing in a path of plain segments is to be escaped. -/
theorem free_of_mem_join {sep : Char → Bool} {segments : List Segment} {c : Char}
    (plain : ∀ s ∈ segments, Plain sep s) (member : c ∈ join segments) :
    reservedInPath c = false := by
  rcases mem_join member with rfl | ⟨s, among, inner⟩
  · rfl
  · exact (plain s among c inner).1

theorem splitOn_join {sep : Char → Bool} {first : Segment} {rest : List Segment}
    (slash : sep '/' = true) (plain : ∀ s ∈ first :: rest, Plain sep s) :
    splitOn sep (first ++ join rest) = first :: rest := by
  induction rest generalizing first with
  | nil =>
    rw [show first ++ join [] = first from List.append_nil first]
    exact splitOn_of_free fun c member => (plain first List.mem_cons_self c member).2
  | cons next rest ih =>
    rw [join_cons, splitOn_append_cons
      (fun c member => (plain first List.mem_cons_self c member).2) slash]
    rw [ih fun s among => plain s (List.mem_cons_of_mem _ among)]

/-- Plain segments are found again. -/
theorem split_join {sep : Char → Bool} {first : Segment} {rest : List Segment}
    (slash : sep '/' = true) (plain : ∀ s ∈ first :: rest, Plain sep s) :
    split sep (first ++ join rest) = first :: rest := by
  have free : ∀ c ∈ first ++ join rest, reservedInPath c = false := fun c member => by
    rcases List.mem_append.mp member with inFirst | inRest
    · exact (plain first List.mem_cons_self c inFirst).1
    · exact free_of_mem_join (fun s among => plain s (List.mem_cons_of_mem _ among)) inRest
  rw [split, escape_of_free free, splitOn_join slash plain]

theorem up_subset {kept : List Segment} {s : Segment} (member : s ∈ up kept) : s ∈ kept := by
  cases kept with
  | nil => exact member
  | cons top below =>
    rw [up] at member
    split at member
    · exact member
    · exact List.mem_cons_of_mem _ member

/-- A walk leaves what it found, as far as that is no step, and perhaps an empty segment at the
end. -/
theorem mem_walk {P : Segment → Prop} {segments kept : List Segment} (empty : P [])
    (before : ∀ s ∈ kept, P s)
    (found : ∀ s ∈ segments, isDot s = false → isDoubleDot s = false → P s) :
    ∀ s ∈ walk kept segments, P s := by
  fun_induction walk kept segments with
  | case1 kept => simpa using before
  | case2 kept s _ =>
    intro t member
    rcases List.mem_append.mp member with below | last
    · exact before t (up_subset (List.mem_reverse.mp below))
    · exact List.mem_singleton.mp last ▸ empty
  | case3 kept s _ _ =>
    intro t member
    rcases List.mem_append.mp member with below | last
    · exact before t (List.mem_reverse.mp below)
    · exact List.mem_singleton.mp last ▸ empty
  | case4 kept s double dot =>
    intro t member
    rcases List.mem_cons.mp (List.mem_reverse.mp member) with rfl | below
    · exact found t List.mem_cons_self (by simpa using dot) (by simpa using double)
    · exact before t below
  | case5 kept s rest more double ih =>
    exact ih (fun t member => before t (up_subset member))
      fun t member => found t (List.mem_cons_of_mem _ member)
  | case6 kept s rest more double dot ih =>
    exact ih before fun t member => found t (List.mem_cons_of_mem _ member)
  | case7 kept s rest more double dot ih =>
    refine ih (fun t member => ?_) fun t member => found t (List.mem_cons_of_mem _ member)
    rcases List.mem_cons.mp member with rfl | below
    · exact found t List.mem_cons_self (by simpa using dot) (by simpa using double)
    · exact before t below

theorem walk_ne_nil {segments : List Segment} (some : segments ≠ []) (kept : List Segment) :
    walk kept segments ≠ [] := by
  fun_induction walk kept segments with
  | case1 => contradiction
  | case2 | case3 | case4 => simp
  | case5 kept s rest more _ ih | case6 kept s rest more _ _ ih | case7 kept s rest more _ _ ih =>
    exact ih fun none => more none

/-- Where there is no step, a walk takes everything along. -/
theorem walk_of_steady {segments : List Segment} (steady : ∀ s ∈ segments, isDot s = false ∧
    isDoubleDot s = false) (kept : List Segment) : walk kept segments = kept.reverse ++ segments := by
  fun_induction walk kept segments with
  | case1 kept => simp
  | case2 kept s double => simp [steady] at double
  | case3 kept s _ dot => simp [steady] at dot
  | case4 kept s _ _ => simp
  | case5 kept s rest more double ih => simp [steady] at double
  | case6 kept s rest more _ dot ih => simp [steady] at dot
  | case7 kept s rest more _ _ ih =>
    rw [ih fun t member => steady t (List.mem_cons_of_mem _ member)]
    simp

theorem proper_of_mem_walk {sep : Char → Bool} {segments : List Segment}
    (plain : ∀ s ∈ segments, Plain sep s) : ∀ s ∈ walk [] segments, Proper sep s :=
  mem_walk (.nil sep) (by simp) fun s among dot doubleDot => ⟨plain s among, dot, doubleDot⟩

theorem walk_of_proper {sep : Char → Bool} {segments : List Segment}
    (proper : ∀ s ∈ segments, Proper sep s) : walk [] segments = segments :=
  walk_of_steady (fun s among => ⟨(proper s among).dot, (proper s among).doubleDot⟩) []

theorem mem_of_mem_dropEmpty {segments : List Segment} {s : Segment}
    (member : s ∈ dropEmpty segments) : s ∈ segments := by
  fun_induction dropEmpty segments with
  | case1 t rest ih => exact List.mem_cons_of_mem _ (ih member)
  | case2 => exact member

theorem dropEmpty_ne_nil {segments : List Segment} (some : segments ≠ []) :
    dropEmpty segments ≠ [] := by
  fun_induction dropEmpty segments with
  | case1 t rest ih => exact ih (by simp)
  | case2 => exact some

/-- An empty segment stands first only where it is the only one. -/
def Leads (segments : List Segment) : Prop := segments = [[]] ∨ segments.head? ≠ some []

theorem leads_dropEmpty (segments : List Segment) : Leads (dropEmpty segments) := by
  fun_induction dropEmpty segments with
  | case1 t rest ih => exact ih
  | case2 segments other =>
    match segments with
    | [] => exact .inr (by simp)
    | [[]] => exact .inl rfl
    | [] :: t :: rest => exact absurd rfl (other t rest)
    | (c :: s) :: rest => exact .inr (by simp)

theorem dropEmpty_of_leads {segments : List Segment} (leads : Leads segments) :
    dropEmpty segments = segments := by
  rcases leads with rfl | nonempty
  · rfl
  · match segments with
    | [] => rfl
    | [] :: rest => simp at nonempty
    | (c :: s) :: rest => rw [dropEmpty]; simp

end Path

end LinkedViews.Uri
