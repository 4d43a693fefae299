import LinkedViews.Proofs.Uri.Authority

/-! Counting slashes. Reading takes slashes away, one for each segment that is stepped out of and all
those before an authority, and adds one at most; so a text that is read as an authority and a path
never comes back as a path. -/
namespace LinkedViews.Uri

open Text LinkedViews.Uri.Path

namespace Path

theorem count_escape_le (reserved : Char → Bool) (text : List Char) :
    (escape reserved text).count '/' ≤ text.count '/' := by
  have whole (c : Char) : (escapeChar reserved c).count '/' ≤ [c].count '/' := by
    unfold escapeChar
    split
    · have free : '/' ∉ (Utf8.encodeChar c).flatMap triple := by
        intro member
        obtain ⟨b, -, inTriple⟩ := List.mem_flatMap.mp member
        exact absurd (mem_tripleChars_of_mem_triple inTriple) (by decide)
      rw [List.count_eq_zero_of_not_mem free]
      exact Nat.zero_le _
    · exact Nat.le_refl _
  induction text with
  | nil => exact Nat.le_refl _
  | cons c rest ih =>
    have first := whole c
    have eq : escape reserved (c :: rest) = escapeChar reserved c ++ escape reserved rest := rfl
    rw [eq, List.count_append, ← List.singleton_append, List.count_append]
    omega

theorem length_splitOn (text : List Char) :
    (splitOn isSlash text).length = text.count '/' + 1 := by
  induction text with
  | nil => rfl
  | cons c rest ih =>
    rw [splitOn]
    by_cases slash : c = '/'
    · subst slash
      simp [isSlash, ih]
    · obtain ⟨piece, pieces, eq⟩ := List.exists_cons_of_ne_nil (splitOn_ne_nil isSlash rest)
      rw [eq] at ih
      simpa [isSlash, slash, eq] using ih

theorem length_up_le (kept : List Segment) : (up kept).length ≤ kept.length := by
  cases kept with
  | nil => exact Nat.le_refl _
  | cons top below =>
    rw [up]
    split
    · exact Nat.le_refl _
    · exact Nat.le_succ _

/-- A walk drops segments and adds none, but for an empty one in place of a step at the end. -/
theorem length_walk_le (segments kept : List Segment) :
    (walk kept segments).length ≤ kept.length + segments.length := by
  fun_induction walk kept segments with
  | case1 kept => simp
  | case2 kept s double =>
    have := length_up_le kept
    simp
    omega
  | case3 kept s _ dot => simp
  | case4 kept s _ _ => simp
  | case5 kept s rest more double ih =>
    have := length_up_le kept
    simp only [List.length_cons]
    omega
  | case6 kept s rest more _ dot ih =>
    simp only [List.length_cons]
    omega
  | case7 kept s rest more _ _ ih =>
    simp only [List.length_cons] at ih ⊢
    omega

theorem count_join {segments : List Segment} (plain : ∀ s ∈ segments, Plain isSlash s) :
    (join segments).count '/' = segments.length := by
  induction segments with
  | nil => rfl
  | cons s rest ih =>
    have free : '/' ∉ s := by
      intro member
      exact absurd (plain s List.mem_cons_self '/' member).2 (by decide)
    have later := ih fun t among => plain t (List.mem_cons_of_mem _ among)
    simp [join_cons, List.count_append, List.count_eq_zero_of_not_mem free, later]

theorem count_join_walk_le (text : List Char) :
    (join (walk [] (split isSlash text))).count '/' ≤ text.count '/' + 1 := by
  have plain : ∀ s ∈ walk [] (split isSlash text), Plain isSlash s := fun s among =>
    (proper_of_mem_walk (fun _ => plain_of_mem_split) s among).plain
  have walked := length_walk_le (split isSlash text) []
  have pieces : (split isSlash text).length ≤ text.count '/' + 1 := by
    rw [split, length_splitOn]
    exact Nat.succ_le_succ (count_escape_le _ _)
  rw [count_join plain]
  simp only [List.length_nil] at walked
  omega

end Path

theorem count_pathAfterAuthority_le (text : List Char) :
    (pathAfterAuthority .general text).count '/' ≤ text.count '/' + 1 := by
  unfold pathAfterAuthority
  split
  · simp
  · have := count_join_walk_le (by assumption)
    simp
    omega
  · exact count_join_walk_le _
  · contradiction
  · contradiction

theorem left_of_readPort {text left : List Char} {port : Option Nat}
    (read : readPort text = .ok (port, left)) : left = text.dropWhile Decimal.isDigit := by
  simp only [readPort] at read
  split at read
  next => contradiction
  next =>
    split at read
    next none =>
      obtain ⟨-, rfl⟩ := Prod.mk.inj (Except.ok.inj read)
      exact none.symm
    next =>
      split at read
      next => exact (Prod.mk.inj (Except.ok.inj read)).2.symm
      next => contradiction

/-- Host and port are read off the front. -/
theorem left_of_readHostPort {user rest path left : List Char} {authority : Authority}
    (read : readHostPort user rest path = .ok (authority, left)) :
    ∃ behind, behind <:+ rest ∧ left = behind ++ path := by
  have whole := (cutHost_eq false rest).1
  cases opened : Host.ofOpaque (cutHost false rest).1 with
  | error e => simp [readHostPort, opened, bind, Except.bind] at read
  | ok host =>
    simp only [readHostPort, opened, bind, Except.bind, pure, Except.pure] at read
    split at read
    next => contradiction
    next =>
      rcases (cutHost_eq false rest).2 with none | ⟨digits, colon⟩
      · simp only [none] at read
        split at read
        next => contradiction
        next =>
          obtain ⟨-, rfl⟩ := Prod.mk.inj (Except.ok.inj read)
          exact ⟨[], List.nil_suffix, rfl⟩
      · simp only [colon] at read
        cases numbered : readPort digits with
        | error e => simp [numbered] at read
        | ok found =>
          simp only [numbered] at read
          split at read
          next => contradiction
          next =>
            obtain ⟨-, rfl⟩ := Prod.mk.inj (Except.ok.inj read)
            refine ⟨found.2, ?_, rfl⟩
            rw [left_of_readPort numbered]
            apply (List.dropWhile_suffix _).trans
            apply (List.suffix_cons ':' digits).trans
            exact ⟨_, colon ▸ whole⟩

/-- What is left for the path is an end of the text. -/
theorem left_of_readAuthority {closed : Bool} {text left : List Char} {authority : Authority}
    (read : readAuthority .general closed text = .ok (authority, left)) : left <:+ text := by
  have parted : text.takeWhile (! isSlash ·) ++ text.dropWhile (! isSlash ·) = text :=
    List.takeWhile_append_dropWhile
  have within {user rest : List Char} (inside : rest <:+ text.takeWhile (! isSlash ·))
      (placed : readHostPort user rest (text.dropWhile (! isSlash ·)) = .ok (authority, left)) :
      left <:+ text := by
    obtain ⟨behind, ends, rfl⟩ := left_of_readHostPort placed
    obtain ⟨front, eq⟩ := ends.trans inside
    exact ⟨front, by rw [← List.append_assoc, eq, parted]⟩
  rcases readHostPort_of_readAuthority read with bare | ⟨head, rest, user, cut, credentialed⟩
  · exact within List.suffix_rfl bare
  · apply within _ credentialed
    rw [eq_of_cutCredentials cut]
    exact (List.suffix_cons '@' rest).trans (List.suffix_append _ _)

/-- What follows two slashes has an authority, and a path with fewer slashes than the whole. -/
theorem count_readGeneral_lt {closed : Bool} {text path : List Char} {authority : Option Authority}
    (read : readGeneral closed ('/' :: '/' :: text) = .ok (authority, path)) :
    authority.isSome = true ∧ path.count '/' < ('/' :: '/' :: text).count '/' := by
  cases inner : readAuthority .general closed text with
  | error e => simp [readGeneral, inner, bind, Except.bind] at read
  | ok found =>
    simp only [readGeneral, inner, bind, Except.bind, pure, Except.pure, Except.ok.injEq,
      Prod.mk.injEq] at read
    obtain ⟨rfl, rfl⟩ := read
    have behind : found.2.count '/' ≤ text.count '/' :=
      (left_of_readAuthority inner).sublist.count_le _
    have added := count_pathAfterAuthority_le found.2
    refine ⟨rfl, ?_⟩
    simp only [List.count_cons_self]
    omega

end LinkedViews.Uri
