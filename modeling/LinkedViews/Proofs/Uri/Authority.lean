import LinkedViews.Proofs.Uri.Normal

/-! What follows two slashes. However an authority is read, a text that ends in a dash and plain
characters leaves that ending at the end of the path or, without a path, of the host. -/
namespace LinkedViews.Uri

open Text LinkedViews.Uri.Path

theorem suffix_of_suffix_cons {ending rest text : List Char} {c : Char} (ends : ending <:+ text)
    (later : c :: rest <:+ text) (free : c ∉ ending) : ending <:+ rest := by
  rcases List.suffix_or_suffix_of_suffix ends later with inside | outside
  · rcases List.suffix_cons_iff.mp inside with rfl | shorter
    · exact absurd List.mem_cons_self free
    · exact shorter
  · exact absurd (outside.subset List.mem_cons_self) free

theorem suffix_dropWhile {ending text : List Char} {p : Char → Bool} (ends : ending <:+ text)
    (first : ∀ c ∈ ending.head?, p c = false) : ending <:+ text.dropWhile p := by
  induction text with
  | nil => simpa using ends
  | cons c rest ih =>
    rw [List.dropWhile_cons]
    split
    next dropped =>
      rcases List.suffix_cons_iff.mp ends with rfl | shorter
      · simp [first c rfl] at dropped
      · exact ih shorter
    next => exact ends

theorem splitOn_append {sep : Char → Bool} {ending : List Char}
    (free : ∀ c ∈ ending, sep c = false) (text : List Char) : ∃ front last,
      splitOn sep (text ++ ending) = front ++ [last ++ ending] := by
  induction text with
  | nil => exact ⟨[], [], by simp [splitOn_of_free free]⟩
  | cons c rest ih =>
    obtain ⟨front, last, eq⟩ := ih
    rw [List.cons_append, splitOn, eq]
    split
    · exact ⟨[] :: front, last, rfl⟩
    · cases front with
      | nil => exact ⟨[], c :: last, rfl⟩
      | cons first front => exact ⟨(c :: first) :: front, last, rfl⟩

/-- A last segment that is no step stays the last. -/
theorem walk_concat {s : Segment} (dot : isDot s = false) (double : isDoubleDot s = false)
    (segments kept : List Segment) : ∃ before, walk kept (segments ++ [s]) = before ++ [s] := by
  induction segments generalizing kept with
  | nil => exact ⟨kept.reverse, by simp [walk, dot, double]⟩
  | cons first rest ih =>
    obtain ⟨next, others, eq⟩ := List.exists_cons_of_ne_nil
      (List.append_ne_nil_of_right_ne_nil rest (List.cons_ne_nil s []))
    rw [List.cons_append, eq, walk, ← eq]
    · split
      · exact ih _
      · split
        · exact ih _
        · exact ih _
    · simp

section Ending

variable {ending : List Char} (plain : Plain isAnySlash ending)
  (marks : ∀ c ∈ ending, c ∉ [':', '@', ']']) (dash : ending.head? = some '-')

include dash in
theorem dash_mem : '-' ∈ ending := List.mem_of_mem_head? dash

include plain

theorem slash_free : ∀ c ∈ ending, isSlash c = false := by
  intro c member
  have apart := (plain c member).2
  simp only [isAnySlash, Bool.or_eq_false_iff] at apart
  exact apart.1

include dash

theorem suffix_join_walk {text : List Char} (ends : ending <:+ text) :
    ending <:+ join (walk [] (split isSlash text)) := by
  obtain ⟨body, rfl⟩ := ends
  have whole : escape reservedInPath (body ++ ending) = escape reservedInPath body ++ ending := by
    rw [escape, List.flatMap_append]
    exact congrArg _ (escape_of_free fun c member => (plain c member).1)
  obtain ⟨front, last, pieces⟩ := splitOn_append (slash_free plain) (escape reservedInPath body)
  have inLast : '-' ∈ last ++ ending := List.mem_append_right _ (dash_mem dash)
  obtain ⟨before, walked⟩ := walk_concat (isDot_of_dash inLast) (isDoubleDot_of_dash inLast) front []
  rw [split, whole, pieces, walked, ← join_concat]
  exact List.suffix_append _ _

theorem suffix_pathAfterAuthority {text : List Char} (ends : ending <:+ text) :
    ending <:+ pathAfterAuthority .general text := by
  match text with
  | [] => simp [List.suffix_nil.mp ends] at dash
  | c :: rest =>
    by_cases slash : c = '/'
    · subst slash
      refine suffix_join_walk plain dash
        (suffix_of_suffix_cons ends List.suffix_rfl fun member => ?_)
      exact absurd (slash_free plain _ member) (by decide)
    · have direct : pathAfterAuthority .general (c :: rest) =
          join (walk [] (split isSlash (c :: rest))) := by
        unfold pathAfterAuthority
        split <;> simp_all
      rw [direct]
      exact suffix_join_walk plain dash ends

end Ending

theorem cutHost_eq (inside : Bool) (text : List Char) :
    (cutHost inside text).1 ++ (cutHost inside text).2 = text ∧
      ((cutHost inside text).2 = [] ∨ ∃ rest, (cutHost inside text).2 = ':' :: rest) := by
  fun_induction cutHost inside text with
  | case1 => simp
  | case2 inside c rest stops => exact ⟨rfl, .inr ⟨rest, by rw [stops.1]⟩⟩
  | case3 inside c rest goes host behind eq ih =>
    rw [eq] at ih
    exact ⟨congrArg (c :: ·) ih.1, ih.2⟩

theorem eq_of_beforeLast {c : Char} {text head : List Char} (eq : beforeLast c text = some head) :
    text = head ++ c :: text.drop (head.length + 1) := by
  induction text generalizing head with
  | nil => simp [beforeLast] at eq
  | cons x rest ih =>
    rw [beforeLast] at eq
    split at eq
    next inner found =>
      obtain rfl := Option.some.inj eq
      simpa using ih found
    next =>
      split at eq
      next same =>
        obtain rfl := Option.some.inj eq
        simp [same]
      next => contradiction

theorem eq_of_cutCredentials {text user rest : List Char}
    (cut : cutCredentials text = some (user, rest)) : text = user ++ '@' :: rest := by
  unfold cutCredentials at cut
  split at cut
  next head found =>
    obtain ⟨rfl, rfl⟩ := Prod.mk.inj (Option.some.inj cut)
    exact eq_of_beforeLast found
  next => contradiction

/-- Host and port of what follows the credentials. -/
def readHostPort (user rest path : List Char) : Except UriError (Authority × List Char) := do
  let host ← Host.ofOpaque (cutHost false rest).1
  if host = [] ∧ (cutHost false rest).2 ≠ [] then .error .emptyHost
  let (port, left) ← match (cutHost false rest).2 with
    | ':' :: digits => readPort digits
    | _ => pure (none, [])
  if host = [] ∧ user ≠ [] then .error .emptyHost
  return (⟨String.ofList user, String.ofList host, port⟩, left ++ path)

/-- Credentials are cut off, if there are any, and the rest is read as host and port. -/
theorem readHostPort_of_readAuthority {closed : Bool} {text : List Char}
    {result : Authority × List Char} (read : readAuthority .general closed text = .ok result) :
    readHostPort [] (text.takeWhile (! isSlash ·)) (text.dropWhile (! isSlash ·)) = .ok result ∨
    ∃ head rest user, cutCredentials (text.takeWhile (! isSlash ·)) = some (head, rest) ∧
      readHostPort user rest (text.dropWhile (! isSlash ·)) = .ok result := by
  unfold readAuthority at read
  simp only [if_true] at read
  cases cut : cutCredentials (text.takeWhile (! isSlash ·)) with
  | none =>
    rw [cut] at read
    exact .inl read
  | some parts =>
    obtain ⟨head, rest⟩ := parts
    rw [cut] at read
    cases head with
    | nil =>
      by_cases bare : rest = [] ∧ (text.dropWhile (! isSlash ·) ≠ [] ∨ closed = true)
      · simp only [if_pos bare] at read
        cases read
      · simp only [if_neg bare] at read
        exact .inr ⟨[], rest, [], rfl, read⟩
    | cons c head => exact .inr ⟨c :: head, rest, credentials (c :: head), rfl, read⟩

section Ending

variable {ending : List Char} (plain : Plain isAnySlash ending)
  (marks : ∀ c ∈ ending, c ∉ [':', '@', ']']) (dash : ending.head? = some '-')

include plain marks dash

/-- A host that ends so is in no brackets, and is kept as it is written up to controls. -/
theorem suffix_ofOpaque {text host : List Char} (ends : ending <:+ text)
    (read : Host.ofOpaque text = .ok host) : ending <:+ host := by
  obtain ⟨body, rfl⟩ := ends
  unfold Host.ofOpaque at read
  split at read
  next =>
    unfold Host.bracketed at read
    split at read
    next bracket =>
      obtain ⟨last, eq⟩ : ∃ last, ending.getLast? = some last := by
        cases ending with
        | nil => simp at dash
        | cons c rest => exact ⟨_, List.getLast?_cons⟩
      rw [List.getLast?_append, eq, Option.some_or] at bracket
      refine absurd ?_ (marks last (List.mem_of_mem_getLast? eq))
      simp [Option.some.inj bracket]
    next => contradiction
  next =>
    split at read
    next => contradiction
    next =>
      obtain rfl := Except.ok.inj read
      have kept : escape isControl ending = ending :=
        escape_of_free fun c member => isControl_of_free (plain c member).1
      rw [escape, List.flatMap_append]
      exact ⟨_, congrArg _ kept.symm⟩

omit plain marks in
theorem suffix_readPort {text left : List Char} {port : Option Nat} (ends : ending <:+ text)
    (read : readPort text = .ok (port, left)) : ending <:+ left := by
  have behind : ending <:+ text.dropWhile Decimal.isDigit := by
    refine suffix_dropWhile ends fun c first => ?_
    rw [dash] at first
    obtain rfl := Option.some.inj first
    decide
  simp only [readPort] at read
  split at read
  next => contradiction
  next =>
    split at read
    next none =>
      rw [none] at behind
      simp [List.suffix_nil.mp behind] at dash
    next eq =>
      split at read
      next =>
        obtain ⟨-, rfl⟩ := Prod.mk.inj (Except.ok.inj read)
        exact behind
      next => contradiction

theorem suffix_readHostPort {user rest path left : List Char} {authority : Authority}
    (ends : ending <:+ path ∨ path = [] ∧ ending <:+ rest)
    (read : readHostPort user rest path = .ok (authority, left)) :
    ending <:+ left ∨ left = [] ∧ ending <:+ authority.host.toList := by
  obtain ⟨whole, stop⟩ := cutHost_eq false rest
  cases opened : Host.ofOpaque (cutHost false rest).1 with
  | error e => simp [readHostPort, opened, bind, Except.bind] at read
  | ok host =>
    simp only [readHostPort, opened, bind, Except.bind, pure, Except.pure] at read
    split at read
    next => contradiction
    next =>
      rcases stop with none | ⟨digits, colon⟩
      · rw [none, List.append_nil] at whole
        simp only [none] at read
        split at read
        next => contradiction
        next =>
          obtain ⟨rfl, rfl⟩ := Prod.mk.inj (Except.ok.inj read)
          rcases ends with inPath | ⟨rfl, inHost⟩
          · exact .inl inPath
          · rw [← whole] at inHost
            exact .inr ⟨rfl, by simpa using suffix_ofOpaque plain marks dash inHost opened⟩
      · simp only [colon] at read
        cases numbered : readPort digits with
        | error e => simp [numbered] at read
        | ok found =>
          simp only [numbered] at read
          split at read
          next => contradiction
          next =>
            obtain ⟨-, rfl⟩ := Prod.mk.inj (Except.ok.inj read)
            refine .inl ?_
            rcases ends with inPath | ⟨rfl, inRest⟩
            · exact inPath.trans (List.suffix_append _ _)
            · have later : ':' :: digits <:+ rest := ⟨_, colon ▸ whole⟩
              have inDigits := suffix_of_suffix_cons inRest later fun member =>
                marks _ member (by simp)
              rw [List.append_nil]
              exact suffix_readPort dash inDigits numbered

/-- The ending is the end of the path, or of the host where no path is left. -/
theorem suffix_readAuthority {closed : Bool} {text left : List Char} {authority : Authority}
    (ends : ending <:+ text) (read : readAuthority .general closed text = .ok (authority, left)) :
    ending <:+ left ∨ left = [] ∧ ending <:+ authority.host.toList := by
  have parted : text.takeWhile (! isSlash ·) ++ text.dropWhile (! isSlash ·) = text :=
    List.takeWhile_append_dropWhile
  have placed : ending <:+ text.dropWhile (! isSlash ·) ∨
      text.dropWhile (! isSlash ·) = [] ∧ ending <:+ text.takeWhile (! isSlash ·) := by
    cases eq : text.dropWhile (! isSlash ·) with
    | nil =>
      rw [eq, List.append_nil] at parted
      exact .inr ⟨rfl, parted.symm ▸ ends⟩
    | cons c rest =>
      have slash : isSlash c = true := by
        have more : text.dropWhile (! isSlash ·) ≠ [] := by simp [eq]
        simpa [eq] using List.head_dropWhile_not _ more
      rw [← eq]
      rcases List.suffix_or_suffix_of_suffix ends (List.dropWhile_suffix (! isSlash ·)) with
        inside | outside
      · exact .inl inside
      · have among : c ∈ ending := outside.subset (by simp [eq])
        simp [slash_free plain c among] at slash
  have behind {head rest : List Char}
      (credentialed : text.takeWhile (! isSlash ·) = head ++ '@' :: rest) :
      ending <:+ text.dropWhile (! isSlash ·) ∨
        text.dropWhile (! isSlash ·) = [] ∧ ending <:+ rest := by
    rcases placed with inPath | ⟨pathless, inSpan⟩
    · exact .inl inPath
    · refine .inr ⟨pathless, suffix_of_suffix_cons inSpan ⟨head, credentialed.symm⟩ fun member => ?_⟩
      exact marks _ member (by simp)
  rcases readHostPort_of_readAuthority read with bare | ⟨head, rest, user, cut, credentialed⟩
  · exact suffix_readHostPort plain marks dash placed bare
  · exact suffix_readHostPort plain marks dash (behind (eq_of_cutCredentials cut)) credentialed

/-- What follows two slashes keeps its ending. -/
theorem suffix_readGeneral {closed : Bool} {text path : List Char} {authority : Option Authority}
    (ends : ending <:+ text)
    (read : readGeneral closed ('/' :: '/' :: text) = .ok (authority, path)) :
    ∃ named, authority = some named ∧
      (ending <:+ path ∨ path = [] ∧ ending <:+ named.host.toList) := by
  cases inner : readAuthority .general closed text with
  | error e => simp [readGeneral, inner, bind, Except.bind] at read
  | ok found =>
    simp only [readGeneral, inner, bind, Except.bind, pure, Except.pure, Except.ok.injEq,
      Prod.mk.injEq] at read
    obtain ⟨rfl, rfl⟩ := read
    refine ⟨found.1, rfl, ?_⟩
    rcases suffix_readAuthority plain marks dash ends inner with inPath | ⟨pathless, inHost⟩
    · exact .inl (suffix_pathAfterAuthority plain dash inPath)
    · exact .inr ⟨by rw [pathless]; rfl, inHost⟩

end Ending

end LinkedViews.Uri
