import LinkedViews.Proofs.Uri.Path
import LinkedViews.Uri.Parse

/-! Identifiers in normal form. What the reader of identifiers leaves as a path reads back as the
same path, after any scheme that has no fixed meaning and, for local files, after their own. -/
namespace LinkedViews.Uri

open Text LinkedViews.Uri.Path

/-- A path with a root: one segment or more, all of them proper. -/
def Rooted (sep : Char → Bool) (path : List Char) : Prop :=
  ∃ first rest, path = join (first :: rest) ∧ ∀ s ∈ first :: rest, Proper sep s

/-- The path of a local file. -/
def Local (path : List Char) : Prop :=
  ∃ first rest, path = join (first :: rest) ∧ (∀ s ∈ first :: rest, Proper isAnySlash s) ∧
    Leads (first :: rest)

/-- A path without a root, which has no segments. -/
structure Opaque (path : List Char) : Prop where
  unrooted : path.head? ≠ some '/'
  plain : ∀ c ∈ path, isControl c = false ∧ c ≠ '#' ∧ c ≠ '?'

theorem proper_isSlash {s : Segment} (proper : Proper isAnySlash s) : Proper isSlash s where
  plain c member := by
    obtain ⟨free, apart⟩ := proper.plain c member
    simp only [isAnySlash, Bool.or_eq_false_iff] at apart
    exact ⟨free, apart.1⟩
  dot := proper.dot
  doubleDot := proper.doubleDot

theorem Local.rooted {path : List Char} (isLocal : Local path) : Rooted isSlash path := by
  obtain ⟨first, rest, rfl, proper, -⟩ := isLocal
  exact ⟨first, rest, rfl, fun s among => proper_isSlash (proper s among)⟩

theorem rooted_of_proper {sep : Char → Bool} {segments : List Segment} (some : segments ≠ [])
    (proper : ∀ s ∈ segments, Proper sep s) : Rooted sep (join segments) := by
  obtain ⟨first, rest, rfl⟩ := List.exists_cons_of_ne_nil some
  exact ⟨first, rest, rfl, proper⟩

theorem rooted_join_walk (sep : Char → Bool) (text : List Char) :
    Rooted sep (join (walk [] (split sep text))) :=
  rooted_of_proper (walk_ne_nil (splitOn_ne_nil _ _) [])
    (proper_of_mem_walk fun _ among => plain_of_mem_split among)

theorem local_filePath {segments : List Segment} (some : segments ≠ [])
    (plain : ∀ s ∈ segments, Plain isAnySlash s) : Local (filePath segments) := by
  have kept := dropEmpty_ne_nil (walk_ne_nil some [])
  obtain ⟨first, rest, eq⟩ := List.exists_cons_of_ne_nil kept
  refine ⟨first, rest, by rw [filePath, eq], fun s among => ?_, eq ▸ leads_dropEmpty _⟩
  exact proper_of_mem_walk plain s (mem_of_mem_dropEmpty (eq ▸ among))

theorem plain_withColon {s : Segment} (plain : Plain isAnySlash s) :
    Plain isAnySlash (withColon s) := by
  unfold withColon
  split
  · split
    · intro c member
      rcases List.mem_pair.mp member with rfl | rfl
      · exact plain _ List.mem_cons_self
      · decide
    · exact plain
  · exact plain

/-- A drive at the head leaves the segments plain, and leaves some. -/
theorem plain_headDrive? {kept segments found : List Segment}
    (plain : ∀ s ∈ segments, Plain isAnySlash s) (drive : headDrive? kept segments = some found) :
    found ≠ [] ∧ ∀ s ∈ found, Plain isAnySlash s := by
  have added {s : Segment} {rest : List Segment} {below : Option (List Segment)}
      {found : List Segment} (plain : ∀ t ∈ s :: rest, Plain isAnySlash t)
      (ih : ∀ found, below = some found → found ≠ [] ∧ ∀ t ∈ found, Plain isAnySlash t)
      (drive : below.map (s :: ·) = some found) :
      found ≠ [] ∧ ∀ t ∈ found, Plain isAnySlash t := by
    obtain ⟨others, some, rfl⟩ := Option.map_eq_some_iff.mp drive
    exact ⟨List.cons_ne_nil _ _,
      List.forall_mem_cons.mpr ⟨plain s List.mem_cons_self, (ih others some).2⟩⟩
  fun_induction headDrive? kept segments generalizing found with
  | case1 => contradiction
  | case2 kept s rest _ ih | case3 kept s rest _ _ ih | case5 kept s rest _ _ _ ih =>
    exact added plain
      (fun _ => ih fun t among => plain t (List.mem_cons_of_mem _ among)) drive
  | case4 kept s rest =>
    obtain rfl := Option.some.inj drive
    exact ⟨List.cons_ne_nil _ _, List.forall_mem_cons.mpr ⟨plain_withColon (plain s List.mem_cons_self),
      fun t among => plain t (List.mem_cons_of_mem _ among)⟩⟩

theorem local_split (text : List Char) : Local (filePath (split isAnySlash text)) :=
  local_filePath (splitOn_ne_nil _ _) fun _ among => plain_of_mem_split among

theorem local_headDrive? {text : List Char} {kept found : List Segment}
    (drive : headDrive? kept (split isAnySlash text) = some found) : Local (filePath found) := by
  obtain ⟨some, plain⟩ := plain_headDrive? (fun _ among => plain_of_mem_split among) drive
  exact local_filePath some plain

theorem local_withDrive (kept : List Segment) (text : List Char) :
    Local (filePath (withDrive kept (split isAnySlash text))) := by
  rw [withDrive]
  cases drive : headDrive? kept (split isAnySlash text) with
  | none => exact local_split text
  | some found => exact local_headDrive? drive

/-- A local file has no host, or a named one. -/
theorem local_of_readFile {text path : List Char} {authority : Authority}
    (read : readFile text = .ok (authority, path)) :
    Local path ∧ (authority = .none ∨ ∃ host, host ≠ "" ∧ authority = ⟨"", host, none⟩) := by
  have unhosted {found : List Char} (isLocal : Local found)
      (eq : (.ok (Authority.none, found) : Except UriError _) = .ok (authority, path)) :
      Local path ∧ (authority = .none ∨ ∃ host, host ≠ "" ∧ authority = ⟨"", host, none⟩) := by
    obtain ⟨rfl, rfl⟩ := Prod.mk.inj (Except.ok.inj eq)
    exact ⟨isLocal, .inl rfl⟩
  have hosted {host behind : List Char}
      (eq : (if host = [] ∨ host = "localhost".toList then
          .ok (Authority.none, filePath (withDrive [[]] (split isAnySlash behind)))
        else .ok (onHost host (split isAnySlash behind)) : Except UriError _) =
        .ok (authority, path)) :
      Local path ∧ (authority = .none ∨ ∃ host, host ≠ "" ∧ authority = ⟨"", host, none⟩) := by
    split at eq
    next => exact unhosted (local_withDrive _ _) eq
    next named =>
      unfold onHost at eq
      split at eq
      next drive => exact unhosted (local_headDrive? drive) eq
      next =>
        obtain ⟨rfl, rfl⟩ := Prod.mk.inj (Except.ok.inj eq)
        refine ⟨local_split _, .inr ⟨String.ofList host, fun empty => ?_, rfl⟩⟩
        exact named (.inl (by simpa using congrArg String.toList empty))
  unfold readFile at read
  split at read
  next a b rest =>
    split at read
    next =>
      simp only [bind, Except.bind, pure, Except.pure] at read
      split at read
      next => exact unhosted (local_withDrive _ _) read
      next =>
        split at read
        next => exact unhosted (local_withDrive _ _) (by simpa using read)
        next =>
          split at read
          next => contradiction
          next => exact hosted read
    next => exact unhosted (local_withDrive _ _) read
  next => exact unhosted (local_withDrive _ _) read

/-- After an authority, only a scheme without a fixed meaning can go without a path. -/
theorem rooted_pathAfterAuthority (kind : SchemeKind) (text : List Char) :
    pathAfterAuthority kind text = [] ∨ Rooted isSlash (pathAfterAuthority kind text) := by
  unfold pathAfterAuthority
  split
  · exact .inl rfl
  · exact .inr (rooted_join_walk _ _)
  · exact .inr (rooted_join_walk _ _)
  · refine .inr ?_
    obtain ⟨first, rest, eq, proper⟩ := rooted_join_walk isAnySlash _
    exact ⟨first, rest, eq, fun s among => proper_isSlash (proper s among)⟩
  · exact .inr ⟨[], [], rfl, by simp [Proper.nil]⟩

theorem opaque_nil : Opaque [] := ⟨by simp, by simp⟩

theorem encodeChar_ne_nil (c : Char) : Utf8.encodeChar c ≠ [] := by
  simp only [Utf8.encodeChar]
  split
  · simp
  · split
    · simp
    · split <;> simp

theorem escapeChar_ne_nil (reserved : Char → Bool) (c : Char) : escapeChar reserved c ≠ [] := by
  unfold escapeChar
  split
  · obtain ⟨b, bytes, eq⟩ := List.exists_cons_of_ne_nil (encodeChar_ne_nil c)
    simp [eq, triple]
  · simp

/-- Escaping begins no path. -/
theorem head?_escape_ne_slash {reserved : Char → Bool} {text : List Char}
    (unrooted : text.head? ≠ some '/') : (escape reserved text).head? ≠ some '/' := by
  cases text with
  | nil => simp [escape]
  | cons c rest =>
    obtain ⟨first, others, eq⟩ := List.exists_cons_of_ne_nil (escapeChar_ne_nil reserved c)
    have among : first ∈ escape reserved [c] := by simp [escape, eq]
    intro slash
    obtain rfl : first = '/' := by simpa [escape, eq] using slash
    rcases mem_escape among with ⟨same, -⟩ | inTriple
    · exact unrooted (by simpa using (List.mem_singleton.mp same).symm)
    · revert inTriple
      decide

theorem opaque_escape {text : List Char} (unrooted : text.head? ≠ some '/')
    (whole : ∀ c ∈ text, c ≠ '#' ∧ c ≠ '?') : Opaque (escape isControl text) where
  unrooted := head?_escape_ne_slash unrooted
  plain c member := by
    refine ⟨free_of_mem_escape (by decide) member, ?_⟩
    rcases mem_escape member with ⟨inText, -⟩ | inTriple
    · exact whole c inText
    · constructor <;> rintro rfl <;> revert inTriple <;> decide

theorem readGeneral_path {closed : Bool} {text path : List Char} {authority : Option Authority}
    (whole : ∀ c ∈ text, c ≠ '#' ∧ c ≠ '?') (read : readGeneral closed text = .ok (authority, path)) :
    Rooted isSlash path ∨ Opaque path := by
  unfold readGeneral at read
  split at read
  next rest =>
    cases inner : readAuthority .general closed rest with
    | error e => simp [inner, bind, Except.bind] at read
    | ok found =>
      simp only [inner, bind, Except.bind, pure, Except.pure, Except.ok.injEq, Prod.mk.injEq]
        at read
      rw [← read.2]
      rcases rooted_pathAfterAuthority .general found.2 with empty | rooted
      · exact .inr (empty ▸ opaque_nil)
      · exact .inl rooted
  next rest _ =>
    obtain ⟨-, rfl⟩ := Prod.mk.inj (Except.ok.inj read)
    exact .inl (rooted_join_walk _ _)
  next unslashed unrooted =>
    obtain ⟨-, rfl⟩ := Prod.mk.inj (Except.ok.inj read)
    refine .inr (opaque_escape (fun slash => ?_) whole)
    cases text with
    | nil => simp at slash
    | cons c rest => exact unrooted rest (by simpa using slash)

/-- Authority and path of a text without query and fragment. -/
def readHierarchy (kind : SchemeKind) (closed : Bool) (head : List Char) :
    Except UriError (Option Authority × List Char) :=
  match kind with
  | .file => do
    let (authority, path) ← readFile head
    pure (some authority, path)
  | .network _ => do
    let (authority, path) ← readAuthority kind closed (head.dropWhile isAnySlash)
    pure (some authority, pathAfterAuthority kind path)
  | .general => readGeneral closed head

def assemble (scheme : List Char) (tail : Tail) (authority : Option Authority)
    (path : List Char) : Uri where
  scheme := String.ofList scheme
  authority := authority
  path := String.ofList path
  query := tail.query.map fun q => String.ofList
    (escape (if SchemeKind.of scheme = .general then reservedInQuery else reservedInSpecialQuery) q)
  fragment := tail.fragment.map fun f => String.ofList (escape reservedInFragment f)

/-- Scheme, hierarchy and tail are read one after the other. -/
theorem parseChars_eq (raw : List Char) : parseChars raw =
    match readScheme? (cleaned raw) with
    | none => .error .relativeWithoutBase
    | some (scheme, rest) =>
      (readHierarchy (.of scheme) (!(cutTail rest).2.isEmpty) (cutTail rest).1).map fun read =>
        assemble scheme (cutTail rest).2 read.1 read.2 := by
  unfold parseChars
  cases eq : readScheme? (cleaned raw) with
  | none => rfl
  | some found =>
    obtain ⟨scheme, rest⟩ := found
    simp only [readHierarchy]
    cases kind : SchemeKind.of scheme with
    | file =>
      cases read : readFile (cutTail rest).1 <;>
        simp [bind, Except.bind, pure, Except.pure, Except.map, assemble, kind]
    | network port =>
      cases read : readAuthority (.network port) (!(cutTail rest).2.isEmpty)
          ((cutTail rest).1.dropWhile isAnySlash) <;>
        simp [bind, Except.bind, pure, Except.pure, Except.map, assemble, kind]
    | general =>
      cases read : readGeneral (!(cutTail rest).2.isEmpty) (cutTail rest).1 <;>
        simp [bind, Except.bind, pure, Except.pure, Except.map, assemble, kind]

theorem free_of_cutTail (text : List Char) : ∀ c ∈ (cutTail text).1, c ≠ '#' ∧ c ≠ '?' := by
  have before (text : List Char) {mark : Char} : ∀ c ∈ ((cut mark text).map Prod.fst).getD text,
      c ∈ text ∧ c ≠ mark := by
    intro c member
    cases found : cut mark text with
    | none =>
      rw [found] at member
      exact ⟨member, fun same => cut_eq_none_iff.mp found (same ▸ member)⟩
    | some parts =>
      rw [found] at member
      obtain ⟨eq, free⟩ := eq_of_cut found
      rw [eq]
      exact ⟨List.mem_append_left _ member, fun same => free (same ▸ member)⟩
  intro c member
  have inner : c ∈ ((cut '?' (((cut '#' text).map Prod.fst).getD text)).map Prod.fst).getD
      (((cut '#' text).map Prod.fst).getD text) := by
    unfold cutTail at member
    cases first : cut '#' text <;> simp only [first] at member <;> split at member <;>
      next second => simpa [second] using member
  obtain ⟨earlier, notQuery⟩ := before _ c inner
  exact ⟨(before _ c earlier).2, notQuery⟩

theorem cutTail_of_free {text : List Char} (whole : ∀ c ∈ text, c ≠ '#' ∧ c ≠ '?') :
    cutTail text = (text, ⟨none, none⟩) := by
  have hash : cut '#' text = none := cut_eq_none_iff.mpr fun member => (whole _ member).1 rfl
  have query : cut '?' text = none := cut_eq_none_iff.mpr fun member => (whole _ member).2 rfl
  simp [cutTail, hash, query]

/-- The parts of an identifier that was read. -/
theorem read_of_parse {raw : String} {u : Uri} (read : parse raw = .ok u) :
    ∃ scheme tail authority path closed head, u = assemble scheme tail authority path ∧
      readHierarchy (.of scheme) closed head = .ok (authority, path) ∧
      ∀ c ∈ head, c ≠ '#' ∧ c ≠ '?' := by
  rw [parse, parseChars_eq] at read
  split at read
  next => contradiction
  next scheme rest _ =>
    cases inner : readHierarchy (.of scheme) (!(cutTail rest).2.isEmpty) (cutTail rest).1 with
    | error e => simp [inner, Except.map] at read
    | ok found =>
      rw [inner] at read
      exact ⟨scheme, _, found.1, found.2, _, _, (Except.ok.inj read).symm, inner,
        free_of_cutTail rest⟩

/-- Every path that was read is rooted or opaque. -/
theorem path_of_parse {raw : String} {u : Uri} (read : parse raw = .ok u) :
    Rooted isSlash u.path.toList ∨ Opaque u.path.toList := by
  obtain ⟨scheme, tail, authority, path, closed, head, rfl, inner, whole⟩ := read_of_parse read
  simp only [assemble, String.toList_ofList]
  unfold readHierarchy at inner
  split at inner
  next =>
    cases file : readFile head with
    | error e => simp [file, bind, Except.bind] at inner
    | ok found =>
      simp only [file, bind, Except.bind, pure, Except.pure, Except.ok.injEq, Prod.mk.injEq]
        at inner
      exact .inl (inner.2 ▸ (local_of_readFile file).1.rooted)
  next port _ =>
    cases network : readAuthority (.of scheme) closed (head.dropWhile isAnySlash) with
    | error e => simp [network, bind, Except.bind] at inner
    | ok found =>
      simp only [network, bind, Except.bind, pure, Except.pure, Except.ok.injEq, Prod.mk.injEq]
        at inner
      rcases rooted_pathAfterAuthority (.of scheme) found.2 with empty | rooted
      · exact .inr (inner.2 ▸ empty ▸ opaque_nil)
      · exact .inl (inner.2 ▸ rooted)
  next => exact readGeneral_path whole inner

/-- A local file without a host, a query and a fragment is its path. -/
theorem local_of_parse {raw : String} {u : Uri} (read : parse raw = .ok u)
    (file : u.scheme = "file") (unhosted : u.host? = none) (query : u.query = none)
    (fragment : u.fragment = none) :
    Local u.path.toList ∧ u = ⟨"file", some .none, u.path, none, none⟩ := by
  obtain ⟨scheme, tail, authority, path, closed, head, rfl, inner, whole⟩ := read_of_parse read
  have name : scheme = ['f', 'i', 'l', 'e'] := by
    simpa [assemble] using congrArg String.toList file
  subst name
  cases opened : readFile head with
  | error e => simp [readHierarchy, SchemeKind.of, opened, bind, Except.bind] at inner
  | ok found =>
    obtain ⟨a, p⟩ := found
    simp only [readHierarchy, SchemeKind.of, if_true, opened, bind, Except.bind, pure, Except.pure,
      Except.ok.injEq, Prod.mk.injEq] at inner
    obtain ⟨rfl, rfl⟩ := inner
    obtain ⟨isLocal, rfl | ⟨host, named, rfl⟩⟩ := local_of_readFile opened
    · refine ⟨by simpa [assemble] using isLocal, ?_⟩
      simp only [assemble, Option.map_eq_none_iff] at query fragment ⊢
      simp [query, fragment]
    · simp [assemble, host?, named] at unhosted

theorem ne_of_toNat {c : Char} {n : Nat} (differ : c ≠ Char.ofNat n) : c.toNat ≠ n := by
  rintro rfl
  exact differ (Char.ofNat_toNat c).symm

theorem cleaned_of_plain {text : List Char} (plain : ∀ c ∈ text, isControl c = false)
    (first : ∀ c ∈ text.head?, c ≠ ' ') (last : ∀ c ∈ text.getLast?, c ≠ ' ') :
    cleaned text = text := by
  have kept {c : Char} (member : c ∈ text) (visible : c ≠ ' ') : isTrimmed c = false := by
    have control := plain c member
    have differ : c.toNat ≠ 32 := ne_of_toNat visible
    simp only [isControl, Bool.or_eq_false_iff, decide_eq_false_iff_not] at control
    simp only [isTrimmed, decide_eq_false_iff_not]
    omega
  have shown : ∀ c ∈ text, (!isIgnored c) = true := by
    intro c member
    have control := plain c member
    simp only [isIgnored, Bool.not_eq_true', Bool.or_eq_false_iff, beq_eq_false_iff_ne]
    refine ⟨⟨?_, ?_⟩, ?_⟩ <;> rintro rfl <;> revert control <;> decide
  rw [cleaned, dropWhile_of_head fun c at_head => kept (List.mem_of_mem_head? at_head) (first c at_head),
    dropEndWhile_of_last fun c at_last => kept (List.mem_of_mem_getLast? at_last) (last c at_last)]
  exact List.filter_eq_self.mpr shown

/-- A scheme as it stands in a normal form: small letters, digits and three marks, a letter first. -/
structure IsScheme (scheme : List Char) : Prop where
  begins : ∃ first rest, scheme = first :: rest ∧ isLetter first = true
  plain : scheme.all isSchemeChar = true
  small : scheme.map lower = scheme

theorem le_iff_toNat (c d : Char) : c ≤ d ↔ c.toNat ≤ d.toNat := Iff.rfl

theorem isControl_of_isSchemeChar {c : Char} (plain : isSchemeChar c = true) :
    isControl c = false ∧ c ≠ ':' := by
  have small : 0x20 ≤ c.toNat ∧ c.toNat < 0x7F := by
    simp only [isSchemeChar, isLetter, Decimal.isDigit, Bool.or_eq_true, Bool.and_eq_true,
      decide_eq_true_eq, beq_iff_eq, le_iff_toNat, Char.reduceToNat] at plain
    rcases plain with ((((letter | letter) | digit) | rfl) | rfl) | rfl
    · omega
    · omega
    · omega
    all_goals decide
  refine ⟨by simp [isControl]; omega, ?_⟩
  rintro rfl
  revert plain
  decide

theorem readScheme?_append {scheme : List Char} (isScheme : IsScheme scheme) (rest : List Char) :
    readScheme? (scheme ++ ':' :: rest) = some (scheme, rest) := by
  have free : ':' ∉ scheme := fun member =>
    (isControl_of_isSchemeChar (List.all_eq_true.mp isScheme.plain _ member)).2 rfl
  have plain := isScheme.plain
  have small := isScheme.small
  obtain ⟨first, others, rfl, letter⟩ := isScheme.begins
  rw [readScheme?, cut_append_cons free]
  simp only [Option.bind_eq_bind, Option.bind_some, plain, letter, small, and_self, if_true]

/-- After a scheme, a path without controls, marks and a final space is read as it stands. -/
theorem parseChars_append {scheme path : List Char} (isScheme : IsScheme scheme)
    (plain : ∀ c ∈ path, isControl c = false ∧ c ≠ '#' ∧ c ≠ '?')
    (last : ∀ c ∈ path.getLast?, c ≠ ' ') : parseChars (scheme ++ ':' :: path) =
      (readHierarchy (.of scheme) false path).map fun read =>
        assemble scheme ⟨none, none⟩ read.1 read.2 := by
  have clean : cleaned (scheme ++ ':' :: path) = scheme ++ ':' :: path := by
    apply cleaned_of_plain
    · intro c member
      rcases List.mem_append.mp member with inScheme | inRest
      · exact (isControl_of_isSchemeChar (List.all_eq_true.mp isScheme.plain c inScheme)).1
      · rcases List.mem_cons.mp inRest with rfl | inPath
        · decide
        · exact (plain c inPath).1
    · obtain ⟨first, rest, rfl, letter⟩ := isScheme.begins
      rintro c same rfl
      obtain rfl : first = ' ' := by simpa using same
      revert letter
      decide
    · rw [List.getLast?_append, List.getLast?_cons, Option.some_or]
      rintro c atLast rfl
      cases ending : path.getLast? with
      | none => simp [ending] at atLast
      | some x => exact last ' ' (by simpa [ending] using atLast) rfl
  rw [parseChars_eq, clean, readScheme?_append isScheme]
  simp [cutTail_of_free fun c member => (plain c member).2, Tail.isEmpty]

/-- A second slash at the start would begin an authority. -/
def Slashed (path : List Char) : Prop := ∃ rest, path = '/' :: '/' :: rest

theorem readGeneral_rooted {path : List Char} (rooted : Rooted isSlash path)
    (single : ¬Slashed path) (closed : Bool) : readGeneral closed path = .ok (none, path) := by
  obtain ⟨first, rest, rfl, proper⟩ := rooted
  have again : join (walk [] (split isSlash (first ++ join rest))) = join (first :: rest) := by
    rw [split_join rfl fun s among => (proper s among).plain, walk_of_proper proper]
  rw [join_cons] at single ⊢
  unfold readGeneral
  split
  next other eq => exact absurd ⟨other, eq⟩ single
  next other _ eq =>
    obtain ⟨-, rfl⟩ := List.cons.inj eq
    rw [again, join_cons]
  next unrooted => exact absurd rfl (unrooted _)

theorem readGeneral_opaque {path : List Char} (plain : Opaque path) (closed : Bool) :
    readGeneral closed path = .ok (none, path) := by
  unfold readGeneral
  split
  next rest => exact absurd rfl plain.unrooted
  next rest _ => exact absurd rfl plain.unrooted
  next => rw [escape_of_free fun c member => (plain.plain c member).1]

theorem slash_of_isAnySlash {c : Char} (apart : isAnySlash c = false) : c ≠ '/' := by
  rintro rfl
  revert apart
  decide

theorem takeWhile_segment {s : Segment} {rest : List Segment} (apart : ∀ c ∈ s, c ≠ '/') :
    (s ++ join rest).takeWhile (· ≠ '/') = s := by
  induction s with
  | nil => cases rest <;> rfl
  | cons c s ih =>
    rw [List.cons_append, List.takeWhile_cons_of_pos (by simpa using apart c List.mem_cons_self),
      ih fun x member => apart x (List.mem_cons_of_mem _ member)]

theorem headDrive?_of_kept {kept segments : List Segment} (below : kept ≠ [])
    (proper : ∀ s ∈ segments, Proper isAnySlash s) : headDrive? kept segments = none := by
  induction segments generalizing kept with
  | nil => rfl
  | cons s rest ih =>
    have own := proper s List.mem_cons_self
    rw [headDrive?, own.doubleDot, own.dot, if_neg Bool.false_ne_true, if_neg Bool.false_ne_true,
      if_neg fun head => below head.1,
      ih (List.cons_ne_nil _ _) fun t among => proper t (List.mem_cons_of_mem _ among)]
    rfl

theorem withDrive_of_proper {first : Segment} {rest : List Segment}
    (proper : ∀ s ∈ first :: rest, Proper isAnySlash s) (unbarred : withColon first = first) :
    withDrive [] (first :: rest) = first :: rest := by
  have own := proper first List.mem_cons_self
  rw [withDrive, headDrive?, own.doubleDot, own.dot, if_neg Bool.false_ne_true,
    if_neg Bool.false_ne_true]
  split
  · rw [unbarred]
    rfl
  · rw [headDrive?_of_kept (List.cons_ne_nil _ _) fun t among => proper t (List.mem_cons_of_mem _ among)]
    rfl

/-- A local path reads as itself unless its first segment is taken for a drive. -/
theorem readFile_local {path : List Char} (isLocal : Local path)
    (drive : ∀ letter, isLetter letter = true →
      (path.drop 1).takeWhile (· ≠ '/') ≠ [letter, '|']) :
    readFile path = .ok (.none, path) := by
  obtain ⟨first, rest, rfl, proper, leads⟩ := isLocal
  have unbarred : withColon first = first := by
    have apart := drive
    rw [join_cons, List.drop_one, List.tail_cons, takeWhile_segment fun c member =>
      slash_of_isAnySlash ((proper first List.mem_cons_self).plain c member).2] at apart
    unfold withColon
    split
    · split
      next letter => exact absurd rfl (apart _ letter)
      next => rfl
    · rfl
  have again : filePath (withDrive [] (split isAnySlash (first ++ join rest))) =
      join (first :: rest) := by
    rw [split_join rfl fun s among => (proper s among).plain, withDrive_of_proper proper unbarred,
      filePath, walk_of_proper proper, dropEmpty_of_leads leads]
  match first with
  | [] =>
    obtain rfl : rest = [] := by
      rcases leads with single | nonempty
      · exact (List.cons.inj single).2
      · simp at nonempty
    rfl
  | c :: s =>
    have slashless := ((proper _ List.mem_cons_self).plain c List.mem_cons_self).2
    rw [join_cons, List.cons_append] at again ⊢
    simp [readFile, slashless, show isAnySlash '/' = true from rfl, again, pure, Except.pure]

theorem plain_of_rooted {path : List Char} (rooted : Rooted isSlash path) :
    (∀ c ∈ path, isControl c = false ∧ c ≠ '#' ∧ c ≠ '?') ∧ ∀ c ∈ path.getLast?, c ≠ ' ' := by
  obtain ⟨first, rest, rfl, proper⟩ := rooted
  have free {c : Char} (member : c ∈ join (first :: rest)) : reservedInPath c = false :=
    free_of_mem_join (fun s among => (proper s among).plain) member
  refine ⟨fun c member => ⟨isControl_of_free (free member), ?_, ?_⟩, fun c last => ?_⟩
  · rintro rfl
    exact absurd (free member) (by decide)
  · rintro rfl
    exact absurd (free member) (by decide)
  · rintro rfl
    exact absurd (free (List.mem_of_mem_getLast? last)) (by decide)

/-- After a scheme without a fixed meaning every path is read as it stands, unless it seems to begin
with an authority. -/
theorem parseChars_general {scheme path : List Char} (isScheme : IsScheme scheme)
    (general : SchemeKind.of scheme = .general)
    (normal : Rooted isSlash path ∧ ¬Slashed path ∨ Opaque path ∧ ∀ c ∈ path.getLast?, c ≠ ' ') :
    parseChars (scheme ++ ':' :: path) =
      .ok ⟨String.ofList scheme, none, String.ofList path, none, none⟩ := by
  rcases normal with ⟨rooted, single⟩ | ⟨plain, last⟩
  · obtain ⟨plain, last⟩ := plain_of_rooted rooted
    rw [parseChars_append isScheme plain last, general]
    simp [readHierarchy, readGeneral_rooted rooted single, Except.map, assemble]
  · rw [parseChars_append isScheme plain.plain last, general]
    simp [readHierarchy, readGeneral_opaque plain, Except.map, assemble]

theorem isScheme_file : IsScheme ['f', 'i', 'l', 'e'] :=
  ⟨⟨'f', ['i', 'l', 'e'], rfl, by decide⟩, by decide, by decide⟩

theorem parseChars_file {path : List Char} (isLocal : Local path)
    (drive : ∀ letter, isLetter letter = true →
      (path.drop 1).takeWhile (· ≠ '/') ≠ [letter, '|']) :
    parseChars (['f', 'i', 'l', 'e'] ++ ':' :: path) =
      .ok ⟨"file", some .none, String.ofList path, none, none⟩ := by
  obtain ⟨plain, last⟩ := plain_of_rooted isLocal.rooted
  rw [parseChars_append isScheme_file plain last]
  simp [readHierarchy, SchemeKind.of, readFile_local isLocal drive, bind, Except.bind, pure,
    Except.pure, Except.map, assemble]

end LinkedViews.Uri
