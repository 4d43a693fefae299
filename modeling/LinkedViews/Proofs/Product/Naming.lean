import LinkedViews.Product.Naming
import LinkedViews.Proofs.Uri.Normal

/-! Naming products and finding the way back. Names and languages that are plain words hold no dash
and no dot, so the parts of an identifier can be told apart, and a path that was read before is read
again as it stands. -/
namespace LinkedViews

open Uri Text

def isWordChar (c : Char) : Bool := Path.isLetter c || Decimal.isDigit c || c == '_'

/-- Letters, digits and underscores, or nothing. -/
def IsWord (s : String) : Prop := ∀ c ∈ s.toList, isWordChar c = true

instance (s : String) : Decidable (IsWord s) := List.decidableBAll _ s.toList

/-- The marks that have a meaning somewhere in an identifier, other than slashes. -/
def nameMarks : List Char := ['-', '.', ':', '@', '[', ']']

theorem plain_of_isWordChar {c : Char} (word : isWordChar c = true) :
    reservedInPath c = false ∧ isAnySlash c = false ∧ c ∉ nameMarks := by
  have ascii : c.toNat < 128 := by
    simp only [isWordChar, Path.isLetter, Decimal.isDigit, Bool.or_eq_true, Bool.and_eq_true,
      decide_eq_true_eq, beq_iff_eq, le_iff_toNat, Char.reduceToNat] at word
    rcases word with ((letter | letter) | digit) | rfl
    · omega
    · omega
    · omega
    · decide
  have all : ∀ n < 128, isWordChar (Char.ofNat n) = true → reservedInPath (Char.ofNat n) = false ∧
      isAnySlash (Char.ofNat n) = false ∧ Char.ofNat n ∉ nameMarks := by
    decide
  simpa using all c.toNat ascii (by simpa using word)

theorem IsWord.not_mem {s : String} {c : Char} (word : IsWord s) (mark : c ∈ nameMarks) :
    c ∉ s.toList :=
  fun member => (plain_of_isWordChar (word c member)).2.2 mark

/-- What an identifier has beside the path of its source. -/
def ending (name language : String) : List Char := '-' :: (name.toList ++ '.' :: language.toList)

section Ending

variable {name language name' language' : String} (word : IsWord name) (words : IsWord language)
  (word' : IsWord name') (words' : IsWord language')

include word words

/-- The dot is the only mark after the dash. -/
theorem mark_not_mem {c : Char} (mark : c ∈ nameMarks) (other : c ≠ '.') :
    c ∉ name.toList ++ '.' :: language.toList := by
  simp [word.not_mem mark, words.not_mem mark, other]

theorem plain_ending : Path.Plain isAnySlash (ending name language) := by
  intro c member
  simp only [ending, List.mem_cons, List.mem_append] at member
  rcases member with rfl | inName | rfl | inLanguage
  · decide
  · exact ⟨(plain_of_isWordChar (word c inName)).1, (plain_of_isWordChar (word c inName)).2.1⟩
  · decide
  · exact ⟨(plain_of_isWordChar (words c inLanguage)).1,
      (plain_of_isWordChar (words c inLanguage)).2.1⟩

theorem beforeLast_ending (path : List Char) :
    beforeLast '-' (path ++ ending name language) = some path :=
  beforeLast_append_cons (mark_not_mem word words (by decide) (by decide)) path

include word' words'

/-- Path, name and language are found again in what is made of them. -/
theorem append_ending_inj {path path' : List Char}
    (eq : path ++ ending name language = path' ++ ending name' language') :
    path = path' ∧ name = name' ∧ language = language' := by
  obtain ⟨same, tails⟩ := append_cons_inj (mark_not_mem word words (by decide) (by decide))
    (mark_not_mem word' words' (by decide) (by decide)) eq
  obtain ⟨names, languages⟩ := append_cons_inj (words.not_mem (by decide))
    (words'.not_mem (by decide)) tails
  exact ⟨same, String.toList_inj.mp names, String.toList_inj.mp languages⟩

end Ending

theorem Uri.parse_of_read {raw : String} {u : Uri} (read : Uri.read raw = .ok u) :
    Uri.parse raw = .ok u := by
  unfold Uri.read at read
  split at read
  next found =>
    obtain rfl := Except.ok.inj read
    exact found
  next => contradiction

theorem slashed_append_ending {path : List Char} {name language : String} :
    Slashed (path ++ ending name language) ↔ Slashed path := by
  match path with
  | [] => simp [Slashed, ending]
  | [c] => simp [Slashed, ending]
  | a :: b :: rest => simp [Slashed]

/-- An ending keeps to the last segment. -/
theorem rooted_append_ending {path : List Char} {name language : String} (rooted : Rooted isSlash path)
    (plain : Path.Plain isAnySlash (ending name language)) :
    Rooted isSlash (path ++ ending name language) := by
  obtain ⟨first, rest, rfl, proper⟩ := rooted
  obtain ⟨front, last, eq⟩ := List.eq_nil_or_concat (first :: rest) |>.resolve_left (by simp)
  rw [eq] at proper ⊢
  rw [List.concat_eq_append, Path.join_concat]
  refine rooted_of_proper (by simp) fun s among => ?_
  rcases List.mem_append.mp among with inFront | atEnd
  · exact proper s (by simp [inFront])
  · obtain rfl := List.mem_singleton.mp atEnd
    refine .of_dash (fun c member => ?_) (by simp [ending])
    rcases List.mem_append.mp member with old | new
    · exact (proper last (by simp)).plain c old
    · have := plain c new
      simp only [isAnySlash, Bool.or_eq_false_iff] at this
      exact ⟨this.1, this.2.1⟩

theorem opaque_append_ending {path : List Char} {name language : String} (opaquePath : Opaque path)
    (plain : Path.Plain isAnySlash (ending name language)) :
    Opaque (path ++ ending name language) where
  unrooted := by
    cases path with
    | nil => simp [ending]
    | cons c rest => simpa using opaquePath.unrooted
  plain c member := by
    rcases List.mem_append.mp member with old | new
    · exact opaquePath.plain c old
    · have free := (plain c new).1
      refine ⟨isControl_of_free free, ?_, ?_⟩ <;> rintro rfl <;> revert free <;> decide

namespace Naming

/-- The identifier whose text is scheme, path and ending. -/
def plainTarget (naming : Naming) (path : List Char) (name language : String) : Uri :=
  ⟨naming.scheme, none, String.ofList (path ++ ending name language), none, none⟩

theorem encode_eq (naming : Naming) (source : Uri) (name language : String) :
    naming.encode source name language = Uri.read (String.ofList
      (naming.scheme.toList ++ ':' :: (source.path.toList ++ ending name language))) := by
  rw [encode, ending]
  congr 1
  simp [← String.toList_inj]

/-- Where no authority seems to follow the scheme, encoding puts scheme, path and ending together. -/
theorem encode_of_unslashed {naming : Naming} {source : Uri} {name language : String}
    (isScheme : IsScheme naming.scheme.toList) (general : SchemeKind.of naming.scheme.toList = .general)
    (path : Rooted isSlash source.path.toList ∨ Opaque source.path.toList)
    (single : ¬Slashed source.path.toList) (word : IsWord name) (words : IsWord language) :
    naming.encode source name language =
      .ok (naming.plainTarget source.path.toList name language) := by
  have plain := plain_ending word words
  have visible : ∀ c ∈ (source.path.toList ++ ending name language).getLast?, c ≠ ' ' := by
    rintro c atLast rfl
    rw [List.getLast?_append, ending, List.getLast?_cons, Option.some_or] at atLast
    have among : ' ' ∈ ending name language :=
      List.mem_of_mem_getLast? (by rw [ending, List.getLast?_cons]; exact atLast)
    exact absurd (plain ' ' among).1 (by decide)
  rw [encode_eq, Uri.read, parse, String.toList_ofList, parseChars_general isScheme general]
  · simp [plainTarget]
  · rcases path with rooted | opaquePath
    · exact .inl ⟨rooted_append_ending rooted plain, fun slashed =>
        single (slashed_append_ending.mp slashed)⟩
    · exact .inr ⟨opaque_append_ending opaquePath plain, visible⟩

/-- Under a scheme without a fixed meaning, hierarchy and path are read off the source's path and the
ending as they stand. -/
theorem assembled_of_encode {naming : Naming} {source target : Uri} {name language : String}
    (isScheme : IsScheme naming.scheme.toList) (general : SchemeKind.of naming.scheme.toList = .general)
    (rooted : Rooted isSlash source.path.toList) (word : IsWord name) (words : IsWord language)
    (encoded : naming.encode source name language = .ok target) : ∃ authority path,
      readGeneral false (source.path.toList ++ ending name language) = .ok (authority, path) ∧
      target = assemble naming.scheme.toList ⟨none, none⟩ authority path := by
  obtain ⟨free, last⟩ := plain_of_rooted (rooted_append_ending rooted (plain_ending word words))
  rw [encode_eq] at encoded
  have parsed := parse_of_read encoded
  rw [parse, String.toList_ofList, parseChars_append isScheme free last, general, readHierarchy]
    at parsed
  cases read : readGeneral false (source.path.toList ++ ending name language) with
  | error e => simp [read, Except.map] at parsed
  | ok found =>
    rw [read] at parsed
    exact ⟨found.1, found.2, rfl, (Except.ok.inj parsed).symm⟩

end Naming

/-- The text between the first two slashes of a path. -/
def Uri.firstSegment (u : Uri) : List Char := (u.path.toList.drop 1).takeWhile (· ≠ '/')

/-- A document on this machine, as it is read from a text. A first segment of a letter and a bar is
left out: it stands for a drive wherever one may stand, and is then written with a colon. -/
structure IsLocalSource (s : Uri) : Prop where
  read : ∃ raw, Uri.read raw = .ok s
  scheme : s.scheme = "file"
  unhosted : s.host? = none
  query : s.query = none
  fragment : s.fragment = none
  drive : ∀ letter, Path.isLetter letter = true → s.firstSegment ≠ [letter, '|']

theorem IsLocalSource.local_path {s : Uri} (source : IsLocalSource s) :
    Local s.path.toList ∧ s = ⟨"file", some .none, s.path, none, none⟩ := by
  obtain ⟨raw, read⟩ := source.read
  exact local_of_parse (Uri.parse_of_read read) source.scheme source.unhosted source.query
    source.fragment

theorem not_slashed_of_local {path : List Char} (isLocal : Local path) : ¬Slashed path := by
  obtain ⟨first, rest, rfl, proper, leads⟩ := isLocal
  rintro ⟨behind, eq⟩
  rw [Path.join_cons] at eq
  match first with
  | [] =>
    rcases leads with single | nonempty
    · obtain rfl := (List.cons.inj single).2
      simp [Path.join] at eq
    · simp at nonempty
  | c :: s =>
    have apart := ((proper _ List.mem_cons_self).plain c List.mem_cons_self).2
    obtain ⟨rfl, -⟩ := List.cons.inj (List.cons.inj eq).2
    revert apart
    decide

namespace Naming

theorem isScheme_default : IsScheme default.scheme.toList :=
  ⟨⟨'m', ['o', 'n', 't', 'o'], rfl, rfl⟩, rfl, rfl⟩

theorem encode_local {s : Uri} {name language : String} (source : IsLocalSource s)
    (word : IsWord name) (words : IsWord language) :
    default.encode s name language = .ok (default.plainTarget s.path.toList name language) :=
  encode_of_unslashed isScheme_default rfl (.inl source.local_path.1.rooted)
    (not_slashed_of_local source.local_path.1) word words

theorem decode_plainTarget {s : Uri} {name language : String} (source : IsLocalSource s)
    (word : IsWord name) (words : IsWord language) :
    default.decode (default.plainTarget s.path.toList name language) = .ok s := by
  obtain ⟨isLocal, shape⟩ := source.local_path
  have cut : beforeLast '-' (default.plainTarget s.path.toList name language).path.toList =
      some s.path.toList := by
    rw [plainTarget, String.toList_ofList, beforeLast_ending word words]
  have text : (default.sourceScheme ++ ":" ++ String.ofList s.path.toList).toList =
      ['f', 'i', 'l', 'e'] ++ ':' :: s.path.toList := by
    simp [default]
  simp only [decode, cut, Uri.read, parse, text, parseChars_file isLocal source.drive]
  rw [String.ofList_toList, ← shape]

/-- Naming products of local documents loses nothing of the document, and never gives two of them
the same identifier. -/
theorem decode_encode_local {s s' : Uri} {name language name' language' : String}
    (source : IsLocalSource s) (word : IsWord name) (words : IsWord language)
    (source' : IsLocalSource s') (word' : IsWord name') (words' : IsWord language') :
    (∃ target, default.encode s name language = .ok target ∧ default.decode target = .ok s) ∧
    (default.encode s name language = default.encode s' name' language' →
      s = s' ∧ name = name' ∧ language = language') := by
  refine ⟨⟨_, encode_local source word words, decode_plainTarget source word words⟩, fun same => ?_⟩
  rw [encode_local source word words, encode_local source' word' words'] at same
  have paths := congrArg (fun u : Uri => u.path.toList) (Except.ok.inj same)
  simp only [plainTarget, String.toList_ofList] at paths
  obtain ⟨path, rfl, rfl⟩ := append_ending_inj word words word' words' paths
  refine ⟨?_, rfl, rfl⟩
  rw [source.local_path.2, source'.local_path.2, String.toList_inj.mp path]

/-- A document on a drive, with a dash and an escape in its path. -/
def onDrive : Uri := ⟨"file", some .none, "/c:/dir-with-dash/a%20b.mj", none, none⟩

theorem isLocalSource_onDrive : IsLocalSource onDrive where
  read := ⟨"file:c|/dir-with-dash/./a b.mj", by cbv⟩
  scheme := rfl
  unhosted := rfl
  query := rfl
  fragment := rfl
  drive letter _ := by simp [onDrive, Uri.firstSegment]

theorem isLocalSource_root : IsLocalSource .root where
  read := ⟨"file:", by cbv⟩
  scheme := rfl
  unhosted := rfl
  query := rfl
  fragment := rfl
  drive letter _ := by simp [Uri.root, Uri.firstSegment]

theorem decode_encode_onDrive : IsLocalSource onDrive ∧ IsLocalSource .root ∧
    IsWord "target" ∧ IsWord "js" ∧ IsWord "" ∧
    (∃ target, default.encode onDrive "target" "js" = .ok target ∧
      default.decode target = .ok onDrive) ∧
    default.encode onDrive "target" "js" ≠ default.encode .root "" "" := by
  have both := decode_encode_local isLocalSource_onDrive (by decide : IsWord "target")
    (by decide : IsWord "js") isLocalSource_root (by decide : IsWord "") (by decide : IsWord "")
  exact ⟨isLocalSource_onDrive, isLocalSource_root, by decide, by decide, by decide, both.1,
    fun same => absurd (both.2 same).2.1 (by decide)⟩

end Naming

end LinkedViews
