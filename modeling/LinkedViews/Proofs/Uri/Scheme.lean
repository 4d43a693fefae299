import LinkedViews.Proofs.Uri.Normal

/-! Schemes. Whatever follows the first colon of a text, its scheme is read off what stands before it,
in small letters. -/
namespace LinkedViews.Uri

open Text LinkedViews.Uri.Path

/-- What does not tell the capital letters from the small ones does not tell whether a character was
lowered. -/
theorem apply_lower {β : Type} {f : Char → β}
    (capitals : ∀ n < 26, f (lower (Char.ofNat (65 + n))) = f (Char.ofNat (65 + n))) (c : Char) :
    f (lower c) = f c := by
  by_cases capital : 'A' ≤ c ∧ c ≤ 'Z'
  · have low : 65 ≤ c.toNat := capital.1
    have high : c.toNat ≤ 90 := capital.2
    have same : Char.ofNat (65 + (c.toNat - 65)) = c := by
      rw [Nat.add_sub_cancel' low, Char.ofNat_toNat]
    exact same ▸ capitals (c.toNat - 65) (by omega)
  · rw [lower, if_neg capital]

theorem lower_lower (c : Char) : lower (lower c) = lower c := apply_lower (by decide) c

theorem isLetter_lower (c : Char) : isLetter (lower c) = isLetter c := apply_lower (by decide) c

theorem isSchemeChar_lower (c : Char) : isSchemeChar (lower c) = isSchemeChar c :=
  apply_lower (by decide) c

theorem isTrimmed_lower (c : Char) : isTrimmed (lower c) = isTrimmed c := apply_lower (by decide) c

theorem isIgnored_lower (c : Char) : isIgnored (lower c) = isIgnored c := apply_lower (by decide) c

theorem isColon_lower (c : Char) : (lower c == ':') = (c == ':') :=
  apply_lower (f := (· == ':')) (by decide) c

/-- A letter, and then letters, digits and three marks. -/
structure IsSchemeName (text : List Char) : Prop where
  begins : ∃ first rest, text = first :: rest ∧ isLetter first = true
  plain : text.all isSchemeChar = true

theorem isSchemeName_map_lower {text : List Char} :
    IsSchemeName (text.map lower) ↔ IsSchemeName text := by
  constructor
  · rintro ⟨⟨first, rest, eq, letter⟩, plain⟩
    obtain ⟨c, others, rfl, rfl, -⟩ := List.map_eq_cons_iff.mp eq
    refine ⟨⟨c, others, rfl, isLetter_lower c ▸ letter⟩, ?_⟩
    simpa [isSchemeChar_lower, Function.comp_def] using plain
  · rintro ⟨⟨first, rest, rfl, letter⟩, plain⟩
    refine ⟨⟨lower first, rest.map lower, rfl, (isLetter_lower first).trans letter⟩, ?_⟩
    simpa [isSchemeChar_lower, Function.comp_def] using plain

theorem IsSchemeName.isScheme {text : List Char} (name : IsSchemeName text) :
    IsScheme (text.map lower) where
  begins := (isSchemeName_map_lower.mpr name).begins
  plain := (isSchemeName_map_lower.mpr name).plain
  small := by simp [lower_lower, Function.comp_def]

/-- What the reader takes for the scheme, of a text that stands before a colon. -/
def schemePart (text : List Char) : List Char :=
  ((text.dropWhile isTrimmed).filter (! isIgnored ·)).takeWhile (! · == ':')

theorem schemePart_map_lower (text : List Char) :
    schemePart (text.map lower) = (schemePart text).map lower := by
  simp only [schemePart, List.dropWhile_map, List.filter_map, List.takeWhile_map, Function.comp_def,
    isTrimmed_lower, isIgnored_lower, isColon_lower]

theorem visible_of_isSchemeChar {c : Char} (plain : isSchemeChar c = true) :
    isTrimmed c = false ∧ isIgnored c = false := by
  have control := (isControl_of_isSchemeChar plain).1
  have space : c.toNat ≠ 32 := ne_of_toNat (n := 32) (by rintro rfl; revert plain; decide)
  simp only [isControl, Bool.or_eq_false_iff, decide_eq_false_iff_not] at control
  refine ⟨by simp only [isTrimmed, decide_eq_false_iff_not]; omega, ?_⟩
  simp only [isIgnored, Bool.or_eq_false_iff, beq_eq_false_iff_ne]
  refine ⟨⟨?_, ?_⟩, ?_⟩ <;> rintro rfl <;> revert plain <;> decide

/-- Of a scheme nothing is trimmed, ignored or cut off. -/
theorem IsSchemeName.schemePart_eq {text : List Char} (name : IsSchemeName text) :
    schemePart text = text := by
  have plain := List.all_eq_true.mp name.plain
  have start : text.dropWhile isTrimmed = text :=
    dropWhile_of_head fun c first =>
      (visible_of_isSchemeChar (plain c (List.mem_of_mem_head? first))).1
  have shown : text.filter (! isIgnored ·) = text :=
    List.filter_eq_self.mpr fun c member => by simp [(visible_of_isSchemeChar (plain c member)).2]
  rw [schemePart, start, shown, List.takeWhile_eq_self_iff]
  intro c member
  simpa using (isControl_of_isSchemeChar (plain c member)).2

theorem cleaned_append_colon (text rest : List Char) : ∃ behind,
    cleaned (text ++ ':' :: rest) =
      (text.dropWhile isTrimmed).filter (! isIgnored ·) ++ ':' :: behind := by
  have colon : isTrimmed ':' = false := by decide
  have start : (text ++ ':' :: rest).dropWhile isTrimmed = text.dropWhile isTrimmed ++ ':' :: rest := by
    rw [List.dropWhile_append]
    split
    next empty => simp [List.isEmpty_iff.mp empty, colon]
    next => rfl
  have finish (before : List Char) : dropEndWhile isTrimmed (before ++ ':' :: rest) =
      before ++ ':' :: dropEndWhile isTrimmed rest := by
    rw [dropEndWhile, List.reverse_append, List.reverse_cons, List.append_assoc, List.dropWhile_append]
    split
    next empty => simp [dropEndWhile, List.isEmpty_iff.mp empty, colon]
    next => simp [dropEndWhile]
  refine ⟨(dropEndWhile isTrimmed rest).filter (! isIgnored ·), ?_⟩
  rw [cleaned, start, finish, List.filter_append, List.filter_cons_of_pos (by decide)]

theorem cut_append_colon (text rest : List Char) : ∃ behind,
    cut ':' (text ++ ':' :: rest) = some (text.takeWhile (! · == ':'), behind) := by
  induction text with
  | nil => exact ⟨rest, rfl⟩
  | cons c text ih =>
    obtain ⟨behind, eq⟩ := ih
    by_cases colon : c = ':'
    · exact ⟨text ++ ':' :: rest, by simp [cut, colon]⟩
    · exact ⟨behind, by simp [cut, colon, eq]⟩

theorem of_readScheme? {text scheme rest : List Char} (read : readScheme? text = some (scheme, rest)) :
    ∃ written, cut ':' text = some (written, rest) ∧ IsSchemeName written ∧
      scheme = written.map lower := by
  unfold readScheme? at read
  obtain ⟨⟨written, behind⟩, found, read⟩ := Option.bind_eq_some_iff.mp read
  cases written with
  | nil => contradiction
  | cons c others =>
    simp only [Option.ite_none_right_eq_some, Option.some.injEq, Prod.mk.injEq] at read
    obtain ⟨⟨letter, plain⟩, rfl, rfl⟩ := read
    exact ⟨c :: others, found, ⟨⟨c, others, rfl, letter⟩, plain⟩, rfl⟩

theorem readScheme?_of_parse {raw : String} {u : Uri} (read : parse raw = .ok u) :
    ∃ scheme rest, readScheme? (cleaned raw.toList) = some (scheme, rest) ∧
      u.scheme.toList = scheme := by
  rw [parse, parseChars_eq] at read
  split at read
  next => contradiction
  next scheme rest found =>
    generalize readHierarchy _ _ _ = parts at read
    cases parts with
    | error e => cases read
    | ok parts =>
      obtain rfl := Except.ok.inj read
      exact ⟨scheme, rest, found, String.toList_ofList⟩

/-- The scheme of an identifier is in normal form. -/
theorem isScheme_of_parse {raw : String} {u : Uri} (read : parse raw = .ok u) :
    IsScheme u.scheme.toList := by
  obtain ⟨scheme, rest, found, eq⟩ := readScheme?_of_parse read
  obtain ⟨written, -, name, rfl⟩ := of_readScheme? found
  rw [eq]
  exact name.isScheme

/-- Whatever follows the colon, the scheme is read off the text before it. -/
theorem scheme_of_parse {raw : String} {text rest : List Char} {u : Uri} (read : parse raw = .ok u)
    (eq : raw.toList = text ++ ':' :: rest) :
    IsSchemeName (schemePart text) ∧ u.scheme.toList = (schemePart text).map lower := by
  obtain ⟨scheme, behind, found, own⟩ := readScheme?_of_parse read
  obtain ⟨written, parted, name, rfl⟩ := of_readScheme? found
  obtain ⟨tail, clean⟩ := cleaned_append_colon text rest
  obtain ⟨tail', first⟩ :=
    cut_append_colon ((text.dropWhile isTrimmed).filter (! isIgnored ·)) tail
  rw [eq, clean, first] at parted
  obtain ⟨rfl, -⟩ := Prod.mk.inj (Option.some.inj parted)
  exact ⟨name, own⟩

end LinkedViews.Uri
