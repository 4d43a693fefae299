import LinkedViews.Proofs.Json.Grammar
import LinkedViews.Proofs.Json.RoundTrip

/-! Blanks, strings and numbers of the grammar as they are read or passed over. A numeral is always
scanned to its end; a string is too, unless its surrogates are out of place. -/
namespace LinkedViews.Json

section Blanks

variable (blanks : Blanks) (rest : Bytes)

@[simp] theorem skipBlank_blanks : skipBlank (blanks.1 ++ rest) = skipBlank rest := by
  obtain ⟨text, blank⟩ := blanks
  exact List.dropWhile_append_of_pos blank

theorem ends_blanks {rest : Bytes} (ends : Ends rest) : Ends (blanks.1 ++ rest) := by
  obtain ⟨text, blank⟩ := blanks
  cases text with
  | nil => exact ends
  | cons b text =>
    have blank : isBlank b = true := blank b List.mem_cons_self
    refine ends_cons ?_ _
    simp only [isBlank, Bool.or_eq_true, beq_iff_eq] at blank
    rcases blank with ((rfl | rfl) | rfl) | rfl
    all_goals decide

end Blanks

/-- What stands between quotation marks spells something, or it is refused. -/
def SpellsOrRefused (text : Bytes) : Prop := (∃ bytes, Spells text bytes) ∨
  ∀ seen rest, ∃ fault, readBytes seen (text ++ 0x22 :: rest) = .error fault

/-- What comes first is in place, so what comes later decides. -/
theorem SpellsOrRefused.step {text later : Bytes} (decided : SpellsOrRefused later)
    (spells : ∀ bytes, Spells later bytes → ∃ bytes', Spells text bytes')
    (reads : ∀ seen rest, ∃ seen', readBytes seen (text ++ 0x22 :: rest) =
      readBytes seen' (later ++ 0x22 :: rest)) : SpellsOrRefused text := by
  rcases decided with ⟨bytes, spelled⟩ | refused
  · exact .inl (spells bytes spelled)
  · refine .inr fun seen rest => ?_
    obtain ⟨seen', eq⟩ := reads seen rest
    exact eq ▸ refused seen' rest

/-- Only surrogates can be out of place. A high one is looked at together with the escape behind
it, so the recursion is on the length. -/
theorem spellsOrRefused {text : Bytes} (quoted : Quoted text) : SpellsOrRefused text := by
  cases quoted with
  | nil => exact .inl ⟨[], .nil⟩
  | plain plain later =>
    exact (spellsOrRefused later).step (fun _ spells => ⟨_, .plain plain spells⟩)
      fun seen rest => ⟨_, readBytes_cons seen _ plain⟩
  | short short later =>
    exact (spellsOrRefused later).step (fun _ spells => ⟨_, .short short spells⟩)
      fun seen rest => ⟨_, readBytes_short seen _ short⟩
  | @unit _ _ _ _ n _ unit later =>
    by_cases low : isLowSurrogate n = true
    · exact .inr fun seen rest => ⟨.malformed, readBytes_low _ _ unit low⟩
    by_cases high : isHighSurrogate n = true
    · cases later with
      | nil => exact .inr fun seen rest => readBytes_high _ _ unit high (by simp)
      | plain plain later =>
        refine .inr fun seen rest => readBytes_high _ _ unit high ?_
        intro _ _ _ _ _ _ same
        exact absurd (List.cons.inj same).1 plain.2.2
      | short short later =>
        refine .inr fun seen rest => readBytes_high _ _ unit high ?_
        intro _ _ _ _ _ _ same
        exact absurd (List.cons.inj (List.cons.inj same).2).1 (ne_of_shortEscape short)
      | @unit _ _ _ _ m _ unit' later =>
        by_cases low' : isLowSurrogate m = true
        · exact (spellsOrRefused later).step
            (fun _ spells => ⟨_, .pair unit high unit' low' spells⟩)
            fun seen rest => ⟨_, readBytes_pair seen _ unit high unit' low'⟩
        · refine .inr fun seen rest => ?_
          simp only [List.cons_append]
          refine readBytes_high _ _ unit high ?_
          intro _ _ _ _ _ _ same found
          simp only [List.cons.injEq, true_and] at same
          obtain ⟨rfl, rfl, rfl, rfl, -⟩ := same
          rw [unit'] at found
          simpa [← Option.some.inj found] using low'
    · simp only [Bool.not_eq_true] at low high
      exact (spellsOrRefused later).step (fun _ spells => ⟨_, .unit unit high low spells⟩)
        fun seen rest => ⟨_, readBytes_unit seen _ unit high low⟩
termination_by text.length

section Strings

variable (rest : Bytes)

theorem readText_of_means {text : Bytes} {content : String} (means : Means text content) :
    readText (text ++ 0x22 :: rest) = .ok (content, rest) := by
  obtain ⟨bytes, spells, decoded⟩ := means
  rw [readText, readBytes_of_spells spells, readBytes_quote]
  simp [bind, Except.bind, decoded]

theorem Means.unique {text : Bytes} {a b : String} (means : Means text a) (means' : Means text b) :
    a = b := by
  have same := (readText_of_means [] means).symm.trans (readText_of_means [] means')
  exact (Prod.mk.inj (Except.ok.inj same)).1

theorem of_readText {text left : Bytes} {content : String} (quoted : Quoted text)
    (read : readText (text ++ 0x22 :: rest) = .ok (content, left)) :
    left = rest ∧ Means text content := by
  rcases spellsOrRefused quoted with ⟨bytes, spells⟩ | refused
  · rw [readText, readBytes_of_spells spells, readBytes_quote] at read
    simp only [bind, Except.bind, List.append_nil, List.reverse_reverse] at read
    split at read
    next characters decoded =>
      obtain ⟨rfl, rfl⟩ := Prod.mk.inj (Except.ok.inj read)
      exact ⟨rfl, bytes, spells, by rw [decoded, String.toList_ofList]⟩
    next => contradiction
  · obtain ⟨fault, failed⟩ := refused [] rest
    rw [readText, failed] at read
    contradiction

theorem passText_quoted {text : Bytes} (quoted : Quoted text) :
    passText (text ++ 0x22 :: rest) = .ok rest := by
  induction quoted with
  | nil =>
    rw [passText.eq_def]
    rfl
  | plain plain _ ih =>
    obtain ⟨printed, quote, backslash⟩ := plain
    rw [List.cons_append, passText.eq_def]
    simp only [if_neg quote, if_neg backslash, if_neg (UInt8.not_lt.mpr printed), ih]
  | short short _ ih =>
    rw [List.cons_append, passText.eq_def]
    simp [ne_of_shortEscape short, short, ih]
  | unit unit _ ih =>
    rw [List.cons_append, passText.eq_def]
    simp [unit, ih]

end Strings

section Numbers

variable {rest : Bytes} (passing : Bool)

theorem ne_sign_of_isDigit {b : UInt8} (digit : isDigit b = true) : b ≠ 0x2B ∧ b ≠ 0x2D := by
  constructor
  all_goals rintro rfl; exact absurd digit (by decide)

theorem map_digits_ne_nil {text : Bytes} (digits : IsDigits text) :
    text.map (fun b => b.toNat - 0x30) ≠ [] := fun none =>
  digits.nonempty (List.map_eq_nil_iff.mp none)

theorem scanWhole_of_isWhole {text : Bytes} (whole : IsWhole text) (stops : Stops rest) :
    ∃ digits, scanWhole passing (text ++ rest) = .ok (digits, rest) := by
  rw [scanWhole, takeDigits_append whole.digits stops]
  split
  next none =>
    exact absurd (Prod.mk.inj none).1 (map_digits_ne_nil whole.toIsDigits)
  next long =>
    obtain ⟨b, later, rfl, zero, more⟩ := List.map_eq_cons_iff.mp (Prod.mk.inj long).1
    obtain ⟨c, last, rfl, -, -⟩ := List.map_eq_cons_iff.mp more
    have digit := whole.digits b List.mem_cons_self
    simp only [isDigit, Bool.and_eq_true, decide_eq_true_eq, UInt8.le_iff_toNat_le] at digit
    have first : b = 0x30 := UInt8.toNat_inj.mp (by simp at digit ⊢; omega)
    have alone := whole.alone (by rw [first]; rfl)
    simp at alone
  next _ _ eq =>
    obtain ⟨rfl, rfl⟩ := Prod.mk.inj eq
    exact ⟨_, rfl⟩

theorem scanFraction_of_isFraction {text : Bytes} (fraction : IsFraction text) (stops : Stops rest)
    (point : ∀ b ∈ rest.head?, b ≠ 0x2E) :
    ∃ digits, scanFraction passing (text ++ rest) = .ok (digits, rest) := by
  cases fraction with
  | absent =>
    refine ⟨none, ?_⟩
    rw [List.nil_append, scanFraction.eq_def]
    split
    next rest => exact absurd rfl (point 0x2E rfl)
    next => rfl
  | point digits =>
    rw [List.cons_append, scanFraction, takeDigits_append digits.digits stops]
    split
    next none => exact absurd (Prod.mk.inj none).1 (map_digits_ne_nil digits)
    next _ _ eq =>
      obtain ⟨rfl, rfl⟩ := Prod.mk.inj eq
      exact ⟨_, rfl⟩

theorem scanExponent_of_isExponent {text : Bytes} (exponent : IsExponent text) (ends : Ends rest) :
    ∃ digits, scanExponent passing (text ++ rest) = .ok (digits, rest) := by
  cases exponent with
  | absent => exact ⟨none, scanExponent_ends ends passing⟩
  | @letter e sign text letter signed digits =>
    have taken := takeDigits_append digits.digits ends.stops
    obtain ⟨b, later, rfl⟩ := List.exists_cons_of_ne_nil digits.nonempty
    rw [List.map_cons, List.cons_append] at taken
    have unsigned := ne_sign_of_isDigit (digits.digits b List.mem_cons_self)
    rcases signed with rfl | rfl | rfl
    · simp [scanExponent, letter, unsigned, taken]
    · simp [scanExponent, letter, taken]
    · simp [scanExponent, letter, taken]

/-- What comes behind the fraction goes on neither with its digits nor with another one. -/
theorem head_exponent {text : Bytes} (exponent : IsExponent text) (ends : Ends rest) :
    ∀ b ∈ (text ++ rest).head?, isDigit b = false ∧ b ≠ 0x2E := by
  intro b first
  cases exponent with
  | absent => exact ⟨(ends b first).1, (ends b first).2.1⟩
  | letter letter =>
    obtain rfl := Option.some.inj first
    rcases letter with rfl | rfl
    all_goals decide

theorem stops_fraction {text later : Bytes} (fraction : IsFraction text) (stops : Stops later) :
    Stops (text ++ later) := by
  intro b first
  cases fraction with
  | absent => exact stops b first
  | point =>
    obtain rfl := Option.some.inj first
    decide

theorem scanNumeral_of_isNumeral {text : Bytes} (numeral : IsNumeral text) (ends : Ends rest) :
    ∃ read, scanNumeral passing (text ++ rest) = .ok (read, rest) := by
  obtain @⟨sign, digits, fractional, power, signed, whole, fraction, exponent⟩ := numeral
  have behind := head_exponent exponent ends
  have stops : Stops (power ++ rest) := fun b first => (behind b first).1
  obtain ⟨units, scanned⟩ := scanWhole_of_isWhole passing whole (stops_fraction fraction stops)
  obtain ⟨places, scanned'⟩ := scanFraction_of_isFraction passing fraction stops
    fun b first => (behind b first).2
  obtain ⟨scale, scanned''⟩ := scanExponent_of_isExponent passing exponent ends
  simp only [List.append_assoc]
  rcases signed with rfl | rfl
  · obtain ⟨b, later, rfl⟩ := List.exists_cons_of_ne_nil whole.nonempty
    have unsigned := (ne_sign_of_isDigit (whole.digits b List.mem_cons_self)).2
    simp only [List.cons_append, List.nil_append] at scanned ⊢
    simp [scanNumeral, unsigned, scanned, scanned', scanned'', bind, Except.bind, pure, Except.pure]
  · simp [scanNumeral, scanned, scanned', scanned'', bind, Except.bind, pure, Except.pure]

theorem IsNumeral.front {text : Bytes} (numeral : IsNumeral text) :
    ∃ b tail, text = b :: tail ∧ (b = 0x2D ∨ isDigit b = true) := by
  obtain @⟨sign, digits, fractional, power, signed, whole, fraction, exponent⟩ := numeral
  obtain ⟨b, later, rfl⟩ := List.exists_cons_of_ne_nil whole.nonempty
  rcases signed with rfl | rfl
  · exact ⟨b, _, rfl, .inr (whole.digits b List.mem_cons_self)⟩
  · exact ⟨0x2D, _, rfl, .inl rfl⟩

end Numbers

end LinkedViews.Json
