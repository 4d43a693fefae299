import LinkedViews.Proofs.Json.Extent

/-! What is written is a text of the grammar: strings with their escapes, integers, values with all
that they hold, and records, whose members stand in the order in which they are written. Blanks are
written nowhere. -/
namespace LinkedViews.Json

theorem quoted_escaped (s : String) : Quoted (Utf8.encode (s.toList.flatMap escapeChar)) :=
  (spells_escaped s.toList).quoted

theorem means_escaped (s : String) : Means (Utf8.encode (s.toList.flatMap escapeChar)) s := by
  refine ⟨_, spells_escaped s.toList, ?_⟩
  simp [Utf8.decode?, Utf8.decode_encode]

theorem isWhole_digits (n : Nat) : IsWhole (Utf8.encode (Decimal.digits n)) := by
  have ascii : Utf8.encode (Decimal.digits n) = (Decimal.digits n).map (·.toNat.toUInt8) :=
    Utf8.encode_ascii (Utf8.isAscii_of_digits n)
  refine ⟨⟨?_, ?_⟩, fun zero => ?_⟩
  · rw [ascii]
    exact fun none => Decimal.digits_ne_nil n (List.map_eq_nil_iff.mp none)
  · intro b written
    rw [ascii] at written
    obtain ⟨c, member, rfl⟩ := List.mem_map.mp written
    exact (isDigit_toUInt8 (Decimal.isDigit_of_mem_digits member)).1
  · obtain ⟨c, text, eq⟩ := List.exists_cons_of_ne_nil (Decimal.digits_ne_nil n)
    obtain ⟨-, value, -⟩ :=
      isDigit_toUInt8 (Decimal.isDigit_of_mem_digits (n := n) (c := c) (by simp [eq]))
    rw [ascii, eq] at zero ⊢
    have code : c.toNat.toUInt8 = 0x30 := Option.some.inj zero
    cases text with
    | nil => simp [code]
    | cons d text =>
      exact absurd (by rw [← value, code]; rfl) (Decimal.digits_eq_cons_cons eq)

theorem isNumeral_integerText (n : Int) : IsNumeral (Utf8.encode (integerText n)) := by
  cases n with
  | ofNat n =>
    have parts := IsNumeral.parts (.inl rfl) (isWhole_digits n) .absent .absent
    rwa [List.append_nil, List.append_nil] at parts
  | negSucc n =>
    have parts := IsNumeral.parts (.inr rfl) (isWhole_digits (n + 1)) .absent .absent
    rwa [List.append_nil, List.append_nil] at parts

theorem isValue_writeText (s : String) : IsValue (Utf8.encode (writeText s)) := by
  have value := IsValue.string (quoted_escaped s)
  rwa [← encode_writeText s [], List.append_nil] at value

def Padded.written (text : List Char) : Padded := ⟨Blanks.none, Utf8.encode text, Blanks.none⟩

theorem Padded.text_written (text : List Char) : (written text).text = Utf8.encode text :=
  List.append_nil _

/-- A member with a key and the text of a value. -/
def Member.written (m : String × List Char) : Member :=
  ⟨Blanks.none, ⟨_, quoted_escaped m.1⟩, Blanks.none, .written m.2⟩

theorem Member.named_written (m : String × List Char) : (written m).Named m.1 := means_escaped m.1

theorem Member.text_written (m : String × List Char) :
    (written m).text = Utf8.encode (writeText m.1 ++ ':' :: m.2) := by
  have text := encode_member m []
  rw [List.append_nil, List.append_nil] at text
  rw [text, Member.text, written, Padded.text_written]
  rfl

theorem encode_writeItems (items : List Json) : Utf8.encode (writeItems items) =
    laterParts .array ((items.map fun v => Padded.written v.write).map Padded.text) := by
  induction items with
  | nil => rfl
  | cons v items ih =>
    have text := encode_writeItems_cons v items []
    rw [List.append_nil, List.append_nil, ih] at text
    rw [text, List.map_cons, List.map_cons, laterParts_cons, Padded.text_written]

theorem encode_array (items : List Json) : Utf8.encode (array items).write =
    enclosed .array Blanks.none ((items.map fun v => Padded.written v.write).map Padded.text) := by
  cases items with
  | nil =>
    rw [write]
    rfl
  | cons v items =>
    have text : Utf8.encode (array (v :: items)).write =
        0x5B :: (Utf8.encode v.write ++ Utf8.encode (writeItems items)) := by
      rw [write, ← Utf8.encode_append]
      rfl
    rw [text, encode_writeItems, ← Padded.text_written]
    rfl

theorem encode_laterMembers (members : List (String × List Char)) :
    Utf8.encode (laterMembers members) =
      laterParts .object ((members.map Member.written).map Member.text) := by
  induction members with
  | nil => rfl
  | cons m members ih =>
    have text := encode_laterMembers_cons m members []
    rw [List.append_nil, List.append_nil, ih] at text
    rw [text, List.map_cons, List.map_cons, laterParts_cons, Member.text_written]

theorem encode_writeRecord (members : List (String × List Char)) :
    Utf8.encode (writeRecord members) =
      enclosed .object Blanks.none ((members.map Member.written).map Member.text) := by
  cases members with
  | nil => rfl
  | cons m members =>
    have text : Utf8.encode (writeRecord (m :: members)) =
        0x7B :: (Utf8.encode (writeText m.1 ++ ':' :: m.2) ++
          Utf8.encode (laterMembers members)) := by
      rw [writeRecord_cons, ← Utf8.encode_append]
      rfl
    rw [text, encode_laterMembers, ← Member.text_written]
    rfl

/-- By induction on the value, as it is written. -/
theorem isValue_write {v : Json} {depth : Nat} (legible : Legible depth v) :
    IsValue (Utf8.encode v.write) := by
  induction legible with
  | null =>
    rw [write]
    exact .null
  | @bool _ b =>
    cases b with
    | true =>
      rw [write]
      exact .true
    | false =>
      rw [write]
      exact .false
  | integer =>
    rw [write]
    exact .numeral (isNumeral_integerText _)
  | string =>
    rw [write]
    exact isValue_writeText _
  | @array values _ _ ih =>
    rw [encode_array]
    refine .array Blanks.none fun p among => ?_
    obtain ⟨v, member, rfl⟩ := List.mem_map.mp among
    exact ih v member
  | @object members _ _ _ ih =>
    rw [write_object, encode_writeRecord]
    refine .object Blanks.none fun m among => ?_
    simp only [List.map_map, List.mem_map] at among
    obtain ⟨m, member, rfl⟩ := among
    exact ih m member

theorem encode_write_ne_null {v : Json} {depth : Nat} (legible : Legible depth v)
    (given : v ≠ null) : Utf8.encode v.write ≠ nullText := by
  obtain ⟨b, tail, eq, -, other⟩ := opens_write legible
  rw [eq]
  exact fun same => other given (List.cons.inj same).1

/-- A record that is written is an object with these members. -/
def ObjectText.ofRecord (members : List (String × List Char))
    (values : ∀ m ∈ members, IsValue (Utf8.encode m.2)) : ObjectText where
  before := Blanks.none
  blanks := Blanks.none
  members := members.map Member.written
  after := Blanks.none
  values := by
    intro m among
    obtain ⟨m, member, rfl⟩ := List.mem_map.mp among
    exact values m member

theorem ObjectText.text_ofRecord (members : List (String × List Char))
    (values : ∀ m ∈ members, IsValue (Utf8.encode m.2)) :
    (ofRecord members values).text = Utf8.encode (writeRecord members) := by
  rw [encode_writeRecord]
  exact List.append_nil _

end LinkedViews.Json
