import LinkedViews.Json.Read
import LinkedViews.Proofs.Json.Number
import LinkedViews.Proofs.Json.Text

/-! A value is read from the text that is written of it, whatever stands behind it, and so is a
record with its members in the order in which they are written. Floating point numbers are left
out. -/
namespace LinkedViews.Json

variable {α σ : Type}

/-- The reader takes the value from its text, wherever the text ends. -/
def ReadsTo (read : Reader α) (text : List Char) (value : α) : Prop :=
  ∀ rest, Ends rest → read (Utf8.encode text ++ rest) = .ok (value, rest)

theorem ends_cons {b : UInt8} (other : isDigit b = false ∧ b ≠ 0x2E ∧ b ≠ 0x65 ∧ b ≠ 0x45)
    (rest : Bytes) : Ends (b :: rest) := by
  intro c first
  obtain rfl := Option.some.inj first
  exact other

theorem skipBlank_cons {b : UInt8} (shown : isBlank b = false) (rest : Bytes) :
    skipBlank (b :: rest) = b :: rest := by
  simp [skipBlank, shown]

/-- What may begin a value; no blank does, nor the end of an array. -/
def Opens (b : UInt8) : Prop := isBlank b = false ∧ b ≠ 0x5D

instance (b : UInt8) : Decidable (Opens b) := inferInstanceAs (Decidable (_ ∧ _))

theorem nextItem_close (first : Bool) (rest : Bytes) :
    nextItem first (0x5D :: rest) = .ok (.close rest) := by
  simp [nextItem, skipBlank, isBlank]

theorem nextItem_first {b : UInt8} (opens : Opens b) (rest : Bytes) :
    nextItem true (b :: rest) = .ok (.item (b :: rest)) := by
  simp [nextItem, skipBlank_cons opens.1, opens.2]

theorem nextItem_comma {b : UInt8} (opens : Opens b) (rest : Bytes) :
    nextItem false (0x2C :: b :: rest) = .ok (.item (b :: rest)) := by
  have comma : skipBlank (0x2C :: b :: rest) = 0x2C :: b :: rest := skipBlank_cons (by decide) _
  simp [nextItem, comma, skipBlank_cons opens.1, opens.2]

theorem itemsFrom_next {item : Reader α} {first : Bool} {input rest after : Bytes} {value : α}
    (next : nextItem first input = .ok (.item rest)) (read : item rest = .ok (value, after))
    (c : UInt8) (bound : Bytes) (seen : List α) :
    itemsFrom item (c :: bound) first seen input =
      itemsFrom item bound false (value :: seen) after := by
  rw [itemsFrom]
  simp only [next, read, bind, Except.bind]

theorem itemsFrom_close {item : Reader α} (c : UInt8) (bound : Bytes) (first : Bool)
    (seen : List α) (rest : Bytes) :
    itemsFrom item (c :: bound) first seen (0x5D :: rest) = .ok (seen.reverse, rest) := by
  rw [itemsFrom]
  simp only [nextItem_close, bind, Except.bind, pure, Except.pure]

/-- What is written of a value begins as a value does, and is read as this item. -/
structure ItemReads (item : Reader α) (v : Json) (x : α) : Prop where
  opens : ∃ b tail, Utf8.encode v.write = b :: tail ∧ Opens b
  reads : ReadsTo item v.write x

theorem encode_writeItems_cons (v : Json) (items : List Json) (rest : Bytes) :
    Utf8.encode (writeItems (v :: items)) ++ rest =
      0x2C :: (Utf8.encode v.write ++ (Utf8.encode (writeItems items) ++ rest)) := by
  simp [writeItems, Utf8.encodeChar]

theorem encode_writeItems_nil (rest : Bytes) :
    Utf8.encode (writeItems []) ++ rest = 0x5D :: rest := by
  simp [writeItems, Utf8.encodeChar]

theorem ends_writeItems (items : List Json) (rest : Bytes) :
    Ends (Utf8.encode (writeItems items) ++ rest) := by
  cases items with
  | nil => exact encode_writeItems_nil rest ▸ ends_cons (by decide) _
  | cons v items => exact encode_writeItems_cons v items rest ▸ ends_cons (by decide) _

section Array

variable {item : Reader α} {form : α → Json} {items : List α}
  (reads : ∀ x ∈ items, ItemReads item (form x) x)

include reads

/-- The items that are left. Each takes a byte at least, so the bound lasts. -/
theorem itemsFrom_writeItems (bound rest : Bytes) (seen : List α)
    (enough : (Utf8.encode (writeItems (items.map form)) ++ rest).length ≤ bound.length) :
    itemsFrom item bound false seen (Utf8.encode (writeItems (items.map form)) ++ rest) =
      .ok (seen.reverse ++ items, rest) := by
  induction items generalizing bound seen with
  | nil =>
    rw [List.map_nil, encode_writeItems_nil] at enough ⊢
    obtain ⟨c, bound, rfl⟩ := List.exists_cons_of_length_pos (Nat.zero_lt_of_lt enough)
    rw [itemsFrom_close, List.append_nil]
  | cons x items ih =>
    rw [List.map_cons, encode_writeItems_cons] at enough ⊢
    obtain ⟨c, bound, rfl⟩ := List.exists_cons_of_length_pos (Nat.zero_lt_of_lt enough)
    obtain ⟨⟨b, tail, eq, opens⟩, reads_x⟩ := reads x List.mem_cons_self
    have read := reads_x _ (ends_writeItems (items.map form) rest)
    have later := ih (fun y member => reads y (List.mem_cons_of_mem x member)) bound
      (x :: seen) (by
        simp only [List.length_cons, List.length_append] at enough ⊢
        omega)
    rw [eq, List.cons_append] at read ⊢
    rw [itemsFrom_next (nextItem_comma opens _) read, later]
    simp

/-- An array, behind its opening bracket. -/
theorem readItems_write (rest : Bytes) :
    ∃ tail, Utf8.encode (array (items.map form)).write ++ rest = 0x5B :: tail ∧
      readItems item tail = .ok (items, rest) := by
  cases items with
  | nil =>
    exact ⟨0x5D :: rest, by simp [write, Utf8.encodeChar], itemsFrom_close _ _ _ _ _⟩
  | cons x items =>
    refine ⟨Utf8.encode (form x).write ++
      (Utf8.encode (writeItems (items.map form)) ++ rest), ?_, ?_⟩
    · simp [write, Utf8.encodeChar]
    · obtain ⟨⟨b, tail, eq, opens⟩, reads_x⟩ := reads x List.mem_cons_self
      have read := reads_x _ (ends_writeItems (items.map form) rest)
      have later := itemsFrom_writeItems (fun y member => reads y (List.mem_cons_of_mem x member))
        (Utf8.encode (form x).write ++ (Utf8.encode (writeItems (items.map form)) ++ rest)) rest [x]
        (by simp only [List.length_append]; omega)
      rw [eq, List.cons_append] at read later ⊢
      rw [readItems, itemsFrom_next (nextItem_first opens _) read, later]
      rfl

end Array

theorem nextMember_close (first : Bool) (rest : Bytes) :
    nextMember first (0x7D :: rest) = .ok (.close rest) := by
  simp [nextMember, skipBlank, isBlank]

theorem nextMember_first (rest : Bytes) :
    nextMember true (0x22 :: rest) = .ok (.item rest) := by
  simp [nextMember, skipBlank, isBlank]

theorem nextMember_comma (rest : Bytes) :
    nextMember false (0x2C :: 0x22 :: rest) = .ok (.item rest) := by
  simp [nextMember, skipBlank, isBlank]

theorem expectColon_cons (rest : Bytes) : expectColon (0x3A :: rest) = .ok rest := by
  simp [expectColon, skipBlank, isBlank]

theorem membersFrom_next {member : σ → String → Reader σ} {state state' : σ} {key : String}
    {first : Bool} {input rest behind after : Bytes}
    (next : nextMember first input = .ok (.item rest)) (name : readText rest = .ok (key, behind))
    (read : member state key behind = .ok (state', after)) (c : UInt8) (bound : Bytes) :
    membersFrom member (c :: bound) first state input =
      membersFrom member bound false state' after := by
  rw [membersFrom]
  simp only [next, name, read, bind, Except.bind]

theorem membersFrom_close {member : σ → String → Reader σ} (c : UInt8) (bound : Bytes)
    (first : Bool) (state : σ) (rest : Bytes) :
    membersFrom member (c :: bound) first state (0x7D :: rest) = .ok (state, rest) := by
  rw [membersFrom]
  simp only [nextMember_close, bind, Except.bind, pure, Except.pure]

/-- Reading the members one by one leads from one state to another. -/
def MembersRead (member : σ → String → Reader σ) : σ → List (String × List Char) → σ → Prop
  | state, [], last => last = state
  | state, m :: members, last => ∃ next,
      ReadsTo (fun input => member state m.1 (0x3A :: input)) m.2 next ∧
      MembersRead member next members last

/-- The members after the first, and the closing brace. -/
def laterMembers (members : List (String × List Char)) : List Char :=
  (members.flatMap fun m => ',' :: (writeText m.1 ++ ':' :: m.2)) ++ ['\x7d']

theorem encode_member (m : String × List Char) (rest : Bytes) :
    Utf8.encode (writeText m.1 ++ ':' :: m.2) ++ rest =
      0x22 :: (Utf8.encode (m.1.toList.flatMap escapeChar) ++
        0x22 :: 0x3A :: (Utf8.encode m.2 ++ rest)) := by
  rw [Utf8.encode_append, List.append_assoc, encode_writeText]
  simp [Utf8.encodeChar]

theorem encode_laterMembers_nil (rest : Bytes) :
    Utf8.encode (laterMembers []) ++ rest = 0x7D :: rest := by
  simp [laterMembers, Utf8.encodeChar]

theorem encode_laterMembers_cons (m : String × List Char) (members : List (String × List Char))
    (rest : Bytes) : Utf8.encode (laterMembers (m :: members)) ++ rest =
      0x2C :: (Utf8.encode (writeText m.1 ++ ':' :: m.2) ++
        (Utf8.encode (laterMembers members) ++ rest)) := by
  simp [laterMembers, Utf8.encodeChar]

theorem ends_laterMembers (members : List (String × List Char)) (rest : Bytes) :
    Ends (Utf8.encode (laterMembers members) ++ rest) := by
  cases members with
  | nil => exact encode_laterMembers_nil rest ▸ ends_cons (by decide) _
  | cons m members => exact encode_laterMembers_cons m members rest ▸ ends_cons (by decide) _

theorem membersFrom_laterMembers {member : σ → String → Reader σ} {state last : σ}
    {members : List (String × List Char)} (reads : MembersRead member state members last)
    (bound rest : Bytes)
    (enough : (Utf8.encode (laterMembers members) ++ rest).length ≤ bound.length) :
    membersFrom member bound false state (Utf8.encode (laterMembers members) ++ rest) =
      .ok (last, rest) := by
  induction members generalizing bound state with
  | nil =>
    obtain rfl := reads
    rw [encode_laterMembers_nil] at enough ⊢
    obtain ⟨c, bound, rfl⟩ := List.exists_cons_of_length_pos (Nat.zero_lt_of_lt enough)
    exact membersFrom_close _ _ _ _ _
  | cons m members ih =>
    obtain ⟨next, first, others⟩ := reads
    rw [encode_laterMembers_cons] at enough ⊢
    obtain ⟨c, bound, rfl⟩ := List.exists_cons_of_length_pos (Nat.zero_lt_of_lt enough)
    have read := first _ (ends_laterMembers members rest)
    have later := ih others bound (by
      simp only [List.length_cons, List.length_append] at enough ⊢
      omega)
    rw [encode_member, membersFrom_next (nextMember_comma _) (readText_escaped m.1 _) read, later]

theorem writeRecord_cons (m : String × List Char) (members : List (String × List Char)) :
    writeRecord (m :: members) =
      '\x7b' :: (writeText m.1 ++ ':' :: m.2 ++ laterMembers members) := by
  induction members generalizing m with
  | nil => simp [writeRecord, laterMembers]
  | cons m' members ih =>
    have later := ih m'
    simp only [writeRecord, laterMembers, List.map_cons, List.flatMap_cons, List.cons_append,
      List.cons.injEq, true_and] at later ⊢
    rw [List.intercalate_cons_cons]
    simp [later]

/-- A record, behind its opening brace. -/
theorem readMembers_writeRecord {member : σ → String → Reader σ} {state last : σ}
    {members : List (String × List Char)} (reads : MembersRead member state members last)
    (rest : Bytes) : ∃ tail, Utf8.encode (writeRecord members) ++ rest = 0x7B :: tail ∧
      readMembers member state tail = .ok (last, rest) := by
  cases members with
  | nil =>
    obtain rfl := reads
    exact ⟨0x7D :: rest, by simp [writeRecord, Utf8.encodeChar], membersFrom_close _ _ _ _ _⟩
  | cons m members =>
    obtain ⟨next, first, others⟩ := reads
    refine ⟨Utf8.encode (writeText m.1 ++ ':' :: m.2) ++
      (Utf8.encode (laterMembers members) ++ rest), ?_, ?_⟩
    · simp [writeRecord_cons, Utf8.encodeChar]
    · have read := first _ (ends_laterMembers members rest)
      have later := membersFrom_laterMembers others
        (Utf8.encode (writeText m.1 ++ ':' :: m.2) ++
          (Utf8.encode (laterMembers members) ++ rest)) rest (by simp only [List.length_append]; omega)
      rw [encode_member] at later ⊢
      rw [readMembers, membersFrom_next (nextMember_first _) (readText_escaped m.1 _) read, later]

/-- A value that is written can be read with so many brackets left to open: integers fit 64 bits,
and the keys of an object ascend. -/
inductive Legible : Nat → Json → Prop
  | null : Legible depth .null
  | bool : Legible depth (.bool b)
  | integer (word : FitsWord n) : Legible depth (.integer n)
  | string : Legible depth (.string s)
  | array (items : ∀ v ∈ values, Legible depth v) : Legible (depth + 1) (.array values)
  | object (ascending : members.Pairwise fun m m' => m.1 < m'.1)
      (values : ∀ m ∈ members, Legible depth m.2) : Legible (depth + 1) (.object members)

theorem opens_of_isDigit {b : UInt8} (digit : isDigit b = true) : Opens b := by
  have digit : 0x30 ≤ b ∧ b ≤ 0x39 := by simpa [isDigit] using digit
  simp only [Opens, isBlank]
  grind

/-- What begins a number begins no other value. -/
theorem opens_number {b : UInt8} (front : b = 0x2D ∨ isDigit b = true) :
    Opens b ∧ b ≠ 0x6E ∧ b ≠ 0x74 ∧ b ≠ 0x66 ∧ b ≠ 0x22 := by
  rcases front with rfl | digit
  · decide
  · refine ⟨opens_of_isDigit digit, ?_⟩
    refine ⟨?_, ?_, ?_, ?_⟩
    all_goals rintro rfl; exact absurd digit (by decide)

theorem integerText_head (n : Int) :
    ∃ b tail, Utf8.encode (integerText n) = b :: tail ∧ (b = 0x2D ∨ isDigit b = true) := by
  cases n with
  | ofNat n =>
    obtain ⟨b, tail, eq, digit⟩ := encode_digits_eq_cons n
    exact ⟨b, tail, eq, .inr digit⟩
  | negSucc n => exact ⟨0x2D, Utf8.encode (Decimal.digits (n + 1)), rfl, .inl rfl⟩

/-- Only `null` begins as `null` does. -/
theorem opens_write {depth : Nat} {v : Json} (legible : Legible depth v) :
    ∃ b tail, Utf8.encode v.write = b :: tail ∧ Opens b ∧ (v ≠ null → b ≠ 0x6E) := by
  cases legible with
  | null => exact ⟨0x6E, _, by rw [write]; rfl, by decide, fun other => absurd rfl other⟩
  | @bool _ b =>
    cases b with
    | true => exact ⟨0x74, _, by rw [write]; rfl, by decide, fun _ => by decide⟩
    | false => exact ⟨0x66, _, by rw [write]; rfl, by decide, fun _ => by decide⟩
  | @integer n _ word =>
    obtain ⟨b, tail, eq, sign | digit⟩ := integerText_head n
    · exact ⟨b, tail, by rw [write, eq], sign ▸ by decide, fun _ => sign ▸ by decide⟩
    · refine ⟨b, tail, by rw [write, eq], opens_of_isDigit digit, fun _ letter => ?_⟩
      exact absurd (letter ▸ digit) (by decide)
  | string => exact ⟨0x22, _, by rw [write]; rfl, by decide, fun _ => by decide⟩
  | @array values _ items =>
    cases values with
    | nil => exact ⟨0x5B, _, by rw [write]; rfl, by decide, fun _ => by decide⟩
    | cons v values => exact ⟨0x5B, _, by rw [write]; rfl, by decide, fun _ => by decide⟩
  | @object members _ ascending values =>
    cases members with
    | nil => exact ⟨0x7B, _, by rw [write]; rfl, by decide, fun _ => by decide⟩
    | cons v values => exact ⟨0x7B, _, by rw [write]; rfl, by decide, fun _ => by decide⟩

theorem write_object (members : List (String × Json)) :
    (object members).write = writeRecord (members.map fun m => (m.1, m.2.write)) := by
  have later (members : List (String × Json)) :
      writeMembers members = laterMembers (members.map fun m => (m.1, m.2.write)) := by
    induction members with
    | nil => simp [writeMembers, laterMembers]
    | cons m members ih => simp [writeMembers, laterMembers, ih]
  cases members with
  | nil => simp [write, writeRecord]
  | cons m members => simp [write, writeRecord_cons, later]

/-- A key that comes after all others is inserted behind them. -/
theorem insert_of_forall_lt {key : String} {value : Json} {members : List (String × Json)}
    (last : ∀ m ∈ members, m.1 < key) : insert key value members = members ++ [(key, value)] := by
  induction members with
  | nil => rfl
  | cons m members ih =>
    have before := last m List.mem_cons_self
    have later := ih fun m' member => last m' (List.mem_cons_of_mem m member)
    have notBefore : ¬key < m.1 := String.lt_asymm before
    have other : key ≠ m.1 := fun same => String.lt_irrefl _ (same ▸ before)
    rw [insert, if_neg notBefore, if_neg other, later]
    rfl

/-- One member of an object, from before its colon. -/
def readValueMember (depth : Nat) (members : List (String × Json)) (key : String) :
    Reader (List (String × Json)) := fun input => do
  let (value, rest) ← readValue depth (← expectColon input)
  return (insert key value members, rest)

theorem membersRead_values {depth : Nat} {seen members : List (String × Json)}
    (reads : ∀ m ∈ members, ReadsTo (readValue depth) m.2.write m.2)
    (ascending : (seen ++ members).Pairwise fun m m' => m.1 < m'.1) :
    MembersRead (readValueMember depth) seen (members.map fun m => (m.1, m.2.write))
      (seen ++ members) := by
  induction members generalizing seen with
  | nil => exact List.append_nil seen
  | cons m members ih =>
    have last : ∀ m' ∈ seen, m'.1 < m.1 := fun m' member =>
      (List.pairwise_append.mp ascending).2.2 m' member m List.mem_cons_self
    rw [List.append_cons] at ascending ⊢
    refine ⟨seen ++ [m], fun rest ends => ?_,
      ih (fun m' member => reads m' (List.mem_cons_of_mem m member)) ascending⟩
    have read := reads m List.mem_cons_self rest ends
    simp only [readValueMember, expectColon_cons, read, insert_of_forall_lt last, bind, Except.bind,
      pure, Except.pure]

-- The first byte of a value tells what it is.
section First

variable (depth : Nat) (rest : Bytes)

theorem readValue_null : readValue depth (0x6E :: rest) =
    (expectWord nullTail rest).map fun rest => (.null, rest) := by
  rw [readValue.eq_def]
  rfl

theorem readValue_true : readValue depth (0x74 :: rest) =
    (expectWord trueTail rest).map fun rest => (.bool true, rest) := by
  rw [readValue.eq_def]
  rfl

theorem readValue_false : readValue depth (0x66 :: rest) =
    (expectWord falseTail rest).map fun rest => (.bool false, rest) := by
  rw [readValue.eq_def]
  rfl

theorem readValue_number {b : UInt8} (front : b = 0x2D ∨ isDigit b = true) :
    readValue depth (b :: rest) = readNumber (b :: rest) := by
  obtain ⟨opens, others⟩ := opens_number front
  rw [readValue.eq_def]
  simp only [skipBlank_cons opens.1, if_neg others.1, if_neg others.2.1, if_neg others.2.2.1,
    if_pos front]

theorem readValue_string : readValue depth (0x22 :: rest) =
    (readText rest).map fun read => (.string read.1, read.2) := by
  rw [readValue.eq_def]
  rfl

theorem readValue_array_zero : readValue 0 (0x5B :: rest) = .error .malformed := by
  rw [readValue.eq_def]
  rfl

theorem readValue_array : readValue (depth + 1) (0x5B :: rest) =
    (readItems (readValue depth) rest).map fun read => (.array read.1, read.2) := by
  rw [readValue.eq_def]
  rfl

theorem readValue_object_zero : readValue 0 (0x7B :: rest) = .error .malformed := by
  rw [readValue.eq_def]
  rfl

theorem readValue_object : readValue (depth + 1) (0x7B :: rest) =
    (readMembers (readValueMember depth) [] rest).map fun read => (.object read.1, read.2) := by
  rw [readValue.eq_def]
  rfl

end First

/-- What is written of a value is read as that value. -/
theorem readValue_write {depth : Nat} {v : Json} (legible : Legible depth v) :
    ReadsTo (readValue depth) v.write v := by
  intro rest ends
  induction legible generalizing rest with
  | null =>
    rw [write]
    exact readValue_null _ _
  | @bool _ b =>
    cases b with
    | true =>
      rw [write]
      exact readValue_true _ _
    | false =>
      rw [write]
      exact readValue_false _ _
  | @integer n _ word =>
    obtain ⟨b, tail, eq, front⟩ := integerText_head n
    have read := readNumber_integerText word ends
    rw [write, eq, List.cons_append, readValue_number _ _ front]
    rwa [eq, List.cons_append] at read
  | string =>
    rw [write, encode_writeText, readValue_string, readText_escaped]
    rfl
  | @array values depth items ih =>
    have each : ∀ v ∈ values, ItemReads (readValue depth) v v :=
      fun v member => by
        obtain ⟨b, tail, eq, opens, -⟩ := opens_write (items v member)
        exact ⟨⟨b, tail, eq, opens⟩, ih v member⟩
    obtain ⟨tail, eq, read⟩ := readItems_write each rest
    rw [List.map_id'] at eq
    rw [eq, readValue_array, read]
    rfl
  | @object members depth ascending values ih =>
    have each : MembersRead (readValueMember depth) [] (members.map fun m => (m.1, m.2.write))
        members := membersRead_values ih ascending
    obtain ⟨tail, eq, read⟩ := readMembers_writeRecord each rest
    rw [write_object, eq, readValue_object, read]
    rfl

end LinkedViews.Json
