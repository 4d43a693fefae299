import LinkedViews.Json.Typed
import LinkedViews.Proofs.Json.Lexeme

/-! How far a reader goes. A reader that succeeds on a text of the grammar takes the value at its
front and leaves exactly what stands behind it; what a string or an inner value holds does not lead
it astray. -/
namespace LinkedViews.Json

variable {α σ : Type}

theorem bind_eq_ok {ε α β : Type} {x : Except ε α} {f : α → Except ε β} {b : β} :
    (x >>= f) = .ok b ↔ ∃ a, x = .ok a ∧ f a = .ok b := by
  cases x with
  | error e => simp [bind, Except.bind]
  | ok a => simp [bind, Except.bind]

theorem map_eq_ok {ε α β : Type} {x : Except ε α} {f : α → β} {b : β} :
    x.map f = .ok b ↔ ∃ a, x = .ok a ∧ f a = b := by
  cases x with
  | error e => simp [Except.map]
  | ok a => simp [Except.map]

section Blanks

variable (blanks : Blanks) (rest : Bytes)

theorem nextItem_blanks (first : Bool) :
    nextItem first (blanks.1 ++ rest) = nextItem first rest := by
  simp only [nextItem, skipBlank_blanks]

theorem nextMember_blanks (first : Bool) :
    nextMember first (blanks.1 ++ rest) = nextMember first rest := by
  simp only [nextMember, skipBlank_blanks]

theorem expectColon_blanks : expectColon (blanks.1 ++ 0x3A :: rest) = .ok rest := by
  rw [expectColon, skipBlank_blanks]
  exact expectColon_cons rest

theorem readValue_blanks (depth : Nat) :
    readValue depth (blanks.1 ++ rest) = readValue depth rest :=
  readValue_congr (skipBlank_blanks blanks rest) depth

end Blanks

/-- The first byte of a value tells what it is. -/
theorem IsValue.front {text : Bytes} (value : IsValue text) :
    ∃ b tail, text = b :: tail ∧ Opens b ∧ (b = 0x6E → text = nullText) ∧
      (b = 0x22 → ∃ content, Quoted content ∧ tail = content ++ [0x22]) := by
  cases value with
  | null => exact ⟨0x6E, _, rfl, by decide, fun _ => rfl, nofun⟩
  | true => exact ⟨0x74, _, rfl, by decide, nofun, nofun⟩
  | false => exact ⟨0x66, _, rfl, by decide, nofun, nofun⟩
  | numeral numeral =>
    obtain ⟨b, tail, rfl, front⟩ := numeral.front
    obtain ⟨opens, letter, -, -, quote⟩ := opens_number front
    exact ⟨b, tail, rfl, opens, fun same => absurd same letter, fun same => absurd same quote⟩
  | string quoted => exact ⟨0x22, _, rfl, by decide, nofun, fun _ => ⟨_, quoted, rfl⟩⟩
  | @array blanks items values =>
    cases items with
    | nil => exact ⟨0x5B, _, rfl, by decide, nofun, nofun⟩
    | cons p items => exact ⟨0x5B, _, rfl, by decide, nofun, nofun⟩
  | @object blanks members values =>
    cases members with
    | nil => exact ⟨0x7B, _, rfl, by decide, nofun, nofun⟩
    | cons m members => exact ⟨0x7B, _, rfl, by decide, nofun, nofun⟩

theorem ends_laterParts (bracket : Bracket) (parts : List Bytes) (rest : Bytes) :
    Ends (laterParts bracket parts ++ rest) := by
  cases parts with
  | nil => cases bracket <;> exact ends_cons (by decide) _
  | cons part parts =>
    exact laterParts_cons_append bracket part parts rest ▸ ends_cons (by decide) _

/-- The value at the front is taken, and nothing else. -/
def Leaves (read : Reader α) (value : Bytes) : Prop :=
  ∀ (blanks : Blanks) rest x left, Ends rest →
    read (blanks.1 ++ (value ++ rest)) = .ok (x, left) → left = rest

-- A round that succeeds, given what is next.
section Rounds

variable {item : Reader α} {member : σ → String → Reader σ} {bound : Bytes} {first : Bool}
  {input rest left : Bytes}

theorem of_itemsFrom_close {seen found : List α} (next : nextItem first input = .ok (.close rest))
    (read : itemsFrom item bound first seen input = .ok (found, left)) : left = rest := by
  cases bound with
  | nil => contradiction
  | cons c bound =>
    rw [itemsFrom] at read
    simp only [next, bind, Except.bind, pure, Except.pure] at read
    exact (Prod.mk.inj (Except.ok.inj read)).2.symm

theorem of_itemsFrom_item {seen found : List α} (next : nextItem first input = .ok (.item rest))
    (read : itemsFrom item bound first seen input = .ok (found, left)) :
    ∃ bound' value after, item rest = .ok (value, after) ∧
      itemsFrom item bound' false (value :: seen) after = .ok (found, left) := by
  cases bound with
  | nil => contradiction
  | cons c bound =>
    rw [itemsFrom, bind_eq_ok] at read
    obtain ⟨step, found, read⟩ := read
    obtain rfl := Except.ok.inj (next.symm.trans found)
    obtain ⟨⟨value, after⟩, taken, read⟩ := bind_eq_ok.mp read
    exact ⟨bound, value, after, taken, read⟩

theorem of_membersFrom_close {state last : σ} (next : nextMember first input = .ok (.close rest))
    (read : membersFrom member bound first state input = .ok (last, left)) :
    left = rest ∧ last = state := by
  cases bound with
  | nil => contradiction
  | cons c bound =>
    rw [membersFrom] at read
    simp only [next, bind, Except.bind, pure, Except.pure] at read
    exact ⟨(Prod.mk.inj (Except.ok.inj read)).2.symm, (Prod.mk.inj (Except.ok.inj read)).1.symm⟩

theorem of_membersFrom_item {state last : σ} (next : nextMember first input = .ok (.item rest))
    (read : membersFrom member bound first state input = .ok (last, left)) :
    ∃ bound' key behind state' after, readText rest = .ok (key, behind) ∧
      member state key behind = .ok (state', after) ∧
      membersFrom member bound' false state' after = .ok (last, left) := by
  cases bound with
  | nil => contradiction
  | cons c bound =>
    rw [membersFrom, bind_eq_ok] at read
    obtain ⟨step, found, read⟩ := read
    obtain rfl := Except.ok.inj (next.symm.trans found)
    obtain ⟨⟨key, behind⟩, named, read⟩ := bind_eq_ok.mp read
    obtain ⟨⟨state', after⟩, taken, read⟩ := bind_eq_ok.mp read
    exact ⟨bound, key, behind, state', after, named, taken, read⟩

end Rounds

section Items

variable {item : Reader α} {items : List Padded}

theorem nextItem_padded {p : Padded} (value : IsValue p.value) (rest : Bytes) :
    nextItem true (p.text ++ rest) = .ok (.item (p.value ++ (p.after.1 ++ rest))) ∧
      nextItem false (0x2C :: (p.text ++ rest)) =
        .ok (.item (p.value ++ (p.after.1 ++ rest))) := by
  obtain ⟨b, tail, eq, opens, -⟩ := value.front
  have comma (later : Bytes) : skipBlank (0x2C :: later) = 0x2C :: later :=
    skipBlank_cons (by decide) later
  rw [Padded.text_append, eq]
  simp [nextItem, comma, skipBlank_cons opens.1, opens.2]

theorem Leaves.front {read : Reader α} {value rest left : Bytes} {x : α}
    (leaves : Leaves read value) (ends : Ends rest) (found : read (value ++ rest) = .ok (x, left)) :
    left = rest := leaves Blanks.none rest x left ends found

variable (values : ∀ p ∈ items, IsValue p.value) (leaves : ∀ p ∈ items, Leaves item p.value)

include values leaves

/-- By induction on the items that are left, with the blanks in front of the next comma. -/
theorem itemsFrom_leaves {bound : Bytes} {seen found : List α} (blanks : Blanks) {rest left : Bytes}
    (read : itemsFrom item bound false seen
      (blanks.1 ++ (laterParts .array (items.map Padded.text) ++ rest)) = .ok (found, left)) :
    left = rest := by
  induction items generalizing bound seen blanks with
  | nil =>
    have next := (nextItem_blanks blanks (0x5D :: rest) false).trans (nextItem_close false rest)
    exact of_itemsFrom_close next read
  | cons p items ih =>
    rw [List.map_cons, laterParts_cons_append] at read
    have next := (nextItem_padded (values p List.mem_cons_self)
      (laterParts .array (items.map Padded.text) ++ rest)).2
    obtain ⟨bound', value, after, taken, read⟩ :=
      of_itemsFrom_item ((nextItem_blanks blanks _ false).trans next) read
    have ends := ends_blanks p.after (ends_laterParts .array (items.map Padded.text) rest)
    obtain rfl := (leaves p List.mem_cons_self).front ends taken
    exact ih (fun q member => values q (List.mem_cons_of_mem p member))
      (fun q member => leaves q (List.mem_cons_of_mem p member)) p.after read

theorem readItems_leaves (blanks : Blanks) (rest : Bytes) : ∃ tail,
    enclosed .array blanks (items.map Padded.text) ++ rest = 0x5B :: tail ∧
      ∀ found left, readItems item tail = .ok (found, left) → left = rest := by
  cases items with
  | nil =>
    refine ⟨_, enclosed_nil .array blanks rest, fun found left read => ?_⟩
    have next := (nextItem_blanks blanks (0x5D :: rest) true).trans (nextItem_close true rest)
    exact of_itemsFrom_close next read
  | cons p items =>
    refine ⟨_, enclosed_cons .array blanks p.text (items.map Padded.text) rest,
      fun found left read => ?_⟩
    have next := (nextItem_padded (values p List.mem_cons_self)
      (laterParts .array (items.map Padded.text) ++ rest)).1
    obtain ⟨bound', value, after, taken, read⟩ := of_itemsFrom_item next read
    have ends := ends_blanks p.after (ends_laterParts .array (items.map Padded.text) rest)
    obtain rfl := (leaves p List.mem_cons_self).front ends taken
    exact itemsFrom_leaves (fun q member => values q (List.mem_cons_of_mem p member))
      (fun q member => leaves q (List.mem_cons_of_mem p member)) p.after read

end Items

section Members

/-- What holds of the state after some members holds after one more of these, with what the member
holds taken and nothing else. -/
def Keeps (member : σ → String → Reader σ) (holds : σ → List Member → Prop) (m : Member) : Prop :=
  ∀ state done key next rest left, m.Named key → Ends rest → holds state done →
    member state key (m.gap.1 ++ 0x3A :: (m.content.before.1 ++ (m.content.value ++ rest))) =
      .ok (next, left) → left = rest ∧ holds next (done ++ [m])

variable {member : σ → String → Reader σ} {holds : σ → List Member → Prop} {members : List Member}

theorem nextMember_member (m : Member) (rest : Bytes) :
    nextMember true (m.text ++ rest) =
        .ok (.item (m.key.1 ++ 0x22 :: (m.gap.1 ++ 0x3A :: (m.content.text ++ rest)))) ∧
      nextMember false (0x2C :: (m.text ++ rest)) =
        .ok (.item (m.key.1 ++ 0x22 :: (m.gap.1 ++ 0x3A :: (m.content.text ++ rest)))) := by
  have shown (b : UInt8) (visible : isBlank b = false) (later : Bytes) :
      skipBlank (b :: later) = b :: later := skipBlank_cons visible later
  rw [Member.text_append]
  simp [nextMember, shown 0x2C (by decide), shown 0x22 (by decide)]

theorem membersFrom_member {m : Member} (keeps : Keeps member holds m) {bound : Bytes}
    {first : Bool} {state last : σ} {done : List Member} {input rest left : Bytes}
    (ends : Ends rest) (held : holds state done)
    (next : nextMember first input =
      .ok (.item (m.key.1 ++ 0x22 :: (m.gap.1 ++ 0x3A :: (m.content.text ++ rest)))))
    (read : membersFrom member bound first state input = .ok (last, left)) :
    ∃ bound' state', holds state' (done ++ [m]) ∧
      membersFrom member bound' false state' (m.content.after.1 ++ rest) = .ok (last, left) := by
  obtain ⟨bound', key, behind, state', after, named, taken, read⟩ := of_membersFrom_item next read
  obtain ⟨rfl, name⟩ := of_readText _ m.key.2 named
  rw [Padded.text_append] at taken
  obtain ⟨rfl, held⟩ := keeps state done key state' _ after name (ends_blanks m.content.after ends)
    held taken
  exact ⟨bound', state', held, read⟩

variable (keeps : ∀ m ∈ members, Keeps member holds m)

include keeps

/-- By induction on the members that are left, with the blanks in front of the next comma. -/
theorem membersFrom_keeps {bound : Bytes} {state last : σ} {done : List Member} (blanks : Blanks)
    {rest left : Bytes} (held : holds state done) (read : membersFrom member bound false state
      (blanks.1 ++ (laterParts .object (members.map Member.text) ++ rest)) = .ok (last, left)) :
    left = rest ∧ holds last (done ++ members) := by
  induction members generalizing bound state done blanks with
  | nil =>
    have next := (nextMember_blanks blanks (0x7D :: rest) false).trans (nextMember_close false rest)
    obtain ⟨rfl, rfl⟩ := of_membersFrom_close next read
    exact ⟨rfl, (List.append_nil done).symm ▸ held⟩
  | cons m members ih =>
    rw [List.map_cons, laterParts_cons_append] at read
    have next := (nextMember_blanks blanks _ false).trans (nextMember_member m
      (laterParts .object (members.map Member.text) ++ rest)).2
    obtain ⟨bound', state', held, read⟩ := membersFrom_member (keeps m List.mem_cons_self)
      (ends_laterParts .object (members.map Member.text) rest) held next read
    rw [List.append_cons]
    exact ih (fun n among => keeps n (List.mem_cons_of_mem m among)) m.content.after held read

theorem readMembers_keeps (blanks : Blanks) (state : σ) (held : holds state []) (rest : Bytes) :
    ∃ tail, enclosed .object blanks (members.map Member.text) ++ rest = 0x7B :: tail ∧
      ∀ last left, readMembers member state tail = .ok (last, left) →
        left = rest ∧ holds last members := by
  cases members with
  | nil =>
    refine ⟨_, enclosed_nil .object blanks rest, fun last left read => ?_⟩
    have next := (nextMember_blanks blanks (0x7D :: rest) true).trans (nextMember_close true rest)
    obtain ⟨rfl, rfl⟩ := of_membersFrom_close next read
    exact ⟨rfl, held⟩
  | cons m members =>
    refine ⟨_, enclosed_cons .object blanks m.text (members.map Member.text) rest,
      fun last left read => ?_⟩
    obtain ⟨bound', state', held, read⟩ := membersFrom_member (keeps m List.mem_cons_self)
      (ends_laterParts .object (members.map Member.text) rest) held
      (nextMember_member m (laterParts .object (members.map Member.text) ++ rest)).1 read
    exact membersFrom_keeps (fun n among => keeps n (List.mem_cons_of_mem m among)) m.content.after
      held read

end Members

theorem expectWord_append (word rest : Bytes) : expectWord word (word ++ rest) = .ok rest := by
  induction word with
  | nil => rfl
  | cons w word ih => simp [expectWord, ih]

theorem readNumber_leaves {text rest left : Bytes} {x : Json} (numeral : IsNumeral text)
    (ends : Ends rest) (read : readNumber (text ++ rest) = .ok (x, left)) : left = rest := by
  obtain ⟨found, scanned⟩ := scanNumeral_of_isNumeral false numeral ends
  rw [readNumber, scanned] at read
  simp only [bind, Except.bind] at read
  split at read
  next => exact (Prod.mk.inj (Except.ok.inj read)).2.symm
  next => contradiction

/-- By induction on the grammar: each item and member is taken as a whole. -/
theorem readValue_leaves {text : Bytes} (value : IsValue text) (depth : Nat) :
    Leaves (readValue depth) text := by
  induction value generalizing depth with
  | null =>
    intro blanks rest x left _ read
    rw [readValue_blanks, nullText, List.cons_append, readValue_null, expectWord_append] at read
    exact (Prod.mk.inj (Except.ok.inj read)).2.symm
  | true =>
    intro blanks rest x left _ read
    rw [readValue_blanks, List.cons_append, readValue_true, expectWord_append] at read
    exact (Prod.mk.inj (Except.ok.inj read)).2.symm
  | false =>
    intro blanks rest x left _ read
    rw [readValue_blanks, List.cons_append, readValue_false, expectWord_append] at read
    exact (Prod.mk.inj (Except.ok.inj read)).2.symm
  | numeral numeral =>
    intro blanks rest x left ends read
    obtain ⟨b, tail, rfl, front⟩ := numeral.front
    rw [readValue_blanks, List.cons_append, readValue_number _ _ front] at read
    exact readNumber_leaves numeral ends read
  | @string content quoted =>
    intro blanks rest x left _ read
    rw [readValue_blanks, List.cons_append, List.append_assoc, readValue_string] at read
    obtain ⟨⟨text, behind⟩, read, same⟩ := map_eq_ok.mp read
    rw [← (Prod.mk.inj same).2]
    exact (of_readText rest quoted read).1
  | @array gap items values ih =>
    intro blanks rest x left _ read
    rw [readValue_blanks] at read
    cases depth with
    | zero =>
      obtain ⟨tail, eq, -⟩ := readItems_leaves values (fun p member => ih p member 0) gap rest
      rw [eq, readValue_array_zero] at read
      contradiction
    | succ depth =>
      obtain ⟨tail, eq, leaves⟩ :=
        readItems_leaves values (fun p member => ih p member depth) gap rest
      rw [eq, readValue_array] at read
      obtain ⟨⟨found, behind⟩, read, same⟩ := map_eq_ok.mp read
      rw [← (Prod.mk.inj same).2]
      exact leaves found behind read
  | @object gap members values ih =>
    intro blanks rest x left _ read
    rw [readValue_blanks] at read
    have keeps (depth : Nat) : ∀ m ∈ members,
        Keeps (readValueMember depth) (fun _ _ => True) m := by
      intro m member state done key next rest left _ ends _ read
      refine ⟨?_, trivial⟩
      rw [readValueMember, expectColon_blanks] at read
      obtain ⟨_, ⟨⟩, read⟩ := bind_eq_ok.mp read
      obtain ⟨⟨v, behind⟩, read, same⟩ := bind_eq_ok.mp read
      rw [← (Prod.mk.inj (Except.ok.inj same)).2]
      exact ih m member depth m.content.before rest v behind ends read
    cases depth with
    | zero =>
      obtain ⟨tail, eq, -⟩ := readMembers_keeps (keeps 0) gap [] trivial rest
      rw [eq, readValue_object_zero] at read
      contradiction
    | succ depth =>
      obtain ⟨tail, eq, leaves⟩ := readMembers_keeps (keeps depth) gap [] trivial rest
      rw [eq, readValue_object] at read
      obtain ⟨⟨found, behind⟩, read, same⟩ := map_eq_ok.mp read
      rw [← (Prod.mk.inj same).2]
      exact (leaves found behind read).1

theorem rejectValue_ne_ok (expected : String) (input : Bytes) (x : α) :
    rejectValue expected input ≠ .ok x := by
  intro read
  rw [rejectValue] at read
  split at read
  next => contradiction
  next =>
    split at read
    next => contradiction
    next =>
      split at read
      next => contradiction
      next =>
        obtain ⟨_, -, failed⟩ := bind_eq_ok.mp read
        contradiction

theorem readString_leaves {value : Bytes} (isValue : IsValue value) (expected : String) :
    Leaves (readString expected) value := by
  intro blanks rest x left _ read
  obtain ⟨b, tail, rfl, opens, -, string⟩ := isValue.front
  rw [readString, skipBlank_blanks, List.cons_append, skipBlank_cons opens.1] at read
  simp only at read
  split at read
  next quote =>
    obtain ⟨content, quoted, rfl⟩ := string quote
    rw [List.append_assoc] at read
    exact (of_readText rest quoted read).1
  next => exact absurd read (rejectValue_ne_ok _ _ _)

/-- Only `null` stands for absence. -/
theorem of_readOptional {read : Reader α} {value : Bytes} (isValue : IsValue value)
    (leaves : Leaves read value) (blanks : Blanks) {rest left : Bytes} {x : Option α}
    (ends : Ends rest) (found : readOptional read (blanks.1 ++ (value ++ rest)) = .ok (x, left)) :
    left = rest ∧ (x.isSome = true ↔ value ≠ nullText) := by
  obtain ⟨b, tail, rfl, opens, null, -⟩ := isValue.front
  rw [readOptional, skipBlank_blanks, List.cons_append, skipBlank_cons opens.1] at found
  split at found
  next letter =>
    obtain ⟨rfl, rfl⟩ := List.cons.inj letter
    obtain rfl : tail = nullTail := (List.cons.inj (null rfl)).2
    rw [expectWord_append] at found
    obtain ⟨rfl, rfl⟩ := Prod.mk.inj (Except.ok.inj found)
    simp [nullText]
  next other =>
    obtain ⟨⟨v, behind⟩, given, same⟩ := bind_eq_ok.mp found
    obtain ⟨rfl, rfl⟩ := Prod.mk.inj (Except.ok.inj same)
    refine ⟨leaves blanks rest v behind ends given, iff_of_true rfl fun eq => ?_⟩
    exact other (tail ++ rest) (by rw [(List.cons.inj eq).1])

/-- A field that was read was not given before. -/
theorem of_readField {name : String} {before : Option α} {read : Reader α} {gap : Blanks}
    {input left : Bytes} (set : Option α → σ) {next : σ}
    (found : (do
      let (v, rest) ← readField name before read (gap.1 ++ 0x3A :: input)
      return (set v, rest)) = .ok (next, left)) :
    ∃ x, next = set (some x) ∧ before = none ∧ read input = .ok (x, left) := by
  cases before with
  | some y => contradiction
  | none =>
    rw [readField, expectColon_blanks] at found
    obtain ⟨⟨v, behind⟩, field, same⟩ := bind_eq_ok.mp found
    obtain ⟨rfl, rfl⟩ := Prod.mk.inj (Except.ok.inj same)
    obtain ⟨_, ⟨⟩, field⟩ := bind_eq_ok.mp field
    obtain ⟨⟨x, behind'⟩, given, same⟩ := bind_eq_ok.mp field
    obtain ⟨rfl, rfl⟩ := Prod.mk.inj (Except.ok.inj same)
    exact ⟨x, rfl, rfl, given⟩

/-- A record that is read from an object is finished from a state that the object's members keep. -/
theorem of_complete_record {member : σ → String → Reader σ} {holds : σ → List Member → Prop}
    {finish : σ → Except Fault α} {start : σ} {o : ObjectText} {expected : String}
    {ofArray : Reader α} {value : α} (keeps : ∀ m ∈ o.members, Keeps member holds m)
    (held : holds start [])
    (parsed : complete (readRecord expected ofArray fun input => do
      let (draft, rest) ← readMembers member start input
      return (← finish draft, rest)) o.text = .ok value) :
    ∃ last, holds last o.members ∧ finish last = .ok value := by
  obtain ⟨tail, eq, kept⟩ := readMembers_keeps keeps o.blanks start held o.after.1
  have text : skipBlank o.text = 0x7B :: tail := by
    rw [ObjectText.text, skipBlank_blanks, eq]
    exact skipBlank_cons (by decide) tail
  obtain ⟨⟨found, behind⟩, read, whole⟩ := bind_eq_ok.mp parsed
  rw [readRecord, text] at read
  obtain ⟨⟨last, left⟩, members, ended⟩ := bind_eq_ok.mp read
  obtain ⟨finished, finish, pair⟩ := bind_eq_ok.mp ended
  obtain rfl : finished = found := (Prod.mk.inj (Except.ok.inj pair)).1
  simp only at whole
  split at whole
  next => exact ⟨last, (kept last left members).2, Except.ok.inj whole ▸ finish⟩
  next => contradiction

end LinkedViews.Json
