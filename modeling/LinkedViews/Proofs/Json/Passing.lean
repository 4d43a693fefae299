import LinkedViews.Proofs.Json.Extent

/-! How far passing over goes. The value of a member that nobody asks for is passed over by the
brackets that are open; what its strings hold opens and closes none, so what stands behind the value
is left, and nothing else. -/
namespace LinkedViews.Json

/-- What is left to do behind a value, given the brackets that are open around it. -/
def passOn (bound : Bytes) (fresh : Bool) (brackets : List Bracket) (input : Bytes) :
    Except Fault Bytes := do
  match ← passClosings fresh brackets input with
  | ([], rest) => return rest
  | (brackets, rest) => passFrom bound brackets rest

theorem passFrom_blanks (blanks : Blanks) (rest bound : Bytes) (brackets : List Bracket) :
    passFrom bound brackets (blanks.1 ++ rest) = passFrom bound brackets rest :=
  passFrom_congr (skipBlank_blanks blanks rest) bound brackets

section First

variable (c : UInt8) (bound : Bytes) (brackets : List Bracket) (rest : Bytes)

theorem passFrom_null : passFrom (c :: bound) brackets (nullText ++ rest) =
    passOn bound false brackets rest := by
  have word := expectWord_append nullTail rest
  rw [nullText, List.cons_append, passFrom.eq_def]
  simp only [skipBlank_cons (show isBlank 0x6E = false by decide), if_true, word]
  rfl

theorem passFrom_true : passFrom (c :: bound) brackets (0x74 :: trueTail ++ rest) =
    passOn bound false brackets rest := by
  have word := expectWord_append trueTail rest
  rw [List.cons_append, passFrom.eq_def]
  simp only [skipBlank_cons (show isBlank 0x74 = false by decide), word]
  rfl

theorem passFrom_false : passFrom (c :: bound) brackets (0x66 :: falseTail ++ rest) =
    passOn bound false brackets rest := by
  have word := expectWord_append falseTail rest
  rw [List.cons_append, passFrom.eq_def]
  simp only [skipBlank_cons (show isBlank 0x66 = false by decide), word]
  rfl

theorem passFrom_numeral {text : Bytes} (numeral : IsNumeral text) (ends : Ends rest) :
    passFrom (c :: bound) brackets (text ++ rest) = passOn bound false brackets rest := by
  obtain ⟨found, scanned⟩ := scanNumeral_of_isNumeral true numeral ends
  have passed : passNumber (text ++ rest) = .ok rest := by
    rw [passNumber, scanned]
    rfl
  obtain ⟨b, tail, rfl, front⟩ := numeral.front
  obtain ⟨opens, others⟩ := opens_number front
  rw [List.cons_append] at passed ⊢
  rw [passFrom.eq_def]
  simp only [skipBlank_cons opens.1, if_neg others.1, if_neg others.2.1, if_neg others.2.2.1,
    if_pos front, passed]
  rfl

theorem passFrom_string {text : Bytes} (quoted : Quoted text) :
    passFrom (c :: bound) brackets (0x22 :: (text ++ 0x22 :: rest)) =
      passOn bound false brackets rest := by
  have passed := passText_quoted rest quoted
  rw [passFrom.eq_def]
  simp only [skipBlank_cons (show isBlank 0x22 = false by decide), passed]
  rfl

theorem passFrom_opening (bracket : Bracket) :
    passFrom (c :: bound) brackets (bracket.opening :: rest) =
      passOn bound true (bracket :: brackets) rest := by
  cases bracket with
  | array =>
    rw [passFrom.eq_def]
    rfl
  | object =>
    rw [passFrom.eq_def]
    rfl

end First

section On

variable (bound : Bytes) (fresh : Bool) (top : Bracket) (below : List Bracket) (blanks : Blanks)
  (rest : Bytes)

theorem skipBlank_closing : skipBlank (top.closing :: rest) = top.closing :: rest := by
  cases top <;> rfl

theorem passOn_closing : passOn bound fresh (top :: below) (blanks.1 ++ top.closing :: rest) =
    passOn bound false below rest := by
  have closings : passClosings fresh (top :: below) (blanks.1 ++ top.closing :: rest) =
      passClosings false below rest := by
    rw [passClosings, skipBlank_blanks, skipBlank_closing]
    exact if_pos rfl
  rw [passOn, closings]
  rfl

theorem passOn_comma : passOn bound false (top :: below) (blanks.1 ++ 0x2C :: rest) =
    passKey top rest >>= passFrom bound (top :: below) := by
  have closings : passClosings false (top :: below) (blanks.1 ++ 0x2C :: rest) =
      (passKey top rest).map fun rest => (top :: below, rest) := by
    rw [passClosings, skipBlank_blanks]
    cases top <;> rfl
  rw [passOn, closings]
  cases passKey top rest <;> rfl

theorem passOn_fresh {b : UInt8} (shown : isBlank b = false) (other : b ≠ top.closing) :
    passOn bound true (top :: below) (blanks.1 ++ b :: rest) =
      passKey top (b :: rest) >>= passFrom bound (top :: below) := by
  have closings : passClosings true (top :: below) (blanks.1 ++ b :: rest) =
      (passKey top (b :: rest)).map fun rest => (top :: below, rest) := by
    rw [passClosings, skipBlank_blanks, skipBlank_cons shown]
    simp only [if_neg other]
    rfl
  rw [passOn, closings]
  cases passKey top (b :: rest) <;> rfl

omit bound fresh top below in
theorem passKey_object {text : Bytes} (quoted : Quoted text) (gap : Blanks) :
    passKey .object (blanks.1 ++ 0x22 :: (text ++ 0x22 :: (gap.1 ++ 0x3A :: rest))) = .ok rest := by
  have passed := passText_quoted (gap.1 ++ 0x3A :: rest) quoted
  rw [passKey, skipBlank_blanks]
  simp [skipBlank, isBlank, passed, bind, Except.bind, expectColon_blanks]

end On

section Parts

/-- With the bracket open, passing over the part comes to its value, first or behind a comma. -/
structure Enters (top : Bracket) (part : Bytes) (p : Padded) : Prop where
  first : ∀ bound below rest, passOn bound true (top :: below) (part ++ rest) =
    passFrom bound (top :: below) (p.value ++ (p.after.1 ++ rest))
  later : ∀ bound below (blanks : Blanks) rest,
    passOn bound false (top :: below) (blanks.1 ++ 0x2C :: (part ++ rest)) =
      passFrom bound (top :: below) (p.value ++ (p.after.1 ++ rest))

theorem enters_padded {p : Padded} (value : IsValue p.value) : Enters .array p.text p := by
  obtain ⟨b, tail, eq, opens, -⟩ := value.front
  refine ⟨fun bound below rest => ?_, fun bound below blanks rest => ?_⟩
  · rw [Padded.text_append, eq]
    exact passOn_fresh bound .array below p.before _ opens.1 opens.2
  · rw [passOn_comma, Padded.text_append]
    exact passFrom_blanks p.before _ bound (.array :: below)

theorem enters_member (m : Member) : Enters .object m.text m.content := by
  refine ⟨fun bound below rest => ?_, fun bound below blanks rest => ?_⟩
  · have keyed := passKey_object Blanks.none (m.content.text ++ rest) m.key.2 m.gap
    rw [Blanks.none, List.nil_append] at keyed
    rw [Member.text_append, passOn_fresh bound .object below m.blanks _ (by decide) (by decide),
      keyed, Padded.text_append]
    exact passFrom_blanks m.content.before _ bound (.object :: below)
  · rw [passOn_comma, Member.text_append, passKey_object m.blanks _ m.key.2, Padded.text_append]
    exact passFrom_blanks m.content.before _ bound (.object :: below)

/-- Passing over the value at the front leaves nothing of it to do. -/
def Passes (value : Bytes) : Prop :=
  ∀ bound brackets rest left, Ends rest → passFrom bound brackets (value ++ rest) = .ok left →
    ∃ bound', passOn bound' false brackets rest = .ok left

variable {top : Bracket} {parts : List Bytes}
  (passes : ∀ part ∈ parts, ∃ p, Enters top part p ∧ Passes p.value)
  {bound : Bytes} {below : List Bracket} (blanks : Blanks) {rest left : Bytes}

include passes

/-- By induction on the parts that are left, with the blanks in front of the next comma. -/
theorem passOn_laterParts (passed : passOn bound false (top :: below)
    (blanks.1 ++ (laterParts top parts ++ rest)) = .ok left) :
    ∃ bound', passOn bound' false below rest = .ok left := by
  induction parts generalizing bound blanks with
  | nil =>
    exact ⟨bound, (passOn_closing bound false top below blanks rest).symm.trans passed⟩
  | cons part parts ih =>
    obtain ⟨p, enters, inner⟩ := passes part List.mem_cons_self
    rw [laterParts_cons_append, enters.later] at passed
    obtain ⟨bound', passed⟩ :=
      inner _ _ _ _ (ends_blanks p.after (ends_laterParts top parts rest)) passed
    exact ih (fun part member => passes part (List.mem_cons_of_mem _ member)) p.after passed

theorem passFrom_enclosed
    (passed : passFrom bound below (enclosed top blanks parts ++ rest) = .ok left) :
    ∃ bound', passOn bound' false below rest = .ok left := by
  cases bound with
  | nil => contradiction
  | cons c bound =>
    cases parts with
    | nil =>
      rw [enclosed_nil, passFrom_opening, passOn_closing] at passed
      exact ⟨bound, passed⟩
    | cons part parts =>
      obtain ⟨p, enters, inner⟩ := passes part List.mem_cons_self
      rw [enclosed_cons, passFrom_opening, enters.first] at passed
      obtain ⟨bound', passed⟩ :=
        inner _ _ _ _ (ends_blanks p.after (ends_laterParts top parts rest)) passed
      exact passOn_laterParts (fun part member => passes part (List.mem_cons_of_mem _ member))
        p.after passed

end Parts

/-- A value that holds no other is passed over at once. -/
theorem passes_of_step {text : Bytes} (step : ∀ c bound brackets rest, Ends rest →
    passFrom (c :: bound) brackets (text ++ rest) = passOn bound false brackets rest) :
    Passes text := by
  intro bound brackets rest left ends passed
  cases bound with
  | nil => contradiction
  | cons c bound => exact ⟨bound, (step c bound brackets rest ends).symm.trans passed⟩

/-- By induction on the grammar, with any brackets open around the value. -/
theorem passFrom_leaves {text : Bytes} (value : IsValue text) : Passes text := by
  induction value with
  | null => exact passes_of_step fun c bound brackets rest _ => passFrom_null c bound brackets rest
  | true => exact passes_of_step fun c bound brackets rest _ => passFrom_true c bound brackets rest
  | false =>
    exact passes_of_step fun c bound brackets rest _ => passFrom_false c bound brackets rest
  | numeral numeral =>
    exact passes_of_step fun c bound brackets rest => passFrom_numeral c bound brackets rest numeral
  | string quoted =>
    refine passes_of_step fun c bound brackets rest _ => ?_
    rw [List.cons_append, List.append_assoc]
    exact passFrom_string c bound brackets rest quoted
  | @array gap items values ih =>
    intro bound brackets rest left _ passed
    refine passFrom_enclosed (fun part among => ?_) gap passed
    obtain ⟨p, member, rfl⟩ := List.mem_map.mp among
    exact ⟨p, enters_padded (values p member), ih p member⟩
  | @object gap members values ih =>
    intro bound brackets rest left _ passed
    refine passFrom_enclosed (fun part among => ?_) gap passed
    obtain ⟨m, member, rfl⟩ := List.mem_map.mp among
    exact ⟨m.content, enters_member m, ih m member⟩

/-- A member that nobody asks for is passed over as a whole. -/
theorem passMember_leaves {value rest left : Bytes} (isValue : IsValue value) (gap before : Blanks)
    (ends : Ends rest)
    (passed : passMember (gap.1 ++ 0x3A :: (before.1 ++ (value ++ rest))) = .ok left) :
    left = rest := by
  rw [passMember, expectColon_blanks] at passed
  obtain ⟨_, ⟨⟩, passed⟩ := bind_eq_ok.mp passed
  rw [passFrom_blanks] at passed
  obtain ⟨bound, passed⟩ := passFrom_leaves isValue _ _ _ _ ends passed
  exact (Except.ok.inj passed).symm

end LinkedViews.Json
