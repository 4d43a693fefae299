import LinkedViews.Proofs.Text.Ascii
import LinkedViews.Proofs.Text.Pieces
import LinkedViews.Proofs.Wire.Line

/-! The grammar of frames: header lines, an empty line, and a body. Of the headers only those count
that announce a length; each of them has to be a number, and the last one is the length. -/
namespace LinkedViews

open Text

namespace Frame

/-- What a line announces as the length of the body, if it is about that. -/
def announced? (line : List Char) : Option (List Char) :=
  match cut ':' line with
  | some (name, value) => if (trim name).map lower = lengthName then some (trim value) else none
  | none => none

/-- A line with a colon. So it is not empty, whatever ends it. -/
structure IsHeader (line : List Char) : Prop extends IsLine line where
  colon : ':' ∈ line

theorem isBlank_of_isLineEnd (c : Char) (ends : isLineEnd c = true) : isBlank c = true := by
  simp only [isLineEnd, Bool.or_eq_true, beq_iff_eq] at ends
  rcases ends with rfl | rfl <;> decide

theorem readHeader_of_colon {line : List Char} (colon : ':' ∈ line) : readHeader line =
    match announced? line with
    | none => .ok .other
    | some value =>
      match Decimal.read? value with
      | some size => .ok (.length size)
      | none => .error (.invalidLength value) := by
  cases parts : cut ':' line with
  | none => exact absurd colon (cut_eq_none_iff.mp parts)
  | some found =>
    obtain ⟨name, value⟩ := found
    obtain ⟨rfl, apart⟩ := eq_of_cut parts
    have bare : dropEndWhile isLineEnd (name ++ ':' :: value) =
        name ++ ':' :: dropEndWhile isLineEnd value :=
      dropEndWhile_append_cons rfl name value
    have nonempty : name ++ ':' :: dropEndWhile isLineEnd value ≠ [] := by simp
    simp only [readHeader, announced?, bare, if_neg nonempty, cut_append_cons apart,
      trim_dropEndWhile isBlank_of_isLineEnd]
    by_cases named : (trim name).map lower = lengthName
    · cases read : Decimal.read? (trim value) with
      | none => simp only [if_pos named, read]
      | some size => simp only [if_pos named, read]
    · simp only [if_neg named]

/-- Carriage returns and the line feed after them. -/
def emptyLine (returns : Nat) : List Char := List.replicate returns '\r' ++ ['\n']

theorem isLine_emptyLine {returns : Nat} (short : returns < maxLine) : IsLine (emptyLine returns) where
  ended := by
    refine ⟨_, rfl, fun member => ?_⟩
    exact absurd (List.eq_of_mem_replicate member) (by decide)
  short := by
    have ascii : Utf8.IsAscii (emptyLine returns) := by
      apply Utf8.IsAscii.append
      · intro c member
        rw [List.eq_of_mem_replicate member]
        decide
      · decide
    rw [Utf8.encode_ascii ascii]
    simpa [emptyLine] using short

theorem readHeader_emptyLine (returns : Nat) : readHeader (emptyLine returns) = .ok .blank := by
  have ends : ∀ c ∈ emptyLine returns, isLineEnd c = true := by
    intro c member
    rcases List.mem_append.mp member with front | last
    · rw [List.eq_of_mem_replicate front]
      rfl
    · rw [List.mem_singleton.mp last]
      rfl
  have bare : dropEndWhile isLineEnd (emptyLine returns) = [] := dropEndWhile_append_of_all ends []
  simp [readHeader, bare]

def lengths (lines : List (List Char)) : List (List Char) := lines.filterMap announced?

/-- Every announcement is a number, and the last is this one. -/
structure Announces (lines : List (List Char)) (size : Nat) : Prop where
  legible : ∀ value ∈ lengths lines, (Decimal.read? value).isSome = true
  last : (lengths lines).getLast?.bind Decimal.read? = some size

section Headers

variable {lines : List (List Char)} (headers : ∀ line ∈ lines, IsHeader line)

theorem readFrom_header {line : List Char} (header : IsHeader line) (fuel : Nat) (first : Bool)
    (length : Option Nat) (rest : Bytes) :
    readFrom (fuel + 1) first length (Utf8.encode line ++ rest) =
      match announced? line with
      | none => readFrom fuel false length rest
      | some value =>
        match Decimal.read? value with
        | some size => readFrom fuel false (some size) rest
        | none => (.fault (.invalidLength value), rest) := by
  rw [readFrom_line header.toIsLine, readHeader_of_colon header.colon]
  cases announced? line with
  | none => rfl
  | some value => cases read : Decimal.read? value <;> simp only [read]

theorem lengths_cons (line : List Char) (lines : List (List Char)) :
    lengths (line :: lines) = (announced? line).toList ++ lengths lines := by
  cases said : announced? line <;> simp [lengths, said]

include headers

theorem length_le_encode : lines.length ≤ (lines.flatMap Utf8.encode).length := by
  induction lines with
  | nil => exact Nat.le_refl _
  | cons line lines ih =>
    have later := ih fun other among => headers other (List.mem_cons_of_mem _ among)
    have some := encode_line_ne_nil (headers line List.mem_cons_self).toIsLine
    have : 0 < (Utf8.encode line).length := List.length_pos_iff.mpr some
    simp only [List.flatMap_cons, List.length_append, List.length_cons]
    omega

/-- Numbers are read one after the other, and each takes the place of the one before. -/
theorem readFrom_headers (legible : ∀ value ∈ lengths lines, (Decimal.read? value).isSome = true)
    (fuel : Nat) (first : Bool) (length : Option Nat) (rest : Bytes) : ∃ first',
      readFrom (lines.length + fuel) first length (lines.flatMap Utf8.encode ++ rest) =
        readFrom fuel first' ((lengths lines).foldl (fun _ value => Decimal.read? value) length)
          rest := by
  induction lines generalizing first length with
  | nil => exact ⟨first, by simp [lengths]⟩
  | cons line lines ih =>
    have enough : (line :: lines).length + fuel = lines.length + fuel + 1 := by
      rw [List.length_cons]
      omega
    have ih := ih fun other among => headers other (List.mem_cons_of_mem _ among)
    rw [lengths_cons] at legible ⊢
    rw [List.flatMap_cons, List.append_assoc, enough,
      readFrom_header (headers line List.mem_cons_self)]
    cases said : announced? line with
    | none =>
      rw [said] at legible
      exact ih legible false length
    | some value =>
      rw [said] at legible
      obtain ⟨size, read⟩ := Option.isSome_iff_exists.mp (legible value (by simp))
      simp only [read, Option.toList_some, List.cons_append, List.nil_append, List.foldl_cons]
      exact ih (fun other among => legible other (by simp [among])) false (some size)

/-- The first that is no number is a fault, whatever comes after it. -/
theorem readFrom_illegible {value : List Char}
    (illegible : (lengths lines).find? (fun v => (Decimal.read? v).isNone) = some value)
    (fuel : Nat) (first : Bool) (length : Option Nat) (rest : Bytes) :
    (readFrom (lines.length + fuel) first length (lines.flatMap Utf8.encode ++ rest)).1 =
      .fault (.invalidLength value) := by
  induction lines generalizing first length with
  | nil => simp [lengths] at illegible
  | cons line lines ih =>
    have enough : (line :: lines).length + fuel = lines.length + fuel + 1 := by
      rw [List.length_cons]
      omega
    have ih := ih fun other among => headers other (List.mem_cons_of_mem _ among)
    rw [lengths_cons] at illegible
    rw [List.flatMap_cons, List.append_assoc, enough,
      readFrom_header (headers line List.mem_cons_self)]
    cases said : announced? line with
    | none =>
      rw [said] at illegible
      exact ih illegible false length
    | some announced =>
      rw [said, Option.toList_some, List.singleton_append, List.find?_cons] at illegible
      cases read : Decimal.read? announced with
      | none =>
        simp only [read, Option.isNone_none, Option.some.injEq] at illegible
        simp only [read, ← illegible]
      | some size =>
        simp only [read, Option.isNone_some] at illegible
        simp only [read]
        exact ih illegible false (some size)

/-- Headers and an empty line, and what stands behind them. -/
def block (lines : List (List Char)) (returns : Nat) (rest : Bytes) : Bytes :=
  lines.flatMap Utf8.encode ++ (Utf8.encode (emptyLine returns) ++ rest)

theorem exists_fuel (returns : Nat) (rest : Bytes) :
    ∃ fuel, (block lines returns rest).length + 1 = lines.length + (fuel + 1) := by
  have some := length_le_encode headers
  refine ⟨(block lines returns rest).length - lines.length, ?_⟩
  simp only [block, List.length_append]
  omega

theorem read_block (legible : ∀ value ∈ lengths lines, (Decimal.read? value).isSome = true)
    {returns : Nat} (short : returns < maxLine) (rest : Bytes) :
    read (block lines returns rest) =
      readBody ((lengths lines).getLast?.bind Decimal.read?) rest := by
  have last : (lengths lines).foldl (fun _ value => Decimal.read? value) none =
      (lengths lines).getLast?.bind Decimal.read? := by
    induction lengths lines using List.reverseRecOn with
    | nil => rfl
    | append_singleton values value _ => simp
  obtain ⟨fuel, enough⟩ := exists_fuel headers returns rest
  obtain ⟨first, passed⟩ := readFrom_headers headers legible (fuel + 1) true none
    (Utf8.encode (emptyLine returns) ++ rest)
  rw [read, enough, block, passed, readFrom_line (isLine_emptyLine short), readHeader_emptyLine,
    last]

/-- What is announced decides what is read behind the headers. -/
theorem read_of_announces {size : Nat} (announced : Announces lines size) {returns : Nat}
    (short : returns < maxLine) (rest : Bytes) :
    read (block lines returns rest) = readBody (some size) rest := by
  rw [read_block headers announced.legible short rest, announced.last]

theorem read_of_silent (silent : lengths lines = []) {returns : Nat} (short : returns < maxLine)
    (rest : Bytes) : read (block lines returns rest) = (.fault .missingLength, rest) := by
  rw [read_block headers (by simp [silent]) short rest, silent]
  rfl

theorem read_block_illegible {value : List Char}
    (illegible : (lengths lines).find? (fun v => (Decimal.read? v).isNone) = some value)
    (returns : Nat) (rest : Bytes) :
    (read (block lines returns rest)).1 = .fault (.invalidLength value) := by
  obtain ⟨fuel, enough⟩ := exists_fuel headers returns rest
  rw [read, enough]
  exact readFrom_illegible headers illegible (fuel + 1) true none _

end Headers

/-- An announcement counts, or one is no number, or there is none. -/
theorem announces_or (lines : List (List Char)) : (∃ size, Announces lines size) ∨
    (∃ value, (lengths lines).find? (fun v => (Decimal.read? v).isNone) = some value) ∨
    lengths lines = [] := by
  cases found : (lengths lines).find? (fun v => (Decimal.read? v).isNone) with
  | some value => exact .inr (.inl ⟨value, rfl⟩)
  | none =>
    have legible : ∀ value ∈ lengths lines, (Decimal.read? value).isSome = true := by
      intro value among
      have := List.find?_eq_none.mp found value among
      simpa [Option.isSome_iff_ne_none] using this
    cases last : (lengths lines).getLast? with
    | none => exact .inr (.inr (List.getLast?_eq_none_iff.mp last))
    | some value =>
      obtain ⟨size, read⟩ := Option.isSome_iff_exists.mp
        (legible value (List.mem_of_getLast? last))
      exact .inl ⟨size, legible, by rw [last]; exact read⟩

end Frame

open LinkedViews.Frame

namespace FramedChannel

/-- Behind a block of headers a body is received exactly if a length is announced, every announcement
is a number, and the last is neither beyond the limit nor beyond what is there; the body is as long
as that, and what follows it stays. Otherwise the first announcement that is no number is to blame,
or that there is none, or that the last is too large, with nothing taken of what stands behind the
headers. -/
theorem receive_block {lines : List (List Char)} (headers : ∀ line ∈ lines, IsHeader line)
    {returns : Nat} (short : returns < maxLine) (rest : Bytes) :
    let received := receive ⟨block lines returns rest, true⟩
    (∀ body left, received = (.ok (some body), left) ↔ ∃ size, Announces lines size ∧
      size ≤ maxBody ∧ size ≤ rest.length ∧ body = rest.take size ∧ left = ⟨rest.drop size, true⟩) ∧
    (∀ value, (lengths lines).find? (fun v => (Decimal.read? v).isNone) = some value →
      received.1 = .error (.frame (.invalidLength value))) ∧
    (lengths lines = [] → received = (.error (.frame .missingLength), ⟨rest, true⟩)) ∧
    (∀ size, Announces lines size → maxBody < size →
      received = (.error (.frame (.tooLarge size)), ⟨rest, true⟩)) ∧
    ∀ size, Announces lines size → size ≤ maxBody → rest.length < size →
      received = (.error (.frame .shortBody), ⟨[], true⟩) := by
  intro received
  have illegible {value : List Char}
      (found : (lengths lines).find? (fun v => (Decimal.read? v).isNone) = some value) :
      received.1 = .error (.frame (.invalidLength value)) := by
    have first := read_block_illegible headers found returns rest
    exact congrArg Prod.fst (receive_of_fault (Prod.ext first rfl))
  have missing (silent : lengths lines = []) :
      received = (.error (.frame .missingLength), ⟨rest, true⟩) := by
    apply receive_of_fault
    exact read_of_silent headers silent short rest
  have large {size : Nat} (said : Announces lines size) (beyond : maxBody < size) :
      received = (.error (.frame (.tooLarge size)), ⟨rest, true⟩) := by
    apply receive_of_fault
    rw [read_of_announces headers said short, readBody, if_pos beyond]
  have early {size : Nat} (said : Announces lines size) (within : size ≤ maxBody)
      (ended : rest.length < size) :
      received = (.error (.frame .shortBody), ⟨[], true⟩) := by
    apply receive_of_fault
    rw [read_of_announces headers said short, readBody_of_short within ended]
  have whole {size : Nat} (said : Announces lines size) (within : size ≤ maxBody)
      (enough : size ≤ rest.length) :
      received = (.ok (some (rest.take size)), ⟨rest.drop size, true⟩) := by
    apply receive_of_body
    rw [read_of_announces headers said short, readBody_of_enough within enough]
  refine ⟨fun body left => ⟨fun result => ?_, ?_⟩, fun _ => illegible, missing, fun _ => large,
    fun _ => early⟩
  · rcases announces_or lines with ⟨size, said⟩ | ⟨value, found⟩ | silent
    · by_cases beyond : maxBody < size
      · exact absurd (result.symm.trans (large said beyond)) (by simp)
      by_cases ended : rest.length < size
      · exact absurd (result.symm.trans (early said (Nat.le_of_not_lt beyond) ended)) (by simp)
      have within := Nat.le_of_not_lt beyond
      have enough := Nat.le_of_not_lt ended
      obtain ⟨same, same'⟩ := Prod.mk.inj (result.symm.trans (whole said within enough))
      exact ⟨size, said, within, enough, Option.some.inj (Except.ok.inj same), same'⟩
    · exact absurd ((congrArg Prod.fst result).symm.trans (illegible found)) (by simp)
    · exact absurd (result.symm.trans (missing silent)) (by simp)
  · rintro ⟨size, said, within, enough, rfl, rfl⟩
    exact whole said within enough

namespace Sample

def lines : List (List Char) :=
  ["CONTENT-Length\t:\u00A007\r\r".toList ++ ['\n'], "α:content-length:β".toList ++ ['\n'],
    "\u2003content-length:+3 \r".toList ++ ['\n']]

theorem sample_block_received : (∀ line ∈ lines, IsHeader line) ∧ 2 < maxLine ∧
    receive ⟨block lines 2 [0x0D, 0x0A, 0xFF, 0x7D], true⟩ =
      (.ok (some [0x0D, 0x0A, 0xFF]), ⟨[0x7D], true⟩) := by
  have headers : ∀ line ∈ lines, IsHeader line := by
    intro line among
    simp only [lines, List.mem_cons, List.not_mem_nil, or_false] at among
    rcases among with rfl | rfl | rfl
    · exact ⟨⟨⟨_, rfl, by decide⟩, by decide⟩, by decide⟩
    · exact ⟨⟨⟨_, rfl, by decide⟩, by decide⟩, by decide⟩
    · exact ⟨⟨⟨_, rfl, by decide⟩, by decide⟩, by decide⟩
  have announced : Announces lines 3 := ⟨by decide, by decide⟩
  refine ⟨headers, by decide, ?_⟩
  have short : 2 < maxLine := by decide
  apply ((receive_block headers short [0x0D, 0x0A, 0xFF, 0x7D]).1 _ _).mpr
  exact ⟨3, announced, by decide, by decide, rfl, rfl⟩

end Sample

end FramedChannel

end LinkedViews
