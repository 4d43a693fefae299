import LinkedViews.Proofs.Text.Ascii
import LinkedViews.Proofs.Wire.Line

/-! Lines beyond the limit. Only as many bytes of a line are taken as the limit allows, and they are
looked at as text first. So a character across the limit makes the line no text, and only a line that
has a character end there is known to be too long. -/
namespace LinkedViews

namespace Utf8

/-- Some characters from the start of a text take up just this many bytes. -/
def IsBoundary (text : List Char) (n : Nat) : Prop :=
  ∃ front, front <+: text ∧ (encode front).length = n

theorem isBoundary_append {front : List Char} {n : Nat} (filled : (encode front).length = n)
    (back : List Char) : IsBoundary (front ++ back) n := ⟨front, ⟨back, rfl⟩, filled⟩

theorem take_of_isBoundary {text : List Char} {n : Nat} (boundary : IsBoundary text n) :
    ∃ front, (encode text).take n = encode front := by
  obtain ⟨front, ⟨back, rfl⟩, rfl⟩ := boundary
  exact ⟨front, by rw [encode_append, List.take_left]⟩

/-- Where no character ends, there is one that goes across. -/
theorem cut_of_not_isBoundary {text : List Char} {n : Nat} (long : n ≤ (encode text).length)
    (inside : ¬IsBoundary text n) : ∃ front c back, text = front ++ c :: back ∧
      (encode front).length < n ∧ n < (encode (front ++ [c])).length ∧
      decode ((encode text).take n) = .error ⟨(encode front).length, none⟩ := by
  obtain ⟨front, back, rfl, taken⟩ := take_encode text long
  have filled : ((encode (front ++ back)).take n).length = n := List.length_take_of_le long
  rcases taken with whole | ⟨c, later, k, rfl, begun, cut, split⟩
  · rw [whole] at filled
    exact absurd (isBoundary_append filled back) inside
  · have upTo : (encode front).length + k = n := by
      rw [split, List.length_append, List.length_take_of_le (Nat.le_of_lt cut)] at filled
      exact filled
    refine ⟨front, c, later, rfl, by omega, ?_, ?_⟩
    · simp only [encode_append, encode_cons, List.length_append]
      omega
    · rw [split]
      exact decode_cut front c begun cut

end Utf8

namespace Frame

/-- Faults in the framing itself. The others are a body beyond the limit, or of the stream. -/
def Fault.isFraming : Fault → Bool
  | lineTooLong | endInHeader | malformedHeader _ | invalidLength _ | missingLength => true
  | tooLarge _ | notText _ | shortBody => false

theorem maxLine_pos : 0 < maxLine := by decide

/-- Bytes in reach without a line feed are a line, and when that is refused they are gone. -/
theorem read_of_checkLine {stream : Bytes} {fault : Fault} (free : 0x0A ∉ stream.take maxLine)
    (more : stream ≠ []) (refused : checkLine (stream.take maxLine) = .error fault) :
    read stream = (.fault fault, stream.drop maxLine) := by
  have taken := takeLine_of_free free
  have some : stream.take maxLine ≠ [] := by
    intro nothing
    rcases List.take_eq_nil_iff.mp nothing with zero | empty
    · exact absurd zero (Nat.ne_of_gt maxLine_pos)
    · exact more empty
  rw [read, readFrom]
  simp only [taken, if_neg some, refused]

theorem checkLine_of_text {text : List Char} (full : (Utf8.encode text).length = maxLine)
    (free : 0x0A ∉ Utf8.encode text) : checkLine (Utf8.encode text) = .error .lineTooLong := by
  have last : (Utf8.encode text).getLast? ≠ some 0x0A := fun last =>
    free (List.mem_of_getLast? last)
  simp only [checkLine, Utf8.decode_encode]
  apply if_pos
  exact ⟨full, last⟩

theorem checkLine_of_fault {line : Bytes} {fault : Utf8.Fault}
    (broken : Utf8.decode line = .error fault) : checkLine line = .error (.notText fault) := by
  simp only [checkLine, broken]

/-- A line feed at the end of a long line is out of reach. -/
theorem lineFeed_not_mem_take {text : List Char} (whole : '\n' ∉ text.dropLast)
    (long : maxLine < (Utf8.encode text).length) : 0x0A ∉ (Utf8.encode text).take maxLine := by
  have nonempty : text ≠ [] := by
    rintro rfl
    exact absurd long (Nat.not_lt_zero _)
  obtain ⟨front, last, rfl⟩ : ∃ front last, text = front ++ [last] :=
    ⟨_, _, (List.dropLast_concat_getLast nonempty).symm⟩
  rw [List.dropLast_concat] at whole
  by_cases ends : last = '\n'
  · have reach : maxLine ≤ (Utf8.encode front).length := by
      simp [ends, Utf8.encodeChar] at long
      exact long
    rw [Utf8.encode_append, List.take_append_of_le_length reach]
    exact fun member => Utf8.lineFeed_not_mem_encode whole (List.mem_of_mem_take member)
  · have none : '\n' ∉ front ++ [last] := by simp [whole, Ne.symm ends]
    exact fun member => Utf8.lineFeed_not_mem_encode none (List.mem_of_mem_take member)

section Long

variable {text : List Char} (whole : '\n' ∉ text.dropLast)
  (long : maxLine < (Utf8.encode text).length) (rest : Bytes)

include long

theorem take_append_rest :
    (Utf8.encode text ++ rest).take maxLine = (Utf8.encode text).take maxLine :=
  List.take_append_of_le_length (Nat.le_of_lt long)

include whole

theorem read_of_refused {fault : Fault}
    (refused : checkLine ((Utf8.encode text).take maxLine) = .error fault) :
    read (Utf8.encode text ++ rest) =
      (.fault fault, (Utf8.encode text ++ rest).drop maxLine) := by
  have same := take_append_rest long rest
  apply read_of_checkLine
  · rw [same]
    exact lineFeed_not_mem_take whole long
  · intro empty
    rw [(List.append_eq_nil_iff.mp empty).1] at long
    exact absurd long (Nat.not_lt_zero _)
  · rw [same]
    exact refused

theorem read_of_isBoundary (boundary : Utf8.IsBoundary text maxLine) :
    read (Utf8.encode text ++ rest) =
      (.fault .lineTooLong, (Utf8.encode text ++ rest).drop maxLine) := by
  apply read_of_refused whole long
  have free := lineFeed_not_mem_take whole long
  have full : ((Utf8.encode text).take maxLine).length = maxLine :=
    List.length_take_of_le (Nat.le_of_lt long)
  obtain ⟨front, filled⟩ := Utf8.take_of_isBoundary boundary
  rw [filled] at free full ⊢
  exact checkLine_of_text full free

theorem read_of_not_isBoundary (inside : ¬Utf8.IsBoundary text maxLine) :
    ∃ front c back, text = front ++ c :: back ∧ (Utf8.encode front).length < maxLine ∧
      maxLine < (Utf8.encode (front ++ [c])).length ∧ read (Utf8.encode text ++ rest) =
        (.fault (.notText ⟨(Utf8.encode front).length, none⟩),
          (Utf8.encode text ++ rest).drop maxLine) := by
  obtain ⟨front, c, back, parts, before, beyond, broken⟩ :=
    Utf8.cut_of_not_isBoundary (Nat.le_of_lt long) inside
  refine ⟨front, c, back, parts, before, beyond, ?_⟩
  apply read_of_refused whole long
  exact checkLine_of_fault broken

end Long

theorem of_checkLine_lineTooLong {line : Bytes} (refused : checkLine line = .error .lineTooLong) :
    line.length = maxLine ∧ line.getLast? ≠ some 0x0A := by
  rw [checkLine] at refused
  cases read : Utf8.decode line with
  | error fault => simp [read] at refused
  | ok text =>
    by_cases long : line.length = maxLine ∧ line.getLast? ≠ some 0x0A
    · exact long
    · simp only [read, if_neg long] at refused
      cases refused

theorem of_checkLine_ok {line : Bytes} {text : List Char} (checked : checkLine line = .ok text)
    (full : line.length = maxLine) : line.getLast? = some 0x0A := by
  rw [checkLine] at checked
  cases read : Utf8.decode line with
  | error fault => simp [read] at checked
  | ok decoded =>
    by_contra unended
    simp only [read, if_pos (And.intro full unended)] at checked
    cases checked

theorem readHeader_ne_lineTooLong (text : List Char) : readHeader text ≠ .error .lineTooLong := by
  simp only [readHeader]
  grind

theorem readBody_ne_lineTooLong (length : Option Nat) (input : Bytes) :
    (readBody length input).1 ≠ .fault .lineTooLong := by
  simp only [readBody]
  grind

section Round

variable {fuel : Nat} {first : Bool} {length : Option Nat} {stream line rest left : Bytes}
  (taken : takeLine maxLine stream = (line, rest))

include taken

/-- A round refuses its line as too long, or passes over it and a later round refuses. -/
theorem of_readFrom_lineTooLong
    (refused : readFrom (fuel + 1) first length stream = (.fault .lineTooLong, left)) :
    (checkLine line = .error .lineTooLong ∧ left = rest) ∨
    ∃ text length', checkLine line = .ok text ∧
      readFrom fuel false length' rest = (.fault .lineTooLong, left) := by
  by_cases nothing : line = []
  · rw [readFrom_of_no_line taken fuel first length nothing] at refused
    cases first <;> cases refused
  rcases readFrom_of_line taken fuel first length nothing with
    ⟨fault, checked, eq⟩ | ⟨text, checked, ⟨fault, said, eq⟩ | eq | ⟨length', eq⟩⟩ <;>
    rw [eq] at refused
  · obtain ⟨same, rfl⟩ := Prod.mk.inj refused
    obtain rfl := Outcome.fault.inj same
    exact .inl ⟨checked, rfl⟩
  · obtain rfl := Outcome.fault.inj (Prod.mk.inj refused).1
    exact absurd said (readHeader_ne_lineTooLong text)
  · exact absurd (congrArg Prod.fst refused) (readBody_ne_lineTooLong length rest)
  · exact .inr ⟨text, length', checked, refused⟩

/-- A line that is passed over has its line feed, unless nothing follows it. -/
theorem isEnded_of_checkLine {text : List Char} (checked : checkLine line = .ok text) (more : rest ≠ []) :
    IsEnded line := by
  obtain ⟨-, -, ended | ⟨free, full | empty⟩⟩ := of_takeLine taken
  · exact ended
  · exact absurd (List.mem_of_getLast? (of_checkLine_ok checked full)) free
  · exact absurd empty more

/-- What is refused at once has no line feed in reach. -/
theorem free_of_checkLine (refused : checkLine line = .error .lineTooLong) :
    line = stream.take maxLine ∧ 0x0A ∉ line ∧ rest = stream.drop maxLine := by
  obtain ⟨full, unended⟩ := of_checkLine_lineTooLong refused
  obtain ⟨rfl, -, shape⟩ := of_takeLine taken
  refine ⟨by rw [← full, List.take_left], ?_, by rw [← full, List.drop_left]⟩
  rcases shape with ⟨text, rfl, -⟩ | ⟨free, -⟩
  · exact absurd List.getLast?_concat unended
  · exact free

end Round

/-- Lines within the limit, and behind them no line feed in reach although the limit is reached. -/
structure Overlong (stream : Bytes) (lines : List Bytes) (tail : Bytes) : Prop where
  parts : stream = lines.flatten ++ tail
  within : ∀ line ∈ lines, IsEnded line ∧ line.length ≤ maxLine
  long : maxLine ≤ tail.length
  free : 0x0A ∉ tail.take maxLine

theorem Overlong.ne_nil {stream tail : Bytes} {lines : List Bytes}
    (overlong : Overlong stream lines tail) : stream ≠ [] := by
  rintro rfl
  have empty := (List.append_eq_nil_iff.mp overlong.parts.symm).2
  have long := overlong.long
  rw [empty] at long
  exact absurd long (Nat.not_le.mpr maxLine_pos)

theorem Overlong.cons {line rest tail : Bytes} {lines : List Bytes}
    (later : Overlong rest lines tail) (ended : IsEnded line) (short : line.length ≤ maxLine) :
    Overlong (line ++ rest) (line :: lines) tail where
  parts := by rw [later.parts, List.flatten_cons, List.append_assoc]
  within := by
    rintro other (_ | ⟨_, among⟩)
    · exact ⟨ended, short⟩
    · exact later.within other among
  long := later.long
  free := later.free

/-- By induction on the rounds: each one before the last takes a line within the limit away. -/
theorem overlong_of_readFrom {fuel : Nat} {first : Bool} {length : Option Nat}
    {stream left : Bytes}
    (refused : readFrom fuel first length stream = (.fault .lineTooLong, left)) :
    ∃ lines tail, Overlong stream lines tail ∧ left = tail.drop maxLine := by
  induction fuel generalizing first length stream with
  | zero => cases refused
  | succ fuel ih =>
    obtain ⟨line, rest, taken⟩ : ∃ line rest, takeLine maxLine stream = (line, rest) := ⟨_, _, rfl⟩
    rcases of_readFrom_lineTooLong taken refused with ⟨now, rfl⟩ | ⟨text, length', checked, later⟩
    · obtain ⟨full, -⟩ := of_checkLine_lineTooLong now
      obtain ⟨rfl, free, same⟩ := free_of_checkLine taken now
      rw [List.length_take] at full
      exact ⟨[], stream, ⟨rfl, by simp, by omega, free⟩, same⟩
    · obtain ⟨lines, tail, overlong, same⟩ := ih later
      have ended := isEnded_of_checkLine taken checked overlong.ne_nil
      obtain ⟨rfl, short, -⟩ := of_takeLine taken
      exact ⟨line :: lines, tail, overlong.cons ended short, same⟩

end Frame

open LinkedViews.Frame

namespace FramedChannel

/-- A line beyond the limit is a fault of framing exactly if a character ends at the limit: then it is
too long, and otherwise it is no text, from the character on that goes across. Either way no more is
gone than the limit. And what is ever refused as too long has no line feed in reach: it is longer than
the limit, or it has no line feed and ends there. -/
theorem long_line_refused (stream : Bytes) :
    let received := receive ⟨stream, true⟩
    (∀ text rest, stream = Utf8.encode text ++ rest → '\n' ∉ text.dropLast →
      maxLine < (Utf8.encode text).length →
      received.2 = ⟨stream.drop maxLine, true⟩ ∧
      ((∃ fault, received.1 = .error (.frame fault) ∧ fault.isFraming = true) ↔
        Utf8.IsBoundary text maxLine) ∧
      (Utf8.IsBoundary text maxLine → received.1 = .error (.frame .lineTooLong)) ∧
      (¬Utf8.IsBoundary text maxLine → ∃ front c back, text = front ++ c :: back ∧
        (Utf8.encode front).length < maxLine ∧ maxLine < (Utf8.encode (front ++ [c])).length ∧
        received.1 = .error (.frame (.notText ⟨(Utf8.encode front).length, none⟩)))) ∧
    ∀ left, received = (.error (.frame .lineTooLong), left) →
      ∃ lines tail, Overlong stream lines tail ∧ left = ⟨tail.drop maxLine, true⟩ := by
  intro received
  constructor
  · rintro text rest rfl whole long
    by_cases boundary : Utf8.IsBoundary text maxLine
    · have result : received = (.error (.frame .lineTooLong), ⟨_, true⟩) :=
        receive_of_fault (read_of_isBoundary whole long rest boundary)
      simp [result, boundary, Fault.isFraming]
    · obtain ⟨front, c, back, parts, before, beyond, read⟩ :=
        read_of_not_isBoundary whole long rest boundary
      have result : received = (.error (.frame (.notText ⟨(Utf8.encode front).length, none⟩)),
          ⟨_, true⟩) := receive_of_fault read
      have other : ¬∃ fault, received.1 = .error (.frame fault) ∧ fault.isFraming = true := by
        rintro ⟨fault, same, framing⟩
        rw [result] at same
        obtain rfl := ChannelFault.frame.inj (Except.error.inj same)
        exact Bool.false_ne_true framing
      refine ⟨congrArg Prod.snd result, iff_of_false other boundary, fun ends => absurd ends boundary,
        fun _ => ⟨front, c, back, parts, before, beyond, congrArg Prod.fst result⟩⟩
  · intro left refused
    obtain ⟨unread, read, rfl⟩ := fault_of_receive refused
    obtain ⟨lines, tail, overlong, rfl⟩ := overlong_of_readFrom read
    exact ⟨lines, tail, overlong, rfl⟩

namespace Sample

/-- A line that begins with so many letters. -/
def filled (n : Nat) (text : List Char) : List Char := List.replicate n 'a' ++ text

theorem encode_filled (n : Nat) (text : List Char) :
    Utf8.encode (filled n text) = List.replicate n 0x61 ++ Utf8.encode text := by
  have ascii : Utf8.IsAscii (List.replicate n 'a') := by
    intro c member
    rw [List.eq_of_mem_replicate member]
    decide
  rw [filled, Utf8.encode_append, Utf8.encode_ascii ascii, List.map_replicate]
  rfl

theorem length_encode_filled (n : Nat) (text : List Char) :
    (Utf8.encode (filled n text)).length = n + (Utf8.encode text).length := by
  rw [encode_filled, List.length_append, List.length_replicate]

theorem filled_append (n : Nat) (text more : List Char) :
    filled n text ++ more = filled n (text ++ more) := List.append_assoc _ _ _

theorem lineFeed_not_mem_filled (n : Nat) {text : List Char} (free : '\n' ∉ text) :
    '\n' ∉ filled n text := by
  simp [filled, free]

theorem lineFeed_not_mem_dropLast (n : Nat) {text : List Char} (free : '\n' ∉ text) (last : Char) :
    '\n' ∉ (filled n (text ++ [last])).dropLast := by
  rw [← filled_append, List.dropLast_concat]
  exact lineFeed_not_mem_filled n free

/-- The two bytes of the last letter end at the limit. -/
theorem fitting_letter_too_long :
    let text := filled 8190 (['é'] ++ ['\n'])
    '\n' ∉ text.dropLast ∧ maxLine < (Utf8.encode text).length ∧
    receive ⟨Utf8.encode text ++ [0x7B], true⟩ = (.error (.frame .lineTooLong),
      ⟨(Utf8.encode text ++ [0x7B]).drop maxLine, true⟩) ∧
    ∃ lines tail, Overlong (Utf8.encode text ++ [0x7B]) lines tail := by
  intro text
  have whole : '\n' ∉ text.dropLast := lineFeed_not_mem_dropLast 8190 (by decide) '\n'
  have long : maxLine < (Utf8.encode text).length := by
    rw [length_encode_filled]
    decide
  have boundary : Utf8.IsBoundary text maxLine := by
    have full : (Utf8.encode (filled 8190 ['é'])).length = maxLine := by
      rw [length_encode_filled]
      decide
    have parts : filled 8190 ['é'] ++ ['\n'] = text := filled_append 8190 ['é'] ['\n']
    exact parts ▸ Utf8.isBoundary_append full ['\n']
  have law := long_line_refused (Utf8.encode text ++ [0x7B])
  obtain ⟨left, -, tooLong, -⟩ := law.1 text [0x7B] rfl whole long
  have received : receive ⟨Utf8.encode text ++ [0x7B], true⟩ = (.error (.frame .lineTooLong),
      ⟨(Utf8.encode text ++ [0x7B]).drop maxLine, true⟩) := Prod.ext (tooLong boundary) left
  obtain ⟨lines, tail, overlong, -⟩ := law.2 _ received
  exact ⟨whole, long, received, lines, tail, overlong⟩

/-- The same letter across the limit is not a fault of framing; and the limit itself, at the end of a
stream, is one. -/
theorem crossing_letter_no_framing :
    let text := filled 8191 (['é'] ++ ['\n'])
    ('\n' ∉ text.dropLast ∧ maxLine < (Utf8.encode text).length ∧
      ∃ fault, (receive ⟨Utf8.encode text, true⟩).1 = .error (.frame fault) ∧
        fault = .notText ⟨8191, none⟩ ∧ fault.isFraming = false) ∧
    (Utf8.encode (filled 8192 [])).length = maxLine ∧
      (receive ⟨Utf8.encode (filled 8192 []), true⟩).1 = .error (.frame .lineTooLong) := by
  intro text
  have whole : '\n' ∉ text.dropLast := lineFeed_not_mem_dropLast 8191 (by decide) '\n'
  have long : maxLine < (Utf8.encode text).length := by
    rw [length_encode_filled]
    decide
  have before : (Utf8.encode (filled 8191 [])).length = 8191 := length_encode_filled 8191 []
  have cut : (Utf8.encode text).take maxLine =
      Utf8.encode (filled 8191 []) ++ (Utf8.encodeChar 'é').take 1 := by
    have parts : text = filled 8191 [] ++ ['é', '\n'] := (filled_append 8191 [] _).symm
    have one : maxLine - 8191 = 1 := rfl
    rw [parts, Utf8.encode_append, List.take_append, before, one,
      List.take_of_length_le (by rw [before]; decide)]
    rfl
  have crossing : checkLine ((Utf8.encode text).take maxLine) =
      .error (.notText ⟨8191, none⟩) := by
    apply checkLine_of_fault
    rw [cut, Utf8.decode_cut _ 'é' (by decide) (by decide), before]
  have full : (Utf8.encode (filled 8192 [])).length = maxLine := length_encode_filled 8192 []
  have free : 0x0A ∉ Utf8.encode (filled 8192 []) :=
    Utf8.lineFeed_not_mem_encode (lineFeed_not_mem_filled 8192 (by decide))
  have all : (Utf8.encode (filled 8192 [])).take maxLine = Utf8.encode (filled 8192 []) :=
    List.take_of_length_le (Nat.le_of_eq full)
  have ending : Frame.read (Utf8.encode (filled 8192 [])) =
      (.fault .lineTooLong, (Utf8.encode (filled 8192 [])).drop maxLine) := by
    apply read_of_checkLine
    · rwa [all]
    · intro empty
      rw [empty] at full
      exact absurd full (by decide)
    · rw [all]
      exact checkLine_of_text full free
  have read := read_of_refused whole long [] crossing
  rw [List.append_nil] at read
  refine ⟨⟨whole, long, _, congrArg Prod.fst (receive_of_fault read), rfl, rfl⟩, full, ?_⟩
  exact congrArg Prod.fst (receive_of_fault ending)

end Sample

end FramedChannel

end LinkedViews
