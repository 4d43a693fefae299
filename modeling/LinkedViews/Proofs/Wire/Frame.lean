import LinkedViews.Proofs.Wire.Grammar

/-! What is framed is read again. A stream of frames yields their bodies one by one, in order, and
then its end; nothing in a body is taken for a header. -/
namespace LinkedViews

open Text

namespace Frame

def headerLine (text : List Char) : List Char := text ++ ['\r', '\n']

theorem isLine_headerLine {text : List Char} (ascii : Utf8.IsAscii text) (whole : '\n' ∉ text)
    (short : text.length + 1 < maxLine) : IsLine (headerLine text) where
  ended := ⟨text ++ ['\r'], by simp [headerLine], by simp [whole]⟩
  short := by
    have ascii' : Utf8.IsAscii (headerLine text) := ascii.append (by decide)
    rw [Utf8.encode_ascii ascii', List.length_map, headerLine, List.length_append]
    exact short

/-- The name of the one header that counts, as it is written. -/
def writtenName : List Char := "Content-Length".toList

theorem writtenName_eq : writtenName =
    ['C', 'o', 'n', 't', 'e', 'n', 't', '-', 'L', 'e', 'n', 'g', 't', 'h'] := rfl

/-- What announces a body. -/
def lengthLine (size : Nat) : List Char := writtenName ++ ':' :: ' ' :: Decimal.digits size

theorem isBlank_of_isDigit {c : Char} (digit : Decimal.isDigit c = true) : isBlank c = false := by
  simp only [Decimal.isDigit, Bool.and_eq_true, decide_eq_true_eq] at digit
  have low : '0'.toNat ≤ c.toNat := digit.1
  have high : c.toNat ≤ '9'.toNat := digit.2
  simp at low high
  simp [isBlank]
  omega

theorem trim_digits (size : Nat) : trim (' ' :: Decimal.digits size) = Decimal.digits size := by
  have shown {c : Char} (member : c ∈ Decimal.digits size) : isBlank c = false :=
    isBlank_of_isDigit (Decimal.isDigit_of_mem_digits member)
  have start : trimStart (' ' :: Decimal.digits size) = Decimal.digits size := by
    rw [trimStart, List.dropWhile_cons_of_pos (by decide)]
    exact dropWhile_of_head fun c first => shown (List.mem_of_mem_head? first)
  rw [trim, start, dropEndWhile_of_last fun c last => shown (List.mem_of_mem_getLast? last)]

theorem isAscii_lengthLine (size : Nat) :
    Utf8.IsAscii (lengthLine size) ∧ '\n' ∉ lengthLine size := by
  have digits : '\n' ∉ Decimal.digits size := by
    intro member
    have := Decimal.isDigit_of_mem_digits member
    revert this
    decide
  rw [lengthLine, writtenName_eq, List.append_cons, List.append_cons]
  constructor
  · exact Utf8.IsAscii.append (by decide) (Utf8.isAscii_of_digits size)
  · simp [digits]

theorem isHeader_lengthLine {size : Nat} (small : size ≤ maxBody) :
    IsHeader (headerLine (lengthLine size)) where
  toIsLine := by
    have digits : (Decimal.digits size).length ≤ 8 :=
      Decimal.length_digits_le (k := 7) (Nat.lt_of_le_of_lt small (by decide))
    apply isLine_headerLine (isAscii_lengthLine size).1 (isAscii_lengthLine size).2
    rw [lengthLine, writtenName_eq]
    simp [maxLine]
    omega
  colon := by simp [headerLine, lengthLine]

theorem announced?_lengthLine (size : Nat) :
    announced? (headerLine (lengthLine size)) = some (Decimal.digits size) := by
  have parts : headerLine (lengthLine size) =
      writtenName ++ ':' :: (' ' :: Decimal.digits size ++ ['\r', '\n']) := by
    simp [headerLine, lengthLine]
  have apart : ':' ∉ writtenName := by
    rw [writtenName_eq]
    decide
  have named : (trim writtenName).map lower = lengthName := rfl
  have blank : ∀ c ∈ ['\r', '\n'], isBlank c = true := by simp [isBlank]
  have value : trim (' ' :: Decimal.digits size ++ ['\r', '\n']) = Decimal.digits size := by
    rw [trim_append_of_blank blank, trim_digits]
  rw [announced?, parts, cut_append_cons apart]
  simp only [if_pos named, value]

theorem announces_lengthLine {size : Nat} (small : size ≤ maxBody) :
    Announces [headerLine (lengthLine size)] size := by
  have word : size ≤ Decimal.maxWord := Nat.le_trans small (by decide)
  have only : lengths [headerLine (lengthLine size)] = [Decimal.digits size] := by
    rw [lengths_cons, announced?_lengthLine]
    rfl
  constructor
  · simp [only, Decimal.read?_digits word]
  · simp [only, Decimal.read?_digits word]

/-- A frame has one header. -/
theorem encode_append (body rest : Bytes) : encode body ++ rest =
    block [headerLine (lengthLine body.length)] 1 (body ++ rest) := by
  have spaced : "Content-Length: ".toList = writtenName ++ [':', ' '] := rfl
  simp [encode, block, spaced, headerLine, lengthLine, emptyLine]

/-- A frame is read as its body, and nothing behind it is touched. -/
theorem read_encode {body : Bytes} (small : body.length ≤ maxBody) (rest : Bytes) :
    read (encode body ++ rest) = (.body body, rest) := by
  have headers : ∀ line ∈ [headerLine (lengthLine body.length)], IsHeader line := by
    intro line only
    rw [List.mem_singleton.mp only]
    exact isHeader_lengthLine small
  have ending : 1 < maxLine := by decide
  rw [encode_append, read_of_announces headers (announces_lengthLine small) ending,
    readBody_of_enough small (by simp), List.take_left, List.drop_left]

theorem read_nil : read [] = (.done, []) := by decide

end Frame

namespace FramedChannel

theorem receive_encode {body : Bytes} (small : body.length ≤ Frame.maxBody) (rest : Bytes) :
    receive ⟨Frame.encode body ++ rest, true⟩ = (.ok (some body), ⟨rest, true⟩) :=
  receive_of_body (Frame.read_encode small rest)

theorem receive_nil : receive ⟨[], true⟩ = (.ok none, ⟨[], true⟩) := by
  simp [receive, Frame.read_nil]

/-- What `n` receives in a row yield, and what they leave. -/
def receiveMany : Nat → FramedChannel → List Reception × FramedChannel
  | 0, c => ([], c)
  | n + 1, c =>
    let (reception, c) := c.receive
    let (receptions, c) := receiveMany n c
    (reception :: receptions, c)

/-- As many receives as there are frames yield their bodies in order and take nothing of what stands
behind the frames; if nothing does, the next receive finds the end of the stream. -/
theorem receives_what_was_framed {bodies : List Bytes}
    (small : ∀ body ∈ bodies, body.length ≤ Frame.maxBody) (rest : Bytes) :
    let received := receiveMany bodies.length ⟨bodies.flatMap Frame.encode ++ rest, true⟩
    received = (bodies.map fun body => .ok (some body), ⟨rest, true⟩) ∧
      (rest = [] → received.2.receive.1 = .ok none) := by
  intro received
  have all : received = (bodies.map fun body => .ok (some body), ⟨rest, true⟩) := by
    induction bodies with
    | nil => rfl
    | cons body bodies ih =>
      have later := ih fun b member => small b (List.mem_cons_of_mem _ member)
      have first := receive_encode (small body List.mem_cons_self)
        (bodies.flatMap Frame.encode ++ rest)
      simp only [received, List.length_cons, List.flatMap_cons, List.append_assoc, receiveMany,
        first, later, List.map_cons]
  refine ⟨all, fun ended => ?_⟩
  rw [all, ended, receive_nil]

namespace Sample

/-- Nothing at all, what looks like a header, line ends, and bytes that are no text. -/
def bodies : List Bytes :=
  [[], Utf8.encode "Content-Length: 7\r\n\r\n".toList, [0x0D, 0x0A, 0x0D, 0x0A], [0xFF, 0xC0, 0x80]]

/-- The beginning of one more header. -/
def rest : Bytes := Utf8.encode "Content-".toList

theorem sample_receives : (∀ body ∈ bodies, body.length ≤ Frame.maxBody) ∧
    receiveMany 4 ⟨bodies.flatMap Frame.encode ++ rest, true⟩ =
      (bodies.map fun body => .ok (some body), ⟨rest, true⟩) ∧
    (receiveMany 4 ⟨bodies.flatMap Frame.encode ++ [], true⟩).2.receive.1 = .ok none := by
  have small : ∀ body ∈ bodies, body.length ≤ Frame.maxBody := by decide
  exact ⟨small, (receives_what_was_framed small rest).1, (receives_what_was_framed small []).2 rfl⟩

end Sample

end FramedChannel

namespace Channel

/-- What is still to be received, up to the end or the first failure. -/
def bodies (c : Channel) : List Bytes :=
  match _ : c.receive with
  | (.ok (some body), rest) => body :: rest.bodies
  | _ => []
termination_by c.size
decreasing_by exact size_receive_lt ‹_›

theorem bodies_of_receive {c rest : Channel} {body : Bytes}
    (received : c.receive = (.ok (some body), rest)) : c.bodies = body :: rest.bodies := by
  rw [bodies]
  split
  next eq =>
    rw [received] at eq
    obtain ⟨first, rfl⟩ := Prod.mk.inj eq
    rw [Option.some.inj (Except.ok.inj first)]
  next other => exact absurd received (other _ _)

theorem bodies_of_end {c : Channel} (ended : ∀ body rest, c.receive ≠ (.ok (some body), rest)) :
    c.bodies = [] := by
  rw [bodies]
  split
  next eq => exact absurd eq (ended _ _)
  next => rfl

/-- A stream of frames brings their bodies, in order, and nothing else. -/
theorem bodies_framed {bodies : List Bytes} (small : ∀ body ∈ bodies, body.length ≤ Frame.maxBody) :
    (Channel.framed ⟨bodies.flatMap Frame.encode, true⟩).bodies = bodies := by
  induction bodies with
  | nil =>
    refine bodies_of_end fun body rest received => ?_
    simp [receive, FramedChannel.receive_nil] at received
  | cons body rest ih =>
    have first := FramedChannel.receive_encode (small body List.mem_cons_self)
      (rest.flatMap Frame.encode)
    have received : (Channel.framed ⟨(body :: rest).flatMap Frame.encode, true⟩).receive =
        (.ok (some body), .framed ⟨rest.flatMap Frame.encode, true⟩) := by
      simp only [receive, List.flatMap_cons, first]
    rw [bodies_of_receive received, ih fun b later => small b (List.mem_cons_of_mem _ later)]

end Channel

end LinkedViews
