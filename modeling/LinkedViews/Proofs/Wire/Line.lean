import LinkedViews.Proofs.Text.Utf8
import LinkedViews.Wire.Channel

/-! Header lines on a stream. A line of text is taken up to its line feed if the limit reaches that
far, whatever characters it is made of, and then it says what it says as text. -/
namespace LinkedViews

namespace Frame

open Text

/-- A line is cut off behind its line feed, if it is short enough. -/
theorem takeLine_append {limit : Nat} {line : Bytes} (whole : 0x0A ∉ line)
    (short : line.length < limit) (rest : Bytes) :
    takeLine limit (line ++ 0x0A :: rest) = (line ++ [0x0A], rest) := by
  induction line generalizing limit with
  | nil =>
    obtain ⟨limit, rfl⟩ := Nat.exists_eq_succ_of_ne_zero (Nat.ne_of_gt short)
    simp [takeLine]
  | cons b line ih =>
    simp only [List.mem_cons, not_or] at whole
    obtain ⟨limit, rfl⟩ := Nat.exists_eq_succ_of_ne_zero (Nat.ne_of_gt (Nat.zero_lt_of_lt short))
    have later := ih whole.2 (Nat.lt_of_succ_lt_succ short)
    simp [takeLine, Ne.symm whole.1, later]

/-- Where no line feed is in reach, as much is taken as the limit allows. -/
theorem takeLine_of_free {limit : Nat} {input : Bytes} (free : 0x0A ∉ input.take limit) :
    takeLine limit input = (input.take limit, input.drop limit) := by
  induction limit generalizing input with
  | zero => simp [takeLine]
  | succ limit ih =>
    cases input with
    | nil => simp [takeLine]
    | cons b rest =>
      simp only [List.take_succ_cons, List.mem_cons, not_or] at free
      have later := ih free.2
      simp [takeLine, Ne.symm free.1, later]

/-- Bytes up to a line feed, which is their only one. -/
def IsEnded (line : Bytes) : Prop := ∃ text, line = text ++ [0x0A] ∧ 0x0A ∉ text

/-- A line is taken whole, or it has no line feed in reach and goes on to the limit or to the end. -/
theorem of_takeLine {limit : Nat} {input line rest : Bytes}
    (taken : takeLine limit input = (line, rest)) : input = line ++ rest ∧ line.length ≤ limit ∧
      (IsEnded line ∨ 0x0A ∉ line ∧ (line.length = limit ∨ rest = [])) := by
  induction limit generalizing input line with
  | zero =>
    obtain ⟨rfl, rfl⟩ := Prod.mk.inj taken
    exact ⟨rfl, Nat.le_refl _, .inr ⟨List.not_mem_nil, .inl rfl⟩⟩
  | succ limit ih =>
    cases input with
    | nil =>
      obtain ⟨rfl, rfl⟩ := Prod.mk.inj taken
      exact ⟨rfl, Nat.zero_le _, .inr ⟨List.not_mem_nil, .inr rfl⟩⟩
    | cons b behind =>
      rw [takeLine] at taken
      by_cases ends : b = 0x0A
      · rw [if_pos ends] at taken
        obtain ⟨rfl, rfl⟩ := Prod.mk.inj taken
        exact ⟨rfl, Nat.succ_le_succ (Nat.zero_le _), .inl ⟨[], by rw [ends]; rfl, by simp⟩⟩
      · rw [if_neg ends] at taken
        obtain ⟨rfl, rfl⟩ := Prod.mk.inj taken
        obtain ⟨whole, short, shape⟩ := ih (Prod.eta (takeLine limit behind)).symm
        refine ⟨congrArg (b :: ·) whole, Nat.succ_le_succ short, ?_⟩
        rcases shape with ⟨text, eq, free⟩ | ⟨free, stops⟩
        · exact .inl ⟨b :: text, by rw [eq]; rfl, by simp [Ne.symm ends, free]⟩
        · refine .inr ⟨by simp [Ne.symm ends, free], ?_⟩
          exact stops.imp_left (congrArg Nat.succ)

section Round

variable {input line rest : Bytes} (taken : takeLine maxLine input = (line, rest)) (fuel : Nat)
  (first : Bool) (length : Option Nat)

include taken

theorem readFrom_of_no_line (none : line = []) : readFrom (fuel + 1) first length input =
    (if first then .done else .fault .endInHeader, rest) := by
  rw [readFrom]
  simp only [taken, if_pos none]

/-- Whatever a round makes of a line, it goes on behind the line: a line that is refused or says
nothing proper is a fault, and any other leads to the body or to the next round. -/
theorem readFrom_of_line (some : line ≠ []) :
    (∃ fault, checkLine line = .error fault ∧
      readFrom (fuel + 1) first length input = (.fault fault, rest)) ∨
    ∃ text, checkLine line = .ok text ∧
      ((∃ fault, readHeader text = .error fault ∧
        readFrom (fuel + 1) first length input = (.fault fault, rest)) ∨
      readFrom (fuel + 1) first length input = readBody length rest ∨
      ∃ length', readFrom (fuel + 1) first length input = readFrom fuel false length' rest) := by
  rw [readFrom]
  simp only [taken, if_neg some]
  cases checkLine line with
  | error fault => exact .inl ⟨fault, rfl, rfl⟩
  | ok text =>
    refine .inr ⟨text, rfl, ?_⟩
    cases said : readHeader text with
    | error fault => exact .inl ⟨fault, rfl, by simp only [said]⟩
    | ok header => cases header with
      | blank => exact .inr (.inl (by simp only [said]))
      | length size => exact .inr (.inr ⟨size, by simp only [said]⟩)
      | other => exact .inr (.inr ⟨length, by simp only [said]⟩)

end Round

/-- A line of text with its line feed, short enough to be taken at once. -/
structure IsLine (line : List Char) : Prop where
  ended : ∃ text, line = text ++ ['\n'] ∧ '\n' ∉ text
  short : (Utf8.encode line).length ≤ maxLine

section Line

variable {line : List Char} (isLine : IsLine line)

include isLine

theorem takeLine_line (rest : Bytes) :
    takeLine maxLine (Utf8.encode line ++ rest) = (Utf8.encode line, rest) := by
  obtain ⟨⟨text, rfl, whole⟩, short⟩ := isLine
  have bytes : Utf8.encode (text ++ ['\n']) = Utf8.encode text ++ [0x0A] := by
    simp [Utf8.encodeChar]
  rw [bytes, List.length_append, List.length_singleton] at short
  rw [bytes, List.append_assoc]
  exact takeLine_append (Utf8.lineFeed_not_mem_encode whole) short rest

theorem checkLine_line : checkLine (Utf8.encode line) = .ok line := by
  obtain ⟨text, rfl, -⟩ := isLine.ended
  have ended : (Utf8.encode (text ++ ['\n'])).getLast? = some 0x0A := by
    simp [Utf8.encodeChar]
  rw [checkLine, Utf8.decode_encode]
  simp [-Utf8.encode_append, ended]

theorem encode_line_ne_nil : Utf8.encode line ≠ [] := by
  obtain ⟨text, rfl, -⟩ := isLine.ended
  simp [Utf8.encodeChar]

theorem readFrom_line (fuel : Nat) (first : Bool) (length : Option Nat) (rest : Bytes) :
    readFrom (fuel + 1) first length (Utf8.encode line ++ rest) =
      match readHeader line with
      | .error fault => (.fault fault, rest)
      | .ok .blank => readBody length rest
      | .ok (.length size) => readFrom fuel false (some size) rest
      | .ok .other => readFrom fuel false length rest := by
  have taken := takeLine_line isLine rest
  have checked := checkLine_line isLine
  have some := encode_line_ne_nil isLine
  rw [readFrom]
  cases said : readHeader line with
  | error fault => simp only [taken, if_neg some, checked, said]
  | ok header => cases header with
    | blank => simp only [taken, if_neg some, checked, said]
    | length size => simp only [taken, if_neg some, checked, said]
    | other => simp only [taken, if_neg some, checked, said]

end Line

theorem readBody_of_enough {size : Nat} {rest : Bytes} (within : size ≤ maxBody)
    (enough : size ≤ rest.length) : readBody (some size) rest =
      (.body (rest.take size), rest.drop size) := by
  simp [readBody, Nat.not_lt.mpr within, List.length_take, enough]

theorem readBody_of_short {size : Nat} {rest : Bytes} (within : size ≤ maxBody)
    (ended : rest.length < size) : readBody (some size) rest = (.fault .shortBody, []) := by
  have short : ¬size ≤ rest.length := Nat.not_le.mpr ended
  simp [readBody, Nat.not_lt.mpr within, List.length_take, short]

end Frame

namespace FramedChannel

variable {unread rest : Bytes}

theorem receive_of_body {body : Bytes} (read : Frame.read unread = (.body body, rest)) :
    receive ⟨unread, true⟩ = (.ok (some body), ⟨rest, true⟩) := by
  simp [receive, read]

theorem receive_of_fault {fault : Frame.Fault} (read : Frame.read unread = (.fault fault, rest)) :
    receive ⟨unread, true⟩ = (.error (.frame fault), ⟨rest, true⟩) := by
  simp [receive, read]

theorem fault_of_receive {fault : Frame.Fault} {left : FramedChannel}
    (received : receive ⟨unread, true⟩ = (.error (.frame fault), left)) :
    ∃ rest, Frame.read unread = (.fault fault, rest) ∧ left = ⟨rest, true⟩ := by
  obtain ⟨outcome, rest, read⟩ : ∃ outcome rest, Frame.read unread = (outcome, rest) := ⟨_, _, rfl⟩
  cases outcome with
  | body body => exact absurd ((receive_of_body read).symm.trans received) (by simp)
  | done => simp [receive, read] at received
  | fault found =>
    obtain ⟨same, rfl⟩ := Prod.mk.inj ((receive_of_fault read).symm.trans received)
    obtain rfl := ChannelFault.frame.inj (Except.error.inj same)
    exact ⟨rest, read, rfl⟩

end FramedChannel

end LinkedViews
