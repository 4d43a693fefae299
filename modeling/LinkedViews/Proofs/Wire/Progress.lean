import LinkedViews.Proofs.Wire.Frame

/-! A stream comes to its end. However its bytes are spoilt, each receive takes some of them away, and
only where there are none does it find the end. So whoever goes on after every fault is done after as
many receives as there are bytes. -/
namespace LinkedViews

namespace Frame

theorem readBody_suffix (length : Option Nat) (input : Bytes) :
    (readBody length input).2 <:+ input := by
  cases length with
  | none => exact List.suffix_refl input
  | some size =>
    by_cases large : maxBody < size
    · simp only [readBody, if_pos large]
      exact List.suffix_refl input
    · by_cases enough : size ≤ input.length
      · rw [readBody_of_enough (Nat.le_of_not_lt large) enough]
        exact List.drop_suffix size input
      · rw [readBody_of_short (Nat.le_of_not_lt large) (Nat.lt_of_not_le enough)]
        exact List.nil_suffix

theorem readBody_ne_done (length : Option Nat) (input : Bytes) :
    (readBody length input).1 ≠ .done := by
  simp only [readBody]
  grind

/-- By induction on the rounds: what a round leaves stands at the end of what it found. -/
theorem readFrom_suffix (fuel : Nat) (first : Bool) (length : Option Nat) (input : Bytes) :
    (readFrom fuel first length input).2 <:+ input := by
  induction fuel generalizing first length input with
  | zero => exact List.suffix_refl input
  | succ fuel ih =>
    obtain ⟨line, rest, taken⟩ : ∃ line rest, takeLine maxLine input = (line, rest) := ⟨_, _, rfl⟩
    have behind : rest <:+ input := ⟨line, (of_takeLine taken).1.symm⟩
    by_cases nothing : line = []
    · rw [readFrom_of_no_line taken fuel first length nothing]
      exact behind
    · rcases readFrom_of_line taken fuel first length nothing with
        ⟨fault, -, eq⟩ | ⟨text, -, ⟨fault, -, eq⟩ | eq | ⟨length', eq⟩⟩ <;> rw [eq]
      · exact behind
      · exact behind
      · exact (readBody_suffix length rest).trans behind
      · exact (ih false length' rest).trans behind

/-- Once a line was taken, the end of the stream is no end of all frames any more. -/
theorem readFrom_later_ne_done (fuel : Nat) (length : Option Nat) (input : Bytes) :
    (readFrom fuel false length input).1 ≠ .done := by
  induction fuel generalizing length input with
  | zero => simp [readFrom]
  | succ fuel ih =>
    obtain ⟨line, rest, taken⟩ : ∃ line rest, takeLine maxLine input = (line, rest) := ⟨_, _, rfl⟩
    by_cases nothing : line = []
    · simp [readFrom_of_no_line taken fuel false length nothing]
    · rcases readFrom_of_line taken fuel false length nothing with
        ⟨fault, -, eq⟩ | ⟨text, -, ⟨fault, -, eq⟩ | eq | ⟨length', eq⟩⟩ <;> rw [eq]
      · simp
      · simp
      · exact readBody_ne_done length rest
      · exact ih length' rest

/-- Where there is a byte, there is a line, and its first byte at least is gone. -/
theorem read_cons (b : UInt8) (input : Bytes) :
    (read (b :: input)).1 ≠ .done ∧ (read (b :: input)).2 <:+ input := by
  obtain ⟨line, rest, taken⟩ : ∃ line rest, takeLine maxLine (b :: input) = (line, rest) :=
    ⟨_, _, rfl⟩
  obtain ⟨whole, -, shape⟩ := of_takeLine taken
  have some : line ≠ [] := by
    rintro rfl
    rcases shape with ⟨text, eq, -⟩ | ⟨-, full | empty⟩
    · simp at eq
    · exact absurd full (by decide)
    · simp [empty] at whole
  have behind : rest <:+ input := by
    obtain ⟨c, line, rfl⟩ := List.exists_cons_of_ne_nil some
    exact ⟨line, (List.cons.inj whole).2.symm⟩
  rcases readFrom_of_line taken (b :: input).length true none some with
    ⟨fault, -, eq⟩ | ⟨text, -, ⟨fault, -, eq⟩ | eq | ⟨length', eq⟩⟩ <;> rw [read, eq]
  · exact ⟨by simp, behind⟩
  · exact ⟨by simp, behind⟩
  · exact ⟨readBody_ne_done none rest, (readBody_suffix none rest).trans behind⟩
  · exact ⟨readFrom_later_ne_done _ length' rest, (readFrom_suffix _ false length' rest).trans behind⟩

end Frame

namespace FramedChannel

theorem receive_cons (b : UInt8) (stream : Bytes) : ∃ reception left,
    receive ⟨b :: stream, true⟩ = (reception, ⟨left, true⟩) ∧ reception ≠ .ok none ∧
      left <:+ stream := by
  obtain ⟨going, behind⟩ := Frame.read_cons b stream
  obtain ⟨outcome, left, read⟩ : ∃ outcome left, Frame.read (b :: stream) = (outcome, left) :=
    ⟨_, _, rfl⟩
  rw [read] at going behind
  cases outcome with
  | body body => exact ⟨_, left, receive_of_body read, by simp, behind⟩
  | done => exact absurd rfl going
  | fault fault => exact ⟨_, left, receive_of_fault read, by simp, behind⟩

theorem receiveMany_nil (n : Nat) :
    receiveMany n ⟨[], true⟩ = (List.replicate n (.ok none), ⟨[], true⟩) := by
  induction n with
  | zero => rfl
  | succ n ih => simp only [receiveMany, receive_nil, ih, List.replicate_succ]

theorem receiveMany_until_end (stream : Bytes) : ∃ receptions : List Reception,
    receptions.length ≤ stream.length ∧ .ok none ∉ receptions ∧
      ∀ n, (receiveMany n ⟨stream, true⟩).1 =
        receptions.take n ++ List.replicate (n - receptions.length) (.ok none) := by
  induction size : stream.length using Nat.strong_induction_on generalizing stream with
  | _ size ih =>
    cases stream with
    | nil => exact ⟨[], Nat.zero_le _, by simp, fun n => by simp [receiveMany_nil]⟩
    | cons b stream =>
      obtain ⟨reception, left, received, going, behind⟩ := receive_cons b stream
      have shorter := behind.length_le
      rw [List.length_cons] at size
      obtain ⟨later, few, ends, each⟩ := ih left.length (by omega) left rfl
      refine ⟨reception :: later, by rw [List.length_cons]; omega, by simp [ends, Ne.symm going],
        fun n => ?_⟩
      cases n with
      | zero => simp [receiveMany]
      | succ n => simp [receiveMany, received, each]

theorem length_unread_receiveMany (n : Nat) (stream : Bytes) :
    (receiveMany n ⟨stream, true⟩).2.unread.length ≤ stream.length - n := by
  induction n generalizing stream with
  | zero => exact Nat.le_refl _
  | succ n ih =>
    cases stream with
    | nil => simp [receiveMany_nil]
    | cons b stream =>
      obtain ⟨reception, left, received, -, behind⟩ := receive_cons b stream
      have := behind.length_le
      have := ih left
      simp only [receiveMany, received, List.length_cons]
      omega

/-- A receive finds the end exactly if nothing is unread, and takes at least a byte otherwise, whatever
it yields; what it leaves is the rest of the stream. So receives that are made one after the other
find the end at last: before it come no more yields than there are bytes, and after it nothing but the
end again. -/
theorem receives_until_end (stream : Bytes) :
    let received := receive ⟨stream, true⟩
    (received.1 = .ok none ↔ stream = []) ∧
    (∃ taken left, stream = taken ++ left ∧ received.2 = ⟨left, true⟩ ∧
      (taken = [] ↔ stream = [])) ∧
    (∃ receptions : List Reception, receptions.length ≤ stream.length ∧ .ok none ∉ receptions ∧
      ∀ n, (receiveMany n ⟨stream, true⟩).1 =
        receptions.take n ++ List.replicate (n - receptions.length) (.ok none)) ∧
    ∀ n, (receiveMany n ⟨stream, true⟩).2.unread.length ≤ stream.length - n := by
  intro received
  refine ⟨?_, ?_, receiveMany_until_end stream, fun n => length_unread_receiveMany n stream⟩
  · cases stream with
    | nil => simp [received, receive_nil]
    | cons b stream =>
      obtain ⟨reception, left, eq, going, -⟩ := receive_cons b stream
      simp [received, eq, going]
  · cases stream with
    | nil => exact ⟨[], [], rfl, by simp [received, receive_nil], Iff.rfl⟩
    | cons b stream =>
      obtain ⟨reception, left, eq, -, ⟨front, rfl⟩⟩ := receive_cons b stream
      exact ⟨b :: front, left, rfl, by simp [received, eq], by simp⟩

end FramedChannel

end LinkedViews
