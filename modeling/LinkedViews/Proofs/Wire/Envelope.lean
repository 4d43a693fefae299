import LinkedViews.Proofs.Json.Depth
import LinkedViews.Proofs.Wire.RoundTrip

/-! Envelopes that are sent. An envelope with exact values comes back as it was, absent members absent
and the others with their values, as long as no value goes too deep: the envelope's own brace is one of
the brackets that may be open. One that goes too deep is malformed, and so comes back as no envelope
at all. -/
namespace LinkedViews

open Json

namespace Envelope

/-- The values that travel inside. -/
def values (e : Envelope) : List Json := e.id.toList ++ e.params.toList

theorem mem_values {e : Envelope} {v : Json} :
    v ∈ e.values ↔ e.id = some v ∨ e.params = some v := by
  simp [values]

theorem refuses_optional {v : Json} (given : v ≠ .null) (exact : v.Exact)
    (deep : maxDepth ≤ v.depth) : Refuses (readOptional readInner) v.write := by
  intro rest
  obtain ⟨b, tail, front, opens, other⟩ := opens_write (exact.legible (Nat.le_refl v.depth))
  have beyond : maxDepth - 1 < v.depth := deep
  have refused := readValue_of_deep exact beyond rest
  rw [front, List.cons_append] at refused ⊢
  rw [readOptional, skipBlank_cons opens.1]
  split
  next null => exact absurd (List.cons.inj null).1 (other given)
  next => simp only [readInner, refused, bind, Except.bind]

theorem refuses_field {α : Type} {read : Reader α} {text : List Char} (refuses : Refuses read text)
    (name : String) :
    Refuses (fun input => readField name none read (0x3A :: input)) text := by
  intro rest
  simp only [readField, expectColon_cons, refuses rest, bind, Except.bind]

/-- The members as they are written, without their braces. -/
def members (e : Envelope) : List (String × List Char) :=
  ("jsonrpc", writeText e.jsonrpc) :: optionalMember "id" (e.id.map Json.write)
    ++ optionalMember "method" (e.method.map writeText)
    ++ optionalMember "params" (e.params.map Json.write)

/-- One member that is refused makes the whole malformed. -/
theorem parse_of_refuses {e : Envelope} {front back : List (String × List Char)}
    {m : String × List Char} {d : Draft} (parts : e.members = front ++ m :: back)
    (reads : MembersRead readMember {} front d)
    (refuses : Refuses (fun input => readMember d m.1 (0x3A :: input)) m.2) :
    parse e.encode = .error (.undecodable .malformed) := by
  obtain ⟨tail, eq, refused⟩ := readMembers_refuses reads refuses back []
  have text : e.encode = 0x7B :: tail := by
    rw [← eq, List.append_nil, ← parts]
    rfl
  have failed : complete Envelope.read e.encode = .error .malformed := by
    rw [text, complete, Envelope.read, readRecord]
    simp [skipBlank, isBlank, Envelope.readMembers, refused, bind, Except.bind]
  rw [parse, failed]

section Deep

variable {e : Envelope} (exact : ∀ v ∈ e.values, v ≠ .null ∧ v.Exact)

include exact

theorem carries_id (shallow : ∀ v ∈ e.id, v.depth < maxDepth) : Carries e.id := fun v given =>
  have about := exact v (mem_values.mpr (.inl given))
  ⟨about.1, about.2.legible (Nat.le_pred_of_lt (shallow v given))⟩

theorem carries_params (shallow : ∀ v ∈ e.params, v.depth < maxDepth) : Carries e.params :=
  fun v given =>
  have about := exact v (mem_values.mpr (.inr given))
  ⟨about.1, about.2.legible (Nat.le_pred_of_lt (shallow v given))⟩

theorem parse_of_deep_id {v : Json} (given : e.id = some v) (deep : maxDepth ≤ v.depth) :
    parse e.encode = .error (.undecodable .malformed) := by
  obtain ⟨nonnull, exact⟩ := exact v (mem_values.mpr (.inl given))
  let bare : Envelope := ⟨e.jsonrpc, none, none, none⟩
  have reads : MembersRead readMember {} bare.members bare.draft := membersRead_write nofun nofun
  have parts : e.members = bare.members ++ ("id", v.write) ::
      (optionalMember "method" (e.method.map writeText)
        ++ optionalMember "params" (e.params.map Json.write)) := by
    simp [members, bare, given, optionalMember]
  refine parse_of_refuses parts reads fun rest => ?_
  have refused := refuses_field (refuses_optional nonnull exact deep) "id" rest
  simp only at refused
  simp [readMember, bare, draft, refused, bind, Except.bind]

theorem parse_of_deep_params {v : Json} (given : e.params = some v) (deep : maxDepth ≤ v.depth)
    (shallow : ∀ v ∈ e.id, v.depth < maxDepth) :
    parse e.encode = .error (.undecodable .malformed) := by
  have id := carries_id exact shallow
  obtain ⟨nonnull, exact⟩ := exact v (mem_values.mpr (.inr given))
  let bare : Envelope := { e with params := none }
  have reads : MembersRead readMember {} bare.members bare.draft := membersRead_write id nofun
  have parts : e.members = bare.members ++ ("params", v.write) :: [] := by
    simp [members, bare, given, optionalMember]
  refine parse_of_refuses parts reads fun rest => ?_
  have refused := refuses_field (refuses_optional nonnull exact deep) "params" rest
  simp only at refused
  simp [readMember, bare, draft, refused, bind, Except.bind]

end Deep

/-- An envelope of the current version whose values are exact, and not `null`, comes back as it was if
they nest no deeper than a hundred brackets, and so it is a notification afterwards exactly if it was
one before. The brackets could be a hundred and twenty-six; from one more on, decoding fails. -/
theorem decoded_as_encoded (e : Envelope) (current : e.jsonrpc = "2.0")
    (exact : ∀ v ∈ e.values, v ≠ .null ∧ v.Exact) :
    ((∀ v ∈ e.values, v.depth ≤ 100) → parse e.encode = .ok e) ∧
    (∀ decoded, parse e.encode = .ok decoded → decoded.isNotification = e.isNotification) ∧
    (parse e.encode = .ok e ↔ ∀ v ∈ e.values, v.depth < maxDepth) ∧
    (parse e.encode = .error (.undecodable .malformed) ↔ ∃ v ∈ e.values, maxDepth ≤ v.depth) := by
  have shallow (small : ∀ v ∈ e.values, v.depth < maxDepth) : parse e.encode = .ok e :=
    parse_encode current
      (carries_id exact fun v given => small v (mem_values.mpr (.inl given)))
      (carries_params exact fun v given => small v (mem_values.mpr (.inr given)))
  have deep (large : ∃ v ∈ e.values, maxDepth ≤ v.depth) :
      parse e.encode = .error (.undecodable .malformed) := by
    by_cases first : ∀ v ∈ e.id, v.depth < maxDepth
    · obtain ⟨v, among, large⟩ := large
      rcases mem_values.mp among with given | given
      · exact absurd (first v given) (Nat.not_lt.mpr large)
      · exact parse_of_deep_params exact given large first
    · simp only [not_forall, Nat.not_lt] at first
      obtain ⟨v, given, large⟩ := first
      exact parse_of_deep_id exact given large
  by_cases small : ∀ v ∈ e.values, v.depth < maxDepth
  · have same := shallow small
    have none : ¬∃ v ∈ e.values, maxDepth ≤ v.depth := by
      rintro ⟨v, among, large⟩
      exact absurd (small v among) (Nat.not_lt.mpr large)
    refine ⟨fun _ => same, ?_, iff_of_true same small, iff_of_false (by simp [same]) none⟩
    intro decoded eq
    rw [same] at eq
    rw [Except.ok.inj eq]
  · have large : ∃ v ∈ e.values, maxDepth ≤ v.depth := by simpa using small
    have failed := deep large
    refine ⟨fun hundred => ?_, by simp [failed], iff_of_false (by simp [failed]) small,
      iff_of_true failed large⟩
    exact absurd (fun v among => Nat.lt_of_le_of_lt (hundred v among) (by decide)) small

namespace Sample

def nested : Nat → Json
  | 0 => .integer (-9223372036854775808)
  | n + 1 => .array [nested n]

theorem exact_nested (n : Nat) : (nested n).Exact ∧ nested n ≠ .null ∧ (nested n).depth = n := by
  induction n with
  | zero => exact ⟨.integer ⟨by decide, by decide⟩, by simp [nested], rfl⟩
  | succ n ih =>
    refine ⟨.array fun v only => ?_, by simp [nested], by simp [nested, depth, depthItems, ih]⟩
    rw [List.mem_singleton.mp only]
    exact ih.1

/-- Keys of one, two and four bytes a character, and none. -/
def record : Json := .object [("", .null), ("a\"\n", .integer 18446744073709551615),
  ("é", .string "\x01😀"), ("😀", .array [])]

theorem exact_record : record.Exact := by
  have keys : ["", "a\"\n", "é", "😀"].Pairwise (· < ·) := by decide
  refine .object (List.pairwise_map.mp keys) ?_
  simp only [List.forall_mem_cons]
  exact ⟨.null, .integer ⟨by decide, by decide⟩, .string, .array nofun, by simp⟩

/-- A request that goes as deep as that. -/
def request (n : Nat) : Envelope := ⟨"2.0", some (nested n), some "µ", some record⟩

theorem exact_request (n : Nat) : ∀ v ∈ (request n).values, v ≠ .null ∧ v.Exact := by
  intro v among
  rcases mem_values.mp among with given | given
  · rw [← Option.some.inj given]
    exact ⟨(exact_nested n).2.1, (exact_nested n).1⟩
  · rw [← Option.some.inj given]
    exact ⟨by simp [record], exact_record⟩

/-- A hundred brackets come back, and a hundred and twenty-seven do not. -/
theorem hundred_come_back : (∀ v ∈ (request 100).values, v ≠ .null ∧ v.Exact) ∧
    (∀ v ∈ (request 100).values, v.depth ≤ 100) ∧
    parse (request 100).encode = .ok (request 100) ∧
    (∃ v ∈ (request 127).values, maxDepth ≤ v.depth) ∧
    parse (request 127).encode = .error (.undecodable .malformed) := by
  have small : ∀ v ∈ (request 100).values, v.depth ≤ 100 := by
    intro v among
    rcases mem_values.mp among with given | given
    · rw [← Option.some.inj given, (exact_nested 100).2.2]
    · rw [← Option.some.inj given]
      decide
  have large : ∃ v ∈ (request 127).values, maxDepth ≤ v.depth :=
    ⟨nested 127, mem_values.mpr (.inl rfl), by rw [(exact_nested 127).2.2, maxDepth]⟩
  exact ⟨exact_request 100, small, (decoded_as_encoded _ rfl (exact_request 100)).1 small, large,
    (decoded_as_encoded _ rfl (exact_request 127)).2.2.2.mpr large⟩

end Sample

end Envelope

end LinkedViews
