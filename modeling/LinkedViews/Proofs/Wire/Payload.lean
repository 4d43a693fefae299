import LinkedViews.Proofs.Json.Passing
import LinkedViews.Proofs.Json.Written
import LinkedViews.Proofs.Wire.RoundTrip

/-! The payload alone, without a notification around it. It is read from its text, pair by pair and
member by member; an object with none of its members is not taken for one, whatever the object holds. -/
namespace LinkedViews

open Json

namespace Json

theorem readsTo_word (n : UInt64) : ReadsTo readWord (Json.ofNat n.toNat).write n := by
  intro rest ends
  obtain ⟨b, tail, eq, digit⟩ := encode_digits_eq_cons n.toNat
  have opens := opens_of_isDigit digit
  have read : readNumber (Utf8.encode (Decimal.digits n.toNat) ++ rest) =
      .ok (.ofNat n.toNat, rest) :=
    readNumber_integerText (Publication.fitsWord_toNat n) ends
  rw [eq, List.cons_append] at read
  rw [Json.ofNat, write, integerText.eq_def, eq, List.cons_append, readWord, skipBlank_cons opens.1]
  simp only [digit, or_true, if_true, read, wordOf_ofNat, bind, Except.bind, pure, Except.pure]

theorem readsTo_list {α : Type} {item : Reader α} {form : α → Json} {items : List α}
    (reads : ∀ x ∈ items, ItemReads item (form x) x) :
    ReadsTo (readList item) (array (items.map form)).write items := by
  intro rest _
  obtain ⟨tail, eq, read⟩ := readItems_write reads rest
  rw [eq, readList, skipBlank_cons (by decide)]
  exact read

section Record

variable {σ α : Type} {member : σ → String → Reader σ} {start last : σ}
  {finish : σ → Except Fault α} {value : α} {members : List (String × List Char)}

/-- A record whose members are all that is needed of it. -/
theorem readsTo_record (reads : MembersRead member start members last)
    (finished : finish last = .ok value) (expected : String) (ofArray : Reader α) :
    ReadsTo (readRecord expected ofArray fun input => do
      let (draft, rest) ← readMembers member start input
      return (← finish draft, rest)) (writeRecord members) value := by
  intro rest _
  obtain ⟨tail, eq, read⟩ := readMembers_writeRecord reads rest
  rw [eq, readRecord, skipBlank_cons (by decide)]
  simp [read, finished, bind, Except.bind, pure, Except.pure]

end Record

theorem complete_encode {α : Type} {read : Reader α} {text : List Char} {value : α}
    (reads : ReadsTo read text value) : complete read (Utf8.encode text) = .ok value := by
  have whole := reads [] nofun
  rw [List.append_nil] at whole
  simp [complete, whole, skipBlank, bind, Except.bind]

end Json

namespace RangePair

/-- All of it has been read. -/
def draft (p : RangePair) : Draft :=
  ⟨some p.source.start, some p.source.stop, some p.target.start, some p.target.stop⟩

theorem finish_draft (p : RangePair) : p.draft.finish = .ok p := rfl

theorem membersRead_pair (p : RangePair) :
    MembersRead readMember {} (p.members.map fun m => (m.1, m.2.write)) p.draft := by
  have number (name : String) (n : UInt64) (rest : Bytes) (ends : Ends rest) :
      readField name none readWord (0x3A :: (Utf8.encode (Json.ofNat n.toNat).write ++ rest)) =
        .ok (some n, rest) := Envelope.readsTo_field (readsTo_word n) name rest ends
  refine ⟨{ p.draft with send := none, tbegin := none, tend := none }, fun rest ends => ?_,
    { p.draft with tbegin := none, tend := none }, fun rest ends => ?_,
    { p.draft with tend := none }, fun rest ends => ?_, p.draft, fun rest ends => ?_, rfl⟩
  all_goals simp [readMember, draft, number _ _ rest ends, bind, Except.bind, pure, Except.pure]

theorem readsTo_pair (p : RangePair) : ItemReads read p.toJson p := by
  rw [toJson]
  refine ⟨?_, ?_⟩
  · rw [write_object]
    exact ⟨0x7B, _, rfl, by decide⟩
  · rw [write_object]
    exact readsTo_record p.membersRead_pair p.finish_draft expected readPlaces

end RangePair

namespace Publication

def draft (p : Publication) : Draft :=
  ⟨some p.uri, some p.name, some p.language, some p.content, some p.rangeMap⟩

theorem finish_draft (p : Publication) : p.draft.finish = .ok p := rfl

theorem readsTo_rangeMap (pairs : List RangePair) :
    ReadsTo (readList RangePair.read) (array (pairs.map RangePair.toJson)).write pairs :=
  readsTo_list fun pair _ => pair.readsTo_pair

/-- A payload is read from its text. -/
theorem parse_write (p : Publication) : parse (Utf8.encode p.write) = .ok p := by
  have words (name s : String) (rest : Bytes) (ends : Ends rest) :
      readField name none readWords (0x3A :: (Utf8.encode (writeText s) ++ rest)) =
        .ok (some s, rest) := Envelope.readsTo_field (Envelope.readsTo_words s) name rest ends
  have pairs (name : String) (rest : Bytes) (ends : Ends rest) :
      readField name none (readList RangePair.read)
          (0x3A :: (Utf8.encode (array (p.rangeMap.map RangePair.toJson)).write ++ rest)) =
        .ok (some p.rangeMap, rest) :=
    Envelope.readsTo_field (readsTo_rangeMap p.rangeMap) name rest ends
  have reads : MembersRead readMember {} [("uri", writeText p.uri), ("name", writeText p.name),
      ("language", writeText p.language), ("content", writeText p.content),
      ("rangeMap", (array (p.rangeMap.map RangePair.toJson)).write)] p.draft := by
    refine ⟨{ uri := some p.uri }, fun rest ends => ?_,
      { uri := some p.uri, name := some p.name }, fun rest ends => ?_,
      { p.draft with content := none, rangeMap := none }, fun rest ends => ?_,
      { p.draft with rangeMap := none }, fun rest ends => ?_, p.draft, fun rest ends => ?_, rfl⟩
    all_goals simp [readMember, draft, words _ _ rest ends, pairs _ rest ends, bind, Except.bind,
      pure, Except.pure]
  exact complete_encode (readsTo_record reads p.finish_draft expected readPlaces)

/-- The members of a payload. -/
def keys : List String := ["uri", "name", "language", "content", "rangeMap"]

/-- A member with another name is passed over. -/
theorem readMember_strange {m : Member} (value : IsValue m.content.value)
    (strange : ∀ key ∈ keys, ¬m.Named key) :
    Keeps readMember (fun d _ => d.uri = none) m := by
  intro d done key next rest left named ends absent read
  have other : ∀ k ∈ keys, key ≠ k := by
    rintro k among rfl
    exact strange key among named
  simp only [keys, List.forall_mem_cons] at other
  obtain ⟨uri, name, language, content, rangeMap, -⟩ := other
  rw [readMember, if_neg uri, if_neg name, if_neg language, if_neg content, if_neg rangeMap] at read
  obtain ⟨behind, passed, same⟩ := bind_eq_ok.mp read
  obtain ⟨rfl, rfl⟩ := Prod.mk.inj (Except.ok.inj same)
  exact ⟨passMember_leaves value m.gap m.content.before ends passed, absent⟩

/-- An object that has none of the members of a payload is not read as one. -/
theorem parse_strange {o : ObjectText} (strange : ∀ m ∈ o.members, ∀ key ∈ keys, ¬m.Named key) :
    ∀ p, parse o.text ≠ .ok p := by
  intro p parsed
  obtain ⟨d, absent, finished⟩ := of_complete_record
    (fun m member => readMember_strange (o.values m member) (strange m member)) rfl parsed
  rw [Draft.finish, absent] at finished
  contradiction

end Publication

namespace Message

/-- The members of a notification, as they are written. -/
def members (p : Publication) : List (String × List Char) :=
  [("jsonrpc", writeText Envelope.version), ("method", writeText publishMethod),
    ("params", p.toJson.write)]

def object (p : Publication) : ObjectText :=
  .ofRecord (members p) (by
    simp only [members, List.forall_mem_cons]
    exact ⟨isValue_writeText _, isValue_writeText _, isValue_write (p.legible_toJson 123), by simp⟩)

theorem text_object (p : Publication) : (object p).text = (publish p).encode :=
  ObjectText.text_ofRecord _ _

/-- A notification is no payload, though it carries one. -/
theorem payload_parse_encode (p q : Publication) :
    Publication.parse (publish p).encode ≠ .ok q := by
  rw [← text_object]
  refine Publication.parse_strange (fun m member key among named => ?_) q
  obtain ⟨written, given, rfl⟩ := List.mem_map.mp member
  obtain rfl := named.unique (Member.named_written written)
  revert among
  have apart : ∀ w ∈ members p, w.1 ∉ Publication.keys := by
    simp only [members, List.forall_mem_cons]
    exact ⟨by decide, by decide, by decide, by simp⟩
  exact apart written given

end Message

end LinkedViews
