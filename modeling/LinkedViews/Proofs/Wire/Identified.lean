import LinkedViews.Proofs.Json.Passing
import LinkedViews.Proofs.Json.Written
import LinkedViews.Proofs.Session.Notification

/-! Messages that carry an id. However a body is laid out, and whatever its other members hold, its
members are told apart as the grammar has them; so an id that is given is found, and nothing is done
about the message. An id that is `null` is not found, though: it stands for absence. -/
namespace LinkedViews

open Json

namespace Envelope

/-- An id has been found exactly if one of these members is an id, and not `null`. -/
def Identified (d : Draft) (members : List Member) : Prop :=
  d.id.join.isSome = true ↔ ∃ m ∈ members, m.Named "id" ∧ m.content.value ≠ nullText

theorem Identified.other {d d' : Draft} {done : List Member} {m : Member}
    (identified : Identified d done) (same : d'.id = d.id) (other : ¬m.Named "id") :
    Identified d' (done ++ [m]) := by
  unfold Identified at identified ⊢
  rw [same, identified]
  simp [other]

theorem readMember_keeps {m : Member} (value : IsValue m.content.value) :
    Keeps readMember Identified m := by
  intro d done key next rest left named ends identified read
  have inner : Leaves readInner m.content.value := readValue_leaves value (maxDepth - 1)
  have words : Leaves readWords m.content.value := readString_leaves value "a string"
  have other (differs : key ≠ "id") : ¬m.Named "id" := fun id => differs (named.unique id)
  rw [readMember] at read
  split at read
  next jsonrpc =>
    obtain ⟨x, rfl, -, found⟩ := of_readField (fun v => { d with jsonrpc := v }) read
    exact ⟨words _ _ _ _ ends found, identified.other rfl (other (by simp [jsonrpc]))⟩
  next =>
  split at read
  next id =>
    obtain ⟨x, rfl, absent, found⟩ := of_readField (fun v => { d with id := v }) read
    obtain ⟨rfl, given⟩ := of_readOptional value inner m.content.before ends found
    have none : ¬∃ n ∈ done, n.Named "id" ∧ n.content.value ≠ nullText := fun earlier => by
      have before := identified.mpr earlier
      rw [absent] at before
      contradiction
    refine ⟨rfl, given.trans ⟨fun value => ⟨m, by simp, id ▸ named, value⟩, ?_⟩⟩
    rintro ⟨n, among, which, value⟩
    rcases List.mem_append.mp among with earlier | last
    · exact absurd ⟨n, earlier, which, value⟩ none
    · exact List.mem_singleton.mp last ▸ value
  next differs =>
  split at read
  next =>
    obtain ⟨x, rfl, -, found⟩ := of_readField (fun v => { d with method := v }) read
    exact ⟨(of_readOptional value words _ ends found).1, identified.other rfl (other differs)⟩
  next =>
  split at read
  next =>
    obtain ⟨x, rfl, -, found⟩ := of_readField (fun v => { d with params := v }) read
    exact ⟨(of_readOptional value inner _ ends found).1, identified.other rfl (other differs)⟩
  next =>
    obtain ⟨behind, passed, same⟩ := bind_eq_ok.mp read
    obtain ⟨rfl, rfl⟩ := Prod.mk.inj (Except.ok.inj same)
    exact ⟨passMember_leaves value m.gap m.content.before ends passed,
      identified.other rfl (other differs)⟩

theorem of_finish {d : Draft} {e : Envelope} (finished : d.finish = .ok e) : e.id = d.id.join := by
  obtain ⟨jsonrpc, -, same⟩ := bind_eq_ok.mp finished
  rw [← Except.ok.inj same]

/-- An envelope that is read from an object has an id if and only if the object has one that is not
`null`. -/
theorem isSome_id_iff {o : ObjectText} {e : Envelope} (parsed : parse o.text = .ok e) :
    e.id.isSome = true ↔ ∃ m ∈ o.members, m.Named "id" ∧ m.content.value ≠ nullText := by
  have start : Identified {} [] := by simp [Identified]
  obtain ⟨d, identified, finished⟩ := of_complete_record
    (fun m member => readMember_keeps (o.values m member)) start (parse_eq_ok_iff.mp parsed).1
  rw [of_finish finished]
  exact identified

end Envelope

namespace Message

/-- Among bodies that are objects, whatever else they hold, those are notifications that have a
method and no id but `null`. With another id nothing is done about the body: it publishes nothing, is
ignored if it is an envelope at all, and leaves the store as it was. -/
theorem identified_never_acted_on (o : ObjectText) :
    (∀ e, Envelope.parse o.text = .ok e → (e.isNotification = true ↔
      e.method.isSome = true ∧ ∀ m ∈ o.members, m.Named "id" → m.content.value = nullText)) ∧
    ((∃ m ∈ o.members, m.Named "id" ∧ m.content.value ≠ nullText) →
      (∀ publication, Message.parse o.text ≠ .ok (.publish publication)) ∧
      (∀ e, Envelope.parse o.text = .ok e → Message.parse o.text = .ok (.ignored e.method)) ∧
      ∀ (s : Store) policy shown s',
        s.receive policy o.text = .ok (shown, s') → shown = none ∧ s' = s) := by
  constructor
  · intro e parsed
    have found := Envelope.isSome_id_iff parsed
    have absent : e.id.isNone = true ↔
        ∀ m ∈ o.members, m.Named "id" → m.content.value = nullText := by
      rw [← Bool.not_eq_false, Option.isNone_eq_false_iff, found]
      simp
    rw [Envelope.isNotification, Bool.and_eq_true, absent, and_comm]
  intro identified
  have silent {e : Envelope} (parsed : Envelope.parse o.text = .ok e) : ¬Message.Notifies e := by
    rintro ⟨notifies, -⟩
    have found := (Envelope.isSome_id_iff parsed).mpr identified
    simp [Envelope.isNotification, Option.isNone_iff_eq_none] at notifies
    simp [notifies.1] at found
  have unpublished (publication : Publication) :
      Message.parse o.text ≠ .ok (.publish publication) := fun publishes => by
    obtain ⟨e, _, wraps, notifies, -⟩ := Message.brings_iff.mpr publishes
    exact silent (Message.wraps_iff.mp wraps) notifies
  refine ⟨unpublished, fun e parsed => ?_, fun s policy shown s' received => ?_⟩
  · exact (Message.parse_of_wraps (Message.wraps_iff.mpr parsed)).1 (silent parsed)
  · rw [Store.receive] at received
    split at received
    next => contradiction
    next =>
      obtain ⟨rfl, rfl⟩ := Prod.mk.inj (Except.ok.inj received)
      exact ⟨rfl, rfl⟩
    next publication publishes => exact absurd publishes (unpublished publication)

namespace Requests

def members (id : Json) (p : Publication) : List (String × List Char) :=
  [("jsonrpc", writeText "2.0"), ("id", id.write), ("method", writeText Message.publishMethod),
    ("params", p.toJson.write)]

def identified (id : Json) (legible : Legible 126 id) (p : Publication) : ObjectText :=
  .ofRecord (members id p) (by
    simp only [members, List.forall_mem_cons]
    exact ⟨isValue_writeText _, isValue_write legible, isValue_writeText _,
      isValue_write (p.legible_toJson 123), by simp⟩)

theorem named_id (id : Json) (legible : Legible 126 id) (p : Publication) :
    ∃ m ∈ (identified id legible p).members,
      m.Named "id" ∧ m.content.value = Utf8.encode id.write :=
  ⟨.written ("id", id.write), List.mem_map.mpr ⟨_, by simp [members], rfl⟩,
    Member.named_written _, rfl⟩

theorem parse_null_id (p : Publication) :
    Message.parse (identified .null .null p).text = .ok (.publish p) := by
  have legible : Legible (maxDepth - 1) p.toJson := p.legible_toJson 123
  have given : p.toJson ≠ .null := by simp [Publication.toJson]
  have absent : ReadsTo (readOptional Envelope.readInner) (write .null) none := by
    intro rest _
    rw [write]
    rfl
  have reads : MembersRead Envelope.readMember {} (members .null p)
      ⟨some "2.0", some none, some (some Message.publishMethod), some (some p.toJson)⟩ :=
    ⟨_, Envelope.readsTo_jsonrpc "2.0" rfl, _, Envelope.readsTo_id absent rfl,
      _, Envelope.readsTo_method Message.publishMethod rfl,
      _, Envelope.readsTo_params (Envelope.readsTo_inner given legible) rfl, rfl⟩
  have parsed : Envelope.parse (identified .null .null p).text =
      .ok ⟨"2.0", none, some Message.publishMethod, some p.toJson⟩ := by
    rw [identified, ObjectText.text_ofRecord]
    exact Envelope.parse_writeRecord reads rfl rfl
  rw [Message.parse, parsed]
  simp [Envelope.isNotification, Publication.ofJson_toJson]

open SessionRun.TwoGestures

def numbered : ObjectText :=
  identified (.integer 7) (.integer ⟨by decide, by decide⟩) (.ofProduct product)

def unanswerable : ObjectText := identified .null .null (.ofProduct product)

/-- A request to publish is ignored. -/
theorem numbered_ignored :
    (∃ m ∈ numbered.members, m.Named "id" ∧ m.content.value ≠ nullText) ∧
    Message.parse numbered.text = .ok (.ignored (some Message.publishMethod)) ∧
    (∀ publication, Message.parse numbered.text ≠ .ok (.publish publication)) ∧
    ∀ shown s', started.store.receive .all numbered.text = .ok (shown, s') →
      shown = none ∧ s' = started.store := by
  let e : Envelope := ⟨"2.0", some (.integer 7), some Message.publishMethod,
    some (Publication.ofProduct product).toJson⟩
  have parsed : Envelope.parse numbered.text = .ok e := by
    rw [numbered, identified, ObjectText.text_ofRecord]
    refine Envelope.parse_encode (e := e) rfl ?_ ?_
    · intro v given
      obtain rfl := Option.some.inj given
      exact ⟨by simp, .integer ⟨by decide, by decide⟩⟩
    · intro v given
      obtain rfl := Option.some.inj given
      exact ⟨by simp [Publication.toJson], Publication.legible_toJson _ 123⟩
  have carries : ∃ m ∈ numbered.members, m.Named "id" ∧ m.content.value ≠ nullText := by
    have legible : Legible 126 (.integer 7) := .integer ⟨by decide, by decide⟩
    obtain ⟨m, member, named, value⟩ := named_id (.integer 7) legible (.ofProduct product)
    exact ⟨m, member, named, value ▸ encode_write_ne_null legible (by simp)⟩
  obtain ⟨unpublished, ignored, kept⟩ := (identified_never_acted_on numbered).2 carries
  exact ⟨carries, ignored e parsed, unpublished, kept started.store .all⟩

/-- Under the id `null` the same request is carried out. -/
theorem unanswerable_published :
    (∃ m ∈ unanswerable.members, m.Named "id") ∧
    (∃ publication, Message.parse unanswerable.text = .ok (.publish publication)) ∧
    ∃ shown s', started.store.receive .all unanswerable.text = .ok (shown, s') ∧
      s'.generation ≠ started.store.generation := by
  have parsed := parse_null_id (.ofProduct product)
  have publishes : Message.Publishes started.store.naming unanswerable.text product target :=
    Message.publishes_iff.mpr ⟨_, parsed, by cbv, by cbv⟩
  obtain ⟨m, member, named, -⟩ := named_id .null .null (.ofProduct product)
  refine ⟨⟨m, member, named⟩, ⟨_, parsed⟩, _, _, (Store.receive_of_publishes .all publishes).1, ?_⟩
  decide

end Requests

end Message

end LinkedViews
