import LinkedViews.Proofs.Json.RoundTrip
import LinkedViews.Proofs.Product.Ordered
import LinkedViews.Wire.Message

/-! What is sent is received. An envelope is read from its text, and a publication from the generic
value that travels inside; so a product that was received once is the same after it was sent on. -/
namespace LinkedViews

open Json

namespace Envelope

/-- A member that was given, and whose text can be read; `null` stands for absence. -/
def Carries (value : Option Json) : Prop :=
  ∀ v ∈ value, v ≠ .null ∧ Legible (maxDepth - 1) v

theorem membersRead_append {σ : Type} {member : σ → String → Reader σ} {s t u : σ}
    {front back : List (String × List Char)} (first : MembersRead member s front t)
    (second : MembersRead member t back u) : MembersRead member s (front ++ back) u := by
  induction front generalizing s with
  | nil => exact first ▸ second
  | cons m front ih =>
    obtain ⟨next, read, others⟩ := first
    exact ⟨next, read, ih others⟩

theorem membersRead_optional {α : Type} {key : String} {text : α → List Char} {d : Draft}
    (set : Option α → Draft) (absent : set none = d) (value : Option α)
    (given : ∀ v ∈ value, ReadsTo (fun input => readMember d key (0x3A :: input)) (text v)
      (set (some v))) : MembersRead readMember d (optionalMember key (value.map text)) (set value) := by
  cases value with
  | none => exact absent
  | some v => exact ⟨set (some v), given v rfl, rfl⟩

theorem readsTo_words (s : String) : ReadsTo readWords (writeText s) s := by
  intro rest _
  rw [encode_writeText, readWords, readString]
  simp [skipBlank, isBlank, readText_escaped]

theorem readsTo_optional {α : Type} {read : Reader α} {text : List Char} {value : α} {b : UInt8}
    {tail : Bytes} (reads : ReadsTo read text value) (front : Utf8.encode text = b :: tail)
    (shown : isBlank b = false) (given : b ≠ 0x6E) :
    ReadsTo (readOptional read) text (some value) := by
  intro rest ends
  have read := reads rest ends
  rw [front, List.cons_append] at read ⊢
  rw [readOptional, skipBlank_cons shown]
  split
  next null => exact absurd (List.cons.inj null).1 given
  next => simp only [read, bind, Except.bind, pure, Except.pure]

theorem readsTo_inner {v : Json} (given : v ≠ .null) (legible : Legible (maxDepth - 1) v) :
    ReadsTo (readOptional readInner) v.write (some v) := by
  obtain ⟨b, tail, front, opens, other⟩ := opens_write legible
  exact readsTo_optional (readValue_write legible) front opens.1 (other given)

/-- A field that was not given before. -/
theorem readsTo_field {α : Type} {read : Reader α} {text : List Char} {value : α}
    (reads : ReadsTo read text value) (name : String) :
    ReadsTo (fun input => readField name none read (0x3A :: input)) text (some value) := by
  intro rest ends
  simp only [readField, expectColon_cons, reads rest ends, bind, Except.bind, pure, Except.pure]

section Member

variable {d : Draft} {text : List Char}

theorem readsTo_jsonrpc (s : String) (fresh : d.jsonrpc = none) :
    ReadsTo (fun input => readMember d "jsonrpc" (0x3A :: input)) (writeText s)
      { d with jsonrpc := some s } := by
  intro rest ends
  have read := readsTo_field (readsTo_words s) "jsonrpc" rest ends
  simp only at read
  simp [readMember, fresh, read, bind, Except.bind, pure, Except.pure]

theorem readsTo_id {id : Option Json} (reads : ReadsTo (readOptional readInner) text id)
    (fresh : d.id = none) :
    ReadsTo (fun input => readMember d "id" (0x3A :: input)) text { d with id := some id } := by
  intro rest ends
  have read := readsTo_field reads "id" rest ends
  simp only at read
  simp [readMember, fresh, read, bind, Except.bind, pure, Except.pure]

theorem readsTo_method (s : String) (fresh : d.method = none) :
    ReadsTo (fun input => readMember d "method" (0x3A :: input)) (writeText s)
      { d with method := some (some s) } := by
  intro rest ends
  have given : ReadsTo (readOptional readWords) (writeText s) (some s) :=
    readsTo_optional (readsTo_words s) rfl (by decide) (by decide)
  have read := readsTo_field given "method" rest ends
  simp only at read
  simp [readMember, fresh, read, bind, Except.bind, pure, Except.pure]

theorem readsTo_params {params : Option Json}
    (reads : ReadsTo (readOptional readInner) text params) (fresh : d.params = none) :
    ReadsTo (fun input => readMember d "params" (0x3A :: input)) text
      { d with params := some params } := by
  intro rest ends
  have read := readsTo_field reads "params" rest ends
  simp only at read
  simp [readMember, fresh, read, bind, Except.bind, pure, Except.pure]

end Member

/-- All of it has been read. -/
def draft (e : Envelope) : Draft where
  jsonrpc := some e.jsonrpc
  id := e.id.map some
  method := e.method.map some
  params := e.params.map some

theorem finish_draft (e : Envelope) : e.draft.finish = .ok e := by
  have joined {α : Type} (o : Option α) : (o.map some).join = o := by cases o <;> rfl
  simp [draft, Draft.finish, require, joined, bind, Except.bind, pure, Except.pure]

/-- The members one by one, each on top of those before it. -/
theorem membersRead_write {e : Envelope} (id : Carries e.id) (params : Carries e.params) :
    MembersRead readMember {} (("jsonrpc", writeText e.jsonrpc)
      :: optionalMember "id" (e.id.map Json.write)
      ++ optionalMember "method" (e.method.map writeText)
      ++ optionalMember "params" (e.params.map Json.write)) e.draft := by
  have first : MembersRead readMember {} [("jsonrpc", writeText e.jsonrpc)]
      { jsonrpc := some e.jsonrpc } := ⟨_, readsTo_jsonrpc e.jsonrpc rfl, rfl⟩
  refine membersRead_append (t := { e.draft with params := none }) (membersRead_append
    (t := { e.draft with method := none, params := none }) (membersRead_append first ?_) ?_) ?_
  · refine membersRead_optional
      (fun v => { e.draft with id := v.map some, method := none, params := none }) rfl e.id ?_
    exact fun v given => readsTo_id (readsTo_inner (id v given).1 (id v given).2) rfl
  · refine membersRead_optional
      (fun v => { e.draft with method := v.map some, params := none }) rfl e.method ?_
    exact fun v _ => readsTo_method v rfl
  · refine membersRead_optional
      (fun v => { e.draft with params := v.map some }) rfl e.params ?_
    exact fun v given => readsTo_params (readsTo_inner (params v given).1 (params v given).2) rfl

theorem parse_writeRecord {members : List (String × List Char)} {d : Draft} {e : Envelope}
    (reads : MembersRead readMember {} members d) (finished : d.finish = .ok e)
    (current : e.jsonrpc = version) : parse (Utf8.encode (writeRecord members)) = .ok e := by
  obtain ⟨tail, eq, read⟩ := readMembers_writeRecord reads []
  rw [List.append_nil] at eq
  have parsed : complete Envelope.read (Utf8.encode (writeRecord members)) = .ok e := by
    rw [eq, complete, Envelope.read, readRecord]
    simp [skipBlank, isBlank, Envelope.readMembers, read, finished, bind, Except.bind, pure,
      Except.pure]
  rw [parse, parsed]
  simp only [if_pos current]

/-- An envelope is read from its text. -/
theorem parse_encode {e : Envelope} (current : e.jsonrpc = version) (id : Carries e.id)
    (params : Carries e.params) : parse e.encode = .ok e :=
  parse_writeRecord (membersRead_write id params) (finish_draft e) current

end Envelope

theorem wordOf_ofNat (n : UInt64) : wordOf (.ofNat n.toNat) = .ok n := by
  simp [wordOf, Json.ofNat]

namespace RangePair

theorem ofJson_toJson (p : RangePair) : ofJson p.toJson = .ok p := by
  simp [ofJson, toJson, members, putMember, wordOf_ofNat, bind, Except.bind, pure, Except.pure,
    Draft.finish, require]

end RangePair

namespace Publication

theorem rangeMapOf_toJson (pairs : List RangePair) :
    rangeMapOf (.array (pairs.map RangePair.toJson)) = .ok pairs := by
  have each : (pairs.map RangePair.toJson).mapM RangePair.ofJson = .ok pairs := by
    induction pairs with
    | nil => rfl
    | cons p pairs ih =>
      simp [RangePair.ofJson_toJson, ih, bind, Except.bind, pure, Except.pure]
  simpa [rangeMapOf, itemsOf, bind, Except.bind] using each

theorem ofJson_toJson (p : Publication) : ofJson p.toJson = .ok p := by
  simp [ofJson, toJson, putMember, stringOf, rangeMapOf_toJson, bind, Except.bind, pure,
    Except.pure, Draft.finish, require]

theorem fitsWord_toNat (n : UInt64) : FitsWord n.toNat := by
  have small : n.toNat < 18446744073709551616 := n.toNat_lt
  simp only [FitsWord, Decimal.maxWord]
  omega

theorem legible_toJson (p : Publication) (depth : Nat) : Legible (depth + 3) p.toJson := by
  have pair (r : RangePair) : Legible (depth + 1) r.toJson := by
    have keys : ["sbegin", "send", "tbegin", "tend"].Pairwise (· < ·) := by decide
    refine .object (List.pairwise_map.mp keys) ?_
    · simp only [RangePair.members, List.forall_mem_cons]
      exact ⟨.integer (fitsWord_toNat _), .integer (fitsWord_toNat _), .integer (fitsWord_toNat _),
        .integer (fitsWord_toNat _), by simp⟩
  have keys : ["content", "language", "name", "rangeMap", "uri"].Pairwise (· < ·) := by decide
  refine .object (List.pairwise_map.mp keys) ?_
  · simp only [List.forall_mem_cons]
    refine ⟨.string, .string, .string, .array ?_, .string, by simp⟩
    intro v member
    obtain ⟨r, _, rfl⟩ := List.mem_map.mp member
    exact pair r

/-- The product under a source. -/
def withSource (p : Publication) (source : Uri) : Product :=
  ⟨source, p.name, p.language, p.content, p.rangeMap⟩

/-- The source is read first, and the pairs are looked at only if it can be read. -/
theorem toProduct_eq (p : Publication) : p.toProduct =
    match Uri.read p.uri with
    | .error e => .error e
    | .ok source =>
      match (p.withSource source).validate with
      | .error e => .error e
      | .ok () => .ok (p.withSource source) := by
  rw [toProduct]
  cases Uri.read p.uri with
  | error e => rfl
  | ok source =>
    simp only [withSource, bind, Except.bind]
    split <;> simp_all [pure, Except.pure]

theorem toProduct_eq_ok_iff {p : Publication} {q : Product} : p.toProduct = .ok q ↔
    ∃ source, Uri.read p.uri = .ok source ∧ (∀ pair ∈ p.rangeMap, pair.isOrdered = true) ∧
      q = p.withSource source := by
  rw [toProduct_eq]
  cases Uri.read p.uri with
  | error e => simp
  | ok source =>
    have valid : (p.withSource source).validate = .ok () ↔
        ∀ pair ∈ p.rangeMap, pair.isOrdered = true := Product.validate_eq_ok_iff
    simp only [Except.ok.injEq, exists_eq_left', ← valid]
    cases (p.withSource source).validate <;> simp [eq_comm]

/-- A product is what its publication is read as, if the text of its source is read as its source. -/
theorem toProduct_ofProduct {p : Publication} {q : Product} (received : p.toProduct = .ok q)
    (stable : Uri.parse (toString q.source) = .ok q.source) : (ofProduct q).toProduct = .ok q := by
  obtain ⟨source, -, ordered, sent⟩ := toProduct_eq_ok_iff.mp received
  have read : Uri.read (ofProduct q).uri = .ok q.source := by
    have text : (ofProduct q).uri = toString q.source := by simp only [ofProduct]
    rw [text, Uri.read, stable]
  refine toProduct_eq_ok_iff.mpr ⟨q.source, read, ?_, ?_⟩
  · subst sent
    exact ordered
  · simp only [ofProduct, withSource]

end Publication

namespace Message

theorem parse_encode_publish (p : Publication) :
    parse (publish p).encode = .ok (.publish p) := by
  have params : Envelope.Carries (some p.toJson) := by
    intro v member
    obtain rfl := Option.some.inj member
    exact ⟨by simp [Publication.toJson], p.legible_toJson 123⟩
  have read : Envelope.parse (publish p).encode = .ok (.notification publishMethod p.toJson) :=
    Envelope.parse_encode (e := .notification publishMethod p.toJson) rfl nofun params
  rw [parse, read]
  simp [Envelope.isNotification, Envelope.notification, Publication.ofJson_toJson]

/-- A publication is received as it was sent. A product that came of a publication and is sent on
comes back as the same product, if the text of its source is read as its source. -/
theorem received_as_sent (p : Publication) :
    parse (publish p).encode = .ok (.publish p) ∧
    ∀ q : Product, p.toProduct = .ok q → Uri.parse (toString q.source) = .ok q.source →
      ∃ p', parse (publish (.ofProduct q)).encode = .ok (.publish p') ∧ p'.toProduct = .ok q := by
  refine ⟨parse_encode_publish p, fun q received stable => ?_⟩
  exact ⟨.ofProduct q, parse_encode_publish _, Publication.toProduct_ofProduct received stable⟩

namespace Sample

/-- Quotation marks, a backslash, controls, a character of four bytes, and the largest offset. -/
def publication : Publication :=
  ⟨"file:/a b.mj", "na\"me\\", "\x01\n\x7f", "x\t😀", [⟨⟨0, 18446744073709551615⟩, ⟨3, 9⟩⟩]⟩

def product : Product :=
  ⟨⟨"file", some .none, "/a%20b.mj", none, none⟩, publication.name, publication.language,
    publication.content, publication.rangeMap⟩

theorem sample_received_as_sent : publication.toProduct = .ok product ∧
    Uri.parse (toString product.source) = .ok product.source ∧
    parse (publish publication).encode = .ok (.publish publication) ∧
    ∃ p', parse (publish (.ofProduct product)).encode = .ok (.publish p') ∧
      p'.toProduct = .ok product := by
  have received : publication.toProduct = .ok product := by cbv
  have stable : Uri.parse (toString product.source) = .ok product.source := by cbv
  have law := received_as_sent publication
  exact ⟨received, stable, law.1, law.2 product received stable⟩

end Sample

end Message

end LinkedViews
