import LinkedViews.Proofs.Product.Ordered
import LinkedViews.Proofs.Session.Run
import LinkedViews.Proofs.Store.Consistency
import LinkedViews.Proofs.Wire.RoundTrip

/-! One message body as a session meets it. Whatever can be wrong with a body is found out before
anything is done: it publishes one product, or is ignored, or is refused, and the last two leave no
trace. -/
namespace LinkedViews

theorem Envelope.parse_eq_ok_iff {body : Bytes} {e : Envelope} :
    parse body = .ok e ↔ Json.complete read body = .ok e ∧ e.jsonrpc = version := by
  rw [parse]
  cases Json.complete read body with
  | error fault => simp
  | ok found =>
    simp only [Except.ok.injEq]
    by_cases current : found.jsonrpc = version
    · rw [if_pos current, Except.ok.injEq]
      constructor
      · rintro rfl
        exact ⟨rfl, current⟩
      · exact fun same => same.1
    · rw [if_neg current]
      constructor
      · intro refused
        contradiction
      · rintro ⟨rfl, other⟩
        exact absurd other current

namespace Message

/-- The body is an envelope of the current version. -/
structure Wraps (body : Bytes) (envelope : Envelope) : Prop where
  decoded : Json.complete Envelope.read body = .ok envelope
  current : envelope.jsonrpc = "2.0"

/-- The envelope notifies of a publish. -/
def Notifies (envelope : Envelope) : Prop :=
  envelope.isNotification = true ∧ envelope.method = some "monto/publishProduct"

/-- A proper message that has nothing to do with publishing. -/
def Ignores (body : Bytes) : Prop := ∃ envelope, Wraps body envelope ∧ ¬Notifies envelope

/-- A notification of a publish, with parameters that decode to a payload. -/
def Brings (body : Bytes) (publication : Publication) : Prop :=
  ∃ envelope params, Wraps body envelope ∧ Notifies envelope ∧ envelope.params = some params ∧
    Publication.ofJson params = .ok publication

/-- And nothing is wrong with the payload: its source can be read, its pairs are ordered, and there
is an identifier for it. -/
def Publishes (naming : Naming) (body : Bytes) (product : Product) (target : Uri) : Prop :=
  ∃ publication source, Brings body publication ∧ Uri.read publication.uri = .ok source ∧
    (∀ pair ∈ publication.rangeMap, pair.isOrdered = true) ∧
    product = publication.withSource source ∧ product.target naming = .ok target

theorem wraps_iff {body : Bytes} {envelope : Envelope} :
    Wraps body envelope ↔ Envelope.parse body = .ok envelope := by
  rw [Envelope.parse_eq_ok_iff]
  exact ⟨fun wraps => ⟨wraps.decoded, wraps.current⟩, fun wraps => ⟨wraps.1, wraps.2⟩⟩

theorem parse_of_wraps {body : Bytes} {envelope : Envelope} (wraps : Wraps body envelope) :
    (¬Notifies envelope → parse body = .ok (.ignored envelope.method)) ∧
    (Notifies envelope → parse body = match envelope.params with
      | none => .error (.missingParams publishMethod)
      | some params => match Publication.ofJson params with
        | .ok publication => .ok (.publish publication)
        | .error fault => .error (.undecodable fault)) := by
  rw [parse, wraps_iff.mp wraps]
  exact ⟨fun other => if_neg other, fun notifies => if_pos notifies⟩

theorem ignores_iff {body : Bytes} :
    Ignores body ↔ ∃ method, parse body = .ok (.ignored method) := by
  constructor
  · rintro ⟨envelope, wraps, other⟩
    exact ⟨envelope.method, (parse_of_wraps wraps).1 other⟩
  · rintro ⟨method, ignored⟩
    cases wrapped : Envelope.parse body with
    | error e => simp [parse, wrapped] at ignored
    | ok envelope =>
      have wraps := wraps_iff.mpr wrapped
      refine ⟨envelope, wraps, fun notifies => ?_⟩
      rw [(parse_of_wraps wraps).2 notifies] at ignored
      split at ignored
      next => contradiction
      next => split at ignored <;> simp at ignored

theorem brings_iff {body : Bytes} {publication : Publication} :
    Brings body publication ↔ parse body = .ok (.publish publication) := by
  constructor
  · rintro ⟨envelope, params, wraps, notifies, given, decoded⟩
    rw [(parse_of_wraps wraps).2 notifies, given]
    simp only [decoded]
  · intro publish
    cases wrapped : Envelope.parse body with
    | error e => simp [parse, wrapped] at publish
    | ok envelope =>
      have wraps := wraps_iff.mpr wrapped
      by_cases notifies : Notifies envelope
      · rw [(parse_of_wraps wraps).2 notifies] at publish
        split at publish
        next => contradiction
        next params given =>
          split at publish
          next decoded =>
            obtain rfl := Message.publish.inj (Except.ok.inj publish)
            exact ⟨envelope, params, wraps, notifies, given, decoded⟩
          next => contradiction
      · rw [(parse_of_wraps wraps).1 notifies] at publish
        simp at publish

theorem publishes_iff {naming : Naming} {body : Bytes} {product : Product} {target : Uri} :
    Publishes naming body product target ↔ ∃ publication, parse body = .ok (.publish publication) ∧
      publication.toProduct = .ok product ∧ product.target naming = .ok target := by
  constructor
  · rintro ⟨publication, source, brings, read, ordered, same, named⟩
    exact ⟨publication, brings_iff.mp brings,
      Publication.toProduct_eq_ok_iff.mpr ⟨source, read, ordered, same⟩, named⟩
  · rintro ⟨publication, parsed, received, named⟩
    obtain ⟨source, read, ordered, same⟩ := Publication.toProduct_eq_ok_iff.mp received
    exact ⟨publication, source, brings_iff.mpr parsed, read, ordered, same, named⟩

theorem not_ignores_of_publishes {naming : Naming} {body : Bytes} {product : Product} {target : Uri}
    (publishes : Publishes naming body product target) : ¬Ignores body := by
  obtain ⟨publication, parsed, _⟩ := publishes_iff.mp publishes
  rw [ignores_iff, parsed]
  simp

end Message

namespace Store

/-- Reception with a policy whose answer may have effects. -/
def receiveAsking {m : Type → Type} [Monad m] (s : Store) (ask : Product → m Display)
    (body : Bytes) : m (Except MessageError (Option Published × Store)) :=
  match Message.parse body with
  | .error error => pure (.error error)
  | .ok (.ignored _) => pure (.ok (none, s))
  | .ok (.publish publication) =>
    match publication.toProduct with
    | .error error => pure (.error (.product error))
    | .ok product =>
      match s.save product with
      | .error error => pure (.error (.product error))
      | .ok (target, s) => do
        let display ← ask product
        return .ok (some ⟨target, (s.get target).generation, display⟩, s)

/-- Reception with a log of the products that the policy is asked about. -/
def heard (s : Store) (policy : Policy) (body : Bytes) :
    Except MessageError (Option Published × Store) × List Product :=
  let ask (product : Product) : StateM (List Product) Display := do
    modify (· ++ [product])
    return policy product
  (s.receiveAsking ask body).run []

def asked (s : Store) (policy : Policy) (body : Bytes) : List Product := (s.heard policy body).2

/-- Apart from the log it is the reception of a session. -/
theorem heard_fst (s : Store) (policy : Policy) (body : Bytes) :
    (s.heard policy body).1 = s.receive policy body := by
  unfold heard receiveAsking receive
  cases Message.parse body with
  | error e => rfl
  | ok message => cases message with
    | ignored method => rfl
    | publish publication => cases received : publication.toProduct with
      | error e => simp only [received]; rfl
      | ok product => cases saved : s.save product with
        | error e =>
          simp only [received, publish, saved, bind, Except.bind]
          rfl
        | ok pair =>
          simp only [received, publish, saved, bind, Except.bind, pure, Except.pure]
          rfl

variable (s : Store) (policy : Policy) {body : Bytes}

theorem save_of_publishes {s : Store} {product : Product} {target : Uri}
    (publishes : Message.Publishes s.naming body product target) :
    s.save product = .ok (target, (s.install target product).announce target) := by
  obtain ⟨publication, source, _, _, ordered, rfl, named⟩ := publishes
  exact save_eq_ok_iff.mpr ⟨Product.validate_eq_ok_iff.mpr ordered, named, rfl⟩

theorem inboxes_announce_install (target : Uri) (product : Product) :
    ((s.install target product).announce target).inboxes =
      s.inboxes.map (· ++ [⟨target, s.generation.next⟩]) := by
  have stored := find?_install s target target product
  rw [if_pos rfl] at stored
  simp only [announce, get, stored, Option.getD_some]
  rfl

theorem receive_of_publishes {s : Store} {product : Product} {target : Uri}
    (publishes : Message.Publishes s.naming body product target) :
    s.receive policy body = .ok (some ⟨target, s.generation.next, policy product⟩,
      (s.install target product).announce target) ∧ s.asked policy body = [product] := by
  obtain ⟨publication, parsed, received, named⟩ := Message.publishes_iff.mp publishes
  have saved := save_of_publishes publishes
  have stored := (saved_of_save saved).here
  constructor
  · simp only [receive, parsed, received, publish, saved, bind, Except.bind, pure, Except.pure, get,
      stored, Option.getD_some]
  · simp only [asked, heard, receiveAsking, parsed, received, saved]
    rfl

theorem receive_of_ignores (ignores : Message.Ignores body) :
    s.receive policy body = .ok (none, s) ∧ s.asked policy body = [] := by
  obtain ⟨method, parsed⟩ := Message.ignores_iff.mp ignores
  constructor
  · simp only [receive, parsed]
  · simp only [asked, heard, receiveAsking, parsed]
    rfl

theorem receive_of_refused {s : Store}
    (refused : ∀ product target, ¬Message.Publishes s.naming body product target)
    (other : ¬Message.Ignores body) :
    (∃ e, s.receive policy body = .error e) ∧ s.asked policy body = [] := by
  unfold asked heard receiveAsking receive
  cases parsed : Message.parse body with
  | error e => exact ⟨⟨e, rfl⟩, rfl⟩
  | ok message => cases message with
    | ignored method => exact absurd (Message.ignores_iff.mpr ⟨method, parsed⟩) other
    | publish publication => cases received : publication.toProduct with
      | error e => exact ⟨⟨.product e, by simp only [received]⟩, by simp only [received]; rfl⟩
      | ok product => cases saved : s.save product with
        | error e =>
          have failed : s.publish policy product = .error e := by
            simp [publish, saved, bind, Except.bind]
          exact ⟨⟨.product e, by simp only [received, failed]⟩, by simp only [received, saved]; rfl⟩
        | ok pair =>
          have named := (save_eq_ok_iff.mp saved).2.1
          exact absurd (Message.publishes_iff.mpr ⟨publication, parsed, received, named⟩)
            (refused product pair.1)

/-- The pair with the least index is blamed. -/
theorem receive_of_inverted {publication : Publication} {source : Uri}
    (brings : Message.Brings body publication) (read : Uri.read publication.uri = .ok source)
    (inverted : ∃ pair ∈ publication.rangeMap, pair.isOrdered = false) :
    ∃ i pair, s.receive policy body = .error (.product (.invertedSpan i pair)) ∧
      s.asked policy body = [] ∧ publication.rangeMap[i]? = some pair ∧ pair.isOrdered = false ∧
      ∀ j < i, ∀ earlier, publication.rangeMap[j]? = some earlier → earlier.isOrdered = true := by
  obtain ⟨i, pair, blamed, place⟩ :=
    Product.validate_of_inverted (p := publication.withSource source) inverted
  have received : publication.toProduct = .error (.invertedSpan i pair) := by
    rw [Publication.toProduct_eq, read]
    simp only [blamed]
  have parsed := Message.brings_iff.mp brings
  refine ⟨i, pair, ?_, ?_, place⟩
  · simp only [receive, parsed, received]
  · simp only [asked, heard, receiveAsking, parsed, received]
    rfl

end Store

namespace Moment

variable {ε : Type} {m : Moment ε}

/-- What is published at a moment is what the body of its notification says. -/
theorem publish?_eq_some_iff {published : Published} : m.publish? = some published ↔
    ∃ body product, m.event = .notification body ∧
      Message.Publishes m.session.store.naming body product published.target ∧
      published.generation = m.session.store.generation.next ∧
      published.display = m.session.policy product := by
  obtain ⟨s, editor, event⟩ := m
  constructor
  · intro publishes
    cases event with
    | notification body =>
      by_cases any : ∃ product target, Message.Publishes s.store.naming body product target
      · obtain ⟨product, target, brings⟩ := any
        have received := (Store.receive_of_publishes s.policy brings).1
        obtain rfl : ⟨target, s.store.generation.next, s.policy product⟩ = published := by
          simpa [publish?, received, Except.toOption] using publishes
        exact ⟨body, product, rfl, brings, rfl, rfl⟩
      · simp only [not_exists] at any
        by_cases ignores : Message.Ignores body
        · have received := (Store.receive_of_ignores s.store s.policy ignores).1
          simp [publish?, received, Except.toOption] at publishes
        · obtain ⟨⟨e, received⟩, -⟩ := Store.receive_of_refused s.policy any ignores
          simp [publish?, received, Except.toOption] at publishes
    | _ => simp [publish?] at publishes
  · rintro ⟨body, product, rfl, brings, number, display⟩
    have received := (Store.receive_of_publishes s.policy brings).1
    obtain ⟨target, generation, shown⟩ := published
    subst number display
    simp [publish?, received, Except.toOption]

theorem publish?_eq_none_iff : m.publish? = none ↔ ∀ body, m.event = .notification body →
    ∀ product target, ¬Message.Publishes m.session.store.naming body product target := by
  constructor
  · intro silent body event product target brings
    have publishes : m.publish? =
        some ⟨target, m.session.store.generation.next, m.session.policy product⟩ :=
      publish?_eq_some_iff.mpr ⟨body, product, event, brings, rfl, rfl⟩
    rw [silent] at publishes
    contradiction
  · intro silent
    by_contra publishes
    obtain ⟨published, publishes⟩ := Option.ne_none_iff_exists'.mp publishes
    obtain ⟨body, product, event, brings, -⟩ := publish?_eq_some_iff.mp publishes
    exact silent body event product _ brings

end Moment

namespace Session

variable {ε : Type} [Editor ε]

omit [Editor ε] in
/-- The session once a product was stored, and what is asked of the editor then. -/
theorem onNotification_of_publishes {s : Session} (editor : ε) {body : Bytes} {product : Product}
    {target : Uri} (publishes : Message.Publishes s.store.naming body product target) :
    let stored := { s with
      store := (s.store.install target product).announce target
      synchronizer := s.synchronizer.contentReplaced target }
    ∃ requests : List OpenRequest,
      (requests = [] ∨ requests = [⟨target, s.synchronizer.targetPlacement, none⟩]) ∧
      s.onNotification editor body =
        ⟨requests.foldl request stored, editor, requests, .ok .continue⟩ := by
  intro stored
  have received := (Store.receive_of_publishes s.policy publishes).1
  simp only [onNotification, received]
  split
  · exact ⟨[_], .inr rfl, rfl⟩
  · exact ⟨[], .inl rfl, rfl⟩

/-- One body, and one of three things. If it publishes, one product is stored under the next
generation, every listener is told once, and the policy is asked once. If it is ignored, nothing
happens. Everything else is refused, and leaves the whole session as it was; so does a payload with
an inverted span, and then the first of these is blamed. -/
theorem notification_stores_once_or_changes_nothing (s : Session) (editor : ε) (body : Bytes) :
    let step := s.process editor (.notification body)
    let asked := s.store.asked s.policy body
    (s.store.heard s.policy body).1 = s.store.receive s.policy body ∧
    (∀ product target, Message.Publishes s.store.naming body product target →
      ¬Message.Ignores body ∧ step.result = .ok .continue ∧ step.editor = editor ∧
      s.store.Saved step.session.store target product ∧
      (s.store.generation.value < Decimal.maxWord →
        step.session.store.generation.value = s.store.generation.value + 1) ∧
      step.session.store.inboxes =
        s.store.inboxes.map (· ++ [⟨target, step.session.store.generation⟩]) ∧
      asked = [product]) ∧
    (Message.Ignores body → step = ⟨s, editor, [], .ok .continue⟩ ∧ asked = []) ∧
    ((∀ product target, ¬Message.Publishes s.store.naming body product target) →
      ¬Message.Ignores body →
      ∃ e, step = ⟨s, editor, [], .error (.malformed e)⟩ ∧ asked = []) ∧
    ∀ publication source, Message.Brings body publication →
      Uri.read publication.uri = .ok source →
      (∃ pair ∈ publication.rangeMap, pair.isOrdered = false) →
      ∃ i pair, step = ⟨s, editor, [], .error (.malformed (.product (.invertedSpan i pair)))⟩ ∧
        asked = [] ∧ publication.rangeMap[i]? = some pair ∧ pair.isOrdered = false ∧
        ∀ j < i, ∀ earlier, publication.rangeMap[j]? = some earlier → earlier.isOrdered = true := by
  intro step asked
  refine ⟨s.store.heard_fst s.policy body, ?stores, ?ignores, ?refuses, ?blames⟩
  case stores =>
    intro product target publishes
    obtain ⟨requests, _, after⟩ := onNotification_of_publishes editor publishes
    have asking := Store.receive_of_publishes s.policy publishes
    have store : step.session.store = (s.store.install target product).announce target := by
      simp only [step, process, after, Moment.foldl_request]
    have saved := Store.saved_of_save (Store.save_of_publishes publishes)
    rw [← store] at saved
    refine ⟨Message.not_ignores_of_publishes publishes, ?_, ?_, saved, fun room => ?_, ?_, asking.2⟩
    · simp only [step, process, after]
    · simp only [step, process, after]
    · rw [saved.generation, Generation.value_next room]
    · rw [store, Store.inboxes_announce_install]
      rfl
  case ignores =>
    intro ignores
    obtain ⟨received, silent⟩ := Store.receive_of_ignores s.store s.policy ignores
    exact ⟨by simp only [step, process, onNotification, received], silent⟩
  case refuses =>
    intro refused other
    obtain ⟨⟨e, received⟩, silent⟩ :=
      Store.receive_of_refused s.policy refused other
    exact ⟨e, by simp only [step, process, onNotification, received], silent⟩
  case blames =>
    intro publication source brings read inverted
    obtain ⟨i, pair, received, silent, place⟩ :=
      Store.receive_of_inverted s.store s.policy brings read inverted
    exact ⟨i, pair, by simp only [step, process, onNotification, received], silent, place⟩

namespace Bodies

open SessionRun.TwoGestures

def other : Envelope := ⟨"2.0", none, some "monto/other", none⟩

/-- The second pair is inverted, and so is the third. -/
def inverted : Publication :=
  ⟨"file:/a.mj", "target", "js", "generated", [⟨⟨0, 5⟩, ⟨0, 3⟩⟩, ⟨⟨9, 5⟩, ⟨3, 9⟩⟩, ⟨⟨0, 1⟩, ⟨2, 1⟩⟩]⟩

theorem publishes_body : Message.Publishes .default body product target :=
  Message.publishes_iff.mpr ⟨_, Message.parse_encode_publish _, by cbv, by cbv⟩

theorem ignores_other : Message.Ignores other.encode :=
  ⟨other, Message.wraps_iff.mpr (Envelope.parse_encode rfl nofun nofun), by
    simp [Message.Notifies, other]⟩

theorem refuses_nothing : (∀ product target, ¬Message.Publishes .default [] product target) ∧
    ¬Message.Ignores [] := by
  obtain ⟨e, parsed⟩ : ∃ e, Message.parse [] = .error e := ⟨_, rfl⟩
  constructor
  · intro product target publishes
    obtain ⟨_, publish, _⟩ := Message.publishes_iff.mp publishes
    simp [parsed] at publish
  · intro ignores
    obtain ⟨_, ignored⟩ := Message.ignores_iff.mp ignores
    simp [parsed] at ignored

theorem brings_inverted : Message.Brings (Message.publish inverted).encode inverted ∧
    Uri.read inverted.uri = .ok source ∧
    ∃ pair ∈ inverted.rangeMap, pair.isOrdered = false :=
  ⟨Message.brings_iff.mpr (Message.parse_encode_publish inverted), by cbv,
    ⟨⟨9, 5⟩, ⟨3, 9⟩⟩, by decide, by decide⟩

/-- The four kinds of bodies, at a new session. -/
theorem each_body_stores_once_or_changes_nothing :
    (Message.Publishes .default body product target ∧
      (started.process editor (.notification body)).session.store.generation.value = 1) ∧
    (Message.Ignores other.encode ∧
      (started.process editor (.notification other.encode)).session = started) ∧
    (¬Message.Ignores [] ∧ (started.process editor (.notification [])).session = started) ∧
    ∃ i pair, inverted.rangeMap[i]? = some pair ∧
      (started.process editor (.notification (Message.publish inverted).encode)).result =
        .error (.malformed (.product (.invertedSpan i pair))) := by
  have first := notification_stores_once_or_changes_nothing started editor body
  have second := notification_stores_once_or_changes_nothing started editor other.encode
  have third := notification_stores_once_or_changes_nothing started editor []
  have fourth := notification_stores_once_or_changes_nothing started editor
    (Message.publish inverted).encode
  obtain ⟨_, _, _, _, counted, _⟩ := first.2.1 product target publishes_body
  obtain ⟨ignored, _⟩ := second.2.2.1 ignores_other
  obtain ⟨_, refused, _⟩ := third.2.2.2.1 refuses_nothing.1 refuses_nothing.2
  obtain ⟨brings, read, bad⟩ := brings_inverted
  obtain ⟨i, pair, blamed, _, here, _⟩ := fourth.2.2.2.2 inverted source brings read bad
  exact ⟨⟨publishes_body, counted (by decide)⟩, ⟨ignores_other, by rw [ignored]⟩,
    ⟨refuses_nothing.2, by rw [refused]⟩, i, pair, here, by rw [blamed]⟩

end Bodies

end Session

end LinkedViews
