import LinkedViews.Proofs.Session.Run
import LinkedViews.Session.Job
import Mathlib.Logic.Relation

/-! The books of a session. It counts the opens that it asked for and the channels that it reads, and
the counts agree with what has not come back, whatever the order in which completions, ends and
everything else is met; so when both are zero there is nothing left to wait for. -/
namespace LinkedViews

def Event.ends : Event → Nat
  | channelClosed => 1
  | _ => 0

/-- Neither the completion of an open nor the end of a channel. Only these two a session expects. -/
def Event.IsPlain (event : Event) : Prop := event.opens = 0 ∧ event.ends = 0

/-- What an open is known by when it comes back. -/
def OpenRequest.key (r : OpenRequest) : Uri × Option PendingSelection := (r.document, r.pending)

def Event.keys : Event → List (Uri × Option PendingSelection)
  | viewOpened document _ pending => [(document, pending)]
  | _ => []

variable {ε : Type} [Editor ε]

namespace Moment

theorem counts_onViewOpened (s : Session) (editor : ε) (document : Uri)
    (result : Except EditorError View) (pending : Option PendingSelection) :
    (s.onViewOpened editor document result pending).session.pendingOpens = s.pendingOpens - 1 ∧
    (s.onViewOpened editor document result pending).session.readers = s.readers := by
  unfold Session.onViewOpened
  grind

/-- A completed open is taken off, and every request is added; an end is taken off the readers. -/
theorem counts_after (m : Moment ε) :
    m.after.session.pendingOpens =
      m.session.pendingOpens - m.event.opens + m.after.requests.length ∧
    m.after.session.readers = m.session.readers - m.event.ends := by
  obtain ⟨s, editor, event⟩ := m
  cases event with
  | notification body =>
    cases published : (Moment.mk s editor (.notification body)).publish? with
    | none =>
      obtain ⟨result, after⟩ := after_notification_of_none published
      simp [after, Event.opens, Event.ends]
    | some published' =>
      obtain ⟨product, store, requests, _, _, after⟩ := after_notification_of_some published
      simp [after, foldl_request, Event.opens, Event.ends]
  | selectionChanged document view selections =>
    rw [after_selectionChanged]
    split
    · exact ⟨rfl, rfl⟩
    · split
      · exact ⟨rfl, rfl⟩
      · simp [Session.requestAll, foldl_request, Event.opens, Event.ends]
  | manualSync document view =>
    simp only [after, Session.process]
    split
    · exact ⟨rfl, rfl⟩
    · simp [Session.requestAll, foldl_request, Event.opens, Event.ends]
  | viewOpened document result pending =>
    simp [after, Session.process, counts_onViewOpened, Session.requests_onViewOpened, Event.opens,
      Event.ends]
  | channelClosed => exact ⟨rfl, rfl⟩
  | viewClosed document => exact ⟨rfl, rfl⟩
  | shutdown => exact ⟨rfl, rfl⟩

theorem requests_of_opens {m : Moment ε} (completion : m.event.opens = 1) : m.after.requests = [] := by
  obtain ⟨s, editor, event⟩ := m
  cases event with
  | viewOpened document result pending => exact s.requests_onViewOpened editor document result pending
  | _ => simp [Event.opens] at completion

end Moment

theorem Session.counts_new {config : Config} {policy : Policy} {s : Session}
    (created : Session.new config policy = .ok s) : s.pendingOpens = 0 ∧ s.readers = 0 := by
  unfold Session.new at created
  split at created
  next => contradiction
  next =>
    obtain rfl := Except.ok.inj created
    exact ⟨rfl, rfl⟩

/-- An open that came back is no longer outstanding, and no other takes its place. -/
theorem SessionRun.outstanding_finish (l : SessionRun ε) (editor : ε) (r : OpenRequest)
    (result : Except EditorError View) :
    (l.finish editor r result).outstanding = l.outstanding.erase r := by
  have silent : (l.facing editor (.viewOpened r.document result r.pending)).after.requests = [] :=
    Moment.requests_of_opens rfl
  rw [finish, meet, silent, List.append_nil]

/-- A session, what was put into its queue, and the channels that are read, each as the bodies that
it has yet to bring before its end. -/
structure QueuedRun (ε : Type) where
  run : SessionRun ε
  queued : List Event
  reading : List (List Bytes)

namespace QueuedRun

abbrev session (a : QueuedRun ε) : Session := a.run.session

abbrev outstanding (a : QueuedRun ε) : List OpenRequest := a.run.outstanding

/-- What happens of itself, in whatever order: a channel brings a body, a queued event is met, the end
of a channel is met, and an open comes back with whatever result. -/
inductive Goes (a : QueuedRun ε) : QueuedRun ε → Prop
  | brings {front back : List (List Bytes)} {body : Bytes} {rest : List Bytes}
      (reads : a.reading = front ++ (body :: rest) :: back) :
      Goes a { a with
        queued := a.queued ++ [.notification body]
        reading := front ++ rest :: back }
  | meets {front back : List Event} {event : Event} (queued : a.queued = front ++ event :: back)
      (editor : ε) : Goes a { a with
        run := a.run.hear editor event
        queued := front ++ back }
  | ends {front back : List (List Bytes)} (reads : a.reading = front ++ [] :: back) (editor : ε) :
      Goes a { a with
        run := a.run.hear editor .channelClosed
        reading := front ++ back }
  | completes {r : OpenRequest} (asked : r ∈ a.outstanding) (result : Except EditorError View)
      (editor : ε) : Goes a { a with run := a.run.finish editor r result }

inductive Reachable (config : Config) (policy : Policy) : QueuedRun ε → Prop
  | start {s : Session} (created : Session.new config policy = .ok s) :
      Reachable config policy ⟨⟨s, [], []⟩, [], []⟩
  | posts {a : QueuedRun ε} {event : Event} (reachable : Reachable config policy a)
      (plain : event.IsPlain) : Reachable config policy { a with queued := a.queued ++ [event] }
  | attaches {a : QueuedRun ε} (reachable : Reachable config policy a) (bodies : List Bytes) :
      Reachable config policy { a with run := a.run.attach, reading := a.reading ++ [bodies] }
  | goes {a a' : QueuedRun ε} (reachable : Reachable config policy a) (goes : a.Goes a') :
      Reachable config policy a'

theorem Reachable.goes_all {config : Config} {policy : Policy} {a a' : QueuedRun ε}
    (reachable : Reachable config policy a) (goes : Relation.ReflTransGen Goes a a') :
    Reachable config policy a' := by
  induction goes with
  | refl => exact reachable
  | tail _ goes ih => exact ih.goes goes

theorem Reachable.hears {config : Config} {policy : Policy} {a : QueuedRun ε} {event : Event}
    (reachable : Reachable config policy a) (plain : event.IsPlain) (editor : ε) :
    Reachable config policy { a with run := a.run.hear editor event } := by
  have queued : a.queued ++ [event] = a.queued ++ event :: [] := rfl
  simpa using (reachable.posts plain).goes (.meets queued editor)

/-- The books agree with what has not come back. -/
structure Balanced (a : QueuedRun ε) : Prop where
  plain : ∀ event ∈ a.queued, event.IsPlain
  opens : a.session.pendingOpens = a.outstanding.length
  readers : a.session.readers = a.reading.length
  opening : ∀ document, a.session.synchronizer.isOpening document →
    ∃ r ∈ a.outstanding, r.document = document

theorem Balanced.hear {a : QueuedRun ε} {event : Event} (balanced : a.Balanced)
    (plain : event.opens = 0) (editor : ε) {queued : List Event} {reading : List (List Bytes)}
    (among : ∀ event ∈ queued, event.IsPlain)
    (read : reading.length + event.ends = a.reading.length) :
    Balanced { a with run := a.run.hear editor event, queued := queued, reading := reading } := by
  obtain ⟨opens, readers⟩ := Moment.counts_after (a.run.facing editor event)
  have counted := balanced.opens
  have ended := balanced.readers
  constructor
  case plain => exact among
  case opens =>
    change (a.run.facing editor event).after.session.pendingOpens = _
    rw [opens]
    simp only [SessionRun.hear, SessionRun.meet, outstanding, List.length_append]
    simp only [session, outstanding, SessionRun.facing, plain] at counted ⊢
    omega
  case readers =>
    change (a.run.facing editor event).after.session.readers = _
    rw [readers]
    simp only [session, SessionRun.facing] at ended ⊢
    omega
  case opening =>
    intro document opening
    rcases (Moment.isOpening_after (a.run.facing editor event) document).mp opening with
      ⟨r, asked, same⟩ | ⟨before, _⟩
    · exact ⟨r, List.mem_append_right _ asked, same⟩
    · obtain ⟨r, waits, same⟩ := balanced.opening document before
      exact ⟨r, List.mem_append_left _ waits, same⟩

theorem Balanced.opens_finish {a : QueuedRun ε} {r : OpenRequest} (balanced : a.Balanced)
    (asked : r ∈ a.outstanding) (result : Except EditorError View) (editor : ε) :
    (a.run.finish editor r result).session.pendingOpens + 1 = a.session.pendingOpens := by
  have counted := (a.run.facing editor (.viewOpened r.document result r.pending)).counts_after.1
  have some := List.length_pos_of_mem asked
  rw [Moment.requests_of_opens rfl] at counted
  rw [← balanced.opens] at some
  simp only [session, SessionRun.finish, SessionRun.meet, SessionRun.facing, Event.opens,
    List.length_nil] at *
  omega

theorem Balanced.readers_end {a : QueuedRun ε} (balanced : a.Balanced) (reads : a.reading ≠ [])
    (editor : ε) : (a.run.hear editor .channelClosed).session.readers + 1 = a.session.readers := by
  have counted := (a.run.facing editor .channelClosed).counts_after.2
  have some := List.length_pos_iff.mpr reads
  rw [← balanced.readers] at some
  simp only [session, SessionRun.hear, SessionRun.meet, SessionRun.facing, Event.ends] at *
  omega

/-- A completed open unmarks its document, and is the only one that need not wait any longer. -/
theorem Balanced.finish {a : QueuedRun ε} {r : OpenRequest} (balanced : a.Balanced)
    (asked : r ∈ a.outstanding) (result : Except EditorError View) (editor : ε) :
    Balanced { a with run := a.run.finish editor r result } := by
  have left := a.run.outstanding_finish editor r result
  constructor
  case plain => exact balanced.plain
  case opens =>
    have counted := balanced.opens_finish asked result editor
    have opens := balanced.opens
    have some := List.length_pos_of_mem asked
    change (a.run.finish editor r result).session.pendingOpens =
      (a.run.finish editor r result).outstanding.length
    rw [left, List.length_erase_of_mem asked]
    omega
  case readers =>
    exact (a.run.facing editor (.viewOpened r.document result r.pending)).counts_after.2.trans
      balanced.readers
  case opening =>
    intro document opening
    let m := a.run.facing editor (.viewOpened r.document result r.pending)
    rcases (m.isOpening_after document).mp opening with ⟨r', asked', _⟩ | ⟨before, other⟩
    · rw [Moment.requests_of_opens rfl] at asked'
      simp at asked'
    · obtain ⟨r', waits, same⟩ := balanced.opening document before
      refine ⟨r', ?_, same⟩
      change r' ∈ (a.run.finish editor r result).outstanding
      rw [left]
      refine (List.mem_erase_of_ne ?_).mpr waits
      rintro rfl
      exact other (.inl (by simp [m, SessionRun.facing, Event.completed?, same]))

theorem Balanced.goes {a a' : QueuedRun ε} (balanced : a.Balanced) (goes : a.Goes a') :
    a'.Balanced := by
  cases goes with
  | @brings front back body rest reads =>
    refine { balanced with plain := fun event among => ?_, readers := ?_ }
    · rcases List.mem_append.mp among with before | new
      · exact balanced.plain event before
      · obtain rfl := List.mem_singleton.mp new
        exact ⟨rfl, rfl⟩
    · have readers := balanced.readers
      rw [reads] at readers
      simpa using readers
  | @meets front back event queued editor =>
    have plain : event.IsPlain := balanced.plain event (by simp [queued])
    refine balanced.hear plain.1 editor (fun other among => balanced.plain other ?_) ?_
    · rw [queued]
      rcases List.mem_append.mp among with before | behind
      · exact List.mem_append_left _ before
      · exact List.mem_append_right _ (List.mem_cons_of_mem _ behind)
    · rw [plain.2, Nat.add_zero]
  | @ends front back reads editor =>
    refine balanced.hear rfl editor balanced.plain ?_
    rw [reads]
    simp [Event.ends]
    omega
  | completes asked result editor => exact balanced.finish asked result editor

theorem Balanced.goes_all {a a' : QueuedRun ε} (balanced : a.Balanced)
    (goes : Relation.ReflTransGen Goes a a') : a'.Balanced := by
  induction goes with
  | refl => exact balanced
  | tail _ goes ih => exact ih.goes goes

theorem Reachable.balanced {config : Config} {policy : Policy} {a : QueuedRun ε}
    (reachable : Reachable config policy a) : a.Balanced := by
  induction reachable with
  | @start s created =>
    have fresh := SessionRun.new_empty created
    have zero := Session.counts_new created
    constructor
    case plain => simp
    case opens => exact zero.1
    case readers => exact zero.2
    case opening =>
      intro document opening
      have closed : s.synchronizer.isOpening document = false := fresh.2.2.1 document
      exact Bool.noConfusion (closed.symm.trans opening)
  | @posts a event _ plain ih =>
    refine { ih with plain := fun other among => ?_ }
    rcases List.mem_append.mp among with before | new
    · exact ih.plain other before
    · obtain rfl := List.mem_singleton.mp new
      exact plain
  | @attaches a _ bodies ih =>
    refine { ih with readers := ?_ }
    have readers := ih.readers
    simp only [session, SessionRun.attach, List.length_append, List.length_singleton] at readers ⊢
    omega
  | goes _ goes ih => exact ih.goes goes

/-- A body counts twice, in its channel and in the queue. -/
def input (a : QueuedRun ε) : Nat :=
  a.queued.length + tally (fun bodies => 2 * bodies.length + 1) a.reading

/-- Input first, then opens: bodies and queued events are used up, and completions ask for nothing. -/
def Less (a' a : QueuedRun ε) : Prop :=
  Prod.Lex (· < ·) (· < ·) (a'.input, a'.outstanding.length) (a.input, a.outstanding.length)

theorem less_of_goes {a a' : QueuedRun ε} (goes : a.Goes a') : a'.Less a := by
  cases goes with
  | brings reads =>
    refine Prod.Lex.left _ _ ?_
    simp only [input, reads, List.length_append, tally_append, tally_cons, List.length_cons,
      List.length_nil]
    omega
  | meets queued editor =>
    refine Prod.Lex.left _ _ ?_
    simp only [input, queued, List.length_append, List.length_cons]
    omega
  | ends reads editor =>
    refine Prod.Lex.left _ _ ?_
    simp only [input, reads, tally_append, tally_cons, List.length_nil]
    omega
  | @completes r asked result editor =>
    refine Prod.Lex.right _ ?_
    have some := List.length_pos_of_mem asked
    change (a.run.finish editor r result).outstanding.length < a.outstanding.length
    rw [SessionRun.outstanding_finish, List.length_erase_of_mem asked]
    omega

theorem not_goes_forever (run : Nat → QueuedRun ε) : ¬∀ n, (run n).Goes (run (n + 1)) := by
  intro forever
  have wellFounded : WellFounded (Less : QueuedRun ε → QueuedRun ε → Prop) :=
    InvImage.wf (fun a : QueuedRun ε => (a.input, a.outstanding.length))
      (Nat.lt_wfRel.wf.prod_lex Nat.lt_wfRel.wf)
  refine (wellFounded_iff_isEmpty_descending_chain.mp wellFounded).false ⟨run, fun n => ?_⟩
  exact less_of_goes (forever n)

/-- It goes on while there is anything to wait for. -/
theorem Balanced.goes_on {a : QueuedRun ε} (balanced : a.Balanced) (editor : ε)
    (busy : a.queued ≠ [] ∨ a.session.pendingOpens ≠ 0 ∨ a.session.readers ≠ 0) :
    ∃ a', a.Goes a' := by
  rw [balanced.opens, balanced.readers, Ne, Ne, Ne, List.length_eq_zero_iff,
    List.length_eq_zero_iff] at busy
  rcases busy with queued | opens | reads
  · obtain ⟨event, rest, queue⟩ := List.exists_cons_of_ne_nil queued
    exact ⟨_, .meets (queue.trans (List.nil_append _).symm) editor⟩
  · obtain ⟨r, rest, asked⟩ := List.exists_cons_of_ne_nil opens
    exact ⟨_, .completes (r := r) (by simp [asked]) (.error .closed) editor⟩
  · obtain ⟨bodies, rest, channels⟩ := List.exists_cons_of_ne_nil reads
    cases bodies with
    | nil => exact ⟨_, .ends (channels.trans (List.nil_append _).symm) editor⟩
    | cons body bodies => exact ⟨_, .brings (channels.trans (List.nil_append _).symm)⟩

omit [Editor ε] in
/-- With both counts at zero nothing is outstanding, and no document absorbs its selections. -/
theorem Balanced.rest {a : QueuedRun ε} (balanced : a.Balanced)
    (opens : a.session.pendingOpens = 0) (readers : a.session.readers = 0) :
    a.outstanding = [] ∧ a.reading = [] ∧
      ∀ document, a.session.synchronizer.isOpening document = false := by
  rw [balanced.opens, List.length_eq_zero_iff] at opens
  rw [balanced.readers, List.length_eq_zero_iff] at readers
  refine ⟨opens, readers, fun document => ?_⟩
  by_contra opening
  obtain ⟨r, waits, _⟩ := balanced.opening document (by simpa using opening)
  simp [opens] at waits

end QueuedRun

end LinkedViews
