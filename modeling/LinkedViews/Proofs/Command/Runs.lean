import LinkedViews.Command.Replay
import LinkedViews.Proofs.Session.Schedule
import LinkedViews.Proofs.Store.Feed

/-! Every way in which a script may be replayed. Between two steps the tasks of the session go in any
order until they are at rest; the loop's own order is one of them. -/
namespace LinkedViews

/-- What may come of a move: the editor goes on as before, nothing is logged, and the event is neither
a completion nor an end. -/
structure HeadlessEditor.Makes (e : HeadlessEditor) (move : Move) : Prop where
  ready : e.Ready → move.editor.Ready
  log : e.SameLog move.editor
  plain : move.event.IsPlain

theorem ScriptStep.read_of_bind {line : Nat} {raw : String} {α : Type} {f : Uri → α} {a : α}
    (read : (readDocument line raw >>= fun uri => pure (f uri)) = .ok a) :
    ∃ uri, Uri.parse raw = .ok uri ∧ a = f uri := by
  rw [readDocument] at read
  cases parsed : Uri.parse raw with
  | error e =>
    rw [parsed] at read
    contradiction
  | ok uri =>
    rw [parsed] at read
    exact ⟨uri, rfl, (Except.ok.inj read).symm⟩

theorem ScriptStep.makes_of_move {step : ScriptStep} {e : HeadlessEditor} {line : Nat} {move : Move}
    (read : step.move e line = .ok move) : e.Makes move := by
  cases step with
  | publish p =>
    obtain rfl := Except.ok.inj read
    exact ⟨id, ⟨rfl, rfl⟩, rfl, rfl⟩
  | select raw selections =>
    obtain ⟨uri, -, rfl⟩ := read_of_bind read
    exact ⟨fun ready => ready.select uri selections, e.sameLog_select uri selections, rfl, rfl⟩
  | sync raw =>
    obtain ⟨uri, -, rfl⟩ := read_of_bind read
    exact ⟨fun ready => ready.openNow uri, e.sameLog_openNow uri, rfl, rfl⟩
  | close raw =>
    obtain ⟨uri, -, rfl⟩ := read_of_bind read
    exact ⟨id, ⟨rfl, rfl⟩, rfl, rfl⟩

theorem EventLoop.resting_new {config : Config} {policy : Policy} {l : EventLoop}
    (created : EventLoop.new config policy = .ok l) : l.Resting := by
  unfold EventLoop.new at created
  cases made : Session.new config policy with
  | error e => simp [made, bind, Except.bind] at created
  | ok s =>
    simp only [made, bind, Except.bind, pure, Except.pure, Except.ok.injEq] at created
    subst created
    have fresh := SessionRun.new_empty made
    have zero := Session.counts_new made
    refine ⟨⟨⟨HeadlessEditor.ready_new, by simp [concurrent, flight], ?_, fun d => ?_, zero.1, ?_⟩,
      by simp [concurrent, flight], zero.2, ?_⟩, Nat.le_max_right _ _, rfl, rfl, rfl, rfl⟩
    · simp [concurrent, ConcurrentState.underWay, flight]
    · have closed : s.synchronizer.isOpening d = false := fresh.2.2.1 d
      simp [concurrent, ConcurrentState.underWay, flight, closed]
    · simp [concurrent, ConcurrentState.underWay, flight]
    · simp [concurrent, ConcurrentState.underWay, flight]

theorem EventLoop.Settles.leads {l l' : EventLoop} (settles : l.Settles l') :
    ∃ moments, l.Leads moments l' := by
  obtain ⟨x, reaches, -, rfl⟩ := settles
  obtain ⟨moments, row, documents, grows⟩ := ConcurrentState.moments_of_reaches reaches
  exact ⟨moments, row, documents, grows⟩

/-- Nothing that the session did is left to tell. -/
def Transcript.upTo (l : EventLoop) : Transcript :=
  ⟨⟨(l.session.documents.changes l.session.store).length⟩, l.editor.opens.length,
    l.editor.applied.length⟩

/-- A flush tells what was stored, opened and written since the one before, and is up to date then. -/
theorem Transcript.flush_of_leads {l l' : EventLoop} {moments : List (Moment HeadlessEditor)}
    (leads : l.Leads moments l')
    (listens : l.session.documents.listener < l.session.store.inboxes.length) :
    (Transcript.upTo l).flush l' =
      ((Receiver.kept l.session.documents.capacity
          ((Moment.stored moments).map Published.change)).map changeLine
        ++ (l'.editor.opens.drop l.editor.opens.length).map openLine
        ++ (l'.editor.applied.drop l.editor.applied.length).map applyLine, .upTo l') := by
  have changes := (leads.row.changes listens).2
  have drained := Receiver.drain_append l.session.documents.capacity
    (l.session.documents.changes l.session.store) ((Moment.stored moments).map Published.change)
  simp only [flush, upTo, Documents.drain, leads.documents]
  rw [changes, drained]

namespace Replay

/-- Lines told step by step, and what ended the replay before its time. -/
structure Record where
  tellings : List (List String)
  failure : Option CommandFailure
  replay : Option Replay

namespace Record

def failed (failure : CommandFailure) (replay : Option Replay) : Record := ⟨[], some failure, replay⟩

def cons (lines : List String) (record : Record) : Record :=
  { record with tellings := lines :: record.tellings }

def after (front : List (List String)) (record : Record) : Record :=
  { record with tellings := front ++ record.tellings }

def drop (n : Nat) (record : Record) : Record := { record with tellings := record.tellings.drop n }

theorem drop_after (front : List (List String)) (record : Record) :
    (record.after front).drop front.length = record := by
  rw [drop, after, List.drop_left]

def outcome (record : Record) : Outcome := ⟨record.tellings.flatten, record.failure, record.replay⟩

end Record

/-- The session came to rest in some order, and what it did was told. -/
def Rests (r : Replay) (heading : List String) (l : EventLoop) (lines : List String)
    (next : Replay) : Prop :=
  ∃ l', l.Settles l' ∧ r.tell heading l' = (lines, next)

/-- What may be told of a script. -/
inductive Plays : Replay → Script → Record → Prop
  | done (r : Replay) : Plays r [] ⟨[], none, some r⟩
  | fails {r : Replay} {line : Nat} {step : ScriptStep} {failure : CommandFailure}
      (unread : step.move r.loop.editor line = .error failure) (script : Script) :
      Plays r ((line, step) :: script) (.failed failure (some r))
  | makes {r next : Replay} {line : Nat} {step : ScriptStep} {move : Move} {script : Script}
      {lines : List String} {record : Record} (read : step.move r.loop.editor line = .ok move)
      (rests : r.Rests (r.begin move).1 (r.begin move).2 lines next)
      (later : Plays next script record) : Plays r ((line, step) :: script) (record.cons lines)

inductive PlaysWithFrames (files : Files) (r : Replay) : Option String → Script → Record → Prop
  | none {script : Script} {record : Record} (plays : Plays r script record) :
      PlaysWithFrames files r none script record
  | unopened {path : String} {failure : CommandFailure}
      (unopened : openFrames files path = .error failure) (script : Script) :
      PlaysWithFrames files r (some path) script (.failed failure (some r))
  | reads {next : Replay} {path : String} {channel : Channel} {script : Script}
      {lines : List String} {record : Record} (opened : openFrames files path = .ok channel)
      (rests : r.Rests (framesHeading path) (r.loop.attach channel) lines next)
      (later : Plays next script record) :
      PlaysWithFrames files r (some path) script (record.cons lines)

/-- What may come of a replay. -/
inductive Runs (config : Config) (files : Files) (path : String) (frames : Option String)
    (policy : Policy) : Record → Prop
  | unloaded {failure : CommandFailure} (unloaded : Script.load files path = .error failure) :
      Runs config files path frames policy (.failed failure none)
  | unstarted {script : Script} {failure : CommandFailure}
      (loaded : Script.load files path = .ok script)
      (unstarted : start config policy = .error failure) :
      Runs config files path frames policy (.failed failure none)
  | plays {script : Script} {r : Replay} {record : Record}
      (loaded : Script.load files path = .ok script) (started : start config policy = .ok r)
      (plays : r.PlaysWithFrames files frames script record) :
      Runs config files path frames policy record

variable {r : Replay} {first script : Script}

theorem Plays.append {front record : Record} {next : Replay} (plays : Plays r first front)
    (unfailed : front.failure = none) (reached : front.replay = some next)
    (later : Plays next script record) : Plays r (first ++ script) (record.after front.tellings) := by
  induction plays with
  | done r =>
    obtain rfl := Option.some.inj reached
    exact later
  | fails unread => exact absurd unfailed (Option.some_ne_none _)
  | makes read rests _ ih => exact .makes read rests (ih unfailed reached)

/-- A script that is replayed in two parts. -/
theorem Plays.split {record : Record} (plays : Plays r (first ++ script) record) :
    ∃ front, Plays r first front ∧ (front.failure = none → ∃ next later,
      front.replay = some next ∧ Plays next script later ∧ record = later.after front.tellings) := by
  induction first generalizing r record with
  | nil => exact ⟨_, .done r, fun _ => ⟨r, record, rfl, plays, rfl⟩⟩
  | cons numbered first ih =>
    cases plays with
    | fails unread =>
      exact ⟨_, .fails unread first, fun unfailed => absurd unfailed (Option.some_ne_none _)⟩
    | makes read rests plays =>
      obtain ⟨front, plays, rest⟩ := ih plays
      refine ⟨_, .makes read rests plays, fun unfailed => ?_⟩
      obtain ⟨next, later, reached, goesOn, rfl⟩ := rest unfailed
      exact ⟨next, later, reached, goesOn, rfl⟩

/-- At rest, with everything told, under a feed of that capacity. -/
structure Current (capacity : Nat) (r : Replay) : Prop where
  resting : r.loop.Resting
  transcript : r.transcript = .upTo r.loop
  capacity : r.loop.session.documents.capacity = capacity
  listens : r.loop.session.documents.listener < r.loop.session.store.inboxes.length

variable {capacity : Nat}

theorem current_start {config : Config} {policy : Policy} (started : start config policy = .ok r) :
    r.Current (roundCapacity config.session.changeCapacity) := by
  cases created : EventLoop.new config policy with
  | error e => simp [start, created, Except.mapError, bind, Except.bind] at started
  | ok l =>
    have resting := EventLoop.resting_new created
    cases named : config.naming with
    | error e => simp [EventLoop.new, Session.new, named, bind, Except.bind] at created
    | ok naming =>
      simp only [EventLoop.new, Session.new, named] at created
      obtain rfl := Except.ok.inj created
      simp only [start, EventLoop.new, Session.new, named] at started
      obtain rfl := Except.ok.inj started
      exact ⟨resting, rfl, rfl, Nat.zero_lt_one⟩

theorem Current.tell {l : EventLoop} {moments : List (Moment HeadlessEditor)}
    (current : r.Current capacity) (leads : r.loop.Leads moments l) (resting : l.Resting)
    (heading : List String) : (r.tell heading l).2.Current capacity := by
  refine ⟨resting, ?_, ?_, ?_⟩
  · rw [Replay.tell, current.transcript, Transcript.flush_of_leads leads current.listens]
  · exact (congrArg Documents.capacity leads.documents).trans current.capacity
  · show l.session.documents.listener < l.session.store.inboxes.length
    rw [leads.documents]
    exact (leads.row.changes current.listens).1

section Steps

variable (current : r.Current capacity)

include current

/-- What a move sets going. -/
theorem Current.begin {step : ScriptStep} {line : Nat} {move : Move}
    (read : step.move r.loop.editor line = .ok move) : (r.begin move).2.Working ∧
      ∃ moments, r.loop.Leads moments (r.begin move).2 := by
  have makes := ScriptStep.makes_of_move read
  have edited := current.resting.edit (makes.ready current.resting.invariant.ready)
  have edits : r.loop.Leads [] { r.loop with editor := move.editor } :=
    ⟨.rest _, rfl, makes.log.grows⟩
  exact ⟨edited.process makes.plain, _, edits.trans (EventLoop.leads_process _ move.event)⟩

/-- No channel is read while a move is under way. -/
theorem Current.unread_begin {step : ScriptStep} {line : Nat} {move : Move}
    (read : step.move r.loop.editor line = .ok move) :
    (r.begin move).2.concurrent.incoming = [] := by
  have makes := ScriptStep.makes_of_move read
  have edited := current.resting.edit (makes.ready current.resting.invariant.ready)
  have processed := edited.concurrent_process move.event
  rw [edited.concurrent_eq] at processed
  exact congrArg ConcurrentState.incoming processed

theorem Current.rests_begin {step : ScriptStep} {line : Nat} {move : Move} {lines : List String}
    {next : Replay} (read : step.move r.loop.editor line = .ok move)
    (rests : r.Rests (r.begin move).1 (r.begin move).2 lines next) : next.Current capacity := by
  obtain ⟨l', settles, told⟩ := rests
  obtain ⟨working, _, leads⟩ := current.begin read
  obtain ⟨_, later⟩ := settles.leads
  have after := current.tell (leads.trans later) (working.resting settles) (r.begin move).1
  rwa [told] at after

theorem Current.rests_attach {channel : Channel} {heading lines : List String} {next : Replay}
    (rests : r.Rests heading (r.loop.attach channel) lines next) : next.Current capacity := by
  obtain ⟨l', settles, told⟩ := rests
  obtain ⟨_, later⟩ := settles.leads
  have after := current.tell ((r.loop.leads_attach channel).trans later)
    ((current.resting.attach channel).resting settles) heading
  rwa [told] at after

end Steps

/-- The replay as the loop itself runs it, step by step. -/
def record (r : Replay) : Script → Record
  | [] => ⟨[], none, some r⟩
  | (line, step) :: script =>
    match r.play line step with
    | .error failure => .failed failure (some r)
    | .ok (lines, r) => (r.record script).cons lines

theorem outcome_record (r : Replay) (script : Script) :
    (r.record script).outcome = r.playAll script := by
  induction script generalizing r with
  | nil => rfl
  | cons numbered script ih =>
    obtain ⟨line, step⟩ := numbered
    cases played : r.play line step with
    | error failure =>
      simp only [record, playAll, played]
      rfl
    | ok told =>
      simp only [record, playAll, played, ← ih]
      rfl

theorem record_append {next : Replay} (unfailed : (r.record first).failure = none)
    (reached : (r.record first).replay = some next) (script : Script) :
    r.record (first ++ script) = (next.record script).after (r.record first).tellings := by
  induction first generalizing r with
  | nil =>
    obtain rfl : r = next := Option.some.inj reached
    rfl
  | cons numbered first ih =>
    obtain ⟨line, step⟩ := numbered
    cases played : r.play line step with
    | error failure =>
      simp only [record, played] at unfailed
      exact absurd unfailed (Option.some_ne_none _)
    | ok told =>
      simp only [record, played] at unfailed reached
      simp only [List.cons_append, record, played, ih unfailed reached]
      rfl

theorem rests_settle {l : EventLoop} (working : l.Working) (heading : List String) :
    r.Rests heading l (r.tell heading l.settle.2).1 (r.tell heading l.settle.2).2 := by
  obtain ⟨l', settled, settles⟩ := working.settle
  rw [settled]
  exact ⟨l', settles, rfl⟩

theorem play_of_move {step : ScriptStep} {line : Nat} {move : Move}
    (read : step.move r.loop.editor line = .ok move) : r.play line step = .ok (r.make move) := by
  rw [play, read]
  rfl

theorem plays_record (current : r.Current capacity) (script : Script) :
    Plays r script (r.record script) := by
  induction script generalizing r with
  | nil => exact .done r
  | cons numbered script ih =>
    obtain ⟨line, step⟩ := numbered
    cases read : step.move r.loop.editor line with
    | error failure =>
      rw [record, play, read]
      exact .fails read script
    | ok move =>
      have rests := rests_settle (r := r) (current.begin read).1 (r.begin move).1
      rw [record, play_of_move read]
      exact .makes read rests (ih (current.rests_begin read rests))

end Replay

end LinkedViews
