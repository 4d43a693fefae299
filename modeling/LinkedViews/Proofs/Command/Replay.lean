import LinkedViews.Proofs.Command.Runs
import LinkedViews.Proofs.Session.Lockstep

/-! Replays told apart by nothing but the way their products came. What was read from frames before
a script and what was published by steps at its head leave sessions that answer alike. In whatever
order the tasks of each step go, the same is told of it, but for the order of opens and of writes. -/
namespace LinkedViews

def ScriptStep.raw? : ScriptStep → Option String
  | publish _ => none
  | select raw _ | sync raw | close raw => some raw

/-- A step whose document can be read. -/
def ScriptStep.Readable (step : ScriptStep) : Prop :=
  ∀ raw ∈ step.raw?, ∃ uri, Uri.parse raw = .ok uri

structure Move.Similar (move move' : Move) : Prop where
  editor : move.editor.Similar move'.editor
  announcement : move'.announcement = move.announcement
  event : move.event.Similar move.editor move'.editor move'.event

/-- A step that can be read is the same move of the user in similar editors, whatever the number of
its line. -/
theorem ScriptStep.similar_move {step : ScriptStep} {e e' : HeadlessEditor}
    (readable : step.Readable) (similar : e.Similar e') (ready : e.Ready) (ready' : e'.Ready)
    (line line' : Nat) : ∃ move move', step.move e line = .ok move ∧
      step.move e' line' = .ok move' ∧ move.Similar move' := by
  cases step with
  | publish p => exact ⟨_, _, rfl, rfl, similar, rfl, .notification _⟩
  | select raw selections =>
    obtain ⟨uri, read⟩ := readable raw rfl
    simp only [move, readDocument, read]
    exact ⟨_, _, rfl, rfl, similar.select ready ready' uri selections, rfl, .selectionChanged ..⟩
  | sync raw =>
    obtain ⟨uri, read⟩ := readable raw rfl
    simp only [move, readDocument, read]
    exact ⟨_, _, rfl, rfl, similar.openNow ready ready' uri, rfl,
      .manualSync (e.viewOf?_openNow uri) (e'.viewOf?_openNow uri)⟩
  | close raw =>
    obtain ⟨uri, read⟩ := readable raw rfl
    simp only [move, readDocument, read]
    exact ⟨_, _, rfl, rfl, similar, rfl, .viewClosed uri⟩

theorem HeadlessEditor.SameLog.logs {e e' : HeadlessEditor} (same : e.SameLog e') :
    e.Logs [] [] e' :=
  ⟨by rw [same.opens, List.append_nil], by rw [same.applied, List.append_nil]⟩

namespace Replay

/-- The same lines, but for the order of the opens, and of the writes after them. -/
def SameTelling (lines lines' : List String) : Prop :=
  ∃ (front : List String) (opens opens' : List Opened) (applied applied' : List Applied),
    opens.Perm opens' ∧ applied.Perm applied' ∧
    lines = front ++ opens.map Transcript.openLine ++ applied.map Transcript.applyLine ∧
    lines' = front ++ opens'.map Transcript.openLine ++ applied'.map Transcript.applyLine

variable {capacity : Nat} {r r' : Replay} {l l' m m' : EventLoop}

/-- The two sessions are at work in step since the last telling. -/
structure Lockstep (r r' : Replay) (l l' : EventLoop) : Prop where
  similar : l.Similar l'
  receiver : r'.transcript.receiver = r.transcript.receiver
  seen : r.transcript = .upTo r.loop
  seen' : r'.transcript = .upTo r'.loop
  logs : ∃ opens applied, r.loop.editor.Logs opens applied l.editor ∧
    r'.loop.editor.Logs opens applied l'.editor

/-- What changed since the last telling, after the heading. -/
def contents (r : Replay) (heading : List String) (l : EventLoop) : List String :=
  heading ++ (l.session.documents.drain l.session.store r.transcript.receiver).1.map
    Transcript.changeLine

theorem tell_of_logs {opens : List Opened} {applied : List Applied}
    (seen : r.transcript = .upTo r.loop) (logs : r.loop.editor.Logs opens applied l.editor)
    (heading : List String) : (r.tell heading l).1 = r.contents heading l ++
      opens.map Transcript.openLine ++ applied.map Transcript.applyLine := by
  simp only [Replay.tell, Transcript.flush, contents, seen, Transcript.upTo, logs.opens, logs.applied,
    List.drop_left, List.append_assoc]

theorem Lockstep.contents (lockstep : Lockstep r r' l l') (same : m.session.Similar m'.session)
    (heading : List String) : r'.contents heading m' = r.contents heading m := by
  simp only [Replay.contents, same.documents, same.store, lockstep.receiver]

/-- Where both log the same on the way to rest, the same is told. -/
theorem Lockstep.tell (lockstep : Lockstep r r' l l') (same : m.session.Similar m'.session)
    {opens : List Opened} {applied : List Applied} (logs : l.editor.Logs opens applied m.editor)
    (logs' : l'.editor.Logs opens applied m'.editor) (heading : List String) :
    (r'.tell heading m').1 = (r.tell heading m).1 := by
  obtain ⟨_, _, before, before'⟩ := lockstep.logs
  rw [tell_of_logs lockstep.seen (before.trans logs), tell_of_logs lockstep.seen' (before'.trans logs'),
    lockstep.contents same]

theorem Lockstep.settle (lockstep : Lockstep r r' l l') (heading : List String) :
    (r'.tell heading l'.settle.2).1 = (r.tell heading l.settle.2).1 ∧
      l.settle.2.Similar l'.settle.2 := by
  have settled := lockstep.similar.settle
  obtain ⟨_, _, logs, logs'⟩ := settled.logs
  exact ⟨lockstep.tell settled.similar.session logs logs' heading, settled.similar⟩

theorem loop_of_rests {heading lines : List String} {next : Replay}
    (rests : r.Rests heading l lines next) : l.Settles next.loop ∧
      lines = (r.tell heading next.loop).1 := by
  obtain ⟨m, settles, told⟩ := rests
  obtain rfl : m = next.loop := congrArg (fun told => told.2.loop) told
  exact ⟨settles, by rw [told]⟩

/-- However the one comes to rest, the other can come to rest as well with the same told. -/
theorem Lockstep.rests (lockstep : Lockstep r r' l l') {heading lines : List String} {next : Replay}
    (rests : r.Rests heading l lines next) : ∃ next', r'.Rests heading l' lines next' ∧
      next.loop.Similar next'.loop := by
  obtain ⟨⟨x, reaches, rest, eq⟩, told⟩ := loop_of_rests rests
  obtain ⟨x', _, _, reaches', similar, logs, logs'⟩ := lockstep.similar.concurrent.reaches reaches
  have same : next.loop.Similar (l'.rested x') := by
    rw [eq]
    exact EventLoop.similar_rested lockstep.similar.capacity similar
  have sessions : (l.rested x).session.Similar (l'.rested x').session := similar.session
  have tells := lockstep.tell sessions logs logs' heading
  refine ⟨(r'.tell heading (l'.rested x')).2, ⟨_, ⟨x', reaches', similar.atRest rest, rfl⟩, ?_⟩, same⟩
  rw [told, eq, ← tells]

/-- However the two come to rest, the same is told but for order. -/
theorem Lockstep.confluent (lockstep : Lockstep r r' l l') {heading lines lines' : List String}
    {next next' : Replay} (working : l.Working) (working' : l'.Working)
    (read : l.concurrent.incoming = []) (rests : r.Rests heading l lines next)
    (rests' : r'.Rests heading l' lines' next') :
    SameTelling lines lines' ∧ next.loop.Similar next'.loop := by
  obtain ⟨⟨x, reaches, rest, eq⟩, told⟩ := loop_of_rests rests
  obtain ⟨⟨x', reaches', rest', eq'⟩, told'⟩ := loop_of_rests rests'
  obtain ⟨similar, opens, opens', applied, applied', logs, logs', sameOpens, sameApplied⟩ :=
    lockstep.similar.concurrent.confluent working.invariant working'.invariant read reaches reaches'
      rest rest'
  obtain ⟨before, beforeApplied, earlier, earlier'⟩ := lockstep.logs
  have tells := tell_of_logs (l := l.rested x) lockstep.seen (earlier.trans logs) heading
  have tells' := tell_of_logs (l := l'.rested x') lockstep.seen' (earlier'.trans logs') heading
  have sessions : (l.rested x).session.Similar (l'.rested x').session := similar.session
  rw [lockstep.contents sessions] at tells'
  refine ⟨⟨_, _, _, _, _, sameOpens.append_left before, sameApplied.append_left beforeApplied,
    by rw [told, eq, tells], by rw [told', eq', tells']⟩, ?_⟩
  rw [eq, eq']
  exact EventLoop.similar_rested lockstep.similar.capacity similar

section Steps

variable (current : r.Current capacity) (current' : r'.Current capacity)
  (similar : r.loop.Similar r'.loop)

include current current' similar

/-- The same step leads both to the same, line by line. -/
theorem lockstep_begin {move move' : Move} {step : ScriptStep} {line line' : Nat}
    (read : step.move r.loop.editor line = .ok move)
    (read' : step.move r'.loop.editor line' = .ok move') (same : move.Similar move') :
    (r'.begin move').1 = (r.begin move).1 ∧
      Lockstep r r' (r.begin move).2 (r'.begin move').2 := by
  have makes := ScriptStep.makes_of_move read
  have makes' := ScriptStep.makes_of_move read'
  have edited : EventLoop.Similar { r.loop with editor := move.editor }
      { r'.loop with editor := move'.editor } := by
    refine { similar with
      editor := same.editor
      ready := makes.ready similar.ready
      ready' := makes'.ready similar.ready'
      queue := ?_
      jobs := ?_
      waiting := ?_ }
    · rw [current.resting.queue, current'.resting.queue]
      exact .nil
    · rw [current.resting.jobs, current'.resting.jobs]
      exact .nil
    · rw [current.resting.waiting, current'.resting.waiting]
      exact .nil
  obtain ⟨result, advances⟩ := edited.process same.event
  -- What the user does by hand is not logged.
  obtain ⟨opens, applied, logs, logs'⟩ := advances.logs
  refine ⟨?_, advances.similar, ?_, current.transcript, current'.transcript, opens, applied,
    makes.log.logs.trans logs, makes'.log.logs.trans logs'⟩
  · exact congrArg₂ List.cons same.announcement (congrArg complaint result)
  · simp only [current.transcript, current'.transcript, Transcript.upTo, similar.session.documents,
      similar.session.store]

theorem exists_lockstep {step : ScriptStep} (readable : step.Readable) (line line' : Nat) :
    ∃ move move', step.move r.loop.editor line = .ok move ∧
      step.move r'.loop.editor line' = .ok move' ∧ (r'.begin move').1 = (r.begin move).1 ∧
      Lockstep r r' (r.begin move).2 (r'.begin move').2 := by
  obtain ⟨move, move', read, read', same⟩ :=
    ScriptStep.similar_move readable similar.editor similar.ready similar.ready' line line'
  exact ⟨move, move', read, read', lockstep_begin current current' similar read read' same⟩

end Steps

/-- Both replays went through, told the same of each step, and left equal stores. -/
structure Record.Agrees (Same : List String → List String → Prop) (record record' : Record) : Prop where
  unfailed : record.failure = none ∧ record'.failure = none
  tellings : List.Forall₂ Same record.tellings record'.tellings
  store : ∃ last last', record.replay = some last ∧ record'.replay = some last' ∧
    last'.loop.session.store = last.loop.session.store

theorem Record.Agrees.cons {Same : List String → List String → Prop} {record record' : Record}
    {lines lines' : List String} (same : Same lines lines') (agrees : record.Agrees Same record') :
    (record.cons lines).Agrees Same (record'.cons lines') where
  unfailed := agrees.unfailed
  tellings := .cons same agrees.tellings
  store := agrees.store

theorem agrees_done {Same : List String → List String → Prop} (similar : r.loop.Similar r'.loop) :
    Record.Agrees Same ⟨[], none, some r⟩ ⟨[], none, some r'⟩ :=
  ⟨⟨rfl, rfl⟩, .nil, r, r', rfl, rfl, similar.session.store⟩

theorem rests_of_plays {numbered : Nat × ScriptStep} {script : Script} {record : Record} {move : Move}
    (read : numbered.2.move r.loop.editor numbered.1 = .ok move)
    (plays : Plays r (numbered :: script) record) : ∃ lines next later,
      r.Rests (r.begin move).1 (r.begin move).2 lines next ∧ Plays next script later ∧
      record = later.cons lines := by
  cases plays with
  | fails unread =>
    rw [read] at unread
    contradiction
  | makes read' rests later =>
    obtain rfl := Except.ok.inj (read'.symm.trans read)
    exact ⟨_, _, _, rests, later, rfl⟩

section Scripts

variable (current : r.Current capacity) (current' : r'.Current capacity)
  (similar : r.loop.Similar r'.loop) {script script' : Script}
  (same : script'.map Prod.snd = script.map Prod.snd)
  (readable : ∀ numbered ∈ script, numbered.2.Readable)

include current current' similar same readable

/-- In whatever order either goes. By induction on the script: similar sessions stay similar. -/
theorem agrees_of_plays {record record' : Record} (plays : Plays r script record)
    (plays' : Plays r' script' record') : record.Agrees SameTelling record' := by
  induction script generalizing r r' script' record record' with
  | nil =>
    obtain rfl : script' = [] := by simpa using same
    cases plays
    cases plays'
    exact agrees_done similar
  | cons numbered script ih =>
    obtain ⟨numbered', script', rfl, first, rest⟩ := List.map_eq_cons_iff.mp same
    obtain ⟨move, move', read, read', heading, lockstep⟩ := exists_lockstep current current' similar
      (readable numbered List.mem_cons_self) numbered.1 numbered'.1
    rw [← first] at read'
    obtain ⟨lines, next, later, rests, goesOn, rfl⟩ := rests_of_plays read plays
    obtain ⟨lines', next', later', rests', goesOn', rfl⟩ := rests_of_plays read' plays'
    have after := current.rests_begin read rests
    have after' := current'.rests_begin read' rests'
    rw [heading] at rests'
    obtain ⟨told, similar'⟩ := lockstep.confluent (current.begin read).1 (current'.begin read').1
      (current.unread_begin read) rests rests'
    exact (ih after after' similar' rest
      (fun other among => readable other (List.mem_cons_of_mem _ among)) goesOn goesOn').cons told

/-- Whatever is told of the one may be told of the other, line by line. -/
theorem exists_agrees {record : Record} (plays : Plays r script record) :
    ∃ record', Plays r' script' record' ∧ record.Agrees Eq record' := by
  induction script generalizing r r' script' record with
  | nil =>
    obtain rfl : script' = [] := by simpa using same
    cases plays
    exact ⟨_, .done r', agrees_done similar⟩
  | cons numbered script ih =>
    obtain ⟨⟨line', step'⟩, script', rfl, first, rest⟩ := List.map_eq_cons_iff.mp same
    obtain ⟨move, move', read, read', heading, lockstep⟩ := exists_lockstep current current' similar
      (readable numbered List.mem_cons_self) numbered.1 line'
    rw [← first] at read'
    obtain ⟨lines, next, later, rests, goesOn, rfl⟩ := rests_of_plays read plays
    obtain ⟨next', rests', similar'⟩ := lockstep.rests rests
    rw [← heading] at rests'
    obtain ⟨later', plays', agrees⟩ := ih (current.rests_begin read rests)
      (current'.rests_begin read' rests') similar' rest
      (fun other among => readable other (List.mem_cons_of_mem _ among)) goesOn
    exact ⟨_, .makes read' rests' plays', agrees.cons rfl⟩

/-- In the order that the loop takes, the same is told line by line. -/
theorem agrees_record : (r.record script).Agrees Eq (r'.record script') := by
  induction script generalizing r r' script' with
  | nil =>
    obtain rfl : script' = [] := by simpa using same
    exact agrees_done similar
  | cons numbered script ih =>
    obtain ⟨⟨line', step'⟩, script', rfl, first, rest⟩ := List.map_eq_cons_iff.mp same
    obtain ⟨line, step⟩ := numbered
    obtain ⟨move, move', read, read', heading, lockstep⟩ := exists_lockstep current current' similar
      (readable _ List.mem_cons_self) line line'
    obtain rfl : step' = step := first
    obtain ⟨told, similar'⟩ := lockstep.settle (r.begin move).1
    have next := current.rests_begin read (rests_settle (current.begin read).1 _)
    have next' := current'.rests_begin read' (rests_settle (current'.begin read').1 _)
    have tells : (r'.make move').1 = (r.make move).1 := by
      simp only [make, heading]
      exact told
    simp only [record, play_of_move read, play_of_move read', tells]
    exact (ih next next' similar' rest
      fun other among => readable other (List.mem_cons_of_mem _ among)).cons rfl

end Scripts

theorem Record.Agrees.symm {record record' : Record} (agrees : record.Agrees Eq record') :
    record'.Agrees Eq record := by
  obtain ⟨last, last', reached, reached', store⟩ := agrees.store
  exact ⟨agrees.unfailed.symm, agrees.tellings.flip.imp fun _ _ same => same.symm,
    last', last, reached', reached, store.symm⟩

/-- A session that met these bodies, and came to rest again. -/
structure Received (r : Replay) (bodies : List Bytes) (next : Replay) : Prop where
  settings : r.loop.session.SameSettings next.loop.session
  capacity : next.loop.capacity = r.loop.capacity
  finalState : next.loop.concurrent.finalState = (bodies.map .notification).foldl
    (FinalState.receive r.loop.session.policy) r.loop.concurrent.finalState

theorem received_nil (r : Replay) : r.Received [] r := ⟨⟨rfl, rfl, rfl, rfl, rfl⟩, rfl, rfl⟩

theorem Received.cons {body : Bytes} {bodies : List Bytes} {next last : Replay}
    (first : r.Received [body] next) (later : next.Received bodies last) :
    r.Received (body :: bodies) last where
  settings := first.settings.trans later.settings
  capacity := later.capacity.trans first.capacity
  finalState := by
    rw [later.finalState, first.finalState, first.settings.policy]
    rfl

/-- What was foreseen has come, in whatever order. -/
theorem finalState_of_rests {heading lines : List String} {next : Replay} (working : l.Working)
    (rests : r.Rests heading l lines next) : l.session.SameSettings next.loop.session ∧
      next.loop.capacity = l.capacity ∧ next.loop.concurrent.finalState = l.concurrent.finalState := by
  obtain ⟨⟨x, reaches, rest, eq⟩, -⟩ := loop_of_rests rests
  obtain ⟨-, finalState, settings⟩ := working.invariant.reaches reaches
  rw [eq, EventLoop.concurrent_rested l rest]
  exact ⟨settings, rfl, finalState⟩

theorem similar_of_received {bodies : List Bytes} {next next' : Replay}
    (current : next.Current capacity) (current' : next'.Current capacity)
    (received : r.Received bodies next) (received' : r.Received bodies next') :
    next.loop.Similar next'.loop := by
  have settings := received.settings.symm.trans received'.settings
  have similar := current.resting.invariant.similar_of_rest current'.resting.invariant
    current.resting.atRest current'.resting.atRest settings (received'.finalState.trans
      received.finalState.symm)
  exact current.resting.similar current'.resting
    (received'.capacity.trans received.capacity.symm) similar

section Received

variable (current : r.Current capacity)

include current

theorem received_of_frames {channel : Channel} {heading lines : List String} {next : Replay}
    (rests : r.Rests heading (r.loop.attach channel) lines next) :
    r.Received channel.bodies next := by
  obtain ⟨settings, same, finalState⟩ := finalState_of_rests (current.resting.attach channel) rests
  exact ⟨⟨settings.documents, settings.policy, settings.targetPlacement, settings.sourcePlacement,
    settings.reveal⟩, same, finalState.trans (current.resting.finalState_attach channel)⟩

theorem received_of_notification {announcement : String} {body : Bytes} {heading lines : List String}
    {next : Replay} (rests : r.Rests heading
      (r.begin ⟨r.loop.editor, announcement, .notification body⟩).2 lines next) :
    r.Received [body] next := by
  have working : (r.loop.process (.notification body)).2.Working := current.resting.process ⟨rfl, rfl⟩
  obtain ⟨settings, same, finalState⟩ := finalState_of_rests working rests
  have processed := Moment.settings_after ⟨r.loop.session, r.loop.editor, .notification body⟩
  exact ⟨processed.trans settings, same,
    finalState.trans (current.resting.finalState_notification body)⟩

/-- Publishing never fails, and leads to what was received. -/
theorem received_of_plays {published : Script} {publications : List Publication}
    (publishes : published.map Prod.snd = publications.map .publish) {record : Record}
    (plays : Plays r published record) : record.failure = none ∧
      record.tellings.length = published.length ∧ ∃ stocked, record.replay = some stocked ∧
      stocked.Current capacity ∧
      r.Received (publications.map fun p => (Message.publish p).encode) stocked := by
  induction publications generalizing r published record with
  | nil =>
    obtain rfl : published = [] := by simpa using publishes
    cases plays
    exact ⟨rfl, rfl, r, rfl, current, received_nil r⟩
  | cons p publications ih =>
    obtain ⟨⟨line, step⟩, published, rfl, first, rest⟩ := List.map_eq_cons_iff.mp publishes
    obtain rfl : step = .publish p := first
    cases plays with
    | fails unread => contradiction
    | makes read rests plays =>
      obtain ⟨unfailed, length, stocked, reached, current', received⟩ :=
        ih (current.rests_begin read rests) rest plays
      obtain rfl := Except.ok.inj read
      exact ⟨unfailed, congrArg (· + 1) length, stocked, reached, current',
        (received_of_notification current rests).cons received⟩

end Received

theorem plays_of_runs {config : Config} {files : Files} {path : String} {frames : Option String}
    {policy : Policy} {script : Script} {record : Record}
    (loaded : Script.load files path = .ok script) (started : start config policy = .ok r)
    (runs : Runs config files path frames policy record) :
    r.PlaysWithFrames files frames script record := by
  cases runs with
  | unloaded unloaded =>
    rw [loaded] at unloaded
    contradiction
  | unstarted _ unstarted =>
    rw [started] at unstarted
    contradiction
  | plays loaded' started' plays =>
    obtain rfl := Except.ok.inj (loaded'.symm.trans loaded)
    obtain rfl := Except.ok.inj (started'.symm.trans started)
    exact plays

theorem start_of_naming {config : Config} (policy : Policy) {naming : Naming}
    (valid : config.naming = .ok naming) : ∃ r, start config policy = .ok r := by
  simp only [start, EventLoop.new, Session.new, valid]
  exact ⟨_, rfl⟩

theorem length_of_plays {script : Script} {record : Record} (plays : Plays r script record)
    (unfailed : record.failure = none) : record.tellings.length = script.length := by
  induction plays with
  | done => rfl
  | fails => exact absurd unfailed (Option.some_ne_none _)
  | makes _ _ _ ih => exact congrArg (· + 1) (ih unfailed)

/-- Products came, and so many tellings told of it. -/
structure Prepares (capacity : Nat) (r : Replay) (bodies : List Bytes) (count : Nat)
    (front : List (List String)) (next : Replay) : Prop where
  current : next.Current capacity
  received : r.Received bodies next
  length : front.length = count

/-- What a script tells once its products came one way, and once they came the other way. -/
theorem agrees_of_prepares {bodies : List Bytes} {count count' : Nat}
    {front front' : List (List String)} {next next' : Replay}
    (first : r.Prepares capacity bodies count front next)
    (second : r.Prepares capacity bodies count' front' next') {script script' : Script}
    (same : script'.map Prod.snd = script.map Prod.snd)
    (readable : ∀ numbered ∈ script, numbered.2.Readable) :
    (∀ record record', Plays next script record → Plays next' script' record' →
      (record.after front).tellings.length = count + script.length ∧
      (record'.after front').tellings.length = count' + script.length ∧
      ((record.after front).drop count).Agrees SameTelling ((record'.after front').drop count')) ∧
    (∀ record, Plays next script record → ∃ record', Plays next' script' record' ∧
      ((record.after front).drop count).Agrees Eq ((record'.after front').drop count')) ∧
    (((next.record script).after front).drop count).Agrees Eq
      (((next'.record script').after front').drop count') := by
  obtain ⟨current, received, rfl⟩ := first
  obtain ⟨current', received', rfl⟩ := second
  have similar := similar_of_received current current' received received'
  simp only [Record.drop_after]
  refine ⟨fun record record' plays plays' => ?_, fun record plays => ?_, ?_⟩
  · have agrees := agrees_of_plays current current' similar same readable plays plays'
    have length := length_of_plays plays agrees.unfailed.1
    refine ⟨?_, ?_, agrees⟩
    · rw [Record.after, List.length_append, length]
    · rw [Record.after, List.length_append, ← agrees.tellings.length_eq, length]
  · exact exists_agrees current current' similar same readable plays
  · exact agrees_record current current' similar same readable

section Runs

variable {config : Config} {policy : Policy} {files : Files} {path : String} {script : Script}
  (current : r.Current capacity) (started : start config policy = .ok r)

include current started

theorem prepares_of_frames {frames : String} {channel : Channel}
    (loaded : Script.load files path = .ok script) (opened : openFrames files frames = .ok channel) :
    (∀ record, Runs config files path (some frames) policy record → ∃ front next later,
      r.Prepares capacity channel.bodies 1 front next ∧ Plays next script later ∧
      record = later.after front) ∧
    ∃ front next, r.Prepares capacity channel.bodies 1 front next ∧
      (∀ later, Plays next script later →
        Runs config files path (some frames) policy (later.after front)) ∧
      ((next.record script).after front).outcome = run config files path (some frames) policy := by
  refine ⟨fun record runs => ?_, ?_⟩
  · cases plays_of_runs loaded started runs with
    | unopened unopened =>
      rw [opened] at unopened
      contradiction
    | @reads next _ _ _ lines later opened' rests plays =>
      obtain rfl := Except.ok.inj (opened'.symm.trans opened)
      exact ⟨[lines], next, later, ⟨current.rests_attach rests, received_of_frames current rests, rfl⟩,
        plays, rfl⟩
  · have rests := rests_settle (r := r) (current.resting.attach channel) (framesHeading frames)
    refine ⟨[_], _, ⟨current.rests_attach rests, received_of_frames current rests, rfl⟩,
      fun later plays => .plays loaded started (.reads opened rests plays), ?_⟩
    simp only [run, loaded, started, playWithFrames, playFrames, opened, ← outcome_record]
    rfl

theorem prepares_of_publishes {published : Script} {publications : List Publication}
    (loaded : Script.load files path = .ok (published ++ script))
    (publishes : published.map Prod.snd = publications.map .publish) :
    (∀ record, Runs config files path none policy record → ∃ front next later,
      r.Prepares capacity (publications.map fun p => (Message.publish p).encode) published.length
        front next ∧ Plays next script later ∧ record = later.after front) ∧
    ∃ front next,
      r.Prepares capacity (publications.map fun p => (Message.publish p).encode) published.length
        front next ∧
      (∀ later, Plays next script later → Runs config files path none policy (later.after front)) ∧
      ((next.record script).after front).outcome = run config files path none policy := by
  refine ⟨fun record runs => ?_, ?_⟩
  · cases plays_of_runs loaded started runs with
    | none plays =>
      obtain ⟨front, before, rest⟩ := plays.split
      obtain ⟨unfailed, length, next, reached, current', received⟩ :=
        received_of_plays current publishes before
      obtain ⟨next', later, reached', plays, rfl⟩ := rest unfailed
      obtain rfl := Option.some.inj (reached.symm.trans reached')
      exact ⟨front.tellings, next, later, ⟨current', received, length⟩, plays, rfl⟩
  · have before := plays_record current published
    obtain ⟨unfailed, length, next, reached, current', received⟩ :=
      received_of_plays current publishes before
    refine ⟨_, next, ⟨current', received, length⟩, fun later plays =>
      .plays loaded started (.none (before.append unfailed reached plays)), ?_⟩
    rw [← record_append unfailed reached script, outcome_record]
    simp only [run, loaded, started]
    rfl

end Runs

/-- Whether its products came in frames before a script or were published by steps at its head, a
script is replayed alike. Whatever order the tasks of either replay go in, neither fails, each step
of the script tells the same but for the order of opens and of writes, and the two stores are equal
in the end. Whatever may be told of the steps after frames may be told of them after publishing, line
by line, and the other way round. And the program, in the order that it takes itself, tells the very
same lines. -/
theorem frames_agree_with_steps {config : Config} {policy : Policy} {naming : Naming}
    {files : Files} {script whole frames : String} {steps published steps' : Script}
    {publications : List Publication} (valid : config.naming = .ok naming)
    (loaded : Script.load files script = .ok steps)
    (loaded' : Script.load files whole = .ok (published ++ steps'))
    (publishes : published.map Prod.snd = publications.map .publish)
    (same : steps'.map Prod.snd = steps.map Prod.snd)
    (readable : ∀ step ∈ steps, step.2.Readable)
    (framed : files frames =
      .ok (publications.flatMap fun p => Frame.encode (Message.publish p).encode))
    (small : ∀ p ∈ publications, (Message.publish p).encode.length ≤ Frame.maxBody) :
    (∀ fed stocked, Runs config files script (some frames) policy fed →
      Runs config files whole none policy stocked →
      fed.tellings.length = 1 + steps.length ∧
      stocked.tellings.length = published.length + steps.length ∧
      (fed.drop 1).Agrees SameTelling (stocked.drop published.length)) ∧
    (∀ fed, Runs config files script (some frames) policy fed →
      ∃ stocked, Runs config files whole none policy stocked ∧
        (fed.drop 1).Agrees Eq (stocked.drop published.length)) ∧
    (∀ stocked, Runs config files whole none policy stocked →
      ∃ fed, Runs config files script (some frames) policy fed ∧
        (fed.drop 1).Agrees Eq (stocked.drop published.length)) ∧
    ∃ fed stocked, Runs config files script (some frames) policy fed ∧
      Runs config files whole none policy stocked ∧
      fed.outcome = run config files script (some frames) policy ∧
      stocked.outcome = run config files whole none policy ∧
      (fed.drop 1).Agrees Eq (stocked.drop published.length) := by
  obtain ⟨r, started⟩ := start_of_naming policy valid
  have current := current_start started
  let bodies := publications.map fun p => (Message.publish p).encode
  have short : ∀ body ∈ bodies, body.length ≤ Frame.maxBody := by
    intro body among
    obtain ⟨p, chosen, rfl⟩ := List.mem_map.mp among
    exact small p chosen
  have opened : openFrames files frames = .ok (.framed ⟨bodies.flatMap Frame.encode, true⟩) := by
    simp only [openFrames, framed, bodies, List.flatMap_map]
  obtain ⟨unfold_fed, front, fed, prepares, feeds, outcome⟩ :=
    prepares_of_frames current started loaded opened
  obtain ⟨unfold_stocked, front', stocked, prepares', stocks, outcome'⟩ :=
    prepares_of_publishes current started loaded' publishes
  -- Both ways the session met the same bodies, in the same order.
  rw [Channel.bodies_framed short] at unfold_fed prepares
  have readable' : ∀ step ∈ steps', step.2.Readable := by
    intro step among
    have other : step.2 ∈ steps.map Prod.snd := same ▸ List.mem_map_of_mem among
    obtain ⟨step', among', eq⟩ := List.mem_map.mp other
    exact eq ▸ readable step' among'
  refine ⟨fun one other runs runs' => ?_, fun one runs => ?_, fun other runs => ?_, ?_⟩
  · obtain ⟨_, _, _, first, plays, rfl⟩ := unfold_fed one runs
    obtain ⟨_, _, _, second, plays', rfl⟩ := unfold_stocked other runs'
    exact (agrees_of_prepares first second same readable).1 _ _ plays plays'
  · obtain ⟨_, _, _, first, plays, rfl⟩ := unfold_fed one runs
    obtain ⟨_, plays', agrees⟩ := (agrees_of_prepares first prepares' same readable).2.1 _ plays
    exact ⟨_, stocks _ plays', agrees⟩
  · obtain ⟨_, _, _, second, plays, rfl⟩ := unfold_stocked other runs
    obtain ⟨_, plays', agrees⟩ :=
      (agrees_of_prepares second prepares same.symm readable').2.1 _ plays
    exact ⟨_, feeds _ plays', agrees.symm⟩
  · exact ⟨_, _, feeds _ (plays_record prepares.current steps),
      stocks _ (plays_record prepares'.current steps'), outcome, outcome',
      (agrees_of_prepares prepares prepares' same readable).2.2⟩

namespace Sample

def publication : Publication := ⟨"file:/a.mj", "target", "js", "x", [⟨⟨0, 1⟩, ⟨0, 1⟩⟩]⟩

def outline : Publication := { publication with name := "outline" }

def selection : ScriptStep := .select "file:/a.mj" [⟨0, 1⟩]

def publishing : List String := [
  "\x7b\"publish\":[\"file:/a.mj\",\"target\",\"js\",\"x\",[[0,1,0,1]]]\x7d\n",
  "\x7b\"publish\":[\"file:/a.mj\",\"outline\",\"js\",\"x\",[[0,1,0,1]]]\x7d\n"]

def selecting : String := "\x7b\"select\":[\"file:/a.mj\",[[0,1]]]\x7d"

def files : Files
  | "selecting" => .ok (Utf8.encode selecting.toList)
  | "both" => .ok (Utf8.encode (publishing.flatMap String.toList ++ selecting.toList))
  | "frames" =>
    .ok ([publication, outline].flatMap fun p => Frame.encode (Message.publish p).encode)
  | _ => .error .missing

theorem load_selecting : Script.load files "selecting" = .ok [(1, selection)] := by cbv

theorem load_both : Script.load files "both" =
    .ok ([(1, .publish publication), (2, .publish outline)] ++ [(3, selection)]) := by cbv

theorem readable : ∀ step ∈ [(1, selection)], step.2.Readable := by
  intro step member raw document
  obtain rfl := List.mem_singleton.mp member
  obtain rfl : raw = "file:/a.mj" := by simpa [selection, ScriptStep.raw?, eq_comm] using document
  exact ⟨⟨"file", some .none, "/a.mj", none, none⟩, by cbv⟩

theorem small : ∀ p ∈ [publication, outline],
    (Message.publish p).encode.length ≤ Frame.maxBody := by
  intro p member
  rcases List.mem_pair.mp member with rfl | rfl <;> cbv

/-- The selection leads to two opens, and either may come first. -/
theorem selecting_told_alike :
    (∀ fed stocked, Runs {} files "selecting" (some "frames") .all fed →
      Runs {} files "both" none .all stocked →
      (fed.drop 1).Agrees SameTelling (stocked.drop 2)) ∧
    ∃ fed stocked, Runs {} files "selecting" (some "frames") .all fed ∧
      Runs {} files "both" none .all stocked ∧ (fed.drop 1).Agrees Eq (stocked.drop 2) := by
  have naming : Config.naming {} = .ok .default := by cbv
  obtain ⟨agrees, -, -, fed, stocked, runs, runs', -, -, told⟩ :=
    @frames_agree_with_steps {} .all .default files "selecting" "both" "frames" [(1, selection)]
      [(1, .publish publication), (2, .publish outline)] [(3, selection)] [publication, outline] naming
      load_selecting load_both rfl rfl readable rfl small
  exact ⟨fun fed stocked runs runs' => (agrees fed stocked runs runs').2.2,
    fed, stocked, runs, runs', told⟩

end Sample

end Replay

end LinkedViews
