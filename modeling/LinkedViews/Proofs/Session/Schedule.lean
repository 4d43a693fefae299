import LinkedViews.Proofs.Session.Confluence
import LinkedViews.Proofs.Session.Rest

/-! The event loop as one order in which the tasks of a session may go. The loop and its jobs hold
what the tasks have yet to do, and whatever the loop does is something that a task may do next, or
nothing to be seen from outside. -/
namespace LinkedViews

namespace Event

def incoming : Event → List Event
  | viewOpened .. => []
  | event => [event]

def completions : Event → List Event
  | viewOpened document result pending => [viewOpened document result pending]
  | _ => []

theorem completes_or_comes (event : Event) : (event.completions = [event] ∧ event.incoming = []) ∨
    (event.completions = [] ∧ event.incoming = [event]) := by
  cases event <;> simp [completions, incoming]

end Event

/-- The bodies of a channel, and its end. -/
def Channel.incoming (c : Channel) : List Event := c.bodies.map .notification ++ [.channelClosed]

def Sender.incoming (s : Sender) : List Event :=
  s.event.incoming ++ (s.channel.map Channel.incoming).getD []

namespace Job

def incoming : Job → List Event
  | opening _ => []
  | reading c => c.incoming
  | sending s => s.incoming

def completions : Job → List Event
  | sending s => s.event.completions
  | _ => []

def brings (job : Job) : Bool := !job.incoming.isEmpty

theorem incoming_of_countP {jobs : List Job} (none : jobs.countP brings = 0) :
    jobs.flatMap incoming = [] := by
  rw [List.countP_eq_zero] at none
  exact List.flatMap_eq_nil_iff.mpr fun job among => by simpa [brings] using none job among

end Job

/-- Whatever room there is, a channel brings what it has, in order. -/
theorem Channel.incoming_pump (room : Nat) (c : Channel) :
    (c.pump room).1.flatMap Event.incoming ++ ((c.pump room).2.map Sender.incoming).getD [] =
      c.incoming ∧
    (c.pump room).1.flatMap Event.completions = [] ∧
    (∀ sender ∈ (c.pump room).2, sender.event.completions = []) := by
  induction room generalizing c with
  | zero =>
    unfold pump
    split
    next body rest received =>
      simp [Sender.incoming, Event.incoming, Event.completions, incoming,
        bodies_of_receive received]
    next other =>
      simp [Sender.incoming, Event.incoming, Event.completions, incoming, bodies_of_end other]
  | succ room ih =>
    unfold pump
    split
    next body rest received =>
      obtain ⟨all, silent, waits⟩ := ih rest
      refine ⟨?_, by simpa [Event.completions] using silent, waits⟩
      simp only [List.flatMap_cons, List.append_assoc, all]
      simp [Event.incoming, incoming, bodies_of_receive received]
    next other =>
      simp [Event.incoming, Event.completions, incoming, bodies_of_end other]

namespace EventLoop

variable {l : EventLoop} {x : ConcurrentState} {a : QueuedRun HeadlessEditor}

/-- The session beside its tasks, once the loop is looked at as one of many ways to run them. -/
def concurrent (l : EventLoop) : ConcurrentState where
  session := l.session
  editor := l.editor
  incoming := (l.flight []).flatMap Job.incoming
  requested := l.jobs.filterMap Job.request?
  opened := (l.flight []).flatMap Job.completions

/-- The loop with nothing left to do. -/
def rested (l : EventLoop) (x : ConcurrentState) : EventLoop :=
  { l with
    session := x.session
    editor := x.editor
    queue := []
    jobs := []
    waiting := []
    granted := 0 }

/-- The tasks may come to rest like that, in some order. -/
def Settles (l l' : EventLoop) : Prop :=
  ∃ x, l.concurrent.Reaches x ∧ x.AtRest ∧ l' = l.rested x

/-- The loop holds what the tasks have yet to do. At most one of the jobs reads a channel. -/
structure Tracks (l : EventLoop) (x : ConcurrentState) : Prop where
  session : x.session = l.session
  editor : x.editor = l.editor
  incoming : x.incoming = (l.flight []).flatMap Job.incoming
  requested : (l.jobs.filterMap Job.request?).Perm x.requested
  opened : ((l.flight []).flatMap Job.completions).Perm x.opened
  single : (l.jobs ++ l.waiting.map Job.sending).countP Job.brings ≤ 1

theorem capacity_grant (l : EventLoop) : l.grant.capacity = l.capacity := by
  unfold grant
  split <;> rfl

theorem capacity_runJob (l : EventLoop) (job : Job) : (l.runJob job).capacity = l.capacity := by
  cases job with
  | opening r =>
    simp only [runJob]
    split <;> rfl
  | reading c => rfl
  | sending s =>
    simp only [runJob]
    split <;> rfl

theorem capacity_work (l : EventLoop) : l.work.capacity = l.capacity := by
  have fold (jobs : List Job) (l : EventLoop) :
      (jobs.foldl EventLoop.runJob l).capacity = l.capacity := by
    induction jobs generalizing l with
    | nil => rfl
    | cons job jobs ih => rw [List.foldl_cons, ih, capacity_runJob]
  exact fold l.jobs { l with jobs := [] }

theorem filterMap_request_opening (requests : List OpenRequest) :
    (requests.map Job.opening).filterMap Job.request? = requests := by
  rw [List.filterMap_map]
  exact List.filterMap_some

/-- An event in hand is met, and the opens that it asks for are jobs from then on. -/
theorem tracks_process {event : Event} {y : ConcurrentState} (session : y.session = l.session)
    (editor : y.editor = l.editor) (incoming : y.incoming = (l.flight []).flatMap Job.incoming)
    (requested : (l.jobs.filterMap Job.request?).Perm y.requested)
    (opened : ((l.flight []).flatMap Job.completions).Perm y.opened)
    (single : (l.jobs ++ l.waiting.map Job.sending).countP Job.brings ≤ 1) :
    (l.process event).2.Tracks (y.process event) := by
  have silent (requests : List OpenRequest) : (requests.map Job.opening).flatMap Job.incoming = [] ∧
      (requests.map Job.opening).flatMap Job.completions = [] ∧
      (requests.map Job.opening).countP Job.brings = 0 := by
    simp [List.flatMap_map, Job.incoming, Job.completions, Job.brings]
  obtain ⟨nothing, none, still⟩ := silent (l.session.process l.editor event).requests
  simp only [flight, List.nil_append, List.flatMap_append] at incoming opened
  constructor
  case session => simp only [EventLoop.process, ConcurrentState.process, session, editor]
  case editor => simp only [EventLoop.process, ConcurrentState.process, session, editor]
  case incoming =>
    simp only [EventLoop.process, ConcurrentState.process, flight, List.nil_append,
      List.flatMap_append, nothing, List.append_nil]
    exact incoming
  case requested =>
    simp only [EventLoop.process, ConcurrentState.process, session, editor, List.filterMap_append,
      filterMap_request_opening]
    exact requested.append_right _
  case opened =>
    simp only [EventLoop.process, ConcurrentState.process, flight, List.nil_append,
      List.flatMap_append, none, List.append_nil]
    exact opened
  case single =>
    simp only [EventLoop.process, List.countP_append, still, Nat.add_zero] at single ⊢
    exact single

theorem Tracks.take {event : Event} {queue : List Event} (tracks : l.Tracks x)
    (enacts : l.Enacts a) (queued : l.queue = event :: queue) :
    ∃ y, x.Next y ∧ (l.take event queue).2.Tracks y := by
  let rest : EventLoop := ({ l with queue := queue }).grant
  have session : rest.session = l.session := session_grant _
  have editor : rest.editor = l.editor := editor_grant _
  have flight : l.flight [] = .sending ⟨event, none⟩ :: rest.flight [] :=
    (flight_of_queued queued).symm
  obtain ⟨-, -, -, jobs⟩ := places_of_queued queued enacts.sound.granted enacts.sound.full
  have single : (rest.jobs ++ rest.waiting.map Job.sending).countP Job.brings ≤ 1 :=
    jobs ▸ tracks.single
  have requested : (rest.jobs.filterMap Job.request?).Perm x.requested := by
    have waiting (senders : List Sender) :
        (senders.map Job.sending).filterMap Job.request? = [] := by
      simp [List.filterMap_eq_nil_iff, Job.request?]
    have same := congrArg (List.filterMap Job.request?) jobs
    rw [List.filterMap_append, List.filterMap_append, waiting, waiting, List.append_nil,
      List.append_nil] at same
    exact (List.Perm.of_eq same).trans tracks.requested
  have incoming := tracks.incoming
  have opened := tracks.opened
  rw [flight, List.flatMap_cons] at incoming opened
  rcases event.completes_or_comes with ⟨completes, silent⟩ | ⟨silent, comes⟩
  · have own : (Job.sending ⟨event, none⟩).completions = [event] := completes
    have nothing : (Job.sending ⟨event, none⟩).incoming = [] := by
      simp [Job.incoming, Sender.incoming, silent]
    rw [own, List.singleton_append] at opened
    rw [nothing, List.nil_append] at incoming
    obtain ⟨front, back, waits, left⟩ := exists_split_of_perm opened
    exact ⟨_, .complete waits, tracks_process (y := { x with opened := front ++ back })
      (tracks.session.trans session.symm) (tracks.editor.trans editor.symm) incoming requested left
      single⟩
  · have own : (Job.sending ⟨event, none⟩).incoming = [event] := by
      simp [Job.incoming, Sender.incoming, comes]
    have nothing : (Job.sending ⟨event, none⟩).completions = [] := silent
    rw [own, List.singleton_append] at incoming
    rw [nothing, List.nil_append] at opened
    exact ⟨_, .receive incoming, tracks_process
      (y := { x with incoming := (rest.flight []).flatMap Job.incoming })
      (tracks.session.trans session.symm) (tracks.editor.trans editor.symm) rfl requested opened
      single⟩

theorem completions_pump (room : Nat) (c : Channel) :
    (sendings (c.pump room)).flatMap Job.completions = [] := by
  obtain ⟨-, silent, waits⟩ := c.incoming_pump room
  rw [sendings, List.flatMap_append, List.append_eq_nil_iff]
  refine ⟨by simpa [List.flatMap_map, Job.completions] using silent, ?_⟩
  cases sent : (c.pump room).2 with
  | none => rfl
  | some sender => simpa [Job.completions] using waits sender sent

/-- What a job sends, and what is left of it, bring what the job had to bring. -/
theorem incoming_of_ran {job : Job} {editor : HeadlessEditor} {sent : List Event × Option Sender}
    {more : List Job} (ran : l.Ran job editor sent more) :
    sent.1.flatMap Event.incoming ++ (sent.2.map Sender.incoming).getD [] = job.incoming ∧
      more.countP Job.brings = 0 ∧ more.flatMap Job.completions = [] := by
  cases ran with
  | held opened => simp [Job.incoming, Job.brings, Job.completions]
  | opened opened =>
    unfold offer
    split <;> simp [Job.incoming, Event.incoming, Sender.incoming]
  | read c => exact ⟨(c.incoming_pump l.room).1, rfl, rfl⟩
  | sent event => simp [Job.incoming, Sender.incoming]
  | sentOn event c room =>
    refine ⟨?_, rfl, rfl⟩
    rw [List.flatMap_cons, List.append_assoc, (c.incoming_pump room).1]
    rfl

/-- What waits to be sent brings something only if the job did that sent it. -/
theorem countP_brings_le {job : Job} {events : List Event} {sender : Option Sender}
    (own : events.flatMap Event.incoming ++ (sender.map Sender.incoming).getD [] = job.incoming) :
    (sender.toList.map Job.sending).countP Job.brings ≤ if job.brings then 1 else 0 := by
  cases sender with
  | none => simp
  | some s =>
    split
    next => exact List.countP_le_length
    next idle =>
      have none : job.incoming = [] := by simpa [Job.brings] using idle
      rw [none, List.append_eq_nil_iff] at own
      have silent : s.incoming = [] := own.2
      simp [Job.brings, Job.incoming, silent]

/-- A job may become what it sent. It was alone in reading a channel, if it did. -/
theorem tracks_replace {job : Job} {jobs more : List Job} {editor : HeadlessEditor} {granted : Nat}
    {sent : List Event × Option Sender} {y : ConcurrentState}
    (tracks : ({ l with jobs := job :: jobs }).Tracks x) (ran : l.Ran job editor sent more)
    (session : y.session = l.session) (shown : y.editor = editor)
    (incoming : y.incoming = x.incoming)
    (requested : ((jobs ++ more).filterMap Job.request?).Perm y.requested)
    (opened : ((sendings sent ++ (l.queue.map (fun event => Job.sending ⟨event, none⟩) ++
      (jobs ++ l.waiting.map Job.sending))).flatMap Job.completions).Perm y.opened) :
    (l.replace editor granted sent (jobs ++ more)).Tracks y := by
  obtain ⟨own, still, silent⟩ := incoming_of_ran ran
  have nothing := Job.incoming_of_countP still
  have single := tracks.single
  simp only [List.cons_append, List.countP_cons, List.countP_append] at single
  have waiting : (sent.2.toList.map Job.sending).flatMap Job.incoming =
      (sent.2.map Sender.incoming).getD [] := by
    cases sent.2 <;> simp [Job.incoming]
  have queued : (sent.1.map fun event => Job.sending ⟨event, none⟩).flatMap Job.incoming =
      sent.1.flatMap Event.incoming := by
    simp [List.flatMap_map, Job.incoming, Sender.incoming]
  have few := countP_brings_le own
  constructor
  case session => exact session
  case editor => exact shown
  case incoming =>
    rw [incoming, tracks.incoming]
    simp only [flight, EventLoop.replace, List.nil_append, List.map_append, List.flatMap_append,
      List.flatMap_cons, nothing, List.append_nil, waiting, queued]
    -- The order of what comes is kept, since no other job brings anything if this one does.
    by_cases none : job.incoming = []
    · rw [none, List.append_eq_nil_iff] at own
      rw [none, own.1, own.2]
      simp
    · have brings : job.brings = true := by simpa [Job.brings] using none
      rw [brings, if_pos rfl] at single
      have noJobs : jobs.flatMap Job.incoming = [] := Job.incoming_of_countP (by omega)
      have noWaiting : (l.waiting.map Job.sending).flatMap Job.incoming = [] :=
        Job.incoming_of_countP (by omega)
      simp [noJobs, noWaiting, own]
  case requested => exact requested
  case opened =>
    have perm := List.Perm.flatMap (f := Job.completions)
      (l.flight_replace editor granted sent jobs more) fun _ _ => .refl _
    refine perm.trans (.trans (.of_eq ?_) opened)
    simp only [List.flatMap_append, silent, List.append_nil]
  case single =>
    simp only [EventLoop.replace, List.map_append, List.countP_append, still]
    omega

theorem Tracks.replace {job : Job} {jobs more : List Job} {editor : HeadlessEditor}
    {granted : Nat} {sent : List Event × Option Sender}
    (tracks : ({ l with jobs := job :: jobs }).Tracks x) (ran : l.Ran job editor sent more) :
    ∃ y, x.Reaches y ∧ (l.replace editor granted sent (jobs ++ more)).Tracks y := by
  have session : x.session = l.session := tracks.session
  have shown : x.editor = l.editor := tracks.editor
  have requested : ((job :: jobs).filterMap Job.request?).Perm x.requested := tracks.requested
  have opened := (List.Perm.flatMap (l.flight_of_job job jobs).symm fun _ _ => .refl _).trans
    tracks.opened
  cases ran with
  | @held r _ held =>
    have waits : (l.editor.openView r.document r.placement).1 = none := by rw [held]
    have same := HeadlessEditor.openView_of_waiting waits
    rw [held] at same
    refine ⟨x, .refl,
      tracks_replace tracks (.held held) session (shown.trans same.symm) rfl ?_ opened⟩
    exact (List.perm_append_comm.filterMap _).trans requested
  | @opened r result _ completed =>
    obtain ⟨front, back, asked, left⟩ := exists_split_of_perm requested
    rw [← shown] at completed
    refine ⟨_, .single (.openView asked completed), tracks_replace tracks
      (.opened (shown ▸ completed)) session rfl rfl (by simpa using left) ?_⟩
    rw [sendings_offer]
    exact (opened.cons _).trans (List.perm_append_singleton _ _).symm
  | read c =>
    refine ⟨x, .refl, tracks_replace tracks (.read c) session shown rfl
      (by rw [List.append_nil]; exact requested) ?_⟩
    rw [List.flatMap_append, completions_pump]
    exact opened
  | sent event =>
    exact ⟨x, .refl, tracks_replace tracks (.sent event) session shown rfl
      (by rw [List.append_nil]; exact requested) opened⟩
  | sentOn event c room =>
    refine ⟨x, .refl, tracks_replace tracks (.sentOn event c room) session shown rfl
      (by rw [List.append_nil]; exact requested) ?_⟩
    rw [sendings_cons, List.cons_append, List.flatMap_cons, List.flatMap_append, completions_pump]
    exact opened

theorem Tracks.runJob {job : Job} {jobs : List Job}
    (tracks : ({ l with jobs := job :: (jobs ++ l.jobs) }).Tracks x)
    (kept : job.isSending = true → 1 ≤ l.granted) (full : l.waiting ≠ [] → l.room = 0) :
    ∃ y, x.Reaches y ∧ ({ l.runJob job with jobs := jobs ++ (l.runJob job).jobs }).Tracks y := by
  obtain ⟨editor, sent, more, ran, eq, -⟩ := ran_runJob kept full
  have replaced : { l.runJob job with jobs := jobs ++ (l.runJob job).jobs } = l.replace editor
      (l.granted - if job.isSending then 1 else 0) sent (jobs ++ l.jobs ++ more) := by
    rw [eq, List.append_assoc]
    rfl
  rw [replaced]
  exact tracks.replace ran

theorem Tracks.foldl_runJob {jobs : List Job} (tracks : ({ l with jobs := jobs ++ l.jobs }).Tracks x)
    (enacts : ({ l with jobs := jobs ++ l.jobs }).Enacts a) :
    ∃ y, x.Reaches y ∧ (jobs.foldl EventLoop.runJob l).Tracks y := by
  induction jobs generalizing l x a with
  | nil => exact ⟨x, .refl, tracks⟩
  | cons job jobs ih =>
    have granted : l.granted = (job :: (jobs ++ l.jobs)).countP Job.isSending := enacts.sound.granted
    obtain ⟨y, reaches, tracks'⟩ := tracks.runJob (granted_of_cons granted).1 enacts.sound.full
    obtain ⟨a', -, enacts'⟩ := enacts.runJob
    obtain ⟨z, later, tracks''⟩ := ih tracks' enacts'
    exact ⟨z, reaches.trans later, tracks''⟩

theorem Tracks.work (tracks : l.Tracks x) (enacts : l.Enacts a) :
    ∃ y, x.Reaches y ∧ l.work.Tracks y := by
  refine Tracks.foldl_runJob (l := { l with jobs := [] }) (a := a) ?_ ?_
  · simpa using tracks
  · simpa using enacts

theorem rested_congr {l' : EventLoop} (same : l'.capacity = l.capacity) (x : ConcurrentState) :
    l'.rested x = l.rested x := by
  rw [rested, rested, same]

/-- With nothing in flight the loop is at rest, and so are the tasks. -/
theorem Tracks.rested (tracks : l.Tracks x) (enacts : l.Enacts a) (queue : l.queue = [])
    (jobs : l.jobs = []) (waiting : l.waiting = []) : x.AtRest ∧ l = l.rested x := by
  have flight : l.flight [] = [] := by simp [EventLoop.flight, queue, jobs, waiting]
  have requested := tracks.requested
  have opened := tracks.opened
  rw [jobs] at requested
  rw [flight] at opened
  refine ⟨⟨by rw [tracks.incoming, flight]; rfl, List.nil_perm.mp requested,
    List.nil_perm.mp opened⟩, ?_⟩
  have granted : l.granted = 0 := by rw [enacts.sound.granted, jobs]; rfl
  rw [EventLoop.rested, tracks.session, tracks.editor]
  obtain ⟨session, editor, capacity, _, _, _, _⟩ := l
  simp_all

/-- A loop that is left to itself brings its tasks to rest. -/
theorem Tracks.settle (tracks : l.Tracks x) (enacts : l.Enacts a) (balanced : a.Balanced)
    (inv : x.Invariant) :
    ∃ y l', x.Reaches y ∧ y.AtRest ∧ l.settle = (.idle, l') ∧ l' = l.rested y := by
  fun_induction EventLoop.settle l generalizing a x with
  | case1 l event queue queued next taken =>
    obtain rfl : event = .shutdown := (take_stop_iff l event queue).mp (by rw [taken])
    have comes : Event.shutdown ∈ x.incoming := by
      simp [tracks.incoming, flight, queued, Job.incoming, Sender.incoming, Event.incoming]
    rcases inv.received _ comes with other | ⟨body, other⟩ <;> contradiction
  | case2 l event queue queued next taken ih =>
    obtain ⟨y, goes, tracks'⟩ := tracks.take enacts queued
    obtain ⟨a', goes', enacts'⟩ := enacts.take queued
    have capacity : (l.take event queue).2.capacity = l.capacity := capacity_grant _
    rw [taken] at tracks' enacts' capacity
    obtain ⟨z, l', reaches, rest, settled, eq⟩ :=
      ih tracks' enacts' (balanced.goes goes') (inv.next goes).1
    exact ⟨z, l', .head goes reaches, rest, settled, eq.trans (rested_congr capacity z)⟩
  | case3 l queued quiet =>
    obtain ⟨jobs, waiting, -⟩ := enacts.nothing balanced queued quiet
    obtain ⟨rest, eq⟩ := tracks.rested enacts queued jobs waiting
    exact ⟨x, l, .refl, rest, rfl, eq⟩
  | case4 l queued busy stuck =>
    have released : l.editor.held = false := tracks.editor ▸ inv.ready.released
    exact absurd stuck (enacts.queue_work balanced released queued busy)
  | case5 l queued busy filled ih =>
    obtain ⟨y, reaches, tracks'⟩ := tracks.work enacts
    obtain ⟨a', goes, enacts'⟩ := enacts.work
    obtain ⟨z, l', later, rest, settled, eq⟩ :=
      ih tracks' enacts' (balanced.goes_all goes) (inv.reaches reaches).1
    exact ⟨z, l', reaches.trans later, rest, settled,
      eq.trans (rested_congr l.capacity_work z)⟩

/-- The loop has its tasks at work, in order and accounted for. -/
structure Working (l : EventLoop) : Prop where
  invariant : l.concurrent.Invariant
  enacts : ∃ a : QueuedRun HeadlessEditor, l.Enacts a ∧ a.Balanced
  single : (l.jobs ++ l.waiting.map Job.sending).countP Job.brings ≤ 1

/-- The loop has nothing left to do. -/
structure Resting (l : EventLoop) : Prop where
  invariant : l.concurrent.Invariant
  capacity : 1 ≤ l.capacity
  queue : l.queue = []
  jobs : l.jobs = []
  waiting : l.waiting = []
  granted : l.granted = 0

/-- The order that the loop itself takes is one of many. -/
theorem Working.settle (working : l.Working) : ∃ l', l.settle = (.idle, l') ∧ l.Settles l' := by
  obtain ⟨a, enacts, balanced⟩ := working.enacts
  have tracks : l.Tracks l.concurrent := ⟨rfl, rfl, rfl, .refl _, .refl _, working.single⟩
  obtain ⟨y, l', reaches, rest, settled, eq⟩ := tracks.settle enacts balanced working.invariant
  exact ⟨l', settled, y, reaches, rest, eq⟩

theorem concurrent_rested (l : EventLoop) {x : ConcurrentState} (rest : x.AtRest) :
    (l.rested x).concurrent = x := by
  obtain ⟨_, _, _, _, _⟩ := x
  obtain ⟨rfl, rfl, rfl⟩ := rest
  rfl

/-- Whatever order the tasks took. -/
theorem Working.resting {l' : EventLoop} (working : l.Working) (settles : l.Settles l') :
    l'.Resting := by
  obtain ⟨x, reaches, rest, rfl⟩ := settles
  obtain ⟨a, enacts, -⟩ := working.enacts
  refine ⟨?_, enacts.sound.capacity, rfl, rfl, rfl, rfl⟩
  rw [concurrent_rested l rest]
  exact (working.invariant.reaches reaches).1

namespace Resting

theorem concurrent_eq (resting : l.Resting) :
    l.concurrent = ⟨l.session, l.editor, [], [], []⟩ := by
  simp [concurrent, flight, resting.queue, resting.jobs, resting.waiting]

theorem atRest (resting : l.Resting) : l.concurrent.AtRest := by
  rw [resting.concurrent_eq]
  exact ⟨rfl, rfl, rfl⟩

/-- The user does something in the editor by hand. -/
theorem edit (resting : l.Resting) {editor : HeadlessEditor} (ready : editor.Ready) :
    ({ l with editor := editor }).Resting := by
  have inv := resting.invariant
  rw [resting.concurrent_eq] at inv
  have edited : ({ l with editor := editor }).concurrent = ⟨l.session, editor, [], [], []⟩ := by
    simp [concurrent, flight, resting.queue, resting.jobs, resting.waiting]
  refine ⟨?_, resting.capacity, resting.queue, resting.jobs, resting.waiting, resting.granted⟩
  rw [edited]
  exact ⟨⟨ready, by simp, inv.nodup, inv.opening, inv.pendingOpens, inv.current⟩, inv.received,
    inv.readers, inv.plain⟩

/-- A session at rest waits for nothing. -/
theorem enacts (resting : l.Resting) : ∃ a : QueuedRun HeadlessEditor, l.Enacts a ∧ a.Balanced := by
  have inv := resting.invariant
  rw [resting.concurrent_eq] at inv
  have flight : l.flight [] = [] := by
    simp [EventLoop.flight, resting.queue, resting.jobs, resting.waiting]
  refine ⟨⟨⟨l.session, [], []⟩, [], []⟩, ⟨⟨resting.capacity, ?_, ?_, ?_⟩, rfl, ?_⟩, ?_⟩
  · simp [resting.jobs, resting.waiting]
  · simp [resting.granted, resting.jobs]
  · exact fun some => absurd resting.waiting some
  · rw [flight]
    exact ⟨.refl _, .refl _, .refl _⟩
  · refine ⟨by simp, inv.pendingOpens, inv.readers, fun d opening => ?_⟩
    have among := (inv.opening d).mp opening
    simp [ConcurrentState.underWay] at among

theorem concurrent_process (resting : l.Resting) (event : Event) :
    (l.process event).2.concurrent = l.concurrent.process event := by
  rw [resting.concurrent_eq]
  simp only [concurrent, flight, process, ConcurrentState.process, resting.queue, resting.jobs,
    resting.waiting, List.nil_append, List.map_nil, List.append_nil, filterMap_request_opening]
  simp [List.flatMap_map, Job.incoming, Job.completions]

theorem process (resting : l.Resting) {event : Event} (plain : event.IsPlain) :
    (l.process event).2.Working := by
  obtain ⟨a, enacts, balanced⟩ := resting.enacts
  have holds : Holds (l.flight [event]) { a with queued := a.queued ++ [event] } :=
    enacts.holds.posts plain
  obtain ⟨a', goes, enacts'⟩ := enacts_process (a := { a with queued := a.queued ++ [event] })
    enacts.sound holds enacts.session
  have among (other : Event) (queued : other ∈ a.queued ++ [event]) : other.IsPlain := by
    rcases List.mem_append.mp queued with before | new
    · exact balanced.plain other before
    · exact List.mem_singleton.mp new ▸ plain
  have counted : ({ a with queued := a.queued ++ [event] } : QueuedRun HeadlessEditor).Balanced :=
    { balanced with plain := among }
  refine ⟨?_, ⟨a', enacts', counted.goes goes⟩, ?_⟩
  · rw [resting.concurrent_process event]
    exact resting.invariant.process resting.atRest plain
  · simp [EventLoop.process, resting.jobs, resting.waiting, List.countP_map, Job.brings,
      Job.incoming, Function.comp_def]

theorem concurrent_attach (resting : l.Resting) (channel : Channel) :
    (l.attach channel).concurrent = ⟨{ l.session with readers := l.session.readers + 1 }, l.editor,
      channel.incoming, [], []⟩ := by
  simp [concurrent, flight, attach, resting.queue, resting.jobs, resting.waiting, Job.incoming,
    Job.completions, Job.request?]

theorem finalState_attach (resting : l.Resting) (channel : Channel) :
    (l.attach channel).concurrent.finalState =
      (channel.bodies.map .notification).foldl (FinalState.receive l.session.policy)
        l.concurrent.finalState := by
  rw [resting.concurrent_attach, resting.concurrent_eq, ConcurrentState.finalState, Channel.incoming,
    List.foldl_append]
  rfl

theorem finalState_notification (resting : l.Resting) (body : Bytes) :
    (l.process (.notification body)).2.concurrent.finalState =
      l.concurrent.finalState.receive l.session.policy (.notification body) := by
  have plain : ∀ key ∈ l.concurrent.underWay, key.2 = none := by
    simp [resting.concurrent_eq, ConcurrentState.underWay]
  have unread : l.concurrent.incoming = [] := resting.atRest.incoming
  rw [resting.concurrent_process, ConcurrentState.finalState, ConcurrentState.finalState,
    ConcurrentState.settled_notification resting.invariant.toSound plain, unread]
  simp only [ConcurrentState.process, unread, List.foldl_nil]
  rfl

theorem attach (resting : l.Resting) (channel : Channel) : (l.attach channel).Working := by
  obtain ⟨a, enacts, balanced⟩ := resting.enacts
  have inv := resting.invariant
  rw [resting.concurrent_eq] at inv
  refine ⟨?_, ⟨_, enacts.attaches channel, { balanced with readers := ?_ }⟩, ?_⟩
  · have received (event : Event) (among : event ∈ channel.incoming) :
        event = .channelClosed ∨ ∃ body, event = .notification body := by
      rcases List.mem_append.mp among with body | closed
      · obtain ⟨bytes, -, rfl⟩ := List.mem_map.mp body
        exact .inr ⟨bytes, rfl⟩
      · exact .inl (List.mem_singleton.mp closed)
    have ends : tally Event.ends channel.incoming = 1 := by
      have none (bodies : List Bytes) : tally Event.ends (bodies.map .notification) = 0 := by
        induction bodies with
        | nil => rfl
        | cons body bodies ih => rw [List.map_cons, tally_cons, ih]; rfl
      rw [Channel.incoming, tally_append, none]
      rfl
    have readers : l.session.readers = 0 := inv.readers
    rw [resting.concurrent_attach]
    exact ⟨⟨inv.ready, inv.opened, inv.nodup, inv.opening, inv.pendingOpens, inv.current⟩, received,
      by rw [readers, ends], by simp [ConcurrentState.underWay]⟩
  · have readers := balanced.readers
    simp only [QueuedRun.session, SessionRun.attach, List.length_append,
      List.length_singleton] at readers ⊢
    omega
  · simp only [EventLoop.attach, resting.jobs, resting.waiting, List.map_nil, List.append_nil,
      List.nil_append]
    exact List.countP_le_length

end Resting

end EventLoop

end LinkedViews
