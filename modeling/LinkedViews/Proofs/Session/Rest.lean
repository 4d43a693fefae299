import LinkedViews.Proofs.Session.Accounts
import LinkedViews.Proofs.Session.Jobs
import LinkedViews.Proofs.Wire.Frame

/-! An event loop as one way in which things go of themselves. Whatever the loop and its jobs do to an
event, a channel or an open, the books know of it; so a loop that is left to itself comes to rest,
and then nothing is left. -/
namespace LinkedViews

namespace Event

/-- The end of a channel is that of one with nothing left to bring. -/
def streams : Event → List (List Bytes)
  | channelClosed => [[]]
  | _ => []

def inputs (event : Event) : List Event :=
  match event with
  | viewOpened .. | channelClosed => []
  | event => [event]

theorem kinds (event : Event) :
    (∃ document result pending, event = viewOpened document result pending) ∨
    event = channelClosed ∨
    event.IsPlain ∧ event.keys = [] ∧ event.streams = [] ∧ event.inputs = [event] := by
  cases event <;> simp [IsPlain, opens, ends, keys, streams, inputs]

end Event

namespace Job

/-- The open that a job is to complete, or has completed. -/
def keys : Job → List (Uri × Option PendingSelection)
  | opening r => [r.key]
  | reading _ => []
  | sending s => s.event.keys

/-- What a job is to send but completions and ends. -/
def inputs : Job → List Event
  | sending s => s.event.inputs
  | _ => []

/-- What a job has yet to bring of a channel. -/
def streams : Job → List (List Bytes)
  | opening _ => []
  | reading c => [c.bodies]
  | sending ⟨_, some c⟩ => [c.bodies]
  | sending ⟨event, none⟩ => event.streams

theorem length_streams_le (job : Job) : job.streams.length ≤ 1 := by
  match job with
  | opening _ => exact Nat.zero_le _
  | reading _ => exact Nat.le_refl _
  | sending ⟨_, some _⟩ => exact Nat.le_refl _
  | sending ⟨event, none⟩ => cases event <;> simp [streams, Event.streams]

/-- A job sends completions and ends, or the bodies of a channel that it goes on with. -/
def Sound : Job → Prop
  | sending ⟨event, some _⟩ => ∃ body, event = .notification body
  | sending ⟨event, none⟩ => ¬event.IsPlain
  | _ => True

/-- The jobs hold what the first one does, with some bodies brought further. -/
structure Becomes (job : Job) (jobs : List Job) (brought : List Bytes) : Prop where
  opens : jobs.flatMap keys = job.keys
  queued : jobs.flatMap inputs = job.inputs ++ brought.map .notification
  reading : job.streams = (jobs.flatMap streams).map (brought ++ ·)
  idle : job.streams = [] → brought = []

theorem Becomes.of_eq {job other : Job} (keys : other.keys = job.keys)
    (inputs : other.inputs = job.inputs) (streams : other.streams = job.streams) :
    job.Becomes [other] [] where
  opens := by simp [keys]
  queued := by simp [inputs]
  reading := by simp [streams]
  idle _ := rfl

end Job

namespace EventLoop

/-- Whatever room there is, a channel becomes what it brought and what it has yet to bring. -/
theorem becomes_pump (room : Nat) (c : Channel) :
    (∃ brought, (Job.reading c).Becomes (sendings (c.pump room)) brought) ∧
    ∀ sender ∈ (c.pump room).2, (Job.sending sender).Sound := by
  induction room generalizing c with
  | zero =>
    unfold Channel.pump
    split
    next body rest received =>
      refine ⟨⟨[body], ?_⟩, by simp [Job.Sound]⟩
      constructor <;> simp [sendings, Job.keys, Job.inputs, Job.streams, Event.keys, Event.inputs,
        Channel.bodies_of_receive received]
    next other =>
      refine ⟨⟨[], ?_⟩, by simp [Job.Sound, Event.IsPlain, Event.ends]⟩
      constructor <;> simp [sendings, Job.keys, Job.inputs, Job.streams, Event.keys, Event.inputs,
        Event.streams, Channel.bodies_of_end other]
  | succ room ih =>
    unfold Channel.pump
    split
    next body rest received =>
      obtain ⟨⟨brought, becomes⟩, waits⟩ := ih rest
      refine ⟨⟨body :: brought, ?_⟩, waits⟩
      rw [sendings_cons]
      constructor
      case opens => exact becomes.opens
      case queued => exact congrArg (Event.notification body :: ·) becomes.queued
      case reading =>
        have own : (Job.reading c).streams = (Job.reading rest).streams.map (body :: ·) := by
          simp [Job.streams, Channel.bodies_of_receive received]
        rw [own, becomes.reading, List.map_map]
        rfl
      case idle => simp [Job.streams]
    next other =>
      refine ⟨⟨[], ?_⟩, by simp⟩
      constructor <;> simp [sendings, Job.keys, Job.inputs, Job.streams, Event.keys, Event.inputs,
        Event.streams, Channel.bodies_of_end other]

end EventLoop

section Books

variable {ε : Type} [Editor ε] {a : QueuedRun ε}

theorem exists_split_of_perm {α : Type} {x : α} {others l : List α} (perm : (x :: others).Perm l) :
    ∃ front back, l = front ++ x :: back ∧ others.Perm (front ++ back) := by
  obtain ⟨front, back, rfl⟩ := List.append_of_mem (perm.subset List.mem_cons_self)
  exact ⟨front, back, rfl, (perm.trans List.perm_middle).cons_inv⟩

theorem QueuedRun.goes_brings (brought : List Bytes) {front back : List (List Bytes)}
    {rest : List Bytes} (reads : a.reading = front ++ (brought ++ rest) :: back) :
    Relation.ReflTransGen QueuedRun.Goes a { a with
      queued := a.queued ++ brought.map .notification
      reading := front ++ rest :: back } := by
  induction brought generalizing a with
  | nil =>
    obtain ⟨run, queued, reading⟩ := a
    obtain rfl : reading = front ++ rest :: back := reads
    simp only [List.map_nil, List.append_nil]
    exact .refl
  | cons body brought ih =>
    have first : a.Goes { a with
        queued := a.queued ++ [.notification body]
        reading := front ++ (brought ++ rest) :: back } := .brings reads
    refine .head first ?_
    simpa using ih (a := { a with
      queued := a.queued ++ [.notification body]
      reading := front ++ (brought ++ rest) :: back }) rfl

/-- Between them the jobs hold just what the session waits for. -/
structure Holds (jobs : List Job) (a : QueuedRun ε) : Prop where
  opens : (jobs.flatMap Job.keys).Perm (a.outstanding.map OpenRequest.key)
  queued : (jobs.flatMap Job.inputs).Perm a.queued
  reading : (jobs.flatMap Job.streams).Perm a.reading

namespace Holds

omit [Editor ε] in
theorem perm {jobs jobs' : List Job} (holds : Holds jobs a) (perm : jobs'.Perm jobs) :
    Holds jobs' a where
  opens := (perm.flatMap fun _ _ => .refl _).trans holds.opens
  queued := (perm.flatMap fun _ _ => .refl _).trans holds.queued
  reading := (perm.flatMap fun _ _ => .refl _).trans holds.reading

/-- Whatever one of the jobs does, the channels can follow. -/
theorem becomes {job : Job} {jobs others : List Job} {brought : List Bytes}
    (holds : Holds (job :: others) a) (becomes : job.Becomes jobs brought) :
    ∃ a', Relation.ReflTransGen QueuedRun.Goes a a' ∧ a'.run = a.run ∧ Holds (jobs ++ others) a' := by
  have opens : ((jobs ++ others).flatMap Job.keys).Perm (a.outstanding.map OpenRequest.key) := by
    rw [List.flatMap_append, becomes.opens]
    exact holds.opens
  have queued : ((jobs ++ others).flatMap Job.inputs).Perm
      (a.queued ++ brought.map .notification) := by
    rw [List.flatMap_append, becomes.queued]
    have swap : (brought.map Event.notification ++ others.flatMap Job.inputs).Perm
        (others.flatMap Job.inputs ++ brought.map .notification) := List.perm_append_comm
    rw [List.append_assoc]
    refine (swap.append_left job.inputs).trans ?_
    rw [← List.append_assoc]
    exact holds.queued.append_right _
  have reading := holds.reading
  rw [List.flatMap_cons] at reading
  cases streams : jobs.flatMap Job.streams with
  | nil =>
    have none : job.streams = [] := by rw [becomes.reading, streams, List.map_nil]
    have nothing := becomes.idle none
    subst nothing
    refine ⟨a, .refl, rfl, opens, by simpa using queued, ?_⟩
    rw [List.flatMap_append, streams, ← none]
    exact reading
  | cons stream more =>
    have some : job.streams = [brought ++ stream] := by
      have own := becomes.reading
      have single := job.length_streams_le
      rw [streams, List.map_cons] at own
      rw [own, List.length_cons, List.length_map] at single
      rw [own, List.eq_nil_of_length_eq_zero (l := more) (by omega), List.map_nil]
    have left : jobs.flatMap Job.streams = [stream] := by
      have own := becomes.reading
      rw [some, streams, List.map_cons, List.cons.injEq, eq_comm (a := []), List.map_eq_nil_iff] at own
      rw [streams, own.2]
    rw [some, List.singleton_append] at reading
    obtain ⟨front, back, reads, rest⟩ := exists_split_of_perm reading
    refine ⟨_, QueuedRun.goes_brings brought reads, rfl, opens, queued, ?_⟩
    rw [List.flatMap_append, left]
    exact (rest.cons stream).trans List.perm_middle.symm

omit [Editor ε] in
theorem asks {a' : QueuedRun ε} {jobs : List Job} {requests : List OpenRequest} (holds : Holds jobs a)
    (outstanding : a'.outstanding = a.outstanding ++ requests) (queued : a'.queued = a.queued)
    (reading : a'.reading = a.reading) : Holds (jobs ++ requests.map .opening) a' := by
  have keys : (requests.map Job.opening).flatMap Job.keys = requests.map OpenRequest.key := by
    rw [List.flatMap_map, List.map_eq_flatMap]
    rfl
  have inputs : (requests.map Job.opening).flatMap Job.inputs = [] := by
    simp [List.flatMap_map, Job.inputs]
  have streams : (requests.map Job.opening).flatMap Job.streams = [] := by
    simp [List.flatMap_map, Job.streams]
  constructor
  case opens =>
    rw [List.flatMap_append, keys, outstanding, List.map_append]
    exact holds.opens.append_right _
  case queued =>
    rw [List.flatMap_append, inputs, List.append_nil, queued]
    exact holds.queued
  case reading =>
    rw [List.flatMap_append, streams, List.append_nil, reading]
    exact holds.reading

omit [Editor ε] in
theorem posts {event : Event} {jobs : List Job} (holds : Holds jobs a) (plain : event.IsPlain) :
    Holds (.sending ⟨event, none⟩ :: jobs) { a with queued := a.queued ++ [event] } := by
  obtain ⟨keys, streams, inputs⟩ : event.keys = [] ∧ event.streams = [] ∧ event.inputs = [event] := by
    rcases event.kinds with ⟨_, _, _, rfl⟩ | rfl | ⟨-, kind⟩
    · simp [Event.IsPlain, Event.opens] at plain
    · simp [Event.IsPlain, Event.ends] at plain
    · exact kind
  constructor
  case opens => simpa [Job.keys, keys] using holds.opens
  case queued =>
    rw [List.flatMap_cons, show (Job.sending ⟨event, none⟩).inputs = [event] from inputs]
    exact List.perm_append_comm.trans (holds.queued.append_right _)
  case reading => simpa [Job.streams, streams] using holds.reading

omit [Editor ε] in
theorem attaches {jobs : List Job} (holds : Holds jobs a) (channel : Channel) :
    Holds (.reading channel :: jobs) { a with
      run := a.run.attach
      reading := a.reading ++ [channel.bodies] } where
  opens := holds.opens
  queued := holds.queued
  reading := List.perm_append_comm.trans (holds.reading.append_right [channel.bodies])

/-- Whichever event is met, it is one that the session waits for. -/
theorem meets {event : Event} {jobs : List Job} (holds : Holds (.sending ⟨event, none⟩ :: jobs) a)
    (editor : ε) : ∃ a', a.Goes a' ∧ a'.session = (a.session.process editor event).session ∧
      Holds (jobs ++ (a.session.process editor event).requests.map .opening) a' := by
  have opens := holds.opens
  have queued := holds.queued
  have reading := holds.reading
  simp only [List.flatMap_cons] at opens queued reading
  rcases event.kinds with ⟨document, result, pending, rfl⟩ | rfl | ⟨-, keys, streams, inputs⟩
  · have among : (document, pending) ∈ a.outstanding.map OpenRequest.key :=
      opens.subset List.mem_cons_self
    obtain ⟨r, asked, key⟩ := List.mem_map.mp among
    obtain ⟨rfl, rfl⟩ : r.document = document ∧ r.pending = pending := Prod.mk.inj key
    refine ⟨_, .completes asked result editor, rfl, ?_⟩
    refine asks (a := { a with run := { a.run with outstanding := a.outstanding.erase r } })
      ⟨?_, queued, reading⟩ rfl rfl rfl
    have left := (List.perm_cons_erase asked).map OpenRequest.key
    exact (opens.trans left).cons_inv
  · obtain ⟨front, back, reads, rest⟩ := exists_split_of_perm reading
    refine ⟨_, .ends reads editor, rfl, ?_⟩
    exact asks (a := { a with reading := front ++ back }) ⟨opens, queued, rest⟩ rfl rfl rfl
  · have inputs : (Job.sending ⟨event, none⟩).inputs = [event] := inputs
    have keys : (Job.sending ⟨event, none⟩).keys = [] := keys
    have streams : (Job.sending ⟨event, none⟩).streams = [] := streams
    rw [inputs, List.singleton_append] at queued
    rw [keys, List.nil_append] at opens
    rw [streams, List.nil_append] at reading
    obtain ⟨front, back, queue, rest⟩ := exists_split_of_perm queued
    refine ⟨_, .meets queue editor, rfl, ?_⟩
    exact asks (a := { a with queued := front ++ back }) ⟨opens, rest, reading⟩ rfl rfl rfl

end Holds

end Books

namespace EventLoop

variable {l : EventLoop} {a : QueuedRun HeadlessEditor}

/-- The loop is in order: jobs and those who wait send what they may, every place that was given away
has a job that is to use it, and nobody waits while there is room. -/
structure Sound (l : EventLoop) : Prop where
  capacity : 1 ≤ l.capacity
  senders : ∀ job ∈ l.jobs ++ l.waiting.map .sending, job.Sound
  granted : l.granted = l.jobs.countP Job.isSending
  full : l.waiting ≠ [] → l.room = 0

/-- The loop stands for a session with what it waits for. -/
structure Enacts (l : EventLoop) (a : QueuedRun HeadlessEditor) : Prop where
  sound : l.Sound
  session : l.session = a.session
  holds : Holds (l.flight []) a

theorem Sound.grant {event : Event} {queue : List Event} (sound : l.Sound)
    (queued : l.queue = event :: queue) : ({ l with queue := queue }).grant.Sound := by
  obtain ⟨capacity, granted, full, jobs⟩ := places_of_queued queued sound.granted sound.full
  exact ⟨capacity.symm ▸ sound.capacity, jobs ▸ sound.senders, granted, full⟩

theorem Sound.process (sound : l.Sound) (event : Event) : (l.process event).2.Sound := by
  have plain (requests : List OpenRequest) : (requests.map Job.opening).countP Job.isSending = 0 := by
    simp [Job.isSending]
  refine ⟨sound.capacity, fun job among => ?_, ?_, sound.full⟩
  · simp only [EventLoop.process, List.mem_append, List.mem_map] at among
    rcases among with (old | ⟨r, _, rfl⟩) | ⟨sender, waits, rfl⟩
    · exact sound.senders job (List.mem_append_left _ old)
    · trivial
    · exact sound.senders _ (List.mem_append_right _ (List.mem_map_of_mem waits))
  · simp only [EventLoop.process, List.countP_append, plain, Nat.add_zero]
    exact sound.granted

theorem flight_process (l : EventLoop) (event : Event) : ((l.process event).2.flight []).Perm
    (l.flight [] ++ (l.session.process l.editor event).requests.map .opening) := by
  simp only [flight, process, List.append_assoc]
  exact (List.perm_append_comm.append_left _).append_left _

theorem enacts_process {event : Event} (sound : l.Sound) (holds : Holds (l.flight [event]) a)
    (session : l.session = a.session) : ∃ a', a.Goes a' ∧ (l.process event).2.Enacts a' := by
  rw [flight_cons] at holds
  obtain ⟨a', goes, session', holds'⟩ := holds.meets l.editor
  rw [← session] at session' holds'
  exact ⟨a', goes, sound.process event, session'.symm, holds'.perm (flight_process l event)⟩

theorem Enacts.take {event : Event} {queue : List Event} (enacts : l.Enacts a)
    (queued : l.queue = event :: queue) : ∃ a', a.Goes a' ∧ (l.take event queue).2.Enacts a' := by
  refine enacts_process (enacts.sound.grant queued) (flight_of_queued queued ▸ enacts.holds) ?_
  rw [session_grant]
  exact enacts.session

/-- A job may become what it sent, and what is left of it. -/
theorem Enacts.replace {job : Job} {jobs more : List Job} {editor : HeadlessEditor} {granted : Nat}
    {sent : List Event × Option Sender} {brought : List Bytes}
    (enacts : ({ l with jobs := job :: jobs }).Enacts a)
    (becomes : job.Becomes (sendings sent ++ more) brought)
    (senders : ∀ other ∈ sent.2.toList.map Job.sending ++ more, other.Sound)
    (grants : granted = (jobs ++ more).countP Job.isSending)
    (full : l.waiting ++ sent.2.toList ≠ [] →
      l.capacity - (l.queue.length + sent.1.length) - granted = 0) :
    ∃ a', Relation.ReflTransGen QueuedRun.Goes a a' ∧
      (l.replace editor granted sent (jobs ++ more)).Enacts a' := by
  have before := l.flight_of_job job jobs
  have after := l.flight_replace editor granted sent jobs more
  obtain ⟨a', goes, run, holds⟩ := (enacts.holds.perm before.symm).becomes becomes
  refine ⟨a', goes, ⟨enacts.sound.capacity, fun other among => ?_, grants, ?_⟩, ?_, holds.perm after⟩
  · simp only [EventLoop.replace, List.map_append, List.mem_append] at among
    rcases among with (old | left) | waits | new
    · exact enacts.sound.senders other (by simp [old])
    · exact senders other (List.mem_append_right _ left)
    · exact enacts.sound.senders other (List.mem_append_right _ waits)
    · exact senders other (List.mem_append_left _ new)
  · simpa [EventLoop.replace, room] using full
  · change l.session = a'.run.session
    rw [run]
    exact enacts.session

theorem becomes_of_ran {job : Job} {editor : HeadlessEditor} {sent : List Event × Option Sender}
    {more : List Job} (ran : l.Ran job editor sent more) (sound : job.Sound) :
    (∃ brought, job.Becomes (sendings sent ++ more) brought) ∧
      ∀ other ∈ sent.2.toList.map Job.sending ++ more, other.Sound := by
  cases ran with
  | held opened => exact ⟨⟨[], .of_eq rfl rfl rfl⟩, by simp [Job.Sound]⟩
  | opened opened =>
    rw [sendings_offer]
    refine ⟨⟨[], .of_eq rfl rfl rfl⟩, ?_⟩
    unfold offer
    split <;> simp [Job.Sound, Event.IsPlain, Event.opens]
  | read c => simpa using becomes_pump l.room c
  | sent event => exact ⟨⟨[], .of_eq rfl rfl rfl⟩, by simp⟩
  | sentOn event c room =>
    obtain ⟨body, rfl⟩ := sound
    obtain ⟨⟨brought, becomes⟩, senders⟩ := becomes_pump room c
    refine ⟨⟨brought, ?_⟩, by simpa using senders⟩
    rw [List.append_nil, sendings_cons]
    constructor
    case opens => exact becomes.opens
    case queued => exact congrArg (Event.notification body :: ·) becomes.queued
    case reading => exact becomes.reading
    case idle => simp [Job.streams]

theorem Enacts.runJob {job : Job} {jobs : List Job}
    (enacts : ({ l with jobs := job :: (jobs ++ l.jobs) }).Enacts a) :
    ∃ a', Relation.ReflTransGen QueuedRun.Goes a a' ∧
      ({ l.runJob job with jobs := jobs ++ (l.runJob job).jobs }).Enacts a' := by
  have sound : job.Sound := enacts.sound.senders job (by simp)
  have granted : l.granted = (job :: (jobs ++ l.jobs)).countP Job.isSending := enacts.sound.granted
  have full : l.waiting ≠ [] → l.room = 0 := enacts.sound.full
  obtain ⟨kept, grants⟩ := granted_of_cons granted
  obtain ⟨editor, sent, more, ran, eq, full⟩ := ran_runJob kept full
  obtain ⟨⟨brought, becomes⟩, senders⟩ := becomes_of_ran ran sound
  have left : more.countP Job.isSending = 0 := by
    cases ran <;> simp [Job.isSending]
  have replaced : { l.runJob job with jobs := jobs ++ (l.runJob job).jobs } = l.replace editor
      (l.granted - if job.isSending then 1 else 0) sent (jobs ++ l.jobs ++ more) := by
    rw [eq, List.append_assoc]
    rfl
  rw [replaced]
  refine enacts.replace becomes senders ?_ full
  rw [List.countP_append, left, Nat.add_zero]
  exact grants

theorem Enacts.foldl_runJob {jobs : List Job} (enacts : ({ l with jobs := jobs ++ l.jobs }).Enacts a) :
    ∃ a', Relation.ReflTransGen QueuedRun.Goes a a' ∧ (jobs.foldl EventLoop.runJob l).Enacts a' := by
  induction jobs generalizing l a with
  | nil => exact ⟨a, .refl, enacts⟩
  | cons job jobs ih =>
    obtain ⟨a', goes, enacts'⟩ := enacts.runJob
    obtain ⟨a'', later, enacts''⟩ := ih enacts'
    exact ⟨a'', goes.trans later, enacts''⟩

theorem Enacts.work (enacts : l.Enacts a) :
    ∃ a', Relation.ReflTransGen QueuedRun.Goes a a' ∧ l.work.Enacts a' := by
  refine Enacts.foldl_runJob (l := { l with jobs := [] }) ?_
  simpa using enacts

/-- Once the books are settled there is nothing on the way. -/
theorem Enacts.nothing (enacts : l.Enacts a) (balanced : a.Balanced) (empty : l.queue = [])
    (quiet : l.isQuiet) : l.jobs = [] ∧ l.waiting = [] ∧
      ∀ document, l.session.synchronizer.isOpening document = false := by
  simp only [isQuiet, decide_eq_true_eq, enacts.session] at quiet
  obtain ⟨opens, reading, closed⟩ := balanced.rest quiet.1 quiet.2
  have flight : l.flight [] = l.jobs ++ l.waiting.map .sending := by
    simp [EventLoop.flight, empty]
  have keys := enacts.holds.opens
  have streams := enacts.holds.reading
  rw [opens, List.map_nil, List.perm_nil, List.flatMap_eq_nil_iff, flight] at keys
  rw [reading, List.perm_nil, List.flatMap_eq_nil_iff, flight] at streams
  have none : l.jobs ++ l.waiting.map .sending = [] := by
    refine List.eq_nil_iff_forall_not_mem.mpr fun job among => ?_
    have sound := enacts.sound.senders job among
    have key := keys job among
    have stream := streams job among
    cases job with
    | opening r => simp [Job.keys] at key
    | reading c => simp [Job.streams] at stream
    | sending sender =>
      obtain ⟨event, _ | c⟩ := sender
      · rcases event.kinds with ⟨_, _, _, rfl⟩ | rfl | ⟨plain, -⟩
        · simp [Job.keys, Event.keys] at key
        · simp [Job.streams, Event.streams] at stream
        · exact sound plain
      · simp [Job.streams] at stream
  rw [List.append_eq_nil_iff, List.map_eq_nil_iff] at none
  exact ⟨none.1, none.2, enacts.session ▸ closed⟩

theorem Enacts.queue_work (enacts : l.Enacts a) (balanced : a.Balanced)
    (released : l.editor.held = false) (empty : l.queue = []) (busy : ¬l.isQuiet = true) :
    l.work.queue ≠ [] := by
  refine queue_work_of_busy released enacts.sound.capacity enacts.sound.granted enacts.sound.full
    empty ?_
  by_contra idle
  simp only [not_or, not_not] at idle
  have flight : l.flight [] = [] := by simp [EventLoop.flight, empty, idle.1, idle.2]
  have holds := enacts.holds
  rw [flight] at holds
  have opens := balanced.opens
  have readers := balanced.readers
  rw [List.map_eq_nil_iff.mp (List.nil_perm.mp holds.opens)] at opens
  rw [List.nil_perm.mp holds.reading] at readers
  exact busy (by simp [isQuiet, enacts.session, opens, readers])

theorem held_openView (e : HeadlessEditor) (document : Uri) (placement : Placement) :
    (e.openView document placement).2.held = e.held := by
  obtain ⟨_, -, eq⟩ | ⟨-, -, eq⟩ | ⟨-, -, eq⟩ := e.openView_cases document placement
  · rw [eq]
  · rw [eq]
  · rw [eq]
    exact (e.gates_openNow document).1

theorem held_runJob (l : EventLoop) (job : Job) : (l.runJob job).editor.held = l.editor.held := by
  cases job with
  | opening r =>
    have held := held_openView l.editor r.document r.placement
    simp only [EventLoop.runJob]
    split
    next eq => rw [eq] at held; exact held
    next eq => rw [eq] at held; exact held
  | reading c => rfl
  | sending s =>
    simp only [EventLoop.runJob]
    split <;> rfl

theorem held_work (l : EventLoop) : l.work.editor.held = l.editor.held := by
  have fold (jobs : List Job) (l : EventLoop) :
      (jobs.foldl EventLoop.runJob l).editor.held = l.editor.held := by
    induction jobs generalizing l with
    | nil => rfl
    | cons job jobs ih => rw [List.foldl_cons, ih, held_runJob]
  exact fold l.jobs { l with jobs := [] }

theorem held_after (m : Moment HeadlessEditor) : m.after.editor.held = m.editor.held := by
  apply m.after_editor_of_writes (P := (·.held = m.editor.held)) rfl
  intro editor editor' w held written
  rw [HeadlessEditor.held_setSelections written, held]

theorem held_take (l : EventLoop) (event : Event) (queue : List Event) :
    (l.take event queue).2.editor.held = l.editor.held := by
  have held := held_after ⟨l.session, l.editor, event⟩
  simp only [EventLoop.take, EventLoop.process, editor_grant, session_grant]
  exact held

/-- The loop from one state to another, and the events that are processed between. -/
inductive LoopTrace : EventLoop → List Event → EventLoop → Prop
  | rest (l : EventLoop) : LoopTrace l [] l
  | event {l last : EventLoop} {event : Event} {queue events : List Event}
      (queued : l.queue = event :: queue) (later : LoopTrace (l.take event queue).2 events last) :
      LoopTrace l (event :: events) last
  | work {l last : EventLoop} {events : List Event} (empty : l.queue = [])
      (later : LoopTrace l.work events last) : LoopTrace l events last

/-- Nothing but a shutdown stops the loop. -/
theorem take_stop_iff (l : EventLoop) (event : Event) (queue : List Event) :
    (l.take event queue).1 = .stop ↔ event = .shutdown := by
  have only (s : Session) (editor : HeadlessEditor) :
      Flow.ofResult (s.process editor event).result = .stop ↔ event = .shutdown := by
    cases event with
    | notification body =>
      simp only [Session.process, Session.onNotification]
      grind [Flow.ofResult]
    | viewOpened document result pending =>
      simp only [Session.process, Session.onViewOpened]
      grind [Flow.ofResult]
    | manualSync document view =>
      simp only [Session.process, Session.requestAll]
      grind [Flow.ofResult]
    | _ => simp [Session.process, Session.requestAll, Flow.ofResult]
  exact only _ _

/-- How a loop ends that is left to itself: nothing is left, or it met a shutdown. -/
structure Ends (l : EventLoop) (events : List Event) (outcome : Pause × EventLoop) : Prop where
  trace : l.LoopTrace events outcome.2
  pause : outcome.1 = .idle ∨ outcome.1 = .stopped
  stopped : outcome.1 = .stopped ↔ .shutdown ∈ events
  idle : outcome.1 = .idle → outcome.2.queue = [] ∧ outcome.2.jobs = [] ∧ outcome.2.waiting = [] ∧
    outcome.2.session.pendingOpens = 0 ∧ outcome.2.session.readers = 0 ∧
    ∀ document, outcome.2.session.synchronizer.isOpening document = false

theorem Enacts.settle (enacts : l.Enacts a) (balanced : a.Balanced)
    (released : l.editor.held = false) : ∃ events, l.Ends events l.settle := by
  fun_induction EventLoop.settle l generalizing a with
  | case1 l event queue queued next taken =>
    have stop : event = .shutdown := (take_stop_iff l event queue).mp (by rw [taken])
    refine ⟨[event], .event queued ?_, .inr rfl, by simp [stop], fun idle => ?_⟩
    · rw [taken]
      exact .rest next
    · contradiction
  | case2 l event queue queued next taken ih =>
    obtain ⟨a', goes, enacts'⟩ := enacts.take queued
    have kept := held_take l event queue
    have going : event ≠ .shutdown := by
      intro stop
      have := (take_stop_iff l event queue).mpr stop
      rw [taken] at this
      contradiction
    rw [taken] at enacts' kept
    obtain ⟨events, ends⟩ := ih enacts' (balanced.goes goes) (kept.trans released)
    refine ⟨event :: events, .event queued ?_, ends.pause, ?_, ends.idle⟩
    · rw [taken]
      exact ends.trace
    · rw [ends.stopped]
      simp [Ne.symm going]
  | case3 l queued quiet =>
    obtain ⟨jobs, waiting, closed⟩ := enacts.nothing balanced queued quiet
    simp only [isQuiet, decide_eq_true_eq] at quiet
    exact ⟨[], .rest l, .inl rfl, by simp, fun _ =>
      ⟨queued, jobs, waiting, quiet.1, quiet.2, closed⟩⟩
  | case4 l queued busy stuck =>
    exact absurd stuck (enacts.queue_work balanced released queued busy)
  | case5 l queued busy filled ih =>
    obtain ⟨a', goes, enacts'⟩ := enacts.work
    obtain ⟨events, ends⟩ := ih enacts' (balanced.goes_all goes) ((held_work l).trans released)
    exact ⟨events, .work queued ends.trace, ends.pause, ends.stopped, ends.idle⟩

/-- Events are put into the queue or processed at once, channels are attached, the loop takes events
and lets its jobs work, and the editor may do anything in between. -/
inductive Reachable (config : Config) (policy : Policy) : EventLoop → Prop
  | start {l : EventLoop} (created : EventLoop.new config policy = .ok l) : Reachable config policy l
  | posts {l : EventLoop} {event : Event} (reachable : Reachable config policy l)
      (plain : event.IsPlain) : Reachable config policy { l with queue := l.queue ++ [event] }
  | processes {l : EventLoop} {event : Event} (reachable : Reachable config policy l)
      (plain : event.IsPlain) : Reachable config policy (l.process event).2
  | attaches {l : EventLoop} (reachable : Reachable config policy l) (channel : Channel) :
      Reachable config policy (l.attach channel)
  | takes {l : EventLoop} {event : Event} {queue : List Event}
      (reachable : Reachable config policy l) (queued : l.queue = event :: queue) :
      Reachable config policy (l.take event queue).2
  | works {l : EventLoop} (reachable : Reachable config policy l) : Reachable config policy l.work
  | edits {l : EventLoop} (reachable : Reachable config policy l) (editor : HeadlessEditor) :
      Reachable config policy { l with editor := editor }

variable {config : Config} {policy : Policy}

theorem enacts_new (created : EventLoop.new config policy = .ok l) :
    ∃ a : QueuedRun HeadlessEditor, a.Reachable config policy ∧ l.Enacts a := by
  unfold EventLoop.new at created
  cases made : Session.new config policy with
  | error e => simp [made, bind, Except.bind] at created
  | ok s =>
    simp only [made, bind, Except.bind, pure, Except.pure, Except.ok.injEq] at created
    subst created
    refine ⟨_, .start made, ⟨Nat.le_max_right _ _, by simp, rfl, by simp⟩, rfl, ?_⟩
    exact ⟨.refl _, .refl _, .refl _⟩

theorem Enacts.posts {event : Event} (enacts : l.Enacts a) (plain : event.IsPlain) :
    ({ l with queue := l.queue ++ [event] }).Enacts { a with queued := a.queued ++ [event] } := by
  have flight : (({ l with queue := l.queue ++ [event] }).flight []).Perm (l.flight [event]) := by
    simp only [EventLoop.flight, List.nil_append, List.map_append, List.append_assoc]
    exact List.perm_middle
  refine ⟨⟨enacts.sound.capacity, enacts.sound.senders, enacts.sound.granted, fun some => ?_⟩,
    enacts.session, (enacts.holds.posts plain).perm flight⟩
  have := enacts.sound.full some
  simp only [room, List.length_append, List.length_singleton] at this ⊢
  omega

theorem Enacts.attaches (enacts : l.Enacts a) (channel : Channel) : (l.attach channel).Enacts { a with
    run := a.run.attach
    reading := a.reading ++ [channel.bodies] } := by
  have flight : ((l.attach channel).flight []).Perm (.reading channel :: l.flight []) := by
    have shape : (l.attach channel).flight [] =
        (l.queue.map (fun event => Job.sending ⟨event, none⟩) ++ l.jobs) ++
          .reading channel :: l.waiting.map .sending := by
      simp [EventLoop.flight, EventLoop.attach]
    rw [shape]
    exact List.perm_middle
  refine ⟨⟨enacts.sound.capacity, fun job among => ?_, ?_, enacts.sound.full⟩, ?_,
    (enacts.holds.attaches channel).perm flight⟩
  · by_cases new : job = .reading channel
    · subst new
      trivial
    · refine enacts.sound.senders job ?_
      simp_all [EventLoop.attach]
  · simpa [EventLoop.attach, Job.isSending] using enacts.sound.granted
  · simp only [EventLoop.attach, enacts.session]
    rfl

theorem Reachable.enacts (reachable : l.Reachable config policy) :
    ∃ a : QueuedRun HeadlessEditor, a.Reachable config policy ∧ l.Enacts a := by
  induction reachable with
  | start created => exact enacts_new created
  | posts _ plain ih =>
    obtain ⟨a, known, enacts⟩ := ih
    exact ⟨_, known.posts plain, enacts.posts plain⟩
  | @processes l event _ plain ih =>
    obtain ⟨a, known, enacts⟩ := ih
    have holds : Holds (l.flight [event]) { a with queued := a.queued ++ [event] } :=
      enacts.holds.posts plain
    obtain ⟨a', goes, enacts'⟩ := enacts_process enacts.sound holds enacts.session
    exact ⟨a', (known.posts plain).goes goes, enacts'⟩
  | attaches _ channel ih =>
    obtain ⟨a, known, enacts⟩ := ih
    exact ⟨_, known.attaches _, enacts.attaches channel⟩
  | takes _ queued ih =>
    obtain ⟨a, known, enacts⟩ := ih
    obtain ⟨a', goes, enacts'⟩ := enacts.take queued
    exact ⟨a', known.goes goes, enacts'⟩
  | works _ ih =>
    obtain ⟨a, known, enacts⟩ := ih
    obtain ⟨a', goes, enacts'⟩ := enacts.work
    exact ⟨a', known.goes_all goes, enacts'⟩
  | edits _ editor ih =>
    obtain ⟨a, known, enacts⟩ := ih
    exact ⟨a, known, ⟨enacts.sound.capacity, enacts.sound.senders, enacts.sound.granted,
      enacts.sound.full⟩, enacts.session, enacts.holds⟩

theorem Reachable.ends (reachable : l.Reachable config policy) (released : l.editor.held = false) :
    ∃ events, l.Ends events l.settle := by
  obtain ⟨a, known, enacts⟩ := reachable.enacts
  exact enacts.settle known.balanced released

end EventLoop

namespace QueuedRun

/-- The books of a session, in every run. Both counts are exact, and a document counts as being
opened only while an open of it is outstanding; so no count is ever taken below zero. Completions ask
for nothing. What is on its way is met in the end, in whatever order; it goes on while either count
is not zero or an event is queued, and when it does not, nothing is outstanding, nothing is read, and
no document absorbs its selections. A loop that is left to itself is such a run: it meets finitely
many events, and unless it meets a shutdown, it ends with nothing on the way. -/
theorem accounts_balance_until_rest {ε : Type} [Editor ε] (config : Config) (policy : Policy) :
    (∀ a : QueuedRun ε, a.Reachable config policy →
      a.session.pendingOpens = a.outstanding.length ∧
      a.session.readers = a.reading.length ∧
      (∀ document, a.session.synchronizer.isOpening document →
        ∃ r ∈ a.outstanding, r.document = document) ∧
      (∀ r ∈ a.outstanding, ∀ (editor : ε) (result : Except EditorError View),
        (a.run.finish editor r result).session.pendingOpens + 1 = a.session.pendingOpens) ∧
      (a.reading ≠ [] → ∀ editor : ε,
        (a.run.hear editor .channelClosed).session.readers + 1 = a.session.readers) ∧
      (a.queued ≠ [] ∨ a.session.pendingOpens ≠ 0 ∨ a.session.readers ≠ 0 →
        ∀ _ : ε, ∃ a', a.Goes a') ∧
      (a.session.pendingOpens = 0 → a.session.readers = 0 → a.outstanding = [] ∧ a.reading = [] ∧
        ∀ document, a.session.synchronizer.isOpening document = false)) ∧
    (∀ (s : Session) (editor : ε) (document : Uri) (result : Except EditorError View)
      (pending : Option PendingSelection),
      (s.process editor (.viewOpened document result pending)).requests = []) ∧
    (∀ run : Nat → QueuedRun ε, ¬∀ n, (run n).Goes (run (n + 1))) ∧
    ∀ l : EventLoop, l.Reachable config policy → l.editor.held = false →
      ∃ events, l.Ends events l.settle := by
  refine ⟨fun a reachable => ?_, ?_, not_goes_forever, fun l reachable => reachable.ends⟩
  · have balanced := reachable.balanced
    exact ⟨balanced.opens, balanced.readers, balanced.opening,
      fun r asked editor result => balanced.opens_finish asked result editor,
      balanced.readers_end, fun busy editor => balanced.goes_on editor busy, balanced.rest⟩
  · intro s editor document result pending
    exact s.requests_onViewOpened editor document result pending

namespace Sample

open SessionRun.TwoGestures

/-- Two opens are outstanding, and a channel is read that has nothing left to bring. -/
def queuedRun : QueuedRun HeadlessEditor := ⟨SessionRun.TwoGestures.gestured.attach, [], [[]]⟩

theorem reachable_queuedRun : queuedRun.Reachable {} .none := by
  have plain : ∀ document view selections,
    (Event.selectionChanged document view selections).IsPlain := fun _ _ _ => ⟨rfl, rfl⟩
  have supplied : Reachable {} .none
      ⟨SessionRun.hear ⟨started, [], []⟩ editor (.notification body), [], []⟩ :=
    (Reachable.start new_started).hears ⟨rfl, rfl⟩ editor
  rw [hear_body] at supplied
  exact (((supplied.hears (plain _ _ _) editor).hears (plain _ _ _) editor).hears (plain _ _ _)
    editor).attaches []

/-- A loop that reads the same body from a channel. -/
def loop : EventLoop :=
  EventLoop.attach ⟨started, .new, 256, [], [], [], 0⟩ (.queued ⟨[body], 0, none, true⟩)

theorem reachable_loop : loop.Reachable {} .none := by
  refine EventLoop.Reachable.attaches (.start ?_) _
  rw [EventLoop.new, new_started]
  rfl

/-- The counts as they are, what one completion and one end make of them, and the loop at its end. -/
theorem accounts_balance_here :
    (queuedRun.outstanding.length = 2 ∧ queuedRun.session.pendingOpens = 2 ∧
      queuedRun.session.readers = 1) ∧
    (queuedRun.run.finish editor (request ⟨3, 9⟩) (.error .closed)).session.pendingOpens = 1 ∧
    (queuedRun.run.hear editor .channelClosed).session.readers = 0 ∧
    (∃ a', queuedRun.Goes a') ∧
    loop.editor.held = false ∧ ∃ events, loop.Ends events loop.settle := by
  obtain ⟨accounts, -, -, ends⟩ := accounts_balance_until_rest (ε := HeadlessEditor) {} .none
  obtain ⟨opens, readers, -, finish, ended, goes, -⟩ := accounts queuedRun reachable_queuedRun
  have outstanding : queuedRun.outstanding = [request ⟨0, 3⟩, request ⟨3, 9⟩] := gestured_outstanding
  have second := finish (request ⟨3, 9⟩) (by simp [outstanding]) editor (.error .closed)
  have closed := ended (by simp [queuedRun]) editor
  rw [outstanding] at opens
  rw [readers] at closed
  rw [opens] at second
  refine ⟨⟨by rw [outstanding]; rfl, opens, readers⟩, Nat.succ.inj second, Nat.succ.inj closed,
    goes (.inr (.inl ?_)) editor, rfl, ends loop reachable_loop rfl⟩
  rw [opens]
  simp

end Sample

end QueuedRun

end LinkedViews
