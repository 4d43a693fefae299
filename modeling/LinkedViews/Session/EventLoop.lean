import LinkedViews.Session.Job

/-! A session at work: events wait in a bounded queue, and jobs wait for their turn. The loop takes
every queued event before any job runs, and each job in turn runs as far as it can. An event frees
a place, which is given to the first job that waits for one. -/
namespace LinkedViews

/-- `granted` counts the places given to jobs that have yet to use them. -/
structure EventLoop where
  session : Session
  editor : HeadlessEditor
  capacity : Nat
  queue : List Event
  jobs : List Job
  waiting : List Sender
  granted : Nat

/-- Why the loop pauses: there is nothing left to wait for, it was told to stop, or it waits for an
open that is held back. -/
inductive Pause
  | idle
  | stopped
  | held
  deriving DecidableEq, Repr

namespace EventLoop

/-- The queue has at least one place. -/
def new (config : Config) (policy : Policy) : Except SessionError EventLoop := do
  let session ← Session.new config policy
  return ⟨session, .new, max config.session.eventCapacity 1, [], [], [], 0⟩

def room (l : EventLoop) : Nat := l.capacity - l.queue.length - l.granted

/-- Puts an event behind all others, if there is a place for it. -/
def post? (l : EventLoop) (event : Event) : Option EventLoop :=
  if l.room = 0 then none else some { l with queue := l.queue ++ [event] }

/-- Starts to read a channel. -/
def attach (l : EventLoop) (channel : Channel) : EventLoop :=
  { l with
    session := { l.session with readers := l.session.readers + 1 }
    jobs := l.jobs ++ [.reading channel] }

/-- One event. The opens it asks for become jobs. -/
def process (l : EventLoop) (event : Event) : Except SessionError Flow × EventLoop :=
  let step := l.session.process l.editor event
  (step.result, { l with
    session := step.session
    editor := step.editor
    jobs := l.jobs ++ step.requests.map .opening })

/-- The first job that waits for a place gets the one that became free. -/
def grant (l : EventLoop) : EventLoop :=
  match l.waiting with
  | [] => l
  | sender :: waiting =>
    { l with
      waiting := waiting
      granted := l.granted + 1
      jobs := l.jobs ++ [.sending sender] }

/-- Takes an event whose place in the queue is free from now on. -/
def take (l : EventLoop) (event : Event) (queue : List Event) : Flow × EventLoop :=
  let (result, l) := { l with queue := queue }.grant.process event
  (.ofResult result, l)

/-- Puts events into the queue, and lets what found no place wait. -/
def deliver (l : EventLoop) (sent : List Event × Option Sender) : EventLoop :=
  { l with queue := l.queue ++ sent.1, waiting := l.waiting ++ sent.2.toList }

def offer (room : Nat) (event : Event) : List Event × Option Sender :=
  if room = 0 then ([], some ⟨event, none⟩) else ([event], none)

/-- An open that is held back stays a job. -/
def runJob (l : EventLoop) : Job → EventLoop
  | .opening r =>
    match l.editor.openView r.document r.placement with
    | (none, editor) => { l with editor := editor, jobs := l.jobs ++ [.opening r] }
    | (some result, editor) =>
      { l with editor := editor }.deliver
        (offer l.room (.viewOpened r.document result r.pending))
  | .reading channel => l.deliver (channel.pump l.room)
  | .sending sender =>
    let l := { l with queue := l.queue ++ [sender.event], granted := l.granted - 1 }
    match sender.channel with
    | none => l
    | some channel => l.deliver (channel.pump l.room)

/-- Every job has its turn. -/
def work (l : EventLoop) : EventLoop := l.jobs.foldl runJob { l with jobs := [] }

def takeUntilStopped (l : EventLoop) : List Event → EventLoop
  | [] => { l with queue := [] }
  | event :: queue =>
    match l.take event queue with
    | (.stop, l) => l
    | (.continue, l) => l.takeUntilStopped queue

/-- Takes what is queued, up to a shutdown behind it all; then every job has its turn. -/
def runToShutdown (l : EventLoop) : EventLoop :=
  (l.takeUntilStopped (l.queue ++ [.shutdown])).work

/-- The editor once the session is gone: opens that were requested still complete, unless they are
held back, and nobody hears of it. -/
def abandon (l : EventLoop) : HeadlessEditor :=
  l.jobs.foldl (fun editor job =>
    match job with
    | .opening r => (editor.openView r.document r.placement).2
    | _ => editor) l.editor

/-- Nothing can come any more without a new event from outside. -/
def isQuiet (l : EventLoop) : Bool := l.session.pendingOpens = 0 ∧ l.session.readers = 0

-- Input never grows, and each event uses some of it up or completes an open. Completed opens ask for
-- no others, so the loop comes to rest.
def input (l : EventLoop) : Nat :=
  inputOf l.queue + tally Job.input l.jobs + tally Sender.input l.waiting

def opens (l : EventLoop) : Nat :=
  opensOf l.queue + tally Job.opens l.jobs + tally Sender.opens l.waiting

theorem input_grant (l : EventLoop) : l.grant.input = l.input := by
  unfold grant
  split
  next => rfl
  next h => simp [input, h, Job.input]; omega

theorem opens_grant (l : EventLoop) : l.grant.opens = l.opens := by
  unfold grant
  split
  next => rfl
  next h => simp [opens, h, Job.opens]; omega

theorem tally_input_opening (requests : List OpenRequest) :
    tally Job.input (requests.map Job.opening) = 0 := by
  induction requests <;> simp_all [Job.input]

theorem input_process (l : EventLoop) (event : Event) : (l.process event).2.input = l.input := by
  simp [process, input, tally_input_opening]

theorem opens_process {l : EventLoop} {event : Event} (completion : event.opens = 1) :
    (l.process event).2.opens = l.opens := by
  cases event <;> simp [Event.opens] at completion
  simp [process, opens, Session.process, Session.requests_onViewOpened]

theorem input_take {l : EventLoop} {event : Event} {queue : List Event}
    (h : l.queue = event :: queue) : (l.take event queue).2.input + event.input = l.input := by
  simp only [take, input_process, input_grant]
  simp [input, inputOf, h]
  omega

theorem opens_take {l : EventLoop} {event : Event} {queue : List Event}
    (h : l.queue = event :: queue) (completion : event.opens = 1) :
    (l.take event queue).2.opens + 1 = l.opens := by
  simp only [take, opens_process completion, opens_grant]
  simp [opens, opensOf, h, completion]
  omega

theorem input_deliver (l : EventLoop) (sent : List Event × Option Sender) :
    (l.deliver sent).input = l.input + (inputOf sent.1 + (sent.2.map Sender.input).getD 0) := by
  obtain ⟨events, _ | sender⟩ := sent <;> simp [deliver, input, inputOf] <;> omega

theorem opens_deliver (l : EventLoop) (sent : List Event × Option Sender) :
    (l.deliver sent).opens = l.opens + (opensOf sent.1 + (sent.2.map Sender.opens).getD 0) := by
  obtain ⟨events, _ | sender⟩ := sent <;> simp [deliver, opens, opensOf] <;> omega

theorem input_runJob_le (l : EventLoop) (job : Job) :
    (l.runJob job).input ≤ l.input + job.input := by
  cases job with
  | opening r =>
    simp only [runJob]
    split
    next => simp [input, Job.input]
    next =>
      rw [input_deliver]
      unfold offer
      split <;> simp [inputOf, Event.input, Sender.input, input]
  | reading channel =>
    have := channel.input_pump_le l.room
    rw [runJob, input_deliver, Job.input]
    omega
  | sending sender =>
    simp only [runJob, Job.input, Sender.input]
    split
    next h => simp [input, inputOf, h]; omega
    next channel h =>
      rw [input_deliver, h]
      have := channel.input_pump_le
        { l with queue := l.queue ++ [sender.event], granted := l.granted - 1 }.room
      simp [input, inputOf] at this ⊢
      omega

theorem opens_runJob (l : EventLoop) (job : Job) :
    (l.runJob job).opens = l.opens + job.opens := by
  cases job with
  | opening r =>
    simp only [runJob]
    split
    next => simp [opens, Job.opens]; omega
    next =>
      rw [opens_deliver]
      unfold offer
      split <;> simp [opensOf, Event.opens, Sender.opens, opens, Job.opens]
  | reading channel => rw [runJob, opens_deliver, channel.opens_pump, Job.opens]
  | sending sender =>
    simp only [runJob, Job.opens, Sender.opens]
    split
    next h => simp [opens, opensOf]; omega
    next channel h => rw [opens_deliver, channel.opens_pump]; simp [opens, opensOf]; omega

theorem input_foldl_runJob_le (jobs : List Job) (l : EventLoop) :
    (jobs.foldl runJob l).input ≤ l.input + tally Job.input jobs := by
  induction jobs generalizing l with
  | nil => simp
  | cons job jobs ih =>
    have := ih (l.runJob job)
    have := l.input_runJob_le job
    simp only [List.foldl_cons, tally_cons]
    omega

theorem opens_foldl_runJob (jobs : List Job) (l : EventLoop) :
    (jobs.foldl runJob l).opens = l.opens + tally Job.opens jobs := by
  induction jobs generalizing l with
  | nil => simp
  | cons job jobs ih =>
    simp only [List.foldl_cons, tally_cons, ih, opens_runJob]
    omega

theorem input_work_le (l : EventLoop) : l.work.input ≤ l.input := by
  have := input_foldl_runJob_le l.jobs { l with jobs := [] }
  simp only [work, input, tally_nil] at this ⊢
  omega

theorem opens_work (l : EventLoop) : l.work.opens = l.opens := by
  have := opens_foldl_runJob l.jobs { l with jobs := [] }
  simp only [work, opens, tally_nil] at this ⊢
  omega

/-- Input first, then opens, then whether the queue has to be filled. -/
def remaining (l : EventLoop) : Nat × Nat × Nat :=
  (l.input, l.opens, if l.queue = [] then 1 else 0)

def Shorter : Nat × Nat × Nat → Nat × Nat × Nat → Prop :=
  Prod.Lex (· < ·) (Prod.Lex (· < ·) (· < ·))

theorem shorter_take {l : EventLoop} {event : Event} {queue : List Event}
    (h : l.queue = event :: queue) : Shorter (l.take event queue).2.remaining l.remaining := by
  have input := input_take h
  rcases event.input_or_opens with uses | ⟨free, completion⟩
  next => exact Prod.Lex.left _ _ (by omega)
  next =>
    have opens := opens_take h completion
    simp only [remaining, show (l.take event queue).2.input = l.input by omega]
    exact Prod.Lex.right _ (Prod.Lex.left _ _ (by omega))

theorem shorter_work {l : EventLoop} (empty : l.queue = []) (filled : l.work.queue ≠ []) :
    Shorter l.work.remaining l.remaining := by
  simp only [remaining, empty, filled, opens_work]
  rcases Nat.lt_or_eq_of_le l.input_work_le with less | same
  next => exact Prod.Lex.left _ _ less
  next =>
    rw [same]
    exact Prod.Lex.right _ (Prod.Lex.right _ (by simp))

/-- Takes every queued event, then lets every job have its turn, until neither is needed. -/
def settle (l : EventLoop) : Pause × EventLoop :=
  match _ : l.queue with
  | event :: queue =>
    match _ : l.take event queue with
    | (.stop, next) => (.stopped, next)
    | (.continue, next) => next.settle
  | [] =>
    if l.isQuiet then (.idle, l)
    else if l.work.queue = [] then (.held, l.work)
    else l.work.settle
termination_by l.remaining
decreasing_by
  · have := shorter_take ‹l.queue = _ :: _›
    rwa [‹l.take _ _ = _›] at this
  · exact shorter_work ‹_› ‹_›

end EventLoop

end LinkedViews
