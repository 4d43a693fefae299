import LinkedViews.Proofs.View.Editor
import LinkedViews.Session.EventLoop

/-! Jobs at work beside a session. No job loses what it carries, and with places free or about to be
free some job can always go on. -/
namespace LinkedViews

theorem Channel.pump_ne_nil {room : Nat} (some : room ≠ 0) (c : Channel) : (c.pump room).1 ≠ [] := by
  obtain ⟨room, rfl⟩ := Nat.exists_eq_succ_of_ne_zero some
  unfold pump
  split <;> simp

/-- What a channel brings has to wait only where there is no room left. -/
theorem Channel.length_pump {room : Nat} {c : Channel} :
    ∀ sender ∈ (c.pump room).2, (c.pump room).1.length = room := by
  induction room generalizing c with
  | zero =>
    unfold pump
    split <;> simp
  | succ room ih =>
    unfold pump
    split
    next rest _ => simpa using ih (c := rest)
    next => simp

namespace Job

def request? : Job → Option OpenRequest
  | opening r => some r
  | _ => none

def isSending : Job → Bool
  | sending _ => true
  | _ => false

end Job

namespace EventLoop

variable {l : EventLoop}

/-- An event in hand or in the queue is as good as a job that only sends it. -/
def flight (hand : List Event) (l : EventLoop) : List Job :=
  (hand ++ l.queue).map (fun event => .sending ⟨event, none⟩) ++ l.jobs ++ l.waiting.map .sending

theorem flight_cons (event : Event) (hand : List Event) (l : EventLoop) :
    l.flight (event :: hand) = .sending ⟨event, none⟩ :: l.flight hand := rfl

theorem flight_grant (hand : List Event) (l : EventLoop) : l.grant.flight hand = l.flight hand := by
  unfold grant
  split
  · rfl
  next sender waiting eq => simp [flight, eq]

theorem session_grant (l : EventLoop) : l.grant.session = l.session := by
  unfold grant
  split <;> rfl

theorem editor_grant (l : EventLoop) : l.grant.editor = l.editor := by
  unfold grant
  split <;> rfl

theorem flight_of_queued {event : Event} {queue : List Event} (queued : l.queue = event :: queue) :
    ({ l with queue := queue }).grant.flight [event] = l.flight [] := by
  rw [flight_grant]
  simp [flight, queued]

/-- Every place given away still has a job that is to use it, and nobody waits while there is room. -/
theorem places_of_queued {event : Event} {queue : List Event} (queued : l.queue = event :: queue)
    (granted : l.granted = l.jobs.countP Job.isSending) (full : l.waiting ≠ [] → l.room = 0) :
    let next := ({ l with queue := queue }).grant
    next.capacity = l.capacity ∧ next.granted = next.jobs.countP Job.isSending ∧
      (next.waiting ≠ [] → next.room = 0) ∧
      next.jobs ++ next.waiting.map .sending = l.jobs ++ l.waiting.map .sending := by
  intro next
  simp only [next]
  unfold grant
  split
  next none =>
    have none : l.waiting = [] := none
    exact ⟨rfl, granted, fun some => absurd none some, rfl⟩
  next sender waiting eq =>
    have eq : l.waiting = sender :: waiting := eq
    refine ⟨rfl, ?_, fun _ => ?_, ?_⟩
    · simp [granted, Job.isSending]
    · have none : l.room = 0 := full (by simp [eq])
      simp only [room, queued, List.length_cons] at none ⊢
      omega
    · simp [eq]

/-- What a job has sent, as jobs that only send. -/
def sendings (sent : List Event × Option Sender) : List Job :=
  sent.1.map (fun event => .sending ⟨event, none⟩) ++ sent.2.toList.map .sending

theorem sendings_offer (room : Nat) (event : Event) :
    sendings (offer room event) = [.sending ⟨event, none⟩] := by
  unfold offer
  split <;> rfl

theorem sendings_cons (event : Event) (sent : List Event × Option Sender) :
    sendings (event :: sent.1, sent.2) = .sending ⟨event, none⟩ :: sendings sent := rfl

/-- Where a job is turned into what it sent. -/
def replace (l : EventLoop) (editor : HeadlessEditor) (granted : Nat)
    (sent : List Event × Option Sender) (jobs : List Job) : EventLoop :=
  { l with
    editor := editor
    queue := l.queue ++ sent.1
    jobs := jobs
    waiting := l.waiting ++ sent.2.toList
    granted := granted }

theorem perm_regroup {α : Type} (q e j w s : List α) :
    (q ++ e ++ j ++ (w ++ s)).Perm (e ++ s ++ (q ++ (j ++ w))) := by
  have front : (q ++ e ++ (j ++ (w ++ s))).Perm (e ++ q ++ (j ++ (w ++ s))) :=
    List.perm_append_comm.append_right _
  have back : (e ++ ((q ++ (j ++ w)) ++ s)).Perm (e ++ (s ++ (q ++ (j ++ w)))) :=
    List.perm_append_comm.append_left e
  simp only [List.append_assoc] at front back ⊢
  exact front.trans back

theorem flight_of_job (l : EventLoop) (job : Job) (jobs : List Job) :
    (({ l with jobs := job :: jobs }).flight []).Perm
      (job :: (l.queue.map (fun event => Job.sending ⟨event, none⟩) ++
        (jobs ++ l.waiting.map Job.sending))) := by
  simp only [flight, List.nil_append, List.append_assoc, List.cons_append]
  exact List.perm_middle

/-- What was sent, and what is left of the job, stand beside all the others. -/
theorem flight_replace (l : EventLoop) (editor : HeadlessEditor) (granted : Nat)
    (sent : List Event × Option Sender) (jobs more : List Job) :
    ((l.replace editor granted sent (jobs ++ more)).flight []).Perm
      (sendings sent ++ more ++ (l.queue.map (fun event => Job.sending ⟨event, none⟩) ++
        (jobs ++ l.waiting.map Job.sending))) := by
  have aside : (l.queue.map (fun event => Job.sending ⟨event, none⟩) ++ (jobs ++ more ++
      l.waiting.map Job.sending)).Perm (more ++ (l.queue.map (fun event =>
        Job.sending ⟨event, none⟩) ++ (jobs ++ l.waiting.map Job.sending))) := by
    rw [List.append_assoc jobs]
    exact ((List.perm_append_comm_assoc _ _ _).append_left _).trans
      (List.perm_append_comm_assoc _ _ _)
  simp only [flight, replace, sendings, List.nil_append, List.map_append]
  refine (perm_regroup _ _ _ _ _).trans ?_
  rw [List.append_assoc (_ ++ _) more]
  exact aside.append_left _

theorem full_of_sent {sent : List Event × Option Sender} (full : l.waiting ≠ [] → l.room = 0)
    (waits : ∀ sender ∈ sent.2, sent.1.length = l.room) :
    l.waiting ++ sent.2.toList ≠ [] →
      l.capacity - (l.queue.length + sent.1.length) - l.granted = 0 := by
  intro some
  simp only [room] at full waits
  cases sender : sent.2 with
  | none =>
    have := full (by simpa [sender] using some)
    omega
  | some sender' =>
    have := waits sender' sender
    omega

/-- What a job turns into when it runs: events that found a place, one that has to wait, and what is
left of the job. -/
inductive Ran (l : EventLoop) :
    Job → HeadlessEditor → List Event × Option Sender → List Job → Prop
  | held {r : OpenRequest} {editor : HeadlessEditor}
      (opened : l.editor.openView r.document r.placement = (none, editor)) :
      Ran l (.opening r) editor ([], none) [.opening r]
  | opened {r : OpenRequest} {result : Except EditorError View} {editor : HeadlessEditor}
      (opened : l.editor.openView r.document r.placement = (some result, editor)) :
      Ran l (.opening r) editor (offer l.room (.viewOpened r.document result r.pending)) []
  | read (c : Channel) : Ran l (.reading c) l.editor (c.pump l.room) []
  | sent (event : Event) : Ran l (.sending ⟨event, none⟩) l.editor ([event], none) []
  | sentOn (event : Event) (c : Channel) (room : Nat) : Ran l (.sending ⟨event, some c⟩) l.editor
      (event :: (c.pump room).1, (c.pump room).2) []

/-- Whatever a job does, nobody is left waiting while there is room. The place that was kept for an
event is used up by it. -/
theorem ran_runJob {job : Job} (kept : job.isSending = true → 1 ≤ l.granted)
    (full : l.waiting ≠ [] → l.room = 0) : ∃ editor sent more, l.Ran job editor sent more ∧
      l.runJob job = l.replace editor (l.granted - if job.isSending then 1 else 0) sent
        (l.jobs ++ more) ∧
      (l.waiting ++ sent.2.toList ≠ [] → l.capacity - (l.queue.length + sent.1.length) -
        (l.granted - if job.isSending then 1 else 0) = 0) := by
  cases job with
  | opening r =>
    rcases opened : l.editor.openView r.document r.placement with ⟨_ | result, editor⟩
    case none =>
      refine ⟨_, _, _, .held opened, ?_, by simpa [room, Job.isSending] using full⟩
      simp [EventLoop.runJob, opened, EventLoop.replace, Job.isSending]
    case some =>
      refine ⟨_, _, _, .opened opened, ?_, full_of_sent full fun sender waits => ?_⟩
      · simp [EventLoop.runJob, opened, EventLoop.replace, deliver, Job.isSending]
      · unfold offer at waits ⊢
        split at waits
        next none => rw [if_pos none, none]; rfl
        next => contradiction
  | reading c =>
    refine ⟨_, _, _, .read c, ?_, full_of_sent full Channel.length_pump⟩
    simp [EventLoop.runJob, EventLoop.replace, deliver, Job.isSending]
  | sending s =>
    obtain ⟨event, channel⟩ := s
    have kept := kept rfl
    let sent : EventLoop := { l with queue := l.queue ++ [event], granted := l.granted - 1 }
    have full' : sent.waiting ≠ [] → sent.room = 0 := by
      intro some
      have := full some
      simp only [room, sent, List.length_append, List.length_singleton] at this ⊢
      omega
    cases channel with
    | none =>
      refine ⟨_, _, _, .sent event, ?_, ?_⟩
      · simp [EventLoop.runJob, EventLoop.replace, Job.isSending]
      · simpa [room, sent, Job.isSending] using full'
    | some c =>
      refine ⟨_, _, _, .sentOn event c sent.room, ?_, fun some => ?_⟩
      · simp [EventLoop.runJob, EventLoop.replace, deliver, sent, Job.isSending]
      · have := full_of_sent full' Channel.length_pump some
        simp only [sent, List.length_append, List.length_cons, List.length_nil, Job.isSending] at this ⊢
        simp only [if_true]
        omega

theorem granted_of_cons {granted : Nat} {job : Job} {jobs : List Job}
    (grants : granted = (job :: jobs).countP Job.isSending) :
    (job.isSending = true → 1 ≤ granted) ∧
      granted - (if job.isSending then 1 else 0) = jobs.countP Job.isSending := by
  rw [grants, List.countP_cons]
  split <;> simp_all

theorem queue_runJob (l : EventLoop) (job : Job) : ∃ more, (l.runJob job).queue = l.queue ++ more := by
  cases job with
  | opening r =>
    simp only [runJob]
    split
    · exact ⟨[], by simp⟩
    · exact ⟨_, rfl⟩
  | reading c => exact ⟨_, rfl⟩
  | sending s =>
    simp only [runJob]
    split
    · exact ⟨_, rfl⟩
    · exact ⟨_, List.append_assoc _ _ _⟩

theorem queue_foldl_runJob {jobs : List Job} (some : l.queue ≠ []) :
    (jobs.foldl runJob l).queue ≠ [] := by
  induction jobs generalizing l with
  | nil => exact some
  | cons job jobs ih =>
    obtain ⟨more, eq⟩ := l.queue_runJob job
    exact ih (by simp [eq, some])

theorem queue_of_sender (l : EventLoop) (s : Sender) : (l.runJob (.sending s)).queue ≠ [] := by
  obtain ⟨event, channel⟩ := s
  cases channel with
  | none => simp [runJob]
  | some c => simp [runJob, deliver]

theorem queue_of_sending {jobs : List Job} (sending : ∃ job ∈ jobs, job.isSending = true) :
    (jobs.foldl runJob l).queue ≠ [] := by
  induction jobs generalizing l with
  | nil => simp at sending
  | cons job jobs ih =>
    obtain ⟨other, among, sends⟩ := sending
    rcases List.mem_cons.mp among with rfl | later
    · cases other with
      | sending s =>
        rw [List.foldl_cons]
        exact queue_foldl_runJob (queue_of_sender l s)
      | opening r => contradiction
      | reading c => contradiction
    · exact ih ⟨other, later, sends⟩

/-- An editor that holds nothing back completes every open, be it with a failure. -/
theorem openView_completes {e : HeadlessEditor} (released : e.held = false) (document : Uri)
    (placement : Placement) : ∃ result e', e.openView document placement = (some result, e') := by
  obtain ⟨_, -, eq⟩ | ⟨-, held, -⟩ | ⟨-, -, eq⟩ := e.openView_cases document placement
  · exact ⟨_, _, eq⟩
  · rw [released] at held
    contradiction
  · exact ⟨_, _, eq⟩

/-- With room in the queue, any job fills it. -/
theorem queue_of_room (released : l.editor.held = false) (free : l.room ≠ 0) (job : Job) :
    (l.runJob job).queue ≠ [] := by
  cases job with
  | opening r =>
    obtain ⟨result, editor, opened⟩ := openView_completes released r.document r.placement
    simp [runJob, opened, deliver, offer, free]
  | reading c => simp [runJob, deliver, c.pump_ne_nil free]
  | sending s => exact queue_of_sender l s

/-- As long as there is any job, or something waits for a place, work fills an empty queue. -/
theorem queue_work_of_busy (released : l.editor.held = false) (capacity : 1 ≤ l.capacity)
    (granted : l.granted = l.jobs.countP Job.isSending) (full : l.waiting ≠ [] → l.room = 0)
    (empty : l.queue = []) (busy : l.jobs ≠ [] ∨ l.waiting ≠ []) : l.work.queue ≠ [] := by
  by_cases sending : ∃ job ∈ l.jobs, job.isSending = true
  · exact queue_of_sending sending
  · have none : l.granted = 0 := by
      rw [granted, List.countP_eq_zero]
      exact fun job among sends => sending ⟨job, among, sends⟩
    have free : l.room ≠ 0 := by
      rw [room, empty, none]
      simp
      omega
    cases jobs : l.jobs with
    | nil => exact absurd (full (busy.resolve_left fun some => some jobs)) free
    | cons job others =>
      rw [EventLoop.work, jobs, List.foldl_cons]
      exact queue_foldl_runJob (queue_of_room (l := { l with jobs := [] }) released free job)

end EventLoop

end LinkedViews
