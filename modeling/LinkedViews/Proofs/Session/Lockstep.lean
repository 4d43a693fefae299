import LinkedViews.Proofs.Session.Schedule
import Mathlib.Data.List.Forall2

/-! Two event loops in step with each other. Where their sessions are similar and their queues and
jobs hold the same, both take the same turns and come to rest alike, with the same added to their
logs. -/
namespace LinkedViews

variable {e e' e₁ e₁' : HeadlessEditor}

structure Sender.Similar (e e' : HeadlessEditor) (s s' : Sender) : Prop where
  event : s.event.Similar e e' s'.event
  channel : s'.channel = s.channel

inductive Job.Similar (e e' : HeadlessEditor) : Job → Job → Prop
  | opening (r : OpenRequest) : Similar e e' (.opening r) (.opening r)
  | reading (c : Channel) : Similar e e' (.reading c) (.reading c)
  | sending {s s' : Sender} (same : s.Similar e e' s') : Similar e e' (.sending s) (.sending s')

theorem Sender.Similar.mono {s s' : Sender} (same : s.Similar e e' s') (kept : e.Keeps e₁)
    (kept' : e'.Keeps e₁') : s.Similar e₁ e₁' s' :=
  ⟨same.event.mono kept kept', same.channel⟩

theorem Job.Similar.mono {job job' : Job} (same : job.Similar e e' job') (kept : e.Keeps e₁)
    (kept' : e'.Keeps e₁') : job.Similar e₁ e₁' job' := by
  cases same with
  | opening r => exact .opening r
  | reading c => exact .reading c
  | sending same => exact .sending (same.mono kept kept')

theorem Event.Similar.parts {event event' : Event} (same : event.Similar e e' event') :
    List.Forall₂ (Event.Similar e e') event.incoming event'.incoming ∧
      List.Forall₂ (Event.Similar e e') event.completions event'.completions := by
  cases same with
  | viewOpened here there => exact ⟨.nil, .cons (.viewOpened here there) .nil⟩
  | manualSync here there => exact ⟨.cons (.manualSync here there) .nil, .nil⟩
  | notification body => exact ⟨.cons (.notification body) .nil, .nil⟩
  | channelClosed => exact ⟨.cons .channelClosed .nil, .nil⟩
  | selectionChanged => exact ⟨.cons (.selectionChanged ..) .nil, .nil⟩
  | viewClosed document => exact ⟨.cons (.viewClosed document) .nil, .nil⟩
  | shutdown => exact ⟨.cons .shutdown .nil, .nil⟩

theorem Channel.similar_incoming (c : Channel) (e e' : HeadlessEditor) :
    List.Forall₂ (Event.Similar e e') c.incoming c.incoming := by
  refine List.rel_append ?_ (.cons .channelClosed .nil)
  exact List.forall₂_map_left_iff.mpr (List.forall₂_map_right_iff.mpr
    (List.forall₂_same.mpr fun body _ => .notification body))

theorem Job.Similar.parts {job job' : Job} (same : job.Similar e e' job') :
    List.Forall₂ (Event.Similar e e') job.incoming job'.incoming ∧
      List.Forall₂ (Event.Similar e e') job.completions job'.completions ∧
      job'.request? = job.request? := by
  cases same with
  | opening r => exact ⟨.nil, .nil, rfl⟩
  | reading c => exact ⟨c.similar_incoming e e', .nil, rfl⟩
  | @sending s s' same =>
    refine ⟨List.rel_append same.event.parts.1 ?_, same.event.parts.2, rfl⟩
    rw [same.channel]
    cases s.channel with
    | none => exact .nil
    | some c => exact c.similar_incoming e e'

/-- What a channel brings is about no view. -/
theorem Channel.similar_pump (room : Nat) (c : Channel) (e e' : HeadlessEditor) :
    List.Forall₂ (Event.Similar e e') (c.pump room).1 (c.pump room).1 ∧
      List.Forall₂ (Sender.Similar e e') (c.pump room).2.toList (c.pump room).2.toList := by
  induction room generalizing c with
  | zero =>
    unfold pump
    split
    · exact ⟨.nil, .cons ⟨.notification _, rfl⟩ .nil⟩
    · exact ⟨.nil, .cons ⟨.channelClosed, rfl⟩ .nil⟩
  | succ room ih =>
    unfold pump
    split
    next rest _ => exact ⟨.cons (.notification _) (ih rest).1, (ih rest).2⟩
    next => exact ⟨.cons .channelClosed .nil, .nil⟩

namespace EventLoop

structure Similar (l l' : EventLoop) : Prop where
  session : l.session.Similar l'.session
  editor : l.editor.Similar l'.editor
  ready : l.editor.Ready
  ready' : l'.editor.Ready
  capacity : l'.capacity = l.capacity
  queue : List.Forall₂ (Event.Similar l.editor l'.editor) l.queue l'.queue
  jobs : List.Forall₂ (Job.Similar l.editor l'.editor) l.jobs l'.jobs
  waiting : List.Forall₂ (Sender.Similar l.editor l'.editor) l.waiting l'.waiting
  granted : l'.granted = l.granted

/-- Two loops that went on alike: they are similar, and have added the same to their logs. -/
structure Advances (l l' m m' : EventLoop) : Prop where
  similar : Similar m m'
  kept : l.editor.Keeps m.editor
  kept' : l'.editor.Keeps m'.editor
  logs : ∃ opens applied, l.editor.Logs opens applied m.editor ∧ l'.editor.Logs opens applied m'.editor

variable {l l' : EventLoop}

theorem Advances.refl (similar : Similar l l') : Advances l l' l l' :=
  ⟨similar, .refl _, .refl _, [], [], .refl _, .refl _⟩

theorem Advances.trans {m m' last last' : EventLoop} (first : Advances l l' m m')
    (second : Advances m m' last last') : Advances l l' last last' := by
  obtain ⟨opens, applied, logs, logs'⟩ := first.logs
  obtain ⟨opens', applied', more, more'⟩ := second.logs
  exact ⟨second.similar, first.kept.trans second.kept, first.kept'.trans second.kept', _, _,
    logs.trans more, logs'.trans more'⟩

theorem Similar.flight (similar : Similar l l') :
    List.Forall₂ (Job.Similar l.editor l'.editor) (l.flight []) (l'.flight []) := by
  refine List.rel_append (List.rel_append ?_ similar.jobs) ?_
  · exact List.forall₂_map_left_iff.mpr (List.forall₂_map_right_iff.mpr
      (similar.queue.imp fun _ _ same => .sending ⟨same, rfl⟩))
  · exact List.forall₂_map_left_iff.mpr (List.forall₂_map_right_iff.mpr
      (similar.waiting.imp fun _ _ same => .sending same))

/-- The tasks of two such loops are the same. -/
theorem Similar.concurrent (similar : Similar l l') :
    l.concurrent.Similar l'.concurrent := by
  have flight := similar.flight
  constructor
  case session => exact similar.session
  case editor => exact similar.editor
  case ready => exact similar.ready
  case ready' => exact similar.ready'
  case received => exact List.rel_flatMap flight fun _ _ same => same.parts.1
  case requested =>
    have requests {jobs jobs' : List Job}
        (same : List.Forall₂ (Job.Similar l.editor l'.editor) jobs jobs') :
        jobs'.filterMap Job.request? = jobs.filterMap Job.request? := by
      induction same with
      | nil => rfl
      | cons first _ ih => rw [List.filterMap_cons, List.filterMap_cons, ih, first.parts.2.2]
    exact requests similar.jobs
  case opened => exact List.rel_flatMap flight fun _ _ same => same.parts.2.1

theorem similar_rested {x x' : ConcurrentState} (capacity : l'.capacity = l.capacity)
    (similar : x.Similar x') : Similar (l.rested x) (l'.rested x') where
  session := similar.session
  editor := similar.editor
  ready := similar.ready
  ready' := similar.ready'
  capacity := capacity
  queue := .nil
  jobs := .nil
  waiting := .nil
  granted := rfl

/-- Loops at rest are similar if their tasks are. -/
theorem Resting.similar (resting : l.Resting) (resting' : l'.Resting)
    (capacity : l'.capacity = l.capacity) (similar : l.concurrent.Similar l'.concurrent) :
    Similar l l' where
  session := similar.session
  editor := similar.editor
  ready := similar.ready
  ready' := similar.ready'
  capacity := capacity
  queue := by rw [resting.queue, resting'.queue]; exact .nil
  jobs := by rw [resting.jobs, resting'.jobs]; exact .nil
  waiting := by rw [resting.waiting, resting'.waiting]; exact .nil
  granted := resting'.granted.trans resting.granted.symm

theorem Similar.room (similar : Similar l l') : l'.room = l.room := by
  rw [EventLoop.room, EventLoop.room, similar.capacity, similar.granted, similar.queue.length_eq]

theorem Similar.isQuiet (similar : Similar l l') : l'.isQuiet = l.isQuiet := by
  rw [EventLoop.isQuiet, EventLoop.isQuiet, similar.session.pendingOpens, similar.session.readers]

theorem Similar.process {event event' : Event} (similar : Similar l l')
    (same : event.Similar l.editor l'.editor event') :
    (l'.process event').1 = (l.process event).1 ∧
      Advances l l' (l.process event).2 (l'.process event').2 := by
  have step := Session.similar_process similar.session similar.editor similar.ready similar.ready' same
  obtain ⟨kept, kept'⟩ := step.kept
  obtain ⟨applied, logs, logs'⟩ := step.logs
  refine ⟨step.result, ?_, kept, kept', [], applied, logs, logs'⟩
  constructor
  case session => exact step.session
  case editor => exact step.editor
  case ready => exact step.ready.1
  case ready' => exact step.ready.2
  case capacity => exact similar.capacity
  case queue => exact similar.queue.imp fun _ _ same => same.mono kept kept'
  case jobs =>
    refine List.rel_append (similar.jobs.imp fun _ _ same => same.mono kept kept') ?_
    rw [step.requests]
    exact List.forall₂_map_left_iff.mpr (List.forall₂_map_right_iff.mpr
      (List.forall₂_same.mpr fun r _ => .opening r))
  case waiting => exact similar.waiting.imp fun _ _ same => same.mono kept kept'
  case granted => exact similar.granted

theorem Similar.grant (similar : Similar l l') : Similar l.grant l'.grant := by
  have waiting := similar.waiting
  unfold EventLoop.grant
  split
  next none =>
    rw [none] at waiting
    rw [List.forall₂_nil_left_iff.mp waiting]
    exact similar
  next sender others some =>
    rw [some] at waiting
    obtain ⟨sender', others', same, rest, eq⟩ := List.forall₂_cons_left_iff.mp waiting
    rw [eq]
    exact { similar with
      jobs := List.rel_append similar.jobs (.cons (.sending same) .nil)
      waiting := rest
      granted := congrArg (· + 1) similar.granted }

theorem Similar.take {event event' : Event} {queue queue' : List Event} (similar : Similar l l')
    (same : event.Similar l.editor l'.editor event')
    (rest : List.Forall₂ (Event.Similar l.editor l'.editor) queue queue') :
    (l'.take event' queue').1 = (l.take event queue).1 ∧
      Advances l l' (l.take event queue).2 (l'.take event' queue').2 := by
  have left : Similar { l with queue := queue } { l' with queue := queue' } :=
    { similar with queue := rest }
  have editor := editor_grant { l with queue := queue }
  have editor' := editor_grant { l' with queue := queue' }
  have granted : event.Similar ({ l with queue := queue }).grant.editor
      ({ l' with queue := queue' }).grant.editor event' := by
    rw [editor, editor']
    exact same
  obtain ⟨result, similar', kept, kept', logs⟩ := left.grant.process granted
  rw [editor] at kept logs
  rw [editor'] at kept' logs
  exact ⟨congrArg Flow.ofResult result, similar', kept, kept', logs⟩

theorem Similar.deliver {sent sent' : List Event × Option Sender} (similar : Similar l l')
    (events : List.Forall₂ (Event.Similar l.editor l'.editor) sent.1 sent'.1)
    (waits : List.Forall₂ (Sender.Similar l.editor l'.editor) sent.2.toList sent'.2.toList) :
    Similar (l.deliver sent) (l'.deliver sent') :=
  { similar with
    queue := List.rel_append similar.queue events
    waiting := List.rel_append similar.waiting waits }

theorem Similar.pump (similar : Similar l l') (c : Channel) :
    Similar (l.deliver (c.pump l.room)) (l'.deliver (c.pump l'.room)) := by
  obtain ⟨events, waits⟩ := c.similar_pump l.room l.editor l'.editor
  rw [similar.room]
  exact similar.deliver events waits

/-- An open is carried out in both, and its completion finds a place in both or in neither. -/
theorem Similar.open (similar : Similar l l') (r : OpenRequest) :
    Advances l l' (l.runJob (.opening r)) (l'.runJob (.opening r)) := by
  have here := HeadlessEditor.openView_of_released similar.ready.unfailing similar.ready.released
    r.document r.placement
  have there := HeadlessEditor.openView_of_released similar.ready'.unfailing
    similar.ready'.released r.document r.placement
  have kept := l.editor.keeps_complete r.document r.placement
  have kept' := l'.editor.keeps_complete r.document r.placement
  have opened : Similar { l with editor := (l.editor.complete r.document r.placement).2 }
      { l' with editor := (l'.editor.complete r.document r.placement).2 } :=
    { similar with
      editor := similar.editor.complete similar.ready similar.ready' _ _
      ready := similar.ready.complete _ _
      ready' := similar.ready'.complete _ _
      queue := similar.queue.imp fun _ _ same => same.mono kept kept'
      jobs := similar.jobs.imp fun _ _ same => same.mono kept kept'
      waiting := similar.waiting.imp fun _ _ same => same.mono kept kept' }
  have completion : Event.Similar (l.editor.complete r.document r.placement).2
      (l'.editor.complete r.document r.placement).2
      (.viewOpened r.document (.ok (l.editor.complete r.document r.placement).1) r.pending)
      (.viewOpened r.document (.ok (l'.editor.complete r.document r.placement).1) r.pending) :=
    .viewOpened (l.editor.viewOf?_openNow r.document) (l'.editor.viewOf?_openNow r.document)
  simp only [EventLoop.runJob, here, there, similar.room]
  refine ⟨opened.deliver ?_ ?_, kept, kept', [⟨r.document, r.placement⟩], [],
    l.editor.logs_complete _ _, l'.editor.logs_complete _ _⟩
  · unfold offer
    split
    · exact .nil
    · exact .cons completion .nil
  · unfold offer
    split
    · exact .cons ⟨completion, rfl⟩ .nil
    · exact .nil

theorem Similar.runJob {job job' : Job} (similar : Similar l l')
    (same : job.Similar l.editor l'.editor job') :
    Advances l l' (l.runJob job) (l'.runJob job') := by
  cases same with
  | opening r => exact similar.open r
  | reading c => exact ⟨similar.pump c, .refl _, .refl _, [], [], .refl _, .refl _⟩
  | @sending s s' same =>
    have sent : Similar { l with queue := l.queue ++ [s.event], granted := l.granted - 1 }
        { l' with queue := l'.queue ++ [s'.event], granted := l'.granted - 1 } :=
      { similar with
        queue := List.rel_append similar.queue (.cons same.event .nil)
        granted := congrArg (· - 1) similar.granted }
    simp only [EventLoop.runJob, same.channel]
    split
    next => exact ⟨sent, .refl _, .refl _, [], [], .refl _, .refl _⟩
    next c _ => exact ⟨sent.pump c, .refl _, .refl _, [], [], .refl _, .refl _⟩

theorem Similar.foldl_runJob {jobs jobs' : List Job} (similar : Similar l l')
    (same : List.Forall₂ (Job.Similar l.editor l'.editor) jobs jobs') :
    Advances l l' (jobs.foldl EventLoop.runJob l) (jobs'.foldl EventLoop.runJob l') := by
  induction jobs generalizing l l' jobs' with
  | nil =>
    rw [List.forall₂_nil_left_iff.mp same]
    exact .refl similar
  | cons job jobs ih =>
    obtain ⟨job', rest', first, rest, rfl⟩ := List.forall₂_cons_left_iff.mp same
    have ran := similar.runJob first
    exact ran.trans (ih ran.similar (rest.imp fun _ _ same => same.mono ran.kept ran.kept'))

theorem Similar.work (similar : Similar l l') : Advances l l' l.work l'.work := by
  have start : Similar { l with jobs := [] } { l' with jobs := [] } := { similar with jobs := .nil }
  obtain ⟨similar', kept, kept', logs⟩ := start.foldl_runJob similar.jobs
  exact ⟨similar', kept, kept', logs⟩

theorem settle_cons {event : Event} {queue : List Event} (queued : l.queue = event :: queue) :
    l.settle = match l.take event queue with
      | (.stop, next) => (.stopped, next)
      | (.continue, next) => next.settle := by
  rw [settle]
  split
  next first rest eq =>
    obtain ⟨rfl, rfl⟩ := List.cons.inj (queued.symm.trans eq)
    split
    next taken => rw [taken]
    next taken => rw [taken]
  next empty =>
    rw [queued] at empty
    contradiction

theorem settle_nil (queued : l.queue = []) :
    l.settle = if l.isQuiet then (.idle, l)
      else if l.work.queue = [] then (.held, l.work) else l.work.settle := by
  rw [settle]
  split
  next first rest eq =>
    rw [queued] at eq
    contradiction
  next => rfl

theorem Similar.queue_eq_nil (similar : Similar l l') : l'.queue = [] ↔ l.queue = [] := by
  rw [← List.length_eq_zero_iff, ← List.length_eq_zero_iff, similar.queue.length_eq]

/-- The first event of the one queue is that of the other. -/
theorem Similar.take_first {event : Event} {queue : List Event} (similar : Similar l l')
    (queued : l.queue = event :: queue) : ∃ event' queue', l'.queue = event' :: queue' ∧
      (l'.take event' queue').1 = (l.take event queue).1 ∧
      Advances l l' (l.take event queue).2 (l'.take event' queue').2 := by
  have queues := similar.queue
  rw [queued] at queues
  obtain ⟨event', queue', same, rest, queued'⟩ := List.forall₂_cons_left_iff.mp queues
  exact ⟨event', queue', queued', similar.take same rest⟩

/-- Both come to rest after the same turns. -/
theorem Similar.settle (similar : Similar l l') : Advances l l' l.settle.2 l'.settle.2 := by
  fun_induction EventLoop.settle l generalizing l' with
  -- The cases are those of the loop: an event that stops it, any other event, nothing left, jobs that
  -- bring nothing, and jobs that bring more.
  | case1 l event queue queued next taken =>
    obtain ⟨event', queue', queued', flow, advances⟩ := similar.take_first queued
    rw [taken] at flow advances
    have taken' : l'.take event' queue' = (.stop, (l'.take event' queue').2) := Prod.ext flow rfl
    rw [settle_cons queued', taken']
    exact advances
  | case2 l event queue queued next taken ih =>
    obtain ⟨event', queue', queued', flow, advances⟩ := similar.take_first queued
    rw [taken] at flow advances
    have taken' : l'.take event' queue' = (.continue, (l'.take event' queue').2) :=
      Prod.ext flow rfl
    rw [settle_cons queued', taken']
    exact advances.trans (ih advances.similar)
  | case3 l queued quiet =>
    rw [settle_nil (similar.queue_eq_nil.mpr queued), similar.isQuiet, if_pos quiet]
    exact .refl similar
  | case4 l queued busy stuck =>
    have worked := similar.work
    rw [settle_nil (similar.queue_eq_nil.mpr queued), similar.isQuiet, if_neg busy,
      if_pos (worked.similar.queue_eq_nil.mpr stuck)]
    exact worked
  | case5 l queued busy filled ih =>
    have worked := similar.work
    rw [settle_nil (similar.queue_eq_nil.mpr queued), similar.isQuiet, if_neg busy,
      if_neg (mt worked.similar.queue_eq_nil.mp filled)]
    exact worked.trans (ih worked.similar)

end EventLoop

end LinkedViews
