import LinkedViews.Proofs.Command.Replay

/-! Transcripts. Between two tellings a session meets events, and each event that stores a product
adds one change to the feed; opens and writes are added to a log. A telling slices all three where the
one before it ended, so that over a whole replay nothing is missing and nothing is told twice, but for
changes that the feed no longer keeps, and these are counted. -/
namespace LinkedViews

namespace Transcript

/-- The line begins with these characters. -/
def begins (front line : String) : Bool := front.toList.isPrefixOf line.toList

/-- What a telling says of the products that were stored since the one before it, if the feed keeps
so many changes. -/
def contentLines (capacity : Nat) (stored : List Published) : List String :=
  (if stored.length ≤ capacity then []
    else [s!"  content ({stored.length - capacity} changes skipped)"])
  ++ (stored.drop (stored.length - capacity)).map fun p =>
    s!"  content {p.target} generation {p.generation.value}"

end Transcript

/-- What is written between two states of rest: an announcement, and then what the session did. -/
structure Telling where
  heading : List String
  before : EventLoop
  moments : List (Moment HeadlessEditor)
  after : EventLoop
  leads : before.Leads moments after
  announces : ∀ line ∈ heading,
    Transcript.begins "> " line = true ∨ Transcript.begins "  ! " line = true

namespace Telling

open Transcript

/-- The products stored since the telling before. -/
def stored (t : Telling) : List Published := Moment.stored t.moments

def opens (t : Telling) : List Opened := t.after.editor.opens.drop t.before.editor.opens.length

def applied (t : Telling) : List Applied :=
  t.after.editor.applied.drop t.before.editor.applied.length

def lines (capacity : Nat) (t : Telling) : List String :=
  t.heading ++ (contentLines capacity t.stored ++ t.opens.map openLine ++ t.applied.map applyLine)

/-- Each telling goes on where the one before it ended. -/
inductive Chain : EventLoop → List Telling → EventLoop → Prop
  | done (l : EventLoop) : Chain l [] l
  | next (t : Telling) {later : List Telling} {last : EventLoop} (chain : Chain t.after later last) :
      Chain t.before (t :: later) last

theorem opens_append (t : Telling) : t.before.editor.opens ++ t.opens = t.after.editor.opens := by
  obtain ⟨new, eq⟩ := t.leads.editor.opens
  rw [opens, ← eq, List.drop_left]

theorem applied_append (t : Telling) :
    t.before.editor.applied ++ t.applied = t.after.editor.applied := by
  obtain ⟨new, eq⟩ := t.leads.editor.applied
  rw [applied, ← eq, List.drop_left]

section Chains

variable {l last : EventLoop} {tellings : List Telling} (chain : Chain l tellings last)

include chain

theorem Chain.row : Moment.Row l.session.store (tellings.flatMap Telling.moments)
    last.session.store := by
  induction chain with
  | done l => exact .rest _
  | next t _ ih => exact t.leads.row.append ih

theorem Chain.opens :
    l.editor.opens ++ tellings.flatMap Telling.opens = last.editor.opens := by
  induction chain with
  | done l => exact List.append_nil _
  | next t _ ih => rw [List.flatMap_cons, ← List.append_assoc, opens_append, ih]

theorem Chain.applied :
    l.editor.applied ++ tellings.flatMap Telling.applied = last.editor.applied := by
  induction chain with
  | done l => exact List.append_nil _
  | next t _ ih => rw [List.flatMap_cons, ← List.append_assoc, applied_append, ih]

end Chains

end Telling

namespace Replay

open Transcript

variable {capacity : Nat} {r : Replay}

/-- A record is made of tellings, one after the other; without a failure there are so many. -/
structure Made (capacity : Nat) (r : Replay) (steps : Nat) (record : Record)
    (tellings : List Telling) (last : Replay) : Prop where
  replay : record.replay = some last
  chain : Telling.Chain r.loop tellings last.loop
  told : record.tellings = tellings.map (·.lines capacity)
  complete : record.failure = none → tellings.length = steps

theorem Made.cons {next : Replay} {steps : Nat} {record : Record} {tellings : List Telling}
    {last : Replay} {t : Telling} (before : t.before = r.loop) (after : t.after = next.loop)
    (made : Made capacity next steps record tellings last) :
    Made capacity r (steps + 1) (record.cons (t.lines capacity)) (t :: tellings) last where
  replay := made.replay
  chain := before ▸ .next t (after ▸ made.chain)
  told := congrArg (_ :: ·) made.told
  complete unfailed := congrArg (· + 1) (made.complete unfailed)

section Steps

variable (current : r.Current capacity)

include current

end Steps

namespace Sample

/-- A feed that keeps one change. -/
def narrow : Config := { session := { changeCapacity := 1 } }

def body : Bytes := (Message.publish publication).encode

/-- The same product three times, and nothing after it. -/
def burst : Files := .ofList [("empty", .ok []),
  ("frames", .ok ([body, body, body].flatMap Frame.encode))]

theorem framing : burst "frames" = .ok ([body, body, body].flatMap Frame.encode) := rfl

theorem short : ∀ b ∈ [body, body, body], b.length ≤ Frame.maxBody := by
  have own : body.length ≤ Frame.maxBody := small publication List.mem_cons_self
  simp [own]

end Sample

end Replay

end LinkedViews
