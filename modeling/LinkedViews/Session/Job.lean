import LinkedViews.Session.Basic
import LinkedViews.Wire.Channel

/-! Work beside the event loop: opens that were requested, and readers of channels. A job runs until
it ends or holds an event for which the queue has no place; it then waits for one. -/
namespace LinkedViews

/-- An event that waits for a place, and the channel to go on with after it. -/
structure Sender where
  event : Event
  channel : Option Channel

inductive Job
  | opening (request : OpenRequest)
  | reading (channel : Channel)
  | sending (sender : Sender)

/-- Reads a channel while there is room: the events that found a place, and the first that did
not. The end of a channel is an event as well, however it came. -/
def Channel.pump : Nat → Channel → List Event × Option Sender
  | room, channel =>
    match channel.receive with
    | (.ok (some body), channel) =>
      match room with
      | 0 => ([], some ⟨.notification body, some channel⟩)
      | room + 1 =>
        let (events, sender) := channel.pump room
        (.notification body :: events, sender)
    | _ =>
      match room with
      | 0 => ([], some ⟨.channelClosed, none⟩)
      | _ + 1 => ([.channelClosed], none)

-- Every event but a completed open counts as input, and a channel as all that it can bring. Opens
-- count apart, from the request until the completion is processed.
def Event.input : Event → Nat
  | .viewOpened .. => 0
  | _ => 1

def Event.opens : Event → Nat
  | .viewOpened .. => 1
  | _ => 0

theorem Event.input_or_opens (event : Event) :
    event.input = 1 ∨ event.input = 0 ∧ event.opens = 1 := by
  cases event <;> simp [input, opens]

/-- One for each body, and one for the end. -/
def Channel.input (c : Channel) : Nat := c.size + 1

def Sender.input (s : Sender) : Nat := s.event.input + (s.channel.map Channel.input).getD 0

def Sender.opens (s : Sender) : Nat := s.event.opens

def Job.input : Job → Nat
  | opening _ => 0
  | reading c => c.input
  | sending s => s.input

def Job.opens : Job → Nat
  | opening _ => 1
  | reading _ => 0
  | sending s => s.opens

/-- What a list adds up to, item by item. -/
def tally (f : α → Nat) : List α → Nat
  | [] => 0
  | a :: rest => f a + tally f rest

@[simp] theorem tally_nil (f : α → Nat) : tally f [] = 0 := rfl

@[simp] theorem tally_cons (f : α → Nat) (a : α) (l : List α) :
    tally f (a :: l) = f a + tally f l := rfl

@[simp] theorem tally_append (f : α → Nat) (l m : List α) :
    tally f (l ++ m) = tally f l + tally f m := by
  induction l with
  | nil => simp
  | cons a l ih => simp [ih]; omega

def inputOf (events : List Event) : Nat := tally Event.input events

def opensOf (events : List Event) : Nat := tally Event.opens events

/-- Reading a channel brings no more than the channel had. -/
theorem Channel.input_pump_le (room : Nat) (c : Channel) :
    inputOf (c.pump room).1 + ((c.pump room).2.map Sender.input).getD 0 ≤ c.input := by
  induction room generalizing c with
  | zero =>
    unfold pump
    split
    next h =>
      have := size_receive_lt h
      simp [inputOf, Sender.input, Event.input, input]
      omega
    next => simp [inputOf, Sender.input, Event.input, input]
  | succ room ih =>
    unfold pump
    split
    next body rest h =>
      have := size_receive_lt h
      have := ih rest
      simp [inputOf, Event.input, input] at this ⊢
      omega
    next => simp [inputOf, Event.input, input]

theorem Channel.opens_pump (room : Nat) (c : Channel) :
    opensOf (c.pump room).1 + ((c.pump room).2.map Sender.opens).getD 0 = 0 := by
  induction room generalizing c with
  | zero => unfold pump; split <;> simp [opensOf, Sender.opens, Event.opens]
  | succ room ih =>
    unfold pump
    split
    next rest _ =>
      have := ih rest
      simp [opensOf, Event.opens] at this ⊢
      exact this
    next => simp [opensOf, Event.opens]

end LinkedViews
