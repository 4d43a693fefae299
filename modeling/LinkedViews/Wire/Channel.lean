import LinkedViews.Wire.Frame
import LinkedViews.Wire.Message

/-! Where message bodies come from: a framed stream, or bodies queued in advance. A channel is read
until it ends or fails, and a closed one yields nothing. -/
namespace LinkedViews

inductive ChannelFault
  | closed
  | frame (fault : Frame.Fault)
  | receiveFailed (reason : String)
  deriving DecidableEq, Repr

def ChannelFault.message : ChannelFault → String
  | closed => "channel closed"
  | frame fault => fault.message
  | receiveFailed reason => "receive failed: " ++ reason

/-- What a receive yields; no body means the end of the stream. -/
abbrev Reception := Except ChannelFault (Option Bytes)

structure FramedChannel where
  unread : Bytes
  isOpen : Bool := true
  deriving DecidableEq, Repr

namespace FramedChannel

def close (c : FramedChannel) : FramedChannel := { c with isOpen := false }

def receive (c : FramedChannel) : Reception × FramedChannel :=
  if c.isOpen = false then (.error .closed, c)
  else
    let (outcome, unread) := Frame.read c.unread
    let reception : Reception := match outcome with
      | .body body => .ok (some body)
      | .done => .ok none
      | .fault fault => .error (.frame fault)
    (reception, { c with unread := unread })

end FramedChannel

/-- Bodies queued in advance. A failure that was asked for comes before the next body. -/
structure QueuedChannel where
  queue : List Bytes := []
  received : Nat := 0
  failure : Option String := none
  isOpen : Bool := true
  deriving DecidableEq, Repr

namespace QueuedChannel

def push (c : QueuedChannel) (body : Bytes) : QueuedChannel := { c with queue := c.queue ++ [body] }

def pushPublication (c : QueuedChannel) (publication : Publication) : QueuedChannel :=
  c.push (Message.publish publication).encode

def failNext (c : QueuedChannel) (reason : String) : QueuedChannel :=
  { c with failure := some reason }

def close (c : QueuedChannel) : QueuedChannel := { c with isOpen := false }

def receive (c : QueuedChannel) : Reception × QueuedChannel :=
  if c.isOpen = false then (.error .closed, c)
  else
    match c.failure with
    | some reason => (.error (.receiveFailed reason), { c with failure := none })
    | none =>
      match c.queue with
      | [] => (.ok none, c)
      | body :: queue => (.ok (some body), { c with queue := queue, received := c.received + 1 })

end QueuedChannel

inductive Channel
  | framed (channel : FramedChannel)
  | queued (channel : QueuedChannel)
  deriving DecidableEq, Repr

def Channel.receive : Channel → Reception × Channel
  | framed c => let (r, c) := c.receive; (r, framed c)
  | queued c => let (r, c) := c.receive; (r, queued c)

/-- A bound on the bodies that are still to come. -/
def Channel.size : Channel → Nat
  | framed c => c.unread.length
  | queued c => c.queue.length

theorem Channel.size_receive_lt {c rest : Channel} {body : Bytes}
    (h : c.receive = (.ok (some body), rest)) : rest.size < c.size := by
  cases c with
  | framed c =>
    simp only [receive, FramedChannel.receive] at h
    split at h
    next => simp at h
    next =>
      generalize hr : Frame.read c.unread = reading at h
      obtain ⟨outcome, unread⟩ := reading
      cases outcome <;> simp at h
      obtain ⟨rfl, rfl⟩ := h
      exact Frame.length_read_lt hr
  | queued c =>
    simp only [receive, QueuedChannel.receive] at h
    split at h
    next => simp at h
    next =>
      split at h
      next => simp at h
      next =>
        split at h
        next => simp at h
        next queue hq =>
          simp at h
          obtain ⟨-, rfl⟩ := h
          simp [size, hq]

end LinkedViews
