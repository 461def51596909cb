import Kubert.Foundation.Transducer
import Kubert.Requeue.DelayQueue

/-!
# The requeue channel

A bounded channel carries operations from any number of senders to one receiver,
which keeps the deadlines of the requeued objects and yields each object when its
deadline has come.  The receiver holds two containers: the delay queue, and a map
from every pending object to its key in the queue.

A run is any list of sends, clones and drops of senders, clock advances and polls.
The `tokio` channel in between hands operations over in the order in which they
were sent; it is empty and without senders when `poll_recv` ends, and empty with
senders left when `poll_recv` is pending.  A poll does not wait, and is one step.
Every step is labelled by what can be observed of it.
-/

namespace Kubert
namespace Requeue

open Foundation

universe u

variable {T : Type u}

/-- An operation on its way to the receiver. -/
inductive Op (T : Type u)
  | requeue (x : T) (time : Nat)
  | cancel (x : T)
  | clear
deriving DecidableEq, Repr

/-- The methods of a sender. -/
inductive Call (T : Type u)
  | requeueAt (x : T) (time : Nat)
  | requeue (x : T) (defer : Nat)
  | cancel (x : T)
  | clear
deriving DecidableEq, Repr

/-- The operation that a method sends. -/
def Call.op (now : Nat) : Call T → Op T
  | .requeueAt x time => .requeue x time
  | .requeue x defer => .requeue x (now + defer)
  | .cancel x => .cancel x
  | .clear => .clear

/-! ## The receiver -/

/-- `Receiver`, without its end of the channel. -/
structure Receiver (d : DelayQueue T) where
  rxClosed : Bool
  q : d.Queue
  pending : Finmap fun _ : T => d.Key

/-- What a poll returns, and the two places where it has left the task to be
woken. -/
structure Polled (T : Type u) where
  result : Poll (Option T)
  wokenByOps : Bool
  wokenByExpiry : Bool
deriving DecidableEq, Repr

namespace Receiver

variable {d : DelayQueue T}

/-- The receiver that `channel` makes. -/
def new (d : DelayQueue T) : Receiver d := ⟨false, d.new, ∅⟩

variable [DecidableEq T]

/-- What the loop of `poll_requeued` does with an operation; `none` is a panic of
the delay queue. -/
def process (r : Receiver d) : Op T → Option (Receiver d)
  | .clear => some { r with pending := ∅, q := d.clear r.q }
  | .cancel x =>
      match r.pending.lookup x with
      | none => some r
      | some key => (d.remove r.q key).map fun q =>
          { r with pending := r.pending.erase x, q := q }
  | .requeue x time =>
      match r.pending.lookup x with
      | some key => (d.resetAt r.q key time).map fun q => { r with q := q }
      | none => some { r with
          q := (d.insertAt r.q x time).1
          pending := r.pending.insert x (d.insertAt r.q x time).2 }

/-- The loop of `poll_requeued`, over the operations in the channel.  It ends when
`poll_recv` is pending, which is the second component, or when no sender is left. -/
def drain (senders : Nat) : Receiver d → List (Op T) → Option (Receiver d × Bool)
  | r, [] => some (if senders = 0 then ({ r with rxClosed := true }, false) else (r, true))
  | r, op :: buffer => (r.process op).bind fun r' => drain senders r' buffer

/-- The last lines of `poll_requeued`. -/
def conclude (r : Receiver d) : Poll (Option T) :=
  if r.rxClosed ∧ r.pending.keys = ∅ then .ready none else .pending

/-- `poll_requeued` after its loop. -/
def expire (r : Receiver d) (now : Nat) (wokenByOps : Bool) : Receiver d × Polled T :=
  -- The queue is not polled while nothing is pending, and then leaves no waker.
  if r.pending.keys = ∅ then (r, ⟨r.conclude, wokenByOps, false⟩)
  else match d.pollExpired r.q now with
    | (q, .ready (some (_, x))) =>
        ({ r with q := q, pending := r.pending.erase x },
          ⟨.ready (some x), wokenByOps, false⟩)
    | (q, .ready none) => ({ r with q := q }, ⟨r.conclude, wokenByOps, false⟩)
    | (q, .pending) => ({ r with q := q }, ⟨r.conclude, wokenByOps, true⟩)

/-- `poll_requeued`.  The third component is what is left in the channel. -/
def pollRequeued (r : Receiver d) (senders : Nat) (buffer : List (Op T)) (now : Nat) :
    Option (Receiver d × Polled T × List (Op T)) :=
  if r.rxClosed then
    some ((r.expire now false).1, (r.expire now false).2, buffer)
  else
    (r.drain senders buffer).map fun drained =>
      ((drained.1.expire now drained.2).1, (drained.1.expire now drained.2).2, [])

end Receiver

/-! ## Runs of a channel -/

/-- A channel with its receiver, the number of its senders and the clock. -/
structure Channel (d : DelayQueue T) where
  capacity : Nat
  now : Nat
  senders : Nat
  buffer : List (Op T)
  receiver : Receiver d

/-- What can happen next. -/
inductive Act (T : Type u)
  | send (call : Call T)
  | clone
  | drop
  | advance (time : Nat)
  | poll
deriving DecidableEq, Repr

/-- What can be observed. -/
inductive Obs (T : Type u)
  | sent (op : Op T)
  | processed (op : Op T)
  | yielded (x : T) (now : Nat)
  | exhausted
  | pending
deriving DecidableEq, Repr

/-- The observation of a poll's result. -/
def Obs.ofResult (now : Nat) : Poll (Option T) → Obs T
  | .ready (some x) => .yielded x now
  | .ready none => .exhausted
  | .pending => .pending

/-- What was done, and what was observed of it. -/
abbrev Label (T : Type u) := Act T × List (Obs T)

namespace Channel

variable {d : DelayQueue T}

/-- `channel`. -/
def new (d : DelayQueue T) (capacity now : Nat) : Channel d :=
  ⟨capacity, now, 1, [], Receiver.new d⟩

/-- A sender waits while the channel is full. -/
def Sends (c : Channel d) : Prop := 0 < c.senders ∧ c.buffer.length < c.capacity

instance (c : Channel d) : Decidable c.Sends := inferInstanceAs (Decidable (_ ∧ _))

variable [DecidableEq T]

/-- One step; `none` is a panic.  A method needs a sender, and does nothing until
there is room for its operation. -/
def step (c : Channel d) : Act T → Option (Channel d × List (Label T))
  | .send call =>
      if c.Sends then
        some ({ c with buffer := c.buffer ++ [call.op c.now] },
          [(.send call, [.sent (call.op c.now)])])
      else some (c, [(.send call, [])])
  -- Only a sender can be cloned.
  | .clone =>
      some ({ c with senders := if c.senders = 0 then 0 else c.senders + 1 },
        [(.clone, [])])
  | .drop => some ({ c with senders := c.senders - 1 }, [(.drop, [])])
  | .advance time => some ({ c with now := c.now + time }, [(.advance time, [])])
  | .poll =>
      (c.receiver.pollRequeued c.senders c.buffer c.now).map fun next =>
        ({ c with receiver := next.1, buffer := next.2.2 },
          [(.poll,
            (if c.receiver.rxClosed then [] else c.buffer.map .processed) ++
              [.ofResult c.now next.2.1.result])])

/-- A whole run. -/
def run (c : Channel d) (acts : List (Act T)) :
    Option (Channel d × List (Label T)) :=
  Transducer.run step c acts

end Channel

/-- Everything observed along a run. -/
def observations (labels : List (Label T)) : List (Obs T) :=
  labels.flatMap Prod.snd

theorem observations_concat (labels : List (Label T)) (act : Act T) (obs : List (Obs T)) :
    observations (labels ++ [(act, obs)]) = observations labels ++ obs := by
  simp [observations]

/-- The operation of a send. -/
def Obs.sentOp : Obs T → Option (Op T)
  | .sent op => some op
  | _ => none

/-- The operations sent along a run. -/
def sentOps (labels : List (Label T)) : List (Op T) :=
  (observations labels).filterMap Obs.sentOp

theorem sentOps_concat (labels : List (Label T)) (act : Act T) (obs : List (Obs T)) :
    sentOps (labels ++ [(act, obs)]) = sentOps labels ++ obs.filterMap Obs.sentOp := by
  rw [sentOps, observations_concat, List.filterMap_append]
  rfl

/-- The operation of an observation that one was processed. -/
def Obs.processedOp : Obs T → Option (Op T)
  | .processed op => some op
  | _ => none

/-- The operations processed along a run. -/
def processedOps (labels : List (Label T)) : List (Op T) :=
  (observations labels).filterMap Obs.processedOp

theorem processedOps_concat (labels : List (Label T)) (act : Act T) (obs : List (Obs T)) :
    processedOps (labels ++ [(act, obs)]) =
      processedOps labels ++ obs.filterMap Obs.processedOp := by
  rw [processedOps, observations_concat, List.filterMap_append]
  rfl

end Requeue
end Kubert
