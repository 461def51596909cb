import Kubert.Foundation.LabelledRun
import Kubert.Requeue.Channel

/-!
# A requeue channel is a map of deadlines

`Deadlines` is what a requeue channel is for: the operations that have been sent
and not processed, as many as there is room for, whether all senders are gone, and a
finite map from objects to deadlines.  A poll applies the operations in order and
then yields some object whose deadline has come.

The receiver keeps the map in two containers.  `Represents` says how: the keys of
the pending objects are the keys of the queue, and the queue holds the object and
its deadline under its key.  Every operation of the receiver keeps this, and no
operation meets a key that is not in use.
-/

namespace Kubert
namespace Requeue

open Foundation

universe u

variable {T : Type u} [DecidableEq T]

/-! ## The abstract channel -/

/-- The abstract state. -/
structure Deadlines (T : Type u) where
  capacity : Nat
  now : Nat
  fifo : List (Op T)
  closed : Bool
  due : Finmap fun _ : T => Nat

/-- What an operation means for the deadlines. -/
def Op.apply (due : Finmap fun _ : T => Nat) : Op T → Finmap fun _ : T => Nat
  | .requeue x time => due.insert x time
  | .cancel x => due.erase x
  | .clear => ∅

namespace Deadlines

/-- No operation, no deadline. -/
def initial (capacity now : Nat) : Deadlines T := ⟨capacity, now, [], false, ∅⟩

/-- The deadlines after all operations that have been sent. -/
def settled (s : Deadlines T) : Finmap fun _ : T => Nat :=
  s.fifo.foldl Op.apply s.due

/-- What a poll may return, and the state that it leaves behind. -/
inductive Polls (s : Deadlines T) : Obs T → Deadlines T → Prop
  | yielded (x : T) (time : Nat) (hdue : s.settled.lookup x = some time)
      (hcome : time ≤ s.now) :
      Polls s (.yielded x s.now) { s with fifo := [], due := s.settled.erase x }
  | exhausted (hclosed : s.closed = true) (hempty : s.settled = ∅) :
      Polls s .exhausted { s with fifo := [], due := ∅ }
  | pending (hnone : ∀ x time, s.settled.lookup x = some time → s.now < time)
      (hopen : ¬ (s.closed = true ∧ s.settled = ∅)) :
      Polls s .pending { s with fifo := [], due := s.settled }

/-- What a method of a sender asks for when it is called: a deadline at an instant, or
so far from now, or that a deadline or all of them are dropped. -/
inductive Asks (now : Nat) : Call T → Op T → Prop
  | requeueAt (x : T) (time : Nat) : Asks now (.requeueAt x time) (.requeue x time)
  | requeue (x : T) (defer : Nat) : Asks now (.requeue x defer) (.requeue x (now + defer))
  | cancel (x : T) : Asks now (.cancel x) (.cancel x)
  | clear : Asks now .clear .clear

/-- A step of the abstract channel.  A method sends what it asks for while there are
senders and there is room, and waits otherwise; only the last of the dropped senders
is seen. -/
inductive Step : Deadlines T → Label T → Deadlines T → Prop
  | send {s : Deadlines T} {call : Call T} {op : Op T} (hasks : Asks s.now call op)
      (hopen : s.closed = false) (hroom : s.fifo.length < s.capacity) :
      Step s (.send call, [.sent op]) { s with fifo := s.fifo ++ [op] }
  | wait {s : Deadlines T} (call : Call T)
      (hwaits : s.closed = true ∨ s.capacity ≤ s.fifo.length) : Step s (.send call, []) s
  | clone {s : Deadlines T} : Step s (.clone, []) s
  | drop {s : Deadlines T} : Step s (.drop, []) s
  | close {s : Deadlines T} : Step s (.drop, []) { s with closed := true }
  | advance {s : Deadlines T} (time : Nat) :
      Step s (.advance time, []) { s with now := s.now + time }
  | poll {s s' : Deadlines T} {result : Obs T} (hpoll : s.Polls result s') :
      Step s (.poll, s.fifo.map .processed ++ [result]) s'

end Deadlines

/-! ## The receiver keeps the deadlines -/

section Receiver

variable {d : DelayQueue T}

/-- The two containers of the receiver keep the deadlines. -/
def Receiver.Keeps (r : Receiver d) (due : Finmap fun _ : T => Nat) : Prop :=
  Keyed r.pending (d.entries r.q) due

/-- An operation does to the containers what it means for the deadlines, and does
not panic. -/
theorem process_keeps (hlawful : d.Lawful) {r : Receiver d}
    {due : Finmap fun _ : T => Nat} (hkeeps : r.Keeps due) (op : Op T) :
    ∃ r', r.process op = some r' ∧ r'.Keeps (op.apply due) ∧
      r'.rxClosed = r.rxClosed := by
  cases op with
  | clear =>
      refine ⟨_, rfl, ?_, rfl⟩
      change Keyed ∅ (d.entries (d.clear r.q)) ∅
      rw [hlawful.clear]
      exact Keyed.empty
  | cancel x =>
      cases hlookup : r.pending.lookup x with
      | none =>
          -- Nothing to cancel, and no deadline either.
          refine ⟨r, by simp only [Receiver.process, hlookup], ?_, rfl⟩
          rw [Op.apply, hkeeps.erase_eq_self hlookup]
          exact hkeeps
      | some key =>
          obtain ⟨t, hstored, -⟩ := hkeeps.exists_stored hlookup
          obtain ⟨q, hremove, hentries⟩ :=
            hlawful.remove r.q key (Finmap.mem_of_lookup_eq_some hstored)
          refine ⟨{ r with pending := r.pending.erase x, q := q }, ?_, ?_, rfl⟩
          · simp only [Receiver.process, hlookup, hremove, Option.map_some]
          · change Keyed (r.pending.erase x) (d.entries q) (due.erase x)
            rw [hentries]
            exact hkeeps.erase hlookup
  | requeue x time =>
      cases hlookup : r.pending.lookup x with
      | none =>
          -- The queue chooses a key that is not in use.
          obtain ⟨hfresh, hentries⟩ := hlawful.insertAt r.q x time
          refine ⟨{ r with
            q := (d.insertAt r.q x time).1
            pending := r.pending.insert x (d.insertAt r.q x time).2 }, ?_, ?_, rfl⟩
          · simp only [Receiver.process, hlookup]
          · change Keyed _ (d.entries (d.insertAt r.q x time).1) (due.insert x time)
            rw [hentries]
            exact hkeeps.insert time hlookup hfresh
      | some key =>
          obtain ⟨old, hstored, -⟩ := hkeeps.exists_stored hlookup
          obtain ⟨q, hreset, hentries⟩ :=
            hlawful.resetAt r.q key time x old hstored
          refine ⟨{ r with q := q }, ?_, ?_, rfl⟩
          · simp only [Receiver.process, hlookup, hreset, Option.map_some]
          · change Keyed r.pending (d.entries q) (due.insert x time)
            rw [hentries]
            exact hkeeps.reset time hlookup

/-- The loop applies all operations in the channel, in order, and finds out whether
a sender is left. -/
theorem drain_keeps (hlawful : d.Lawful) (senders : Nat) {r : Receiver d}
    {due : Finmap fun _ : T => Nat} (hkeeps : r.Keeps due)
    (hopen : r.rxClosed = false) (buffer : List (Op T)) :
    ∃ r', r.drain senders buffer = some (r', decide (senders ≠ 0)) ∧
      r'.Keeps (buffer.foldl Op.apply due) ∧ r'.rxClosed = decide (senders = 0) := by
  induction buffer generalizing r due with
  | nil =>
      by_cases hsenders : senders = 0
      · exact ⟨{ r with rxClosed := true }, by simp [Receiver.drain, hsenders], hkeeps,
          by simp [hsenders]⟩
      · exact ⟨r, by simp [Receiver.drain, hsenders], hkeeps, by simp [hsenders, hopen]⟩
  | cons op buffer ih =>
      obtain ⟨mid, hprocess, hmid, hclosed⟩ := process_keeps hlawful hkeeps op
      obtain ⟨r', hdrain, hlast⟩ := ih hmid (hclosed.trans hopen)
      refine ⟨r', ?_, hlast⟩
      rw [Receiver.drain, hprocess]
      exact hdrain

/-- The last lines of a poll tell apart the two cases in which nothing is due. -/
theorem conclude_polls {r : Receiver d} {s : Deadlines T} (hkeeps : r.Keeps s.settled)
    (hclosed : r.rxClosed = s.closed)
    (hnone : ∀ x time, s.settled.lookup x = some time → s.now < time) :
    s.Polls (.ofResult s.now r.conclude) { s with fifo := [], due := s.settled } := by
  by_cases hend : r.rxClosed = true ∧ r.pending.keys = ∅
  · have hempty : s.settled = ∅ :=
      hkeeps.index_eq_empty_iff.mp (keys_eq_empty_iff.mp hend.2)
    rw [Receiver.conclude, if_pos hend, hempty]
    exact .exhausted (hclosed ▸ hend.1) hempty
  · rw [Receiver.conclude, if_neg hend]
    refine .pending hnone ?_
    rintro ⟨hs, hempty⟩
    exact hend ⟨hclosed.trans hs,
      keys_eq_empty_iff.mpr (hkeeps.index_eq_empty_iff.mpr hempty)⟩

/-- The rest of a poll yields an object whose deadline has come, if there is one. -/
theorem expire_polls (hlawful : d.Lawful) {r : Receiver d} {s : Deadlines T}
    (hkeeps : r.Keeps s.settled) (hclosed : r.rxClosed = s.closed) (woken : Bool) :
    ∃ due, s.Polls (.ofResult s.now (r.expire s.now woken).2.result)
        { s with fifo := [], due := due } ∧
      (r.expire s.now woken).1.Keeps due ∧
      (r.expire s.now woken).1.rxClosed = r.rxClosed := by
  by_cases hkeys : r.pending.keys = ∅
  · rw [Receiver.expire, if_pos hkeys]
    refine ⟨s.settled, conclude_polls hkeeps hclosed ?_, hkeeps, rfl⟩
    have hempty : s.settled = ∅ :=
      hkeeps.index_eq_empty_iff.mp (keys_eq_empty_iff.mp hkeys)
    intro x time hlookup
    rw [hempty, Finmap.lookup_empty] at hlookup
    cases hlookup
  · rw [Receiver.expire, if_neg hkeys]
    rcases hpoll : d.pollExpired r.q s.now with ⟨q, (_ | ⟨key, x⟩) | _⟩
    · obtain ⟨hentries, hempty⟩ := hlawful.drained r.q q s.now hpoll
      refine ⟨s.settled, conclude_polls hkeeps hclosed ?_, ?_, rfl⟩
      · intro x time hlookup
        rw [hkeeps.store_eq_empty_iff.mp hempty, Finmap.lookup_empty] at hlookup
        cases hlookup
      · change Keyed r.pending (d.entries q) s.settled
        rw [hentries]
        exact hkeeps
    · obtain ⟨hentries, time, hstored, hcome⟩ := hlawful.expired r.q q s.now key x hpoll
      refine ⟨s.settled.erase x, ?_, ?_, rfl⟩
      · exact .yielded x time ((hkeeps.kept x time).mpr ⟨key, hstored⟩) hcome
      · change Keyed (r.pending.erase x) (d.entries q) (s.settled.erase x)
        rw [hentries]
        exact hkeeps.erase ((hkeeps.indexed x key).mpr ⟨time, hstored⟩)
    · obtain ⟨hentries, hwait⟩ := hlawful.waiting r.q q s.now hpoll
      refine ⟨s.settled, conclude_polls hkeeps hclosed ?_, ?_, rfl⟩
      · intro x time hlookup
        obtain ⟨key, hstored⟩ := (hkeeps.kept x time).mp hlookup
        exact hwait key x time hstored
      · change Keyed r.pending (d.entries q) s.settled
        rw [hentries]
        exact hkeeps

end Receiver

/-! ## The channel refines the deadlines -/

section Refinement

variable {d : DelayQueue T}

/-- The channel represents the abstract state.  Once the receiver has seen the end
of the channel, no sender and no operation is left. -/
structure Represents (c : Channel d) (s : Deadlines T) : Prop where
  capacity : s.capacity = c.capacity
  now : s.now = c.now
  fifo : s.fifo = c.buffer
  closed : s.closed = decide (c.senders = 0)
  keeps : c.receiver.Keeps s.due
  ended : c.receiver.rxClosed = true → c.senders = 0 ∧ c.buffer = []

theorem represents_new (hlawful : d.Lawful) (capacity now : Nat) :
    Represents (Channel.new d capacity now) (Deadlines.initial capacity now) where
  capacity := rfl
  now := rfl
  fifo := rfl
  closed := rfl
  keeps := by
    change Keyed ∅ (d.entries d.new) ∅
    rw [hlawful.new]
    exact Keyed.empty
  ended hclosed := by cases hclosed

/-- Whether the loop runs or is skipped, a poll continues with a receiver that has
all operations applied and knows whether a sender is left, and the task is to be
woken by the channel if there is one. -/
theorem pollRequeued_drains (hlawful : d.Lawful) {c : Channel d} {s : Deadlines T}
    (hrep : Represents c s) :
    ∃ r : Receiver d, c.receiver.pollRequeued c.senders c.buffer c.now =
        some ((r.expire c.now (!r.rxClosed)).1, (r.expire c.now (!r.rxClosed)).2, []) ∧
      r.Keeps s.settled ∧ r.rxClosed = s.closed ∧
      (if c.receiver.rxClosed then [] else c.buffer) = s.fifo := by
  by_cases hclosed : c.receiver.rxClosed = true
  · obtain ⟨hsenders, hbuffer⟩ := hrep.ended hclosed
    have hfifo : s.fifo = [] := hrep.fifo.trans hbuffer
    refine ⟨c.receiver, ?_, ?_, ?_, ?_⟩
    · rw [Receiver.pollRequeued, if_pos hclosed, hbuffer, hclosed, Bool.not_true]
    · rw [Deadlines.settled, hfifo]
      exact hrep.keeps
    · rw [hclosed, hrep.closed, hsenders]
      rfl
    · rw [if_pos hclosed, hfifo]
  · rw [Bool.not_eq_true] at hclosed
    obtain ⟨r, hdrain, hkeeps, hr⟩ :=
      drain_keeps hlawful c.senders hrep.keeps hclosed c.buffer
    refine ⟨r, ?_, ?_, ?_, ?_⟩
    · rw [Receiver.pollRequeued, hclosed, if_neg Bool.false_ne_true, hdrain, hr, ← decide_not]
      rfl
    · rw [Deadlines.settled, hrep.fifo]
      exact hkeeps
    · rw [hr, hrep.closed]
    · rw [hclosed, if_neg Bool.false_ne_true, hrep.fifo]

omit [DecidableEq T] in
/-- Every method sends the operation that it asks for. -/
theorem Deadlines.asks_op (now : Nat) (call : Call T) : Asks now call (call.op now) := by
  cases call with
  | requeueAt x time => exact .requeueAt x time
  | requeue x defer => exact .requeue x defer
  | cancel x => exact .cancel x
  | clear => exact .clear

/-- A method finds a sender and room in the channel just when it does in the abstract
one. -/
theorem Represents.sends_iff {c : Channel d} {s : Deadlines T} (hrep : Represents c s) :
    c.Sends ↔ s.closed = false ∧ s.fifo.length < s.capacity := by
  rw [Channel.Sends, hrep.closed, hrep.fifo, hrep.capacity, decide_eq_false_iff_not,
    Nat.pos_iff_ne_zero]

/-- Every step of the channel, from a state that represents an abstract one, is an
abstract step; in particular it is not a panic. -/
theorem step_represents (hlawful : d.Lawful) {c : Channel d} {s : Deadlines T}
    (hrep : Represents c s) (act : Act T) :
    ∃ c' obs s', c.step act = some (c', [(act, obs)]) ∧
      Deadlines.Step s (act, obs) s' ∧ Represents c' s' := by
  cases act with
  | send call =>
      by_cases hsends : c.Sends
      · obtain ⟨hopen, hroom⟩ := hrep.sends_iff.mp hsends
        refine ⟨{ c with buffer := c.buffer ++ [call.op c.now] }, [.sent (call.op c.now)],
          { s with fifo := s.fifo ++ [call.op s.now] }, if_pos hsends, ?_, ?_⟩
        · rw [← hrep.now]
          exact .send (Deadlines.asks_op s.now call) hopen hroom
        · refine ⟨hrep.capacity, hrep.now, ?_, hrep.closed, hrep.keeps, ?_⟩
          · simp only [hrep.fifo, hrep.now]
          · intro hclosed
            exact absurd (hrep.ended hclosed).1 (Nat.ne_of_gt hsends.1)
      · -- No sender is left, or there is no room.
        have hwaits : s.closed = true ∨ s.capacity ≤ s.fifo.length := by
          rw [hrep.sends_iff, not_and_or, Bool.not_eq_false, not_lt] at hsends
          exact hsends
        exact ⟨c, [], s, if_neg hsends, .wait call hwaits, hrep⟩
  | clone =>
      refine ⟨_, [], s, rfl, .clone, hrep.capacity, hrep.now, hrep.fifo, ?_, hrep.keeps, ?_⟩
      · rw [hrep.closed]
        by_cases hsenders : c.senders = 0 <;> simp [hsenders]
      · intro hclosed
        obtain ⟨hsenders, hbuffer⟩ := hrep.ended hclosed
        exact ⟨if_pos hsenders, hbuffer⟩
  | drop =>
      have hended : c.receiver.rxClosed = true → c.senders - 1 = 0 ∧ c.buffer = [] := by
        intro hclosed
        obtain ⟨hsenders, hbuffer⟩ := hrep.ended hclosed
        exact ⟨by omega, hbuffer⟩
      by_cases hlast : c.senders = 1
      · -- The last sender goes.
        refine ⟨_, [], { s with closed := true }, rfl, .close, hrep.capacity, hrep.now,
          hrep.fifo, ?_, hrep.keeps, hended⟩
        simp [hlast]
      · refine ⟨_, [], s, rfl, .drop, hrep.capacity, hrep.now, hrep.fifo, ?_, hrep.keeps,
          hended⟩
        rw [hrep.closed, decide_eq_decide]
        change c.senders = 0 ↔ c.senders - 1 = 0
        omega
  | advance time =>
      refine ⟨_, [], _, rfl, .advance time, hrep.capacity, ?_, hrep.fifo, hrep.closed,
        hrep.keeps, hrep.ended⟩
      change s.now + time = c.now + time
      rw [hrep.now]
  | poll =>
      obtain ⟨r, hpoll, hkeeps, hclosed, hops⟩ := pollRequeued_drains hlawful hrep
      obtain ⟨due, hpolls, hkeeps', hclosed'⟩ :=
        expire_polls hlawful hkeeps hclosed (!r.rxClosed)
      refine ⟨{ c with receiver := (r.expire s.now (!r.rxClosed)).1, buffer := [] }, _, _, ?_,
        .poll hpolls, hrep.capacity, hrep.now, rfl, hrep.closed, hkeeps', ?_⟩
      · simp only [Channel.step, hpoll, Option.map_some, ← hops, hrep.now]
        by_cases hrx : c.receiver.rxClosed = true <;> simp [hrx]
      · -- The receiver has seen the end, so there is no sender that could refill the channel.
        intro hended
        rw [hclosed', hclosed, hrep.closed, decide_eq_true_iff] at hended
        exact ⟨hended, rfl⟩

theorem step_label {c c' : Channel d} {act : Act T} {labels : List (Label T)}
    (hstep : c.step act = some (c', labels)) : labels.map Prod.fst = [act] := by
  cases act with
  | send call =>
      by_cases hsends : c.Sends
      · rw [Channel.step, if_pos hsends] at hstep
        cases hstep
        rfl
      · rw [Channel.step, if_neg hsends] at hstep
        cases hstep
        rfl
  | poll =>
      obtain ⟨next, -, hnext⟩ := Option.map_eq_some_iff.mp hstep
      cases hnext
      rfl
  | clone | drop | advance time =>
      cases hstep
      rfl

/-- A run of a channel does not panic, and is a run of the abstract channel. -/
theorem run_represents (hlawful : d.Lawful) {c : Channel d} {s : Deadlines T}
    (hrep : Represents c s) (acts : List (Act T)) :
    ∃ c' labels s', c.run acts = some (c', labels) ∧ Run Deadlines.Step s labels s' ∧
      Represents c' s' := by
  refine Transducer.run_simulates Represents ?_ hrep acts
  intro c s act hrep
  obtain ⟨c', obs, s', hstep, habs, hrep'⟩ := step_represents hlawful hrep act
  exact ⟨c', [(act, obs)], s', hstep, Run.cons habs (Run.nil s'), hrep'⟩

end Refinement

/-! ## The last operation on an object decides -/

/-- The operations that change the deadline of an object. -/
def Op.Concerns (x : T) : Op T → Prop
  | .requeue y _ => y = x
  | .cancel y => y = x
  | .clear => True

theorem lookup_apply_of_not_concerns {x : T} {op : Op T} (hop : ¬ op.Concerns x)
    (due : Finmap fun _ : T => Nat) : (op.apply due).lookup x = due.lookup x := by
  cases op with
  | requeue y time => exact Finmap.lookup_insert_of_ne due fun h => hop h.symm
  | cancel y => exact Finmap.lookup_erase_ne fun h => hop h.symm
  | clear => exact absurd trivial hop

/-- An operation that leaves an object it concerns with a deadline requeues it at
this deadline. -/
theorem eq_requeue_of_lookup_apply {x : T} {op : Op T} (hop : op.Concerns x)
    {due : Finmap fun _ : T => Nat} {time : Nat}
    (hlookup : (op.apply due).lookup x = some time) : op = .requeue x time := by
  cases op with
  | requeue y later =>
      obtain rfl : y = x := hop
      rw [Op.apply, Finmap.lookup_insert] at hlookup
      rw [Option.some.inj hlookup]
  | cancel y =>
      obtain rfl : y = x := hop
      rw [Op.apply, Finmap.lookup_erase] at hlookup
      cases hlookup
  | clear =>
      rw [Op.apply, Finmap.lookup_empty] at hlookup
      cases hlookup

/-- The operation is the last one of the list that concerns the object. -/
def LastOn (x : T) (op : Op T) (ops : List (Op T)) : Prop :=
  ∃ before after, ops = before ++ op :: after ∧ op.Concerns x ∧
    ∀ op' ∈ after, ¬ op'.Concerns x

omit [DecidableEq T] in
theorem LastOn.concat_of_not_concerns {x : T} {op last : Op T} {ops : List (Op T)}
    (hlast : LastOn x op ops) (hop : ¬ last.Concerns x) : LastOn x op (ops ++ [last]) := by
  obtain ⟨before, after, rfl, hconcerns, hafter⟩ := hlast
  refine ⟨before, after ++ [last], by simp, hconcerns, ?_⟩
  intro op' hmem
  rcases List.mem_append.mp hmem with hmem | hmem
  · exact hafter op' hmem
  · rw [List.mem_singleton.mp hmem]
    exact hop

/-- An object with a deadline has last been requeued at this deadline. -/
def Deadlines.Honest (labels : List (Label T)) (s : Deadlines T) : Prop :=
  ∀ x time, s.settled.lookup x = some time → LastOn x (.requeue x time) (sentOps labels)

namespace Deadlines

/-- A poll only takes deadlines away. -/
theorem Polls.settled_of_settled {s s' : Deadlines T} {result : Obs T}
    (hpoll : s.Polls result s') {x : T} {time : Nat}
    (hlookup : s'.settled.lookup x = some time) : s.settled.lookup x = some time := by
  cases hpoll with
  | yielded y _ _ _ => exact (lookup_erase_eq_some_iff.mp hlookup).2
  | exhausted _ _ =>
      rw [settled, List.foldl_nil, Finmap.lookup_empty] at hlookup
      cases hlookup
  | pending _ _ => exact hlookup

/-- A poll sends nothing. -/
theorem Polls.sentOp_eq_nil {s s' : Deadlines T} {result : Obs T}
    (hpoll : s.Polls result s') (ops : List (Op T)) :
    (ops.map Obs.processed ++ [result]).filterMap Obs.sentOp = [] := by
  rw [List.filterMap_append, List.filterMap_map, List.append_eq_nil_iff]
  constructor
  · exact List.filterMap_eq_nil_iff.mpr fun _ _ => rfl
  · cases hpoll <;> rfl

theorem honest_step (labels : List (Label T)) (s : Deadlines T) (label : Label T)
    (s' : Deadlines T) (hhonest : Honest labels s) (hstep : Step s label s') :
    Honest (labels ++ [label]) s' := by
  intro x time hlookup
  cases hstep with
  | @send _ op _ _ _ =>
      rw [sentOps_concat]
      rw [settled, List.foldl_append] at hlookup
      by_cases hop : op.Concerns x
      · -- The new operation is itself the last one on the object.
        refine ⟨sentOps labels, [], ?_, rfl, nofun⟩
        rw [← eq_requeue_of_lookup_apply hop hlookup]
        rfl
      · refine (hhonest x time ?_).concat_of_not_concerns hop
        rw [← lookup_apply_of_not_concerns hop]
        exact hlookup
  | poll hpoll =>
      rw [sentOps_concat, hpoll.sentOp_eq_nil, List.append_nil]
      exact hhonest x time (hpoll.settled_of_settled hlookup)
  | wait _ _ | clone | drop | close | advance _ =>
      rw [sentOps_concat, List.filterMap_nil, List.append_nil]
      exact hhonest x time hlookup

/-- Along every run, an object with a deadline has last been requeued at it. -/
theorem honest_of_run {capacity now : Nat} {labels : List (Label T)} {s : Deadlines T}
    (hrun : Run Step (initial capacity now) labels s) : Honest labels s := by
  refine hrun.history Honest honest_step ?_
  intro x time hlookup
  rw [settled, initial, List.foldl_nil, Finmap.lookup_empty] at hlookup
  cases hlookup

end Deadlines

section Theorem

variable {d : DelayQueue T}

/-- What a poll yields is what the abstract poll yields. -/
theorem yields_of_poll (hlawful : d.Lawful) {c c' : Channel d} {s : Deadlines T}
    (hrep : Represents c s) {obs : List (Obs T)} {x : T} {now : Nat}
    (hstep : c.step .poll = some (c', [(.poll, obs)])) (hyield : .yielded x now ∈ obs) :
    ∃ time, s.settled.lookup x = some time ∧ time ≤ s.now := by
  obtain ⟨c'', obs', s', hstep', habs, -⟩ := step_represents hlawful hrep .poll
  rw [hstep] at hstep'
  cases hstep'
  cases habs with
  | poll hpoll =>
      rcases List.mem_append.mp hyield with hmem | hmem
      · obtain ⟨op, -, hop⟩ := List.mem_map.mp hmem
        cases hop
      · obtain rfl := List.mem_singleton.mp hmem
        cases hpoll with
        | yielded x time hdue hcome => exact ⟨time, hdue, hcome⟩

/-- A requeue channel refines the map of deadlines.  No run panics, and every run is
a run of the abstract channel with the same steps and observations, at the end of
which the channel represents the abstract state.  If the next poll yields an object,
the last operation ever sent on it is a requeue at a deadline that has come. -/
theorem channel_refines_deadlines (hlawful : d.Lawful) (capacity now : Nat)
    (acts : List (Act T)) :
    ∃ c labels s, (Channel.new d capacity now).run acts = some (c, labels) ∧
      labels.map Prod.fst = acts ∧
      Run Deadlines.Step (Deadlines.initial capacity now) labels s ∧ Represents c s ∧
      ∀ c' obs x clock, c.step .poll = some (c', [(.poll, obs)]) → .yielded x clock ∈ obs →
        ∃ time, time ≤ c.now ∧ LastOn x (.requeue x time) (sentOps labels) := by
  obtain ⟨c, labels, s, hrun, habs, hrep⟩ :=
    run_represents hlawful (represents_new hlawful capacity now) acts
  refine ⟨c, labels, s, hrun, ?_, habs, hrep, ?_⟩
  · exact Transducer.run_labels Prod.fst (fun _ _ _ _ hstep => step_label hstep) hrun
  · intro c' obs x clock hstep hyield
    obtain ⟨time, hdue, hcome⟩ := yields_of_poll hlawful hrep hstep hyield
    exact ⟨time, hrep.now ▸ hcome, Deadlines.honest_of_run habs x time hdue⟩

end Theorem

/-- Two pods to requeue. -/
inductive Pod
  | podA
  | podB
deriving DecidableEq, Repr

/-- A pod is requeued after ten, and again after nine of them; it is polled when the
first deadline has passed, when the second has, and when the sender is gone. -/
def resetActs : List (Act Pod) :=
  [.send (.requeue .podA 10), .poll, .advance 9, .send (.requeue .podA 10),
    .advance 2, .poll, .advance 8, .poll, .drop, .poll]

theorem reset_pod_refines :
    ∃ c labels s, (Channel.new (DelayQueue.byKey Pod) 1 0).run resetActs = some (c, labels) ∧
      Run Deadlines.Step (Deadlines.initial 1 0) labels s ∧ Represents c s ∧
      observations labels =
        [.sent (.requeue .podA 10), .processed (.requeue .podA 10), .pending,
          .sent (.requeue .podA 19), .processed (.requeue .podA 19), .pending,
          .yielded .podA 19, .exhausted] := by
  obtain ⟨c, labels, s, hrun, -, habs, hrep, -⟩ :=
    channel_refines_deadlines (DelayQueue.byKey_lawful (T := Pod)) 1 0 resetActs
  refine ⟨c, labels, s, hrun, habs, hrep, ?_⟩
  have heval := congrArg (Option.map fun last => observations last.2) hrun
  rw [Option.map_some] at heval
  exact Option.some.inj (heval.symm.trans (by decide +kernel))

end Requeue
end Kubert
