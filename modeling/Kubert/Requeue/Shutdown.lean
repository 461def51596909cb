import Kubert.Requeue.Deadlines
import Kubert.Stream.Adapters

/-!
# A requeue channel of a runtime

`Runtime::requeue` makes a channel and wraps its receiver, so that the stream of requeued
objects ends on shutdown.  The wrapper asks the receiver first: an object whose deadline
has come is yielded although the shutdown has been signaled, and only when there is none
does the stream end.  What is left then has its deadline in the future.

* `Requeued` is the wrapped channel, with its senders and the clock; a run of it is a run
  of the channel inside (`channel_run`), and yields what the channel yields.
* `Deadlines.Answers` says what a poll returns, in terms of the deadlines that the channel
  represents.
* `drains` polls a stream after the signal until it ends.
-/

namespace Kubert
namespace Requeue

open Foundation
open Kubert.Stream (CancelOnShutdown Next)

universe u

variable {T : Type u} [DecidableEq T]

/-! ## The wrapped channel -/

/-- `poll_next` of a `Receiver`, with its end of the channel. -/
def Channel.pollNext {d : DelayQueue T} (c : Channel d) : Option (Channel d × Next T) :=
  (c.receiver.pollRequeued c.senders c.buffer c.now).map fun next =>
    ({ c with receiver := next.1, buffer := next.2.2 }, next.2.1.result)

/-- What `Runtime::requeue` returns, and whether the shutdown of the runtime is signaled. -/
structure Requeued (d : DelayQueue T) where
  stream : CancelOnShutdown (Channel d)
  signaled : Bool

/-- What can happen next: what happens to a channel, where a poll is one of the wrapper,
and the signal. -/
inductive Requeued.Act (T : Type u)
  | channel (act : Requeue.Act T)
  | signal
deriving DecidableEq, Repr

namespace Requeued

variable {d : DelayQueue T}

omit [DecidableEq T] in
/-- `Runtime::requeue`. -/
def new (d : DelayQueue T) (capacity now : Nat) : Requeued d :=
  ⟨⟨Channel.new d capacity now, false⟩, false⟩

/-- One step, with what a poll returns; `none` is a panic. -/
def step (s : Requeued d) : Act T → Option (Requeued d × Option (Next T))
  | .signal => some ({ s with signaled := true }, none)
  | .channel .poll =>
      (s.stream.pollNext Channel.pollNext s.signaled).map fun next =>
        ({ s with stream := next.1 }, some next.2)
  | .channel act =>
      (s.stream.inner.step act).map fun next =>
        ({ s with stream := { s.stream with inner := next.1 } }, none)

/-- What was done, and what was returned. -/
abbrev Event (T : Type u) := Act T × Option (Next T)

/-- A step as a relation. -/
def Step (s : Requeued d) (event : Event T) (s' : Requeued d) : Prop :=
  s.step event.1 = some (s', event.2)

/-- A poll that has returned. -/
def polled (result : Next T) : Event T := (.channel .poll, some result)

/-- Polls that yield the objects of a list, and then the end. -/
def drained (xs : List T) : List (Event T) :=
  xs.map (fun x => polled (.ready (some x))) ++ [polled (.ready none)]

/-- What an event does to the channel inside. -/
def inner : Event T → Option (Requeue.Act T)
  | (.channel act, _) => some act
  | (.signal, _) => none

/-- The object of a poll that yields one. -/
def item : Event T → Option T
  | (_, some (.ready (some x))) => some x
  | _ => none

end Requeued

/-- The object of a yield. -/
def Obs.item : Obs T → Option T
  | .yielded x _ => some x
  | _ => none

/-! ## Polls -/

/-- What a poll of the wrapped channel returns.  As long as a deadline has come, an object
of which it has come; otherwise the end, if the shutdown is signaled or the channel is
exhausted. -/
inductive Deadlines.Answers (s : Deadlines T) (signaled : Bool) : Next T → Prop
  | yields (x : T) (time : Nat) (hdue : s.settled.lookup x = some time)
      (hcome : time ≤ s.now) : Answers s signaled (.ready (some x))
  | ends (hnone : ∀ x time, s.settled.lookup x = some time → s.now < time)
      (hend : signaled = true ∨ s.closed = true ∧ s.settled = ∅) :
      Answers s signaled (.ready none)
  | waits (hnone : ∀ x time, s.settled.lookup x = some time → s.now < time)
      (hgoing : signaled = false ∧ ¬ (s.closed = true ∧ s.settled = ∅)) :
      Answers s signaled .pending

section Polls

variable {d : DelayQueue T}

/-- A poll of the receiver, as a step of the channel. -/
theorem Channel.step_poll (c : Channel d) :
    c.step .poll = c.pollNext.map fun next =>
      (next.1, [(.poll, (if c.receiver.rxClosed then [] else c.buffer.map .processed) ++
        [.ofResult c.now next.2])]) := by
  rw [Channel.step, Channel.pollNext, Option.map_map]
  rfl

/-- The receiver is polled without a panic, and as its deadlines say. -/
theorem Channel.pollNext_polls (hlawful : d.Lawful) {c : Channel d} {s : Deadlines T}
    (hrep : Represents c s) :
    ∃ c' result s', c.pollNext = some (c', result) ∧
      s.Polls (.ofResult s.now result) s' ∧ Represents c' s' := by
  obtain ⟨c', obs, s', hstep, habs, hrep'⟩ := step_represents hlawful hrep .poll
  rw [Channel.step_poll] at hstep
  obtain ⟨⟨inner, result⟩, hpoll, hnext⟩ := Option.map_eq_some_iff.mp hstep
  cases hnext
  refine ⟨inner, result, s', hpoll, ?_, hrep'⟩
  generalize hobs :
    (if c.receiver.rxClosed then [] else c.buffer.map Obs.processed) ++
      [Obs.ofResult c.now result] = obs at habs
  cases habs with
  | poll hpolls =>
      obtain ⟨-, hlast⟩ := List.append_inj' hobs rfl
      rw [hrep.now, List.singleton_inj.mp hlast]
      exact hpolls

/-- After a yield there is one deadline less. -/
theorem Deadlines.Polls.settled_of_yielded {s s' : Deadlines T} {x : T} {now : Nat}
    (hpoll : s.Polls (.yielded x now) s') :
    s'.settled = s.settled.erase x ∧ s'.now = s.now ∧
      ∃ time, s.settled.lookup x = some time ∧ time ≤ s.now := by
  cases hpoll with
  | yielded x time hdue hcome => exact ⟨rfl, rfl, time, hdue, hcome⟩

/-- The wrapper asks the receiver first. -/
theorem pollNext_answers (hlawful : d.Lawful) {w : CancelOnShutdown (Channel d)}
    {s : Deadlines T} (hrep : Represents w.inner s) (hgoing : w.completed = false)
    (signaled : Bool) :
    ∃ w' result s' inner, w.pollNext Channel.pollNext signaled = some (w', result) ∧
      s.Answers signaled result ∧ w.inner.pollNext = some (w'.inner, inner) ∧
      s.Polls (.ofResult s.now inner) s' ∧ Represents w'.inner s' ∧
      (result = .ready none ∨ result = inner ∧ w'.completed = false) := by
  obtain ⟨c, inner, s', hpoll, hpolls, hrep'⟩ := Channel.pollNext_polls hlawful hrep
  rw [CancelOnShutdown.pollNext, hpoll, Option.bind_some]
  rcases inner with (_ | x) | _
  · refine ⟨⟨c, w.completed⟩, .ready none, s', .ready none, rfl, ?_, rfl, hpolls, hrep', .inl rfl⟩
    cases hpolls with
    | exhausted hclosed hempty =>
        refine .ends ?_ (.inr ⟨hclosed, hempty⟩)
        intro x time hlookup
        rw [hempty, Finmap.lookup_empty] at hlookup
        cases hlookup
  · refine ⟨⟨c, w.completed⟩, .ready (some x), s', .ready (some x), rfl, ?_, rfl, hpolls, hrep',
      .inr ⟨rfl, hgoing⟩⟩
    obtain ⟨-, -, time, hdue, hcome⟩ := hpolls.settled_of_yielded
    exact .yields x time hdue hcome
  · obtain ⟨hnone, hopen⟩ : (∀ x time, s.settled.lookup x = some time → s.now < time) ∧
        ¬ (s.closed = true ∧ s.settled = ∅) := by
      cases hpolls with
      | pending hnone hopen => exact ⟨hnone, hopen⟩
    simp only [hgoing, Bool.false_eq_true, if_false]
    cases signaled with
    | true =>
        exact ⟨⟨c, true⟩, .ready none, s', .pending, rfl, .ends hnone (.inl rfl), rfl, hpolls,
          hrep', .inl rfl⟩
    | false =>
        exact ⟨⟨c, false⟩, .pending, s', .pending, rfl, .waits hnone ⟨rfl, hopen⟩, rfl, hpolls,
          hrep', .inr ⟨rfl, rfl⟩⟩

end Polls

/-! ## Runs -/

namespace Requeued

variable {d : DelayQueue T}

/-- The wrapper passes on what the receiver returns, unless it is pending. -/
theorem pollNext_passes {w w' : CancelOnShutdown (Channel d)} {signaled : Bool}
    {result : Next T} (hpoll : w.pollNext Channel.pollNext signaled = some (w', result)) :
    ∃ inner, w.inner.pollNext = some (w'.inner, inner) ∧
      (Obs.ofResult w.inner.now inner).item = item (polled result) ∧
      (w'.completed = true → w.completed = true ∨ result = .ready none) := by
  obtain ⟨⟨c, inner⟩, hinner, hrest⟩ := Option.bind_eq_some_iff.mp hpoll
  rcases inner with (_ | x) | _
  · cases hrest
    exact ⟨_, hinner, rfl, .inl⟩
  · cases hrest
    exact ⟨_, hinner, rfl, .inl⟩
  · -- The receiver is pending, and the future of the shutdown is polled.
    simp only at hrest
    split at hrest
    · cases hrest
    · split at hrest
      · cases hrest
        exact ⟨_, hinner, rfl, fun _ => .inr rfl⟩
      · cases hrest
        exact ⟨_, hinner, rfl, .inl⟩

omit [DecidableEq T] in
/-- The last observation of a poll is the only one that can be a yield. -/
theorem items_of_poll (c : Channel d) (o : Obs T) :
    (observations [((.poll : Requeue.Act T),
      (if c.receiver.rxClosed then [] else c.buffer.map Obs.processed) ++ [o])]).filterMap
        Obs.item = [o].filterMap Obs.item := by
  have hprocessed : (c.buffer.map Obs.processed).filterMap Obs.item = [] := by
    rw [List.filterMap_map]
    exact List.filterMap_eq_nil_iff.mpr fun _ _ => rfl
  cases hclosed : c.receiver.rxClosed <;> simp [observations, hprocessed]

theorem items_of_step {c c' : Channel d} {act : Requeue.Act T} {labels : List (Label T)}
    (hact : act ≠ .poll) (hstep : c.step act = some (c', labels)) :
    (observations labels).filterMap Obs.item = [] := by
  cases act with
  | send call =>
      by_cases hsends : c.Sends
      · rw [Channel.step, if_pos hsends] at hstep
        cases hstep
        rfl
      · rw [Channel.step, if_neg hsends] at hstep
        cases hstep
        rfl
  | poll => exact absurd rfl hact
  | clone | drop | advance time =>
      cases hstep
      rfl

theorem step_channel (s : Requeued d) {act : Requeue.Act T} (hact : act ≠ .poll) :
    s.step (.channel act) = (s.stream.inner.step act).map fun next =>
      ({ s with stream := { s.stream with inner := next.1 } }, none) := by
  cases act with
  | poll => exact absurd rfl hact
  | send _ | clone | drop | advance _ => rfl

/-- A step of the wrapped channel is one of the channel inside, with the same objects. -/
theorem Step.inner {s s' : Requeued d} {event : Event T} (hstep : Step s event s') :
    (∀ act, inner event = some act → ∃ labels,
      s.stream.inner.step act = some (s'.stream.inner, labels) ∧
        (observations labels).filterMap Obs.item = [event].filterMap item) ∧
    (inner event = none → s'.stream.inner = s.stream.inner ∧ item event = none) ∧
    (s'.stream.completed = true → s.stream.completed = true ∨ event.2 = some (.ready none)) := by
  obtain ⟨act, result⟩ := event
  cases act with
  | signal =>
      cases hstep
      refine ⟨?_, fun _ => ⟨rfl, rfl⟩, .inl⟩
      intro act hnone
      cases hnone
  | channel act =>
      by_cases hact : act = .poll
      · subst hact
        obtain ⟨⟨w, next⟩, hpoll, hnext⟩ := Option.map_eq_some_iff.mp hstep
        cases hnext
        obtain ⟨result, hinner, hitem, hcompleted⟩ := pollNext_passes hpoll
        refine ⟨?_, Option.some_ne_none _ |>.elim,
          fun h => (hcompleted h).imp_right (congrArg some)⟩
        rintro _ ⟨⟩
        refine ⟨_, by rw [Channel.step_poll, hinner]; rfl, ?_⟩
        rw [items_of_poll]
        simp only [List.filterMap_cons, List.filterMap_nil, hitem, polled]
      · obtain ⟨⟨c, labels⟩, hchannel, hnext⟩ :=
          Option.map_eq_some_iff.mp ((step_channel s hact).symm.trans hstep)
        cases hnext
        refine ⟨?_, Option.some_ne_none _ |>.elim, .inl⟩
        rintro _ ⟨⟩
        exact ⟨labels, hchannel, items_of_step hact hchannel⟩

/-- The channel inside runs as if it were alone, and what it yields is returned. -/
theorem channel_run {capacity now : Nat} {events : List (Event T)} {s : Requeued d}
    (hrun : Run Step (new d capacity now) events s) :
    ∃ labels, (Channel.new d capacity now).run (events.filterMap inner) =
        some (s.stream.inner, labels) ∧
      (observations labels).filterMap Obs.item = events.filterMap item := by
  refine hrun.history (fun past s => ∃ labels,
    (Channel.new d capacity now).run (past.filterMap inner) =
      some (s.stream.inner, labels) ∧
    (observations labels).filterMap Obs.item = past.filterMap item) ?_ ⟨[], rfl, rfl⟩
  rintro past s event s' ⟨labels, hchannel, hitems⟩ hstep
  obtain ⟨hsome, hnone, -⟩ := hstep.inner
  cases hinner : inner event with
  | none =>
      obtain ⟨hsame, hitem⟩ := hnone hinner
      refine ⟨labels, ?_, ?_⟩
      · rw [List.filterMap_append, List.filterMap_cons_none hinner, hsame]
        simpa using hchannel
      · rw [List.filterMap_append, List.filterMap_cons_none hitem, hitems]
        simp
  | some act =>
      obtain ⟨more, hact, hmore⟩ := hsome act hinner
      refine ⟨labels ++ more, ?_, ?_⟩
      · rw [List.filterMap_append, List.filterMap_cons_some hinner]
        exact Transducer.run_append hchannel ((Transducer.run_singleton _ act).trans hact)
      · rw [observations, List.flatMap_append, List.filterMap_append, List.filterMap_append,
          ← hmore]
        exact congrArg₂ _ hitems rfl

/-- As long as the stream has not ended, it can be polled. -/
theorem completed_of_run {capacity now : Nat} {events : List (Event T)} {s : Requeued d}
    (hrun : Run Step (new d capacity now) events s)
    (hgoing : ∀ event ∈ events, event.2 ≠ some (.ready none)) :
    s.stream.completed = false := by
  have hended : s.stream.completed = true → ∃ event ∈ events, event.2 = some (.ready none) := by
    refine hrun.history (fun past s => s.stream.completed = true →
      ∃ event ∈ past, event.2 = some (.ready none)) ?_ nofun
    intro past s event s' h hstep hcompleted
    rcases hstep.inner.2.2 hcompleted with hbefore | hnow
    · obtain ⟨e, hmem, he⟩ := h hbefore
      exact ⟨e, List.mem_append_left _ hmem, he⟩
    · exact ⟨event, List.mem_append_right _ (List.mem_singleton_self event), hnow⟩
  rw [← Bool.not_eq_true]
  intro hcompleted
  obtain ⟨event, hmem, hevent⟩ := hended hcompleted
  exact hgoing event hmem hevent

/-! ## The shutdown -/

/-- After the signal, polling yields every object whose deadline has come, each of them
once, and then ends. -/
theorem drains (hlawful : d.Lawful) {s : Requeued d} {a : Deadlines T}
    (hrep : Represents s.stream.inner a) (hgoing : s.stream.completed = false)
    (hsignaled : s.signaled = true) :
    ∃ xs s', Run Step s (drained xs) s' ∧
      xs.Nodup ∧ ∀ x, x ∈ xs ↔ ∃ time, a.settled.lookup x = some time ∧ time ≤ a.now := by
  -- Every yield leaves one deadline less.
  induction hleft : a.settled.keys.card using Nat.strongRecOn generalizing s a with
  | ind n ih =>
      obtain ⟨w, result, a', returned, hpoll, hanswers, -, hpolls, hrep', hresult⟩ :=
        pollNext_answers hlawful hrep hgoing s.signaled
      have hstep : Step s (polled result) ⟨w, s.signaled⟩ :=
        Option.map_eq_some_iff.mpr ⟨(w, result), hpoll, rfl⟩
      cases hanswers with
      | yields x time hdue hcome =>
          obtain ⟨rfl, hgoing'⟩ := hresult.resolve_left nofun
          obtain ⟨hsettled, hnow, -⟩ := hpolls.settled_of_yielded
          have hless : a'.settled.keys.card < n := by
            rw [hsettled, Finmap.keys_erase, ← hleft]
            exact Finset.card_erase_lt_of_mem
              (Finmap.mem_keys.mpr (Finmap.mem_of_lookup_eq_some hdue))
          obtain ⟨xs, s', hrun, hnodup, hmem⟩ :=
            ih _ hless (s := ⟨w, s.signaled⟩) hrep' hgoing' hsignaled rfl
          simp only [hsettled, hnow, lookup_erase_eq_some_iff] at hmem
          refine ⟨x :: xs, s', Run.cons hstep hrun, List.nodup_cons.mpr ⟨?_, hnodup⟩, ?_⟩
          · intro hx
            obtain ⟨_, ⟨hne, -⟩, -⟩ := (hmem x).mp hx
            exact hne rfl
          · intro y
            rw [List.mem_cons, hmem]
            constructor
            · rintro (rfl | ⟨later, ⟨-, hlater⟩, hle⟩)
              · exact ⟨time, hdue, hcome⟩
              · exact ⟨later, hlater, hle⟩
            · rintro ⟨later, hlater, hle⟩
              exact or_iff_not_imp_left.mpr fun hne => ⟨later, ⟨hne, hlater⟩, hle⟩
      | ends hnone hend =>
          refine ⟨[], _, Run.cons hstep (Run.nil _), List.nodup_nil, ?_⟩
          intro x
          refine ⟨nofun, ?_⟩
          rintro ⟨time, hdue, hcome⟩
          exact absurd (hnone x time hdue) (by omega)
      | waits hnone hstill =>
          rw [hsignaled] at hstill
          cases hstill.1

/-- Over every run of a channel that `Runtime::requeue` has made, up to the end of its
stream: the channel inside runs as if it were alone, and the objects that it yields are
returned; the next poll does not panic, and returns an object whose deadline has come as
long as there is one, and otherwise the end if the shutdown is signaled or no sender and
no deadline is left.  After the signal, polling yields all objects whose deadline has come,
each of them once, and then ends. -/
theorem requeue_ends_on_shutdown (hlawful : d.Lawful) {capacity now : Nat}
    {events : List (Event T)} {s : Requeued d}
    (hrun : Run Step (new d capacity now) events s)
    (hgoing : ∀ event ∈ events, event.2 ≠ some (.ready none)) :
    ∃ labels a, (Channel.new d capacity now).run (events.filterMap inner) =
        some (s.stream.inner, labels) ∧
      (observations labels).filterMap Obs.item = events.filterMap item ∧
      Run Deadlines.Step (Deadlines.initial capacity now) labels a ∧ Represents s.stream.inner a ∧
      (∃ result s', Step s (polled result) s' ∧ a.Answers s.signaled result) ∧
      (s.signaled = true → ∃ xs s', Run Step s (drained xs) s' ∧ xs.Nodup ∧
        ∀ x, x ∈ xs ↔ ∃ time, a.settled.lookup x = some time ∧ time ≤ a.now) := by
  obtain ⟨labels, hchannel, hitems⟩ := channel_run hrun
  obtain ⟨c, labels', a, hrun', habs, hrep⟩ :=
    run_represents hlawful (represents_new hlawful capacity now) (events.filterMap inner)
  obtain ⟨rfl, rfl⟩ := Prod.mk.inj (Option.some.inj (hrun'.symm.trans hchannel))
  have hcompleted := completed_of_run hrun hgoing
  refine ⟨labels', a, hchannel, hitems, habs, hrep, ?_, drains hlawful hrep hcompleted⟩
  obtain ⟨w, result, -, -, hpoll, hanswers, -⟩ :=
    pollNext_answers hlawful hrep hcompleted s.signaled
  exact ⟨result, _, Option.map_eq_some_iff.mpr ⟨(w, result), hpoll, rfl⟩, hanswers⟩

/-- Two pods are requeued, and the shutdown is signaled when only the first one is due. -/
def shutdownActs : List (Event Pod) :=
  [(.channel (.send (.requeue .podA 10)), none), (.channel (.send (.requeue .podB 20)), none),
    (.channel .poll, some .pending), (.channel (.advance 15), none), (.signal, none)]

/-- The first pod is still yielded. -/
theorem due_pod_yielded_on_shutdown :
    ∃ s s' xs, Run Step (new (DelayQueue.byKey Pod) 2 0) shutdownActs s ∧
      Run Step s (drained xs) s' ∧ xs.Nodup ∧ .podA ∈ xs := by
  have hrun : ∃ s : Requeued (DelayQueue.byKey Pod),
      Run Step (new (DelayQueue.byKey Pod) 2 0) shutdownActs s ∧ s.signaled = true ∧
        s.stream.inner.now = 15 ∧ s.stream.inner.buffer = [] ∧
        ((DelayQueue.byKey Pod).entries s.stream.inner.receiver.q).lookup (0 : Nat) =
          some (.podA, 10) :=
    ⟨_, .cons rfl (.cons rfl (.cons rfl (.cons rfl (.cons rfl (.nil _))))), rfl, rfl, rfl, rfl⟩
  obtain ⟨s, hrun, hsignaled, hnow, hbuffer, hstored⟩ := hrun
  obtain ⟨labels, a, -, -, -, hrep, -, hdrains⟩ :=
    requeue_ends_on_shutdown DelayQueue.byKey_lawful hrun (by decide)
  obtain ⟨xs, s', hdrain, hnodup, hmem⟩ := hdrains hsignaled
  refine ⟨s, s', xs, hrun, hdrain, hnodup, (hmem .podA).mpr ⟨10, ?_, ?_⟩⟩
  · rw [Deadlines.settled, hrep.fifo, hbuffer]
    exact (hrep.keeps.kept .podA 10).mpr ⟨_, hstored⟩
  · rw [hrep.now, hnow]
    decide

end Requeued

end Requeue
end Kubert
