import Kubert.Requeue.Deadlines

/-!
# The two containers of a receiver

A receiver keeps every pending object twice: in the delay queue, under a key that
the queue has chosen, and in the map from pending objects to their keys.  The two
are changed one after the other, and the queue gives a key away again once it has
been removed, so that a key left behind in the map would belong to another object.

`Receiver.Consistent` says that nothing is left behind.  It holds after every step
of a run, and also at every iteration of the loop of `poll_requeued`, where the keys
of the map are passed to the queue.

`Receiver.Waits` says what a receiver must have done before its task may sleep: the
channel and the queue bring the task back, and the queue has nothing to offer yet.
-/

namespace Kubert
namespace Requeue

open Foundation

universe u

variable {T : Type u} [DecidableEq T] {d : DelayQueue T}

namespace Receiver

/-! ## Consistency -/

/-- The pending objects are the objects in the queue, each of them once and under the
key of the map. -/
structure Consistent (r : Receiver d) : Prop where
  indexed : ∀ x key, r.pending.lookup x = some key ↔
    ∃ time, (d.entries r.q).lookup key = some (x, time)
  once : ∀ x key time key' time', (d.entries r.q).lookup key = some (x, time) →
    (d.entries r.q).lookup key' = some (x, time') → key = key'
  size : r.pending.keys.card = (d.entries r.q).keys.card

theorem Keeps.consistent {r : Receiver d} {due : Finmap fun _ : T => Nat}
    (hkeeps : r.Keeps due) : r.Consistent where
  indexed := hkeeps.indexed
  once _ _ _ _ _ hkey hkey' := hkeeps.key_unique hkey hkey'
  size := hkeeps.card_eq

/-- A key of the map is in use. -/
theorem Consistent.live {r : Receiver d} (hr : r.Consistent) {x : T} {key : d.Key}
    (hlookup : r.pending.lookup x = some key) : key ∈ d.entries r.q := by
  obtain ⟨time, hstored⟩ := (hr.indexed x key).mp hlookup
  exact Finmap.mem_of_lookup_eq_some hstored

/-! ## The loop of `poll_requeued` -/

/-- The key that an operation passes to `remove` or to `reset_at`, if it calls one of
them. -/
def passedKey (r : Receiver d) : Op T → Option d.Key
  | .clear => none
  | .cancel x => r.pending.lookup x
  | .requeue x _ => r.pending.lookup x

/-- The iterations of the loop: the receiver, and the operation that it is about to
process. -/
def iterations : Receiver d → List (Op T) → List (Receiver d × Op T)
  | _, [] => []
  | r, op :: buffer => (r, op) :: ((r.process op).elim [] fun r' => iterations r' buffer)

theorem Consistent.passedKey_live {r : Receiver d} (hr : r.Consistent) (op : Op T) :
    ∀ key ∈ r.passedKey op, key ∈ d.entries r.q := by
  intro key hkey
  cases op with
  | clear => cases hkey
  | cancel x => exact hr.live hkey
  | requeue x time => exact hr.live hkey

/-- Every iteration of the loop finds the containers consistent. -/
theorem iterations_consistent (hlawful : d.Lawful) {r : Receiver d}
    {due : Finmap fun _ : T => Nat} (hkeeps : r.Keeps due) (buffer : List (Op T)) :
    ∀ i ∈ r.iterations buffer, i.1.Consistent := by
  induction buffer generalizing r due with
  | nil =>
      intro i hi
      cases hi
  | cons op buffer ih =>
      obtain ⟨r', hprocess, hkeeps', -⟩ := process_keeps hlawful hkeeps op
      intro i hi
      rw [iterations, hprocess, Option.elim_some] at hi
      rcases List.mem_cons.mp hi with rfl | hlater
      · exact hkeeps.consistent
      · exact ih hkeeps' i hlater

/-! ## Wake-ups -/

/-- The task may sleep.  It is woken by the channel unless the channel has ended, and
by the queue if anything is pending; the queue then holds something, and nothing in
it is due.  At least one of the two wakes the task. -/
structure Waits (r : Receiver d) (now : Nat) (polled : Polled T) : Prop where
  byOps : r.rxClosed = false → polled.wokenByOps = true
  byExpiry : r.pending.keys ≠ ∅ →
    polled.wokenByExpiry = true ∧ (d.entries r.q).keys ≠ ∅
  notDue : ∀ key x time, (d.entries r.q).lookup key = some (x, time) → now < time
  woken : polled.wokenByOps = true ∨ polled.wokenByExpiry = true

theorem conclude_eq_pending_iff {r : Receiver d} :
    r.conclude = .pending ↔ r.rxClosed = false ∨ r.pending.keys ≠ ∅ := by
  rw [conclude]
  by_cases hend : r.rxClosed = true ∧ r.pending.keys = ∅
  · simp [hend.1, hend.2]
  · rw [if_neg hend]
    simp only [true_iff]
    rw [← Bool.not_eq_true]
    exact not_and_or.mp hend

/-- The part of a poll after the loop lets the task sleep only if it is woken. -/
theorem expire_waits (hlawful : d.Lawful) {r : Receiver d}
    {due : Finmap fun _ : T => Nat} (hkeeps : r.Keeps due) (now : Nat)
    (hpending : (r.expire now (!r.rxClosed)).2.result = .pending) :
    (r.expire now (!r.rxClosed)).1.Waits now (r.expire now (!r.rxClosed)).2 := by
  by_cases hkeys : r.pending.keys = ∅
  · -- The queue is empty as well, and the channel has not ended.
    have hopen : r.rxClosed = false := by
      rw [expire, if_pos hkeys] at hpending
      exact (conclude_eq_pending_iff.mp hpending).resolve_right fun h => h hkeys
    have hstore : d.entries r.q = ∅ :=
      hkeeps.store_eq_empty_iff.mpr
        (hkeeps.index_eq_empty_iff.mp (keys_eq_empty_iff.mp hkeys))
    rw [expire, if_pos hkeys, hopen]
    refine ⟨fun _ => rfl, fun h => absurd hkeys h, ?_, .inl rfl⟩
    intro key x time hlookup
    rw [hstore, Finmap.lookup_empty] at hlookup
    cases hlookup
  · have hstore : (d.entries r.q).keys ≠ ∅ := by
      intro hempty
      have hdue := hkeeps.store_eq_empty_iff.mp (keys_eq_empty_iff.mp hempty)
      exact hkeys (keys_eq_empty_iff.mpr (hkeeps.index_eq_empty_iff.mpr hdue))
    rw [expire, if_neg hkeys] at hpending ⊢
    rcases hpoll : d.pollExpired r.q now with ⟨q, (_ | ⟨key, x⟩) | _⟩
    · -- The queue does not end while it holds something.
      obtain ⟨-, hempty⟩ := hlawful.drained r.q q now hpoll
      exact absurd (keys_eq_empty_iff.mpr hempty) hstore
    · rw [hpoll] at hpending
      cases hpending
    · obtain ⟨hentries, hwait⟩ := hlawful.waiting r.q q now hpoll
      refine ⟨?_, fun _ => ⟨rfl, ?_⟩, ?_, .inr rfl⟩
      · intro hopen
        change (!r.rxClosed) = true
        rw [show r.rxClosed = false from hopen]
        rfl
      · change (d.entries q).keys ≠ ∅
        rw [hentries]
        exact hstore
      · change ∀ key x time, (d.entries q).lookup key = some (x, time) → now < time
        rw [hentries]
        exact hwait

end Receiver

/-! ## Runs -/

/-- From every state of a channel that represents deadlines, a poll goes through. -/
theorem poll_consistent (hlawful : d.Lawful) {c : Channel d} {s : Deadlines T}
    (hrep : Represents c s) :
    ∃ r polled, c.receiver.pollRequeued c.senders c.buffer c.now = some (r, polled, []) ∧
      r.Consistent ∧ (polled.result = .pending → r.Waits c.now polled) := by
  obtain ⟨r, hpoll, hkeeps, hclosed, -⟩ := pollRequeued_drains hlawful hrep
  obtain ⟨due, -, hkeeps', -⟩ := expire_polls hlawful hkeeps hclosed (!r.rxClosed)
  rw [hrep.now] at hkeeps'
  exact ⟨_, _, hpoll, hkeeps'.consistent, r.expire_waits hlawful hkeeps c.now⟩

/-- Along every run the two containers of the receiver are consistent.  No run
panics: at every iteration of the loop, the key that is passed to the queue is in
use.  A poll that is pending has left its task to be woken, by the channel unless it
has ended and by the queue if anything is pending. -/
theorem containers_consistent (hlawful : d.Lawful) (capacity now : Nat)
    (acts : List (Act T)) :
    ∃ c labels, (Channel.new d capacity now).run acts = some (c, labels) ∧
      c.receiver.Consistent ∧
      (∀ i ∈ c.receiver.iterations c.buffer,
        i.1.Consistent ∧ ∀ key ∈ i.1.passedKey i.2, key ∈ d.entries i.1.q) ∧
      ∃ r polled, c.receiver.pollRequeued c.senders c.buffer c.now = some (r, polled, []) ∧
        r.Consistent ∧ (polled.result = .pending → r.Waits c.now polled) := by
  obtain ⟨c, labels, s, hrun, -, hrep⟩ :=
    run_represents hlawful (represents_new hlawful capacity now) acts
  refine ⟨c, labels, hrun, hrep.keeps.consistent, ?_, poll_consistent hlawful hrep⟩
  intro i hi
  have hconsistent := Receiver.iterations_consistent hlawful hrep.keeps c.buffer i hi
  exact ⟨hconsistent, hconsistent.passedKey_live i.2⟩

/-- A pod is requeued and cancelled, and another pod takes over its key.  The channel
then holds a cancellation of the first pod, which must not touch the second, and a
later deadline for the second. -/
def reuseActs : List (Act Pod) :=
  [.send (.requeue .podA 10), .poll, .send (.cancel .podA), .send (.requeue .podB 5), .poll,
    .send (.cancel .podA), .send (.requeue .podB 20), .drop]

theorem reused_key_consistent :
    ∃ c labels, (Channel.new (DelayQueue.byKey Pod) 2 0).run reuseActs = some (c, labels) ∧
      c.receiver.Consistent ∧
      (c.receiver.iterations c.buffer).map (fun i => i.1.passedKey i.2) = [none, some (0 : Nat)] ∧
      ∃ r polled, c.receiver.pollRequeued c.senders c.buffer c.now = some (r, polled, []) ∧
        polled = ⟨.pending, false, true⟩ ∧ r.Waits c.now polled := by
  obtain ⟨c, labels, hrun, hconsistent, -, r, polled, hpoll, -, hwaits⟩ :=
    containers_consistent (DelayQueue.byKey_lawful (T := Pod)) 2 0 reuseActs
  have hkeys := congrArg (Option.map fun last =>
    (last.1.receiver.iterations last.1.buffer).map fun i => i.1.passedKey i.2) hrun
  have hresult := congrArg (Option.map fun last =>
    (last.1.receiver.pollRequeued last.1.senders last.1.buffer last.1.now).map fun next =>
      next.2.1) hrun
  rw [Option.map_some] at hkeys hresult
  rw [hpoll, Option.map_some] at hresult
  have hpolled : polled = ⟨.pending, false, true⟩ :=
    Option.some.inj (Option.some.inj (hresult.symm.trans (by decide +kernel)))
  refine ⟨c, labels, hrun, hconsistent, ?_, r, polled, hpoll, hpolled, ?_⟩
  · exact Option.some.inj (hkeys.symm.trans (by decide +kernel))
  · exact hwaits (congrArg Polled.result hpolled)

end Requeue
end Kubert
