import Kubert.Foundation.KeyedStore
import Kubert.Foundation.Poll
import Mathlib.Data.Finset.Max
import Mathlib.Order.Lattice.Nat

/-!
# Delay queues

A requeue channel keeps its deadlines in the `DelayQueue` of `tokio_util`, which is
not part of the repository.  It is a parameter here: a carrier with the operations
that the receiver calls, and a view of the entries that it holds.  `Lawful` lists
what their documentation says, and is all that the proofs rely on.

* The key of an inserted value is not in use.
* `reset_at` and `remove` panic on a key that is not in use, and only then.
* `poll_expired` yields an entry whose deadline has come, whichever it likes, and
  waits only if there is none.

The bound on how far ahead a deadline may lie is left out, and so is the rounding:
`DelayQueue` rounds a deadline up to the end of a millisecond, so the unit of time is
the millisecond here, and every instant and deadline is a whole number of them.

`DelayQueue.byKey` is a queue of this kind that can be evaluated.
-/

namespace Kubert
namespace Requeue

open Foundation

universe u

/-- `tokio_util::time::DelayQueue`.  Instants are numbers, and a panic is `none`. -/
structure DelayQueue (T : Type u) where
  Queue : Type u
  Key : Type
  [decidableEqKey : DecidableEq Key]
  new : Queue
  entries : Queue → Finmap fun _ : Key => T × Nat
  insertAt : Queue → T → Nat → Queue × Key
  resetAt : Queue → Key → Nat → Option Queue
  remove : Queue → Key → Option Queue
  clear : Queue → Queue
  pollExpired : Queue → Nat → Queue × Poll (Option (Key × T))

namespace DelayQueue

variable {T : Type u}

instance (d : DelayQueue T) : DecidableEq d.Key := d.decidableEqKey

/-- The documented behaviour of a delay queue, for instants and deadlines in its unit of
time, the millisecond, so that nothing is rounded. -/
structure Lawful (d : DelayQueue T) : Prop where
  new : d.entries d.new = ∅
  insertAt : ∀ (q : d.Queue) (x : T) (t : Nat),
    (d.insertAt q x t).2 ∉ d.entries q ∧
      d.entries (d.insertAt q x t).1 =
        (d.entries q).insert (d.insertAt q x t).2 (x, t)
  resetAt : ∀ (q : d.Queue) (k : d.Key) (t : Nat) (x : T) (old : Nat),
    (d.entries q).lookup k = some (x, old) →
      ∃ q', d.resetAt q k t = some q' ∧
        d.entries q' = (d.entries q).insert k (x, t)
  remove : ∀ (q : d.Queue) (k : d.Key), k ∈ d.entries q →
    ∃ q', d.remove q k = some q' ∧ d.entries q' = (d.entries q).erase k
  clear : ∀ q : d.Queue, d.entries (d.clear q) = ∅
  expired : ∀ (q q' : d.Queue) (now : Nat) (k : d.Key) (x : T),
    d.pollExpired q now = (q', .ready (some (k, x))) →
      d.entries q' = (d.entries q).erase k ∧
        ∃ t, (d.entries q).lookup k = some (x, t) ∧ t ≤ now
  drained : ∀ (q q' : d.Queue) (now : Nat),
    d.pollExpired q now = (q', .ready none) →
      d.entries q' = d.entries q ∧ d.entries q = ∅
  waiting : ∀ (q q' : d.Queue) (now : Nat),
    d.pollExpired q now = (q', .pending) →
      d.entries q' = d.entries q ∧
        ∀ k x t, (d.entries q).lookup k = some (x, t) → now < t

/-! ## A queue that can be evaluated -/

section ByKey

variable {T : Type}

/-- Entries under numbers. -/
abbrev Entries (T : Type) := Finmap fun _ : Nat => T × Nat

/-- The keys of the entries whose deadline has come. -/
def dueKeys (entries : Entries T) (now : Nat) : Finset Nat :=
  entries.keys.filter fun k => ∃ e ∈ entries.lookup k, e.2 ≤ now

theorem mem_dueKeys {entries : Entries T} {now k : Nat} :
    k ∈ dueKeys entries now ↔ ∃ x t, entries.lookup k = some (x, t) ∧ t ≤ now := by
  unfold dueKeys
  rw [Finset.mem_filter, Finmap.mem_keys, Finmap.mem_iff]
  constructor
  · rintro ⟨-, ⟨x, t⟩, hlookup, hdue⟩
    exact ⟨x, t, hlookup, hdue⟩
  · rintro ⟨x, t, hlookup, hdue⟩
    exact ⟨⟨(x, t), hlookup⟩, (x, t), hlookup, hdue⟩

/-- A queue that takes the first number above those in use for a key, and yields
the smallest key whose deadline has come. -/
def byKey (T : Type) : DelayQueue T where
  Queue := Entries T
  Key := Nat
  new := ∅
  entries := id
  insertAt q x t := (q.insert (q.keys.sup Nat.succ) (x, t), q.keys.sup Nat.succ)
  resetAt q k t := (q.lookup k).map fun e => q.insert k (e.1, t)
  remove q k := (q.lookup k).map fun _ => q.erase k
  clear _ := ∅
  pollExpired q now :=
    if q.keys = ∅ then (q, .ready none)
    else match (dueKeys q now).min with
      | none => (q, .pending)
      | some k => match q.lookup k with
          | none => (q, .pending)
          | some e => (q.erase k, .ready (some (k, e.1)))

theorem nextKey_not_mem (entries : Entries T) :
    entries.keys.sup Nat.succ ∉ entries := by
  intro hmem
  have hle : (entries.keys.sup Nat.succ).succ ≤ entries.keys.sup Nat.succ :=
    Finset.le_sup (f := Nat.succ) (Finmap.mem_keys.mpr hmem)
  omega

theorem byKey_pollExpired_cases (q : (byKey T).Queue) (now : Nat) :
    (q.keys = ∅ ∧ (byKey T).pollExpired q now = (q, .ready none)) ∨
    (dueKeys q now = ∅ ∧ (byKey T).pollExpired q now = (q, .pending)) ∨
    ∃ k x t, q.lookup k = some (x, t) ∧ t ≤ now ∧
      (byKey T).pollExpired q now = (q.erase k, .ready (some (k, x))) := by
  by_cases hkeys : q.keys = ∅
  · left
    exact ⟨hkeys, if_pos hkeys⟩
  right
  cases hmin : (dueKeys q now).min with
  | top =>
      left
      refine ⟨Finset.min_eq_top.mp hmin, ?_⟩
      simp only [byKey, if_neg hkeys, hmin]
  | coe k =>
      right
      obtain ⟨x, t, hlookup, hdue⟩ := mem_dueKeys.mp (Finset.mem_of_min hmin)
      refine ⟨k, x, t, hlookup, hdue, ?_⟩
      simp only [byKey, if_neg hkeys, hmin, hlookup]

theorem byKey_lawful : (byKey T).Lawful where
  new := rfl
  insertAt q x t := ⟨nextKey_not_mem q, rfl⟩
  resetAt q k t x old hlookup := by
    refine ⟨q.insert k (x, t), ?_, rfl⟩
    change (q.lookup k).map _ = _
    rw [show q.lookup k = some (x, old) from hlookup]
    rfl
  remove q k hmem := by
    obtain ⟨e, hlookup⟩ := Finmap.mem_iff.mp hmem
    refine ⟨q.erase k, ?_, rfl⟩
    change (q.lookup k).map _ = _
    rw [show q.lookup k = some e from hlookup]
    rfl
  clear q := rfl
  expired q q' now k x hpoll := by
    rcases byKey_pollExpired_cases q now with ⟨-, h⟩ | ⟨-, h⟩ | ⟨k', x', t, hlookup, hdue, h⟩
    · rw [h] at hpoll
      cases hpoll
    · rw [h] at hpoll
      cases hpoll
    · rw [h] at hpoll
      cases hpoll
      exact ⟨rfl, t, hlookup, hdue⟩
  drained q q' now hpoll := by
    rcases byKey_pollExpired_cases q now with ⟨hkeys, h⟩ | ⟨-, h⟩ | ⟨k', x', t, hlookup, hdue, h⟩
    · rw [h] at hpoll
      cases hpoll
      exact ⟨rfl, keys_eq_empty_iff.mp hkeys⟩
    · rw [h] at hpoll
      cases hpoll
    · rw [h] at hpoll
      cases hpoll
  waiting q q' now hpoll := by
    rcases byKey_pollExpired_cases q now with ⟨-, h⟩ | ⟨hnone, h⟩ | ⟨k', x', t, hlookup, hdue, h⟩
    · rw [h] at hpoll
      cases hpoll
    · rw [h] at hpoll
      cases hpoll
      refine ⟨rfl, ?_⟩
      intro k x t hlookup
      by_contra hlt
      have hmem : k ∈ dueKeys q now := mem_dueKeys.mpr ⟨x, t, hlookup, by omega⟩
      rw [hnone] at hmem
      exact Finset.notMem_empty k hmem
    · rw [h] at hpoll
      cases hpoll

end ByKey

end DelayQueue
end Requeue
end Kubert
