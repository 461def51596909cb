import Kubert.Foundation.Poll
import Mathlib.Tactic.NormNum

/-!
# Semaphores

`Initialized` counts its handles with the `Semaphore` of `tokio`, which is not part of
the repository.  It is a parameter here: a carrier with the operations that are used,
the number of permits that nobody holds, and whether somebody waits for some.
`Lawful` lists what their documentation says, and is all that the proofs rely on.

* A permit that is dropped, or added, can be acquired again.
* `try_acquire_owned` takes a permit if there is one and nobody waits.
* The future of `acquire_many` is ready as soon as enough permits are available.
  Only one such future is ever polled.

Permits that are set aside for the one who waits still count as available: nobody
holds them.  The bound on the number of permits is left out.

`Semaphore.fair` is a semaphore of this kind that can be evaluated.
-/

namespace Kubert
namespace Runtime

open Foundation

/-- `tokio::sync::Semaphore`, with one waiter at most. -/
structure Semaphore where
  Sem : Type
  new : Nat → Sem
  available : Sem → Nat
  waiting : Sem → Bool
  addPermits : Sem → Nat → Sem
  tryAcquireOwned : Sem → Option Sem
  /-- A permit is dropped that was acquired for this number. -/
  release : Sem → Nat → Sem
  /-- The future of `acquire_many` is polled. -/
  pollAcquireMany : Sem → UInt32 → Sem × Poll Unit
  /-- The future of `acquire_many` is dropped. -/
  cancelAcquireMany : Sem → Sem

/-- The documented behaviour of a semaphore. -/
structure Semaphore.Lawful (S : Semaphore) : Prop where
  new : ∀ n, S.available (S.new n) = n ∧ S.waiting (S.new n) = false
  addPermits : ∀ s n, S.available (S.addPermits s n) = S.available s + n ∧
    S.waiting (S.addPermits s n) = S.waiting s
  tryAcquireOwned : ∀ s, S.waiting s = false → 0 < S.available s →
    ∃ s', S.tryAcquireOwned s = some s' ∧ S.available s' + 1 = S.available s ∧
      S.waiting s' = false
  release : ∀ s n, S.available (S.release s n) = S.available s + n ∧
    S.waiting (S.release s n) = S.waiting s
  acquireMany_ready : ∀ s n, n.toNat ≤ S.available s →
    ∃ s', S.pollAcquireMany s n = (s', .ready ()) ∧
      S.available s' + n.toNat = S.available s ∧ S.waiting s' = false
  acquireMany_pending : ∀ s n, S.available s < n.toNat →
    ∃ s', S.pollAcquireMany s n = (s', .pending) ∧ S.available s' = S.available s ∧
      S.waiting s' = true
  cancelAcquireMany : ∀ s, S.available (S.cancelAcquireMany s) = S.available s

/-! ## A semaphore that can be evaluated -/

/-- The free permits, those set aside for the one who waits, and how many it waits
for. -/
structure FairSemaphore where
  permits : Nat
  assigned : Nat
  wanted : Option Nat
  assigned_eq_zero : wanted = none → assigned = 0
deriving DecidableEq

namespace FairSemaphore

/-- Released permits go to the one who waits, as far as it needs them. -/
def add (s : FairSemaphore) (n : Nat) : FairSemaphore :=
  match s.wanted with
  | none => { s with permits := s.permits + n }
  | some wanted =>
      { permits := s.permits + (n - min n (wanted - s.assigned))
        assigned := s.assigned + min n (wanted - s.assigned)
        wanted := some wanted
        assigned_eq_zero := nofun }

/-- What is left once the one who waits has got its permits, or given up. -/
def free (permits : Nat) : FairSemaphore := ⟨permits, 0, none, fun _ => rfl⟩

theorem add_available (s : FairSemaphore) (n : Nat) :
    (s.add n).permits + (s.add n).assigned = s.permits + s.assigned + n := by
  unfold add
  split
  · simp only
    omega
  · simp only
    omega

theorem add_wanted (s : FairSemaphore) (n : Nat) : (s.add n).wanted = s.wanted := by
  unfold add
  split
  · rfl
  · rename_i wanted hwanted
    exact hwanted.symm

end FairSemaphore

open FairSemaphore in
/-- A semaphore that sets permits aside for the one who waits. -/
def Semaphore.fair : Semaphore where
  Sem := FairSemaphore
  new := free
  available := fun s => s.permits + s.assigned
  waiting := fun s => s.wanted.isSome
  addPermits := add
  tryAcquireOwned := fun s =>
    if 0 < s.permits then some { s with permits := s.permits - 1 } else none
  release := add
  pollAcquireMany := fun s n =>
    if n.toNat ≤ s.permits + s.assigned then
      (free (s.permits + s.assigned - n.toNat), .ready ())
    else (⟨0, s.permits + s.assigned, some n.toNat, nofun⟩, .pending)
  cancelAcquireMany := fun s => free (s.permits + s.assigned)

theorem Semaphore.fair_lawful : Semaphore.fair.Lawful where
  new := fun n => ⟨rfl, rfl⟩
  addPermits := fun s n => ⟨s.add_available n, congrArg Option.isSome (s.add_wanted n)⟩
  tryAcquireOwned := by
    intro s hwaiting havailable
    have hwanted : s.wanted = none := by
      simpa [Semaphore.fair] using hwaiting
    have hassigned := s.assigned_eq_zero hwanted
    have hpermits : 0 < s.permits := by
      have hsum : 0 < s.permits + s.assigned := havailable
      omega
    refine ⟨{ s with permits := s.permits - 1 }, ?_, ?_, hwaiting⟩
    · simp [Semaphore.fair, hpermits]
    · change s.permits - 1 + s.assigned + 1 = s.permits + s.assigned
      omega
  release := fun s n => ⟨s.add_available n, congrArg Option.isSome (s.add_wanted n)⟩
  acquireMany_ready := by
    intro s n hle
    have hle' : n.toNat ≤ s.permits + s.assigned := hle
    refine ⟨FairSemaphore.free (s.permits + s.assigned - n.toNat), if_pos hle', ?_, rfl⟩
    change s.permits + s.assigned - n.toNat + 0 + n.toNat = s.permits + s.assigned
    omega
  acquireMany_pending := by
    intro s n hlt
    have hlt' : ¬ n.toNat ≤ s.permits + s.assigned := Nat.not_le.mpr hlt
    refine ⟨_, if_neg hlt', ?_, rfl⟩
    change 0 + (s.permits + s.assigned) = s.permits + s.assigned
    omega
  cancelAcquireMany := fun s => rfl

end Runtime
end Kubert
