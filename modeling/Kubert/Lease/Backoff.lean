import Kubert.Lease.Spawn
import Mathlib.Algebra.Order.Field.Rat
import Mathlib.Tactic.Linarith

/-!
# The delays between two retries

The task of `spawn` has one builder of backoffs for all its cycles.  At the start of
every cycle it sets the largest interval to the grace period that it has just used for
its wait, and builds a backoff, which `backoff::future::retry` asks for a delay after
every transient error.

The grace period is that of the parameters only for a claim of the claimant.  For a
claim of somebody else it is zero, and so is the largest interval: the first delay is
drawn from the initial interval, and every later one is zero (`retry_backs_off_iff`).

The `backoff` crate is used through three facts: the interval starts with the initial
one, a delay lies within the randomization factor around the interval, and the interval
then grows by half up to the largest one.  Intervals are rational numbers of
nanoseconds.
-/

namespace Kubert
namespace Lease

open Foundation

/-! ## `backoff` -/

/-- `backoff::ExponentialBackoffBuilder`, as far as `spawn` configures it. -/
structure ExponentialBackoffBuilder where
  initialInterval : Duration
  randomizationFactor : ℚ
  maxInterval : Duration

/-- `backoff::ExponentialBackoff`. -/
structure ExponentialBackoff where
  currentInterval : ℚ
  randomizationFactor : ℚ
  maxInterval : ℚ

namespace ExponentialBackoffBuilder

/-- `with_initial_interval`. -/
def withInitialInterval (b : ExponentialBackoffBuilder) (interval : Duration) :
    ExponentialBackoffBuilder :=
  { b with initialInterval := interval }

/-- `with_randomization_factor`. -/
def withRandomizationFactor (b : ExponentialBackoffBuilder) (factor : ℚ) :
    ExponentialBackoffBuilder :=
  { b with randomizationFactor := factor }

/-- `with_max_interval`. -/
def withMaxInterval (b : ExponentialBackoffBuilder) (interval : Duration) :
    ExponentialBackoffBuilder :=
  { b with maxInterval := interval }

/-- `build`. -/
def build (b : ExponentialBackoffBuilder) : ExponentialBackoff :=
  ⟨b.initialInterval.toNanos, b.randomizationFactor, b.maxInterval.toNanos⟩

end ExponentialBackoffBuilder

namespace ExponentialBackoff

/-- The delays that the backoff may choose next. -/
def Yields (b : ExponentialBackoff) (delay : ℚ) : Prop :=
  (1 - b.randomizationFactor) * b.currentInterval ≤ delay ∧
    delay ≤ (1 + b.randomizationFactor) * b.currentInterval

/-- The backoff after a delay has been chosen. -/
def increment (b : ExponentialBackoff) : ExponentialBackoff :=
  { b with
    currentInterval :=
      if b.maxInterval / (3 / 2) ≤ b.currentInterval then b.maxInterval
      else 3 / 2 * b.currentInterval }

/-- The interval does not fall below a bound that it and the largest interval keep. -/
theorem le_increment {b : ExponentialBackoff} {bound : ℚ} (hbound : 0 ≤ bound)
    (hcurrent : bound ≤ b.currentInterval) (hmax : bound ≤ b.maxInterval) :
    bound ≤ b.increment.currentInterval := by
  unfold increment
  dsimp only
  split
  · exact hmax
  · linarith

/-- With a largest interval of zero the interval drops to zero at once. -/
theorem increment_of_zero {b : ExponentialBackoff} (hmax : b.maxInterval = 0)
    (hcurrent : 0 ≤ b.currentInterval) : b.increment.currentInterval = 0 := by
  simp [increment, hmax, hcurrent]

end ExponentialBackoff

/-! ## The cycles of the loop -/

/-- `LeaseManager::DEFAULT_MIN_BACKOFF`. -/
def defaultMinBackoff : Duration := Duration.fromMillis 5

/-- `LeaseManager::DEFAULT_BACKOFF_JITTER`. -/
def defaultBackoffJitter : ℚ := 1 / 2

/-- One call of `backoff::future::retry`: the claim that the task held when it made the
call, the backoff, and the number of retries so far. -/
structure Cycle where
  claim : Claim
  backoff : ExponentialBackoff
  retries : Nat

/-- The builder of the task, and its latest cycle. -/
structure RetryLoop where
  newBackoff : ExponentialBackoffBuilder
  cycle : Option Cycle

/-- The task enters a cycle, or waits after a transient error and tries again. -/
inductive RetryEvent
  | start (claim : Claim)
  | retry (delay : ℚ)

namespace RetryLoop

/-- The builder as `spawn` sets it up. -/
def spawned (builder : ExponentialBackoffBuilder) : RetryLoop where
  newBackoff := (builder.withInitialInterval defaultMinBackoff).withRandomizationFactor
    defaultBackoffJitter
  cycle := none

variable (claimant : String) (params : ClaimParams)

/-- The start of a cycle.  The builder is changed in place, and keeps the largest
interval until the next cycle sets it again. -/
def enter (x : RetryLoop) (claim : Claim) : RetryLoop :=
  let newBackoff := x.newBackoff.withMaxInterval (Spawned.grace claimant params claim)
  ⟨newBackoff, some ⟨claim, newBackoff.build, 0⟩⟩

/-- The step relation. -/
inductive Step : RetryLoop → RetryEvent → RetryLoop → Prop
  | start (x : RetryLoop) (claim : Claim) :
      Step x (.start claim) (x.enter claimant params claim)
  | retry {x : RetryLoop} {c : Cycle} {delay : ℚ} (hcycle : x.cycle = some c)
      (hyields : c.backoff.Yields delay) :
      Step x (.retry delay)
        ⟨x.newBackoff, some ⟨c.claim, c.backoff.increment, c.retries + 1⟩⟩

end RetryLoop

/-! ## Invariants -/

section Invariants

variable {claimant : String} {params : ClaimParams}

/-- The smaller one of the initial interval and the grace period. -/
def leastInterval (params : ClaimParams) : ℚ :=
  min defaultMinBackoff.toNanos params.renewGracePeriod.toNanos

theorem leastInterval_nonneg (params : ClaimParams) : 0 ≤ leastInterval params := by
  unfold leastInterval
  exact le_min (Nat.cast_nonneg _) (Nat.cast_nonneg _)

/-- What holds of a cycle. -/
structure Cycle.Sound (claimant : String) (params : ClaimParams) (c : Cycle) : Prop where
  factor : c.backoff.randomizationFactor = defaultBackoffJitter
  max : c.backoff.maxInterval = (Spawned.grace claimant params c.claim).toNanos
  first : c.retries = 0 → c.backoff.currentInterval = defaultMinBackoff.toNanos
  own : c.claim.holder = claimant → leastInterval params ≤ c.backoff.currentInterval
  other : c.claim.holder ≠ claimant → c.retries ≠ 0 → c.backoff.currentInterval = 0

/-- What holds of the loop. -/
structure RetryLoop.Sound (claimant : String) (params : ClaimParams) (x : RetryLoop) :
    Prop where
  initial : x.newBackoff.initialInterval = defaultMinBackoff
  factor : x.newBackoff.randomizationFactor = defaultBackoffJitter
  cycle : ∀ c, x.cycle = some c → c.Sound claimant params

/-- The interval is never negative. -/
theorem Cycle.Sound.nonneg {c : Cycle} (h : c.Sound claimant params) :
    0 ≤ c.backoff.currentInterval := by
  by_cases hretries : c.retries = 0
  · rw [h.first hretries]
    exact Nat.cast_nonneg _
  · by_cases hholder : c.claim.holder = claimant
    · exact le_trans (leastInterval_nonneg params) (h.own hholder)
    · rw [h.other hholder hretries]

/-- A new cycle starts with the initial interval, whatever the builder was used for. -/
theorem RetryLoop.Sound.enter {x : RetryLoop} (h : x.Sound claimant params)
    (claim : Claim) : (x.enter claimant params claim).Sound claimant params := by
  refine ⟨h.initial, h.factor, ?_⟩
  intro c hc
  obtain rfl := Option.some.inj hc
  have hfirst : (x.newBackoff.withMaxInterval
      (Spawned.grace claimant params claim)).build.currentInterval =
        defaultMinBackoff.toNanos := by
    rw [← h.initial]
    rfl
  refine ⟨h.factor, rfl, fun _ => hfirst, fun _ => ?_, fun _ hretries => absurd rfl hretries⟩
  rw [hfirst]
  exact min_le_left _ _

/-- A retry keeps the interval above the least one, unless the claim is that of
somebody else. -/
theorem Cycle.Sound.increment {c : Cycle} (h : c.Sound claimant params) :
    (⟨c.claim, c.backoff.increment, c.retries + 1⟩ : Cycle).Sound claimant params := by
  refine ⟨h.factor, h.max, fun hretries => absurd hretries (Nat.succ_ne_zero _), ?_, ?_⟩
  · intro hholder
    refine ExponentialBackoff.le_increment (leastInterval_nonneg params) (h.own hholder) ?_
    rw [h.max, Spawned.grace, if_pos hholder]
    exact min_le_right _ _
  · intro hholder _
    refine ExponentialBackoff.increment_of_zero ?_ h.nonneg
    rw [h.max, Spawned.grace, if_neg hholder]
    rfl

/-- Every step keeps the invariant. -/
theorem RetryLoop.Sound.step {x y : RetryLoop} {event : RetryEvent}
    (h : x.Sound claimant params) (hstep : RetryLoop.Step claimant params x event y) :
    y.Sound claimant params := by
  cases hstep with
  | start claim => exact h.enter claim
  | retry hcycle _ =>
      refine ⟨h.initial, h.factor, ?_⟩
      intro c' hc'
      obtain rfl := Option.some.inj hc'
      exact (h.cycle _ hcycle).increment

theorem RetryLoop.sound_of_run {builder : ExponentialBackoffBuilder}
    {events : List RetryEvent} {x : RetryLoop}
    (hrun : Run (RetryLoop.Step claimant params) (RetryLoop.spawned builder) events x) :
    x.Sound claimant params := by
  refine hrun.invariant _ (fun _ _ _ h hstep => h.step hstep) ⟨rfl, rfl, ?_⟩
  intro c hc
  cases hc

end Invariants

/-! ## Backing off -/

section Delays

variable {claimant : String} {params : ClaimParams}

/-- The delay is not zero, and at least what the jitter leaves of the least interval. -/
def BacksOff (params : ClaimParams) (delay : ℚ) : Prop :=
  0 < delay ∧ (1 - defaultBackoffJitter) * leastInterval params ≤ delay

/-- A delay drawn from an interval that is long enough. -/
theorem backsOff_of_le {b : ExponentialBackoff} {delay : ℚ}
    (hgrace : 0 < params.renewGracePeriod.toNanos)
    (hfactor : b.randomizationFactor = defaultBackoffJitter)
    (hinterval : leastInterval params ≤ b.currentInterval) (hyields : b.Yields delay) :
    BacksOff params delay := by
  have hpos : 0 < leastInterval params := by
    unfold leastInterval
    exact lt_min (Nat.cast_pos.mpr (by decide)) (Nat.cast_pos.mpr hgrace)
  have hlow := hyields.1
  rw [hfactor] at hlow
  unfold BacksOff
  unfold defaultBackoffJitter at hlow ⊢
  constructor
  · linarith
  · linarith

/-- The delay before every retry backs off exactly if the claim is the claimant's own or
the retry is the first one of its cycle. -/
theorem retry_backs_off_iff {builder : ExponentialBackoffBuilder}
    {events : List RetryEvent} {x : RetryLoop} {c : Cycle} {delay : ℚ}
    (hrun : Run (RetryLoop.Step claimant params) (RetryLoop.spawned builder) events x)
    (hcycle : x.cycle = some c) (hgrace : 0 < params.renewGracePeriod.toNanos)
    (hyields : c.backoff.Yields delay) :
    BacksOff params delay ↔ c.claim.holder = claimant ∨ c.retries = 0 := by
  have hsound := (RetryLoop.sound_of_run hrun).cycle c hcycle
  constructor
  · intro hbacks
    by_contra hneither
    obtain ⟨hholder, hretries⟩ := not_or.mp hneither
    have hzero := hsound.other hholder hretries
    have hhigh := hyields.2
    rw [hzero, mul_zero] at hhigh
    exact absurd hbacks.1 (not_lt.mpr hhigh)
  · rintro (hholder | hretries)
    · exact backsOff_of_le hgrace hsound.factor (hsound.own hholder) hyields
    · refine backsOff_of_le hgrace hsound.factor ?_ hyields
      rw [hsound.first hretries]
      exact min_le_left _ _

/-- The builder that `spawn` starts from. -/
def exampleBuilder : ExponentialBackoffBuilder :=
  ⟨Duration.fromMillis 500, 1 / 2, Duration.fromSecs 60⟩

/-- A claim of bob that alice's task has waited for. -/
def bobClaim : Claim := ⟨"bob", exampleNow⟩

/-- The backoff of the cycle in which alice's task tries to take the lease over. -/
def takeoverBackoff : ExponentialBackoff :=
  ⟨defaultMinBackoff.toNanos, defaultBackoffJitter, Duration.zero.toNanos⟩

theorem takeoverBackoff_yields : takeoverBackoff.Yields 5000000 := by
  have hnanos : defaultMinBackoff.toNanos = 5000000 := by decide
  unfold ExponentialBackoff.Yields takeoverBackoff defaultBackoffJitter
  rw [hnanos]
  norm_num

theorem takeover_run :
    Run (RetryLoop.Step "alice" default) (RetryLoop.spawned exampleBuilder) [.start bobClaim]
      ⟨⟨defaultMinBackoff, defaultBackoffJitter, Duration.zero⟩,
        some ⟨bobClaim, takeoverBackoff, 0⟩⟩ :=
  .cons (.start _ _) (.nil _)

/-- The first retry waits for five milliseconds, give or take half of it. -/
theorem first_retry_backs_off :
    takeoverBackoff.Yields 5000000 ∧ BacksOff default 5000000 :=
  ⟨takeoverBackoff_yields, (retry_backs_off_iff takeover_run rfl (by decide)
    takeoverBackoff_yields).mpr (Or.inr rfl)⟩

/-- The second retry does not wait at all, and neither does any later one. -/
theorem second_retry_at_once :
    ∃ x c, Run (RetryLoop.Step "alice" default) (RetryLoop.spawned exampleBuilder)
        [.start bobClaim, .retry 5000000] x ∧
      x.cycle = some c ∧ c.retries = 1 ∧ c.backoff.Yields 0 ∧ ¬ BacksOff default 0 := by
  have hzero : takeoverBackoff.increment.currentInterval = 0 :=
    ExponentialBackoff.increment_of_zero Nat.cast_zero (Nat.cast_nonneg _)
  refine ⟨_, _, takeover_run.append (.cons (.retry rfl takeoverBackoff_yields) (.nil _)),
    rfl, rfl, ?_, ?_⟩
  · unfold ExponentialBackoff.Yields
    rw [hzero]
    simp
  · rintro ⟨hpos, -⟩
    exact lt_irrefl _ hpos

end Delays

end Lease
end Kubert
