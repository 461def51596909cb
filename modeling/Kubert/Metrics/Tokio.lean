import Mathlib.Algebra.GroupWithZero.Nat
import Mathlib.Algebra.Ring.Int.Defs
import Mathlib.Data.List.Induction

/-!
# Metrics of the Tokio runtime

`Metrics::probe` takes a reading of `tokio-metrics` every second and feeds it to the
metrics that `Runtime::register` has registered.  Most counters are fed with what has
happened since the last reading; `budget_forced_yield` is read as an absolute count and
fed with the difference; gauges are set.

The gauge that is registered for the injection queue is set to the depth of the local
queues.  It shows the right depth only where the two are the same, which leaves
everything else: every other metric follows its own source, as long as its number fits
the metric (`metrics_follow_iff`).

`usize` has 64 bits here.
-/

namespace Kubert
namespace PrometheusTokio

/-! ## `Metrics` and its registry -/

/-- `tokio_metrics::RuntimeMetrics`, one reading. -/
structure RuntimeMetrics where
  workersCount : UInt64
  totalParkCount : UInt64
  totalNoopCount : UInt64
  totalStealCount : UInt64
  totalStealOperations : UInt64
  numRemoteSchedules : UInt64
  totalLocalScheduleCount : UInt64
  totalOverflowCount : UInt64
  totalPollsCount : UInt64
  totalBusySecs : Float
  globalQueueDepth : UInt64
  totalLocalQueueDepth : UInt64
  budgetForcedYieldCount : UInt64
  ioDriverReadyCount : UInt64

/-- `Metrics`. -/
structure Metrics where
  workers : Int64 := 0
  park : UInt64 := 0
  noop : UInt64 := 0
  steal : UInt64 := 0
  stealOperations : UInt64 := 0
  remoteSchedule : UInt64 := 0
  localSchedule : UInt64 := 0
  overflow : UInt64 := 0
  polls : UInt64 := 0
  busy : Float := 0
  injectionQueueDepth : Int64 := 0
  localQueueDepth : Int64 := 0
  budgetForcedYield : UInt64 := 0
  ioDriverReady : UInt64 := 0

/-- The value of a metric. -/
inductive Value
  | counter (n : UInt64)
  | seconds (x : Float)
  | gauge (n : Int64)

/-- What a registry knows of a metric. -/
structure Registered where
  name : String
  help : String
  value : Value

/-- `u64::checked_sub`. -/
def checkedSub (n m : UInt64) : Option UInt64 := if m ≤ n then some (n - m) else none

namespace Metrics

/-- `Runtime::register`: the metrics with their names. -/
def register (m : Metrics) : List Registered :=
  [⟨"workers", "The number of worker threads used by the runtime", .gauge m.workers⟩,
    ⟨"park", "Total number of times worker threads parked", .counter m.park⟩,
    ⟨"noop", "Number of times workers unparked but found no new work", .counter m.noop⟩,
    ⟨"steal", "Number of tasks stolen by workers from others", .counter m.steal⟩,
    ⟨"steal_operations", "Number of times workers stole tasks from other",
      .counter m.stealOperations⟩,
    ⟨"remote_schedule", "Total number of remote schedule operations",
      .counter m.remoteSchedule⟩,
    ⟨"local_schedule", "Total number of local schedule operations",
      .counter m.localSchedule⟩,
    ⟨"overflow", "Total number of overflow operations", .counter m.overflow⟩,
    ⟨"polls", "The number of tasks that have been polled across all worker threads",
      .counter m.polls⟩,
    ⟨"busy", "Total duration of time when worker threads were busy processing tasks",
      .seconds m.busy⟩,
    ⟨"injection_queue_depth",
      "The number of tasks currently scheduled in the runtime's injection queue",
      .gauge m.injectionQueueDepth⟩,
    ⟨"local_queue_depth",
      "The total number of tasks currently scheduled in workers' local queues",
      .gauge m.localQueueDepth⟩,
    ⟨"budget_forced_yield",
      "Number of times a worker thread was forced to yield due to budget exhaustion",
      .counter m.budgetForcedYield⟩,
    ⟨"io_driver_ready", "Number of times the IO driver was woken up",
      .counter m.ioDriverReady⟩]

/-- The value that is exported under a name. -/
def exported (m : Metrics) (name : String) : Option Value :=
  (m.register.find? fun r => r.name = name).map Registered.value

/-- `Metrics::probe`, on the next reading. -/
def probe (m : Metrics) (p : RuntimeMetrics) : Metrics :=
  { park := m.park + p.totalParkCount
    noop := m.noop + p.totalNoopCount
    steal := m.steal + p.totalStealCount
    stealOperations := m.stealOperations + p.totalStealOperations
    remoteSchedule := m.remoteSchedule + p.numRemoteSchedules
    localSchedule := m.localSchedule + p.totalLocalScheduleCount
    overflow := m.overflow + p.totalOverflowCount
    polls := m.polls + p.totalPollsCount
    busy := m.busy + p.totalBusySecs
    ioDriverReady := m.ioDriverReady + p.ioDriverReadyCount
    workers := p.workersCount.toInt64
    injectionQueueDepth := p.totalLocalQueueDepth.toInt64
    localQueueDepth := p.totalLocalQueueDepth.toInt64
    budgetForcedYield :=
      match checkedSub p.budgetForcedYieldCount m.budgetForcedYield with
      | some delta => m.budgetForcedYield + delta
      | none => m.budgetForcedYield }

/-- The metrics after some readings. -/
def probed (readings : List RuntimeMetrics) : Metrics := readings.foldl probe {}

@[simp] theorem probed_append (readings : List RuntimeMetrics) (p : RuntimeMetrics) :
    probed (readings ++ [p]) = (probed readings).probe p := by
  simp [probed]

end Metrics

/-! ## What the metrics stand for -/

/-- The counters that are fed with what has happened since the last reading. -/
inductive DeltaCounter
  | park
  | noop
  | steal
  | stealOperations
  | remoteSchedule
  | localSchedule
  | overflow
  | polls
  | ioDriverReady

namespace DeltaCounter

/-- The name of the counter. -/
def name : DeltaCounter → String
  | park => "park"
  | noop => "noop"
  | steal => "steal"
  | stealOperations => "steal_operations"
  | remoteSchedule => "remote_schedule"
  | localSchedule => "local_schedule"
  | overflow => "overflow"
  | polls => "polls"
  | ioDriverReady => "io_driver_ready"

/-- The source of the counter. -/
def delta (p : RuntimeMetrics) : DeltaCounter → UInt64
  | park => p.totalParkCount
  | noop => p.totalNoopCount
  | steal => p.totalStealCount
  | stealOperations => p.totalStealOperations
  | remoteSchedule => p.numRemoteSchedules
  | localSchedule => p.totalLocalScheduleCount
  | overflow => p.totalOverflowCount
  | polls => p.totalPollsCount
  | ioDriverReady => p.ioDriverReadyCount

/-- What has happened in all readings. -/
def total (c : DeltaCounter) (readings : List RuntimeMetrics) : Nat :=
  (readings.map fun p => (c.delta p).toNat).sum

end DeltaCounter

/-- The gauges. -/
inductive DepthGauge
  | workers
  | localQueueDepth
  | injectionQueueDepth

namespace DepthGauge

/-- The name of the gauge. -/
def name : DepthGauge → String
  | workers => "workers"
  | localQueueDepth => "local_queue_depth"
  | injectionQueueDepth => "injection_queue_depth"

/-- The quantity that the gauge is registered for. -/
def quantity (p : RuntimeMetrics) : DepthGauge → UInt64
  | workers => p.workersCount
  | localQueueDepth => p.totalLocalQueueDepth
  | injectionQueueDepth => p.globalQueueDepth

end DepthGauge

/-- Every metric follows its own source. -/
structure Follows (readings : List RuntimeMetrics) (m : Metrics) : Prop where
  counters : ∀ c : DeltaCounter, ∃ n, m.exported c.name = some (.counter n) ∧
    n.toNat = c.total readings
  budget : ∀ last, readings.getLast? = some last →
    m.exported "budget_forced_yield" = some (.counter last.budgetForcedYieldCount)
  gauges : ∀ (g : DepthGauge) last, readings.getLast? = some last →
    ∃ n, m.exported g.name = some (.gauge n) ∧ n.toInt = ((g.quantity last).toNat : Int)

/-! ## What a reading does to them -/

variable {readings : List RuntimeMetrics} {p last : RuntimeMetrics}

namespace DeltaCounter

variable (c : DeltaCounter)

/-- The counter of this name. -/
def read (m : Metrics) : DeltaCounter → UInt64
  | park => m.park
  | noop => m.noop
  | steal => m.steal
  | stealOperations => m.stealOperations
  | remoteSchedule => m.remoteSchedule
  | localSchedule => m.localSchedule
  | overflow => m.overflow
  | polls => m.polls
  | ioDriverReady => m.ioDriverReady

theorem exported_name (m : Metrics) : m.exported c.name = some (.counter (c.read m)) := by
  cases c <;> rfl

theorem read_probe (m : Metrics) (p : RuntimeMetrics) :
    c.read (m.probe p) = c.read m + c.delta p := by
  cases c <;> rfl

theorem total_append (readings : List RuntimeMetrics) (p : RuntimeMetrics) :
    c.total (readings ++ [p]) = c.total readings + (c.delta p).toNat := by
  simp [total]

/-- A counter wraps around. -/
theorem read_probed (readings : List RuntimeMetrics) :
    (c.read (Metrics.probed readings)).toNat = c.total readings % 2 ^ 64 := by
  induction readings using List.reverseRecOn with
  | nil => cases c <;> rfl
  | append_singleton readings p ih =>
      rw [Metrics.probed_append, read_probe, UInt64.toNat_add, ih, total_append,
        Nat.mod_add_mod]

end DeltaCounter

/-- An absolute count that has not decreased is taken over. -/
theorem Metrics.probe_budgetForcedYield {m : Metrics}
    (hle : m.budgetForcedYield ≤ p.budgetForcedYieldCount) :
    (m.probe p).budgetForcedYield = p.budgetForcedYieldCount := by
  simp only [Metrics.probe, checkedSub, if_pos hle]
  rw [UInt64.add_comm, UInt64.sub_add_cancel]

/-- As long as the count does not decrease, the counter stands where the last reading
stood. -/
theorem Metrics.probed_budgetForcedYield
    (hmono : (readings.map RuntimeMetrics.budgetForcedYieldCount).Pairwise (· ≤ ·))
    (hlast : readings.getLast? = some last) :
    (Metrics.probed readings).budgetForcedYield = last.budgetForcedYieldCount := by
  induction readings using List.reverseRecOn generalizing last with
  | nil => cases hlast
  | append_singleton readings p ih =>
      obtain rfl : p = last := by simpa using hlast
      rw [List.map_append, List.pairwise_append] at hmono
      obtain ⟨hbefore, -, hlater⟩ := hmono
      rw [Metrics.probed_append]
      apply Metrics.probe_budgetForcedYield
      cases hprevious : readings.getLast? with
      | none =>
          rw [List.getLast?_eq_none_iff.mp hprevious]
          exact UInt64.zero_le
      | some previous =>
          rw [ih hbefore hprevious]
          exact hlater _ (List.mem_map_of_mem (List.mem_of_getLast? hprevious)) _ (by simp)

namespace DepthGauge

/-- What the gauge is set to. -/
def source (p : RuntimeMetrics) : DepthGauge → UInt64
  | workers => p.workersCount
  | localQueueDepth => p.totalLocalQueueDepth
  | injectionQueueDepth => p.totalLocalQueueDepth

theorem exported_probed (g : DepthGauge) (hlast : readings.getLast? = some last) :
    (Metrics.probed readings).exported g.name = some (.gauge (g.source last).toInt64) := by
  obtain ⟨before, rfl⟩ := List.getLast?_eq_some_iff.mp hlast
  rw [Metrics.probed_append]
  cases g <;> rfl

end DepthGauge

/-- An `i64` shows a count that is less than half of the range of a `u64`. -/
theorem toInt_toInt64_eq_iff {n k : UInt64} :
    n.toInt64.toInt = (k.toNat : Int) ↔ n = k ∧ k.toNat < 2 ^ 63 := by
  have hsigned : n.toInt64.toInt =
      if 2 * n.toNat < 2 ^ 64 then (n.toNat : Int) else (n.toNat : Int) - 2 ^ 64 :=
    BitVec.toInt_eq_toNat_cond n.toBitVec
  have hlt := n.toNat_lt
  rw [hsigned, ← UInt64.toNat_inj]
  split <;> omega

/-! ## Every metric and its source -/

/-- The numbers fit the metrics, and the last reading finds as many tasks in the
injection queue as in the local queues. -/
structure Fits (readings : List RuntimeMetrics) : Prop where
  counters : ∀ c : DeltaCounter, c.total readings < 2 ^ 64
  gauges : ∀ (g : DepthGauge) last, readings.getLast? = some last →
    (g.quantity last).toNat < 2 ^ 63
  depths : ∀ last, readings.getLast? = some last →
    last.totalLocalQueueDepth = last.globalQueueDepth

/-- A gauge shows its quantity exactly if it is set to it, and it fits. -/
theorem DepthGauge.follows_iff (g : DepthGauge) (hlast : readings.getLast? = some last) :
    (∃ n, (Metrics.probed readings).exported g.name = some (.gauge n) ∧
      n.toInt = ((g.quantity last).toNat : Int)) ↔
      g.source last = g.quantity last ∧ (g.quantity last).toNat < 2 ^ 63 := by
  rw [← toInt_toInt64_eq_iff, g.exported_probed hlast]
  constructor
  · rintro ⟨n, hn, hvalue⟩
    obtain rfl := Value.gauge.inj (Option.some.inj hn)
    exact hvalue
  · intro hvalue
    exact ⟨_, rfl, hvalue⟩

/-- A counter shows the sum of its source exactly if it fits. -/
theorem DeltaCounter.follows_iff (c : DeltaCounter) :
    (∃ n, (Metrics.probed readings).exported c.name = some (.counter n) ∧
      n.toNat = c.total readings) ↔ c.total readings < 2 ^ 64 := by
  rw [c.exported_name]
  constructor
  · rintro ⟨n, hn, htotal⟩
    rw [← htotal]
    exact n.toNat_lt
  · intro hfits
    refine ⟨_, rfl, ?_⟩
    rw [c.read_probed, Nat.mod_eq_of_lt hfits]

/-- After any readings whose count of forced yields does not decrease, every metric
follows its own source exactly if its numbers fit and the last reading finds as many
tasks in the injection queue as in the local queues. -/
theorem metrics_follow_iff
    (hmono : (readings.map RuntimeMetrics.budgetForcedYieldCount).Pairwise (· ≤ ·)) :
    Follows readings (Metrics.probed readings) ↔ Fits readings := by
  constructor
  · intro hfollows
    have hgauge (g : DepthGauge) (last : RuntimeMetrics)
        (hlast : readings.getLast? = some last) :=
      (g.follows_iff hlast).mp (hfollows.gauges g last hlast)
    constructor
    · intro c
      exact c.follows_iff.mp (hfollows.counters c)
    · intro g last hlast
      exact (hgauge g last hlast).2
    · intro last hlast
      exact (hgauge .injectionQueueDepth last hlast).1
  · intro hfits
    constructor
    · intro c
      exact c.follows_iff.mpr (hfits.counters c)
    · intro last hlast
      rw [← Metrics.probed_budgetForcedYield hmono hlast]
      rfl
    · intro g last hlast
      refine (g.follows_iff hlast).mpr ⟨?_, hfits.gauges g last hlast⟩
      cases g with
      | workers => rfl
      | localQueueDepth => rfl
      | injectionQueueDepth => exact hfits.depths last hlast

/-- A reading of a runtime with four workers, and this number of tasks in the injection
queue. -/
def exampleReading (globalQueueDepth : UInt64) : RuntimeMetrics where
  workersCount := 4
  totalParkCount := 10
  totalNoopCount := 2
  totalStealCount := 1
  totalStealOperations := 1
  numRemoteSchedules := 3
  totalLocalScheduleCount := 5
  totalOverflowCount := 0
  totalPollsCount := 20
  totalBusySecs := 0
  globalQueueDepth := globalQueueDepth
  totalLocalQueueDepth := 0
  budgetForcedYieldCount := 6
  ioDriverReadyCount := 7

/-- While all queues are empty the metrics are right. -/
theorem idle_runtime_followed :
    Follows [exampleReading 0, exampleReading 0]
      (Metrics.probed [exampleReading 0, exampleReading 0]) := by
  refine (metrics_follow_iff (by decide)).mpr ⟨?_, ?_, ?_⟩
  · intro c
    cases c <;> decide
  · intro g last hlast
    obtain rfl : exampleReading 0 = last := by simpa using hlast
    cases g <;> decide
  · intro last hlast
    obtain rfl : exampleReading 0 = last := by simpa using hlast
    rfl

/-- Seven tasks wait in the injection queue, and the gauge for it shows none. -/
theorem injection_queue_not_shown :
    (Metrics.probed [exampleReading 7]).exported "injection_queue_depth" = some (.gauge 0) ∧
      ¬ Follows [exampleReading 7] (Metrics.probed [exampleReading 7]) := by
  refine ⟨rfl, fun hfollows => ?_⟩
  obtain ⟨n, hn, hvalue⟩ := hfollows.gauges .injectionQueueDepth (exampleReading 7) rfl
  obtain rfl := Value.gauge.inj (Option.some.inj hn)
  revert hvalue
  decide

end PrometheusTokio
end Kubert
