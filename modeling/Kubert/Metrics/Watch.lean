import Kubert.Diagnostics.Watch

/-!
# `runtime::metrics`

`ResourceWatchMetrics::instrument_watch` counts what watchers yield in two families of
counters, which all watches of a runtime share: events by what they do and by the type of
the resource, and errors by their kind and by the type.

The families are those of `prometheus_client`, which is not part of the repository.  They
are a parameter: what can be made of labels and counters, and the value of every counter
that was created.  `Lawful` lists what their documentation says, and is all that the proofs
rely on.

* A new family has no counters.
* `get_or_create` creates the counter of its labels if there is none, at zero, and `inc`
  adds one to it; all other counters are left alone.

A counter is a `u64`, and the values here are exact as long as they fit in it.
`Families.byLabels` are families of this kind that can be evaluated.

The diagnostics of a watch count as well, for each watch on its own.  What a result adds
to the one, it adds to the other (`record_event`, `record_error`).
-/

namespace Kubert
namespace WatchMetrics

open Index (Event)
open Lease (DateTime)
open Diagnostics (ObjectMeta ResourceType WatchResult WatchState WatchStats)

universe u v

/-! ## Families of counters -/

/-- `prometheus_client::metrics::family::Family<L, Counter>`, for all types of labels. -/
structure Families where
  Family : Type → Type
  new : (L : Type) → Family L
  /-- The counter of these labels, if it was created. -/
  counter : {L : Type} → Family L → L → Option Nat
  /-- `get_or_create(labels).inc()`. -/
  inc : {L : Type} → [DecidableEq L] → Family L → L → Family L

namespace Families

/-- The documented behaviour of families. -/
structure Lawful (P : Families) : Prop where
  new : ∀ {L : Type} (labels : L), P.counter (P.new L) labels = none
  inc : ∀ {L : Type} [DecidableEq L] (f : P.Family L) (labels : L),
    P.counter (P.inc f labels) =
      Function.update (P.counter f) labels (some ((P.counter f labels).getD 0 + 1))

/-- The counters that were created, under their labels. -/
def byLabels : Families where
  Family L := L → Option Nat
  new _ := fun _ => none
  counter f := f
  inc f labels := Function.update f labels (some ((f labels).getD 0 + 1))

theorem byLabels_lawful : byLabels.Lawful where
  new _ := rfl
  inc _ _ := rfl

variable {P : Families} {L : Type}

variable (P) in
/-- The value of a counter, which is zero if it was not created. -/
def value (f : P.Family L) (labels : L) : Nat := (P.counter f labels).getD 0

variable (P) in
/-- Every counter that was created has counted. -/
def Positive (f : P.Family L) : Prop := ∀ labels, P.counter f labels ≠ some 0

theorem Positive.eq_none_iff {f : P.Family L} (h : P.Positive f) (labels : L) :
    P.counter f labels = none ↔ P.value f labels = 0 := by
  have hzero := h labels
  unfold value
  cases hvalue : P.counter f labels with
  | none => simp
  | some n =>
      rw [hvalue] at hzero
      simpa using hzero

variable [DecidableEq L]

theorem Lawful.value_inc (hlawful : P.Lawful) (f : P.Family L) (labels labels' : L) :
    P.value (P.inc f labels) labels' =
      P.value f labels' + if labels' = labels then 1 else 0 := by
  unfold value
  rw [hlawful.inc]
  by_cases hsame : labels' = labels
  · subst hsame
    simp
  · simp [hsame]

theorem Lawful.positive_inc (hlawful : P.Lawful) {f : P.Family L} (h : P.Positive f)
    (labels : L) : P.Positive (P.inc f labels) := by
  intro labels'
  rw [hlawful.inc]
  by_cases hsame : labels' = labels
  · subst hsame
    simp
  · simpa [hsame] using h labels'

omit [DecidableEq L] in
theorem Lawful.positive_new (hlawful : P.Lawful) : P.Positive (P.new L) := by
  intro labels
  simp [hlawful.new]

omit [DecidableEq L] in
theorem Lawful.value_new (hlawful : P.Lawful) (labels : L) : P.value (P.new L) labels = 0 := by
  simp [value, hlawful.new]

end Families

/-! ## Labels -/

/-- `EventOp`. -/
inductive EventOp
  | apply
  | restart
  | delete
deriving DecidableEq, Repr

/-- The kinds of `watcher::Error`. -/
inductive ErrorKind
  | initialListFailed
  | watchStartFailed
  | watchError
  | watchFailed
  | noResourceVersion
deriving DecidableEq, Repr

/-- The label of an error. -/
def ErrorKind.label : ErrorKind → String
  | .initialListFailed => "InitialListFailed"
  | .watchStartFailed => "WatchStartFailed"
  | .watchError => "WatchError"
  | .watchFailed => "WatchFailed"
  | .noResourceVersion => "NoResourceVersion"

theorem ErrorKind.label_injective : Function.Injective ErrorKind.label := by
  intro k k' h
  cases k <;> cases k' <;> first | rfl | exact absurd h (by decide)

/-- `watcher::Error`, with its text. -/
structure WatcherError where
  kind : ErrorKind
  message : String
deriving DecidableEq, Repr

/-- `T::kind`, `T::group` and `T::version` of the type that is watched. -/
structure TypeLabels where
  kind : String
  group : String
  version : String
deriving DecidableEq, Repr

/-- `EventLabels`. -/
structure EventLabels where
  op : EventOp
  type : TypeLabels
deriving DecidableEq, Repr

/-- `ErrorLabels`. -/
structure ErrorLabels where
  type : TypeLabels
  error : String
deriving DecidableEq, Repr

/-- `ResourceWatchMetrics`. -/
structure ResourceWatchMetrics (P : Families) where
  watchEvents : P.Family EventLabels
  watchErrors : P.Family ErrorLabels

/-- What a watcher yields. -/
abbrev WatcherResult (ρ : Type v) := Except WatcherError (Event ρ)

section Instrument

variable {P : Families} {ρ : Type v}

namespace ResourceWatchMetrics

/-- `ResourceWatchMetrics::register`. -/
def register (P : Families) : ResourceWatchMetrics P :=
  ⟨P.new EventLabels, P.new ErrorLabels⟩

/-- What `instrument_watch` does with a result. -/
def instrument (t : TypeLabels) (m : ResourceWatchMetrics P) :
    WatcherResult ρ → ResourceWatchMetrics P
  | .ok .init | .ok (.initApply _) => m
  | .ok .initDone => { m with watchEvents := P.inc m.watchEvents ⟨.restart, t⟩ }
  | .ok (.apply _) => { m with watchEvents := P.inc m.watchEvents ⟨.apply, t⟩ }
  | .ok (.delete _) => { m with watchEvents := P.inc m.watchEvents ⟨.delete, t⟩ }
  | .error e => { m with watchErrors := P.inc m.watchErrors ⟨t, e.kind.label⟩ }

end ResourceWatchMetrics

/-! ## Metrics and diagnostics -/

/-- A result as the diagnostics see it: the metadata of a resource, and the text of an
error. -/
def toWatchResult (metadata : ρ → ObjectMeta) : WatcherResult ρ → WatchResult
  | .ok .init => .ok .init
  | .ok (.initApply r) => .ok (.initApply (metadata r))
  | .ok .initDone => .ok .initDone
  | .ok (.apply r) => .ok (.apply (metadata r))
  | .ok (.delete r) => .ok (.delete (metadata r))
  | .error e => .error e.message

/-- The counter of the diagnostics that goes with an `EventOp`. -/
def EventOp.stat : EventOp → WatchStats → Nat
  | .apply, stats => stats.applies
  | .restart, stats => stats.resets
  | .delete, stats => stats.deletes

theorem EventOp.stat_le_counted (op : EventOp) (stats : WatchStats) :
    op.stat stats ≤ stats.counted := by
  unfold WatchStats.counted
  cases op <;> simp only [EventOp.stat] <;> omega

/-- The errors of a type that were counted, of all kinds. -/
def ResourceWatchMetrics.errors (m : ResourceWatchMetrics P) (t : TypeLabels) : Nat :=
  P.value m.watchErrors ⟨t, ErrorKind.initialListFailed.label⟩ +
    P.value m.watchErrors ⟨t, ErrorKind.watchStartFailed.label⟩ +
    P.value m.watchErrors ⟨t, ErrorKind.watchError.label⟩ +
    P.value m.watchErrors ⟨t, ErrorKind.watchFailed.label⟩ +
    P.value m.watchErrors ⟨t, ErrorKind.noResourceVersion.label⟩

variable (metadata : ρ → ObjectMeta) (rt : ResourceType) (now : DateTime)

/-- What a result adds to the counters of events, it adds to the diagnostics of the watch
that it comes from. -/
theorem record_event (hlawful : P.Lawful) (t t' : TypeLabels) (op : EventOp)
    (m : ResourceWatchMetrics P) (d : WatchState) (result : WatcherResult ρ) :
    P.value (m.instrument t result).watchEvents ⟨op, t'⟩ +
        (if t = t' then op.stat d.stats else 0) =
      P.value m.watchEvents ⟨op, t'⟩ +
        (if t = t' then op.stat (d.inspect rt now (toWatchResult metadata result)).stats
          else 0) := by
  by_cases htype : t = t'
  · subst htype
    rcases result with e | event
    · cases op <;> rfl
    · cases event <;> cases op <;>
        simp [ResourceWatchMetrics.instrument, toWatchResult, WatchState.inspect,
          hlawful.value_inc, EventOp.stat, Nat.add_comm, Nat.add_assoc]
  · have hne : ∀ op', (⟨op, t'⟩ : EventLabels) ≠ ⟨op', t⟩ := by
      intro op' hsame
      exact htype (EventLabels.mk.inj hsame).2.symm
    rcases result with e | event
    · simp [ResourceWatchMetrics.instrument, htype]
    · cases event <;>
        simp [ResourceWatchMetrics.instrument, hlawful.value_inc, hne, htype]

/-- What an error adds to the counters of errors, it adds to the diagnostics of the watch
that it comes from. -/
theorem record_error (hlawful : P.Lawful) (t t' : TypeLabels) (m : ResourceWatchMetrics P)
    (d : WatchState) (result : WatcherResult ρ) :
    (m.instrument t result).errors t' + (if t = t' then d.stats.errors else 0) =
      m.errors t' +
        (if t = t' then (d.inspect rt now (toWatchResult metadata result)).stats.errors
          else 0) := by
  rcases result with e | event
  · by_cases htype : t = t'
    · subst htype
      have hlabel : ∀ k : ErrorKind, (⟨t, k.label⟩ : ErrorLabels) = ⟨t, e.kind.label⟩ ↔
          k = e.kind := by
        intro k
        constructor
        · intro hsame
          exact ErrorKind.label_injective (ErrorLabels.mk.inj hsame).2
        · rintro rfl
          rfl
      simp only [ResourceWatchMetrics.errors, ResourceWatchMetrics.instrument,
        hlawful.value_inc, hlabel, toWatchResult, WatchState.inspect, if_true]
      cases e.kind <;> simp <;> omega
    · have hne : ∀ label, (⟨t', label⟩ : ErrorLabels) ≠ ⟨t, e.kind.label⟩ := by
        intro label hsame
        exact htype (ErrorLabels.mk.inj hsame).1.symm
      simp [ResourceWatchMetrics.errors, ResourceWatchMetrics.instrument, hlawful.value_inc,
        hne, htype]
  · cases event <;>
      simp [ResourceWatchMetrics.instrument, ResourceWatchMetrics.errors, toWatchResult,
        WatchState.inspect]

theorem ResourceWatchMetrics.instrument_positive (hlawful : P.Lawful) {t : TypeLabels}
    {m : ResourceWatchMetrics P} (hevents : P.Positive m.watchEvents)
    (herrors : P.Positive m.watchErrors) (result : WatcherResult ρ) :
    P.Positive (m.instrument t result).watchEvents ∧
      P.Positive (m.instrument t result).watchErrors := by
  rcases result with e | event
  · exact ⟨hevents, hlawful.positive_inc herrors _⟩
  · cases event with
    | init | initApply => exact ⟨hevents, herrors⟩
    | initDone | apply | delete => exact ⟨hlawful.positive_inc hevents _, herrors⟩

end Instrument
end WatchMetrics
end Kubert
