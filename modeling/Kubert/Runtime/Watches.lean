import Kubert.Diagnostics.Snapshot
import Kubert.Foundation.Population
import Kubert.Metrics.Watch
import Kubert.Stream.Taps
import Mathlib.Algebra.Order.BigOperators.Group.List

/-!
# The watches of a runtime

A runtime has any number of watches.  `watch_inner` taps the stream of each watcher three
times, in this order: the diagnostics of the watch inspect its results, the metrics that
all watches share count them, and a watch of `Runtime::cache` applies its events to a
store.  Behind the taps are the adapters of `Runtime::watch`.

`Fleet` is a runtime with its watches, which are polled in any order.  What a store makes
of an event is a parameter, as the `Writer` is not part of the repository, and so are the
families of counters.
-/

namespace Kubert
namespace Runtime

open Foundation
open Index (Event)
open Lease (DateTime)
open Diagnostics (ObjectMeta ResourceType WatchState)
open WatchMetrics (Families TypeLabels WatcherError WatcherResult ResourceWatchMetrics
  toWatchResult EventOp)
open Kubert.Stream (Next Tapped tapped scripted resultsFrom recordAll okEvents)

universe u v

variable {P : Families} {ρ : Type} {W : Type u}

/-! ## One watch -/

/-- What is fixed for a watch: the type that is watched, as metrics and as diagnostics name
it, the request, what its watcher answers, the clock when the answers are inspected, when
it was created, and the store that it begins with, if it is one of `Runtime::cache`. -/
structure WatchSpec (ρ : Type) (W : Type u) where
  labels : TypeLabels
  resource : ResourceType
  apiUrl : String
  labelSelector : Option String
  script : Nat → Next (WatcherResult ρ)
  clock : Nat → DateTime
  created : DateTime
  writer : Option W

/-- The diagnostics of a watch as they are registered. -/
def WatchSpec.registered (spec : WatchSpec ρ W) : WatchState :=
  WatchState.new spec.apiUrl spec.labelSelector spec.created

/-- What the taps of a watch keep. -/
structure Kept (P : Families) (W : Type u) where
  diagnostics : WatchState
  metrics : Option (ResourceWatchMetrics P)
  store : Option W

/-- A result goes through the taps: `diagnostics.inspect`, `instrument_watch` and, if there
is a store, the reflector. -/
def Kept.record (metadata : ρ → ObjectMeta) (apply : W → Event ρ → W) (spec : WatchSpec ρ W)
    (n : Nat) (result : WatcherResult ρ) (kept : Kept P W) : Kept P W where
  diagnostics :=
    kept.diagnostics.inspect spec.resource (spec.clock n) (toWatchResult metadata result)
  metrics := kept.metrics.map fun m => m.instrument spec.labels result
  store :=
    match result with
    | .ok event => kept.store.map fun store => apply store event
    | .error _ => kept.store

/-- A watch: its adapters, its diagnostics and its store. -/
structure Watching (ρ : Type) (W : Type u) where
  spec : WatchSpec ρ W
  stack : Stream.Watch Nat Unit
  diagnostics : WatchState
  store : Option W

/-- `Runtime::watch`, or `Runtime::cache` if there is a store. -/
def Watching.new (spec : WatchSpec ρ W) (delay now : Nat) : Watching ρ W where
  spec := spec
  stack := Stream.Watch.new delay now () 0
  diagnostics := spec.registered
  store := spec.writer

/-! ## All watches -/

/-- The watches of a runtime, and the metrics that they share if there are any. -/
structure Fleet (P : Families) (ρ : Type) (W : Type u) where
  metrics : Option (ResourceWatchMetrics P)
  watches : List (Watching ρ W)

/-- What can happen: a watch is started, or is polled. -/
inductive Fleet.Action (ρ : Type) (W : Type u)
  | start (spec : WatchSpec ρ W) (delay now : Nat)
  | poll (n fuel : Nat) (visit : Stream.Watch.Visit)

section Fleet

variable (metadata : ρ → ObjectMeta) (apply : W → Event ρ → W)

/-- `poll_next` of a watch, with the shared metrics. -/
def Watching.pollNext (w : Watching ρ W) (metrics : Option (ResourceWatchMetrics P))
    (fuel : Nat) (visit : Stream.Watch.Visit) :
    Option (Watching ρ W × Option (ResourceWatchMetrics P) × Next (Event ρ)) :=
  (Stream.Watch.pollNext
    (tapped w.spec.script (Kept.record metadata apply w.spec)) fuel visit
    (w.stack.attach ⟨w.diagnostics, metrics, w.store⟩)).map fun called =>
      let kept := called.1.inner.inner.stream.kept
      ({ w with
        stack :=
          ⟨⟨{ called.1.inner.inner with stream := called.1.inner.inner.stream.position },
            called.1.inner.handle⟩, called.1.completed⟩
        diagnostics := kept.diagnostics
        store := kept.store }, kept.metrics, called.2)

namespace Fleet

/-- One action, with what a poll returns; `none` if it is not possible, or if a poll does
not return with so much fuel. -/
def step? (f : Fleet P ρ W) : Action ρ W → Option (Fleet P ρ W × Option (Next (Event ρ)))
  | .start spec delay now =>
      some ({ f with watches := f.watches ++ [Watching.new spec delay now] }, none)
  | .poll n fuel visit =>
      f.watches[n]?.bind fun w =>
        (w.pollNext metadata apply f.metrics fuel visit).map fun polled =>
          ({ metrics := polled.2.1, watches := f.watches.set n polled.1 }, some polled.2.2)

/-- The step relation, with what a poll returns. -/
def Step (f : Fleet P ρ W) (event : Action ρ W × Option (Next (Event ρ))) (f' : Fleet P ρ W) :
    Prop :=
  f.step? metadata apply event.1 = some (f', event.2)

/-- A runtime without watches, with metrics or without. -/
def initial (metrics : Bool) : Fleet P ρ W where
  metrics := if metrics then some (ResourceWatchMetrics.register P) else none
  watches := []

/-- The events that a watch has returned in a run. -/
def emitted (n : Nat) (events : List (Action ρ W × Option (Next (Event ρ)))) :
    List (Event ρ) :=
  events.filterMap fun event =>
    match event with
    | (.poll n' _ _, some next) => if n' = n then Stream.Next.item next else none
    | _ => none

end Fleet

/-! ## What the taps keep -/

variable {metadata apply} {spec : WatchSpec ρ W}

/-- The results as the diagnostics see them. -/
def WatchSpec.inspected (metadata : ρ → ObjectMeta) (spec : WatchSpec ρ W)
    (results : List (Nat × WatcherResult ρ)) :
    List (DateTime × Diagnostics.WatchResult) :=
  results.map fun result => (spec.clock result.1, toWatchResult metadata result.2)

theorem recordAll_diagnostics (results : List (Nat × WatcherResult ρ)) (kept : Kept P W) :
    (recordAll (Kept.record metadata apply spec) results kept).diagnostics =
      kept.diagnostics.inspectAll spec.resource (spec.inspected metadata results) := by
  induction results generalizing kept with
  | nil => rfl
  | cons result results ih => exact ih (Kept.record metadata apply spec result.1 result.2 kept)

theorem recordAll_store (results : List (Nat × WatcherResult ρ)) (kept : Kept P W) :
    (recordAll (Kept.record metadata apply spec) results kept).store =
      kept.store.map fun store =>
        (results.filterMap fun result => result.2.toOption).foldl apply store := by
  induction results generalizing kept with
  | nil => simp [recordAll]
  | cons result results ih =>
      obtain ⟨n, result⟩ := result
      have hrest := ih (Kept.record metadata apply spec n result kept)
      rw [show recordAll (Kept.record metadata apply spec) ((n, result) :: results) kept =
        recordAll (Kept.record metadata apply spec) results
          (Kept.record metadata apply spec n result kept) from rfl, hrest]
      cases result with
      | error e => rfl
      | ok event => exact Option.map_map _ _ _

/-- Without metrics nothing is counted, and metrics stay. -/
theorem recordAll_metrics_isSome (results : List (Nat × WatcherResult ρ)) (kept : Kept P W) :
    (recordAll (Kept.record metadata apply spec) results kept).metrics.isSome =
      kept.metrics.isSome := by
  induction results generalizing kept with
  | nil => rfl
  | cons result results ih =>
      exact (ih (Kept.record metadata apply spec result.1 result.2 kept)).trans Option.isSome_map

/-- What a type has in the metrics and what it has in the diagnostics of the watch change
by the same amount. -/
theorem recordAll_metrics (hlawful : P.Lawful) (results : List (Nat × WatcherResult ρ))
    {kept kept' : Kept P W}
    (hkept : kept' = recordAll (Kept.record metadata apply spec) results kept)
    {m : ResourceWatchMetrics P} (hm : kept.metrics = some m)
    (hevents : P.Positive m.watchEvents) (herrors : P.Positive m.watchErrors) :
    ∃ m', kept'.metrics = some m' ∧ P.Positive m'.watchEvents ∧ P.Positive m'.watchErrors ∧
      ∀ t, (∀ op : EventOp, P.value m'.watchEvents ⟨op, t⟩ +
          (if spec.labels = t then op.stat kept.diagnostics.stats else 0) =
        P.value m.watchEvents ⟨op, t⟩ +
          (if spec.labels = t then op.stat kept'.diagnostics.stats else 0)) ∧
        m'.errors t + (if spec.labels = t then kept.diagnostics.stats.errors else 0) =
          m.errors t + (if spec.labels = t then kept'.diagnostics.stats.errors else 0) := by
  subst hkept
  induction results generalizing kept m with
  | nil => exact ⟨m, hm, hevents, herrors, fun t => ⟨fun op => rfl, rfl⟩⟩
  | cons result results ih =>
      obtain ⟨n, result⟩ := result
      have hm' : (Kept.record metadata apply spec n result kept).metrics =
          some (m.instrument spec.labels result) := by
        simp only [Kept.record, hm, Option.map_some]
      obtain ⟨hevents', herrors'⟩ :=
        m.instrument_positive hlawful (t := spec.labels) hevents herrors result
      obtain ⟨m', hend, hpositive, hpositive', hcounts⟩ := ih hm' hevents' herrors'
      refine ⟨m', hend, hpositive, hpositive', fun t => ?_⟩
      obtain ⟨hcount, hcount'⟩ := hcounts t
      constructor
      · intro op
        have hfirst := WatchMetrics.record_event metadata spec.resource (spec.clock n)
          hlawful spec.labels t op m kept.diagnostics result
        have hrest := hcount op
        change _ + (if spec.labels = t then op.stat (kept.diagnostics.inspect spec.resource
          (spec.clock n) (toWatchResult metadata result)).stats else 0) = _ at hrest
        change _ = _ + (if spec.labels = t then op.stat (recordAll _ results
          (Kept.record metadata apply spec n result kept)).diagnostics.stats else 0)
        omega
      · have hfirst := WatchMetrics.record_error metadata spec.resource (spec.clock n)
          hlawful spec.labels t m kept.diagnostics result
        change _ + (if spec.labels = t then (kept.diagnostics.inspect spec.resource
          (spec.clock n) (toWatchResult metadata result)).stats.errors else 0) = _ at hcount'
        change _ = _ + (if spec.labels = t then (recordAll _ results
          (Kept.record metadata apply spec n result kept)).diagnostics.stats.errors else 0)
        omega

/-- A poll of a watch is one without taps, and its results go through the taps. -/
theorem Watching.pollNext_eq {w w' : Watching ρ W}
    {metrics metrics' : Option (ResourceWatchMetrics P)} {fuel : Nat}
    {visit : Stream.Watch.Visit} {next : Next (Event ρ)}
    (h : w.pollNext metadata apply metrics fuel visit = some (w', metrics', next)) :
    ∃ kept, Stream.Watch.pollNext (scripted w.spec.script) fuel visit w.stack =
        some (w'.stack, next) ∧
      kept = recordAll (Kept.record metadata apply w.spec)
        (resultsFrom w.spec.script w.stack.position (w'.stack.position - w.stack.position))
        ⟨w.diagnostics, metrics, w.store⟩ ∧
      w'.spec = w.spec ∧ w'.diagnostics = kept.diagnostics ∧ w'.store = kept.store ∧
      metrics' = kept.metrics := by
  unfold pollNext at h
  rw [Stream.Watch.pollNext_tapped, Option.map_map] at h
  obtain ⟨⟨stack, answer⟩, hpoll, hpair⟩ := Option.map_eq_some_iff.mp h
  obtain ⟨rfl, hrest⟩ := Prod.mk.inj hpair
  obtain ⟨rfl, rfl⟩ := Prod.mk.inj hrest
  exact ⟨_, hpoll, rfl, rfl, rfl, rfl, rfl⟩

/-! ## What holds in every run -/

/-- The diagnostics and the store of a watch have seen the results that were taken from
its watcher. -/
structure Mirrored (metadata : ρ → ObjectMeta) (apply : W → Event ρ → W)
    (w : Watching ρ W) : Prop where
  diagnostics : w.diagnostics = w.spec.registered.inspectAll w.spec.resource
    (w.spec.inspected metadata (resultsFrom w.spec.script 0 w.stack.position))
  store : w.store = w.spec.writer.map fun store =>
    (okEvents w.spec.script w.stack.position).foldl apply store

theorem Mirrored.new (spec : WatchSpec ρ W) (delay now : Nat) :
    Mirrored metadata apply (Watching.new spec delay now) where
  diagnostics := rfl
  store := by
    simp [Watching.new, Stream.Watch.new, Stream.Watch.position, Stream.LogAndSleep.fixedDelay,
      okEvents]

/-- A poll keeps it, and returns the next event if there is one. -/
theorem Mirrored.poll {w w' : Watching ρ W}
    {metrics metrics' : Option (ResourceWatchMetrics P)} {fuel : Nat}
    {visit : Stream.Watch.Visit} {next : Next (Event ρ)}
    (hmirrored : Mirrored metadata apply w)
    (h : w.pollNext metadata apply metrics fuel visit = some (w', metrics', next)) :
    Mirrored metadata apply w' ∧
      okEvents w'.spec.script w'.stack.position =
        okEvents w.spec.script w.stack.position ++ (Stream.Next.item next).toList := by
  obtain ⟨kept, hpoll, hkept, hspec, hdiagnostics, hstore, -⟩ := Watching.pollNext_eq h
  obtain ⟨outcome, hpolls, rfl⟩ := Stream.Watch.exists_polls_of_pollNext hpoll
  have hmoves := Stream.Watch.moves_of_polls hpolls
  have hle := hmoves.answers.le
  have hposition : w'.stack.position =
      w.stack.position + (w'.stack.position - w.stack.position) := by
    omega
  have hresults : resultsFrom w.spec.script 0 w'.stack.position =
      resultsFrom w.spec.script 0 w.stack.position ++
        resultsFrom w.spec.script w.stack.position
          (w'.stack.position - w.stack.position) := by
    conv_lhs => rw [hposition]
    rw [Stream.resultsFrom_add, Nat.zero_add]
  refine ⟨⟨?_, ?_⟩, ?_⟩
  · rw [hdiagnostics, hkept, recordAll_diagnostics, hmirrored.diagnostics, hspec, hresults,
      ← WatchState.inspectAll_append, WatchSpec.inspected, WatchSpec.inspected,
      WatchSpec.inspected, List.map_append]
  · rw [hstore, hkept, recordAll_store, hmirrored.store, hspec, Option.map_map]
    congr 1
    funext store
    simp only [Function.comp_apply]
    rw [← List.foldl_append, Stream.okEvents_eq_results, Stream.okEvents_eq_results, hresults,
      List.filterMap_append]
  · rw [hspec, hmoves.answers.okEvents_eq, hmoves.item_eq]

theorem Mirrored.counted_le {w : Watching ρ W} (h : Mirrored metadata apply w) :
    w.diagnostics.stats.counted ≤ (resultsFrom w.spec.script 0 w.stack.position).length := by
  have hle := w.spec.registered.counted_inspectAll_le w.spec.resource
    (w.spec.inspected metadata (resultsFrom w.spec.script 0 w.stack.position))
  rw [← h.diagnostics, WatchSpec.inspected, List.length_map] at hle
  exact hle.trans (Nat.zero_add _).le

namespace Fleet

/-- What one type has in the diagnostics of all its watches. -/
def statOf (f : Fleet P ρ W) (t : TypeLabels) (stat : Diagnostics.WatchStats → Nat) : Nat :=
  (f.watches.map fun w => if w.spec.labels = t then stat w.diagnostics.stats else 0).sum

/-- The metrics have counted what the diagnostics of all watches have. -/
structure Agrees (f : Fleet P ρ W) (m : ResourceWatchMetrics P) : Prop where
  positive : P.Positive m.watchEvents
  positive' : P.Positive m.watchErrors
  events : ∀ t (op : EventOp), P.value m.watchEvents ⟨op, t⟩ = f.statOf t op.stat
  errors : ∀ t, m.errors t = f.statOf t fun stats => stats.errors

/-- What holds after a run. -/
structure Observed (metadata : ρ → ObjectMeta) (apply : W → Event ρ → W) (metrics : Bool)
    (events : List (Action ρ W × Option (Next (Event ρ)))) (f : Fleet P ρ W) : Prop where
  mirrored : ∀ w ∈ f.watches, Mirrored metadata apply w
  returned : ∀ n w, f.watches[n]? = some w →
    emitted n events = okEvents w.spec.script w.stack.position
  unstarted : ∀ n, f.watches.length ≤ n → emitted n events = []
  metrics : f.metrics.isSome = metrics
  agrees : P.Lawful → ∀ m, f.metrics = some m → f.Agrees m

theorem emitted_start (n : Nat) (events : List (Action ρ W × Option (Next (Event ρ))))
    (spec : WatchSpec ρ W) (delay now : Nat) :
    emitted n (events ++ [(.start spec delay now, none)]) = emitted n events := by
  simp [emitted]

theorem emitted_poll (n n' fuel : Nat) (visit : Stream.Watch.Visit) (next : Next (Event ρ))
    (events : List (Action ρ W × Option (Next (Event ρ)))) :
    emitted n (events ++ [(.poll n' fuel visit, some next)]) =
      emitted n events ++ if n' = n then (Stream.Next.item next).toList else [] := by
  by_cases hsame : n' = n
  · subst hsame
    cases hitem : Stream.Next.item next <;> simp [emitted, hitem]
  · simp [emitted, hsame]

theorem Observed.start {metrics : Bool}
    {events : List (Action ρ W × Option (Next (Event ρ)))} {f : Fleet P ρ W}
    (h : Observed metadata apply metrics events f) (spec : WatchSpec ρ W) (delay now : Nat) :
    Observed metadata apply metrics (events ++ [(.start spec delay now, none)])
      { f with watches := f.watches ++ [Watching.new spec delay now] } := by
  refine ⟨forall_mem_append_singleton h.mirrored (Mirrored.new spec delay now), ?_, ?_,
    h.metrics, ?_⟩
  · intro n w hw
    rw [emitted_start]
    rcases Nat.lt_trichotomy n f.watches.length with hlt | rfl | hgt
    · rw [List.getElem?_append_left hlt] at hw
      exact h.returned n w hw
    · rw [List.getElem?_concat_length] at hw
      obtain rfl := Option.some.inj hw
      exact h.unstarted _ (Nat.le_refl _)
    · rw [List.getElem?_eq_none (by rw [List.length_append, List.length_singleton]; omega)] at hw
      cases hw
  · intro n hle
    rw [emitted_start]
    rw [List.length_append] at hle
    exact h.unstarted n (by omega)
  · intro hlawful m hm
    have hagrees := h.agrees hlawful m hm
    -- The diagnostics of a new watch are zero.
    have hstat : ∀ t stat, stat spec.registered.stats = 0 →
        ({ f with watches := f.watches ++ [Watching.new spec delay now] } : Fleet P ρ W).statOf t
          stat = f.statOf t stat := by
      intro t stat hzero
      simp [statOf, Watching.new, hzero]
    refine ⟨hagrees.positive, hagrees.positive', ?_, ?_⟩
    · intro t op
      rw [hagrees.events t op, hstat t op.stat (by cases op <;> rfl)]
    · intro t
      rw [hagrees.errors t, hstat t _ rfl]

theorem Observed.poll {metrics : Bool}
    {events : List (Action ρ W × Option (Next (Event ρ)))} {f : Fleet P ρ W}
    (h : Observed metadata apply metrics events f) {n fuel : Nat}
    {visit : Stream.Watch.Visit} {w w' : Watching ρ W}
    {metrics' : Option (ResourceWatchMetrics P)} {next : Next (Event ρ)}
    (hw : f.watches[n]? = some w)
    (hpoll : w.pollNext metadata apply f.metrics fuel visit = some (w', metrics', next)) :
    Observed metadata apply metrics (events ++ [(.poll n fuel visit, some next)])
      ⟨metrics', f.watches.set n w'⟩ := by
  obtain ⟨hmirrored, hevents⟩ := (h.mirrored w (List.mem_of_getElem? hw)).poll hpoll
  obtain ⟨kept, -, hkept, hspec, hdiagnostics, -, hmetrics⟩ := Watching.pollNext_eq hpoll
  have hlt : n < f.watches.length := (List.getElem?_eq_some_iff.mp hw).1
  -- What one type has in all diagnostics changes by what it has in those of this watch.
  have hsum : ∀ t stat,
      (⟨metrics', f.watches.set n w'⟩ : Fleet P ρ W).statOf t stat +
          (if w.spec.labels = t then stat w.diagnostics.stats else 0) =
        f.statOf t stat + (if w.spec.labels = t then stat kept.diagnostics.stats else 0) := by
    intro t stat
    have hset := sum_map_set_add
      (fun w : Watching ρ W => if w.spec.labels = t then stat w.diagnostics.stats else 0) hw w'
    simp only [hspec, hdiagnostics] at hset
    exact hset
  have hsome : metrics'.isSome = f.metrics.isSome := by
    rw [hmetrics, hkept, recordAll_metrics_isSome]
  refine ⟨forall_mem_set h.mirrored hmirrored, ?_, ?_, hsome.trans h.metrics, ?_⟩
  · intro n' v hv
    rw [emitted_poll]
    by_cases hsame : n = n'
    · subst hsame
      rw [List.getElem?_set_self hlt] at hv
      obtain rfl := Option.some.inj hv
      rw [if_pos rfl, h.returned n w hw, hevents]
    · rw [List.getElem?_set_ne hsame] at hv
      rw [if_neg hsame, List.append_nil]
      exact h.returned n' v hv
  · intro n' hle
    rw [List.length_set] at hle
    rw [emitted_poll, if_neg (by omega), List.append_nil]
    exact h.unstarted n' hle
  · intro hlawful m' hm'
    change metrics' = some m' at hm'
    obtain ⟨m, hm⟩ := Option.isSome_iff_exists.mp (hsome.symm.trans (hm' ▸ rfl))
    have hagrees := h.agrees hlawful m hm
    obtain ⟨m'', hm'', hpositive, hpositive', hcounts⟩ :=
      recordAll_metrics hlawful _ hkept hm hagrees.positive hagrees.positive'
    rw [← hmetrics, hm'] at hm''
    obtain rfl := Option.some.inj hm''
    refine ⟨hpositive, hpositive', ?_, ?_⟩
    · intro t op
      have hcount := (hcounts t).1 op
      dsimp only at hcount
      have hold := hagrees.events t op
      have hnew := hsum t op.stat
      omega
    · intro t
      have hcount := (hcounts t).2
      dsimp only at hcount
      have hold := hagrees.errors t
      have hnew := hsum t fun stats => stats.errors
      omega

theorem observed_of_run {metrics : Bool}
    {events : List (Action ρ W × Option (Next (Event ρ)))} {f : Fleet P ρ W}
    (hrun : Run (Step metadata apply) (initial metrics) events f) :
    Observed metadata apply metrics events f := by
  refine hrun.history (Observed metadata apply metrics) ?_ ?_
  · rintro past f ⟨a, out⟩ f' h hstep
    cases a with
    | start spec delay now =>
        obtain ⟨rfl, rfl⟩ := Prod.mk.inj (Option.some.inj hstep)
        exact h.start spec delay now
    | poll n fuel visit =>
        obtain ⟨w, hw, hrest⟩ := Option.bind_eq_some_iff.mp hstep
        obtain ⟨⟨w', metrics', next⟩, hpoll, hpair⟩ := Option.map_eq_some_iff.mp hrest
        obtain ⟨rfl, rfl⟩ := Prod.mk.inj hpair
        exact h.poll hw hpoll
  · refine ⟨by simp [initial], by simp [initial], fun _ _ => rfl, by cases metrics <;> rfl, ?_⟩
    intro hlawful m hm
    cases metrics with
    | false => cases hm
    | true =>
        obtain rfl := Option.some.inj hm
        refine ⟨hlawful.positive_new, hlawful.positive_new, fun t op => hlawful.value_new _, ?_⟩
        intro t
        simp [ResourceWatchMetrics.errors, ResourceWatchMetrics.register, hlawful.value_new,
          statOf, initial]

/-! ## How much is counted -/

/-- How many results were taken from all watchers. -/
def results (f : Fleet P ρ W) : Nat :=
  (f.watches.map fun w => (resultsFrom w.spec.script 0 w.stack.position).length).sum

/-- Nothing in the diagnostics of the watches counts more than that. -/
theorem Observed.statOf_le {metrics : Bool}
    {events : List (Action ρ W × Option (Next (Event ρ)))} {f : Fleet P ρ W}
    (h : Observed metadata apply metrics events f) (t : TypeLabels)
    {stat : Diagnostics.WatchStats → Nat} (hstat : ∀ stats, stat stats ≤ stats.counted) :
    f.statOf t stat ≤ f.results := by
  refine List.sum_le_sum fun w hw => ?_
  have hcounted := (h.mirrored w hw).counted_le
  have hw' := hstat w.diagnostics.stats
  split <;> omega

end Fleet
end Fleet

namespace Fleet

/-! ## Two watches of pods -/

/-- A store of the pods by name, and what was listed meanwhile. -/
structure PodStore where
  pods : List ObjectMeta
  listed : List ObjectMeta
deriving DecidableEq

/-- `Writer::apply_watcher_event`. -/
def PodStore.apply (s : PodStore) : Event ObjectMeta → PodStore
  | .init => { s with listed := [] }
  | .initApply pod => { s with listed := s.listed ++ [pod] }
  | .initDone => ⟨s.listed, []⟩
  | .apply pod => { s with pods := s.pods.filter (fun p => p.name ≠ pod.name) ++ [pod] }
  | .delete pod => { s with pods := s.pods.filter fun p => p.name ≠ pod.name }

/-- A watcher that lists one pod after an error, and then has nothing to say. -/
def listsOne (n : Nat) : Next (WatcherResult ObjectMeta) :=
  match n with
  | 0 => .ready (some (.error ⟨.initialListFailed, "connection refused"⟩))
  | 1 => .ready (some (.ok .init))
  | 2 => .ready (some (.ok (.initApply (Diagnostics.examplePod "pod-0"))))
  | 3 => .ready (some (.ok .initDone))
  | _ => .pending

/-- A watcher that only sees updates. -/
def seesUpdates (n : Nat) : Next (WatcherResult ObjectMeta) :=
  match n with
  | 0 => .ready (some (.ok (.apply (Diagnostics.examplePod "pod-1"))))
  | 1 => .ready (some (.ok (.delete (Diagnostics.examplePod "pod-1"))))
  | _ => .pending

/-- The watch of pods with such a watcher. -/
def podSpec (script : Nat → Next (WatcherResult ObjectMeta)) (writer : Option PodStore) :
    WatchSpec ObjectMeta PodStore where
  labels := ⟨"Pod", "", "v1"⟩
  resource := Diagnostics.podType
  apiUrl := "/api/v1/pods"
  labelSelector := none
  script := script
  clock := fun _ => Diagnostics.epoch
  created := Diagnostics.epoch
  writer := writer

/-- Nothing has happened to the shutdown, and no time passes. -/
def quietVisit : Stream.Watch.Visit := ⟨⟨fun _ => 0, fun _ => 0⟩, false⟩

/-- A cached watch and another one are polled in turns. -/
def inTurns : List (Action ObjectMeta PodStore × Option (Next (Event ObjectMeta))) :=
  [(.start (podSpec listsOne (some ⟨[], []⟩)) 5 0, none),
    (.start (podSpec seesUpdates none) 5 0, none),
    (.poll 0 3 quietVisit, some (.ready (some .init))),
    (.poll 1 3 quietVisit, some (.ready (some (.apply (Diagnostics.examplePod "pod-1"))))),
    (.poll 0 3 quietVisit, some (.ready (some (.initApply (Diagnostics.examplePod "pod-0"))))),
    (.poll 0 3 quietVisit, some (.ready (some .initDone))),
    (.poll 1 3 quietVisit, some (.ready (some (.delete (Diagnostics.examplePod "pod-1"))))),
    (.poll 0 3 quietVisit, some .pending)]

theorem exists_inTurns :
    ∃ f : Fleet .byLabels ObjectMeta PodStore,
      Run (Step (fun pod => pod) PodStore.apply) (initial true) inTurns f ∧
      ∃ w, f.watches[0]? = some w ∧ w.spec.writer = some ⟨[], []⟩ :=
  ⟨_, .cons rfl (.cons rfl (.cons rfl (.cons rfl (.cons rfl (.cons rfl (.cons rfl
    (.cons rfl (.nil _)))))))), _, rfl, rfl⟩

/-! ## Lockstep and agreement -/

variable {metadata : ρ → ObjectMeta} {apply : W → Event ρ → W}

/-- After every run of the watches of a runtime, in whatever order they are polled: a watch
has returned the events that its watcher has produced, its store is what the writer makes
of the events that were returned, no more and no less, and its diagnostics have inspected
these events and the errors between them. -/
theorem watch_in_lockstep {metrics : Bool}
    {events : List (Action ρ W × Option (Next (Event ρ)))} {f : Fleet P ρ W}
    (hrun : Run (Step metadata apply) (initial metrics) events f) {n : Nat} {w : Watching ρ W}
    (hw : f.watches[n]? = some w) :
    emitted n events = okEvents w.spec.script w.stack.position ∧
      w.store = w.spec.writer.map (fun store => (emitted n events).foldl apply store) ∧
      w.diagnostics = w.spec.registered.inspectAll w.spec.resource
        (w.spec.inspected metadata (resultsFrom w.spec.script 0 w.stack.position)) := by
  have h := observed_of_run hrun
  have hmirrored := h.mirrored w (List.mem_of_getElem? hw)
  have hreturned := h.returned n w hw
  refine ⟨hreturned, ?_, hmirrored.diagnostics⟩
  rw [hreturned]
  exact hmirrored.store

/-- The store has the pod that was listed. -/
theorem listed_pod_stored :
    ∃ (f : Fleet .byLabels ObjectMeta PodStore) (w : _),
      Run (Step (fun pod => pod) PodStore.apply) (initial true) inTurns f ∧
      f.watches[0]? = some w ∧ w.store = some ⟨[Diagnostics.examplePod "pod-0"], []⟩ := by
  obtain ⟨f, hrun, w, hw, hwriter⟩ := exists_inTurns
  obtain ⟨-, hstore, -⟩ := watch_in_lockstep hrun hw
  refine ⟨f, w, hrun, hw, ?_⟩
  rw [hstore, hwriter]
  rfl

/-- After every run of the watches of a runtime that has metrics, in whatever order they
are polled: for every type and every kind of event, the counter is the sum of what the
diagnostics of all watches of the type have counted, and there is no counter as long as
this is zero; and the counters of errors add up to the errors in these diagnostics.  None
of them exceeds the number of results that were taken from the watchers, so none has
wrapped before there were 2^64. -/
theorem metrics_agree_with_diagnostics (hlawful : P.Lawful)
    {events : List (Action ρ W × Option (Next (Event ρ)))} {f : Fleet P ρ W}
    (hrun : Run (Step metadata apply) (initial true) events f) :
    ∃ m, f.metrics = some m ∧
      (∀ t (op : EventOp), P.value m.watchEvents ⟨op, t⟩ = f.statOf t op.stat ∧
        (P.counter m.watchEvents ⟨op, t⟩ = none ↔ f.statOf t op.stat = 0)) ∧
      (∀ t, m.errors t = f.statOf t fun stats => stats.errors) ∧
      ∀ t, (∀ op : EventOp, P.value m.watchEvents ⟨op, t⟩ ≤ f.results) ∧
        m.errors t ≤ f.results := by
  have h := observed_of_run hrun
  obtain ⟨m, hm⟩ := Option.isSome_iff_exists.mp h.metrics
  have hagrees := h.agrees hlawful m hm
  refine ⟨m, hm, ?_, hagrees.errors, ?_⟩
  · intro t op
    refine ⟨hagrees.events t op, ?_⟩
    rw [hagrees.positive.eq_none_iff, hagrees.events t op]
  · intro t
    constructor
    · intro op
      rw [hagrees.events t op]
      exact h.statOf_le t op.stat_le_counted
    · rw [hagrees.errors t]
      exact h.statOf_le t fun stats => stats.errors_le_counted

/-- Both watches count for pods. -/
theorem pods_counted :
    ∃ (f : Fleet .byLabels ObjectMeta PodStore) (m : _),
      Run (Step (fun pod => pod) PodStore.apply) (initial true) inTurns f ∧
      f.metrics = some m ∧
      Families.byLabels.value m.watchEvents ⟨.restart, ⟨"Pod", "", "v1"⟩⟩ =
        f.statOf ⟨"Pod", "", "v1"⟩ EventOp.restart.stat := by
  obtain ⟨f, hrun, -⟩ := exists_inTurns
  obtain ⟨m, hm, hevents, -⟩ :=
    metrics_agree_with_diagnostics Families.byLabels_lawful hrun
  exact ⟨f, m, hrun, hm, (hevents _ _).1⟩

end Fleet
end Runtime
end Kubert
