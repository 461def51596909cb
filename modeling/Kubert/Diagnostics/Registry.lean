import Kubert.Diagnostics.Checksum
import Kubert.Foundation.WeakRegistry
import Kubert.Lease.Manager

/-!
# `admin::diagnostics`

The runtime registers every watch and every lease with its `Diagnostics`, which keeps weak
references only: the state of a watch belongs to its stream, and that of a lease to its
manager.  A request for `/kubert.json` takes a summary of all watches and then one of all
leases, each under the lock of its registry.  Meanwhile watches get results, leases are
renewed, and streams and managers are dropped.

Both registries are instances of `Foundation.Registry`.  A request takes its locks one
after the other, and other requests come in between.
-/

namespace Kubert
namespace Diagnostics

open Foundation
open Lease (DateTime Duration Claim LeaseDiagnostics)
open Index (Iteration)

/-! ## Cells -/

/-- A registered watch: the type it is for, and its state. -/
abbrev WatchCell := ResourceType × WatchState

/-- A result of the watcher is inspected, at a clock reading. -/
def inspectWatch (cell : WatchCell) (result : DateTime × WatchResult) : WatchCell :=
  (cell.1, cell.2.inspect cell.1 result.1 result.2)

/-- `LeaseParams`. -/
structure LeaseParams where
  name : String
  namespc : String
  claimant : String
  leaseDuration : Duration
  renewGracePeriod : Duration
  fieldManager : Option String
deriving DecidableEq, Repr

/-- `LeaseState`.  The durations are shown in seconds; `diagnostics` is the part that
changes. -/
structure LeaseState where
  name : String
  namespc : String
  claimant : String
  fieldManager : String
  leaseDuration : Duration
  renewGracePeriod : Duration
  creationTimestamp : DateTime
  diagnostics : LeaseDiagnostics
deriving DecidableEq, Repr

/-- `LeaseManager::DEFAULT_FIELD_MANAGER`. -/
def defaultFieldManager : String := "kubert"

/-- `LeaseDiagnostics::new`. -/
def LeaseState.new (params : LeaseParams) (now : DateTime) : LeaseState where
  name := params.name
  namespc := params.namespc
  claimant := params.claimant
  fieldManager := params.fieldManager.getD defaultFieldManager
  leaseDuration := params.leaseDuration
  renewGracePeriod := params.renewGracePeriod
  creationTimestamp := now
  diagnostics := ⟨none, none, 0, none⟩

/-- What a lease manager tells its diagnostics: the claim, and the version of the
resource. -/
structure LeaseUpdate where
  now : DateTime
  claim : Option Claim
  resourceVersion : String
deriving DecidableEq, Repr

/-- `LeaseDiagnostics::inspect`. -/
def inspectLease (s : LeaseState) (u : LeaseUpdate) : LeaseState :=
  { s with diagnostics := s.diagnostics.inspect u.now u.claim u.resourceVersion }

/-! ## The system -/

/-- `Diagnostics`. -/
structure Registries where
  watches : Registry WatchCell WatchSummary
  leases : Registry LeaseState LeaseState

/-- What can happen to the watches. -/
inductive WatchAction
  /-- `register_watch`. -/
  | register (t : ResourceType) (apiUrl : String) (labelSelector : Option String)
      (now : DateTime)
  | inspect (id : Nat) (now : DateTime) (result : WatchResult)
  | drop (id : Nat)
  /-- `summarize_watches` takes the lock.  The numbers tell the iterations over the maps
  of the watches apart. -/
  | summarize (withResources : Bool) (iteration : Nat → Nat)
  | next
  | finish

/-- What can happen to the leases. -/
inductive LeaseAction
  /-- `register_lease`. -/
  | register (params : LeaseParams) (now : DateTime)
  | inspect (id : Nat) (update : LeaseUpdate)
  | drop (id : Nat)
  /-- `summarize_leases` takes the lock. -/
  | summarize
  | next
  | finish

/-- What can happen. -/
inductive Action
  | watches (a : WatchAction)
  | leases (a : LeaseAction)

/-- What a request gets. -/
structure Output where
  watches : Option (List (Nat × WatchSummary)) := none
  leases : Option (List (Nat × LeaseState)) := none

section System

variable (sha256 : List UInt8 → String) (h : HashImpls) (iter : Iteration Resource)

/-- What `summarize_watches` shows of a watch. -/
def summaryOf (withResources : Bool) (iteration : Nat → Nat) (id : Nat) (cell : WatchCell) :
    WatchSummary :=
  cell.2.summary sha256 h iter (iteration id) withResources

/-- The actions on the registry of watches. -/
def WatchAction.toRegistry :
    WatchAction → Registry.Action WatchCell (DateTime × WatchResult) WatchSummary
  | .register t apiUrl labelSelector now =>
      .register (t, WatchState.new apiUrl labelSelector now)
  | .inspect id now result => .feed id (now, result)
  | .drop id => .drop id
  | .summarize withResources iteration =>
      .lock (summaryOf sha256 h iter withResources iteration)
  | .next => .next
  | .finish => .unlock

/-- The actions on the registry of leases; a summary is a clone. -/
def LeaseAction.toRegistry : LeaseAction → Registry.Action LeaseState LeaseUpdate LeaseState
  | .register params now => .register (LeaseState.new params now)
  | .inspect id update => .feed id update
  | .drop id => .drop id
  | .summarize => .lock fun _ s => s
  | .next => .next
  | .finish => .unlock

namespace Registries

/-- `Diagnostics::new`. -/
def new : Registries := ⟨Registry.empty, Registry.empty⟩

/-- One action, with what a request gets; `none` if it is not possible. -/
def step? (d : Registries) : Action → Option (Registries × Output)
  | .watches a =>
      (d.watches.step? inspectWatch (a.toRegistry sha256 h iter)).map fun stepped =>
        ({ d with watches := stepped.1 }, { watches := stepped.2 })
  | .leases a =>
      (d.leases.step? inspectLease a.toRegistry).map fun stepped =>
        ({ d with leases := stepped.1 }, { leases := stepped.2 })

/-- The step relation, with what a request gets. -/
def Step (d : Registries) (event : Action × Output) (d' : Registries) : Prop :=
  d.step? sha256 h iter event.1 = some (d', event.2)

end Registries

/-! ## The parts -/

/-- What an event is for the watches. -/
def watchEvent : Action × Output →
    Option (Registry.Event WatchCell (DateTime × WatchResult) WatchSummary)
  | (.watches a, out) => some (a.toRegistry sha256 h iter, out.watches)
  | (.leases _, _) => none

/-- What an event is for the leases. -/
def leaseEvent : Action × Output →
    Option (Registry.Event LeaseState LeaseUpdate LeaseState)
  | (.leases a, out) => some (a.toRegistry, out.leases)
  | (.watches _, _) => none

namespace Registries

variable {sha256 h iter}

theorem watches_step {d d' : Registries} {event : Action × Output}
    (hstep : Step sha256 h iter d event d') :
    (∀ e, watchEvent sha256 h iter event = some e →
      Registry.Step inspectWatch d.watches e d'.watches) ∧
      (watchEvent sha256 h iter event = none → d.watches = d'.watches) := by
  obtain ⟨a, out⟩ := event
  cases a with
  | watches a =>
      obtain ⟨⟨r, shown⟩, hr, hpair⟩ := Option.map_eq_some_iff.mp hstep
      obtain ⟨rfl, rfl⟩ := Prod.mk.inj hpair
      refine ⟨?_, fun he => absurd he (Option.some_ne_none _)⟩
      intro e he
      obtain rfl := Option.some.inj he
      exact hr
  | leases a =>
      obtain ⟨stepped, -, hpair⟩ := Option.map_eq_some_iff.mp hstep
      obtain ⟨rfl, -⟩ := Prod.mk.inj hpair
      exact ⟨fun e he => absurd he.symm (Option.some_ne_none e), fun _ => rfl⟩

theorem leases_step {d d' : Registries} {event : Action × Output}
    (hstep : Step sha256 h iter d event d') :
    (∀ e, leaseEvent event = some e → Registry.Step inspectLease d.leases e d'.leases) ∧
      (leaseEvent event = none → d.leases = d'.leases) := by
  obtain ⟨a, out⟩ := event
  cases a with
  | leases a =>
      obtain ⟨⟨r, shown⟩, hr, hpair⟩ := Option.map_eq_some_iff.mp hstep
      obtain ⟨rfl, rfl⟩ := Prod.mk.inj hpair
      refine ⟨?_, fun he => absurd he (Option.some_ne_none _)⟩
      intro e he
      obtain rfl := Option.some.inj he
      exact hr
  | watches a =>
      obtain ⟨stepped, -, hpair⟩ := Option.map_eq_some_iff.mp hstep
      obtain ⟨rfl, -⟩ := Prod.mk.inj hpair
      exact ⟨fun e he => absurd he.symm (Option.some_ne_none e), fun _ => rfl⟩

theorem watches_run {d d' : Registries} {events : List (Action × Output)}
    (hrun : Run (Step sha256 h iter) d events d') :
    Run (Registry.Step inspectWatch) d.watches
      (events.filterMap (watchEvent sha256 h iter)) d'.watches :=
  hrun.project Registries.watches (watchEvent sha256 h iter)
    (fun _ _ _ e hstep he => (watches_step hstep).1 e he)
    (fun _ _ _ hstep he => (watches_step hstep).2 he)

theorem leases_run {d d' : Registries} {events : List (Action × Output)}
    (hrun : Run (Step sha256 h iter) d events d') :
    Run (Registry.Step inspectLease) d.leases (events.filterMap leaseEvent) d'.leases :=
  hrun.project Registries.leases leaseEvent
    (fun _ _ _ e hstep he => (leases_step hstep).1 e he)
    (fun _ _ _ hstep he => (leases_step hstep).2 he)

/-! ## Counters -/

/-- A cell has no more inputs than there are events before a summary and during it. -/
theorem length_inputs_le {σ ι β : Type*} {view : Nat → σ → β}
    {part : Action × Output → Option (Registry.Event σ ι β)} (id : Nat)
    {before during : List (Action × Output)} {lock : Action × Output}
    (hlock : part lock = some (.lock view, none)) :
    (Registry.inputs id (before.filterMap part ++ (lock :: during).filterMap part)).length ≤
      before.length + during.length := by
  rw [List.filterMap_cons_some hlock, Registry.inputs_append, List.length_append]
  refine Nat.add_le_add ?_ ?_
  · exact (List.length_filterMap_le _ _).trans (List.length_filterMap_le _ _)
  · change (Registry.inputs id (during.filterMap part)).length ≤ during.length
    exact (List.length_filterMap_le _ _).trans (List.length_filterMap_le _ _)

/-- A watch is registered with nothing counted. -/
theorem counted_registrations (events : List (Action × Output)) :
    ∀ cell ∈ Registry.registrations (events.filterMap (watchEvent sha256 h iter)),
      cell.2.stats.counted = 0 := by
  intro cell hcell
  obtain ⟨out, hregister⟩ := Registry.mem_registrations.mp hcell
  obtain ⟨⟨a, _⟩, -, hevent⟩ := List.mem_filterMap.mp hregister
  cases a with
  | leases a => cases hevent
  | watches a =>
      cases a with
      | register =>
          cases hevent
          rfl
      | inspect | drop | summarize | next | finish => cases hevent

/-- A lease is registered without updates. -/
theorem updates_registrations (events : List (Action × Output)) :
    ∀ cell ∈ Registry.registrations (events.filterMap leaseEvent),
      cell.diagnostics.updates = 0 := by
  intro cell hcell
  obtain ⟨out, hregister⟩ := Registry.mem_registrations.mp hcell
  obtain ⟨⟨a, _⟩, -, hevent⟩ := List.mem_filterMap.mp hregister
  cases a with
  | watches a => cases hevent
  | leases a =>
      cases a with
      | register =>
          cases hevent
          rfl
      | inspect | drop | summarize | next | finish => cases hevent

/-- What a summary of watches shows as counted is bounded by the number of events. -/
theorem counted_le {before during : List (Action × Output)}
    {withResources : Bool} {iteration : Nat → Nat} {r r' : Registry WatchCell WatchSummary}
    {shown : List (Nat × WatchSummary)}
    (hshows : Registry.Shows inspectWatch (summaryOf sha256 h iter withResources iteration)
      (before.filterMap (watchEvent sha256 h iter))
      (((.watches (.summarize withResources iteration), {}) :: during).filterMap
        (watchEvent sha256 h iter)) r r' shown) :
    ∀ entry ∈ shown, entry.2.stats.counted ≤ before.length + during.length := by
  intro entry hentry
  obtain ⟨cell, hview, hcounted⟩ := hshows.measure_le (fun cell => cell.2.stats.counted)
    (by rw [← List.filterMap_append]; exact counted_registrations _)
    (fun cell result => cell.2.counted_inspect_le cell.1 result.1 result.2) entry hentry
  rw [hview]
  exact hcounted.trans (length_inputs_le entry.1 rfl)

/-- The same for the updates of leases. -/
theorem updates_le {before during : List (Action × Output)}
    {r r' : Registry LeaseState LeaseState} {shown : List (Nat × LeaseState)}
    (hshows : Registry.Shows inspectLease (fun _ s => s) (before.filterMap leaseEvent)
      (((.leases .summarize, {}) :: during).filterMap leaseEvent) r r' shown) :
    ∀ entry ∈ shown, entry.2.diagnostics.updates ≤ before.length + during.length := by
  intro entry hentry
  obtain ⟨s, hview, hupdates⟩ := hshows.measure_le (fun s => s.diagnostics.updates)
    (by rw [← List.filterMap_append]; exact updates_registrations _)
    (fun s u => s.diagnostics.updates_inspect_le u.now u.claim u.resourceVersion) entry hentry
  rw [hview]
  exact hupdates.trans (length_inputs_le entry.1 rfl)

/-- What every request shows.  Whatever happens before it and meanwhile, the watches of a
summary are in the order of registration, all that are there at its end are among them,
and none that was gone when it took the lock; each is summarized as it is after all
results from before the summary, and maybe some that come meanwhile; and a watch that was
gone is not remembered.  The same holds for leases.  The counters that are shown are
bounded by the number of events, so they cannot have wrapped in a run of less than 2^64. -/
theorem summaries_show_the_live {before : List (Action × Output)} {d : Registries}
    (hbefore : Run (Step sha256 h iter) new before d) :
    (∀ withResources iteration start during last shown d',
      Step sha256 h iter d (.watches (.summarize withResources iteration), {}) start →
      Run (Step sha256 h iter) start during last →
      (∀ event ∈ during, event.1 ≠ .watches .finish) →
      Step sha256 h iter last (.watches .finish, { watches := some shown }) d' →
      Registry.Shows inspectWatch (summaryOf sha256 h iter withResources iteration)
        (before.filterMap (watchEvent sha256 h iter))
        (((.watches (.summarize withResources iteration), {}) :: during).filterMap
          (watchEvent sha256 h iter))
        d.watches d'.watches shown ∧
      ∀ entry ∈ shown, entry.2.stats.counted ≤ before.length + during.length) ∧
    (∀ start during last shown d',
      Step sha256 h iter d (.leases .summarize, {}) start →
      Run (Step sha256 h iter) start during last →
      (∀ event ∈ during, event.1 ≠ .leases .finish) →
      Step sha256 h iter last (.leases .finish, { leases := some shown }) d' →
      Registry.Shows inspectLease (fun _ s => s) (before.filterMap leaseEvent)
        (((.leases .summarize, {}) :: during).filterMap leaseEvent)
        d.leases d'.leases shown ∧
      ∀ entry ∈ shown, entry.2.diagnostics.updates ≤ before.length + during.length) := by
  constructor
  · intro withResources iteration start during last shown d' hlock hduring hlocked hfinish
    refine (and_iff_left_of_imp counted_le).mpr ?_
    refine Registry.shows_of_visit (watches_run hbefore) ((watches_step hlock).1 _ rfl)
      (watches_run hduring) ?_ ((watches_step hfinish).1 _ rfl)
    intro e he
    obtain ⟨⟨a, out⟩, hmem, hevent⟩ := List.mem_filterMap.mp he
    have hother := hlocked _ hmem
    cases a with
    | leases a => exact absurd hevent.symm (Option.some_ne_none e)
    | watches a =>
        obtain rfl := Option.some.inj hevent
        cases a with
        | finish => exact absurd rfl hother
        | register | inspect | drop | summarize | next => exact nofun
  · intro start during last shown d' hlock hduring hlocked hfinish
    refine (and_iff_left_of_imp updates_le).mpr ?_
    refine Registry.shows_of_visit (leases_run hbefore) ((leases_step hlock).1 _ rfl)
      (leases_run hduring) ?_ ((leases_step hfinish).1 _ rfl)
    intro e he
    obtain ⟨⟨a, out⟩, hmem, hevent⟩ := List.mem_filterMap.mp he
    have hother := hlocked _ hmem
    cases a with
    | watches a => exact absurd hevent.symm (Option.some_ne_none e)
    | leases a =>
        obtain rfl := Option.some.inj hevent
        cases a with
        | finish => exact absurd rfl hother
        | register | inspect | drop | summarize | next => exact nofun

end Registries
end System

namespace Registries

/-- Two watches are registered, and the first one sees a pod. -/
def twoWatches : List (Action × Output) :=
  [(.watches (.register podType "/api/v1/pods" none epoch), {}),
    (.watches (.register podType "/api/v1/pods" (some "app=web") epoch), {}),
    (.watches (.inspect 0 epoch (.ok (.apply (examplePod "pod-0")))), {})]

/-- The second one is dropped while a summary is taken, and the first one sees another pod
before its turn comes. -/
def droppedMeanwhile : List (Action × Output) :=
  [(.watches .next, {}), (.watches .next, {}), (.watches .next, {}), (.watches (.drop 1), {}),
    (.watches (.inspect 0 epoch (.ok (.apply (examplePod "pod-1")))), {}),
    (.watches .next, {}), (.watches .next, {})]

/-- A step with SHA-256 and the hash map replaced by functions that behave like them. -/
def ExampleStep : Registries → Action × Output → Registries → Prop :=
  Step latin1 .littleEndian64 (Iteration.arbitrary Resource)

/-- The summary has the first watch only. -/
theorem dropped_watch_not_shown :
    ∃ (d start last d' : Registries) (shown : List (Nat × WatchSummary)),
      Run ExampleStep new twoWatches d ∧ Run ExampleStep start droppedMeanwhile last ∧
      shown.map Prod.fst = [0] ∧
      Registry.Shows inspectWatch
        (summaryOf latin1 .littleEndian64 (Iteration.arbitrary Resource) true id)
        (twoWatches.filterMap
          (watchEvent latin1 .littleEndian64 (Iteration.arbitrary Resource)))
        (((.watches (.summarize true id), {}) :: droppedMeanwhile).filterMap
          (watchEvent latin1 .littleEndian64 (Iteration.arbitrary Resource)))
        d.watches d'.watches shown := by
  have hrun : ∃ (d start last d' : Registries) (shown : List (Nat × WatchSummary)),
      Run ExampleStep new twoWatches d ∧
      ExampleStep d (.watches (.summarize true id), {}) start ∧
      Run ExampleStep start droppedMeanwhile last ∧
      ExampleStep last (.watches .finish, { watches := some shown }) d' ∧
      shown.map Prod.fst = [0] :=
    ⟨_, _, _, _, _, .cons rfl (.cons rfl (.cons rfl (.nil _))), rfl,
      .cons rfl (.cons rfl (.cons rfl (.cons rfl (.cons rfl (.cons rfl (.cons rfl
        (.nil _))))))), rfl, rfl⟩
  obtain ⟨d, start, last, d', shown, hbefore, hlock, hduring, hfinish, hids⟩ := hrun
  refine ⟨d, start, last, d', shown, hbefore, hduring, hids, ?_⟩
  refine ((summaries_show_the_live hbefore).1 true id start droppedMeanwhile last shown d' hlock
    hduring ?_ hfinish).1
  simp [droppedMeanwhile]

end Registries
end Diagnostics
end Kubert
