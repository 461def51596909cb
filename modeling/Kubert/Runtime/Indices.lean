import Kubert.Index.Naming
import Kubert.Runtime.Watches

/-!
# Indices and diagnostics of the same watch

An index task takes the events of a watch of the runtime one by one, as they are returned,
while the diagnostics of the watch inspect the results of the watcher before they enter the
adapters.  One is what the application works with, the other is what the admin server shows
of it.

The two are kept differently: the index by name and without the errors, the diagnostics by
reference and with them.  They also differ in what they make of a list that is cut short,
which the diagnostics forget and the index does not.  So a summary shows everything in the
index but what was left behind there (`ShowsAllBut`), and nothing else.
-/

namespace Kubert
namespace Runtime

open Foundation
open Index (Event Block Contents Filed Iteration Keyed LeftBehind Segment Unambiguous
  abandonedEvents clusterIndex contents listing namespacedIndex put watchEvents)
open Diagnostics (HashImpls ObjRef ObjectMeta ResourceType Snapshot WatchState toResource)
open WatchMetrics (Families WatcherResult toWatchResult)
open Kubert.Stream (Next okEvents resultsFrom)

universe u

variable {ρ : Type} {W : Type u}

/-! ## What the diagnostics make of segments -/

section Snapshots

variable (metadata : ρ → ObjectMeta) (t : ResourceType)

/-- `to_key` of a resource. -/
def referenceOf (r : ρ) : Option ObjRef := some (t.toKey (metadata r))

/-- The snapshot after an event.  It does not matter when the event comes. -/
def accept (snap : Snapshot) (event : Event ρ) : Option Snapshot :=
  snap.next t (Diagnostics.epoch, toWatchResult metadata (.ok event))

/-- The contents have the metadata of these resources. -/
def Describes (c : Contents ObjRef ObjectMeta) (d : Contents ObjRef ρ) : Prop :=
  ∀ o, c o = (d o).map metadata

variable {metadata t}

/-- Between the events there may be any errors. -/
theorem after_of_accept {spec : WatchSpec ρ W} {results : List (Nat × WatcherResult ρ)}
    {snap snap' : Snapshot}
    (haccept : execAll (accept metadata t) snap (results.filterMap fun r => r.2.toOption) =
      some snap') :
    Run (fun snap result snap' => snap.next t result = some snap') snap
      (spec.inspected metadata results) snap' := by
  induction results generalizing snap with
  | nil =>
      obtain rfl := Option.some.inj haccept
      exact .nil snap
  | cons result results ih =>
      obtain ⟨n, result⟩ := result
      cases result with
      | error e => exact .cons rfl (ih haccept)
      | ok event =>
          obtain ⟨mid, hstep, hrest⟩ := Option.bind_eq_some_iff.mp haccept
          exact .cons hstep (ih hrest)

theorem Describes.update {c : Contents ObjRef ObjectMeta} {d : Contents ObjRef ρ}
    (h : Describes metadata c d) (o : ObjRef) (value : Option ρ) :
    Describes metadata (Function.update c o (value.map metadata)) (Function.update d o value) := by
  intro o'
  by_cases ho : o' = o
  · rw [ho, Function.update_self, Function.update_self]
  · rw [Function.update_of_ne ho, Function.update_of_ne ho]
    exact h o'

theorem Describes.put {c : Contents ObjRef ObjectMeta} {d : Contents ObjRef ρ}
    (h : Describes metadata c d) (r : ρ) :
    Describes metadata (put (Snapshot.key t) c (metadata r)) (put (referenceOf metadata t) d r) :=
  h.update (t.toKey (metadata r)) (some r)

theorem describes_listing (rs : List ρ) :
    Describes metadata (listing (Snapshot.key t) (rs.map metadata))
      (listing (referenceOf metadata t) rs) := by
  induction rs using List.reverseRecOn with
  | nil => exact fun o => rfl
  | append_singleton rs r ih =>
      rw [List.map_append, List.map_singleton, Index.listing_concat, Index.listing_concat]
      exact ih.put r

theorem accept_initApply (c : Contents ObjRef ObjectMeta) (listed : List ObjectMeta)
    (rs : List ρ) :
    execAll (accept metadata t) ⟨c, some listed⟩ (rs.map .initApply) =
      some ⟨c, some (listed ++ rs.map metadata)⟩ := by
  induction rs generalizing listed with
  | nil => simp [execAll]
  | cons r rs ih =>
      have hrest := ih (listed ++ [metadata r])
      rw [List.append_assoc] at hrest
      exact hrest

theorem accept_abandoned (snap : Snapshot) (rs : List ρ) :
    execAll (accept metadata t) snap (abandonedEvents rs) =
      some ⟨snap.contents, some (rs.map metadata)⟩ :=
  accept_initApply snap.contents [] rs

variable (metadata t) in
/-- Attempts change nothing that is known. -/
theorem accept_attempts (snap : Snapshot) (attempts : List (List ρ)) :
    ∃ snap', execAll (accept metadata t) snap (attempts.flatMap abandonedEvents) = some snap' ∧
      snap'.contents = snap.contents := by
  induction attempts generalizing snap with
  | nil => exact ⟨snap, rfl, rfl⟩
  | cons attempt attempts ih =>
      obtain ⟨snap', hrest, hcontents⟩ := ih ⟨snap.contents, some (attempt.map metadata)⟩
      refine ⟨snap', ?_, hcontents⟩
      rw [List.flatMap_cons, execAll_append, accept_abandoned]
      exact hrest

theorem accept_segment {snap : Snapshot} {d : Contents ObjRef ρ} (hlisted : snap.listed = none)
    (hcontents : Describes metadata snap.contents d) (segment : Segment ρ) :
    ∃ snap', execAll (accept metadata t) snap segment.events = some snap' ∧
      snap'.listed = none ∧
      Describes metadata snap'.contents (segment.block.on (referenceOf metadata t) d) := by
  obtain ⟨c, _⟩ := snap
  obtain rfl := hlisted
  cases segment with
  | apply r => exact ⟨_, rfl, rfl, hcontents.put r⟩
  | delete r => exact ⟨_, rfl, rfl, hcontents.update (t.toKey (metadata r)) none⟩
  | relist attempts listed =>
      obtain ⟨mid, hattempts, -⟩ := accept_attempts metadata t ⟨c, none⟩ attempts
      refine ⟨⟨listing (Snapshot.key t) (listed.map metadata), none⟩, ?_, rfl,
        describes_listing listed⟩
      change execAll _ _ (attempts.flatMap abandonedEvents ++
        (abandonedEvents listed ++ [.initDone])) = _
      rw [execAll_append, hattempts, Option.bind_some, execAll_append, accept_abandoned]
      rfl

variable (metadata t) in
/-- A whole watch is accepted, also in the middle of a list. -/
theorem accept_watch (segments : List (Segment ρ)) (attempts : List (List ρ)) :
    ∃ snap, execAll (accept metadata t) Snapshot.initial (watchEvents segments attempts) =
        some snap ∧
      Describes metadata snap.contents
        (contents (referenceOf metadata t) (segments.map Segment.block)) := by
  obtain ⟨mid, hsegments, -, hmid⟩ : ∃ mid,
      execAll (accept metadata t) Snapshot.initial (segments.flatMap Segment.events) =
        some mid ∧ mid.listed = none ∧
      Describes metadata mid.contents
        (contents (referenceOf metadata t) (segments.map Segment.block)) := by
    induction segments using List.reverseRecOn with
    | nil => exact ⟨_, rfl, rfl, fun o => rfl⟩
    | append_singleton segments segment ih =>
        obtain ⟨mid, hmid, hlisted, hcontents⟩ := ih
        obtain ⟨snap, hsnap, hdone, hlast⟩ := accept_segment (t := t) hlisted hcontents segment
        refine ⟨snap, ?_, hdone, ?_⟩
        · rw [List.flatMap_append, List.flatMap_singleton, execAll_append, hmid]
          exact hsnap
        · rw [List.map_append, contents, List.foldl_append]
          exact hlast
  obtain ⟨snap, hattempts, hcontents⟩ := accept_attempts metadata t mid attempts
  refine ⟨snap, ?_, hcontents ▸ hmid⟩
  rw [watchEvents, execAll_append, hsegments]
  exact hattempts

end Snapshots

/-! ## What a summary shows -/

/-- A summary shows everything in the index but what is under these keys, and nothing
else. -/
def ShowsAllBut {κ : Type} (metadata : ρ → ObjectMeta) (d : WatchState) (index : Contents κ ρ)
    (left : κ → Prop) : Prop :=
  ∀ (sha256 : List UInt8 → String) (h : HashImpls) (iter : Iteration Diagnostics.Resource)
    (n : Nat), ∃ rs, (d.summary sha256 h iter n true).resources = some rs ∧
      (∀ k r, index k = some r → (toResource (metadata r) ∈ rs ↔ ¬ left k)) ∧
      ∀ x ∈ rs, ∃ k r, index k = some r ∧ x = toResource (metadata r)

/-- `name_unchecked` of a resource, which panics without a name. -/
def nameOf (metadata : ρ → ObjectMeta) (r : ρ) : Option String := (metadata r).name

/-- `namespace` of a resource. -/
def namespaceOf (metadata : ρ → ObjectMeta) (r : ρ) : Option String := (metadata r).namespc

/-- Keys of an index that resources and their summaries show. -/
structure Showing {κ : Type} (metadata : ρ → ObjectMeta) (t : ResourceType)
    (key : ρ → Option κ) : Prop where
  reference : ∀ r r', referenceOf metadata t r = referenceOf metadata t r' → key r = key r'
  resource : ∀ r r' k k', key r = some k → key r' = some k' →
    toResource (metadata r) = toResource (metadata r') → k = k'

section Shown

variable {metadata : ρ → ObjectMeta} {apply : W → Event ρ → W} {t : ResourceType}

theorem showing_nameOf : Showing metadata t (nameOf metadata) := by
  constructor
  · intro r r' hsame
    exact congrArg ObjRef.name (Option.some.inj hsame)
  · intro r r' k k' hk hk' hsame
    have hname : (metadata r).name.getD "" = (metadata r').name.getD "" :=
      congrArg Diagnostics.Resource.name hsame
    rw [show (metadata r).name = some k from hk,
      show (metadata r').name = some k' from hk'] at hname
    exact hname

theorem showing_keyOf :
    Showing metadata t (Index.Namespaced.keyOf (namespaceOf metadata) (nameOf metadata)) := by
  constructor
  · intro r r' hsame
    have hname : nameOf metadata r = nameOf metadata r' :=
      congrArg ObjRef.name (Option.some.inj hsame)
    have hnamespace : namespaceOf metadata r = namespaceOf metadata r' :=
      congrArg ObjRef.namespc (Option.some.inj hsame)
    rw [Index.Namespaced.keyOf, Index.Namespaced.keyOf, hname, hnamespace]
  · intro r r' k k' hk hk' hsame
    obtain ⟨namespc, hnamespace, hrest⟩ := Option.bind_eq_some_iff.mp hk
    obtain ⟨name, hname, rfl⟩ := Option.map_eq_some_iff.mp hrest
    obtain ⟨namespc', hnamespace', hrest'⟩ := Option.bind_eq_some_iff.mp hk'
    obtain ⟨name', hname', rfl⟩ := Option.map_eq_some_iff.mp hrest'
    have hsameName : (metadata r).name.getD "" = (metadata r').name.getD "" :=
      congrArg Diagnostics.Resource.name hsame
    have hsameNamespace : (metadata r).namespc.getD "" = (metadata r').namespc.getD "" :=
      congrArg Diagnostics.Resource.namespc hsame
    rw [show (metadata r).name = some name from hname,
      show (metadata r').name = some name' from hname'] at hsameName
    rw [show (metadata r).namespc = some namespc from hnamespace,
      show (metadata r').namespc = some namespc' from hnamespace'] at hsameNamespace
    exact Prod.ext hsameNamespace hsameName

/-- The known resources are those of the reference contents, under whatever keys. -/
theorem Mirrored.known_iff {κ : Type} [DecidableEq κ] {key : ρ → Option κ} {w : Watching ρ W}
    (hmirrored : Mirrored metadata apply w) (hkeys : Showing metadata w.spec.resource key)
    {segments : List (Segment ρ)} {attempts : List (List ρ)}
    (hwatch : okEvents w.spec.script w.stack.position = watchEvents segments attempts)
    (hkeyed : Keyed key (segments.flatMap Segment.resources))
    (hobjects : Unambiguous key (referenceOf metadata w.spec.resource) (fun _ => none)
      (segments.map Segment.block)) {x : Diagnostics.Resource} :
    (∃ o, w.diagnostics.known.lookup o = some x) ↔
      ∃ k r, contents key (segments.map Segment.block) k = some r ∧
        x = toResource (metadata r) := by
  obtain ⟨snap, haccept, hdescribes⟩ :=
    accept_watch metadata w.spec.resource segments attempts
  rw [← hwatch, Stream.okEvents_eq_results] at haccept
  have hafter : Snapshot.After w.spec.resource
      (w.spec.inspected metadata (resultsFrom w.spec.script 0 w.stack.position)) snap :=
    after_of_accept haccept
  have hmirrors := Diagnostics.mirrors_inspectAll hafter w.spec.apiUrl w.spec.labelSelector
    w.spec.created
  have hknown : ∀ o, w.diagnostics.known.lookup o =
      (contents (referenceOf metadata w.spec.resource) (segments.map Segment.block) o).map
        fun r => toResource (metadata r) := by
    intro o
    rw [hmirrored.diagnostics]
    refine (hmirrors.known o).trans ?_
    rw [hdescribes o, Option.map_map]
    rfl
  have hsame := Index.sameResources_contents hkeys.reference
    (fun r hr => hkeyed r (Segment.resources_block hr)) (fun r _ => rfl) hobjects
  constructor
  · rintro ⟨o, ho⟩
    rw [hknown o] at ho
    obtain ⟨r, hr, rfl⟩ := Option.map_eq_some_iff.mp ho
    obtain ⟨k, hk⟩ := (hsame.same r).mpr ⟨o, hr⟩
    exact ⟨k, r, hk, rfl⟩
  · rintro ⟨k, r, hr, rfl⟩
    obtain ⟨o, ho⟩ := (hsame.same r).mp ⟨k, hr⟩
    exact ⟨o, by rw [hknown o, ho, Option.map_some]⟩

/-- An index that agrees with the reference contents but for what was left behind is shown
but for that. -/
theorem Mirrored.showsAllBut {κ : Type} [DecidableEq κ] {key : ρ → Option κ} {w : Watching ρ W}
    (hmirrored : Mirrored metadata apply w) (hkeys : Showing metadata w.spec.resource key)
    {segments : List (Segment ρ)} {attempts : List (List ρ)}
    (hwatch : okEvents w.spec.script w.stack.position = watchEvents segments attempts)
    (hkeyed : Keyed key (segments.flatMap Segment.resources))
    (hobjects : Unambiguous key (referenceOf metadata w.spec.resource) (fun _ => none)
      (segments.map Segment.block)) {index : Contents κ ρ} (hfiled : Filed key index)
    (hindex : ∀ k, (index k = contents key (segments.map Segment.block) k ↔
        ¬ LeftBehind key segments k) ∧
      (LeftBehind key segments k → contents key (segments.map Segment.block) k = none)) :
    ShowsAllBut metadata w.diagnostics index (LeftBehind key segments) := by
  intro sha256 h iter n
  have hshown : ∀ x, x ∈ w.diagnostics.sortedResources iter n ↔ _ := fun x =>
    WatchState.mem_sortedResources.trans
      (hmirrored.known_iff hkeys hwatch hkeyed hobjects (x := x))
  refine ⟨_, rfl, ?_, ?_⟩
  · intro k r hr
    rw [hshown]
    constructor
    · -- The resource that is shown has the same key, and so is not the one left behind.
      rintro ⟨k', r', hr', hsame⟩ hleft
      have hkey := hkeys.resource r r' k k' (hfiled k r hr)
        (Index.filed_contents _ k' r' hr') hsame
      rw [← hkey, (hindex k).2 hleft] at hr'
      cases hr'
    · intro hleft
      exact ⟨k, r, ((hindex k).1.mpr hleft).symm.trans hr, rfl⟩
  · intro x hx
    obtain ⟨k, r, hr, hsame⟩ := (hshown x).mp hx
    refine ⟨k, r, ((hindex k).1.mpr fun hleft => ?_).trans hr, hsame⟩
    rw [(hindex k).2 hleft] at hr
    cases hr

end Shown

namespace Fleet

variable {P : Families} {metadata : ρ → ObjectMeta} {apply : W → Event ρ → W}

/-- After every run of the watches of a runtime, in whatever order they are polled, and
wherever lists were cut short: an index task that takes the events of a watch does not
panic, and a summary of the diagnostics shows exactly those resources in the index that no
list has left behind there, and nothing else.  This holds for both kinds of resources, also
while a list is going on, if all resources have the names that the index asks for and no
name is used for two objects at a time. -/
theorem summary_shows_all_but_left_behind {metrics : Bool}
    {events : List (Action ρ W × Option (Next (Event ρ)))} {f : Fleet P ρ W}
    (hrun : Run (Step metadata apply) (initial metrics) events f) {n : Nat} {w : Watching ρ W}
    (hw : f.watches[n]? = some w) {segments : List (Segment ρ)} {attempts : List (List ρ)}
    (hwatch : emitted n events = watchEvents segments attempts) :
    (∀ iter : Iteration String,
      Keyed (nameOf metadata) (segments.flatMap Segment.resources ++ attempts.flatten) →
      Unambiguous (nameOf metadata) (referenceOf metadata w.spec.resource) (fun _ => none)
        (segments.map Segment.block) →
      ∃ index, clusterIndex (nameOf metadata) iter (emitted n events) = some index ∧
        ShowsAllBut metadata w.diagnostics index (LeftBehind (nameOf metadata) segments)) ∧
    (∀ (entries : Iteration (Sigma fun _ : String => Finset String))
        (names : String → Iteration String),
      Keyed (Index.Namespaced.keyOf (namespaceOf metadata) (nameOf metadata))
        (segments.flatMap Segment.resources ++ attempts.flatten) →
      Unambiguous (Index.Namespaced.keyOf (namespaceOf metadata) (nameOf metadata))
        (referenceOf metadata w.spec.resource) (fun _ => none) (segments.map Segment.block) →
      ∃ index,
        namespacedIndex (namespaceOf metadata) (nameOf metadata) entries names
          (emitted n events) = some index ∧
        ShowsAllBut metadata w.diagnostics index
          (LeftBehind (Index.Namespaced.keyOf (namespaceOf metadata) (nameOf metadata))
            segments)) := by
  have h := observed_of_run hrun
  have hmirrored := h.mirrored w (List.mem_of_getElem? hw)
  have hevents := (h.returned n w hw).symm.trans hwatch
  rw [hwatch]
  constructor
  · intro iter hkeyed hobjects
    obtain ⟨index, hindex, hfiled, hkeys⟩ := Index.index_of_watch hkeyed
    refine ⟨index, (Index.clusterIndex_eq _ iter _).trans hindex, ?_⟩
    exact hmirrored.showsAllBut showing_nameOf hevents
      (fun r hr => hkeyed r (List.mem_append_left _ hr)) hobjects hfiled hkeys
  · intro entries names hkeyed hobjects
    obtain ⟨index, hindex, hfiled, hkeys⟩ := Index.index_of_watch hkeyed
    refine ⟨index, (Index.namespacedIndex_eq _ _ entries names _).trans hindex, ?_⟩
    exact hmirrored.showsAllBut showing_keyOf hevents
      (fun r hr => hkeyed r (List.mem_append_left _ hr)) hobjects hfiled hkeys

/-- A watcher that lists a pod; the list that shows that it is gone fails at first. -/
def failsOnce (n : Nat) : Next (WatcherResult ObjectMeta) :=
  match n with
  | 0 => .ready (some (.ok .init))
  | 1 => .ready (some (.ok (.initApply (Diagnostics.examplePod "pod-0"))))
  | 2 => .ready (some (.ok .initDone))
  | 3 => .ready (some (.ok .init))
  | 4 => .ready (some (.error ⟨.initialListFailed, "connection refused"⟩))
  | 5 => .ready (some (.ok .init))
  | 6 => .ready (some (.ok .initDone))
  | _ => .pending

/-- It is polled until it has nothing to say. -/
def untilPending : List (Action ObjectMeta PodStore × Option (Next (Event ObjectMeta))) :=
  [(.start (podSpec failsOnce none) 5 0, none),
    (.poll 0 3 quietVisit, some (.ready (some .init))),
    (.poll 0 3 quietVisit, some (.ready (some (.initApply (Diagnostics.examplePod "pod-0"))))),
    (.poll 0 3 quietVisit, some (.ready (some .initDone))),
    (.poll 0 3 quietVisit, some (.ready (some .init))),
    (.poll 0 3 quietVisit, some (.ready (some .init))),
    (.poll 0 3 quietVisit, some (.ready (some .initDone))),
    (.poll 0 3 quietVisit, some .pending)]

/-- What the watch is made of. -/
def failedOnce : List (Segment ObjectMeta) :=
  [.relist [] [Diagnostics.examplePod "pod-0"], .relist [[]] []]

theorem exists_untilPending :
    ∃ (f : Fleet .byLabels ObjectMeta PodStore) (w : _),
      Run (Step (fun pod => pod) PodStore.apply) (initial true) untilPending f ∧
      f.watches[0]? = some w :=
  ⟨_, _, .cons rfl (.cons rfl (.cons rfl (.cons rfl (.cons rfl (.cons rfl (.cons rfl
    (.cons rfl (.nil _)))))))), rfl⟩

/-- The pod that is gone is in the index, and a summary does not show it. -/
theorem gone_pod_indexed_not_shown :
    ∃ (f : Fleet .byLabels ObjectMeta PodStore) (w : _) (index : _),
      Run (Step (fun pod => pod) PodStore.apply) (initial true) untilPending f ∧
      f.watches[0]? = some w ∧
      namespacedIndex (namespaceOf fun pod => pod) (nameOf fun pod => pod)
        (Iteration.arbitrary _) (fun _ => Iteration.arbitrary _) (emitted 0 untilPending) =
          some index ∧
      index ("default", "pod-0") = some (Diagnostics.examplePod "pod-0") ∧
      ∀ sha256 h iter n, ∃ rs, (w.diagnostics.summary sha256 h iter n true).resources = some rs ∧
        toResource (Diagnostics.examplePod "pod-0") ∉ rs := by
  obtain ⟨f, w, hrun, hw⟩ := exists_untilPending
  have hwatch : emitted 0 untilPending = watchEvents failedOnce [] := rfl
  have hone : ∀ {r}, r ∈ [Diagnostics.examplePod "pod-0"] → r = Diagnostics.examplePod "pod-0" :=
    List.mem_singleton.mp
  obtain ⟨index, hindex, hshown⟩ := (summary_shows_all_but_left_behind hrun hw hwatch).2
    (Iteration.arbitrary _) (fun _ => Iteration.arbitrary _)
    (fun r hr => by obtain rfl := hone hr; rfl)
    ⟨fun r hr r' hr' _ => by rw [hone hr, hone hr'],
      ⟨fun r hr => absurd hr List.not_mem_nil, trivial⟩⟩
  have heval : (namespacedIndex (namespaceOf fun pod => pod) (nameOf fun pod => pod)
      (Iteration.arbitrary _) (fun _ => Iteration.arbitrary _) (emitted 0 untilPending)).map
        (fun index => index ("default", "pod-0")) =
      some (some (Diagnostics.examplePod "pod-0")) := by
    rw [Index.namespacedIndex_eq]
    decide +kernel
  rw [hindex] at heval
  have hpod := Option.some.inj heval
  have hleft : LeftBehind (Index.Namespaced.keyOf (namespaceOf fun pod => pod)
      (nameOf fun pod => pod)) failedOnce ("default", "pod-0") :=
    ⟨[.relist [] [Diagnostics.examplePod "pod-0"]], .relist [[]] [], [], rfl,
      ⟨[], rfl, .inl rfl, by decide, by decide⟩, by simp⟩
  refine ⟨f, w, index, hrun, hw, hindex, hpod, ?_⟩
  intro sha256 h iter n
  obtain ⟨rs, hrs, hall, -⟩ := hshown sha256 h iter n
  exact ⟨rs, hrs, fun hmem => (hall _ _ hpod).mp hmem hleft⟩

end Fleet

end Runtime
end Kubert
