import Kubert.Diagnostics.Watch
import Kubert.Foundation.LabelledRun

/-!
# Diagnostics mirror the watch

`Snapshot` is what there is to know about a watch: the contents, and while a cycle
is going on, what it has listed so far.  An update changes the contents, a completed
cycle replaces them, and a cycle that is begun again forgets what was listed; an
error changes nothing.  Results that do not fit, such as an update in the middle of
a cycle, are not accepted.

`Mirrors` relates this to the two maps of a `WatchState`.  Outside of a cycle it
says nothing about the second map, which then still holds what was known before the
last cycle.
-/

namespace Kubert
namespace Diagnostics

open Foundation
open Lease (DateTime)
open Index (Contents Iteration put remove listing)

/-- What there is to know about a watch. -/
structure Snapshot where
  contents : Contents ObjRef ObjectMeta
  listed : Option (List ObjectMeta)

namespace Snapshot

/-- Nothing is known. -/
def initial : Snapshot := ⟨fun _ => none, none⟩

/-- The key of a resource, as contents want it. -/
def key (t : ResourceType) (m : ObjectMeta) : Option ObjRef := some (t.toKey m)

/-- The snapshot after a result; `none` if the result is not accepted.  Results come
with clock readings, which do not matter here. -/
def next (t : ResourceType) (snap : Snapshot) (result : DateTime × WatchResult) :
    Option Snapshot :=
  match result.2, snap.listed with
  | .error _, _ => some snap
  | .ok .init, _ => some ⟨snap.contents, some []⟩
  | .ok (.initApply m), some listed => some ⟨snap.contents, some (listed ++ [m])⟩
  | .ok .initDone, some listed => some ⟨listing (key t) listed, none⟩
  | .ok (.apply m), none => some ⟨put (key t) snap.contents m, none⟩
  | .ok (.delete m), none => some ⟨remove snap.contents (t.toKey m), none⟩
  | _, _ => none

end Snapshot

/-! ## Maps and contents -/

section Maps

variable {t : ResourceType}

/-- The map holds the summaries of the contents. -/
def Summarizes (resources : Resources) (c : Contents ObjRef ObjectMeta) : Prop :=
  ∀ k, resources.lookup k = (c k).map toResource

theorem summarizes_empty : Summarizes ∅ fun _ => none := by
  intro k
  rfl

theorem Summarizes.insert {resources : Resources} {c : Contents ObjRef ObjectMeta}
    (h : Summarizes resources c) (m : ObjectMeta) :
    Summarizes (resources.insert (t.toKey m) (toResource m))
      (put (Snapshot.key t) c m) := by
  intro k
  have hkey : Snapshot.key t m = some (t.toKey m) := rfl
  rw [Index.put_of_some hkey]
  by_cases hk : k = t.toKey m
  · subst hk
    simp
  · rw [Finmap.lookup_insert_of_ne _ hk, Function.update_of_ne hk]
    exact h k

theorem Summarizes.erase {resources : Resources} {c : Contents ObjRef ObjectMeta}
    (h : Summarizes resources c) (k : ObjRef) :
    Summarizes (resources.erase k) (remove c k) := by
  intro k'
  unfold remove
  by_cases hk : k' = k
  · subst hk
    simp
  · rw [Finmap.lookup_erase_ne hk, Function.update_of_ne hk]
    exact h k'

end Maps

/-! ## Results one by one -/

/-- The first map holds the contents and, during a cycle, the second one what the
cycle has listed. -/
structure Mirrors (t : ResourceType) (s : WatchState) (snap : Snapshot) : Prop where
  known : Summarizes s.known snap.contents
  resetting : ∀ listed, snap.listed = some listed →
    Summarizes s.resetting (listing (Snapshot.key t) listed)

variable {t : ResourceType}

/-- Outside of a cycle nothing is asked of the second map. -/
theorem mirrors_of_not_listed {s : WatchState} {snap : Snapshot}
    (hknown : Summarizes s.known snap.contents) (hlisted : snap.listed = none) :
    Mirrors t s snap where
  known := hknown
  resetting := by
    intro listed hsome
    rw [hlisted] at hsome
    cases hsome

theorem mirrors_new (apiUrl : String) (labelSelector : Option String) (now : DateTime) :
    Mirrors t (WatchState.new apiUrl labelSelector now) Snapshot.initial :=
  mirrors_of_not_listed summarizes_empty rfl

theorem Mirrors.inspect {s : WatchState} {snap snap' : Snapshot}
    (h : Mirrors t s snap) {result : DateTime × WatchResult}
    (hnext : snap.next t result = some snap') :
    Mirrors t (s.inspect t result.1 result.2) snap' := by
  obtain ⟨now, result⟩ := result
  cases result with
  | error message =>
      obtain rfl : snap = snap' := Option.some.inj hnext
      exact ⟨h.known, h.resetting⟩
  | ok e =>
      cases e with
      | init =>
          obtain rfl := Option.some.inj hnext
          refine ⟨h.known, ?_⟩
          intro listed hlisted
          obtain rfl := Option.some.inj hlisted
          exact summarizes_empty
      | initApply m =>
          cases hlisted : snap.listed with
          | none => simp [Snapshot.next, hlisted] at hnext
          | some listed =>
              simp only [Snapshot.next, hlisted] at hnext
              obtain rfl := Option.some.inj hnext
              refine ⟨h.known, ?_⟩
              intro listed' hlisted'
              obtain rfl := Option.some.inj hlisted'
              rw [Index.listing_concat]
              exact (h.resetting listed hlisted).insert m
      | initDone =>
          cases hlisted : snap.listed with
          | none => simp [Snapshot.next, hlisted] at hnext
          | some listed =>
              simp only [Snapshot.next, hlisted] at hnext
              obtain rfl := Option.some.inj hnext
              -- The swap makes the listed resources the known ones.
              exact mirrors_of_not_listed (h.resetting listed hlisted) rfl
      | apply m =>
          cases hlisted : snap.listed with
          | some listed => simp [Snapshot.next, hlisted] at hnext
          | none =>
              simp only [Snapshot.next, hlisted] at hnext
              obtain rfl := Option.some.inj hnext
              exact mirrors_of_not_listed (h.known.insert m) rfl
      | delete m =>
          cases hlisted : snap.listed with
          | some listed => simp [Snapshot.next, hlisted] at hnext
          | none =>
              simp only [Snapshot.next, hlisted] at hnext
              obtain rfl := Option.some.inj hnext
              exact mirrors_of_not_listed (h.known.erase (t.toKey m)) rfl

/-- During a cycle that goes on, neither the known resources change nor the
contents, and the cycle is not left. -/
theorem inspect_in_cycle {snap snap' : Snapshot} {result : DateTime × WatchResult}
    (hlisted : snap.listed ≠ none) (hdone : result.2 ≠ .ok .initDone)
    (hnext : snap.next t result = some snap') :
    snap'.listed ≠ none ∧ ∀ s : WatchState, (s.inspect t result.1 result.2).known = s.known := by
  obtain ⟨now, result⟩ := result
  obtain ⟨listed, hlisted⟩ := Option.ne_none_iff_exists'.mp hlisted
  cases result with
  | error message =>
      obtain rfl : snap = snap' := Option.some.inj hnext
      exact ⟨by simp [hlisted], fun s => rfl⟩
  | ok e =>
      cases e with
      | init =>
          obtain rfl := Option.some.inj hnext
          exact ⟨nofun, fun s => rfl⟩
      | initApply m =>
          simp only [Snapshot.next, hlisted] at hnext
          obtain rfl := Option.some.inj hnext
          exact ⟨nofun, fun s => rfl⟩
      | initDone => exact absurd rfl hdone
      | apply m => simp [Snapshot.next, hlisted] at hnext
      | delete m => simp [Snapshot.next, hlisted] at hnext

/-! ## Whole watches -/

/-- The results are accepted one after the other, and this is the snapshot after
them. -/
def Snapshot.After (t : ResourceType) (results : List (DateTime × WatchResult))
    (snap : Snapshot) : Prop :=
  Run (fun snap result snap' => snap.next t result = some snap') Snapshot.initial
    results snap

theorem mirrors_inspectAll {results : List (DateTime × WatchResult)} {snap : Snapshot}
    (hafter : Snapshot.After t results snap) (apiUrl : String)
    (labelSelector : Option String) (now : DateTime) :
    Mirrors t ((WatchState.new apiUrl labelSelector now).inspectAll t results) snap := by
  refine Run.history (fun past snap =>
    Mirrors t ((WatchState.new apiUrl labelSelector now).inspectAll t past) snap)
    ?_ hafter (mirrors_new apiUrl labelSelector now)
  intro past snap result snap' h hnext
  rw [WatchState.inspectAll_append]
  exact h.inspect hnext

theorem known_inspectAll_in_cycle {snap snap' : Snapshot}
    {during : List (DateTime × WatchResult)} (s : WatchState)
    (hrun : Run (fun snap result snap' => snap.next t result = some snap') snap during
      snap') (hlisted : snap.listed ≠ none)
    (hdone : ∀ result ∈ during, result.2 ≠ .ok .initDone) :
    (s.inspectAll t during).known = s.known := by
  induction hrun generalizing s with
  | nil => rfl
  | @cons _ _ _ result during hnext hrest ih =>
      obtain ⟨hfirst, hlater⟩ := List.forall_mem_cons.mp hdone
      obtain ⟨hgoes, hknown⟩ := inspect_in_cycle hlisted hfirst hnext
      have hrec := ih (s.inspect t result.1 result.2) hgoes hlater
      rw [hknown s] at hrec
      exact hrec

/-- Diagnostics mirror the watch.  After any results that are accepted, with
completed cycles, cycles that are begun again and errors anywhere: the known
resources are the summaries of the reference contents; since the beginning of a cycle
that has not been completed they have not changed; and a summary lists exactly the
known ones. -/
theorem diagnostics_mirror_watch {results : List (DateTime × WatchResult)}
    {snap : Snapshot} (hafter : Snapshot.After t results snap) (apiUrl : String)
    (labelSelector : Option String) (now : DateTime) :
    (∀ k, ((WatchState.new apiUrl labelSelector now).inspectAll t
        results).known.lookup k = (snap.contents k).map toResource) ∧
    (∀ before begun during, results = before ++ (begun, .ok .init) :: during →
      (∀ result ∈ during, result.2 ≠ .ok .initDone) →
      ((WatchState.new apiUrl labelSelector now).inspectAll t results).known =
        ((WatchState.new apiUrl labelSelector now).inspectAll t before).known) ∧
    ∀ (sha256 : List UInt8 → String) (h : HashImpls) (iter : Iteration Resource)
      (n : Nat), ∃ rs,
        (((WatchState.new apiUrl labelSelector now).inspectAll t results).summary
          sha256 h iter n true).resources = some rs ∧
        ∀ r, r ∈ rs ↔ ∃ k m, snap.contents k = some m ∧ r = toResource m := by
  have hmirrors := mirrors_inspectAll hafter apiUrl labelSelector now
  refine ⟨hmirrors.known, ?_, ?_⟩
  · rintro before begun during rfl hdone
    obtain ⟨mid, -, hrest⟩ := Run.split hafter
    cases hrest with
    | cons hinit hduring =>
        obtain rfl := Option.some.inj hinit
        rw [WatchState.inspectAll_append]
        exact known_inspectAll_in_cycle (WatchState.inspect t begun _ (.ok .init)) hduring
          (Option.some_ne_none []) hdone
  · intro sha256 h iter n
    refine ⟨_, rfl, ?_⟩
    intro r
    rw [WatchState.mem_sortedResources]
    constructor
    · rintro ⟨k, hlookup⟩
      rw [hmirrors.known k] at hlookup
      obtain ⟨m, hm, hr⟩ := Option.map_eq_some_iff.mp hlookup
      exact ⟨k, m, hm, hr.symm⟩
    · rintro ⟨k, m, hm, rfl⟩
      refine ⟨k, ?_⟩
      rw [hmirrors.known k, hm]
      rfl

/-! ## Pods -/

/-- The Unix epoch. -/
def epoch : DateTime := ⟨0, by decide, by decide⟩

/-- The type of pods. -/
def podType : ResourceType := ⟨"Pod", "v1"⟩

/-- A pod with this name, created at the epoch. -/
def examplePod (name : String) : ObjectMeta :=
  ⟨some epoch, some name, some "default", some "1", some 1, some name⟩

/-- A pod is listed and another one is created.  A second list is cut short by an
error after it has shown a third pod, begun again and completed without that pod. -/
def interruptedWatch : List (DateTime × WatchResult) :=
  [.ok .init, .ok (.initApply (examplePod "pod-0")), .ok .initDone,
    .ok (.apply (examplePod "pod-1")), .ok .init, .ok (.initApply (examplePod "pod-2")),
    .error "gone", .ok .init, .ok (.initApply (examplePod "pod-1")), .ok .initDone].map
      fun result => (epoch, result)

/-- The diagnostics of the pods, before the first result. -/
def podWatch : WatchState :=
  WatchState.new "/api/v1/pods" none epoch

theorem interrupted_watch_mirrored :
    (podWatch.inspectAll podType interruptedWatch).known.lookup
        (podType.toKey (examplePod "pod-0")) = none ∧
      (podWatch.inspectAll podType interruptedWatch).known.lookup
        (podType.toKey (examplePod "pod-1")) = some (toResource (examplePod "pod-1")) ∧
      (podWatch.inspectAll podType interruptedWatch).known.lookup
        (podType.toKey (examplePod "pod-2")) = none := by
  obtain ⟨snap, hsnap⟩ : ∃ snap, execAll (Snapshot.next podType) Snapshot.initial
      interruptedWatch = some snap := ⟨_, rfl⟩
  have hafter : Snapshot.After podType interruptedWatch snap :=
    run_of_execAll (fun _ _ _ hnext => hnext) hsnap
  obtain ⟨hknown, -⟩ := diagnostics_mirror_watch hafter "/api/v1/pods" none epoch
  have hcontents : ∀ k, snap.contents k =
      listing (Snapshot.key podType) [examplePod "pod-1"] k := by
    obtain rfl := Option.some.inj hsnap
    intro k
    rfl
  refine ⟨(hknown _).trans ?_, (hknown _).trans ?_, (hknown _).trans ?_⟩
  · rw [hcontents]
    decide
  · rw [hcontents]
    decide
  · rw [hcontents]
    decide

end Diagnostics
end Kubert
