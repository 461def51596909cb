import Kubert.Index.Tracker
import Mathlib.Data.Finset.Union

/-!
# The two trackers are one

A map from namespaces to sets of names is flattened to a set of pairs.  Seen
through this, `namespaced` takes the same steps as `cluster` does with pairs for
names, whatever the events are: adding, pruning and striking out a name are
insertion and removal of a pair, and the default `reset` deletes the same pairs.

The order in which a hash container is iterated over makes no difference to an
index that inserts and removes by key.  `Call.effect` is a call without it.
-/

namespace Kubert
namespace Index

open Foundation

universe u v

variable {κ ν μ : Type u} {ρ : Type v} [DecidableEq κ] [DecidableEq ν]
  [DecidableEq μ]

/-! ## Flattening -/

namespace NameMap

/-- The pairs of a namespace and a name in it. -/
def flatten (m : NameMap ν μ) : Finset (ν × μ) :=
  m.keys.biUnion fun namespc =>
    ((m.lookup namespc).getD ∅).image (Prod.mk namespc)

theorem mem_flatten {m : NameMap ν μ} {namespc : ν} {name : μ} :
    (namespc, name) ∈ m.flatten ↔ name ∈ (m.lookup namespc).getD ∅ := by
  unfold flatten
  simp only [Finset.mem_biUnion, Finset.mem_image, Prod.mk.injEq]
  constructor
  · rintro ⟨_, -, _, hname, rfl, rfl⟩
    exact hname
  · -- A name in no entry would be in the default, which is empty.
    intro hname
    refine ⟨namespc, ?_, name, hname, rfl, rfl⟩
    rw [Finmap.mem_keys, ← Finmap.lookup_isSome]
    cases hlookup : m.lookup namespc with
    | none => simp [hlookup] at hname
    | some names => rfl

theorem flatten_add (m : NameMap ν μ) (namespc : ν) (name : μ) :
    (m.add namespc name).flatten = insert (namespc, name) m.flatten := by
  ext ⟨a, b⟩
  rw [Finset.mem_insert, mem_flatten, mem_flatten]
  unfold add
  by_cases ha : a = namespc
  · subst ha
    simp
  · simp [Finmap.lookup_insert_of_ne _ ha, ha]

theorem flatten_strike (m : NameMap ν μ) (namespc : ν) (name : μ) :
    (m.strike namespc name).flatten = m.flatten.erase (namespc, name) := by
  ext ⟨a, b⟩
  rw [Finset.mem_erase, mem_flatten, mem_flatten]
  unfold strike
  cases hlookup : m.lookup namespc with
  | none =>
      by_cases ha : a = namespc
      · subst ha
        simp [hlookup]
      · simp [ha]
  | some names =>
      by_cases ha : a = namespc
      · subst ha
        simp [hlookup]
      · simp [Finmap.lookup_insert_of_ne _ ha, ha]

theorem flatten_prune (m : NameMap ν μ) (namespc : ν) (name : μ) :
    (m.prune namespc name).flatten = m.flatten.erase (namespc, name) := by
  rw [← flatten_strike]
  unfold prune strike
  cases hlookup : m.lookup namespc with
  | none => rfl
  | some names =>
      dsimp only
      split
      · -- An empty entry contributes as much as none.
        rename_i hempty
        ext ⟨a, b⟩
        rw [mem_flatten, mem_flatten]
        by_cases ha : a = namespc
        · subst ha
          simp [hempty]
        · simp [Finmap.lookup_erase_ne ha, Finmap.lookup_insert_of_ne _ ha]
      · rfl

/-- No namespace has an empty set of names. -/
def Pruned (m : NameMap ν μ) : Prop :=
  ∀ namespc names, m.lookup namespc = some names → names ≠ ∅

omit [DecidableEq μ] in
theorem pruned_empty : (∅ : NameMap ν μ).Pruned := by
  intro namespc names hlookup
  cases hlookup

theorem Pruned.add {m : NameMap ν μ} (hpruned : m.Pruned) (namespc : ν)
    (name : μ) : (m.add namespc name).Pruned := by
  intro a names hlookup
  by_cases ha : a = namespc
  · subst ha
    rw [NameMap.add, Finmap.lookup_insert] at hlookup
    obtain rfl := Option.some.inj hlookup
    exact Finset.insert_ne_empty _ _
  · rw [NameMap.add, Finmap.lookup_insert_of_ne _ ha] at hlookup
    exact hpruned a names hlookup

theorem Pruned.prune {m : NameMap ν μ} (hpruned : m.Pruned) (namespc : ν)
    (name : μ) : (m.prune namespc name).Pruned := by
  unfold NameMap.prune
  cases hentry : m.lookup namespc with
  | none => exact hpruned
  | some names =>
      dsimp only
      split
      · -- The entry is gone.
        intro a names' hlookup
        by_cases ha : a = namespc
        · subst ha
          rw [Finmap.lookup_erase] at hlookup
          cases hlookup
        · rw [Finmap.lookup_erase_ne ha] at hlookup
          exact hpruned a names' hlookup
      · rename_i hne
        intro a names' hlookup
        by_cases ha : a = namespc
        · subst ha
          rw [Finmap.lookup_insert] at hlookup
          obtain rfl := Option.some.inj hlookup
          exact hne
        · rw [Finmap.lookup_insert_of_ne _ ha] at hlookup
          exact hpruned a names' hlookup

end NameMap

namespace Call

/-- A call of the namespaced tracker, with flattened removals. -/
def flatten : Call (ν × μ) (NameMap ν μ) ρ → Call (ν × μ) (Finset (ν × μ)) ρ
  | apply r => apply r
  | delete k => delete k
  | reset added removed => reset added removed.flatten

/-- A call on the index that inserts and removes, with the default `reset`. -/
def effect (key : ρ → Option κ) (c : Contents κ ρ) :
    Call κ (Finset κ) ρ → Contents κ ρ
  | apply r => put key c r
  | delete k => remove c k
  | reset added removed => fun k =>
      if k ∈ removed then none else (listing key added k).or (c k)

end Call

/-! ## Simulation -/

namespace Namespaced

/-- The state of `cluster` that a state of `namespaced` stands for. -/
def flatten (s : Namespaced ν μ ρ) : Cluster (ν × μ) ρ :=
  ⟨s.keys.flatten, s.resetAdded, s.resetRemoved.flatten⟩

variable (namespaceOf : ρ → Option ν) (name : ρ → Option μ)

/-- One round of either loop. -/
theorem step_flatten (s : Namespaced ν μ ρ) (e : Event ρ) :
    s.flatten.step (keyOf namespaceOf name) e =
      (s.step namespaceOf name e).map fun next =>
        (next.1.flatten, next.2.map Call.flatten) := by
  cases e with
  | apply r =>
      cases hkey : keyOf namespaceOf name r with
      | none => simp [Cluster.step, step, hkey]
      | some k =>
          simp [Cluster.step, step, hkey, flatten, Call.flatten,
            NameMap.flatten_add]
  | delete r =>
      cases hkey : keyOf namespaceOf name r with
      | none => simp [Cluster.step, step, hkey]
      | some k =>
          simp [Cluster.step, step, hkey, flatten, Call.flatten,
            NameMap.flatten_prune]
  | init => rfl
  | initApply r =>
      cases hkey : keyOf namespaceOf name r with
      | none => simp [Cluster.step, step, hkey]
      | some k =>
          simp [Cluster.step, step, hkey, flatten, NameMap.flatten_add,
            NameMap.flatten_strike]
  | initDone => rfl

/-- The two loops agree on every list of events, also where they panic. -/
theorem run_flatten (s : Namespaced ν μ ρ) (events : List (Event ρ)) :
    s.flatten.run (keyOf namespaceOf name) events =
      (s.run namespaceOf name events).map fun last =>
        (last.1.flatten, last.2.map Call.flatten) :=
  Transducer.run_translate flatten Call.flatten (step_flatten namespaceOf name) s
    events

/-- No namespace is ever mapped to an empty set of names. -/
theorem run_pruned {s t : Namespaced ν μ ρ} {events : List (Event ρ)}
    {calls : List (Call (ν × μ) (NameMap ν μ) ρ)}
    (hrun : s.run namespaceOf name events = some (t, calls))
    (hpruned : s.keys.Pruned) : t.keys.Pruned := by
  refine Transducer.run_invariant (fun s : Namespaced ν μ ρ => s.keys.Pruned) ?_
    hrun hpruned
  intro s e t out hs hstep
  cases e with
  | apply r =>
      obtain ⟨k, -, hpair⟩ := Option.map_eq_some_iff.mp hstep
      obtain ⟨rfl, -⟩ := Prod.mk.inj hpair
      exact hs.add k.1 k.2
  | delete r =>
      obtain ⟨k, -, hpair⟩ := Option.map_eq_some_iff.mp hstep
      obtain ⟨rfl, -⟩ := Prod.mk.inj hpair
      exact hs.prune k.1 k.2
  | init =>
      obtain ⟨rfl, -⟩ := Prod.mk.inj (Option.some.inj hstep)
      exact NameMap.pruned_empty
  | initApply r =>
      obtain ⟨k, -, hpair⟩ := Option.map_eq_some_iff.mp hstep
      obtain ⟨rfl, -⟩ := Prod.mk.inj hpair
      exact hs.add k.1 k.2
  | initDone =>
      obtain ⟨rfl, -⟩ := Prod.mk.inj (Option.some.inj hstep)
      exact hs

end Namespaced

/-! ## Orders of iteration -/

/-- In the default `reset`, everything that is removed is gone, and of the rest
the added resources win. -/
theorem resetCluster_apply (key : ρ → Option κ) (c : Contents κ ρ)
    (added : List ρ) (removed : List κ) (k : κ) :
    resetCluster (put key) remove c added removed k =
      if k ∈ removed then none else (listing key added k).or (c k) := by
  unfold resetCluster
  rw [foldl_remove, foldl_put]

/-- The nested loops of the namespaced `reset` are one loop over pairs. -/
theorem resetNamespaced_eq (key : ρ → Option (ν × μ)) (c : Contents (ν × μ) ρ)
    (added : List ρ) (removed : List (ν × List μ)) :
    resetNamespaced (put key) remove c added removed =
      resetCluster (put key) remove c added
        (removed.flatMap fun entry => entry.2.map (Prod.mk entry.1)) := by
  unfold resetNamespaced resetCluster
  rw [List.foldl_flatMap]
  simp only [List.foldl_map]

theorem callCluster_eq_effect (key : ρ → Option κ) (iter : Iteration κ) (n : Nat)
    (c : Contents κ ρ) (call : Call κ (Finset κ) ρ) :
    callCluster key iter n c call = call.effect key c := by
  cases call with
  | apply r => rfl
  | delete k => rfl
  | reset added removed =>
      funext k
      change resetCluster (put key) remove c added (iter.order n removed.val) k = _
      rw [resetCluster_apply]
      simp only [Call.effect, iter.mem_order, Finset.mem_val]

theorem callNamespaced_eq_effect (key : ρ → Option (ν × μ))
    (entries : Iteration (Sigma fun _ : ν => Finset μ)) (names : ν → Iteration μ)
    (n : Nat) (c : Contents (ν × μ) ρ)
    (call : Call (ν × μ) (NameMap ν μ) ρ) :
    callNamespaced key entries names n c call = call.flatten.effect key c := by
  cases call with
  | apply r => rfl
  | delete k => rfl
  | reset added removed =>
      funext ⟨a, b⟩
      -- Both sides agree as soon as they remove the same pairs.
      simp only [callNamespaced, resetNamespaced_eq, resetCluster_apply]
      have hmem : ((a, b) ∈ ((entries.order n removed.entries).map fun entry =>
          (entry.1, (names entry.1).order n entry.2.val)).flatMap
            fun entry => entry.2.map (Prod.mk entry.1)) ↔
          (a, b) ∈ removed.flatten := by
        rw [NameMap.mem_flatten]
        simp only [List.mem_flatMap, List.mem_map, Prod.mk.injEq]
        constructor
        · rintro ⟨_, ⟨⟨_, set⟩, hentry, rfl⟩, _, hname, rfl, rfl⟩
          rw [Iteration.mem_order] at hentry hname
          have hlookup := Finmap.mem_lookup_iff.mpr hentry
          rw [Option.mem_def] at hlookup
          rw [hlookup]
          exact hname
        · intro hname
          cases hlookup : removed.lookup a with
          | none => simp [hlookup] at hname
          | some set =>
              rw [hlookup] at hname
              refine ⟨_, ⟨⟨a, set⟩, ?_, rfl⟩, b, ?_, rfl, rfl⟩
              · rw [Iteration.mem_order]
                exact Finmap.mem_lookup_iff.mp hlookup
              · rw [Iteration.mem_order]
                exact hname
      simp only [hmem, Call.flatten, Call.effect]

/-- Calls whose order of iteration does not matter. -/
theorem callAll_eq_foldl {σ : Type u}
    {call : Nat → Contents κ ρ → Call κ σ ρ → Contents κ ρ}
    {flat : Call κ σ ρ → Call κ (Finset κ) ρ} {key : ρ → Option κ}
    (hcall : ∀ n c a, call n c a = (flat a).effect key c) (n : Nat)
    (c : Contents κ ρ) (calls : List (Call κ σ ρ)) :
    callAll call n c calls = (calls.map flat).foldl (Call.effect key) c := by
  induction calls generalizing n c with
  | nil => rfl
  | cons a calls ih =>
      rw [callAll, hcall, ih]
      rfl

/-- The index that `cluster` drives, without the order of iteration. -/
theorem clusterIndex_eq (name : ρ → Option κ) (iter : Iteration κ)
    (events : List (Event ρ)) :
    clusterIndex name iter events =
      (Cluster.initial.run name events).map fun result =>
        result.2.foldl (Call.effect name) fun _ => none := by
  unfold clusterIndex
  congr 1
  funext result
  have hall : callAll (callCluster name iter) 0 (fun _ => none) result.2 =
      (result.2.map id).foldl (Call.effect name) fun _ => none :=
    callAll_eq_foldl (callCluster_eq_effect name iter) 0 (fun _ => none) result.2
  rw [hall, List.map_id]

/-- The index that `namespaced` drives is the one that `cluster` drives on
pairs. -/
theorem namespacedIndex_eq (namespaceOf : ρ → Option ν) (name : ρ → Option μ)
    (entries : Iteration (Sigma fun _ : ν => Finset μ)) (names : ν → Iteration μ)
    (events : List (Event ρ)) :
    namespacedIndex namespaceOf name entries names events =
      (Cluster.initial.run (Namespaced.keyOf namespaceOf name) events).map
        fun result =>
          result.2.foldl (Call.effect (Namespaced.keyOf namespaceOf name))
            fun _ => none := by
  have hflat := Namespaced.run_flatten namespaceOf name
    (Namespaced.initial (ν := ν) (μ := μ) (ρ := ρ)) events
  have hinitial : (Namespaced.initial (ν := ν) (μ := μ) (ρ := ρ)).flatten =
      Cluster.initial := rfl
  rw [hinitial] at hflat
  rw [hflat, Option.map_map]
  unfold namespacedIndex
  congr 1
  funext result
  exact callAll_eq_foldl
    (callNamespaced_eq_effect (Namespaced.keyOf namespaceOf name) entries names) 0
    (fun _ => none) result.2

/-! ## Agreement -/

/-- With a name for every resource, no event makes the tracker panic. -/
theorem Cluster.exists_step {name : ρ → Option κ} (s : Cluster κ ρ) {e : Event ρ}
    (hnamed : ∀ r, e.resource? = some r → (name r).isSome) :
    ∃ t calls, s.step name e = some (t, calls) := by
  cases e with
  | init => exact ⟨_, _, rfl⟩
  | initDone => exact ⟨_, _, rfl⟩
  | apply r | delete r | initApply r =>
      obtain ⟨k, hk⟩ := Option.isSome_iff_exists.mp (hnamed r rfl)
      simp [step, hk]

theorem Cluster.exists_run {name : ρ → Option κ} (s : Cluster κ ρ)
    {events : List (Event ρ)}
    (hnamed : Keyed name (events.filterMap Event.resource?)) :
    ∃ t calls, s.run name events = some (t, calls) := by
  induction events generalizing s with
  | nil => exact ⟨s, [], rfl⟩
  | cons e events ih =>
      have hfirst : ∀ r, e.resource? = some r → (name r).isSome := by
        intro r hr
        exact hnamed r (List.mem_filterMap.mpr ⟨e, List.mem_cons_self, hr⟩)
      have hrest : Keyed name (events.filterMap Event.resource?) := by
        intro r hr
        obtain ⟨e', he', hr⟩ := List.mem_filterMap.mp hr
        exact hnamed r (List.mem_filterMap.mpr ⟨e', List.mem_cons_of_mem _ he', hr⟩)
      obtain ⟨mid, first, hstep⟩ := s.exists_step hfirst
      obtain ⟨t, rest, hrun⟩ := ih mid hrest
      refine ⟨t, first ++ rest, ?_⟩
      unfold run at hrun ⊢
      rw [Transducer.run_cons_of_step hstep, hrun]
      rfl

/-- `namespaced`, and `cluster` with pairs of a namespace and a name for names, agree
on every list of events over resources that have both, in whatever order the events
come.  Flattening takes the state of one to the state of the other, they make the
same calls up to flattening, and with the default `reset` the two indices are the
same, whatever order the hash containers iterate in. -/
theorem namespaced_agrees_with_cluster (namespaceOf : ρ → Option ν)
    (name : ρ → Option μ) {events : List (Event ρ)}
    (hnamed : ∀ r ∈ events.filterMap Event.resource?,
      (namespaceOf r).isSome ∧ (name r).isSome) :
    ∃ t calls flat flatCalls,
      Namespaced.initial.run namespaceOf name events = some (t, calls) ∧
      Cluster.initial.run (Namespaced.keyOf namespaceOf name) events =
        some (flat, flatCalls) ∧
      (∀ namespc n, (namespc, n) ∈ flat.keys ↔
        n ∈ (t.keys.lookup namespc).getD ∅) ∧
      (∀ namespc n, (namespc, n) ∈ flat.resetRemoved ↔
        n ∈ (t.resetRemoved.lookup namespc).getD ∅) ∧
      flat.resetAdded = t.resetAdded ∧
      flatCalls = calls.map Call.flatten ∧
      ∀ (entries : Iteration (Sigma fun _ : ν => Finset μ)) (names : ν → Iteration μ)
        (iter : Iteration (ν × μ)),
        namespacedIndex namespaceOf name entries names events =
          clusterIndex (Namespaced.keyOf namespaceOf name) iter events := by
  have hkeyed : Keyed (Namespaced.keyOf namespaceOf name)
      (events.filterMap Event.resource?) := by
    intro r hr
    obtain ⟨hnamespace, hname⟩ := hnamed r hr
    obtain ⟨namespc, hnamespc⟩ := Option.isSome_iff_exists.mp hnamespace
    obtain ⟨n, hn⟩ := Option.isSome_iff_exists.mp hname
    simp [Namespaced.keyOf, hnamespc, hn]
  obtain ⟨flat, flatCalls, hflat⟩ := Cluster.initial.exists_run hkeyed
  have hrun := Namespaced.run_flatten namespaceOf name
    (Namespaced.initial (ν := ν) (μ := μ) (ρ := ρ)) events
  change Cluster.initial.run _ events = _ at hrun
  rw [hflat] at hrun
  obtain ⟨⟨t, calls⟩, ht, hpair⟩ := Option.map_eq_some_iff.mp hrun.symm
  obtain ⟨rfl, rfl⟩ := Prod.mk.inj hpair
  refine ⟨t, calls, t.flatten, _, ht, hflat, ?_, ?_, rfl, rfl, ?_⟩
  · intro namespc n
    exact NameMap.mem_flatten
  · intro namespc n
    exact NameMap.mem_flatten
  · intro entries names iter
    rw [namespacedIndex_eq, clusterIndex_eq]

/-- Events in an order that no watcher produces: a cycle is completed that was never
begun, a pod is deleted that was never there, and a cycle is begun twice. -/
def podDisorder : List (Event Pod) :=
  [.initDone, .delete ("default", "pod-0"), .initApply ("default", "pod-1"),
    .apply ("kube-system", "pod-1"), .init, .initApply ("default", "pod-2"), .init,
    .delete ("default", "pod-2"), .initDone]

theorem pod_trackers_agree_in_disorder :
    namespacedIndex podNamespace podName (Iteration.arbitrary _)
        (fun _ => Iteration.arbitrary _) podDisorder =
      clusterIndex podKey (Iteration.arbitrary _) podDisorder := by
  have hnamed : ∀ r ∈ podDisorder.filterMap Event.resource?,
      (podNamespace r).isSome ∧ (podName r).isSome := by
    intro r _
    exact ⟨rfl, rfl⟩
  obtain ⟨_, _, _, _, -, -, -, -, -, -, hindex⟩ :=
    namespaced_agrees_with_cluster podNamespace podName hnamed
  exact hindex _ _ _

end Index
end Kubert
