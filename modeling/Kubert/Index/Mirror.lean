import Kubert.Index.Flatten

/-!
# The index mirrors the watch

Between blocks the tracker holds nothing but its keys, and these are the keys of
the contents.  `Mirrors` says this; it is kept by every block, and every block
leads to calls that turn the contents before it into the contents after it.

A cycle is the interesting block.  Its resources are collected while their keys
are struck out of the previous ones, so the one `reset` at its end adds what was
listed and removes what was there and was not listed: the two never overlap.
-/

namespace Kubert
namespace Index

open Foundation

universe u v

variable {κ ν μ : Type u} {ρ : Type v} [DecidableEq κ] [DecidableEq ν]
  [DecidableEq μ]

/-! ## What a cycle does to the tracker -/

namespace Cluster

variable {name : ρ → Option κ}

/-- Listing resources one by one. -/
theorem run_initApply (s : Cluster κ ρ) {rs : List ρ} (hkeyed : Keyed name rs) :
    s.run name (rs.map .initApply) =
      some (⟨s.keys ∪ keysOf name rs, s.resetAdded ++ rs,
        s.resetRemoved \ keysOf name rs⟩, []) := by
  induction rs generalizing s with
  | nil => simp [run, Transducer.run, keysOf]
  | cons r rs ih =>
      obtain ⟨hr, hrs⟩ := List.forall_mem_cons.mp hkeyed
      obtain ⟨k, hk⟩ := Option.isSome_iff_exists.mp hr
      have hkeys : keysOf name (r :: rs) = insert k (keysOf name rs) := by
        ext x
        simp [mem_keysOf, hk, eq_comm]
      have hstep : s.step name (.initApply r) =
          some (⟨insert k s.keys, s.resetAdded ++ [r], s.resetRemoved.erase k⟩,
            []) := by
        simp [step, hk]
      have hrest := ih ⟨insert k s.keys, s.resetAdded ++ [r],
        s.resetRemoved.erase k⟩ hrs
      unfold run at hrest ⊢
      rw [List.map_cons, Transducer.run_cons_of_step hstep, hrest, hkeys]
      simp [Finset.insert_union, Finset.union_insert, Finset.erase_sdiff_comm,
        Finset.sdiff_insert]

/-- A cycle that is begun: the listed keys become the tracker's keys, and those
that were there before and are not listed wait to be removed. -/
theorem run_abandoned (s : Cluster κ ρ) {rs : List ρ} (hkeyed : Keyed name rs) :
    s.run name (abandonedEvents rs) =
      some (⟨keysOf name rs, s.resetAdded ++ rs, s.keys \ keysOf name rs⟩, []) := by
  have hstep : s.step name .init = some (⟨∅, s.resetAdded, s.keys⟩, []) := rfl
  have hrest := run_initApply ⟨∅, s.resetAdded, s.keys⟩ hkeyed
  unfold run abandonedEvents at *
  rw [Transducer.run_cons_of_step hstep, hrest]
  simp

/-- A completed cycle. -/
theorem run_cycle (s : Cluster κ ρ) {rs : List ρ} (hkeyed : Keyed name rs) :
    s.run name (Block.cycle rs).events =
      some (⟨keysOf name rs, [], ∅⟩,
        [.reset (s.resetAdded ++ rs) (s.keys \ keysOf name rs)]) := by
  exact Transducer.run_append (run_abandoned s hkeyed)
    (Transducer.run_singleton _ Event.initDone)

end Cluster

/-! ## Blocks -/

/-- Between blocks, the tracker's keys are the keys of the contents and nothing
is waiting to be added. -/
structure Mirrors (s : Cluster κ ρ) (c : Contents κ ρ) : Prop where
  keys : ∀ k, k ∈ s.keys ↔ (c k).isSome
  added : s.resetAdded = []

/-- A `reset` never removes what it adds. -/
def Call.Apart (key : ρ → Option κ) : Call κ (Finset κ) ρ → Prop
  | .reset added removed => Disjoint (keysOf key added) removed
  | _ => True

variable {name : ρ → Option κ}

omit [DecidableEq κ] in
theorem mirrors_initial :
    Mirrors (Cluster.initial : Cluster κ ρ) fun _ => none :=
  ⟨by simp [Cluster.initial], rfl⟩

/-- One block: the calls turn the contents before it into those after it. -/
theorem run_block {s : Cluster κ ρ} {c : Contents κ ρ} (hmirrors : Mirrors s c)
    {block : Block ρ} (hkeyed : Keyed name block.resources) :
    ∃ t calls, s.run name block.events = some (t, calls) ∧
      Mirrors t (block.on name c) ∧
      calls.foldl (Call.effect name) c = block.on name c ∧
      ∀ call ∈ calls, call.Apart name := by
  cases block with
  | apply r =>
      obtain ⟨k, hk⟩ := Option.isSome_iff_exists.mp (hkeyed r List.mem_cons_self)
      have hstep : s.step name (.apply r) =
          some ({ s with keys := insert k s.keys }, [.apply r]) := by
        simp [Cluster.step, hk]
      refine ⟨_, _, (Transducer.run_singleton s _).trans hstep, ⟨?_, hmirrors.added⟩,
        rfl, by simp [Call.Apart]⟩
      intro x
      change x ∈ insert k s.keys ↔ (put name c r x).isSome
      rw [Finset.mem_insert, hmirrors.keys, put_of_some hk]
      by_cases hx : x = k
      · subst hx
        simp
      · simp [hx]
  | delete r =>
      obtain ⟨k, hk⟩ := Option.isSome_iff_exists.mp (hkeyed r List.mem_cons_self)
      have hstep : s.step name (.delete r) =
          some ({ s with keys := s.keys.erase k }, [.delete k]) := by
        simp [Cluster.step, hk]
      have hon : (Block.delete r).on name c = remove c k := by
        simp [Block.on, hk]
      rw [hon]
      refine ⟨_, _, (Transducer.run_singleton s _).trans hstep, ⟨?_, hmirrors.added⟩,
        rfl, by simp [Call.Apart]⟩
      intro x
      change x ∈ s.keys.erase k ↔ (remove c k x).isSome
      rw [Finset.mem_erase, hmirrors.keys]
      unfold remove
      by_cases hx : x = k
      · subst hx
        simp
      · simp [hx]
  | cycle rs =>
      -- One `reset`, of the listed resources and of the keys that were not listed.
      refine ⟨_, _, Cluster.run_cycle s hkeyed, ⟨?_, rfl⟩, ?_, ?_⟩
      · exact fun k => isSome_listing_iff.symm
      · funext k
        change (if k ∈ s.keys \ keysOf name rs then none
          else (listing name (s.resetAdded ++ rs) k).or (c k)) = listing name rs k
        rw [hmirrors.added, List.nil_append]
        simp only [Finset.mem_sdiff, hmirrors.keys]
        by_cases hk : k ∈ keysOf name rs
        · obtain ⟨r, hr⟩ := Option.isSome_iff_exists.mp (isSome_listing_iff.mpr hk)
          simp [hk, hr]
        · -- What was there and is not listed is in `resetRemoved`.
          rw [listing_eq_none_iff.mpr hk]
          cases c k <;> simp [hk]
      · intro call hcall
        obtain rfl := List.mem_singleton.mp hcall
        change Disjoint (keysOf name (s.resetAdded ++ rs)) _
        rw [hmirrors.added, List.nil_append]
        exact Finset.disjoint_sdiff

/-- Any number of blocks. -/
theorem run_blocks {s : Cluster κ ρ} {c : Contents κ ρ} (hmirrors : Mirrors s c)
    {blocks : List (Block ρ)}
    (hkeyed : Keyed name (blocks.flatMap Block.resources)) :
    ∃ t calls, s.run name (blocks.flatMap Block.events) = some (t, calls) ∧
      Mirrors t (blocks.foldl (Block.on name) c) ∧
      calls.foldl (Call.effect name) c = blocks.foldl (Block.on name) c ∧
      ∀ call ∈ calls, call.Apart name := by
  induction blocks generalizing s c with
  | nil => exact ⟨s, [], rfl, hmirrors, rfl, by simp⟩
  | cons block blocks ih =>
      have hfirst : Keyed name block.resources := fun r hr =>
        hkeyed r (List.mem_flatMap.mpr ⟨block, List.mem_cons_self, hr⟩)
      have hrest : Keyed name (blocks.flatMap Block.resources) := by
        intro r hr
        obtain ⟨b, hb, hr⟩ := List.mem_flatMap.mp hr
        exact hkeyed r (List.mem_flatMap.mpr ⟨b, List.mem_cons_of_mem _ hb, hr⟩)
      obtain ⟨mid, first, hrun, hmid, heffect, hdisjoint⟩ :=
        run_block hmirrors hfirst
      obtain ⟨t, second, hrun', hlast, heffect', hdisjoint'⟩ := ih hmid hrest
      refine ⟨t, first ++ second, ?_, hlast, ?_, ?_⟩
      · rw [List.flatMap_cons]
        exact Transducer.run_append hrun hrun'
      · rw [List.foldl_append, heffect, heffect']
        rfl
      · intro call hcall
        rcases List.mem_append.mp hcall with h | h
        · exact hdisjoint call h
        · exact hdisjoint' call h

/-- After any sequence of blocks, an index that inserts, removes and uses the
default `reset` has exactly the reference contents, for both kinds of resources
and whatever order the hash containers iterate in; the tracker's keys are the keys
of the index; no namespace is mapped to an empty set of names; and no `reset`
removes what it adds. -/
theorem index_mirrors_watch (blocks : List (Block ρ)) :
    (∀ (name : ρ → Option κ) (iter : Iteration κ),
      Keyed name (blocks.flatMap Block.resources) →
      ∃ t calls,
        Cluster.initial.run name (blocks.flatMap Block.events) = some (t, calls) ∧
        clusterIndex name iter (blocks.flatMap Block.events) =
          some (contents name blocks) ∧
        (∀ k, k ∈ t.keys ↔ (contents name blocks k).isSome) ∧
        ∀ added removed, Call.reset added removed ∈ calls →
          ∀ r ∈ added, ∀ k, name r = some k → k ∉ removed) ∧
    (∀ (namespaceOf : ρ → Option ν) (name : ρ → Option μ)
        (entries : Iteration (Sigma fun _ : ν => Finset μ))
        (names : ν → Iteration μ),
      Keyed (Namespaced.keyOf namespaceOf name)
        (blocks.flatMap Block.resources) →
      ∃ t calls,
        Namespaced.initial.run namespaceOf name (blocks.flatMap Block.events) =
          some (t, calls) ∧
        namespacedIndex namespaceOf name entries names
            (blocks.flatMap Block.events) =
          some (contents (Namespaced.keyOf namespaceOf name) blocks) ∧
        (∀ namespc n, n ∈ (t.keys.lookup namespc).getD ∅ ↔
          (contents (Namespaced.keyOf namespaceOf name) blocks
            (namespc, n)).isSome) ∧
        (∀ namespc set, t.keys.lookup namespc = some set → set ≠ ∅) ∧
        ∀ added removed, Call.reset added removed ∈ calls →
          ∀ r ∈ added, ∀ namespc n, namespaceOf r = some namespc →
            name r = some n → n ∉ (removed.lookup namespc).getD ∅) := by
  constructor
  · intro name iter hkeyed
    obtain ⟨t, calls, hrun, hmirrors, heffect, hdisjoint⟩ :=
      run_blocks mirrors_initial hkeyed
    refine ⟨t, calls, hrun, ?_, hmirrors.keys, ?_⟩
    · rw [clusterIndex_eq, hrun]
      exact congrArg some heffect
    · intro added removed hcall r hr k hk
      exact Finset.disjoint_left.mp (hdisjoint _ hcall)
        (mem_keysOf.mpr ⟨r, hr, hk⟩)
  · intro namespaceOf name entries names hkeyed
    -- Run `cluster` on pairs, and pull the result back.
    obtain ⟨flat, flatCalls, hflat, hmirrors, heffect, hdisjoint⟩ :=
      run_blocks mirrors_initial hkeyed
    have hrun : Cluster.run (Namespaced.keyOf namespaceOf name) Cluster.initial
        (blocks.flatMap Block.events) = _ :=
      Namespaced.run_flatten namespaceOf name
        (Namespaced.initial (ν := ν) (μ := μ) (ρ := ρ)) _
    rw [hflat] at hrun
    obtain ⟨⟨t, calls⟩, ht, hpair⟩ := Option.map_eq_some_iff.mp hrun.symm
    obtain ⟨rfl, rfl⟩ := Prod.mk.inj hpair
    refine ⟨t, calls, ht, ?_, ?_, ?_, ?_⟩
    · rw [namespacedIndex_eq, hflat]
      exact congrArg some heffect
    · intro namespc n
      rw [← NameMap.mem_flatten]
      exact hmirrors.keys (namespc, n)
    · exact Namespaced.run_pruned namespaceOf name ht NameMap.pruned_empty
    · intro added removed hcall r hr namespc n hnamespace hname
      have hflatCall : Call.reset added removed.flatten ∈ calls.map Call.flatten :=
        List.mem_map.mpr ⟨_, hcall, rfl⟩
      have hkey : Namespaced.keyOf namespaceOf name r = some (namespc, n) := by
        simp [Namespaced.keyOf, hnamespace, hname]
      have hnot := Finset.disjoint_left.mp (hdisjoint _ hflatCall)
        (mem_keysOf.mpr ⟨r, hr, hkey⟩)
      rwa [NameMap.mem_flatten] at hnot

/-- Two cycles that overlap in one pod. -/
def podRestart : List (Block Pod) :=
  [.cycle [("default", "pod-0"), ("default", "pod-1")],
    .cycle [("default", "pod-1"), ("default", "pod-2")]]

/-- After the second cycle the first pod is gone and the last one is there, for
both kinds of indices. -/
theorem pods_mirrored_after_restart :
    clusterIndex podName (Iteration.arbitrary String)
        (podRestart.flatMap Block.events) = some (contents podName podRestart) ∧
      namespacedIndex podNamespace podName (Iteration.arbitrary _)
          (fun _ => Iteration.arbitrary _) (podRestart.flatMap Block.events) =
        some (contents podKey podRestart) ∧
      contents podKey podRestart ("default", "pod-0") = none ∧
      contents podKey podRestart ("default", "pod-2") =
        some ("default", "pod-2") := by
  obtain ⟨hcluster, hnamespaced⟩ :=
    index_mirrors_watch (κ := String) (ν := String) (μ := String) podRestart
  obtain ⟨_, _, -, hindex, -⟩ := hcluster podName (Iteration.arbitrary String)
    (by intro r _; rfl)
  obtain ⟨_, _, -, hindex', -⟩ := hnamespaced podNamespace podName
    (Iteration.arbitrary _) (fun _ => Iteration.arbitrary _) (by intro r _; rfl)
  exact ⟨hindex, hindex', by decide, by decide⟩

end Index
end Kubert
