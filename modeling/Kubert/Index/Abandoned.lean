import Kubert.Index.Mirror

/-!
# Cycles that are cut short

When a list fails half way, the watcher starts over with `Init`.  The trackers do
not expect this.  `Init` overwrites the keys that were waiting to be removed with
the keys seen so far, which are only those of the cycle that was cut short, and it
leaves the resources collected there where they are.  So the next completed cycle
removes at most what the last abandoned one listed, and adds everything that any
of them listed.

The result is right exactly when nothing else was there to be removed: every key
of the contents before, and every key listed in an earlier abandoned cycle, is
listed again in the last abandoned cycle or in the completed one.
-/

namespace Kubert
namespace Index

open Foundation

universe u v

variable {κ ν μ : Type u} {ρ : Type v} [DecidableEq κ] [DecidableEq ν]
  [DecidableEq μ]

/-- The keys that were there, or were listed in an abandoned cycle other than the
last one, are listed in the last abandoned cycle or in the completed one. -/
def Relisted (key : ρ → Option κ) (blocks : List (Block ρ))
    (abandoned : List (List ρ)) (listed : List ρ) : Prop :=
  ∀ last, abandoned.getLast? = some last → ∀ k,
    (contents key blocks k).isSome ∨ k ∈ keysOf key abandoned.dropLast.flatten →
    k ∈ keysOf key last ∨ k ∈ keysOf key listed

/-- Blocks, then abandoned cycles, then a completed one. -/
def restartedEvents (blocks : List (Block ρ)) (abandoned : List (List ρ))
    (listed : List ρ) : List (Event ρ) :=
  blocks.flatMap Block.events ++ abandoned.flatMap abandonedEvents ++
    (Block.cycle listed).events

variable {name : ρ → Option κ}

/-- Abandoned cycles pile up what they list; the keys are those of the last. -/
theorem run_abandoned_cycles (s : Cluster κ ρ) {abandoned : List (List ρ)}
    (hkeyed : Keyed name abandoned.flatten) :
    ∃ t, s.run name (abandoned.flatMap abandonedEvents) = some (t, []) ∧
      t.resetAdded = s.resetAdded ++ abandoned.flatten ∧
      t.keys = (abandoned.getLast?.map (keysOf name)).getD s.keys := by
  -- From the end, because the last cycle decides the keys.
  induction abandoned using List.reverseRecOn with
  | nil => exact ⟨s, rfl, by simp, rfl⟩
  | append_singleton earlier last ih =>
      rw [List.flatten_append] at hkeyed
      obtain ⟨mid, hrun, hadded, -⟩ :=
        ih fun r hr => hkeyed r (List.mem_append_left _ hr)
      have hlast : Keyed name last := fun r hr =>
        hkeyed r (List.mem_append_right _ (by simpa using hr))
      have hbegun := Cluster.run_abandoned mid hlast
      refine ⟨⟨keysOf name last, mid.resetAdded ++ last,
        mid.keys \ keysOf name last⟩, ?_, ?_, ?_⟩
      · rw [List.flatMap_append]
        refine Transducer.run_append hrun ?_
        simpa [Cluster.run] using hbegun
      · simp [hadded]
      · simp

/-- When the one `reset` of a completed cycle leaves exactly what was listed: a
key that is neither removed nor listed must not have been there, nor have been
collected before. -/
theorem reset_eq_listing_iff {keys : Finset κ} {collected listed : List ρ}
    {c : Contents κ ρ} :
    Call.effect name c (.reset (collected ++ listed)
        (keys \ keysOf name listed)) = listing name listed ↔
      ∀ k, k ∉ keys → k ∉ keysOf name listed →
        k ∉ keysOf name collected ∧ c k = none := by
  have hvalue : ∀ k, Call.effect name c (.reset (collected ++ listed)
      (keys \ keysOf name listed)) k =
        if k ∈ keys ∧ k ∉ keysOf name listed then none
        else ((listing name listed k).or (listing name collected k)).or (c k) := by
    intro k
    simp only [Call.effect, Finset.mem_sdiff, listing_append]
  constructor
  · intro heq k hkeys hlisted
    have hk := congrFun heq k
    rw [hvalue, if_neg (fun h => hkeys h.1), listing_eq_none_iff.mpr hlisted] at hk
    simp only [Option.none_or, Option.or_eq_none_iff] at hk
    exact ⟨listing_eq_none_iff.mp hk.1, hk.2⟩
  · intro hgone
    funext k
    rw [hvalue]
    by_cases hlisted : k ∈ keysOf name listed
    · obtain ⟨r, hr⟩ := Option.isSome_iff_exists.mp
        (isSome_listing_iff.mpr hlisted)
      simp [hlisted, hr]
    · rw [listing_eq_none_iff.mpr hlisted]
      by_cases hkeys : k ∈ keys
      · simp [hkeys, hlisted]
      · obtain ⟨hcollected, hnone⟩ := hgone k hkeys hlisted
        simp [hkeys, hnone, listing_eq_none_iff.mpr hcollected]

/-- `cluster` after abandoned cycles and a completed one. -/
theorem run_restarted {blocks : List (Block ρ)} {abandoned : List (List ρ)}
    {listed : List ρ}
    (hkeyed : Keyed name
      (blocks.flatMap Block.resources ++ abandoned.flatten ++ listed)) :
    ∃ t calls,
      Cluster.initial.run name (restartedEvents blocks abandoned listed) =
        some (t, calls) ∧
      (calls.foldl (Call.effect name) (fun _ => none) = listing name listed ↔
        Relisted name blocks abandoned listed) := by
  have hblocks : Keyed name (blocks.flatMap Block.resources) := fun r hr =>
    hkeyed r (List.mem_append_left _ (List.mem_append_left _ hr))
  have habandoned : Keyed name abandoned.flatten := fun r hr =>
    hkeyed r (List.mem_append_left _ (List.mem_append_right _ hr))
  have hlisted : Keyed name listed := fun r hr =>
    hkeyed r (List.mem_append_right _ hr)
  obtain ⟨s, first, hfirst, hmirrors, heffect, -⟩ :=
    run_blocks mirrors_initial hblocks
  change Mirrors s (contents name blocks) at hmirrors
  change _ = contents name blocks at heffect
  obtain ⟨mid, hmid, hadded, hkeys⟩ := run_abandoned_cycles s habandoned
  have hcycle := Cluster.run_cycle mid hlisted
  rw [hadded, hmirrors.added, List.nil_append, hkeys] at hcycle
  refine ⟨_, _, Transducer.run_append (Transducer.run_append hfirst hmid) hcycle, ?_⟩
  rw [List.append_nil, List.foldl_append, heffect, List.foldl_cons, List.foldl_nil,
    reset_eq_listing_iff]
  rcases List.eq_nil_or_concat abandoned with rfl | ⟨earlier, last, rfl⟩
  · -- Without an abandoned cycle, the keys are still those of the contents.
    constructor
    · intro _ last hlast
      cases hlast
    · intro _ k hk _
      refine ⟨by simp [keysOf], ?_⟩
      have hnot := mt (hmirrors.keys k).mpr hk
      simpa using hnot
  · unfold Relisted
    simp only [List.concat_eq_append, List.getLast?_concat, Option.map_some,
      Option.getD_some, List.dropLast_concat, List.flatten_append, keysOf_append,
      Option.some.injEq, forall_eq', Finset.mem_union]
    have hflat : keysOf name [last].flatten = keysOf name last := by simp
    rw [hflat]
    constructor
    · intro hgone k hthere
      by_contra hnot
      obtain ⟨hnotLast, hnotListed⟩ := not_or.mp hnot
      obtain ⟨hcollected, hnone⟩ := hgone k hnotLast hnotListed
      rcases hthere with hsome | hearlier
      · rw [hnone] at hsome
        cases hsome
      · exact hcollected (Or.inl hearlier)
    · intro hrelisted k hnotLast hnotListed
      have hnot : ¬ ((contents name blocks k).isSome = true ∨
          k ∈ keysOf name earlier.flatten) := fun hthere =>
        (hrelisted k hthere).elim hnotLast hnotListed
      obtain ⟨hnone, hearlier⟩ := not_or.mp hnot
      refine ⟨fun h => h.elim hearlier hnotLast, ?_⟩
      simpa using hnone

/-- Abandoned cycles between some blocks and a completed cycle leave no trace in
the index, which then contains exactly what the completed cycle listed, if and only
if every key that was there or was listed in an earlier abandoned cycle is listed
in the last abandoned cycle or in the completed one.  This holds for both kinds of
resources and for any order of iteration. -/
theorem abandoned_cycles_leave_no_trace_iff (blocks : List (Block ρ))
    (abandoned : List (List ρ)) (listed : List ρ) :
    (∀ (name : ρ → Option κ) (iter iter' : Iteration κ),
      Keyed name
        (blocks.flatMap Block.resources ++ abandoned.flatten ++ listed) →
      clusterIndex name iter (restartedEvents blocks [] listed) =
          some (listing name listed) ∧
        (clusterIndex name iter' (restartedEvents blocks abandoned listed) =
            clusterIndex name iter (restartedEvents blocks [] listed) ↔
          Relisted name blocks abandoned listed)) ∧
    (∀ (namespaceOf : ρ → Option ν) (name : ρ → Option μ)
        (entries entries' : Iteration (Sigma fun _ : ν => Finset μ))
        (names names' : ν → Iteration μ),
      Keyed (Namespaced.keyOf namespaceOf name)
        (blocks.flatMap Block.resources ++ abandoned.flatten ++ listed) →
      namespacedIndex namespaceOf name entries names
          (restartedEvents blocks [] listed) =
          some (listing (Namespaced.keyOf namespaceOf name) listed) ∧
        (namespacedIndex namespaceOf name entries' names'
            (restartedEvents blocks abandoned listed) =
            namespacedIndex namespaceOf name entries names
              (restartedEvents blocks [] listed) ↔
          Relisted (Namespaced.keyOf namespaceOf name) blocks abandoned
            listed)) := by
  have hindex : ∀ {κ : Type u} [DecidableEq κ] (key : ρ → Option κ),
      Keyed key (blocks.flatMap Block.resources ++ abandoned.flatten ++ listed) →
      (Cluster.initial.run key (restartedEvents blocks [] listed)).map
          (fun result => result.2.foldl (Call.effect key) fun _ => none) =
        some (listing key listed) ∧
      ((Cluster.initial.run key (restartedEvents blocks abandoned listed)).map
          (fun result => result.2.foldl (Call.effect key) fun _ => none) =
        some (listing key listed) ↔ Relisted key blocks abandoned listed) := by
    intro κ _ key hkeyed
    have hshort : Keyed key (blocks.flatMap Block.resources ++ [].flatten ++ listed) := by
      intro r hr
      refine hkeyed r ?_
      simp only [List.flatten_nil, List.append_nil, List.mem_append] at hr ⊢
      exact hr.imp_left Or.inl
    obtain ⟨t, calls, hrun, hiff⟩ := run_restarted hshort
    obtain ⟨t', calls', hrun', hiff'⟩ := run_restarted hkeyed
    have hnothing : Relisted key blocks [] listed := by
      intro last hlast
      cases hlast
    rw [hrun, hrun']
    refine ⟨congrArg some (hiff.mpr hnothing), ?_⟩
    rw [← hiff']
    exact Option.some_inj
  constructor
  · intro name iter iter' hkeyed
    obtain ⟨hplain, hiff⟩ := hindex name hkeyed
    rw [clusterIndex_eq, clusterIndex_eq, hplain]
    exact ⟨rfl, hiff⟩
  · intro namespaceOf name entries entries' names names' hkeyed
    obtain ⟨hplain, hiff⟩ := hindex (Namespaced.keyOf namespaceOf name) hkeyed
    rw [namespacedIndex_eq, namespacedIndex_eq, hplain]
    exact ⟨rfl, hiff⟩

/-- The pod is listed, the list is cut short after the pod was listed again, and
then completed with the pod and another one. -/
theorem relisted_pod_leaves_no_trace :
    Relisted podKey [.cycle [("default", "pod-0")]] [[("default", "pod-0")]]
        [("default", "pod-0"), ("default", "pod-1")] ∧
      namespacedIndex podNamespace podName (Iteration.arbitrary _)
          (fun _ => Iteration.arbitrary _)
          (restartedEvents [.cycle [("default", "pod-0")]]
            [[("default", "pod-0")]] [("default", "pod-0"), ("default", "pod-1")]) =
        namespacedIndex podNamespace podName (Iteration.arbitrary _)
          (fun _ => Iteration.arbitrary _)
          (restartedEvents [.cycle [("default", "pod-0")]] []
            [("default", "pod-0"), ("default", "pod-1")]) := by
  have hrelisted : Relisted podKey [.cycle [("default", "pod-0")]]
      [[("default", "pod-0")]] [("default", "pod-0"), ("default", "pod-1")] := by
    rintro last ⟨⟩ k hthere
    rcases hthere with hsome | hearlier
    · exact Or.inl (isSome_listing_iff.mp hsome)
    · cases hearlier
  refine ⟨hrelisted, ?_⟩
  exact ((abandoned_cycles_leave_no_trace_iff (κ := String)
    [.cycle [("default", "pod-0")]] [[("default", "pod-0")]]
    [("default", "pod-0"), ("default", "pod-1")]).2 podNamespace podName _ _ _ _
      (by intro r _; rfl)).2.mpr hrelisted

/-- A pod that is gone stays in the index, of either kind, when the list that
shows that it is gone was begun twice. -/
theorem stale_pod_after_abandoned_cycle :
    (clusterIndex podName (Iteration.arbitrary String)
        (restartedEvents [.cycle [("default", "pod-0")]] [[]] [])).map
          (fun index => index "pod-0") = some (some ("default", "pod-0")) ∧
      (clusterIndex podName (Iteration.arbitrary String)
        (restartedEvents [.cycle [("default", "pod-0")]] [] [])).map
          (fun index => index "pod-0") = some none ∧
      (namespacedIndex podNamespace podName (Iteration.arbitrary _)
        (fun _ => Iteration.arbitrary _)
        (restartedEvents [.cycle [("default", "pod-0")]] [[]] [])).map
          (fun index => index ("default", "pod-0")) =
            some (some ("default", "pod-0")) ∧
      (namespacedIndex podNamespace podName (Iteration.arbitrary _)
        (fun _ => Iteration.arbitrary _)
        (restartedEvents [.cycle [("default", "pod-0")]] [] [])).map
          (fun index => index ("default", "pod-0")) = some none := by
  simp only [clusterIndex_eq, namespacedIndex_eq]
  decide +kernel

end Index
end Kubert
