import Kubert.Foundation.Population
import Kubert.Index.Abandoned

/-!
# Indices over whole watches

A watch may fail and start over any number of times.  It is made of segments here:
updates, and lists with the attempts that were cut short before them; and it may be in
the middle of a list.

A list that was attempted before leaves keys behind: those that were there or were listed
in an attempt other than the last one, and are listed neither in the last attempt nor in
the end.  The index goes on holding something under such a key while the reference has
nothing there, and no later list makes up for it, unless the key is named again.
`LeftBehind` says this about the segments alone, and after every watch the index is the
reference contents and what was left behind (`Follows`).
-/

namespace Kubert
namespace Index

open Foundation

universe u v

variable {κ ν μ : Type u} {ρ : Type v} [DecidableEq κ] [DecidableEq ν] [DecidableEq μ]

/-! ## Segments of a watch -/

/-- What a watch is made of: an update, or a list after attempts that were cut short. -/
inductive Segment (ρ : Type v)
  | apply (r : ρ)
  | delete (r : ρ)
  | relist (attempts : List (List ρ)) (listed : List ρ)

namespace Segment

/-- The events of a segment. -/
def events : Segment ρ → List (Event ρ)
  | apply r => [.apply r]
  | delete r => [.delete r]
  | relist attempts listed => attempts.flatMap abandonedEvents ++ (Block.cycle listed).events

/-- What a segment means. -/
def block : Segment ρ → Block ρ
  | apply r => .apply r
  | delete r => .delete r
  | relist _ listed => .cycle listed

/-- The resources that a segment mentions. -/
def resources : Segment ρ → List ρ
  | apply r => [r]
  | delete r => [r]
  | relist attempts listed => attempts.flatten ++ listed

theorem resources_block {segments : List (Segment ρ)} {r : ρ}
    (h : r ∈ (segments.map block).flatMap Block.resources) : r ∈ segments.flatMap resources := by
  rw [List.flatMap_map] at h
  obtain ⟨segment, hsegment, hr⟩ := List.mem_flatMap.mp h
  refine List.mem_flatMap.mpr ⟨segment, hsegment, ?_⟩
  cases segment with
  | apply | delete => exact hr
  | relist attempts listed => exact List.mem_append_right _ hr

variable (key : ρ → Option κ)

/-- A list leaves a key behind that was there, or was listed in an attempt other than the
last one, and is listed neither in the last attempt nor in the end. -/
def LeavesBehind (c : Contents κ ρ) (k : κ) : Segment ρ → Prop
  | relist attempts listed =>
      ∃ last, attempts.getLast? = some last ∧
        ((c k).isSome ∨ k ∈ keysOf key attempts.dropLast.flatten) ∧
        k ∉ keysOf key last ∧ k ∉ keysOf key listed
  | _ => False

/-- The segment puts a key right, whatever is under it. -/
def Settles (k : κ) : Segment ρ → Prop
  | apply r => key r = some k
  | delete r => key r = some k
  | relist attempts listed =>
      k ∈ keysOf key listed ∨ ∃ last, attempts.getLast? = some last ∧ k ∈ keysOf key last

end Segment

/-- The events of a watch: segments, and the attempts of a list that is not complete. -/
def watchEvents (segments : List (Segment ρ)) (attempts : List (List ρ)) : List (Event ρ) :=
  segments.flatMap Segment.events ++ attempts.flatMap abandonedEvents

/-- A segment has left the key behind, and no later one has put it right. -/
def LeftBehind (key : ρ → Option κ) (segments : List (Segment ρ)) (k : κ) : Prop :=
  ∃ before segment after, segments = before ++ segment :: after ∧
    segment.LeavesBehind key (contents key (before.map Segment.block)) k ∧
    ∀ later ∈ after, ¬ later.Settles key k

variable {key : ρ → Option κ}

theorem leftBehind_concat {segments : List (Segment ρ)} {segment : Segment ρ} {k : κ} :
    LeftBehind key (segments ++ [segment]) k ↔
      segment.LeavesBehind key (contents key (segments.map Segment.block)) k ∨
        LeftBehind key segments k ∧ ¬ segment.Settles key k := by
  constructor
  · rintro ⟨before, left, after, hsplit, hleaves, hlater⟩
    rcases List.eq_nil_or_concat after with rfl | ⟨after, last, rfl⟩
    · obtain ⟨rfl, hlast⟩ := List.append_inj' hsplit rfl
      obtain rfl := List.singleton_inj.mp hlast
      exact .inl hleaves
    · rw [List.concat_eq_append, ← List.cons_append, ← List.append_assoc] at hsplit
      obtain ⟨rfl, hlast⟩ := List.append_inj' hsplit rfl
      obtain rfl := List.singleton_inj.mp hlast
      rw [List.concat_eq_append] at hlater
      refine .inr ⟨⟨before, left, after, rfl, hleaves, ?_⟩, ?_⟩
      · exact fun later hmem => hlater later (List.mem_append_left _ hmem)
      · exact hlater segment (List.mem_append_right _ (List.mem_singleton_self segment))
  · rintro (hleaves | ⟨⟨before, left, after, rfl, hleaves, hlater⟩, hsettles⟩)
    · exact ⟨segments, segment, [], rfl, hleaves, by simp⟩
    · refine ⟨before, left, after ++ [segment], by simp, hleaves, ?_⟩
      exact forall_mem_append_singleton hlater hsettles

/-! ## What is under a key -/

/-- Everything is under its own key. -/
def Filed (key : ρ → Option κ) (c : Contents κ ρ) : Prop := ∀ k r, c k = some r → key r = some k

omit [DecidableEq κ] in
theorem filed_empty : Filed key fun _ => none := by
  intro k r hr
  cases hr

theorem Filed.update {c : Contents κ ρ} (h : Filed key c) {k : κ} {value : Option ρ}
    (hvalue : ∀ r, value = some r → key r = some k) : Filed key (Function.update c k value) := by
  intro k' r hr
  by_cases hk : k' = k
  · subst hk
    rw [Function.update_self] at hr
    exact hvalue r hr
  · rw [Function.update_of_ne hk] at hr
    exact h k' r hr

theorem Filed.put {c : Contents κ ρ} (h : Filed key c) (r : ρ) : Filed key (put key c r) := by
  cases hkey : key r with
  | none =>
      rw [put_of_none hkey]
      exact h
  | some k =>
      rw [put_of_some hkey]
      exact h.update fun r' hr' => Option.some.inj hr' ▸ hkey

theorem Filed.remove {c : Contents κ ρ} (h : Filed key c) (k : κ) :
    Filed key (remove c k) := by
  refine h.update fun r hr => ?_
  cases hr

theorem filed_listing (rs : List ρ) : Filed key (listing key rs) := by
  induction rs using List.reverseRecOn with
  | nil => exact filed_empty
  | append_singleton rs r ih =>
      rw [listing_concat]
      exact ih.put r

theorem Filed.on {c : Contents κ ρ} (h : Filed key c) (block : Block ρ) :
    Filed key (block.on key c) := by
  cases block with
  | apply r => exact h.put r
  | delete r =>
      rw [Block.on]
      cases key r with
      | none => exact h
      | some k => exact h.remove k
  | cycle rs => exact filed_listing rs

theorem filed_contents (blocks : List (Block ρ)) : Filed key (contents key blocks) := by
  unfold contents
  exact List.foldlRecOn blocks (Block.on key) filed_empty fun _ h block _ => h.on block

theorem Filed.effect {c : Contents κ ρ} (h : Filed key c) (call : Call κ (Finset κ) ρ) :
    Filed key (call.effect key c) := by
  cases call with
  | apply r => exact h.put r
  | delete k => exact h.remove k
  | reset added removed =>
      intro k r hr
      obtain ⟨-, hr⟩ := Option.ite_none_left_eq_some.mp hr
      rcases Option.or_eq_some_iff.mp hr with hlisted | ⟨-, hold⟩
      · exact filed_listing added k r hlisted
      · exact h k r hold

theorem filed_calls (calls : List (Call κ (Finset κ) ρ)) :
    Filed key (calls.foldl (Call.effect key) fun _ => none) :=
  List.foldlRecOn calls (Call.effect key) filed_empty fun _ h call _ => h.effect call

/-! ## What the index holds -/

/-- Between segments: the tracker is as it should be, and the index has the reference
contents, and something under the keys that were left behind. -/
structure Follows (s : Cluster κ ρ) (index c : Contents κ ρ) (left : κ → Prop) : Prop where
  mirrors : Mirrors s c
  agrees : ∀ k, ¬ left k → index k = c k
  leftover : ∀ k, left k → c k = none ∧ (index k).isSome

/-- What is under a key after the `reset` of a list, with resources from before. -/
theorem effect_reset (index : Contents κ ρ) (keys : Finset κ) (collected listed : List ρ)
    (k : κ) :
    Call.effect key index (.reset (collected ++ listed) (keys \ keysOf key listed)) k =
      (listing key listed k).or
        (if k ∈ keys then none else (listing key collected k).or (index k)) := by
  simp only [Call.effect, Finset.mem_sdiff, listing_append]
  by_cases hlisted : k ∈ keysOf key listed
  · obtain ⟨r, hr⟩ := Option.isSome_iff_exists.mp (isSome_listing_iff.mpr hlisted)
    simp [hlisted, hr]
  · rw [listing_eq_none_iff.mpr hlisted]
    simp [hlisted]

/-- An update, which is a block of one event and one call, puts its key right and changes
nothing else. -/
theorem Follows.update {s t : Cluster κ ρ} {index c : Contents κ ρ} {left left' : κ → Prop}
    (h : Follows s index c left) {block : Block ρ} (hkeyed : Keyed key block.resources)
    {call : Call κ (Finset κ) ρ} (hrun : s.run key block.events = some (t, [call])) {k : κ}
    {value : Option ρ} (hblock : block.on key c = Function.update c k value)
    (hcall : call.effect key index = Function.update index k value)
    (hleft : ∀ k', left' k' ↔ left k' ∧ k ≠ k') :
    Follows t (call.effect key index) (block.on key c) left' := by
  obtain ⟨t', calls, hrun', hmirrors, -⟩ := run_block h.mirrors hkeyed
  obtain ⟨rfl, -⟩ := Prod.mk.inj (Option.some.inj (hrun'.symm.trans hrun))
  refine ⟨hmirrors, ?_, ?_⟩
  · intro k' hnot
    rw [hcall, hblock]
    by_cases hk : k' = k
    · subst hk
      rw [Function.update_self, Function.update_self]
    · rw [Function.update_of_ne hk, Function.update_of_ne hk]
      exact h.agrees k' fun hold => hnot ((hleft k').mpr ⟨hold, Ne.symm hk⟩)
  · intro k' hnew
    obtain ⟨hold, hk⟩ := (hleft k').mp hnew
    rw [hcall, hblock, Function.update_of_ne (Ne.symm hk), Function.update_of_ne (Ne.symm hk)]
    exact h.leftover k' hold

/-- Under a key that is not listed in the end, something is left after a list exactly if
the list leaves it behind, or it was left before and is not put right. -/
theorem Follows.left_iff {s : Cluster κ ρ} {index c : Contents κ ρ} {left : κ → Prop}
    (h : Follows s index c left) {attempts : List (List ρ)} {listed : List ρ} {keys : Finset κ}
    (hkeys : keys = (attempts.getLast?.map (keysOf key)).getD s.keys) {k : κ}
    (hlisted : k ∉ keysOf key listed) :
    ((Segment.relist attempts listed).LeavesBehind key c k ∨
        left k ∧ ¬ (Segment.relist attempts listed).Settles key k) ↔
      k ∉ keys ∧ ((listing key attempts.flatten k).or (index k)).isSome := by
  have hsome : (index k).isSome ↔ (c k).isSome ∨ left k := by
    by_cases hleft : left k
    · simp [hleft, (h.leftover k hleft).2]
    · simp [hleft, h.agrees k hleft]
  rcases List.eq_nil_or_concat attempts with rfl | ⟨earlier, last, rfl⟩
  · -- Without attempts the tracker knows the keys that were there.
    have hthere : k ∈ keys ↔ (c k).isSome := by
      rw [hkeys]
      exact h.mirrors.keys k
    have hnone : left k → ¬ (c k).isSome := fun hleft => by simp [(h.leftover k hleft).1]
    simp only [Segment.LeavesBehind, Segment.Settles, List.getLast?_nil, List.flatten_nil, hthere]
    simp only [reduceCtorEq, false_and, exists_false, or_false, hlisted, not_false_eq_true,
      and_true, false_or, listing, List.foldl_nil, Option.none_or, hsome]
    tauto
  · rw [List.concat_eq_append] at hkeys ⊢
    rw [List.getLast?_concat, Option.map_some, Option.getD_some] at hkeys
    have hflat : keysOf key (earlier ++ [last]).flatten =
        keysOf key earlier.flatten ∪ keysOf key last := by
      rw [List.flatten_append, keysOf_append]
      simp
    simp only [Segment.LeavesBehind, Segment.Settles, List.getLast?_concat, List.dropLast_concat,
      Option.some.injEq, exists_eq_left', hlisted, not_false_eq_true, and_true, false_or, hkeys,
      Option.isSome_or, Bool.or_eq_true, isSome_listing_iff, hflat, Finset.mem_union, hsome]
    tauto

/-- A list that is complete, after attempts. -/
theorem Follows.relist {s : Cluster κ ρ} {index c : Contents κ ρ} {left : κ → Prop}
    (h : Follows s index c left) {attempts : List (List ρ)} {listed : List ρ}
    (hkeyed : Keyed key (attempts.flatten ++ listed)) :
    ∃ t calls, s.run key (Segment.relist attempts listed).events = some (t, calls) ∧
      Follows t (calls.foldl (Call.effect key) index) (listing key listed) fun k =>
        (Segment.relist attempts listed).LeavesBehind key c k ∨
          left k ∧ ¬ (Segment.relist attempts listed).Settles key k := by
  obtain ⟨mid, hmid, hadded, hkeys⟩ := run_abandoned_cycles s
    (show Keyed key attempts.flatten from fun r hr => hkeyed r (List.mem_append_left _ hr))
  have hcycle := Cluster.run_cycle mid
    (show Keyed key listed from fun r hr => hkeyed r (List.mem_append_right _ hr))
  rw [hadded, h.mirrors.added, List.nil_append] at hcycle
  have hrun := Transducer.run_append hmid hcycle
  rw [List.nil_append] at hrun
  have hvalue : ∀ k, Call.effect key index (.reset _ _) k = _ :=
    effect_reset index mid.keys attempts.flatten listed
  refine ⟨_, _, hrun, ⟨fun k => isSome_listing_iff.symm, rfl⟩, ?_, ?_⟩
  · intro k hleft
    rw [List.foldl_cons, List.foldl_nil, hvalue]
    by_cases hlisted : k ∈ keysOf key listed
    · obtain ⟨r, hr⟩ := Option.isSome_iff_exists.mp (isSome_listing_iff.mpr hlisted)
      rw [hr, Option.some_or]
    · rw [h.left_iff hkeys hlisted] at hleft
      rw [listing_eq_none_iff.mpr hlisted, Option.none_or]
      by_cases hk : k ∈ mid.keys
      · rw [if_pos hk]
      · rw [if_neg hk]
        exact Option.not_isSome_iff_eq_none.mp fun hsome => hleft ⟨hk, hsome⟩
  · intro k hleft
    have hlisted : k ∉ keysOf key listed := by
      rcases hleft with ⟨_, _, _, _, hlisted⟩ | ⟨-, hsettles⟩
      · exact hlisted
      · exact fun hlisted => hsettles (.inl hlisted)
    obtain ⟨hk, hsome⟩ := (h.left_iff hkeys hlisted).mp hleft
    refine ⟨listing_eq_none_iff.mpr hlisted, ?_⟩
    rw [List.foldl_cons, List.foldl_nil, hvalue, listing_eq_none_iff.mpr hlisted,
      Option.none_or, if_neg hk]
    exact hsome

/-- Every segment leads from the reference contents before it to those after it, and leaves
behind what it is said to. -/
theorem Follows.segment {s : Cluster κ ρ} {index c : Contents κ ρ} {left : κ → Prop}
    (h : Follows s index c left) (segment : Segment ρ) (hkeyed : Keyed key segment.resources) :
    ∃ t calls, s.run key segment.events = some (t, calls) ∧
      Follows t (calls.foldl (Call.effect key) index) (segment.block.on key c) fun k =>
        segment.LeavesBehind key c k ∨ left k ∧ ¬ segment.Settles key k := by
  cases segment with
  | relist attempts listed => exact h.relist hkeyed
  | apply r =>
      obtain ⟨k, hk⟩ := Option.isSome_iff_exists.mp (hkeyed r (List.mem_singleton_self r))
      have hstep : s.step key (.apply r) =
          some ({ s with keys := insert k s.keys }, [.apply r]) := by
        simp [Cluster.step, hk]
      have hrun : s.run key (Block.apply r).events = _ :=
        (Transducer.run_singleton s _).trans hstep
      exact ⟨_, _, hrun, h.update hkeyed hrun (put_of_some hk c) (put_of_some hk index)
        fun k' => by simp [Segment.LeavesBehind, Segment.Settles, hk]⟩
  | delete r =>
      obtain ⟨k, hk⟩ := Option.isSome_iff_exists.mp (hkeyed r (List.mem_singleton_self r))
      have hstep : s.step key (.delete r) =
          some ({ s with keys := s.keys.erase k }, [.delete k]) := by
        simp [Cluster.step, hk]
      have hrun : s.run key (Block.delete r).events = _ :=
        (Transducer.run_singleton s _).trans hstep
      have hblock : (Block.delete r).on key c = Function.update c k none := by
        simp [Block.on, hk, remove]
      exact ⟨_, _, hrun, h.update hkeyed hrun hblock rfl
        fun k' => by simp [Segment.LeavesBehind, Segment.Settles, hk]⟩

/-- Any number of segments, and the attempts of a list that is not complete. -/
theorem follows_watch {segments : List (Segment ρ)} {attempts : List (List ρ)}
    (hkeyed : Keyed key (segments.flatMap Segment.resources ++ attempts.flatten)) :
    ∃ s t calls, Cluster.initial.run key (watchEvents segments attempts) = some (t, calls) ∧
      Follows s (calls.foldl (Call.effect key) fun _ => none)
        (contents key (segments.map Segment.block)) (LeftBehind key segments) := by
  obtain ⟨s, calls, hrun, hfollows⟩ : ∃ s calls,
      Cluster.initial.run key (segments.flatMap Segment.events) = some (s, calls) ∧
      Follows s (calls.foldl (Call.effect key) fun _ => none)
        (contents key (segments.map Segment.block)) (LeftBehind key segments) := by
    replace hkeyed : Keyed key (segments.flatMap Segment.resources) := fun r hr =>
      hkeyed r (List.mem_append_left _ hr)
    induction segments using List.reverseRecOn with
    | nil =>
        refine ⟨_, _, rfl, mirrors_initial, fun _ _ => rfl, ?_⟩
        rintro k ⟨before, segment, after, hsplit, -⟩
        exact absurd hsplit (by simp)
    | append_singleton segments segment ih =>
        rw [List.flatMap_append] at hkeyed ⊢
        obtain ⟨s, calls, hrun, h⟩ := ih fun r hr => hkeyed r (List.mem_append_left _ hr)
        obtain ⟨t, more, hmore, h'⟩ := h.segment segment fun r hr =>
          hkeyed r (List.mem_append_right _ (by simpa using hr))
        refine ⟨t, calls ++ more, ?_, ?_⟩
        · exact Transducer.run_append hrun (by simpa [Cluster.run] using hmore)
        · rw [List.foldl_append]
          have hcontents : contents key ((segments ++ [segment]).map Segment.block) =
              segment.block.on key (contents key (segments.map Segment.block)) := by
            simp [contents]
          have hleft : LeftBehind key (segments ++ [segment]) = _ :=
            funext fun k => propext leftBehind_concat
          rw [hcontents, hleft]
          exact h'
  obtain ⟨t, hattempts, -⟩ := run_abandoned_cycles s
    (show Keyed key attempts.flatten from fun r hr => hkeyed r (List.mem_append_right _ hr))
  refine ⟨s, t, calls, ?_, hfollows⟩
  have hwhole := Transducer.run_append hrun hattempts
  rwa [List.append_nil] at hwhole

/-- The index that was followed, without the tracker. -/
theorem index_of_watch {segments : List (Segment ρ)} {attempts : List (List ρ)}
    (hkeyed : Keyed key (segments.flatMap Segment.resources ++ attempts.flatten)) :
    ∃ index, (Cluster.initial.run key (watchEvents segments attempts)).map
        (fun result => result.2.foldl (Call.effect key) fun _ => none) = some index ∧
      Filed key index ∧
      ∀ k, (index k = contents key (segments.map Segment.block) k ↔
          ¬ LeftBehind key segments k) ∧
        (LeftBehind key segments k → contents key (segments.map Segment.block) k = none) := by
  obtain ⟨s, t, calls, hrun, h⟩ := follows_watch hkeyed
  refine ⟨_, by rw [hrun, Option.map_some], filed_calls calls, ?_⟩
  intro k
  refine ⟨⟨?_, h.agrees k⟩, fun hleft => (h.leftover k hleft).1⟩
  intro heq hleft
  obtain ⟨hnone, hsome⟩ := h.leftover k hleft
  rw [heq, hnone] at hsome
  cases hsome

/-- After every watch, with any number of lists that were cut short, anywhere, and also
while a list is going on: the index agrees with the reference contents under a key exactly
if the key was not left behind, and where it was the reference has nothing.  This holds
for both kinds of resources and for any order of iteration. -/
theorem index_agrees_iff_not_left_behind (segments : List (Segment ρ))
    (attempts : List (List ρ)) :
    (∀ (name : ρ → Option κ) (iter : Iteration κ),
      Keyed name (segments.flatMap Segment.resources ++ attempts.flatten) →
      ∃ index, clusterIndex name iter (watchEvents segments attempts) = some index ∧
        ∀ k, (index k = contents name (segments.map Segment.block) k ↔
            ¬ LeftBehind name segments k) ∧
          (LeftBehind name segments k →
            contents name (segments.map Segment.block) k = none)) ∧
    (∀ (namespaceOf : ρ → Option ν) (name : ρ → Option μ)
        (entries : Iteration (Sigma fun _ : ν => Finset μ)) (names : ν → Iteration μ),
      Keyed (Namespaced.keyOf namespaceOf name)
        (segments.flatMap Segment.resources ++ attempts.flatten) →
      ∃ index,
        namespacedIndex namespaceOf name entries names (watchEvents segments attempts) =
          some index ∧
        ∀ k, (index k =
              contents (Namespaced.keyOf namespaceOf name) (segments.map Segment.block) k ↔
            ¬ LeftBehind (Namespaced.keyOf namespaceOf name) segments k) ∧
          (LeftBehind (Namespaced.keyOf namespaceOf name) segments k →
            contents (Namespaced.keyOf namespaceOf name) (segments.map Segment.block) k =
              none)) := by
  constructor
  · intro name iter hkeyed
    obtain ⟨index, hindex, -, hkeys⟩ := index_of_watch hkeyed
    exact ⟨index, (clusterIndex_eq name iter _).trans hindex, hkeys⟩
  · intro namespaceOf name entries names hkeyed
    obtain ⟨index, hindex, -, hkeys⟩ := index_of_watch hkeyed
    exact ⟨index, (namespacedIndex_eq namespaceOf name entries names _).trans hindex, hkeys⟩

/-- A pod is listed.  The list that shows that it is gone was begun twice; after it there
is a second pod, and one more list. -/
def podGone : List (Segment Pod) :=
  [.relist [] [("default", "pod-0")], .relist [[]] [], .apply ("default", "pod-1"),
    .relist [] [("default", "pod-1")]]

theorem leftBehind_podGone : LeftBehind podKey podGone ("default", "pod-0") := by
  refine ⟨[.relist [] [("default", "pod-0")]], .relist [[]] [],
    [.apply ("default", "pod-1"), .relist [] [("default", "pod-1")]], rfl, ?_, ?_⟩
  · exact ⟨[], rfl, .inl rfl, by decide, by decide⟩
  · intro later hlater
    rcases List.mem_pair.mp hlater with rfl | rfl
    · exact show podKey ("default", "pod-1") ≠ some ("default", "pod-0") by decide
    · rintro (hlisted | ⟨last, hlast, -⟩)
      · exact absurd hlisted (by decide)
      · cases hlast

/-- The pod that is gone is still in the index after the last list, which does not name
it. -/
theorem gone_pod_left_behind :
    ∃ index, namespacedIndex podNamespace podName (Iteration.arbitrary _)
        (fun _ => Iteration.arbitrary _) (watchEvents podGone []) = some index ∧
      contents podKey (podGone.map Segment.block) ("default", "pod-0") = none ∧
      index ("default", "pod-0") ≠ none := by
  obtain ⟨index, hindex, hkeys⟩ :=
    (index_agrees_iff_not_left_behind (κ := String) podGone []).2 podNamespace podName
      (Iteration.arbitrary _) (fun _ => Iteration.arbitrary _) (by intro r _; rfl)
  obtain ⟨hagrees, hnone⟩ := hkeys ("default", "pod-0")
  refine ⟨index, hindex, hnone leftBehind_podGone, ?_⟩
  intro hgone
  exact hagrees.mp (hgone.trans (hnone leftBehind_podGone).symm) leftBehind_podGone

end Index
end Kubert
