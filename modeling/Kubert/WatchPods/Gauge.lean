import Kubert.Index.Restarts

/-!
# The gauge of `watch_pods`

The program `watch_pods` follows a watch of pods, and exports how many there are.  It
does not count: the gauge goes up when a pod is added and down when one is deleted, and
to tell the two apart the program keeps the pods that it knows and, during a list, those
that were known before and have not been listed again.

`leaked` is what the gauge keeps for ever: a list that is cut short and started over
forgets the pods that were waiting to be listed again, and a pod that is listed twice is
added twice.  `drift` is the difference between the gauge and the pods that the program
holds; along every sequence of events it is what has leaked, and never goes down.

A watch is made of `Segment`s: updates, and lists with the attempts that were cut short
before them.  After any number of segments the known pods are those of the reference contents,
and the gauge counts them exactly if every list was faithful.
-/

namespace Kubert
namespace WatchPods

open Foundation
open Kubert.Index (Event Block Contents Keyed Segment keysOf contents)

universe u v

variable {κ : Type u} {ρ : Type v}

/-! ## The loop -/

/-- `Metrics`. -/
structure Metrics where
  eventsRestart : Nat
  eventsApply : Nat
  eventsDelete : Nat
  currentPods : Int
  totalPods : Nat
deriving DecidableEq, Repr

/-- The local variables of the loop, and the metrics. -/
structure Pods (κ : Type u) where
  known : Finset κ
  prior : Finset κ
  metrics : Metrics
deriving DecidableEq

namespace Pods

/-- Before the first event. -/
def initial : Pods κ := ⟨∅, ∅, ⟨0, 0, 0, 0, 0⟩⟩

/-- `current_pods` and `total_pods` go up. -/
def added (m : Metrics) : Metrics :=
  { m with currentPods := m.currentPods + 1, totalPods := m.totalPods + 1 }

/-- `current_pods` goes down. -/
def deleted (m : Metrics) (count : Nat) : Metrics :=
  { m with currentPods := m.currentPods - count }

variable [DecidableEq κ] (key : ρ → Option κ)

/-- One round of the loop; a pod without a namespace or a name is a panic. -/
def step (s : Pods κ) : Event ρ → Option (Pods κ)
  -- `mem::take(&mut known)`; what was left in `prior` is gone.
  | .init => some { s with known := ∅, prior := s.known }
  | .initApply pod => (key pod).map fun k =>
      let m := { s.metrics with eventsRestart := s.metrics.eventsRestart + 1 }
      { known := insert k s.known
        prior := s.prior.erase k
        metrics := if k ∈ s.prior then m else added m }
  | .initDone => some { s with prior := ∅, metrics := deleted s.metrics s.prior.card }
  | .apply pod => (key pod).map fun k =>
      let m := { s.metrics with eventsApply := s.metrics.eventsApply + 1 }
      { s with
        known := insert k s.known
        metrics := if k ∈ s.known then m else added m }
  | .delete pod => (key pod).map fun k =>
      let m := { s.metrics with eventsDelete := s.metrics.eventsDelete + 1 }
      { s with
        known := s.known.erase k
        metrics := if k ∈ s.known then deleted m 1 else m }

/-- The loop, over the events of the stream; with `exit` it ends after the first one. -/
def watch (exit : Bool) (s : Pods κ) (events : List (Event ρ)) : Option (Pods κ) :=
  execAll (step key) s (if exit then events.take 1 else events)

/-! ## What leaks -/

/-- What an event adds to the gauge for ever. -/
def leak (s : Pods κ) : Event ρ → Nat
  | .init => s.prior.card
  | .initApply pod => ((key pod).elim 0 fun k => if k ∈ s.known then 1 else 0)
  | _ => 0

/-- What the events add to the gauge for ever. -/
def leaked : Pods κ → List (Event ρ) → Nat
  | _, [] => 0
  | s, event :: events =>
      s.leak key event + (s.step key event).elim 0 fun t => leaked t events

/-- What the gauge shows beyond the pods that are known or may be listed again. -/
def drift (s : Pods κ) : Int := s.metrics.currentPods - s.known.card - s.prior.card

variable {key}

theorem drift_step {s t : Pods κ} {event : Event ρ} (hstep : s.step key event = some t) :
    t.drift = s.drift + s.leak key event := by
  cases event with
  | init =>
      obtain rfl := Option.some.inj hstep
      simp only [drift, leak, Finset.card_empty]
      omega
  | initDone =>
      obtain rfl := Option.some.inj hstep
      simp only [drift, leak, deleted, Finset.card_empty]
      omega
  | initApply pod =>
      obtain ⟨k, hkey, rfl⟩ := Option.map_eq_some_iff.mp hstep
      have hknown := Finset.card_insert_eq_ite (s := s.known) (a := k)
      by_cases hprior : k ∈ s.prior
      · have hcard := Finset.card_erase_add_one hprior
        simp only [drift, leak, hkey, if_pos hprior, Option.elim_some]
        split at hknown <;> rename_i h <;> simp only [h, if_true, if_false] <;> omega
      · simp only [drift, leak, hkey, if_neg hprior, Finset.erase_eq_of_notMem hprior, added,
          Option.elim_some]
        split at hknown <;> rename_i h <;> simp only [h, if_true, if_false] <;> omega
  | apply pod =>
      obtain ⟨k, hkey, rfl⟩ := Option.map_eq_some_iff.mp hstep
      by_cases hknown : k ∈ s.known
      · simp only [drift, leak, if_pos hknown, Finset.insert_eq_of_mem hknown]
        omega
      · simp only [drift, leak, if_neg hknown, Finset.card_insert_of_notMem hknown, added]
        omega
  | delete pod =>
      obtain ⟨k, hkey, rfl⟩ := Option.map_eq_some_iff.mp hstep
      by_cases hknown : k ∈ s.known
      · have hcard := Finset.card_erase_add_one hknown
        simp only [drift, leak, if_pos hknown, deleted]
        omega
      · simp only [drift, leak, if_neg hknown, Finset.erase_eq_of_notMem hknown]
        omega

/-- Whatever the events are, the gauge drifts by what leaks. -/
theorem drift_of_execAll {s t : Pods κ} {events : List (Event ρ)}
    (hrun : execAll (step key) s events = some t) :
    t.drift = s.drift + leaked key s events := by
  induction events generalizing s with
  | nil =>
      obtain rfl := Option.some.inj hrun
      simp [leaked]
  | cons event events ih =>
      obtain ⟨mid, hstep, hrest⟩ := Option.bind_eq_some_iff.mp hrun
      rw [ih hrest, drift_step hstep, leaked, hstep, Option.elim_some]
      omega

theorem leaked_append {s t : Pods κ} {first second : List (Event ρ)}
    (hrun : execAll (step key) s first = some t) :
    leaked key s (first ++ second) = leaked key s first + leaked key t second := by
  induction first generalizing s with
  | nil =>
      obtain rfl := Option.some.inj hrun
      simp [leaked]
  | cons event first ih =>
      obtain ⟨mid, hstep, hrest⟩ := Option.bind_eq_some_iff.mp hrun
      rw [List.cons_append, leaked, leaked, hstep, Option.elim_some, Option.elim_some, ih hrest]
      omega

/-! ## Lists -/

/-- Pods are listed one by one.  Nothing leaks if none of them is known, and none is listed
twice. -/
theorem run_initApply (s : Pods κ) {pods : List ρ} (hkeyed : Keyed key pods) :
    ∃ t, execAll (step key) s (pods.map .initApply) = some t ∧
      t.known = s.known ∪ keysOf key pods ∧ t.prior = s.prior \ keysOf key pods ∧
      (leaked key s (pods.map .initApply) = 0 ↔
        (pods.filterMap key).Nodup ∧ Disjoint s.known (keysOf key pods)) := by
  induction pods generalizing s with
  | nil => exact ⟨s, rfl, by simp [keysOf], by simp [keysOf], by simp [leaked, keysOf]⟩
  | cons pod pods ih =>
      obtain ⟨hpod, hpods⟩ := List.forall_mem_cons.mp hkeyed
      obtain ⟨k, hk⟩ := Option.isSome_iff_exists.mp hpod
      have hkeys : keysOf key (pod :: pods) = insert k (keysOf key pods) := by
        ext x
        simp [Index.mem_keysOf, hk, eq_comm]
      obtain ⟨mid, hstep, hknown, hprior⟩ : ∃ mid, s.step key (.initApply pod) = some mid ∧
          mid.known = insert k s.known ∧ mid.prior = s.prior.erase k :=
        ⟨_, Option.map_eq_some_iff.mpr ⟨k, hk, rfl⟩, rfl, rfl⟩
      obtain ⟨t, hrun, htknown, htprior, hleak⟩ := ih mid hpods
      refine ⟨t, ?_, ?_, ?_, ?_⟩
      · rw [List.map_cons, execAll, hstep]
        exact hrun
      · rw [htknown, hknown, hkeys, Finset.insert_union, Finset.union_insert]
      · rw [htprior, hprior, hkeys, Finset.sdiff_insert, Finset.erase_sdiff_comm]
      · rw [List.map_cons, leaked, hstep, Option.elim_some, Nat.add_eq_zero_iff, hleak, hknown,
          hkeys, List.filterMap_cons_some hk, List.nodup_cons]
        have hmem : k ∈ keysOf key pods ↔ k ∈ pods.filterMap key := List.mem_toFinset
        simp only [leak, hk, Option.elim_some, Finset.disjoint_insert_left,
          Finset.disjoint_insert_right, hmem, ite_eq_right_iff, one_ne_zero, imp_false]
        tauto

/-- A list from its beginning on. -/
theorem run_attempt (s : Pods κ) {pods : List ρ} (hkeyed : Keyed key pods) :
    ∃ t, execAll (step key) s (Index.abandonedEvents pods) = some t ∧
      t.known = keysOf key pods ∧ t.prior = s.known \ keysOf key pods ∧
      (leaked key s (Index.abandonedEvents pods) = 0 ↔
        s.prior = ∅ ∧ (pods.filterMap key).Nodup) := by
  obtain ⟨t, hrun, hknown, hprior, hleak⟩ :=
    run_initApply { s with known := ∅, prior := s.known } hkeyed
  refine ⟨t, hrun, ?_, hprior, ?_⟩
  · rw [hknown, Finset.empty_union]
  · rw [Index.abandonedEvents, leaked, Nat.add_eq_zero_iff]
    change s.prior.card = 0 ∧ leaked key _ (pods.map .initApply) = 0 ↔ _
    rw [hleak, Finset.card_eq_zero]
    simp

end Pods

/-! ## Faithful lists -/

section Faithful

variable [DecidableEq κ] (key : ρ → Option κ)

/-- No list names a pod twice, and every attempt that fails has already listed all pods
that were known when it began. -/
def FaithfulLists : Contents κ ρ → List (List ρ) → List ρ → Prop
  | _, [], listed => (listed.filterMap key).Nodup
  | c, attempt :: attempts, listed =>
      (attempt.filterMap key).Nodup ∧ (∀ k, (c k).isSome → k ∈ keysOf key attempt) ∧
        FaithfulLists (Index.listing key attempt) attempts listed

/-- Updates are always faithful. -/
def Faithful (c : Contents κ ρ) : Segment ρ → Prop
  | .relist attempts listed => FaithfulLists key c attempts listed
  | _ => True

/-- Every segment is faithful to the contents before it. -/
def AllFaithful : Contents κ ρ → List (Segment ρ) → Prop
  | _, [] => True
  | c, segment :: segments =>
      Faithful key c segment ∧ AllFaithful (segment.block.on key c) segments

end Faithful

section Runs

variable [DecidableEq κ] {key : ρ → Option κ}

open Pods

/-- The program knows the pods of the contents. -/
def Knows (s : Pods κ) (c : Contents κ ρ) : Prop := ∀ k, k ∈ s.known ↔ (c k).isSome

theorem knows_listing {s : Pods κ} {pods : List ρ} (hknown : s.known = keysOf key pods) :
    Knows s (Index.listing key pods) := by
  intro k
  rw [hknown, Index.isSome_listing_iff]

/-- Attempts that fail, and a list that does not. -/
theorem run_relist {s : Pods κ} {c : Contents κ ρ} (hknows : Knows s c)
    (attempts : List (List ρ)) (listed : List ρ) (hkeyed : Keyed key (attempts.flatten ++ listed)) :
    ∃ t, execAll (step key) s (Segment.relist attempts listed).events = some t ∧
      t.known = keysOf key listed ∧ t.prior = ∅ ∧
      (leaked key s (Segment.relist attempts listed).events = 0 ↔
        s.prior = ∅ ∧ FaithfulLists key c attempts listed) := by
  induction attempts generalizing s c with
  | nil =>
      obtain ⟨t, hrun, hknown, -, hleak⟩ := run_attempt s (show Keyed key listed from hkeyed)
      have hdone : execAll (step key) t ([.initDone] : List (Event ρ)) =
          some { t with prior := ∅, metrics := deleted t.metrics t.prior.card } := rfl
      refine ⟨{ t with prior := ∅, metrics := deleted t.metrics t.prior.card }, ?_, hknown,
        rfl, ?_⟩
      · change execAll (step key) s (Index.abandonedEvents listed ++ [.initDone]) = _
        rw [execAll_append, hrun]
        exact hdone
      · change leaked key s (Index.abandonedEvents listed ++ [.initDone]) = 0 ↔ _
        rw [leaked_append hrun]
        exact hleak
  | cons attempt attempts ih =>
      rw [List.flatten_cons, List.append_assoc] at hkeyed
      obtain ⟨mid, hrun, hknown, hprior, hleak⟩ := run_attempt s
        (show Keyed key attempt from fun r hr => hkeyed r (List.mem_append_left _ hr))
      obtain ⟨t, hrest, htknown, htprior, hrestLeak⟩ := ih (knows_listing hknown)
        fun r hr => hkeyed r (List.mem_append_right _ hr)
      have hevents : (Segment.relist (attempt :: attempts) listed).events =
          Index.abandonedEvents attempt ++ (Segment.relist attempts listed).events := by
        simp [Segment.events]
      have hempty : mid.prior = ∅ ↔ ∀ k, (c k).isSome → k ∈ keysOf key attempt := by
        rw [hprior, Finset.sdiff_eq_empty_iff_subset, Finset.subset_iff]
        simp only [hknows _]
      refine ⟨t, ?_, htknown, htprior, ?_⟩
      · rw [hevents, execAll_append, hrun]
        exact hrest
      · rw [hevents, leaked_append hrun, Nat.add_eq_zero_iff, hleak, hrestLeak, hempty]
        simp only [FaithfulLists, and_assoc]

/-- A segment leaves the pods of its contents behind, and leaks nothing exactly if it is
faithful. -/
theorem run_segment {s : Pods κ} {c : Contents κ ρ} (hknows : Knows s c) (hprior : s.prior = ∅)
    (segment : Segment ρ) (hkeyed : Keyed key segment.resources) :
    ∃ t, execAll (step key) s segment.events = some t ∧ t.prior = ∅ ∧
      Knows t (segment.block.on key c) ∧
      (leaked key s segment.events = 0 ↔ Faithful key c segment) := by
  cases segment with
  | apply pod =>
      obtain ⟨k, hk⟩ := Option.isSome_iff_exists.mp (hkeyed pod (List.mem_singleton_self pod))
      obtain ⟨t, hstep, hknown, htprior⟩ : ∃ t, s.step key (.apply pod) = some t ∧
          t.known = insert k s.known ∧ t.prior = s.prior :=
        ⟨_, Option.map_eq_some_iff.mpr ⟨k, hk, rfl⟩, rfl, rfl⟩
      refine ⟨t, ?_, htprior.trans hprior, ?_, ?_⟩
      · rw [Segment.events, execAll, hstep]
        rfl
      · intro x
        rw [hknown, Finset.mem_insert, hknows, Segment.block, Block.on, Index.put_of_some hk]
        by_cases hx : x = k
        · simp [hx]
        · simp [hx]
      · simp [Segment.events, Faithful, leaked, leak, hstep]
  | delete pod =>
      obtain ⟨k, hk⟩ := Option.isSome_iff_exists.mp (hkeyed pod (List.mem_singleton_self pod))
      obtain ⟨t, hstep, hknown, htprior⟩ : ∃ t, s.step key (.delete pod) = some t ∧
          t.known = s.known.erase k ∧ t.prior = s.prior :=
        ⟨_, Option.map_eq_some_iff.mpr ⟨k, hk, rfl⟩, rfl, rfl⟩
      refine ⟨t, ?_, htprior.trans hprior, ?_, ?_⟩
      · rw [Segment.events, execAll, hstep]
        rfl
      · intro x
        rw [hknown, Finset.mem_erase, hknows, Segment.block]
        simp only [Block.on, hk, Index.remove]
        by_cases hx : x = k
        · simp [hx]
        · simp [hx]
      · simp [Segment.events, Faithful, leaked, leak, hstep]
  | relist attempts listed =>
      obtain ⟨t, hrun, hknown, htprior, hleak⟩ := run_relist hknows attempts listed hkeyed
      refine ⟨t, hrun, htprior, knows_listing hknown, ?_⟩
      rw [hleak]
      exact and_iff_right hprior

/-- So does a whole watch. -/
theorem run_segments {s : Pods κ} {c : Contents κ ρ} (hknows : Knows s c) (hprior : s.prior = ∅)
    (segments : List (Segment ρ)) (hkeyed : Keyed key (segments.flatMap Segment.resources)) :
    ∃ t, execAll (step key) s (segments.flatMap Segment.events) = some t ∧ t.prior = ∅ ∧
      Knows t ((segments.map Segment.block).foldl (Block.on key) c) ∧
      (leaked key s (segments.flatMap Segment.events) = 0 ↔
        AllFaithful key c segments) := by
  induction segments generalizing s c with
  | nil => exact ⟨s, rfl, hprior, hknows, by simp [leaked, AllFaithful]⟩
  | cons segment segments ih =>
      rw [List.flatMap_cons] at hkeyed
      obtain ⟨mid, hrun, hmid, hknows', hleak⟩ := run_segment hknows hprior segment
        fun r hr => hkeyed r (List.mem_append_left _ hr)
      obtain ⟨t, hrest, htprior, htknows, hrestLeak⟩ := ih hknows' hmid
        fun r hr => hkeyed r (List.mem_append_right _ hr)
      refine ⟨t, ?_, htprior, htknows, ?_⟩
      · rw [List.flatMap_cons, execAll_append, hrun]
        exact hrest
      · rw [List.flatMap_cons, leaked_append hrun, Nat.add_eq_zero_iff, hleak, hrestLeak]
        rfl

/-- After every watch, whatever lists have failed: the program knows the pods of the
reference contents and waits for none; the gauge is never below their number, and it is
their number exactly if no list named a pod twice and every list that was cut short had
already listed all pods that were known when it began. -/
theorem gauge_counts_pods_iff (segments : List (Segment ρ))
    (hkeyed : Keyed key (segments.flatMap Segment.resources)) :
    ∃ s, Pods.watch key false Pods.initial (segments.flatMap Segment.events) = some s ∧
      s.prior = ∅ ∧
      (∀ k, k ∈ s.known ↔ (contents key (segments.map Segment.block) k).isSome) ∧
      (s.known.card : Int) ≤ s.metrics.currentPods ∧
      (s.metrics.currentPods = s.known.card ↔
        AllFaithful key (fun _ => none) segments) := by
  have hstart : Knows (Pods.initial : Pods κ) (fun _ => none : Contents κ ρ) := by
    intro k
    simp [Pods.initial]
  obtain ⟨s, hrun, hprior, hknows, hleak⟩ := run_segments hstart rfl segments hkeyed
  have hdrift := drift_of_execAll hrun
  have hinitial : (Pods.initial : Pods κ).drift = 0 := rfl
  rw [hinitial, drift, hprior, Finset.card_empty] at hdrift
  refine ⟨s, hrun, hprior, hknows, by omega, ?_⟩
  rw [← hleak]
  omega

end Runs

/-- Two pods are listed.  The next list is cut short after the first pod, and the second
one is gone when it is completed. -/
def cutShort : List (Segment Index.Pod) :=
  [.relist [] [("default", "pod-a"), ("default", "pod-b")],
    .relist [[("default", "pod-a")]] [("default", "pod-a")]]

/-- The gauge goes on counting the second pod. -/
theorem cut_short_counts_too_many :
    ∃ s, Pods.watch Index.podKey false Pods.initial (cutShort.flatMap Segment.events) = some s ∧
      s.known = {("default", "pod-a")} ∧ (s.known.card : Int) < s.metrics.currentPods := by
  obtain ⟨s, hrun, -, hknown, hle, hiff⟩ :=
    gauge_counts_pods_iff cutShort (show Keyed Index.podKey _ from fun pod _ => rfl)
  refine ⟨s, hrun, ?_, lt_of_le_of_ne hle ?_⟩
  · have heval := congrArg (Option.map Pods.known) hrun
    exact Option.some.inj (heval.symm.trans (by decide))
  · intro heq
    obtain ⟨-, ⟨-, hlisted, -⟩, -⟩ := hiff.mp heq.symm
    exact absurd (hlisted ("default", "pod-b") rfl) (by decide)

end WatchPods
end Kubert
