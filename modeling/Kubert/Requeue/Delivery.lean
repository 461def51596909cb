import Kubert.Foundation.Matching
import Kubert.Requeue.Deadlines

/-!
# Requeued objects are delivered exactly once

To an object, a requeue of it that is processed arms something, a cancellation or a
clearing disarms it, and a yield fires it.  Along every run of a channel the object
has a deadline exactly while it is armed, so that the theory of matching applies:
each yield belongs to the requeue that was processed last before it.

When the receiver has reached the end of the channel and nothing has a deadline any
more, this is a one-to-one correspondence, and nothing but the end is ever observed
again.
-/

namespace Kubert
namespace Requeue

open Foundation

universe u

variable {T : Type u} [DecidableEq T]

/-- What an observation does to an object. -/
def mark (x : T) : Obs T → Mark
  | .processed (.requeue y _) => if y = x then .arm else .skip
  | .processed (.cancel y) => if y = x then .disarm else .skip
  | .processed .clear => .disarm
  | .yielded y _ => if y = x then .fire else .skip
  | .sent _ | .exhausted | .pending => .skip

theorem mark_eq_arm_iff {x : T} {o : Obs T} :
    mark x o = .arm ↔ ∃ time, o = .processed (.requeue x time) := by
  constructor
  · intro hmark
    rcases o with _ | (⟨y, time⟩ | y | _) | ⟨y, clock⟩ | _ | _ <;>
      simp [mark, ite_eq_iff] at hmark
    exact ⟨time, by rw [hmark]⟩
  · rintro ⟨time, rfl⟩
    exact if_pos rfl

theorem mark_eq_fire_iff {x : T} {o : Obs T} :
    mark x o = .fire ↔ ∃ clock, o = .yielded x clock := by
  constructor
  · intro hmark
    rcases o with _ | (⟨y, time⟩ | y | _) | ⟨y, clock⟩ | _ | _ <;>
      simp [mark, ite_eq_iff] at hmark
    exact ⟨clock, by rw [hmark]⟩
  · rintro ⟨clock, rfl⟩
    exact if_pos rfl

theorem mark_disturbs_iff {x : T} {o : Obs T} :
    mark x o = .arm ∨ mark x o = .disarm ↔ ∃ op, o = .processed op ∧ op.Concerns x := by
  constructor
  · intro hmark
    rcases o with _ | op | ⟨y, clock⟩ | _ | _
    case processed =>
      refine ⟨op, rfl, ?_⟩
      cases op <;> simp_all [mark, Op.Concerns, ite_eq_iff]
    all_goals simp [mark, ite_eq_iff] at hmark
  · rintro ⟨op, rfl, hop⟩
    cases op with
    | requeue y time => exact .inl (if_pos hop)
    | cancel y => exact .inr (if_pos hop)
    | clear => exact .inr rfl

theorem mark_processed_of_not_concerns {x : T} {op : Op T} (hop : ¬ op.Concerns x) :
    mark x (.processed op) = .skip := by
  cases op with
  | requeue y time => exact if_neg hop
  | cancel y => exact if_neg hop
  | clear => exact absurd trivial hop

/-! ## Deadlines and what is armed -/

/-- The deadline of the requeue is not after the yield. -/
def InTime (requeued yielded : Obs T) : Prop :=
  ∃ x time clock, requeued = .processed (.requeue x time) ∧
    yielded = .yielded x clock ∧ time ≤ clock

/-- An object has a deadline exactly while it is armed, by the requeue at this
deadline, and is yielded in time. -/
structure Tracks (x : T) (obs : List (Obs T)) (due : Finmap fun _ : T => Nat) : Prop where
  armed : armedBy (mark x) obs =
    (due.lookup x).map fun time => .processed (.requeue x time)
  wellFired : WellFired (mark x) InTime obs

namespace Tracks

variable {x : T} {obs : List (Obs T)} {due : Finmap fun _ : T => Nat}

theorem nil : Tracks x [] ∅ where
  armed := by simp [armedBy]
  wellFired before a after hcut := by simp at hcut

/-- An observation without bearing on the object. -/
theorem skip (h : Tracks x obs due) {o : Obs T} (ho : mark x o = .skip) :
    Tracks x (obs ++ [o]) due where
  armed := by rw [armedBy_concat, armedNext, ho, h.armed]
  wellFired := wellFired_concat h.wellFired fun hfire => by rw [ho] at hfire; cases hfire

theorem processed (h : Tracks x obs due) (op : Op T) :
    Tracks x (obs ++ [.processed op]) (op.apply due) := by
  have hfire : mark x (.processed op) ≠ .fire := by
    intro hfire
    obtain ⟨clock, hclock⟩ := mark_eq_fire_iff.mp hfire
    cases hclock
  refine ⟨?_, wellFired_concat h.wellFired fun hmark => absurd hmark hfire⟩
  by_cases hop : op.Concerns x
  · -- A requeue sets the deadline that it arms; the others take it away.
    rw [armedBy_concat]
    cases op with
    | requeue y time =>
        obtain rfl : y = x := hop
        simp [armedNext, mark, Op.apply]
    | cancel y =>
        obtain rfl : y = x := hop
        simp [armedNext, mark, Op.apply]
    | clear => simp [armedNext, mark, Op.apply]
  · rw [lookup_apply_of_not_concerns hop]
    exact (h.skip (mark_processed_of_not_concerns hop)).armed

theorem processed_all (h : Tracks x obs due) (ops : List (Op T)) :
    Tracks x (obs ++ ops.map .processed) (ops.foldl Op.apply due) := by
  induction ops generalizing obs due with
  | nil =>
      rw [List.map_nil, List.append_nil]
      exact h
  | cons op ops ih =>
      rw [List.map_cons, List.append_cons]
      exact ih (h.processed op)

theorem yielded (h : Tracks x obs due) {y : T} {time clock : Nat}
    (hdue : due.lookup y = some time) (hcome : time ≤ clock) :
    Tracks x (obs ++ [.yielded y clock]) (due.erase y) := by
  by_cases hy : y = x
  · subst hy
    have hfire : mark y (.yielded y clock) = .fire := if_pos rfl
    refine ⟨?_, wellFired_concat h.wellFired fun _ => ?_⟩
    · rw [armedBy_concat, armedNext, hfire, Finmap.lookup_erase]
      rfl
    · refine ⟨.processed (.requeue y time), ?_, y, time, clock, rfl, rfl, hcome⟩
      rw [h.armed, hdue]
      rfl
  · have hskip : mark x (.yielded y clock) = .skip := if_neg hy
    refine ⟨?_, (h.skip hskip).wellFired⟩
    rw [(h.skip hskip).armed, Finmap.lookup_erase_ne (Ne.symm hy)]

/-- The observations of a poll. -/
theorem polled {s s' : Deadlines T} {result : Obs T} (h : Tracks x obs s.due)
    (hpoll : s.Polls result s') :
    Tracks x (obs ++ (s.fifo.map .processed ++ [result])) s'.due := by
  have hsettled : Tracks x (obs ++ s.fifo.map .processed) s.settled :=
    h.processed_all s.fifo
  rw [← List.append_assoc]
  cases hpoll with
  | yielded y time hdue hcome => exact hsettled.yielded hdue hcome
  | exhausted hclosed hempty =>
      rw [hempty] at hsettled
      exact hsettled.skip rfl
  | pending hnone hopen => exact hsettled.skip rfl

end Tracks

/-- Along every run, an object has a deadline exactly while it is armed. -/
theorem tracks_of_run (x : T) {capacity now : Nat} {labels : List (Label T)} {s : Deadlines T}
    (hrun : Run Deadlines.Step (Deadlines.initial capacity now) labels s) :
    Tracks x (observations labels) s.due := by
  refine hrun.history (fun past s => Tracks x (observations past) s.due) ?_ Tracks.nil
  intro past s label s' h hstep
  cases hstep with
  | send _ _ _ =>
      rw [observations_concat]
      exact h.skip rfl
  | poll hpoll =>
      rw [observations_concat]
      exact h.polled hpoll
  | wait _ _ | clone | drop | close | advance _ =>
      rw [observations_concat, List.append_nil]
      exact h

/-! ## The end of the channel -/

/-- Once the receiver has reported the end, nothing can be sent, nothing is left and
every poll reports the end. -/
structure Ended (labels : List (Label T)) (s : Deadlines T) : Prop where
  spent : .exhausted ∈ observations labels → s.closed = true ∧ s.fifo = [] ∧ s.due = ∅
  final : (observations labels).Pairwise fun earlier later =>
    earlier = .exhausted → later = .exhausted

theorem Deadlines.Polls.exhausted_of_spent {s s' : Deadlines T} {result : Obs T}
    (hpoll : s.Polls result s') (hclosed : s.closed = true) (hfifo : s.fifo = [])
    (hdue : s.due = ∅) : result = .exhausted := by
  have hsettled : s.settled = ∅ := by
    rw [Deadlines.settled, hfifo]
    exact hdue
  cases hpoll with
  | yielded x time hlookup _ =>
      rw [hsettled, Finmap.lookup_empty] at hlookup
      cases hlookup
  | exhausted _ _ => rfl
  | pending _ hopen => exact absurd ⟨hclosed, hsettled⟩ hopen

theorem Ended.polled {labels : List (Label T)} {s s' : Deadlines T} {result : Obs T}
    (h : Ended labels s) (hpoll : s.Polls result s') :
    Ended (labels ++ [(.poll, s.fifo.map .processed ++ [result])]) s' := by
  constructor
  · intro hmem
    rw [observations_concat] at hmem
    have hresult : result = .exhausted := by
      rcases List.mem_append.mp hmem with hmem | hmem
      · obtain ⟨hclosed, hfifo, hdue⟩ := h.spent hmem
        exact hpoll.exhausted_of_spent hclosed hfifo hdue
      · rcases List.mem_append.mp hmem with hmem | hmem
        · obtain ⟨op, -, hop⟩ := List.mem_map.mp hmem
          cases hop
        · exact (List.mem_singleton.mp hmem).symm
    subst hresult
    cases hpoll with
    | exhausted hclosed _ => exact ⟨hclosed, rfl, rfl⟩
  · rw [observations_concat, List.pairwise_append]
    refine ⟨h.final, ?_, ?_⟩
    · rw [List.pairwise_append]
      refine ⟨?_, List.pairwise_singleton _ _, ?_⟩
      · rw [List.pairwise_map]
        exact List.pairwise_of_forall fun _ _ hop => by cases hop
      · intro o hmem _ _ ho
        obtain ⟨op, -, rfl⟩ := List.mem_map.mp hmem
        cases ho
    · -- After the end there is nothing to process, and the result is the end again.
      rintro o hmem later hlater rfl
      obtain ⟨hclosed, hfifo, hdue⟩ := h.spent hmem
      rw [hfifo, List.map_nil, List.nil_append, List.mem_singleton] at hlater
      rw [hlater]
      exact hpoll.exhausted_of_spent hclosed hfifo hdue

theorem ended_of_run {capacity now : Nat} {labels : List (Label T)} {s : Deadlines T}
    (hrun : Run Deadlines.Step (Deadlines.initial capacity now) labels s) : Ended labels s := by
  refine hrun.history Ended ?_ ⟨nofun, List.Pairwise.nil⟩
  intro past s label s' h hstep
  cases hstep with
  | send _ hopen _ =>
      -- A send needs an open channel, so the end has not been reported yet.
      have hnone : .exhausted ∉ observations past := by
        intro hmem
        rw [(h.spent hmem).1] at hopen
        cases hopen
      constructor
      · intro hmem
        rw [observations_concat] at hmem
        rcases List.mem_append.mp hmem with hmem | hmem
        · exact absurd hmem hnone
        · cases List.mem_singleton.mp hmem
      · rw [observations_concat, List.pairwise_append]
        refine ⟨h.final, List.pairwise_singleton _ _, ?_⟩
        rintro o hmem _ _ rfl
        exact absurd hmem hnone
  | poll hpoll => exact h.polled hpoll
  | close =>
      have hobs := observations_concat past Act.drop []
      rw [List.append_nil] at hobs
      refine ⟨fun hmem => ?_, hobs ▸ h.final⟩
      rw [hobs] at hmem
      exact ⟨rfl, (h.spent hmem).2⟩
  | wait _ _ | clone | drop | advance _ =>
      constructor
      · rw [observations_concat, List.append_nil]
        exact h.spent
      · rw [observations_concat, List.append_nil]
        exact h.final

/-- A poll processes what it reports as processed. -/
theorem Deadlines.Polls.processedOp_eq {s s' : Deadlines T} {result : Obs T}
    (hpoll : s.Polls result s') (ops : List (Op T)) :
    (ops.map Obs.processed ++ [result]).filterMap Obs.processedOp = ops := by
  have hresult : [result].filterMap Obs.processedOp = [] := by cases hpoll <;> rfl
  rw [List.filterMap_append, hresult, List.append_nil, List.filterMap_map]
  exact List.filterMap_some

/-- What has been sent has been processed, in this order, or is in the channel. -/
theorem sentOps_of_run {capacity now : Nat} {labels : List (Label T)} {s : Deadlines T}
    (hrun : Run Deadlines.Step (Deadlines.initial capacity now) labels s) :
    sentOps labels = processedOps labels ++ s.fifo := by
  refine hrun.history (fun past s => sentOps past = processedOps past ++ s.fifo) ?_ rfl
  intro past s label s' h hstep
  cases hstep with
  | send _ _ _ =>
      rw [sentOps_concat, processedOps_concat, h]
      simp [Obs.sentOp, Obs.processedOp]
  | poll hpoll =>
      have hfifo : s'.fifo = [] := by cases hpoll <;> rfl
      rw [sentOps_concat, processedOps_concat, h, hpoll.sentOp_eq_nil,
        hpoll.processedOp_eq, hfifo]
  | wait _ _ | clone | drop | close | advance _ =>
      rw [sentOps_concat, processedOps_concat, h]
      simp

/-! ## Exactly once -/

/-- Where an object is yielded. -/
def yieldsOf (x : T) (obs : List (Obs T)) : Set ℕ :=
  {i | ∃ clock, obs[i]? = some (.yielded x clock)}

/-- Where a requeue of an object is processed. -/
def requeuesOf (x : T) (obs : List (Obs T)) : Set ℕ :=
  {j | ∃ time, obs[j]? = some (.processed (.requeue x time))}

/-- Where a requeue of an object is processed that is not followed, before the next
yield of the object, by another operation on it. -/
def standingRequeuesOf (x : T) (obs : List (Obs T)) : Set ℕ :=
  {j | j ∈ requeuesOf x obs ∧
    ∀ k op, j < k → obs[k]? = some (.processed op) → op.Concerns x →
      ∃ i ∈ yieldsOf x obs, j < i ∧ i < k}

/-- An object is yielded exactly as often as it should. -/
structure DeliveredOnce (x : T) (obs : List (Obs T)) : Prop where
  inTime : ∀ i clock, obs[i]? = some (.yielded x clock) →
    ∃ j time, obs[j]? = some (.processed (.requeue x time)) ∧ j < i ∧
      (∀ k ∈ requeuesOf x obs, k < i → k ≤ j) ∧ time ≤ clock
  requeued : ∀ i ∈ yieldsOf x obs, ∀ i' ∈ yieldsOf x obs, i < i' →
    ∃ j ∈ requeuesOf x obs, i < j ∧ j < i'
  matched : .exhausted ∈ obs →
    ∃ requeueOf : ℕ → ℕ,
      Set.BijOn requeueOf (yieldsOf x obs) (standingRequeuesOf x obs) ∧
      ∀ i ∈ yieldsOf x obs, requeueOf i < i ∧ ∀ k ∈ requeuesOf x obs, k < i → k ≤ requeueOf i

theorem markAt_fire_iff {x : T} {obs : List (Obs T)} {i : ℕ} :
    MarkAt (mark x) obs i .fire ↔ i ∈ yieldsOf x obs := by
  constructor
  · rintro ⟨o, hget, hmark⟩
    obtain ⟨clock, rfl⟩ := mark_eq_fire_iff.mp hmark
    exact ⟨clock, hget⟩
  · rintro ⟨clock, hget⟩
    exact ⟨_, hget, mark_eq_fire_iff.mpr ⟨clock, rfl⟩⟩

theorem markAt_arm_iff {x : T} {obs : List (Obs T)} {j : ℕ} :
    MarkAt (mark x) obs j .arm ↔ j ∈ requeuesOf x obs := by
  constructor
  · rintro ⟨o, hget, hmark⟩
    obtain ⟨time, rfl⟩ := mark_eq_arm_iff.mp hmark
    exact ⟨time, hget⟩
  · rintro ⟨time, hget⟩
    exact ⟨_, hget, mark_eq_arm_iff.mpr ⟨time, rfl⟩⟩

theorem survives_iff {x : T} {obs : List (Obs T)} {j : ℕ} :
    Survives (mark x) obs j ↔ j ∈ standingRequeuesOf x obs := by
  constructor
  · intro hsurvives
    refine ⟨markAt_arm_iff.mp hsurvives.arm, ?_⟩
    intro k op hjk hget hop
    obtain ⟨i, hji, hik, hfire⟩ := hsurvives.undisturbed k hjk
      ((mark_disturbs_iff.mpr ⟨op, rfl, hop⟩).imp
        (fun h => ⟨_, hget, h⟩) (fun h => ⟨_, hget, h⟩))
    exact ⟨i, markAt_fire_iff.mp hfire, hji, hik⟩
  · rintro ⟨harm, hundisturbed⟩
    refine ⟨markAt_arm_iff.mpr harm, ?_⟩
    intro k hjk hmark
    obtain ⟨op, hget, hop⟩ :
        ∃ op, obs[k]? = some (.processed op) ∧ op.Concerns x := by
      rcases hmark with ⟨o, hget, hmark⟩ | ⟨o, hget, hmark⟩
      · obtain ⟨op, rfl, hop⟩ := mark_disturbs_iff.mp (.inl hmark)
        exact ⟨op, hget, hop⟩
      · obtain ⟨op, rfl, hop⟩ := mark_disturbs_iff.mp (.inr hmark)
        exact ⟨op, hget, hop⟩
    obtain ⟨i, hyield, hji, hik⟩ := hundisturbed k op hjk hget hop
    exact ⟨i, hji, hik, markAt_fire_iff.mpr hyield⟩

/-- The last requeue before a yield is the one that it is matched with. -/
theorem le_of_matches {x : T} {obs : List (Obs T)} {j i k : ℕ}
    (hmatches : Matches (mark x) obs j i) (hk : k ∈ requeuesOf x obs) (hki : k < i) :
    k ≤ j := by
  by_contra hjk
  have := hmatches.not_between (markAt_arm_iff.mpr hk) nofun (by omega)
  omega

theorem Tracks.deliveredOnce {x : T} {obs : List (Obs T)} {due : Finmap fun _ : T => Nat}
    (h : Tracks x obs due) (hend : .exhausted ∈ obs → due = ∅) : DeliveredOnce x obs where
  inTime i clock hget := by
    obtain ⟨j, o, hmatches, hgetj, y, time, clock', rfl, hyielded, hle⟩ :=
      exists_matches h.wellFired hget (mark_eq_fire_iff.mpr ⟨clock, rfl⟩)
    cases hyielded
    exact ⟨j, time, hgetj, hmatches.lt, fun k hk hki => le_of_matches hmatches hk hki, hle⟩
  requeued i hi i' hi' hlt := by
    obtain ⟨clock, hget⟩ := hi'
    obtain ⟨j, _, hmatches, -⟩ :=
      exists_matches h.wellFired hget (mark_eq_fire_iff.mpr ⟨clock, rfl⟩)
    have hfire := markAt_fire_iff.mpr hi
    refine ⟨j, markAt_arm_iff.mp hmatches.arm, ?_, hmatches.lt⟩
    rcases Nat.lt_trichotomy i j with hij | rfl | hji
    · exact hij
    · cases hfire.eq hmatches.arm
    · have := hmatches.not_between hfire nofun hji
      omega
  matched hexhausted := by
    have hnone : armedBy (mark x) obs = none := by
      rw [h.armed, hend hexhausted, Finmap.lookup_empty]
      rfl
    obtain ⟨requeueOf, hmatches, hbij⟩ := bijOn_matches h.wellFired hnone
    simp only [markAt_fire_iff, survives_iff] at hmatches hbij
    exact ⟨requeueOf, hbij, fun i hi =>
      ⟨(hmatches i hi).lt, fun k hk hki => le_of_matches (hmatches i hi) hk hki⟩⟩

/-- Along every run of a channel each object is delivered exactly once: a yield comes
no earlier than the deadline of the last requeue processed before it, between two
yields a requeue is processed, and once the end has been reported the yields are in
one-to-one correspondence with the requeues that stand.  What was sent has then been
processed, and the end is reported for ever. -/
theorem requeues_delivered_once {d : DelayQueue T} (hlawful : d.Lawful)
    (capacity now : Nat) (acts : List (Act T)) :
    ∃ c labels, (Channel.new d capacity now).run acts = some (c, labels) ∧
      (∀ x, DeliveredOnce x (observations labels)) ∧
      (.exhausted ∈ observations labels → processedOps labels = sentOps labels) ∧
      (observations labels).Pairwise fun earlier later =>
        earlier = .exhausted → later = .exhausted := by
  obtain ⟨c, labels, s, hrun, habs, -⟩ :=
    run_represents hlawful (represents_new hlawful capacity now) acts
  have hended := ended_of_run habs
  refine ⟨c, labels, hrun, ?_, ?_, hended.final⟩
  · intro x
    exact (tracks_of_run x habs).deliveredOnce fun hmem => (hended.spent hmem).2.2
  · intro hmem
    rw [sentOps_of_run habs, (hended.spent hmem).2.1, List.append_nil]

/-- One pod is requeued, postponed and yielded, requeued again and cancelled; the
other is pending when the sender goes away. -/
def deliveryActs : List (Act Pod) :=
  [.send (.requeue .podA 10), .poll, .advance 9, .send (.requeue .podA 10),
    .advance 10, .poll, .send (.requeueAt .podA 25), .send (.requeueAt .podB 30),
    .poll, .send (.cancel .podA), .drop, .advance 20, .poll, .poll, .poll]

theorem pods_delivered_once :
    ∃ c labels, (Channel.new (DelayQueue.byKey Pod) 2 0).run deliveryActs = some (c, labels) ∧
      (∀ x, DeliveredOnce x (observations labels)) ∧
      observations labels =
        [.sent (.requeue .podA 10), .processed (.requeue .podA 10), .pending,
          .sent (.requeue .podA 19), .processed (.requeue .podA 19), .yielded .podA 19,
          .sent (.requeue .podA 25), .sent (.requeue .podB 30),
          .processed (.requeue .podA 25), .processed (.requeue .podB 30), .pending,
          .sent (.cancel .podA), .processed (.cancel .podA), .yielded .podB 39,
          .exhausted, .exhausted] := by
  obtain ⟨c, labels, hrun, hdelivered, -⟩ :=
    requeues_delivered_once (DelayQueue.byKey_lawful (T := Pod)) 2 0 deliveryActs
  refine ⟨c, labels, hrun, hdelivered, ?_⟩
  have heval := congrArg (Option.map fun last => observations last.2) hrun
  rw [Option.map_some] at heval
  exact Option.some.inj (heval.symm.trans (by decide +kernel))

end Requeue
end Kubert
