import Kubert.Runtime.Run

/-!
# What a probe of `/ready` tells

Kubernetes sees the readiness of a process only through probes.  A probe that is answered
with 200 tells that the runtime was run, and of every initialization handle that something
has released it before: the stream of its watch has returned an event or has ended, the
future it was given to was ready, or it was dropped (`Traced`).  Conversely, as soon as
all handles are released, two polls of the task of `run` bring readiness up, and it stays
up until the shutdown is signaled (`Rising`).
-/

namespace Kubert
namespace Runtime

open Foundation
open Kubert.Stream (Next)

/-- Something is done with a handle after which it is dropped. -/
def Use.releases : Use → Bool
  | .drop | .poll (.ready _) | .pollNext (.ready _) => true
  | _ => false

theorem Holder.releases_of_use {old new : Holder} {how : Use} (huse : old.use how = some new)
    (hlive : old.live = true) (hdead : new.live = false) : how.releases = true := by
  cases old with
  | handle =>
      cases how with
      | drop => rfl
      | releaseOnReadyFuture | releaseOnReadyStream =>
          obtain rfl := Option.some.inj huse
          cases hdead
      | poll | pollNext => cases huse
  | dropped => cases hlive
  | future w =>
      cases how with
      | drop => rfl
      | poll answer =>
          obtain rfl := Option.some.inj huse
          cases answer with
          | ready out => rfl
          | pending => exact absurd hlive (Bool.not_eq_true _ ▸ hdead)
      | releaseOnReadyFuture | releaseOnReadyStream | pollNext => cases huse
  | stream w =>
      cases how with
      | drop => rfl
      | pollNext answer =>
          obtain rfl := Option.some.inj huse
          cases answer with
          | ready next => rfl
          | pending => exact absurd hlive (Bool.not_eq_true _ ▸ hdead)
      | releaseOnReadyFuture | releaseOnReadyStream | poll => cases huse

namespace Process

variable {S : Semaphore}

/-- The action releases the handle with this number. -/
def Action.Releases (n : Nat) : Action → Prop
  | .use m how => m = n ∧ how.releases = true
  | .pollWatch m answer => m = n ∧ (Use.pollNext answer).releases = true
  | _ => False

/-! ## Released by an event -/

/-- What has led to a state: the task was spawned by an event, and an event has released
every handle that is not live. -/
structure Traced (past : List (Action × Option Response)) (p : Process S) : Prop where
  spawned : p.task ≠ .unspawned → ∃ event ∈ past, event.1 = .run
  released : ∀ n h, p.barrier.holders[n]? = some h → h.live = false →
    ∃ event ∈ past, event.1.Releases n

/-- A holder stops to be live only if the action releases its handle. -/
theorem releases_of_set {p p' : Process S} {n : Nat} {how : Use} {old new : Holder}
    (hold : p.barrier.holders[n]? = some old) (huse : old.use how = some new)
    (hholders : p'.barrier.holders = p.barrier.holders.set n new) {m : Nat} {h : Holder}
    (hm : p'.barrier.holders[m]? = some h) (hdead : h.live = false) :
    (∃ h', p.barrier.holders[m]? = some h' ∧ h'.live = false) ∨ n = m ∧ how.releases = true := by
  rw [hholders] at hm
  by_cases hsame : n = m
  · subst hsame
    rw [List.getElem?_set_self (List.getElem?_eq_some_iff.mp hold).1] at hm
    obtain rfl := Option.some.inj hm
    cases hlive : old.live with
    | false => exact .inl ⟨old, hold, hlive⟩
    | true => exact .inr ⟨rfl, Holder.releases_of_use huse hlive hdead⟩
  · rw [List.getElem?_set_ne hsame] at hm
    exact .inl ⟨h, hm, hdead⟩

theorem Holders.releases {p p' : Process S} {a : Action} (hchange : Holders p a p') {n : Nat}
    {h : Holder} (hn : p'.barrier.holders[n]? = some h) (hdead : h.live = false) :
    (∃ h', p.barrier.holders[n]? = some h' ∧ h'.live = false) ∨ a.Releases n := by
  cases hchange with
  | same hholders => exact .inl ⟨h, hholders ▸ hn, hdead⟩
  | added hholders =>
      rw [hholders, List.getElem?_append] at hn
      split at hn
      · exact .inl ⟨h, hn, hdead⟩
      · -- The handle that was just added is live.
        obtain rfl : h = .handle := by
          simpa using List.mem_of_getElem? hn
        cases hdead
  | used hold huse hholders => exact releases_of_set hold huse hholders hn hdead
  | polled hold huse hholders => exact releases_of_set hold huse hholders hn hdead

theorem Traced.step {past : List (Action × Option Response)} {p p' : Process S}
    {event : Action × Option Response} (h : Traced past p) (hstep : Step p event p') :
    Traced (past ++ [event]) p' := by
  have hpast (P : Action → Prop) (hsome : ∃ event ∈ past, P event.1) :
      ∃ e ∈ past ++ [event], P e.1 := by
    obtain ⟨e, hmem, he⟩ := hsome
    exact ⟨e, List.mem_append_left _ hmem, he⟩
  have hnow (P : Action → Prop) (hevent : P event.1) : ∃ e ∈ past ++ [event], P e.1 :=
    ⟨event, by simp, hevent⟩
  refine ⟨?_, ?_⟩
  · intro htask
    by_cases hrun : event.1 = .run
    · exact hnow (· = .run) hrun
    · rw [ne_eq, (step?_cases hstep).unspawned_iff hrun] at htask
      exact hpast (· = .run) (h.spawned htask)
  · intro n holder hn hdead
    rcases (step?_holders hstep).releases hn hdead with ⟨before, hbefore, hwas⟩ | hreleases
    · exact hpast (Action.Releases n) (h.released n before hbefore hwas)
    · exact hnow (Action.Releases n) hreleases

theorem traced_of_run {events : List (Action × Option Response)} {p : Process S}
    (hrun : Run Step (Process.initial S) events p) : Traced events p := by
  refine hrun.history Traced (fun _ _ _ _ h hstep => h.step hstep) ⟨?_, ?_⟩
  · intro htask
    exact absurd rfl htask
  · intro n h hn
    cases hn

/-! ## Ready after two polls -/

/-- The handles are released, no signal has fired, and after so many polls of the task
the readiness is set. -/
structure Rising (p : Process S) (polls : Nat) : Prop where
  sound : p.Sound
  few : p.barrier.holders.length < 4294967296
  fired : p.fired = false
  live : p.barrier.live = 0
  task : p.task = .initializing ∧ 2 ≤ polls ∨ p.task = .initialized ∧ 1 ≤ polls ∨
    p.task = .waiting

/-- The action polls the task. -/
def Action.pollsTask : Action → Bool
  | .pollTask => true
  | _ => false

/-- A poll of the task brings it one step further. -/
theorem Rising.poll (hlawful : S.Lawful) {p p' : Process S} {polls : Nat}
    {response : Option Response} (h : p.Rising polls) (hstep : Step p (.pollTask, response) p') :
    p'.Rising (polls - 1) := by
  have hsound := h.sound.cases hlawful (step?_cases hstep)
  obtain ⟨q, hpoll, hpair⟩ := Option.map_eq_some_iff.mp hstep
  obtain ⟨rfl, -⟩ := Prod.mk.inj hpair
  unfold pollTask at hpoll
  rcases h.task with ⟨htask, hpolls⟩ | ⟨htask, hpolls⟩ | htask
  · rw [htask] at hpoll
    obtain ⟨⟨b, outcome⟩, hbarrier, rfl⟩ := Option.map_eq_some_iff.mp hpoll
    cases Barrier.step?_cases hbarrier with
    | poll =>
        have hopen := (h.sound.balanced.poll_ready_iff hlawful h.few).mpr h.live
        refine ⟨hsound, h.few, h.fired, h.live, .inr (.inl ⟨?_, by omega⟩)⟩
        exact if_pos (congrArg some hopen)
  · rw [htask] at hpoll
    obtain rfl := Option.some.inj hpoll
    exact ⟨hsound, h.few, h.fired, h.live, .inr (.inr rfl)⟩
  · rw [htask] at hpoll
    obtain rfl := Option.some.inj hpoll
    refine ⟨hsound, h.few, h.fired, h.live, .inr (.inr ?_)⟩
    simp [h.fired]

/-- Nothing else than the signal sets it back. -/
theorem Rising.keep (hlawful : S.Lawful) {p p' : Process S} {polls : Nat} {a : Action}
    {response : Option Response} (h : p.Rising polls) (hcases : Cases p a p' response)
    (hpoll : a ≠ .pollTask) (hfire : a ≠ .fire) : p'.Rising polls := by
  have hsound := h.sound.cases hlawful hcases
  have hspawned : p.task ≠ .unspawned := by
    rcases h.task with ⟨htask, -⟩ | ⟨htask, -⟩ | htask <;> simp [htask]
  cases hcases with
  | handles hchange hbarrier =>
      rcases hchange with rfl | ⟨n, how, rfl⟩
      · cases hbarrier with
        | addHandle hstage =>
            -- Handles are issued only before the runtime is run.
            have htask := h.sound.stage
            rw [hstage] at htask
            cases hnow : p.task with
            | unspawned => exact absurd hnow hspawned
            | initializing | initialized | waiting | signaled | done =>
                rw [hnow] at htask
                cases htask
      · obtain ⟨hle, hlength⟩ := hbarrier.live_le (by simp)
        refine ⟨hsound, hlength ▸ h.few, h.fired, ?_, h.task⟩
        exact Nat.le_zero.mp (hle.trans h.live.le)
  | run htask => exact absurd htask hspawned
  | polled | setReady | waited | setNotReady => exact absurd rfl hpoll
  | fire => exact absurd rfl hfire
  | probe => exact h

theorem Rising.run (hlawful : S.Lawful) {p p' : Process S} {polls : Nat}
    {later : List (Action × Option Response)} (hlater : Run Step p later p')
    (h : p.Rising polls) (hquiet : ∀ event ∈ later, event.1 ≠ .fire) :
    p'.Rising (polls - later.countP (·.1.pollsTask)) := by
  induction hlater generalizing polls with
  | nil p => exact h
  | @cons p next p' event later hstep _ ih =>
      obtain ⟨hfirst, hrest⟩ := List.forall_mem_cons.mp hquiet
      obtain ⟨a, response⟩ := event
      by_cases hpoll : a = .pollTask
      · subst hpoll
        have hend := ih (h.poll hlawful hstep) hrest
        rw [List.countP_cons_of_pos rfl, Nat.add_comm, ← Nat.sub_sub]
        exact hend
      · have hend := ih (h.keep hlawful (step?_cases hstep) hpoll hfirst) hrest
        rw [List.countP_cons_of_neg (by cases a <;> simp_all [Action.pollsTask])]
        exact hend

/-- The task goes past its waiting only after the signal. -/
theorem fired_of_run {events : List (Action × Option Response)} {p : Process S}
    (hrun : Run Step (Process.initial S) events p) (htask : p.task.watches = 0) :
    p.fired = true := by
  refine hrun.invariant (fun p => p.task.watches = 0 → p.fired = true) ?_ ?_ htask
  · intro p event p' h hstep hzero
    by_cases hfire : event.1 = .fire
    · obtain ⟨a, response⟩ := event
      obtain rfl : a = .fire := hfire
      obtain ⟨-, hrest⟩ := Option.ite_none_left_eq_some.mp hstep
      obtain ⟨rfl, -⟩ := Prod.mk.inj (Option.some.inj hrest)
      rfl
    · obtain ⟨hfired, -, hbefore⟩ := (step?_cases hstep).task_watches hfire
      rw [hfired]
      exact (hbefore hzero).elim h id
  · intro hzero
    cases hzero

/-- What probes of `/ready` tell.  In every run, a probe is answered with 200 only after
the runtime was run and after an event has released every handle that was issued.  And
from every state of it in which all handles are released and no signal has fired, in
whatever order things go on: as soon as the task was polled twice, and until the signal,
every `GET` and `HEAD` is answered with 200. -/
theorem probe_tells_released (hlawful : S.Lawful) {events : List (Action × Option Response)}
    {p : Process S} (hrun : Run Step (Process.initial S) events p)
    (hfew : p.barrier.holders.length < 4294967296) :
    (∀ method response p', Step p (.probe method, some response) p' → response.status = 200 →
      (∃ event ∈ events, event.1 = .run) ∧
        ∀ n < p.barrier.holders.length, ∃ event ∈ events, event.1.Releases n) ∧
    (p.task ≠ .unspawned → p.fired = false → (∀ h ∈ p.barrier.holders, h.live = false) →
      ∀ later p', Run Step p later p' → (∀ event ∈ later, event.1 ≠ .fire) →
        2 ≤ later.countP (·.1.pollsTask) → ∀ method ≠ .other,
          ∃ response, Step p' (.probe method, some response) p' ∧ response.status = 200) := by
  have hsound := sound_of_run hlawful hrun
  have htraced := traced_of_run hrun
  refine ⟨?_, ?_⟩
  · intro method response p' hprobe hstatus
    obtain ⟨-, hresponse⟩ := Prod.mk.inj (Option.some.inj hprobe)
    obtain rfl := Option.some.inj hresponse
    have htask := hsound.ready.mp (handleReady_status_iff.mp hstatus).1
    have hstage : p.barrier.stage = .opened := by
      rw [hsound.stage]
      rcases htask with htask | htask <;> rw [htask] <;> rfl
    have hdead := Barrier.live_eq_zero_iff.mp (hsound.released hfew hstage)
    refine ⟨htraced.spawned ?_, ?_⟩
    · rcases htask with htask | htask <;> simp [htask]
    · intro n hn
      exact htraced.released n _ (List.getElem?_eq_getElem hn) (hdead _ (List.getElem_mem hn))
  · intro hspawned hfired hdead later p' hlater hquiet hpolls method hmethod
    have hrising : p.Rising 2 := by
      refine ⟨hsound, hfew, hfired, Barrier.live_eq_zero_iff.mpr hdead, ?_⟩
      cases hnow : p.task with
      | unspawned => exact absurd hnow hspawned
      | initializing | initialized | waiting => simp
      | signaled | done =>
          rw [fired_of_run hrun (by rw [hnow]; rfl)] at hfired
          cases hfired
    have hend := hrising.run hlawful hlater hquiet
    have hready : p'.ready = true := by
      rw [Nat.sub_eq_zero_of_le hpolls] at hend
      rcases hend.task with ⟨-, hnone⟩ | ⟨-, hnone⟩ | hwaiting
      · cases hnone
      · cases hnone
      · exact hend.sound.ready.mpr (.inl hwaiting)
    exact ⟨_, rfl, handleReady_status_iff.mpr ⟨hready, hmethod⟩⟩

/-- A watch is started and has its first event, and the task is polled.  The event was
one of those that release the handle of the watch. -/
theorem first_event_seen_by_probe :
    ∃ p : Process Semaphore.fair,
      Run Step (Process.initial Semaphore.fair) (shutDownInOrder.take 7) p ∧
      (∃ event ∈ shutDownInOrder.take 7, event.1.Releases 0) ∧
      ∀ later p', Run Step p later p' → (∀ event ∈ later, event.1 ≠ .fire) →
        2 ≤ later.countP (·.1.pollsTask) →
          ∃ response, Step p' (.probe .get, some response) p' ∧ response.status = 200 := by
  have hrun : ∃ p : Process Semaphore.fair,
      Run Step (Process.initial Semaphore.fair) (shutDownInOrder.take 7) p ∧
      p.barrier.holders.length = 1 ∧ p.task ≠ .unspawned ∧ p.fired = false ∧
      p.ready = true ∧ p.barrier.live = 0 :=
    ⟨_, .cons rfl (.cons rfl (.cons rfl (.cons rfl (.cons rfl (.cons rfl (.cons rfl
      (.nil _))))))), rfl, by decide, rfl, rfl, rfl⟩
  obtain ⟨p, hrun, hone, hspawned, hfired, hready, hlive⟩ := hrun
  obtain ⟨hsound, hcomplete⟩ :=
    probe_tells_released Semaphore.fair_lawful hrun (by rw [hone]; decide)
  have hanswer : Step p (.probe .get, some (handleReady true .get)) p := by
    rw [← hready]
    rfl
  refine ⟨p, hrun, ?_, ?_⟩
  · exact (hsound .get _ p hanswer rfl).2 0 (by rw [hone]; decide)
  · intro later p' hlater hquiet hpolls
    exact hcomplete hspawned hfired (Barrier.live_eq_zero_iff.mp hlive) later p' hlater hquiet
      hpolls .get (by decide)

end Process

end Runtime
end Kubert
