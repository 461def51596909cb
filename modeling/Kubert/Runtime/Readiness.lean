import Kubert.Runtime.Initialized
import Mathlib.Logic.Function.Basic

/-!
# Readiness

`Runtime::run` spawns a task that waits for all initialization handles to be released,
sets the readiness of the admin server, waits for the shutdown signal and takes the
readiness back.  `Process` is this task together with the handles, the signal and the
probes of the admin server.

The streams of `Runtime::watch` hold handles inside of a `CancelOnShutdown`: the
signal ends them, whoever reads them drops them, and so the handles are released that
were never released by an event.  The task then finds everything initialized.  It
waits for the signal only afterwards, so that readiness comes up when shutdown has
begun, for as long as the task takes for its next steps.

A run in which this happens is one in which, after the signal and before readiness is
set, no handle is live (`Orderly`).
-/

namespace Kubert
namespace Runtime

open Foundation
open Kubert.Stream (ReleasesOnReady CancelOnShutdown Next)

/-! ## `/ready` -/

/-- The method of a request. -/
inductive Method
  | get
  | head
  | other
deriving DecidableEq, Repr

/-- A response: its status, one header and the body. -/
structure Response where
  status : Nat
  header : String × String
  body : String
deriving DecidableEq, Repr

/-- `handle_ready`. -/
def handleReady (ready : Bool) : Method → Response
  | .get | .head =>
      if ready then ⟨200, ("content-type", "text/plain"), "ready\n"⟩
      else ⟨500, ("content-type", "text/plain"), "not ready\n"⟩
  | .other => ⟨405, ("allow", "GET, HEAD"), ""⟩

theorem handleReady_status_iff {ready : Bool} {method : Method} :
    (handleReady ready method).status = 200 ↔ ready = true ∧ method ≠ .other := by
  cases method <;> cases ready <;> simp [handleReady]

/-! ## The process -/

/-- Where the task of `Runtime::run` stands. -/
inductive Task
  | unspawned
  /-- It awaits `initialized()`. -/
  | initializing
  /-- It is about to set the readiness. -/
  | initialized
  /-- It awaits `shutdown_rx.signaled()`. -/
  | waiting
  /-- It is about to take the readiness back. -/
  | signaled
  | done
deriving DecidableEq, Repr

/-- The task has not set the readiness yet. -/
def Task.beforeReady : Task → Bool
  | .unspawned | .initializing | .initialized => true
  | _ => false

/-- The runtime: its handles, which of its streams the shutdown has ended, whether the
signal has fired, the `Readiness` of the admin server, and the task. -/
structure Process (S : Semaphore) where
  barrier : Barrier S
  cancelled : Nat → Bool
  fired : Bool
  ready : Bool
  task : Task

/-- What can happen.  A poll comes with the answer of what is inside. -/
inductive Process.Action
  | addHandle
  | use (n : Nat) (how : Use)
  | pollWatch (n : Nat) (answer : Next Unit)
  | run
  | pollTask
  | fire
  | probe (method : Method)

namespace Process

variable {S : Semaphore}

/-- The runtime has been built. -/
def initial (S : Semaphore) : Process S where
  barrier := Barrier.default S
  cancelled := fun _ => false
  fired := false
  ready := false
  task := .unspawned

/-- The stream of a watch is polled: a `ReleasesOnReady` inside of a
`CancelOnShutdown`. -/
def pollWatch (p : Process S) (n : Nat) (answer : Next Unit) : Option (Process S) :=
  match p.barrier.holders[n]? with
  | some (.stream w) =>
      (CancelOnShutdown.pollNext (ReleasesOnReady.pollNext fun _ => some ((), answer))
        p.fired ⟨w, p.cancelled n⟩).map fun polled =>
          { p with
            barrier := (p.barrier.replace n (.stream w) (.stream polled.1.inner)).1
            cancelled := Function.update p.cancelled n polled.1.completed }
  | _ => none

/-- The task is polled, up to its next step. -/
def pollTask (p : Process S) : Option (Process S) :=
  match p.task with
  | .initializing =>
      (p.barrier.step? .poll).map fun polled =>
        { p with
          barrier := polled.1
          task := if polled.2.answer = some (.ready ()) then .initialized
            else .initializing }
  | .initialized => some { p with ready := true, task := .waiting }
  | .waiting => some { p with task := if p.fired then .signaled else .waiting }
  | .signaled => some { p with ready := false, task := .done }
  | _ => none

/-- One action, with the response to a probe; `none` if it is not possible, or
panics. -/
def step? (p : Process S) : Action → Option (Process S × Option Response)
  | .addHandle =>
      (p.barrier.step? .addHandle).map fun added => ({ p with barrier := added.1 }, none)
  | .use n how =>
      (p.barrier.step? (.use n how)).map fun used => ({ p with barrier := used.1 }, none)
  | .pollWatch n answer => (p.pollWatch n answer).map fun p' => (p', none)
  | .run =>
      if p.task = .unspawned then
        (p.barrier.step? .await).map fun awaited =>
          ({ p with barrier := awaited.1, task := .initializing }, none)
      else none
  | .pollTask => p.pollTask.map fun p' => (p', none)
  | .fire =>
      -- `Runtime::run` listens for signals once it has spawned the task.
      if p.task = .unspawned then none else some ({ p with fired := true }, none)
  | .probe method => some (p, some (handleReady p.ready method))

/-- The step relation, with the response to a probe. -/
def Step (p : Process S) (event : Action × Option Response) (p' : Process S) : Prop :=
  p.step? event.1 = some (p', event.2)

/-! ## What a step does -/

/-- Everything that one action can do. -/
inductive Cases (p : Process S) : Action → Process S → Option Response → Prop
  | handles {a : Action} {change : Barrier.Action} {b : Barrier S}
      {outcome : Barrier.Outcome} {cancelled : Nat → Bool}
      (hchange : change = .addHandle ∨ ∃ n how, change = .use n how)
      (hbarrier : Barrier.Cases p.barrier change b outcome) :
      Cases p a { p with barrier := b, cancelled := cancelled } none
  | run {b : Barrier S} {outcome : Barrier.Outcome} (htask : p.task = .unspawned)
      (hbarrier : Barrier.Cases p.barrier .await b outcome) :
      Cases p .run { p with barrier := b, task := .initializing } none
  | polled {b : Barrier S} {outcome : Barrier.Outcome} (htask : p.task = .initializing)
      (hbarrier : Barrier.Cases p.barrier .poll b outcome) :
      Cases p .pollTask
        { p with
          barrier := b
          task := if outcome.answer = some (.ready ()) then .initialized
            else .initializing } none
  | setReady (htask : p.task = .initialized) :
      Cases p .pollTask { p with ready := true, task := .waiting } none
  | waited (htask : p.task = .waiting) :
      Cases p .pollTask { p with task := if p.fired then .signaled else .waiting } none
  | setNotReady (htask : p.task = .signaled) :
      Cases p .pollTask { p with ready := false, task := .done } none
  | fire (htask : p.task ≠ .unspawned) : Cases p .fire { p with fired := true } none
  | probe {method : Method} : Cases p (.probe method) p (some (handleReady p.ready method))

/-- A poll of the stream of a watch polls what holds the handle. -/
theorem use_of_pollNext {w : ReleasesOnReady Unit Unit} {answer : Next Unit}
    {signaled completed : Bool} {polled : CancelOnShutdown (ReleasesOnReady Unit Unit)}
    {next : Next Unit}
    (h : CancelOnShutdown.pollNext (ReleasesOnReady.pollNext fun _ => some ((), answer))
      signaled ⟨w, completed⟩ = some (polled, next)) :
    (Holder.stream w).use (.pollNext answer) = some (.stream polled.inner) := by
  obtain ⟨⟨inner, out⟩, hinner, hrest⟩ := Option.bind_eq_some_iff.mp h
  have hpolled : polled.inner = inner := by
    cases out with
    | ready next =>
        obtain ⟨rfl, -⟩ := Prod.mk.inj (Option.some.inj hrest)
        rfl
    | pending =>
        simp only at hrest
        split at hrest
        · cases hrest
        · split at hrest
          · obtain ⟨rfl, -⟩ := Prod.mk.inj (Option.some.inj hrest)
            rfl
          · obtain ⟨rfl, -⟩ := Prod.mk.inj (Option.some.inj hrest)
            rfl
  have hinner' : ReleasesOnReady.pollNext (fun _ => some ((), answer)) w =
      some (inner, out) := hinner
  simp only [Holder.use, hinner', hpolled, Option.map_some]

theorem step?_cases {p p' : Process S} {a : Action} {response : Option Response}
    (h : p.step? a = some (p', response)) : Cases p a p' response := by
  cases a with
  | addHandle =>
      obtain ⟨⟨b, outcome⟩, hbarrier, hpair⟩ := Option.map_eq_some_iff.mp h
      obtain ⟨rfl, rfl⟩ := Prod.mk.inj hpair
      exact Cases.handles (Or.inl rfl) (Barrier.step?_cases hbarrier)
  | use n how =>
      obtain ⟨⟨b, outcome⟩, hbarrier, hpair⟩ := Option.map_eq_some_iff.mp h
      obtain ⟨rfl, rfl⟩ := Prod.mk.inj hpair
      exact Cases.handles (Or.inr ⟨n, how, rfl⟩) (Barrier.step?_cases hbarrier)
  | pollWatch n answer =>
      obtain ⟨p'', hpolled, hpair⟩ := Option.map_eq_some_iff.mp h
      obtain ⟨rfl, rfl⟩ := Prod.mk.inj hpair
      unfold pollWatch at hpolled
      split at hpolled
      · rename_i w hholder
        obtain ⟨⟨polled, next⟩, hnext, rfl⟩ := Option.map_eq_some_iff.mp hpolled
        exact Cases.handles (Or.inr ⟨n, _, rfl⟩)
          (Barrier.Cases.use hholder (use_of_pollNext hnext))
      · cases hpolled
  | run =>
      simp only [step?] at h
      split at h
      · rename_i htask
        obtain ⟨⟨b, outcome⟩, hbarrier, hpair⟩ := Option.map_eq_some_iff.mp h
        obtain ⟨rfl, rfl⟩ := Prod.mk.inj hpair
        exact Cases.run htask (Barrier.step?_cases hbarrier)
      · cases h
  | pollTask =>
      obtain ⟨p'', hpolled, hpair⟩ := Option.map_eq_some_iff.mp h
      obtain ⟨rfl, rfl⟩ := Prod.mk.inj hpair
      unfold pollTask at hpolled
      split at hpolled
      · rename_i htask
        obtain ⟨⟨b, outcome⟩, hbarrier, rfl⟩ := Option.map_eq_some_iff.mp hpolled
        exact Cases.polled htask (Barrier.step?_cases hbarrier)
      · rename_i htask
        obtain rfl := Option.some.inj hpolled
        exact Cases.setReady htask
      · rename_i htask
        obtain rfl := Option.some.inj hpolled
        exact Cases.waited htask
      · rename_i htask
        obtain rfl := Option.some.inj hpolled
        exact Cases.setNotReady htask
      · cases hpolled
  | fire =>
      simp only [step?] at h
      split at h
      · cases h
      · rename_i htask
        obtain ⟨rfl, rfl⟩ := Prod.mk.inj (Option.some.inj h)
        exact Cases.fire htask
  | probe method =>
      obtain ⟨rfl, rfl⟩ := Prod.mk.inj (Option.some.inj h)
      exact Cases.probe

/-! ## When readiness is set -/

/-- Where the `Initialized` is while the task stands there. -/
def stageOf : Task → Stage
  | .unspawned => .granting
  | .initializing => .awaited
  | _ => .opened

/-- The task is in line with the handles and with the readiness. -/
structure Sound (p : Process S) : Prop where
  balanced : p.barrier.Balanced
  stage : p.barrier.stage = stageOf p.task
  ready : p.ready = true ↔ p.task = .waiting ∨ p.task = .signaled
  spawned : p.fired = true → p.task ≠ .unspawned
  released : p.barrier.holders.length < 4294967296 → p.barrier.stage = .opened →
    p.barrier.live = 0

theorem Sound.initial (hlawful : S.Lawful) : (initial S).Sound where
  balanced := Barrier.Balanced.default hlawful
  stage := rfl
  ready := by simp [Process.initial]
  spawned := nofun
  released := nofun

/-- Every action keeps the task in line. -/
theorem Sound.cases (hlawful : S.Lawful) {p p' : Process S} (h : p.Sound) {a : Action}
    {response : Option Response} (hcases : Cases p a p' response) : p'.Sound := by
  cases hcases with
  | handles hchange hbarrier =>
      have hbalanced := h.balanced.cases hlawful hbarrier
      rcases hchange with rfl | ⟨n, how, rfl⟩
      · cases hbarrier with
        | addHandle hstage hadd =>
            refine ⟨hbalanced, h.stage, h.ready, h.spawned, ?_⟩
            intro _ hopened
            rw [show p.barrier.stage = .opened from hopened] at hstage
            cases hstage
      · obtain ⟨hle, hlength⟩ := hbarrier.live_le nofun
        cases hbarrier with
        | use hold huse =>
            obtain ⟨-, hstage, -⟩ := p.barrier.replace_spec (Holder.live_of_use huse)
            refine ⟨hbalanced, hstage.trans h.stage, h.ready, h.spawned, ?_⟩
            intro hfew hopened
            have hlive := h.released (hlength ▸ hfew) (hstage.symm.trans hopened)
            exact Nat.le_zero.mp (hle.trans hlive.le)
  | run htask hbarrier =>
      have hbalanced := h.balanced.cases hlawful hbarrier
      cases hbarrier with
      | await =>
          refine ⟨hbalanced, rfl, ?_, nofun, nofun⟩
          have hready := h.ready
          rw [htask] at hready
          simpa using hready
  | polled htask hbarrier =>
      have hbalanced := h.balanced.cases hlawful hbarrier
      have hnot := h.ready
      rw [htask] at hnot
      cases hbarrier with
      | @poll stage hstage hopened =>
          by_cases hanswer : p.barrier.initialized.poll.2 = .ready ()
          · rw [if_pos hanswer] at hopened
            rw [if_pos (congrArg some hanswer)]
            refine ⟨hbalanced, hopened, by simpa using hnot, nofun, ?_⟩
            intro hfew _
            exact (h.balanced.poll_ready_iff hlawful hfew).mp hanswer
          · rw [if_neg hanswer] at hopened
            rw [if_neg (fun hsame => hanswer (Option.some.inj hsame))]
            refine ⟨hbalanced, hopened, by simpa using hnot, nofun, ?_⟩
            intro _ hcontra
            rw [show stage = .opened from hcontra] at hopened
            cases hopened
  | setReady htask =>
      have hstage := h.stage
      rw [htask] at hstage
      exact ⟨h.balanced, hstage, by simp, nofun, h.released⟩
  | waited htask =>
      have hstage := h.stage
      have hready := h.ready
      rw [htask] at hstage hready
      cases hfired : p.fired with
      | true => exact ⟨h.balanced, hstage, by simpa using hready, nofun, h.released⟩
      | false => exact ⟨h.balanced, hstage, by simpa using hready, nofun, h.released⟩
  | setNotReady htask =>
      have hstage := h.stage
      rw [htask] at hstage
      exact ⟨h.balanced, hstage, by simp, nofun, h.released⟩
  | fire htask => exact ⟨h.balanced, h.stage, h.ready, fun _ => htask, h.released⟩
  | probe => exact h

theorem sound_of_run (hlawful : S.Lawful) {events : List (Action × Option Response)}
    {p : Process S} (hrun : Run Step (Process.initial S) events p) : p.Sound := by
  refine hrun.invariant Sound ?_ (Sound.initial hlawful)
  intro p event p' h hstep
  exact h.cases hlawful (step?_cases hstep)

/-- Readiness comes up only when the task sets it. -/
theorem Cases.initialized_of_rises {p p' : Process S} {a : Action}
    {response : Option Response} (hcases : Cases p a p' response)
    (hbefore : p.ready = false) (hafter : p'.ready = true) : p.task = .initialized := by
  cases hcases with
  | setReady htask => exact htask
  | setNotReady => cases hafter
  | handles | run | polled | waited | fire | probe =>
      rw [show p.ready = true from hafter] at hbefore
      cases hbefore

/-- After the signal, and before the task has set the readiness, some handle is live;
and the number of handles fits its counter. -/
def Orderly (p : Process S) : Prop :=
  p.barrier.holders.length < 4294967296 ∧
    (p.fired = true → p.task.beforeReady = true → 0 < p.barrier.live)

/-- The steps that lead to such a state. -/
def StepOrderly (p : Process S) (event : Action × Option Response) (p' : Process S) :
    Prop :=
  Step p event p' ∧ p'.Orderly

/-- In such a state readiness does not come up after the signal. -/
theorem not_rises_of_orderly {p p' : Process S} {event : Action × Option Response}
    (h : p.Sound) (horderly : p.Orderly) (hstep : Step p event p')
    (hfired : p.fired = true) (hready : p.ready = false) : p'.ready = false := by
  cases hafter : p'.ready with
  | false => rfl
  | true =>
      have htask := (step?_cases hstep).initialized_of_rises hready hafter
      have hstage := h.stage
      rw [htask] at hstage
      have hlive := h.released horderly.1 hstage
      have hsome := horderly.2 hfired (by rw [htask]; rfl)
      omega

theorem fired_of_step {p p' : Process S} {event : Action × Option Response}
    (hstep : Step p event p') (hfired : p.fired = true) : p'.fired = true := by
  obtain ⟨a, response⟩ := event
  cases step?_cases hstep with
  | fire => rfl
  | handles | run | polled | setReady | waited | setNotReady | probe => exact hfired

/-- A probe shows the readiness. -/
theorem Cases.response_eq {p p' : Process S} {a : Action} {response : Response}
    (hcases : Cases p a p' (some response)) : ∃ method, response = handleReady p.ready method := by
  cases hcases with
  | probe => exact ⟨_, rfl⟩

/-- Once readiness is down after the signal, it stays down and probes see it. -/
theorem stays_down (hlawful : S.Lawful) {later : List (Action × Option Response)}
    {p p' : Process S} (hrun : Run StepOrderly p later p') (h : p.Sound)
    (horderly : p.Orderly) (hfired : p.fired = true) (hready : p.ready = false) :
    p'.ready = false ∧
      ∀ event ∈ later, ∀ response, event.2 = some response → response.status ≠ 200 := by
  induction hrun with
  | nil p => exact ⟨hready, nofun⟩
  | @cons p next p' event later hstep _ ih =>
      have hdown := not_rises_of_orderly h horderly hstep.1 hfired hready
      obtain ⟨hend, hprobes⟩ := ih (h.cases hlawful (step?_cases hstep.1)) hstep.2
        (fired_of_step hstep.1 hfired) hdown
      refine ⟨hend, List.forall_mem_cons.mpr ⟨?_, hprobes⟩⟩
      intro response hresponse hstatus
      have hcases := step?_cases hstep.1
      rw [hresponse] at hcases
      obtain ⟨method, rfl⟩ := hcases.response_eq
      rw [handleReady_status_iff, hready] at hstatus
      exact Bool.false_ne_true hstatus.1

/-- When all handles are released after the signal, the next steps of the task set the
readiness. -/
theorem exists_rise (hlawful : S.Lawful) {p : Process S} (h : p.Sound)
    (hfew : p.barrier.holders.length < 4294967296) (hfired : p.fired = true)
    (hbefore : p.task.beforeReady = true) (hlive : p.barrier.live = 0) :
    p.ready = false ∧ ∃ later p', Run Step p later p' ∧ p'.ready = true := by
  have hset : ∀ q : Process S, q.task = .initialized →
      Step q (.pollTask, none) { q with ready := true, task := .waiting } := by
    intro q htask
    simp [Step, step?, pollTask, htask]
  have hready : p.ready = false := by
    cases hup : p.ready with
    | false => rfl
    | true => rcases h.ready.mp hup with htask | htask <;> simp [htask, Task.beforeReady] at hbefore
  refine ⟨hready, ?_⟩
  cases htask : p.task with
  | unspawned => exact absurd htask (h.spawned hfired)
  | initialized => exact ⟨_, _, Run.cons (hset p htask) (Run.nil _), rfl⟩
  | initializing =>
      have hstage : p.barrier.stage = .awaited := by
        rw [h.stage, htask]
        rfl
      have hopen := (h.balanced.poll_ready_iff hlawful hfew).mpr hlive
      have hpair : p.barrier.initialized.poll =
          (p.barrier.initialized.poll.1, .ready ()) := Prod.ext rfl hopen
      obtain ⟨b, hpoll⟩ : ∃ b : Barrier S,
          p.barrier.step? .poll = some (b, ⟨none, some (.ready ())⟩) := by
        simp only [Barrier.step?, hstage, if_true]
        rw [hpair]
        exact ⟨_, rfl⟩
      have hfirst : Step p (.pollTask, none) { p with barrier := b, task := .initialized } := by
        simp [Step, step?, pollTask, htask, hpoll]
      exact ⟨_, _, Run.cons hfirst (Run.cons (hset _ rfl) (Run.nil _)), rfl⟩
  | waiting | signaled | done =>
      rw [htask] at hbefore
      cases hbefore

/-- Readiness and shutdown.  In every run the task sets the readiness only after every
handle has been released.  In every run in which some handle is live from the signal on
until the readiness is set, readiness never comes up after the signal, and no probe
after one that saw it down sees it up.  In every other run the task can set the
readiness after the signal as soon as it takes its next steps. -/
theorem readiness_and_shutdown (hlawful : S.Lawful) :
    (∀ events (p : Process S) event p', Run Step (Process.initial S) events p →
      p.barrier.holders.length < 4294967296 → Step p event p' →
      p.ready = false → p'.ready = true → ∀ h ∈ p.barrier.holders, h.live = false) ∧
    (∀ events (p : Process S), Run StepOrderly (Process.initial S) events p →
      p.fired = true → p.ready = false → ∀ later p', Run StepOrderly p later p' →
        p'.ready = false ∧
          ∀ event ∈ later, ∀ response, event.2 = some response → response.status ≠ 200) ∧
    (∀ events (p : Process S), Run Step (Process.initial S) events p →
      p.barrier.holders.length < 4294967296 → p.fired = true →
      p.task.beforeReady = true → p.barrier.live = 0 →
        p.ready = false ∧ ∃ later p', Run Step p later p' ∧ p'.ready = true) := by
  refine ⟨?_, ?_, ?_⟩
  · intro events p event p' hrun hfew hstep hbefore hafter
    have h := sound_of_run hlawful hrun
    have hstage := h.stage
    rw [(step?_cases hstep).initialized_of_rises hbefore hafter] at hstage
    exact Barrier.live_eq_zero_iff.mp (h.released hfew hstage)
  · intro events p hrun hfired hready later p' hlater
    have hstart : (Process.initial S).Orderly := ⟨by simp [Process.initial, Barrier.default], nofun⟩
    have horderly : p.Orderly :=
      hrun.invariant Orderly (fun _ _ _ _ hstep => hstep.2) hstart
    have h := sound_of_run hlawful (hrun.mono fun _ _ _ hstep => hstep.1)
    exact stays_down hlawful hlater h horderly hfired hready
  · intro events p hrun hfew hfired hbefore hlive
    exact exists_rise hlawful (sound_of_run hlawful hrun) hfew hfired hbefore hlive

/-- A watch is started and has its first event, readiness is set, and the process is
shut down. -/
def shutDownInOrder : List (Action × Option Response) :=
  [(.addHandle, none), (.use 0 .releaseOnReadyStream, none), (.run, none),
    (.pollTask, none), (.pollWatch 0 (.ready (some ())), none), (.pollTask, none),
    (.pollTask, none), (.probe .get, some (handleReady true .get)), (.fire, none),
    (.pollTask, none), (.pollTask, none)]

/-- Readiness has come up and gone down, and stays down. -/
theorem in_order_stays_down :
    ∃ p : Process Semaphore.fair,
      Run StepOrderly (Process.initial Semaphore.fair) shutDownInOrder p ∧
      p.fired = true ∧ p.ready = false ∧
      ∀ later p', Run StepOrderly p later p' → p'.ready = false := by
  have hrun : ∃ p : Process Semaphore.fair,
      Run StepOrderly (Process.initial Semaphore.fair) shutDownInOrder p ∧
      p.fired = true ∧ p.ready = false :=
    ⟨_, .cons ⟨rfl, by decide, nofun⟩ (.cons ⟨rfl, by decide, nofun⟩
      (.cons ⟨rfl, by decide, nofun⟩ (.cons ⟨rfl, by decide, nofun⟩
      (.cons ⟨rfl, by decide, nofun⟩ (.cons ⟨rfl, by decide, nofun⟩
      (.cons ⟨rfl, by decide, nofun⟩ (.cons ⟨rfl, by decide, nofun⟩
      (.cons ⟨rfl, by decide, nofun⟩ (.cons ⟨rfl, by decide, nofun⟩
      (.cons ⟨rfl, by decide, nofun⟩ (.nil _))))))))))), rfl, rfl⟩
  obtain ⟨p, hrun, hfired, hready⟩ := hrun
  refine ⟨p, hrun, hfired, hready, ?_⟩
  intro later p' hlater
  exact ((readiness_and_shutdown Semaphore.fair_lawful).2.1 _ p hrun hfired hready later p'
    hlater).1

/-- The process is shut down before a watch has had an event.  The signal ends the
stream, which is dropped. -/
def shutDownEarly : List (Action × Option Response) :=
  [(.addHandle, none), (.use 0 .releaseOnReadyStream, none), (.run, none),
    (.pollTask, none), (.fire, none)]

/-- A probe sees that the process is not ready, the stream ends and is dropped, and the
task goes on. -/
def readyAfterSignal : List (Action × Option Response) :=
  [(.probe .get, some (handleReady false .get)), (.pollWatch 0 .pending, none),
    (.use 0 .drop, none), (.pollTask, none), (.pollTask, none),
    (.probe .get, some (handleReady true .get))]

/-- After the signal one probe sees `not ready`, and a later one sees `ready`. -/
theorem ready_after_signal :
    ∃ p p' : Process Semaphore.fair,
      Run Step (Process.initial Semaphore.fair) shutDownEarly p ∧
      Run Step p readyAfterSignal p' ∧ p.fired = true ∧ p.ready = false ∧
      p'.ready = true ∧
      (handleReady false .get).status = 500 ∧ (handleReady true .get).status = 200 :=
  ⟨_, _, .cons rfl (.cons rfl (.cons rfl (.cons rfl (.cons rfl (.nil _))))),
    .cons rfl (.cons rfl (.cons rfl (.cons rfl (.cons rfl (.cons rfl (.nil _)))))),
    rfl, rfl, rfl, rfl, rfl⟩

end Process

end Runtime
end Kubert
