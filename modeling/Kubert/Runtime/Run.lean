import Kubert.Runtime.Readiness
import Kubert.Runtime.Shutdown
import Kubert.Server.Drain

/-!
# `Runtime::run`

`System` is a runtime with everything that it has set up before `run`, and everything
that goes on next to it afterwards: the task of `run` with the initialization handles,
the streams of `Runtime::watch`, the HTTPS server, whoever was given a `Watch` by
`shutdown_handle`, `cancel_on_shutdown` or `requeue`, the signals, and
`Shutdown::signaled`, whose result `run` returns.  They interleave at every step.

The `Watch`es that `signaled` waits for are spread over all of them.  The task of `run`
holds one until it has seen the signal, and it does not look for the signal before all
initialization handles are released.  Therefore `run` returns `Ok(())` only if every
handle was released, no matter how the shutdown goes otherwise, and it never returns
because of `Watch`es that were dropped too early.
-/

namespace Kubert
namespace Runtime

open Foundation
open Kubert.Stream (CancelOnShutdown Next)
open Kubert.Server (HttpsServer)

/-! ## Parties of the caller -/

/-- What has become of a `Watch` that the caller was given. -/
inductive Party
  | watch
  /-- `Watch::signaled` was ready: a `ReleaseShutdown`. -/
  | latch
  /-- A `CancelOnShutdown` around a future or a stream, and whether its future for the
  shutdown has completed. -/
  | wrapper (completed : Bool)
  | dropped
deriving DecidableEq, Repr

/-- What can be done with it.  A poll comes with the answer of what is inside. -/
inductive PartyAction
  | signaled
  | poll (answer : Poll Unit)
  | pollNext (answer : Next Unit)
  | drop

namespace Party

/-- It holds the drain up. -/
def held : Party → Bool
  | watch | latch => true
  | wrapper completed => !completed
  | dropped => false

/-- What it becomes, if the shutdown is `notified` or not. -/
def step? (notified : Bool) : Party → PartyAction → Option Party
  | watch, .signaled => some (if notified then latch else watch)
  | wrapper completed, .poll answer =>
      (CancelOnShutdown.poll (fun _ => ((), answer)) notified ⟨(), completed⟩).map
        fun polled => wrapper polled.1.completed
  | wrapper completed, .pollNext answer =>
      (CancelOnShutdown.pollNext (fun _ => some ((), answer)) notified ⟨(), completed⟩).map
        fun polled => wrapper polled.1.completed
  | dropped, _ => none
  | _, .drop => some dropped
  | _, _ => none

/-- Nobody holds the drain up again. -/
theorem held_of_step? {notified : Bool} {old new : Party} {a : PartyAction}
    (h : old.step? notified a = some new) (hheld : new.held = true) : old.held = true := by
  cases old with
  | watch => rfl
  | latch => rfl
  | dropped => cases h
  | wrapper completed =>
      cases completed with
      | false => rfl
      | true =>
          cases a with
          | signaled => cases h
          | drop =>
              obtain rfl := Option.some.inj h
              cases hheld
          | poll answer =>
              cases answer with
              | pending => cases h
              | ready =>
                  obtain rfl := Option.some.inj h
                  cases hheld
          | pollNext answer =>
              cases answer with
              | pending => cases h
              | ready next =>
                  obtain rfl := Option.some.inj h
                  cases hheld

end Party

/-! ## The system -/

/-- The number of `Watch`es that the task of `run` holds, or the runtime before it is
run. -/
def Task.watches : Task → Nat
  | .unspawned | .initializing | .initialized | .waiting => 1
  | .signaled | .done => 0

/-- The stream of a watch is there, and its future for the shutdown has not completed. -/
def Process.streaming {S : Semaphore} (p : Process S) (n : Nat) : Bool :=
  match p.barrier.holders[n]? with
  | some (.stream _) => !p.cancelled n
  | _ => false

/-- A runtime.  `watched` lists the handles that went into streams of
`Runtime::watch`. -/
structure System (S : Semaphore) where
  shutdown : Shutdown
  process : Process S
  watched : List Nat
  server : Option HttpsServer
  parties : List Party

namespace System

variable {S : Semaphore}

/-- What can happen. -/
inductive Action
  | deliver (kind : SignalKind)
  | poll (a : Shutdown.PollAction)
  /-- `Runtime::watch`. -/
  | watch
  /-- `Runtime::spawn_server`. -/
  | spawnServer
  /-- `Runtime::shutdown_handle`. -/
  | shutdownHandle
  /-- `Runtime::cancel_on_shutdown`, and the receiver of `Runtime::requeue`. -/
  | cancelOnShutdown
  /-- A `Watch` of the caller is cloned. -/
  | clone (n : Nat)
  | party (n : Nat) (a : PartyAction)
  | run
  | process (a : Process.Action)
  | server (a : Server.Action)

/-- The runtime has been built. -/
def initial (S : Semaphore) : System S where
  shutdown := Shutdown.sigintOrSigterm
  process := Process.initial S
  watched := []
  server := none
  parties := []

/-- The number of `Watch`es and latches that are alive. -/
def watches (s : System S) : Nat :=
  s.process.task.watches + (s.server.elim 0 fun v => v.drain.watches) +
    s.watched.countP s.process.streaming + s.parties.countP Party.held

/-- What the process does on its own.  Only the shutdown fires, `run` comes with
`signaled`, and the stream of a watch is polled through its `CancelOnShutdown`. -/
def permits (watched : List Nat) : Process.Action → Bool
  | .fire | .run => false
  | .pollWatch n _ => decide (n ∈ watched)
  | .use n (.pollNext _) => decide (n ∉ watched)
  | _ => true

/-- What the server does on its own. -/
def permitsServer : Server.Action → Bool
  | .signal | .drain => false
  | _ => true

/-- Everybody sees that the shutdown is notified. -/
def notify (s : System S) (shutdown : Shutdown) : System S :=
  { s with
    shutdown := shutdown
    process := { s.process with fired := shutdown.notified }
    server := s.server.map fun v =>
      { v with drain := { v.drain with signaled := shutdown.notified } } }

/-- One action; `none` if it is not possible, or panics. -/
def step? (s : System S) : Action → Option (System S)
  | .deliver kind => some { s with shutdown := s.shutdown.deliver kind }
  | .poll a => (s.shutdown.poll? s.watches a).map s.notify
  | .watch =>
      (s.process.step? .addHandle).bind fun added =>
        (added.1.step? (.use s.process.barrier.holders.length .releaseOnReadyStream)).map
          fun used =>
            { s with
              process := used.1
              watched := s.watched ++ [s.process.barrier.holders.length] }
  | .spawnServer =>
      if s.process.task = .unspawned ∧ s.server = none then
        some { s with server := some HttpsServer.spawn }
      else none
  | .shutdownHandle =>
      if s.process.task = .unspawned then some { s with parties := s.parties ++ [.watch] }
      else none
  | .cancelOnShutdown =>
      if s.process.task = .unspawned then
        some { s with parties := s.parties ++ [.wrapper false] }
      else none
  | .clone n =>
      if s.parties[n]? = some .watch then some { s with parties := s.parties ++ [.watch] }
      else none
  | .party n a =>
      s.parties[n]?.bind fun old => (old.step? s.shutdown.notified a).map fun new =>
        { s with parties := s.parties.set n new }
  | .run =>
      (s.process.step? .run).bind fun spawned => s.shutdown.start.map fun shutdown =>
        { s with process := spawned.1, shutdown := shutdown }
  | .process a =>
      if permits s.watched a then
        (s.process.step? a).map fun stepped => { s with process := stepped.1 }
      else none
  | .server a =>
      if permitsServer a then
        s.server.bind fun v => (v.step? a).map fun v' => { s with server := some v' }
      else none

/-- The step relation. -/
def Step (s : System S) (a : Action) (s' : System S) : Prop := s.step? a = some s'

/-- The number of signals that arrive in a run. -/
def delivered (actions : List Action) : Nat :=
  actions.countP fun
    | .deliver _ => true
    | _ => false

/-! ## What a step does -/

/-- Everything that one action can do. -/
inductive Cases (s : System S) : Action → System S → Prop
  | deliver {kind : SignalKind} :
      Cases s (.deliver kind) { s with shutdown := s.shutdown.deliver kind }
  | poll {a : Shutdown.PollAction} {x : Shutdown}
      (hpoll : Shutdown.Polls s.watches s.shutdown a x) : Cases s (.poll a) (s.notify x)
  | watch {added used : Process S} {r r' : Option Response}
      (hadd : s.process.step? .addHandle = some (added, r))
      (huse : added.step? (.use s.process.barrier.holders.length .releaseOnReadyStream) =
        some (used, r')) :
      Cases s .watch
        { s with
          process := used
          watched := s.watched ++ [s.process.barrier.holders.length] }
  | spawnServer (htask : s.process.task = .unspawned) (hserver : s.server = none) :
      Cases s .spawnServer { s with server := some HttpsServer.spawn }
  | granted {a : Action} {new : Party}
      (hheld : s.process.task = .unspawned ∨ Party.watch ∈ s.parties) :
      Cases s a { s with parties := s.parties ++ [new] }
  | party {n : Nat} {a : PartyAction} {old new : Party} (hold : s.parties[n]? = some old)
      (hparty : old.step? s.shutdown.notified a = some new) :
      Cases s (.party n a) { s with parties := s.parties.set n new }
  | run {spawned : Process S} {r : Option Response} {x : Shutdown}
      (hrun : s.process.step? .run = some (spawned, r)) (hstart : s.shutdown.start = some x) :
      Cases s .run { s with process := spawned, shutdown := x }
  | process {a : Process.Action} {p : Process S} {r : Option Response}
      (hpermits : permits s.watched a = true) (hstep : s.process.step? a = some (p, r)) :
      Cases s (.process a) { s with process := p }
  | server {a : Server.Action} {v v' : HttpsServer} (hpermits : permitsServer a = true)
      (hserver : s.server = some v) (hstep : v.step? a = some v') :
      Cases s (.server a) { s with server := some v' }

theorem step?_cases {s s' : System S} {a : Action} (h : s.step? a = some s') :
    Cases s a s' := by
  cases a with
  | deliver kind =>
      obtain rfl := Option.some.inj h
      exact Cases.deliver
  | poll a =>
      obtain ⟨x, hpoll, rfl⟩ := Option.map_eq_some_iff.mp h
      exact Cases.poll hpoll
  | watch =>
      obtain ⟨⟨added, r⟩, hadd, hrest⟩ := Option.bind_eq_some_iff.mp h
      obtain ⟨⟨used, r'⟩, huse, rfl⟩ := Option.map_eq_some_iff.mp hrest
      exact Cases.watch hadd huse
  | spawnServer =>
      obtain ⟨⟨htask, hserver⟩, hrest⟩ := Option.ite_none_right_eq_some.mp h
      obtain rfl := Option.some.inj hrest
      exact Cases.spawnServer htask hserver
  | shutdownHandle =>
      obtain ⟨htask, hrest⟩ := Option.ite_none_right_eq_some.mp h
      obtain rfl := Option.some.inj hrest
      exact Cases.granted (Or.inl htask)
  | cancelOnShutdown =>
      obtain ⟨htask, hrest⟩ := Option.ite_none_right_eq_some.mp h
      obtain rfl := Option.some.inj hrest
      exact Cases.granted (Or.inl htask)
  | clone n =>
      obtain ⟨hwatch, hrest⟩ := Option.ite_none_right_eq_some.mp h
      obtain rfl := Option.some.inj hrest
      exact Cases.granted (Or.inr (List.mem_of_getElem? hwatch))
  | party n a =>
      obtain ⟨old, hold, hrest⟩ := Option.bind_eq_some_iff.mp h
      obtain ⟨new, hparty, rfl⟩ := Option.map_eq_some_iff.mp hrest
      exact Cases.party hold hparty
  | run =>
      obtain ⟨⟨spawned, r⟩, hspawned, hrest⟩ := Option.bind_eq_some_iff.mp h
      obtain ⟨x, hstart, rfl⟩ := Option.map_eq_some_iff.mp hrest
      exact Cases.run hspawned hstart
  | process a =>
      obtain ⟨hpermits, hrest⟩ := Option.ite_none_right_eq_some.mp h
      obtain ⟨⟨p, r⟩, hstep, rfl⟩ := Option.map_eq_some_iff.mp hrest
      exact Cases.process hpermits hstep
  | server a =>
      obtain ⟨hpermits, hrest⟩ := Option.ite_none_right_eq_some.mp h
      obtain ⟨v, hserver, hrest'⟩ := Option.bind_eq_some_iff.mp hrest
      obtain ⟨v', hstep, rfl⟩ := Option.map_eq_some_iff.mp hrest'
      exact Cases.server hpermits hserver hstep

end System

/-! ## The process as a part of the system -/

namespace Process

variable {S : Semaphore}

/-- What an action does to the holders and to the streams that were ended. -/
inductive Holders (p : Process S) : Action → Process S → Prop
  | same {a : Action} {p' : Process S} (hholders : p'.barrier.holders = p.barrier.holders)
      (hcancelled : p'.cancelled = p.cancelled) : Holders p a p'
  | added {p' : Process S} (hholders : p'.barrier.holders = p.barrier.holders ++ [.handle])
      (hcancelled : p'.cancelled = p.cancelled) : Holders p .addHandle p'
  | used {n : Nat} {how : Use} {old new : Holder} {p' : Process S}
      (hold : p.barrier.holders[n]? = some old) (huse : old.use how = some new)
      (hholders : p'.barrier.holders = p.barrier.holders.set n new)
      (hcancelled : p'.cancelled = p.cancelled) : Holders p (.use n how) p'
  | polled {n : Nat} {answer : Next Unit} {w w' : Stream.ReleasesOnReady Unit Unit}
      {completed : Bool} {p' : Process S} (hold : p.barrier.holders[n]? = some (.stream w))
      (huse : (Holder.stream w).use (.pollNext answer) = some (.stream w'))
      (hholders : p'.barrier.holders = p.barrier.holders.set n (.stream w'))
      (hcancelled : p'.cancelled = Function.update p.cancelled n completed)
      (hcompleted : p.cancelled n = true → completed = true) :
      Holders p (.pollWatch n answer) p'

/-- A future for the shutdown that has completed stays so. -/
theorem completed_of_pollNext {w : Stream.ReleasesOnReady Unit Unit} {answer : Next Unit}
    {signaled completed : Bool} {polled : CancelOnShutdown (Stream.ReleasesOnReady Unit Unit)}
    {next : Next Unit}
    (h : CancelOnShutdown.pollNext (Stream.ReleasesOnReady.pollNext fun _ => some ((), answer))
      signaled ⟨w, completed⟩ = some (polled, next))
    (hcompleted : completed = true) : polled.completed = true := by
  subst hcompleted
  cases answer with
  | pending => cases h
  | ready item =>
      obtain ⟨rfl, -⟩ := Prod.mk.inj (Option.some.inj h)
      rfl

theorem step?_holders {p p' : Process S} {a : Action} {r : Option Response}
    (h : p.step? a = some (p', r)) : Holders p a p' := by
  cases a with
  | addHandle =>
      obtain ⟨⟨b, outcome⟩, hbarrier, hpair⟩ := Option.map_eq_some_iff.mp h
      obtain ⟨rfl, -⟩ := Prod.mk.inj hpair
      cases Barrier.step?_cases hbarrier with
      | addHandle => exact Holders.added rfl rfl
  | use n how =>
      obtain ⟨⟨b, outcome⟩, hbarrier, hpair⟩ := Option.map_eq_some_iff.mp h
      obtain ⟨rfl, -⟩ := Prod.mk.inj hpair
      cases Barrier.step?_cases hbarrier with
      | use hold huse =>
          obtain ⟨hholders, -⟩ := p.barrier.replace_spec (n := n) (Holder.live_of_use huse)
          exact Holders.used hold huse hholders rfl
  | pollWatch n answer =>
      obtain ⟨q, hpolled, hpair⟩ := Option.map_eq_some_iff.mp h
      obtain ⟨rfl, -⟩ := Prod.mk.inj hpair
      unfold pollWatch at hpolled
      split at hpolled
      · rename_i w hold
        obtain ⟨⟨polled, next⟩, hnext, rfl⟩ := Option.map_eq_some_iff.mp hpolled
        have huse := use_of_pollNext hnext
        obtain ⟨hholders, -⟩ := p.barrier.replace_spec (n := n) (Holder.live_of_use huse)
        exact Holders.polled hold huse hholders rfl (completed_of_pollNext hnext)
      · cases hpolled
  | run =>
      obtain ⟨-, hrest⟩ := Option.ite_none_right_eq_some.mp h
      obtain ⟨⟨b, outcome⟩, hbarrier, hpair⟩ := Option.map_eq_some_iff.mp hrest
      obtain ⟨rfl, -⟩ := Prod.mk.inj hpair
      cases Barrier.step?_cases hbarrier with
      | await => exact Holders.same rfl rfl
  | pollTask =>
      obtain ⟨q, hpolled, hpair⟩ := Option.map_eq_some_iff.mp h
      obtain ⟨rfl, -⟩ := Prod.mk.inj hpair
      unfold pollTask at hpolled
      split at hpolled
      · obtain ⟨⟨b, outcome⟩, hbarrier, rfl⟩ := Option.map_eq_some_iff.mp hpolled
        cases Barrier.step?_cases hbarrier with
        | poll => exact Holders.same rfl rfl
      · obtain rfl := Option.some.inj hpolled
        exact Holders.same rfl rfl
      · obtain rfl := Option.some.inj hpolled
        exact Holders.same rfl rfl
      · obtain rfl := Option.some.inj hpolled
        exact Holders.same rfl rfl
      · cases hpolled
  | fire =>
      obtain ⟨-, hrest⟩ := Option.ite_none_left_eq_some.mp h
      obtain ⟨rfl, -⟩ := Prod.mk.inj (Option.some.inj hrest)
      exact Holders.same rfl rfl
  | probe method =>
      obtain ⟨rfl, -⟩ := Prod.mk.inj (Option.some.inj h)
      exact Holders.same rfl rfl

/-- The handle went into a stream, which may have been dropped. -/
def Streamed (p : Process S) (n : Nat) : Prop :=
  (∃ w, p.barrier.holders[n]? = some (.stream w)) ∨ p.barrier.holders[n]? = some .dropped

/-- A stream of a watch stays one, and does not come back when it has ended or was
dropped. -/
theorem Holders.streamed {p p' : Process S} {a : Action} (h : Holders p a p')
    {n : Nat} (hpolls : ∀ answer, a ≠ .use n (.pollNext answer)) (hstreamed : p.Streamed n) :
    p'.Streamed n ∧ (p'.streaming n = true → p.streaming n = true) := by
  have hlt : n < p.barrier.holders.length := by
    rcases hstreamed with ⟨w, hw⟩ | hdropped
    · exact (List.getElem?_eq_some_iff.mp hw).1
    · exact (List.getElem?_eq_some_iff.mp hdropped).1
  -- If neither its holder nor its flag changes, then nothing does.
  have hframe : ∀ q : Process S, q.barrier.holders[n]? = p.barrier.holders[n]? →
      q.cancelled n = p.cancelled n →
      q.Streamed n ∧ (q.streaming n = true → p.streaming n = true) := by
    intro q hholder hflag
    simp only [Streamed, streaming, hholder, hflag]
    exact ⟨hstreamed, fun hstream => hstream⟩
  cases h with
  | same hholders hcancelled => exact hframe p' (by rw [hholders]) (by rw [hcancelled])
  | added hholders hcancelled =>
      exact hframe p' (by rw [hholders, List.getElem?_append_left hlt]) (by rw [hcancelled])
  | @used m how old new _ hold huse hholders hcancelled =>
      by_cases hm : m = n
      · subst hm
        have hself : p'.barrier.holders[m]? = some new := by
          rw [hholders, List.getElem?_set_self hlt]
        -- Of a stream of a watch nothing is left but to drop it.
        have hnew : new = .dropped := by
          rcases hstreamed with ⟨w, hw⟩ | hdropped
          · rw [hold] at hw
            obtain rfl := Option.some.inj hw
            cases how with
            | drop => exact (Option.some.inj huse).symm
            | pollNext answer => exact absurd rfl (hpolls answer)
            | releaseOnReadyFuture | releaseOnReadyStream | poll => cases huse
          · rw [hold] at hdropped
            obtain rfl := Option.some.inj hdropped
            cases how <;> cases huse
        subst hnew
        refine ⟨Or.inr hself, ?_⟩
        intro hstream
        simp [streaming, hself] at hstream
      · exact hframe p' (by rw [hholders, List.getElem?_set_ne hm]) (by rw [hcancelled])
  | @polled m answer w w' completed _ hold _ hholders hcancelled hcompleted =>
      by_cases hm : m = n
      · subst hm
        have hself : p'.barrier.holders[m]? = some (.stream w') := by
          rw [hholders, List.getElem?_set_self hlt]
        refine ⟨Or.inl ⟨w', hself⟩, ?_⟩
        intro hstream
        simp only [streaming, hself, hcancelled, Function.update_self, Bool.not_eq_true'] at hstream
        simp only [streaming, hold, Bool.not_eq_true']
        exact Bool.eq_false_iff.mpr fun hbefore =>
          Bool.eq_false_iff.mp hstream (hcompleted hbefore)
      · refine hframe p' (by rw [hholders, List.getElem?_set_ne hm]) ?_
        rw [hcancelled, Function.update_of_ne (Ne.symm hm)]

/-- The task keeps its `Watch` until it has seen the signal. -/
theorem Cases.task_watches {p p' : Process S} {a : Action} {r : Option Response}
    (h : Cases p a p' r) (hfire : a ≠ .fire) :
    p'.fired = p.fired ∧ p'.task.watches ≤ p.task.watches ∧
      (p'.task.watches = 0 → p.task.watches = 0 ∨ p.fired = true) := by
  cases h with
  | handles | probe => exact ⟨rfl, le_refl _, Or.inl⟩
  | run htask =>
      rw [htask]
      exact ⟨rfl, le_refl _, nofun⟩
  | polled htask =>
      rw [htask]
      split
      · exact ⟨rfl, le_refl _, nofun⟩
      · exact ⟨rfl, le_refl _, nofun⟩
  | setReady htask =>
      rw [htask]
      exact ⟨rfl, le_refl _, nofun⟩
  | waited htask =>
      rw [htask]
      cases hfired : p.fired with
      | true => exact ⟨hfired.symm ▸ hfired, Nat.zero_le _, fun _ => Or.inr rfl⟩
      | false => exact ⟨hfired.symm ▸ hfired, le_refl _, nofun⟩
  | setNotReady htask =>
      rw [htask]
      exact ⟨rfl, le_refl _, fun _ => Or.inl rfl⟩
  | fire => exact absurd rfl hfire

/-- Only `run` spawns the task. -/
theorem Cases.unspawned_iff {p p' : Process S} {a : Action} {r : Option Response}
    (h : Cases p a p' r) (hrun : a ≠ .run) :
    p'.task = .unspawned ↔ p.task = .unspawned := by
  cases h with
  | handles | probe | fire => exact Iff.rfl
  | run => exact absurd rfl hrun
  | polled htask | waited htask =>
      rw [htask]
      split <;> simp
  | setReady htask | setNotReady htask => simp [htask]

/-- Handles are added before the runtime is run. -/
theorem Sound.unspawned_of_addHandle {p p' : Process S} {r : Option Response} (h : p.Sound)
    (hadd : p.step? .addHandle = some (p', r)) : p.task = .unspawned := by
  obtain ⟨⟨b, outcome⟩, hbarrier, -⟩ := Option.map_eq_some_iff.mp hadd
  cases Barrier.step?_cases hbarrier with
  | addHandle hstage =>
      rw [h.stage] at hstage
      cases htask : p.task with
      | unspawned => rfl
      | initializing | initialized | waiting | signaled | done =>
          rw [htask] at hstage
          cases hstage

theorem tasks_of_run {p p' : Process S} {r : Option Response}
    (hrun : p.step? .run = some (p', r)) :
    p.task = .unspawned ∧ p'.task = .initializing := by
  obtain ⟨htask, hrest⟩ := Option.ite_none_right_eq_some.mp hrun
  obtain ⟨awaited, -, hpair⟩ := Option.map_eq_some_iff.mp hrest
  obtain ⟨rfl, -⟩ := Prod.mk.inj hpair
  exact ⟨htask, rfl⟩

end Process

/-! ## What holds in every run -/

namespace System

variable {S : Semaphore}

/-- Everything that happens to the `Watch`es is accounted for: the parts are sound, see
whether the shutdown is notified, and hold no `Watch` once `signaled` has returned
`Ok(())`. -/
structure Sound (s : System S) : Prop where
  process : s.process.Sound
  server : ∀ v, s.server = some v → v.Drains
  fired : s.process.fired = s.shutdown.notified
  told : ∀ v, s.server = some v → v.drain.signaled = s.shutdown.notified
  created : s.shutdown.stage = .created ↔ s.process.task = .unspawned
  late : s.shutdown.SendsLate
  waits : s.process.task.watches = 0 → s.process.fired = true
  watched : ∀ n ∈ s.watched, s.process.Streamed n
  drained : s.shutdown.stage = .returned .ok → s.watches = 0

theorem Sound.initial (hlawful : S.Lawful) : (initial S).Sound where
  process := Process.Sound.initial hlawful
  server := nofun
  fired := rfl
  told := nofun
  created := by simp [System.initial, Shutdown.sigintOrSigterm, Process.initial]
  late := nofun
  waits := nofun
  watched := nofun
  drained := nofun

/-- Before the first `select!` is over, the task holds its `Watch`. -/
theorem Sound.watches_ne_zero {s : System S} (h : s.Sound)
    (hbegun : s.shutdown.begun = false) : s.watches ≠ 0 := by
  intro hzero
  have htask : s.process.task.watches = 0 := by
    unfold watches at hzero
    omega
  have hnotified := h.waits htask
  rw [h.fired] at hnotified
  rw [h.late.begun_of_notified hnotified] at hbegun
  cases hbegun

theorem watches_notify (s : System S) (x : Shutdown) : (s.notify x).watches = s.watches := by
  unfold watches notify
  cases s.server <;> rfl

/-- `signaled` returns `Ok(())` only when no `Watch` is left. -/
theorem watches_of_polls {watches : Nat} {x x' : Shutdown} {a : Shutdown.PollAction}
    (h : Shutdown.Polls watches x a x') (hreturned : x'.stage = .returned .ok) :
    watches = 0 := by
  cases a with
  | select from_ =>
      simp only [Shutdown.Polls, Shutdown.poll?, Shutdown.select] at h
      split at h
      · obtain rfl := Option.some.inj h
        cases hreturned
      · obtain rfl := Option.some.inj h
        cases hreturned
      · cases h
  | branch =>
      cases Shutdown.pollBranch_polled h with
      | closed _ hwatches => exact hwatches
      | drained _ hwatches => exact hwatches
      | signaled | aborted =>
          rw [Shutdown.receive_stage] at hreturned
          cases hreturned
      | notSignaled | notDrained | notAborted => cases hreturned

theorem permits_ne {watched : List Nat} {a : Process.Action}
    (h : permits watched a = true) : a ≠ .fire ∧ a ≠ .run := by
  constructor
  · rintro rfl
    cases h
  · rintro rfl
    cases h

theorem permits_ne_pollNext {watched : List Nat} {a : Process.Action}
    (h : permits watched a = true) {n : Nat} (hmem : n ∈ watched) (answer : Next Unit) :
    a ≠ .use n (.pollNext answer) := by
  rintro rfl
  simp [permits, hmem] at h

/-- When no `Watch` is left, nobody obtains one. -/
theorem Sound.watches_stay_zero {s s' : System S} {a : Action} (h : s.Sound)
    (hzero : s.watches = 0) (hcases : Cases s a s') : s'.watches = 0 := by
  have hparts : s.process.task.watches = 0 ∧
      (s.server.elim 0 fun v => v.drain.watches) = 0 ∧
      s.watched.countP s.process.streaming = 0 ∧ s.parties.countP Party.held = 0 := by
    unfold watches at hzero
    omega
  obtain ⟨htask, hserver, hstreams, hparties⟩ := hparts
  have hspawned : s.process.task ≠ .unspawned := by
    intro hunspawned
    rw [hunspawned] at htask
    cases htask
  cases hcases with
  | deliver => exact hzero
  | poll => exact (watches_notify s _).trans hzero
  | watch hadd => exact absurd (h.process.unspawned_of_addHandle hadd) hspawned
  | spawnServer hunspawned => exact absurd hunspawned hspawned
  | granted hheld =>
      rcases hheld with hunspawned | hwatch
      · exact absurd hunspawned hspawned
      · exact absurd rfl (List.countP_eq_zero.mp hparties _ hwatch)
  | @party n a old new hold hparty =>
      have hnew : ∀ q ∈ s.parties.set n new, ¬q.held = true := by
        refine forall_mem_set (List.countP_eq_zero.mp hparties) ?_
        intro hheld
        exact List.countP_eq_zero.mp hparties _ (List.mem_of_getElem? hold)
          (Party.held_of_step? hparty hheld)
      simp only [watches, htask, hserver, hstreams, List.countP_eq_zero.mpr hnew]
  | run hrun => exact absurd (Process.tasks_of_run hrun).1 hspawned
  | @process a p r hpermits hstep =>
      obtain ⟨-, hle, -⟩ := (Process.step?_cases hstep).task_watches (permits_ne hpermits).1
      have hgone : ∀ n ∈ s.watched, ¬p.streaming n = true := by
        intro n hmem hstream
        obtain ⟨-, hbefore⟩ := (Process.step?_holders hstep).streamed
          (permits_ne_pollNext hpermits hmem) (h.watched n hmem)
        exact List.countP_eq_zero.mp hstreams n hmem (hbefore hstream)
      have htask' : p.task.watches = 0 := Nat.le_zero.mp (hle.trans htask.le)
      simp only [watches, htask', hserver, List.countP_eq_zero.mpr hgone, hparties]
  | @server a v v' hpermits hsome hstep =>
      rw [hsome] at hserver
      have hzero' := HttpsServer.watches_stay_zero (h.server v hsome).accounted hserver
        (HttpsServer.step?_cases hstep)
      simp only [watches, htask, Option.elim_some, hzero', hstreams, hparties]

/-- The process sees whether the shutdown is notified. -/
theorem sound_fired {p : Process S} (h : p.Sound) (fired : Bool)
    (hspawned : p.task ≠ .unspawned) : ({ p with fired := fired } : Process S).Sound where
  balanced := h.balanced
  stage := h.stage
  ready := h.ready
  spawned := fun _ => hspawned
  released := h.released

/-- `Runtime::watch` puts the new handle into a stream. -/
theorem streamed_of_watch {p added used : Process S} {r r' : Option Response}
    {watched : List Nat} (hwatched : ∀ n ∈ watched, p.Streamed n)
    (hadd : p.step? .addHandle = some (added, r))
    (huse : added.step? (.use p.barrier.holders.length .releaseOnReadyStream) =
      some (used, r')) :
    ∀ n ∈ watched ++ [p.barrier.holders.length], used.Streamed n := by
  refine forall_mem_append_singleton ?_ ?_
  · intro n hmem
    have hfirst := ((Process.step?_holders hadd).streamed nofun (hwatched n hmem)).1
    exact ((Process.step?_holders huse).streamed (n := n) (by simp) hfirst).1
  · left
    have hadded : added.barrier.holders = p.barrier.holders ++ [.handle] := by
      obtain ⟨⟨b, outcome⟩, hbarrier, hpair⟩ := Option.map_eq_some_iff.mp hadd
      obtain ⟨rfl, -⟩ := Prod.mk.inj hpair
      cases Barrier.step?_cases hbarrier with
      | addHandle => rfl
    obtain ⟨⟨b, outcome⟩, hbarrier, hpair⟩ := Option.map_eq_some_iff.mp huse
    obtain ⟨rfl, -⟩ := Prod.mk.inj hpair
    cases Barrier.step?_cases hbarrier with
    | use hold hnew =>
        obtain ⟨hholders, -⟩ := added.barrier.replace_spec (n := p.barrier.holders.length)
          (Holder.live_of_use hnew)
        rw [hadded, List.getElem?_concat_length] at hold
        obtain rfl := Option.some.inj hold
        obtain rfl := Option.some.inj hnew
        refine ⟨⟨(), some ()⟩, ?_⟩
        change (added.barrier.replace _ _ _).1.holders[_]? = _
        rw [hholders, hadded]
        simp

/-- Only the shutdown signals the server. -/
theorem signaled_of_server {v v' : HttpsServer} {a : Server.Action}
    (hpermits : permitsServer a = true) (h : HttpsServer.Cases v a v') :
    v'.drain.signaled = v.drain.signaled := by
  cases h with
  | conn _ hmoves => cases hmoves <;> rfl
  | signal => cases hpermits
  | drain => cases hpermits
  | select | stop | notSignaled | notAccepted | accepted | acceptFailed | configured
  | nodelayFailed | spawned | peerAddrFailed | wake => rfl

/-- Every action keeps the system sound. -/
theorem Sound.cases (hlawful : S.Lawful) {s s' : System S} {a : Action} (h : s.Sound)
    (hcases : Cases s a s') : s'.Sound := by
  -- What was returned before the action is not affected by it.
  have hdrained : s.shutdown.stage = .returned .ok → s'.watches = 0 := fun hreturned =>
    h.watches_stay_zero (h.drained hreturned) hcases
  cases hcases with
  | @deliver kind =>
      refine { h with fired := ?_, told := ?_, created := ?_, late := ?_, drained := ?_ }
      · simpa using h.fired
      · simpa using h.told
      · simpa using h.created
      · intro hsent
        have hbegun := h.late (by simpa using hsent)
        simpa [Shutdown.begun] using hbegun
      · simpa using hdrained
  | poll hpoll =>
      obtain ⟨hbefore, hafter, hmono, hlate⟩ := hpoll.stage_ne
      have hspawned : s.process.task ≠ .unspawned := fun hunspawned =>
        hbefore (h.created.mpr hunspawned)
      refine ⟨sound_fired h.process _ hspawned, ?_, rfl, ?_, ?_, hlate h.late, ?_, h.watched,
        ?_⟩
      · intro v' hv'
        obtain ⟨v, hv, rfl⟩ := Option.map_eq_some_iff.mp hv'
        obtain ⟨haccounted, hnone, hserved⟩ := h.server v hv
        exact ⟨haccounted, hnone, hserved⟩
      · intro v' hv'
        obtain ⟨v, hv, rfl⟩ := Option.map_eq_some_iff.mp hv'
        rfl
      · exact iff_of_false hafter hspawned
      · intro htask
        exact hmono (h.fired ▸ h.waits htask)
      · intro hreturned
        rw [watches_notify]
        exact watches_of_polls hpoll hreturned
  | watch hadd huse =>
      have hfirst := (Process.step?_cases hadd).task_watches (by simp)
      have hsecond := (Process.step?_cases huse).task_watches (by simp)
      refine ⟨(h.process.cases hlawful (Process.step?_cases hadd)).cases hlawful
        (Process.step?_cases huse), h.server, ?_, h.told, ?_, h.late, ?_,
        streamed_of_watch h.watched hadd huse, hdrained⟩
      · exact hsecond.1.trans (hfirst.1.trans h.fired)
      · rw [(Process.step?_cases huse).unspawned_iff (by simp),
          (Process.step?_cases hadd).unspawned_iff (by simp)]
        exact h.created
      · intro htask
        have hfired : s.process.fired = true := by
          rcases hsecond.2.2 htask with hmid | hfired
          · rcases hfirst.2.2 hmid with hstart | hfired
            · exact h.waits hstart
            · exact hfired
          · exact hfirst.1.symm.trans hfired
        exact hsecond.1.trans (hfirst.1.trans hfired)
  | spawnServer htask =>
      have hquiet : s.shutdown.notified = false := by
        rw [← h.fired]
        exact Bool.eq_false_iff.mpr fun hfired => h.process.spawned hfired htask
      refine { h with server := ?_, told := ?_, drained := hdrained }
      · intro v hv
        obtain rfl := Option.some.inj hv
        exact HttpsServer.drains_spawn
      · intro v hv
        obtain rfl := Option.some.inj hv
        exact hquiet.symm
  | granted | party => exact { h with drained := hdrained }
  | @run spawned r x hrun hstart =>
      obtain ⟨hcreated, hx⟩ := Option.ite_none_right_eq_some.mp hstart
      obtain rfl := Option.some.inj hx
      have hcases := Process.step?_cases hrun
      obtain ⟨hfired, -, hwatches⟩ := hcases.task_watches (by simp)
      have hspawned : spawned.task ≠ .unspawned := by
        rw [(Process.tasks_of_run hrun).2]
        simp
      have hnotSent : s.shutdown.sent = false := by
        cases hsent : s.shutdown.sent with
        | false => rfl
        | true =>
            have hbegun := h.late hsent
            simp [Shutdown.begun, hcreated] at hbegun
      refine ⟨h.process.cases hlawful hcases, h.server, ?_, ?_, ?_, ?_, ?_, ?_, ?_⟩
      · rw [hfired, h.fired]
        simp [Shutdown.notified, hcreated]
      · intro v hv
        rw [h.told v hv]
        simp [Shutdown.notified, hcreated]
      · exact iff_of_false (by simp) hspawned
      · intro hsent
        rw [hnotSent] at hsent
        cases hsent
      · intro htask
        rcases hwatches htask with hbefore | hbefore
        · exact hfired.trans (h.waits hbefore)
        · exact hfired.trans hbefore
      · intro n hmem
        exact ((Process.step?_holders hrun).streamed (by simp) (h.watched n hmem)).1
      · simp
  | process hpermits hstep =>
      obtain ⟨hfire, hnotRun⟩ := permits_ne hpermits
      have hcases := Process.step?_cases hstep
      obtain ⟨hfired, -, hwatches⟩ := hcases.task_watches hfire
      refine ⟨h.process.cases hlawful hcases, h.server, hfired.trans h.fired, h.told, ?_,
        h.late, ?_, ?_, hdrained⟩
      · rw [hcases.unspawned_iff hnotRun]
        exact h.created
      · intro htask
        rcases hwatches htask with hbefore | hbefore
        · exact hfired.trans (h.waits hbefore)
        · exact hfired.trans hbefore
      · intro n hmem
        exact ((Process.step?_holders hstep).streamed (permits_ne_pollNext hpermits hmem)
          (h.watched n hmem)).1
  | server hpermits hsome hstep =>
      refine { h with server := ?_, told := ?_, drained := hdrained }
      · intro v' hv'
        obtain rfl := Option.some.inj hv'
        exact (h.server _ hsome).cases (HttpsServer.step?_cases hstep)
      · intro v' hv'
        obtain rfl := Option.some.inj hv'
        exact (signaled_of_server hpermits (HttpsServer.step?_cases hstep)).trans
          (h.told _ hsome)

theorem sound_of_run (hlawful : S.Lawful) {actions : List Action} {s : System S}
    (hrun : Run Step (initial S) actions s) : s.Sound :=
  hrun.invariant Sound (fun _ _ _ h hstep => h.cases hlawful (step?_cases hstep))
    (Sound.initial hlawful)

/-! ## Nobody is left -/

/-- Nobody is left that holds the drain up. -/
structure AllDone (s : System S) : Prop where
  task : s.process.task = .signaled ∨ s.process.task = .done
  server : ∀ v, s.server = some v →
    v.loop = .returned ∧ ∀ c ∈ v.conns, c = .failed ∨ c = .finished .closed
  streams : ∀ n ∈ s.watched, s.process.streaming n = false
  parties : ∀ q ∈ s.parties, q.held = false

theorem task_watches_eq_zero_iff {task : Task} :
    task.watches = 0 ↔ task = .signaled ∨ task = .done := by
  cases task <;> simp [Task.watches]

/-- No `Watch` is left exactly if nobody is. -/
theorem Sound.watches_eq_zero_iff {s : System S} (h : s.Sound) :
    s.watches = 0 ↔ s.AllDone := by
  constructor
  · intro hzero
    have hparts : s.process.task.watches = 0 ∧
        (s.server.elim 0 fun v => v.drain.watches) = 0 ∧
        s.watched.countP s.process.streaming = 0 ∧ s.parties.countP Party.held = 0 := by
      unfold watches at hzero
      omega
    obtain ⟨htask, hserver, hstreams, hparties⟩ := hparts
    refine ⟨task_watches_eq_zero_iff.mp htask, ?_, ?_, ?_⟩
    · intro v hv
      rw [hv] at hserver
      obtain ⟨haccounted, -, hserved⟩ := h.server v hv
      obtain ⟨hloop, hlive⟩ := haccounted.returned hserver
      refine ⟨hloop, fun c hc => ?_⟩
      have hreturned := hlive c hc
      have hover := hserved c hc
      cases c with
      | failed => exact Or.inl rfl
      | finished http =>
          obtain rfl := hover
          exact Or.inr rfl
      | loading | handshaking | serving | draining => cases hreturned
    · intro n hmem
      exact Bool.eq_false_iff.mpr (List.countP_eq_zero.mp hstreams n hmem)
    · intro q hq
      exact Bool.eq_false_iff.mpr (List.countP_eq_zero.mp hparties q hq)
  · intro hdone
    have hserver : (s.server.elim 0 fun v => v.drain.watches) = 0 := by
      cases hsome : s.server with
      | none => rfl
      | some v =>
          obtain ⟨hloop, hconns⟩ := hdone.server v hsome
          have haccounted := (h.server v hsome).accounted
          unfold HttpsServer.Accounted at haccounted
          have hlive : v.liveTasks = 0 := by
            refine List.countP_eq_zero.mpr fun c hc => ?_
            rcases hconns c hc with rfl | rfl
            · exact Bool.false_ne_true
            · exact Bool.false_ne_true
          rw [hloop, hlive] at haccounted
          exact haccounted
    have hstreams : s.watched.countP s.process.streaming = 0 :=
      List.countP_eq_zero.mpr fun n hmem => Bool.eq_false_iff.mp (hdone.streams n hmem)
    have hparties : s.parties.countP Party.held = 0 :=
      List.countP_eq_zero.mpr fun q hq => Bool.eq_false_iff.mp (hdone.parties q hq)
    simp only [watches, task_watches_eq_zero_iff.mpr hdone.task, hserver, hstreams, hparties]

/-! ## What `run` returns -/

/-- The signals that were seen have arrived, and one has if the shutdown has begun. -/
structure Counted (past : List Action) (s : System S) : Prop where
  seen : s.shutdown.seen ≤ delivered past
  begun : s.shutdown.begun = true → 0 < delivered past

theorem delivered_append_singleton (past : List Action) (a : Action) :
    delivered past ≤ delivered (past ++ [a]) := by
  rw [delivered, delivered, List.countP_append]
  exact Nat.le_add_right _ _

theorem Counted.poll {past : List Action} {s : System S} (h : s.Sound)
    (hcounted : Counted past s) {a : Shutdown.PollAction} {x : Shutdown}
    (hpoll : Shutdown.Polls s.watches s.shutdown a x) :
    x.seen ≤ delivered past ∧ (x.begun = true → 0 < delivered past) := by
  refine ⟨hpoll.seen_le.trans hcounted.seen, ?_⟩
  intro hbegun
  have hbefore : s.shutdown.begun = true ∨ 0 < s.shutdown.seen := by
    cases a with
    | branch => exact (Shutdown.pollBranch_polled hpoll).begun_of h.watches_ne_zero hbegun
    | select from_ =>
        left
        simp only [Shutdown.Polls, Shutdown.poll?, Shutdown.select] at hpoll
        split at hpoll
        · obtain rfl := Option.some.inj hpoll
          cases hbegun
        · rename_i hstage
          simp [Shutdown.begun, hstage]
        · cases hpoll
  rcases hbefore with hbefore | hseen
  · exact hcounted.begun hbefore
  · exact hseen.trans_le hcounted.seen

theorem Counted.cases {past : List Action} {s s' : System S} {a : Action} (h : s.Sound)
    (hcounted : Counted past s) (hcases : Cases s a s') : Counted (past ++ [a]) s' := by
  have hmore := delivered_append_singleton past a
  -- An action that leaves `signaled` alone.
  have hframe : ∀ t : System S, t.shutdown = s.shutdown → Counted (past ++ [a]) t := by
    intro t hsame
    refine ⟨?_, fun hbegun => ?_⟩
    · rw [hsame]
      exact hcounted.seen.trans hmore
    · rw [hsame] at hbegun
      exact (hcounted.begun hbegun).trans_le hmore
  cases hcases with
  | @deliver kind =>
      have hone : delivered (past ++ [.deliver kind]) = delivered past + 1 := by
        simp [delivered]
      refine ⟨?_, fun _ => by omega⟩
      rw [hone]
      exact (s.shutdown.seen_deliver_le kind).trans (Nat.add_le_add_right hcounted.seen 1)
  | poll hpoll =>
      obtain ⟨hseen, hbegun⟩ := hcounted.poll h hpoll
      exact ⟨hseen.trans hmore, fun hnow => (hbegun hnow).trans_le hmore⟩
  | run _ hstart =>
      obtain ⟨hcreated, hx⟩ := Option.ite_none_right_eq_some.mp hstart
      obtain rfl := Option.some.inj hx
      have hseen := hcounted.seen
      simp only [Shutdown.seen, hcreated] at hseen
      exact ⟨hseen.trans hmore, fun hbegun => by cases hbegun⟩
  | watch | spawnServer | granted | party | process | server => exact hframe _ rfl

theorem counted_of_run (hlawful : S.Lawful) {actions : List Action} {s : System S}
    (hrun : Run Step (initial S) actions s) : Counted actions s := by
  refine (hrun.history (fun past s => s.Sound ∧ Counted past s) ?_ ?_).2
  · rintro past s a s' ⟨hsound, hcounted⟩ hstep
    exact ⟨hsound.cases hlawful (step?_cases hstep), hcounted.cases hsound (step?_cases hstep)⟩
  · exact ⟨Sound.initial hlawful, Nat.le_refl 0, nofun⟩

/-- In every run of a runtime, as long as fewer than `2^32` handles are issued: `run`
returns `Ok(())` only after a signal, when every initialization handle is released, the
task of `run` has seen the shutdown, the HTTPS server is done, every stream of a watch has
ended or is dropped, and no `Watch` of the caller is left; it returns `Err(Aborted)` only
after two signals; and nobody is told of a shutdown before a signal. -/
theorem run_result (hlawful : S.Lawful) {actions : List Action} {s : System S}
    (hrun : Run Step (initial S) actions s)
    (hfew : s.process.barrier.holders.length < 4294967296) :
    (s.shutdown.stage = .returned .ok →
      1 ≤ delivered actions ∧ (∀ h ∈ s.process.barrier.holders, h.live = false) ∧
        s.AllDone) ∧
      (s.shutdown.stage = .returned .aborted → 2 ≤ delivered actions) ∧
      (s.shutdown.notified = true → 1 ≤ delivered actions) := by
  have h := sound_of_run hlawful hrun
  have hcounted := counted_of_run hlawful hrun
  refine ⟨?_, ?_, ?_⟩
  · intro hreturned
    have hdone := h.watches_eq_zero_iff.mp (h.drained hreturned)
    refine ⟨hcounted.begun (by simp [Shutdown.begun, hreturned]), ?_, hdone⟩
    have hstage : s.process.barrier.stage = .opened := by
      rw [h.process.stage]
      rcases hdone.task with htask | htask
      · rw [htask]
        rfl
      · rw [htask]
        rfl
    exact Barrier.live_eq_zero_iff.mp (h.process.released hfew hstage)
  · intro haborted
    have hseen := hcounted.seen
    simp only [Shutdown.seen, haborted, Shutdown.taken] at hseen
    omega
  · intro hnotified
    exact hcounted.begun (h.late.begun_of_notified hnotified)

/-- A runtime with a watch, a server and a `Watch` of the caller comes up and gets a
signal, which everybody heeds. -/
def shutDownGracefully : List Action :=
  [.watch, .spawnServer, .shutdownHandle, .run, .server .select,
    .process (.pollWatch 0 (.ready (some ()))), .process .pollTask, .process .pollTask,
    .deliver .interrupt, .poll (.select 0), .poll .branch, .poll (.select 1), .poll .branch,
    .poll .branch, .poll .branch, .server .pollSignaled, .party 0 .signaled, .party 0 .drop,
    .process (.pollWatch 0 .pending), .process .pollTask, .poll (.select 0), .poll .branch]

/-- `run` has returned, and the task is still about to take the readiness back. -/
theorem shut_down_gracefully :
    ∃ s : System Semaphore.fair, Run Step (initial Semaphore.fair) shutDownGracefully s ∧
      s.shutdown.stage = .returned .ok ∧ s.process.ready = true ∧ s.AllDone ∧
      1 ≤ delivered shutDownGracefully := by
  have hrun : ∃ s : System Semaphore.fair,
      Run Step (initial Semaphore.fair) shutDownGracefully s ∧
      s.shutdown.stage = .returned .ok ∧ s.process.ready = true ∧
      s.process.barrier.holders.length < 4294967296 :=
    ⟨_, .cons rfl (.cons rfl (.cons rfl (.cons rfl (.cons rfl (.cons rfl (.cons rfl
      (.cons rfl (.cons rfl (.cons rfl (.cons rfl (.cons rfl (.cons rfl (.cons rfl
      (.cons rfl (.cons rfl (.cons rfl (.cons rfl (.cons rfl (.cons rfl (.cons rfl
      (.cons rfl (.nil _)))))))))))))))))))))), rfl, rfl, by decide⟩
  obtain ⟨s, hrun, hreturned, hready, hfew⟩ := hrun
  obtain ⟨hsignal, -, hdone⟩ := (run_result Semaphore.fair_lawful hrun hfew).1 hreturned
  exact ⟨s, hrun, hreturned, hready, hdone, hsignal⟩

/-! ## `run` goes on -/

/-- Polls of `signaled` are steps of the system, in which nobody else moves. -/
theorem exists_run_of_polls {watches : Nat} {x x' : Shutdown}
    {polls : List Shutdown.PollAction} (hpolls : Run (Shutdown.Polls watches) x polls x') :
    ∀ s : System S, s.shutdown = x → s.watches = watches →
      ∃ s', Run Step s (polls.map .poll) s' ∧ s'.shutdown = x' := by
  induction hpolls with
  | nil x => exact fun s hshutdown _ => ⟨s, Run.nil s, hshutdown⟩
  | @cons x y x' a polls hpoll _ ih =>
      intro s hshutdown hwatches
      have hstep : Step s (.poll a) (s.notify y) := by
        subst hshutdown hwatches
        exact Option.map_eq_some_iff.mpr ⟨y, hpoll, rfl⟩
      obtain ⟨s', hrun, hend⟩ := ih (s.notify y) rfl ((watches_notify s y).trans hwatches)
      exact ⟨s', Run.cons hstep hrun, hend⟩

/-- From every state that a runtime can reach, whichever branch its `select!`s begin with:
polling takes a signal that has arrived, and tells everybody of the shutdown; and once the
shutdown has begun, polling returns if another signal has arrived or nobody is left, with
`Ok(())` if there is no other signal. -/
theorem run_goes_on (hlawful : S.Lawful) {actions : List Action} {s : System S}
    (hrun : Run Step (initial S) actions s) (from_ : Fin 3) :
    (∀ todo kind, s.shutdown.stage = .listening todo → s.shutdown.pending kind = true →
      ∃ polls s', Shutdown.FromBranch from_ polls ∧ Run Step s (polls.map .poll) s' ∧
        s'.process.fired = true ∧ ∀ v, s'.server = some v → v.drain.signaled = true) ∧
    (∀ todo, s.shutdown.stage = .draining todo →
      (∃ kind, s.shutdown.pending kind = true) ∨ s.AllDone →
      ∃ polls s' result, Shutdown.FromBranch from_ polls ∧
        Run Step s (polls.map .poll) s' ∧ s'.shutdown.stage = .returned result ∧
        ((∀ kind, s.shutdown.pending kind = false) → result = .ok)) := by
  have h := sound_of_run hlawful hrun
  constructor
  · intro todo kind hstage hpending
    obtain ⟨polls, x, hfrom, hpolls, hnotified⟩ :=
      Shutdown.exists_poll_listening s.watches hstage hpending from_
    obtain ⟨s', hlater, rfl⟩ := exists_run_of_polls hpolls s rfl rfl
    have h' := sound_of_run hlawful (hrun.append hlater)
    refine ⟨polls, s', hfrom, hlater, h'.fired.trans hnotified, ?_⟩
    intro v hv
    exact (h'.told v hv).trans hnotified
  · intro todo hstage hready
    obtain ⟨polls, x, hfrom, hpolls, -, hreturns⟩ :=
      Shutdown.exists_poll_draining s.watches hstage from_
    obtain ⟨s', hlater, rfl⟩ := exists_run_of_polls hpolls s rfl rfl
    obtain ⟨result, hreturned⟩ := hreturns (hready.imp_right h.watches_eq_zero_iff.mpr)
    refine ⟨polls, s', result, hfrom, hlater, hreturned, ?_⟩
    intro hquiet
    -- One signal was taken, and there is no other one that could abort.
    have hseen : s'.shutdown.seen ≤ 1 := by
      have hle : s'.shutdown.seen ≤ s.shutdown.seen :=
        hpolls.invariant (fun y => y.seen ≤ s.shutdown.seen)
          (fun _ _ _ hy hpoll => hpoll.seen_le.trans hy) le_rfl
      have hone : s.shutdown.seen = 1 := by
        have hinterrupt : s.shutdown.interrupt = false := hquiet .interrupt
        have hterminate : s.shutdown.terminate = false := hquiet .terminate
        simp [Shutdown.seen, hstage, Shutdown.taken, hinterrupt, hterminate]
      omega
    cases result with
    | ok => rfl
    | aborted =>
        simp only [Shutdown.seen, hreturned, Shutdown.taken] at hseen
        omega

/-- The same runtime as it waits: the signal has arrived. -/
def signalArrives : List Action :=
  [.watch, .spawnServer, .shutdownHandle, .run, .server .select, .deliver .terminate]

theorem signal_is_heeded :
    ∃ s : System Semaphore.fair, Run Step (initial Semaphore.fair) signalArrives s ∧
      ∃ (polls : List Shutdown.PollAction) (s' : System Semaphore.fair),
        Run Step s (polls.map .poll) s' ∧ s'.process.fired = true := by
  have hrun : ∃ s : System Semaphore.fair,
      Run Step (initial Semaphore.fair) signalArrives s ∧
      s.shutdown.stage = .listening [] ∧ s.shutdown.pending .terminate = true :=
    ⟨_, .cons rfl (.cons rfl (.cons rfl (.cons rfl (.cons rfl (.cons rfl (.nil _)))))),
      rfl, rfl⟩
  obtain ⟨s, hrun, hstage, hpending⟩ := hrun
  obtain ⟨polls, s', -, hlater, hfired, -⟩ :=
    (run_goes_on Semaphore.fair_lawful hrun 2).1 [] .terminate hstage hpending
  exact ⟨s, hrun, polls, s', hlater, hfired⟩

end System
end Runtime
end Kubert
