import Kubert.Server.Connections

/-!
# Draining the HTTPS server

`drain()` completes when all `Watch`es and latches are dropped.  As `accept_loop` holds
one until it returns, and a `serve_conn` has one from before it is spawned until it
returns, the server is then done: `accept_loop` has returned, and every connection has
failed its TLS setup or has been served to its end.

What makes this hold at every moment is that a `Watch` is never out of account: the
clone for a connection is made while `accept_loop` still holds its own one.
-/

namespace Kubert
namespace Server

open Foundation

namespace Conn

/-! ## A `serve_conn` that has returned -/

/-- A task that has returned does nothing to the shutdown channel. -/
theorem Moves.drain_of_not_live {d d' : DrainChannel} {c c' : Conn} {a : ConnAction}
    (hlive : c.live = false) (h : Moves d c a d' c') : d' = d := by
  cases h with
  | finished => rfl
  | loaded | noCredentials | established | refused | signaled | shutdownHttp | release
  | serving | draining => cases hlive

/-- The connection is over if its `serve_conn` has returned after serving it. -/
def Served : Conn → Prop
  | .finished http => http = .closed
  | _ => True

/-- A connection that is closed does nothing. -/
theorem http_step_closed (a : HttpAction) : Http.closed.step? a = none := by
  cases a <;> rfl

/-- `serve_conn` returns only after the HTTP connection has ended, which then does
nothing any more. -/
theorem Moves.served {d d' : DrainChannel} {c c' : Conn} {a : ConnAction}
    (hserved : Served c) (h : Moves d c a d' c') : Served c' := by
  cases h with
  | release => rfl
  | finished hhttp =>
      obtain rfl := hserved
      rw [http_step_closed] at hhttp
      cases hhttp
  | loaded | noCredentials | established | refused | signaled | shutdownHttp | serving
  | draining => trivial

end Conn

namespace HttpsServer

/-! ## No `Watch` is left -/

/-- If no `Watch` is left, then all tasks have returned. -/
theorem Accounted.returned {s : HttpsServer} (h : s.Accounted)
    (hwatches : s.drain.watches = 0) :
    s.loop = .returned ∧ ∀ c ∈ s.conns, c.live = false := by
  unfold Accounted at h
  have hheld : s.loop.held = 0 := by omega
  have hlive : s.liveTasks = 0 := by omega
  constructor
  · cases hloop : s.loop with
    | returned => rfl
    | iterating | selecting | accepting | waiting | accepted | configured =>
        rw [hloop] at hheld
        cases hheld
  · intro c hc
    rw [liveTasks, List.countP_eq_zero] at hlive
    exact Bool.eq_false_iff.mpr (hlive c hc)

/-- Once `accept_loop` has returned, it does nothing any more. -/
theorem returned_kept {s s' : HttpsServer} {a : Action} (hloop : s.loop = .returned)
    (h : Cases s a s') :
    s'.loop = .returned ∧ s'.conns.length = s.conns.length ∧
      a ≠ .pollAccept (.ready true) := by
  cases h with
  | select hother | stop hother | notSignaled hother | notAccepted hother
  | accepted hother | acceptFailed hother | configured hother | nodelayFailed hother
  | spawned hother | peerAddrFailed hother | wake hother =>
      rw [hloop] at hother
      cases hother
  | conn => exact ⟨hloop, List.length_set, nofun⟩
  | signal | drain => exact ⟨hloop, rfl, nofun⟩

/-- Nobody obtains a `Watch` when none is left. -/
theorem watches_stay_zero {s s' : HttpsServer} {a : Action} (h : s.Accounted)
    (hwatches : s.drain.watches = 0) (hcases : Cases s a s') :
    s'.drain.watches = 0 := by
  obtain ⟨hloop, hconns⟩ := h.returned hwatches
  cases hcases with
  | select hother | stop hother | notSignaled hother | notAccepted hother
  | accepted hother | acceptFailed hother | configured hother | nodelayFailed hother
  | spawned hother | peerAddrFailed hother | wake hother =>
      rw [hloop] at hother
      cases hother
  | conn hconn hmoves =>
      rw [hmoves.drain_of_not_live (hconns _ (List.mem_of_getElem? hconn))]
      exact hwatches
  | signal | drain => exact hwatches

/-! ## `drain()` has completed -/

/-- What holds in every run: the `Watch`es are accounted for, none is left once
`drain()` has completed, and `serve_conn` has returned only from connections that are
over. -/
structure Drains (s : HttpsServer) : Prop where
  accounted : s.Accounted
  drained : s.drain.drained = true → s.drain.watches = 0
  served : ∀ c ∈ s.conns, Conn.Served c

theorem drains_spawn : spawn.Drains :=
  ⟨accounted_spawn, nofun, nofun⟩

/-- What an action does to `drained`: only `drain()` sets it, and only if no `Watch` is
left. -/
theorem drained_of_cases {s s' : HttpsServer} {a : Action} (h : Cases s a s')
    (hdrained : s'.drain.drained = true) :
    s.drain.drained = true ∨ s.drain.watches = 0 := by
  cases h with
  | drain _ hwatches => exact Or.inr hwatches
  | conn _ hmoves =>
      cases hmoves <;> exact Or.inl hdrained
  | select | stop | notSignaled | notAccepted | accepted | acceptFailed | configured
  | nodelayFailed | spawned | peerAddrFailed | wake | signal => exact Or.inl hdrained

theorem served_of_cases {s s' : HttpsServer} {a : Action}
    (hserved : ∀ c ∈ s.conns, Conn.Served c) (h : Cases s a s') :
    ∀ c ∈ s'.conns, Conn.Served c := by
  cases h with
  | spawned => exact forall_mem_append_singleton hserved trivial
  | conn hconn hmoves =>
      exact forall_mem_set hserved
        (hmoves.served (hserved _ (List.mem_of_getElem? hconn)))
  | select | stop | notSignaled | notAccepted | accepted | acceptFailed | configured
  | nodelayFailed | peerAddrFailed | wake | signal | drain => exact hserved

theorem Drains.cases {s s' : HttpsServer} {a : Action} (h : s.Drains)
    (hcases : Cases s a s') : s'.Drains where
  accounted := h.accounted.cases hcases
  drained := by
    intro hdrained
    have hwatches : s.drain.watches = 0 := by
      rcases drained_of_cases hcases hdrained with hbefore | hnow
      · exact h.drained hbefore
      · exact hnow
    exact watches_stay_zero h.accounted hwatches hcases
  served := served_of_cases h.served hcases

theorem drains {actions : List Action} {s : HttpsServer}
    (hrun : Run Step spawn actions s) : s.Drains :=
  hrun.invariant Drains (fun _ _ _ h hstep => h.cases (step?_cases hstep)) drains_spawn

/-- A run from where `accept_loop` has returned accepts nothing. -/
theorem accepts_nothing {s t : HttpsServer} {later : List Action}
    (hloop : s.loop = .returned) (hrun : Run Step s later t) :
    t.loop = .returned ∧ t.conns.length = s.conns.length ∧
      Action.pollAccept (.ready true) ∉ later := by
  refine hrun.history
    (fun past r => r.loop = .returned ∧ r.conns.length = s.conns.length ∧
      Action.pollAccept (.ready true) ∉ past) ?_ ⟨hloop, rfl, List.not_mem_nil⟩
  rintro past r a r' ⟨hreturned, hlength, hpast⟩ hstep
  obtain ⟨hreturned', hlength', haction⟩ := returned_kept hreturned (step?_cases hstep)
  refine ⟨hreturned', hlength'.trans hlength, ?_⟩
  simp [hpast, haction.symm]

/-- If `drain()` has completed, then `accept_loop` has returned, every connection for
which `serve_conn` was spawned has failed its TLS setup or has been served to its end,
and whatever happens next, no connection is accepted. -/
theorem drained_server_is_done {actions : List Action} {s : HttpsServer}
    (hrun : Run Step spawn actions s) (hdrained : s.drain.drained = true) :
    s.loop = .returned ∧ (∀ c ∈ s.conns, c = .failed ∨ c = .finished .closed) ∧
      ∀ later t, Run Step s later t →
        t.loop = .returned ∧ t.conns.length = s.conns.length ∧
          Action.pollAccept (.ready true) ∉ later := by
  have h := drains hrun
  obtain ⟨hloop, hlive⟩ := h.accounted.returned (h.drained hdrained)
  refine ⟨hloop, ?_, ?_⟩
  · intro c hc
    have hreturned := hlive c hc
    have hserved := h.served c hc
    cases c with
    | failed => exact Or.inl rfl
    | finished http =>
        obtain rfl := hserved
        exact Or.inr rfl
    | loading | handshaking | serving | draining => cases hreturned
  · intro later t hlater
    exact accepts_nothing hloop hlater

/-- A connection is accepted and `serve_conn` is spawned for it. -/
def acceptOne : List Action :=
  [.select, .pollSignaled, .pollAccept (.ready true), .setNodelay true, .peerAddr true]

/-- The signal arrives while the first connection answers a request, the second one
does its handshake, which fails, and a third one is on its way. -/
def signalInTheMiddle : List Action :=
  acceptOne ++ acceptOne ++
    [.conn 0 (.loadTls true), .conn 1 (.loadTls true), .conn 0 (.handshake true),
      .conn 0 (.http .request), .select, .pollSignaled, .signal,
      .pollAccept (.ready true), .setNodelay true, .peerAddr true,
      .select, .pollSignaled, .conn 0 .signaled, .conn 1 (.handshake false),
      .conn 2 (.loadTls false), .conn 0 (.http .respond), .conn 0 .shutdownHttp,
      .conn 0 .release, .drain]

/-- Where this leads. -/
def drainedServer : HttpsServer where
  drain := ⟨true, 0, true⟩
  loop := .returned
  conns := [.finished .closed, .failed, .failed]

theorem signalInTheMiddle_run : Run Step spawn signalInTheMiddle drainedServer :=
  run_of_execAll (fun _ _ _ h => h) (by decide)

theorem signal_in_the_middle_drains :
    drainedServer.loop = .returned ∧
      (∀ c ∈ drainedServer.conns, c = .failed ∨ c = .finished .closed) ∧
      ∀ later t, Run Step drainedServer later t →
        t.loop = .returned ∧ t.conns.length = 3 ∧
          Action.pollAccept (.ready true) ∉ later :=
  drained_server_is_done signalInTheMiddle_run rfl

end HttpsServer
end Server
end Kubert
