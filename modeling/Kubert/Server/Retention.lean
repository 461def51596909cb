import Kubert.Server.Connections

/-!
# What the HTTPS server retains

`serve_conn` spawns a task that drives the HTTP connection and then awaits the shutdown
signal, whatever becomes of the connection.  So a connection that was served and is
closed leaves behind its `serve_conn`, with the `Watch` it holds, until the server
shuts down.

Before the signal, in a state in which nothing happens by itself, the tasks that are
alive are the ones of the connections that are open or in their TLS handshake, and one
for each HTTP connection that was ever closed (`liveTasks_eq`).
-/

namespace Kubert
namespace Server

open Foundation

/-! ## Quiescence -/

/-- The tasks of a connection do this by themselves: it needs neither the client nor
the signal. -/
def ConnAction.internal : ConnAction → Bool
  | loadTls _ | http .respond | signaled | shutdownHttp | release => true
  | handshake _ | http .request | http .close => false

/-- The tasks of the server do this by themselves. -/
def Action.internal : Action → Bool
  | select | pollSignaled | pollAccept _ | setNodelay _ | peerAddr _ => true
  | conn _ a => a.internal
  | wake | signal | drain => false

/-- An HTTP connection is closed. -/
def Action.closes : Action → Bool
  | conn _ (.http .close) => true
  | _ => false

namespace Conn

/-- The connection is open, or still in its TLS handshake. -/
def connected : Conn → Bool
  | handshaking => true
  | serving (.active _) | draining (.active _) | finished (.active _) => true
  | _ => false

/-- The connection is closed, and `serve_conn` awaits the signal. -/
def abandoned : Conn → Bool
  | serving .closed => true
  | _ => false

/-- Where a connection can be before the signal. -/
def unsignaled : Conn → Bool
  | draining _ | finished _ => false
  | _ => true

/-- The tasks of the connection do nothing by themselves before the signal. -/
def still : Conn → Bool
  | handshaking | failed | serving (.active 0) | serving .closed => true
  | _ => false

/-- What an action does before the signal: a connection that is closed is abandoned. -/
theorem Moves.abandoned {d d' : DrainChannel} {c c' : Conn} {a : ConnAction}
    (hsignaled : d.signaled = false) (hbefore : c.unsignaled = true)
    (h : Moves d c a d' c') (n : Nat) :
    c'.unsignaled = true ∧
      c'.abandoned.toNat = c.abandoned.toNat + (Action.conn n a).closes.toNat := by
  cases h with
  | loaded | noCredentials | established | refused => exact ⟨rfl, rfl⟩
  | signaled hfired =>
      rw [hsignaled] at hfired
      cases hfired
  | @serving http http' a hhttp =>
      cases http with
      | closed => cases a <;> cases hhttp
      | active requests =>
          cases a with
          | request =>
              obtain rfl := Option.some.inj hhttp
              exact ⟨rfl, rfl⟩
          | close =>
              obtain rfl := Option.some.inj hhttp
              exact ⟨rfl, rfl⟩
          | respond =>
              cases requests with
              | zero => cases hhttp
              | succ requests =>
                  obtain rfl := Option.some.inj hhttp
                  exact ⟨rfl, rfl⟩
  | shutdownHttp | release | draining | finished => cases hbefore

/-- An action leaves the signal alone. -/
theorem Moves.signaled_eq {d d' : DrainChannel} {c c' : Conn} {a : ConnAction}
    (h : Moves d c a d' c') : d'.signaled = d.signaled := by
  cases h <;> rfl

/-- Before the signal the tasks that are alive are the ones of the connections that are
connected or abandoned, once the credentials are loaded. -/
theorem live_eq {c : Conn} (hbefore : c.unsignaled = true) (hloaded : c ≠ .loading) :
    c.live.toNat = c.connected.toNat + c.abandoned.toNat := by
  cases c with
  | loading => exact absurd rfl hloaded
  | handshaking | failed => rfl
  | serving http => cases http <;> rfl
  | draining | finished => cases hbefore

theorem step?_of_still {d : DrainChannel} {c : Conn} {a : ConnAction}
    (hsignaled : d.signaled = false) (hstill : c.still = true)
    (hinternal : a.internal = true) : c.step? d a = none := by
  cases c with
  | loading | draining | finished => cases hstill
  | handshaking | failed =>
      cases a with
      | loadTls | signaled | shutdownHttp | release => rfl
      | http a => cases a <;> rfl
      | handshake => cases hinternal
  | serving http =>
      cases a with
      | loadTls | shutdownHttp | release => rfl
      | signaled => simp [step?, hsignaled]
      | handshake => cases hinternal
      | http a =>
          cases a with
          | request | close => cases hinternal
          | respond =>
              cases http with
              | closed => rfl
              | active requests =>
                  cases requests with
                  | zero => rfl
                  | succ requests => cases hstill

end Conn

namespace HttpsServer

/-- Nothing happens without a new connection, a client or the signal. -/
def Quiescent (s : HttpsServer) : Prop := ∀ a : Action, a.internal = true → s.step? a = none

/-- The number of connections that are open or in their TLS handshake. -/
def connected (s : HttpsServer) : Nat := s.conns.countP Conn.connected

/-- The number of connections that are closed while their `serve_conn` waits. -/
def abandoned (s : HttpsServer) : Nat := s.conns.countP Conn.abandoned

theorem quiescent_of_still {s : HttpsServer} (hloop : s.loop = .waiting)
    (hsignaled : s.drain.signaled = false) (hstill : ∀ c ∈ s.conns, c.still = true) :
    s.Quiescent := by
  intro a hinternal
  cases a with
  | select | pollSignaled | pollAccept | setNodelay | peerAddr => simp [step?, hloop]
  | wake | signal | drain => cases hinternal
  | conn n a =>
      cases hconn : s.conns[n]? with
      | none => simp [step?, hconn]
      | some c =>
          have hnone := Conn.step?_of_still hsignaled
            (hstill c (List.mem_of_getElem? hconn)) hinternal
          simp [step?, hconn, hnone]

/-- Before the signal `accept_loop` comes to rest only where it waits. -/
theorem Quiescent.waiting {s : HttpsServer} (h : s.Quiescent)
    (hrunning : s.loop ≠ .returned) : s.loop = .waiting := by
  cases hloop : s.loop with
  | waiting => rfl
  | returned => exact absurd hloop hrunning
  | iterating =>
      have hnone := h .select rfl
      simp [step?, hloop] at hnone
  | selecting =>
      have hnone := h .pollSignaled rfl
      rw [step?, if_pos hloop] at hnone
      split at hnone <;> cases hnone
  | accepting =>
      have hnone := h (.pollAccept .pending) rfl
      simp [step?, hloop] at hnone
  | accepted =>
      have hnone := h (.setNodelay true) rfl
      simp [step?, hloop] at hnone
  | configured =>
      have hnone := h (.peerAddr true) rfl
      simp [step?, hloop] at hnone

/-- No `serve_conn` rests before its credentials are loaded. -/
theorem Quiescent.loaded {s : HttpsServer} (h : s.Quiescent) :
    ∀ c ∈ s.conns, c ≠ .loading := by
  rintro c hc rfl
  obtain ⟨n, hconn⟩ := List.mem_iff_getElem?.mp hc
  have hnone := h (.conn n (.loadTls true)) rfl
  simp [step?, hconn, Conn.step?] at hnone

/-! ## Before the signal -/

/-- What holds before the signal: `accept_loop` runs, and a connection is abandoned for
each one that was closed. -/
structure Unsignaled (past : List Action) (s : HttpsServer) : Prop where
  running : s.loop ≠ .returned
  conns : ∀ c ∈ s.conns, c.unsignaled = true
  abandoned : s.abandoned = past.countP Action.closes

theorem unsignaled_spawn : Unsignaled [] spawn :=
  ⟨nofun, nofun, rfl⟩

/-- The signal is not taken back. -/
theorem signaled_of_cases {s s' : HttpsServer} {a : Action} (h : Cases s a s')
    (hsignaled : s'.drain.signaled = false) : s.drain.signaled = false := by
  cases h with
  | conn _ hmoves => exact hmoves.signaled_eq.symm.trans hsignaled
  | signal => cases hsignaled
  | select | stop | notSignaled | notAccepted | accepted | acceptFailed | configured
  | nodelayFailed | spawned | peerAddrFailed | wake | drain => exact hsignaled

/-- Every action before the signal keeps count of the connections that were closed. -/
theorem Unsignaled.cases {past : List Action} {s s' : HttpsServer} {a : Action}
    (hsignaled : s.drain.signaled = false) (h : Unsignaled past s)
    (hcases : Cases s a s') : Unsignaled (past ++ [a]) s' := by
  have hcount := h.abandoned
  cases hcases with
  | stop _ hfired =>
      rw [hsignaled] at hfired
      cases hfired
  | @conn n a c c' d hconn hmoves =>
      obtain ⟨hbefore, habandoned⟩ :=
        hmoves.abandoned hsignaled (h.conns c (List.mem_of_getElem? hconn)) n
      refine ⟨h.running, forall_mem_set h.conns hbefore, ?_⟩
      have hset := countP_set_add Conn.abandoned hconn c'
      rw [countP_append_singleton, ← hcount]
      change (s.conns.set n c').countP Conn.abandoned = s.conns.countP Conn.abandoned + _
      omega
  | spawned =>
      refine ⟨nofun, forall_mem_append_singleton h.conns rfl, ?_⟩
      rw [countP_append_singleton]
      exact (countP_append_singleton Conn.abandoned s.conns .loading).trans hcount
  | select | notSignaled | notAccepted | accepted | acceptFailed | configured
  | nodelayFailed | peerAddrFailed | wake =>
      refine ⟨nofun, h.conns, ?_⟩
      rw [countP_append_singleton]
      exact hcount
  | signal | drain =>
      refine ⟨h.running, h.conns, ?_⟩
      rw [countP_append_singleton]
      exact hcount

theorem unsignaled {actions : List Action} {s : HttpsServer}
    (hrun : Run Step spawn actions s) (hsignaled : s.drain.signaled = false) :
    Unsignaled actions s := by
  refine hrun.history (fun past r => r.drain.signaled = false → Unsignaled past r) ?_
    (fun _ => unsignaled_spawn) hsignaled
  intro past r a r' h hstep hafter
  have hcases := step?_cases hstep
  have hbefore := signaled_of_cases hcases hafter
  exact (h hbefore).cases hbefore hcases

/-! ## What is left of closed connections -/

/-- At rest before the signal, the tasks that are alive are the ones of the connections
that are connected, and one for each connection that was closed. -/
theorem liveTasks_eq {actions : List Action} {s : HttpsServer}
    (hrun : Run Step spawn actions s) (hsignaled : s.drain.signaled = false)
    (hquiescent : s.Quiescent) :
    s.liveTasks = s.connected + actions.countP Action.closes := by
  have h := unsignaled hrun hsignaled
  have hkinds : ∀ c ∈ s.conns,
      c.live.toNat = c.connected.toNat + c.abandoned.toNat := by
    intro c hc
    exact Conn.live_eq (h.conns c hc) (hquiescent.loaded c hc)
  rw [← h.abandoned]
  exact countP_eq_add hkinds

/-- At rest before the signal, all that `accept_loop` holds are its `Watch` and the clone
it waits with. -/
theorem watches_eq {actions : List Action} {s : HttpsServer}
    (hrun : Run Step spawn actions s) (hsignaled : s.drain.signaled = false)
    (hquiescent : s.Quiescent) : s.drain.watches = s.liveTasks + 2 := by
  have hloop := hquiescent.waiting (unsignaled hrun hsignaled).running
  have haccounted := accounted hrun
  unfold Accounted at haccounted
  rw [hloop] at haccounted
  exact haccounted.trans (Nat.add_comm _ _)

/-- Whether, at rest before the signal, as many `serve_conn` tasks are alive as
connections are open or in their TLS handshake, and no more `Watch`es than these and
`accept_loop` hold: exactly if no connection that was served has been closed so far. -/
theorem nothing_retained_iff {actions : List Action} {s : HttpsServer}
    (hrun : Run Step spawn actions s) (hsignaled : s.drain.signaled = false)
    (hquiescent : s.Quiescent) :
    (s.liveTasks = s.connected ∧ s.drain.watches = s.connected + 2) ↔
      ∀ a ∈ actions, a.closes = false := by
  have hlive := liveTasks_eq hrun hsignaled hquiescent
  have hwatches := watches_eq hrun hsignaled hquiescent
  have hcount : actions.countP Action.closes = 0 ↔ ∀ a ∈ actions, a.closes = false := by
    simp [List.countP_eq_zero]
  rw [← hcount]
  omega

/-- `accept_loop` starts and waits. -/
def listen : List Action := [.select, .pollSignaled, .pollAccept .pending]

/-- A connection is accepted and its handshake begins, and `accept_loop` waits again. -/
def connect (n : Nat) : List Action :=
  [.wake, .pollSignaled, .pollAccept (.ready true), .setNodelay true, .peerAddr true,
    .select, .pollSignaled, .pollAccept .pending, .conn n (.loadTls true)]

/-- One client is served and stays, one fails its handshake and one is still in it. -/
def threeClients : List Action :=
  listen ++ connect 0 ++
    [.conn 0 (.handshake true), .conn 0 (.http .request), .conn 0 (.http .respond)] ++
    connect 1 ++ [.conn 1 (.handshake false)] ++ connect 2

/-- Where this leads. -/
def withThreeClients : HttpsServer where
  drain := ⟨false, 4, false⟩
  loop := .waiting
  conns := [.serving (.active 0), .failed, .handshaking]

theorem threeClients_run : Run Step spawn threeClients withThreeClients :=
  run_of_execAll (fun _ _ _ h => h) (by decide)

theorem three_clients_retain_nothing_else :
    withThreeClients.liveTasks = withThreeClients.connected ∧
      withThreeClients.drain.watches = withThreeClients.connected + 2 :=
  (nothing_retained_iff threeClients_run rfl (quiescent_of_still rfl rfl (by decide))).mpr
    (by decide)

/-- A client is served and closes the connection. -/
def oneClient : List Action :=
  listen ++ connect 0 ++
    [.conn 0 (.handshake true), .conn 0 (.http .request), .conn 0 (.http .respond),
      .conn 0 (.http .close)]

/-- Where this leads. -/
def afterOneClient : HttpsServer where
  drain := ⟨false, 3, false⟩
  loop := .waiting
  conns := [.serving .closed]

/-- The server has come to rest before the signal, no connection is open, and one
`serve_conn` is alive with its `Watch`. -/
theorem closed_connection_retained :
    Run Step spawn oneClient afterOneClient ∧ afterOneClient.drain.signaled = false ∧
      afterOneClient.Quiescent ∧ afterOneClient.connected = 0 ∧
      afterOneClient.liveTasks = 1 ∧ afterOneClient.drain.watches = 1 + 2 :=
  ⟨run_of_execAll (fun _ _ _ h => h) (by decide), rfl,
    quiescent_of_still rfl rfl (by decide), rfl, rfl, rfl⟩

end HttpsServer
end Server
end Kubert
