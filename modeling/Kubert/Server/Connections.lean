import Kubert.Foundation.LabelledRun
import Kubert.Foundation.Poll
import Kubert.Foundation.Population

/-!
# The HTTPS server and its connections

`accept_loop` selects between the shutdown signal and the next connection.  For every
connection it spawns a task `serve_conn`, which loads the TLS credentials, does the
handshake, spawns another task that drives the HTTP connection, waits for the shutdown
signal and then for the HTTP connection to end.

All of these tasks hold `drain::Watch`es: `accept_loop` its own one and, while it
selects, a clone of it; every `serve_conn` a clone, from before it is spawned until it
returns.

The channel is that of the crate `drain`, which is not part of the repository.
`DrainChannel` is the share of the server in it, and all that the documentation of the
crate says of a share: a `Watch` can be cloned, it stays alive until it or the latch that
it has become is dropped, a signal is never taken back, and `drain()` completes when it
has signaled and nothing is left alive.  It is a definition and not a parameter, as this
leaves nothing open, and as the channel of a runtime is put together from such shares.

The socket, the TLS library, the HTTP connection and the service that answers its
requests do as they like: what they answer is part of the action.  The tasks interleave
at every step.
-/

namespace Kubert
namespace Server

open Foundation

/-! ## The shutdown channel -/

/-- The shutdown channel: whether it was signaled, how many `Watch`es and latches that
were obtained from the handle of the server are alive, and whether `drain()` has
completed. -/
structure DrainChannel where
  signaled : Bool
  watches : Nat
  drained : Bool
deriving DecidableEq, Repr

namespace DrainChannel

/-- A `Watch` is cloned. -/
def clone (d : DrainChannel) : DrainChannel := { d with watches := d.watches + 1 }

/-- A `Watch`, or the latch that it has become, is dropped. -/
def drop (d : DrainChannel) : DrainChannel := { d with watches := d.watches - 1 }

/-- `drain()` signals. -/
def signal (d : DrainChannel) : DrainChannel := { d with signaled := true }

/-- `drain()` completes, which it does only if nothing is left that holds it up. -/
def complete (d : DrainChannel) : Option DrainChannel :=
  if d.signaled = true ∧ d.watches = 0 then some { d with drained := true } else none

@[simp] theorem clone_watches (d : DrainChannel) : d.clone.watches = d.watches + 1 := rfl

@[simp] theorem drop_watches (d : DrainChannel) : d.drop.watches = d.watches - 1 := rfl

end DrainChannel

/-! ## `serve_conn` -/

/-- An HTTP connection: open, with a number of requests in flight, or closed. -/
inductive Http
  | active (requests : Nat)
  | closed
deriving DecidableEq, Repr

/-- What can happen to an HTTP connection on its own. -/
inductive HttpAction
  | request
  | respond
  /-- The client closes the connection, or it is lost. -/
  | close
deriving DecidableEq, Repr

/-- The task that drives the connection makes a step. -/
def Http.step? : Http → HttpAction → Option Http
  | .active n, .request => some (.active (n + 1))
  | .active (n + 1), .respond => some (.active n)
  | .active _, .close => some .closed
  | _, _ => none

/-- Where a `serve_conn` stands, with the HTTP connection it has spawned. -/
inductive Conn
  /-- It awaits `load_tls`. -/
  | loading
  /-- It awaits the TLS `accept`. -/
  | handshaking
  /-- It has returned: there were no credentials, or the handshake failed. -/
  | failed
  /-- It awaits `drain.signaled()`. -/
  | serving (http : Http)
  /-- It awaits `latch.release_after(graceful.shutdown())`. -/
  | draining (http : Http)
  /-- It has returned. -/
  | finished (http : Http)
deriving DecidableEq, Repr

/-- What can happen to a connection. -/
inductive ConnAction
  | loadTls (ok : Bool)
  | handshake (ok : Bool)
  | http (a : HttpAction)
  /-- `drain.signaled()` is ready. -/
  | signaled
  /-- The HTTP connection ends, as `graceful.shutdown()` has told it to. -/
  | shutdownHttp
  /-- `graceful.shutdown()` is ready. -/
  | release
deriving DecidableEq, Repr

namespace Conn

/-- The task has not returned. -/
def live : Conn → Bool
  | loading | handshaking | serving _ | draining _ => true
  | failed | finished _ => false

/-- One action, with what it does to the shutdown channel; `none` if it is not
possible.  A task drops its `Watch` as it returns. -/
def step? (d : DrainChannel) : Conn → ConnAction → Option (DrainChannel × Conn)
  | loading, .loadTls true => some (d, handshaking)
  | loading, .loadTls false => some (d.drop, failed)
  | handshaking, .handshake true => some (d, serving (.active 0))
  | handshaking, .handshake false => some (d.drop, failed)
  | serving http, .signaled => if d.signaled then some (d, draining http) else none
  -- The HTTP connection waits for the requests that are in flight.
  | draining (.active 0), .shutdownHttp => some (d, draining .closed)
  -- `shutdown()` waits for the HTTP connection.
  | draining .closed, .release => some (d.drop, finished .closed)
  | serving http, .http a => (http.step? a).map fun http' => (d, serving http')
  | draining http, .http a => (http.step? a).map fun http' => (d, draining http')
  | finished http, .http a => (http.step? a).map fun http' => (d, finished http')
  | _, _ => none

/-- Everything that one action can do to a connection. -/
inductive Moves (d : DrainChannel) : Conn → ConnAction → DrainChannel → Conn → Prop
  | loaded : Moves d loading (.loadTls true) d handshaking
  | noCredentials : Moves d loading (.loadTls false) d.drop failed
  | established : Moves d handshaking (.handshake true) d (serving (.active 0))
  | refused : Moves d handshaking (.handshake false) d.drop failed
  | signaled {http : Http} (hsignaled : d.signaled = true) :
      Moves d (serving http) .signaled d (draining http)
  | shutdownHttp : Moves d (draining (.active 0)) .shutdownHttp d (draining .closed)
  | release : Moves d (draining .closed) .release d.drop (finished .closed)
  | serving {http http' : Http} {a : HttpAction} (hhttp : http.step? a = some http') :
      Moves d (serving http) (.http a) d (serving http')
  | draining {http http' : Http} {a : HttpAction} (hhttp : http.step? a = some http') :
      Moves d (draining http) (.http a) d (draining http')
  | finished {http http' : Http} {a : HttpAction} (hhttp : http.step? a = some http') :
      Moves d (finished http) (.http a) d (finished http')

theorem step?_moves {d d' : DrainChannel} {c c' : Conn} {a : ConnAction}
    (h : step? d c a = some (d', c')) : Moves d c a d' c' := by
  unfold step? at h
  split at h
  · obtain ⟨rfl, rfl⟩ := Prod.mk.inj (Option.some.inj h)
    exact Moves.loaded
  · obtain ⟨rfl, rfl⟩ := Prod.mk.inj (Option.some.inj h)
    exact Moves.noCredentials
  · obtain ⟨rfl, rfl⟩ := Prod.mk.inj (Option.some.inj h)
    exact Moves.established
  · obtain ⟨rfl, rfl⟩ := Prod.mk.inj (Option.some.inj h)
    exact Moves.refused
  · split at h
    · rename_i hsignaled
      obtain ⟨rfl, rfl⟩ := Prod.mk.inj (Option.some.inj h)
      exact Moves.signaled hsignaled
    · cases h
  · obtain ⟨rfl, rfl⟩ := Prod.mk.inj (Option.some.inj h)
    exact Moves.shutdownHttp
  · obtain ⟨rfl, rfl⟩ := Prod.mk.inj (Option.some.inj h)
    exact Moves.release
  · obtain ⟨http', hhttp, hpair⟩ := Option.map_eq_some_iff.mp h
    obtain ⟨rfl, rfl⟩ := Prod.mk.inj hpair
    exact Moves.serving hhttp
  · obtain ⟨http', hhttp, hpair⟩ := Option.map_eq_some_iff.mp h
    obtain ⟨rfl, rfl⟩ := Prod.mk.inj hpair
    exact Moves.draining hhttp
  · obtain ⟨http', hhttp, hpair⟩ := Option.map_eq_some_iff.mp h
    obtain ⟨rfl, rfl⟩ := Prod.mk.inj hpair
    exact Moves.finished hhttp
  · cases h

/-- A task drops its `Watch` exactly if it returns. -/
theorem Moves.watches {d d' : DrainChannel} {c c' : Conn} {a : ConnAction}
    (hheld : c.live = true → 0 < d.watches) (h : Moves d c a d' c') :
    d'.watches + c.live.toNat = d.watches + c'.live.toNat := by
  cases h with
  | noCredentials | refused | release => exact Nat.sub_add_cancel (hheld rfl)
  | loaded | established | signaled | shutdownHttp | serving | draining | finished => rfl

end Conn

/-! ## `accept_loop` -/

/-- Where `accept_loop` stands. -/
inductive AcceptLoop
  /-- At the start of an iteration. -/
  | iterating
  /-- About to poll `drain.clone().signaled()`, which comes first. -/
  | selecting
  /-- About to poll `tcp.accept()`. -/
  | accepting
  /-- Neither of them was ready. -/
  | waiting
  /-- About to set `TCP_NODELAY` for the connection. -/
  | accepted
  /-- About to get the peer address of the connection. -/
  | configured
  | returned
deriving DecidableEq, Repr

/-- The number of `Watch`es that `accept_loop` holds. -/
def AcceptLoop.held : AcceptLoop → Nat
  | selecting | accepting | waiting => 2
  | iterating | accepted | configured => 1
  | returned => 0

/-- The server: its shutdown channel, `accept_loop` and the connections it has
spawned a `serve_conn` for. -/
structure HttpsServer where
  drain : DrainChannel
  loop : AcceptLoop
  conns : List Conn
deriving DecidableEq, Repr

/-- What can happen. -/
inductive Action
  | select
  | pollSignaled
  /-- `tcp.accept()` answers: it is pending, or ready with a connection or an error. -/
  | pollAccept (ok : Poll Bool)
  | setNodelay (ok : Bool)
  | peerAddr (ok : Bool)
  /-- The listener or the channel wakes `accept_loop`. -/
  | wake
  | conn (n : Nat) (a : ConnAction)
  | signal
  | drain
deriving DecidableEq, Repr

namespace HttpsServer

/-- `Bound::spawn`. -/
def spawn : HttpsServer where
  drain := ⟨false, 1, false⟩
  loop := .iterating
  conns := []

/-- One action; `none` if it is not possible. -/
def step? (s : HttpsServer) : Action → Option HttpsServer
  | .select =>
      if s.loop = .iterating then
        some { s with drain := s.drain.clone, loop := .selecting }
      else none
  | .pollSignaled =>
      if s.loop = .selecting then
        if s.drain.signaled then
          -- Both the latch and the `Watch` are dropped.
          some { s with drain := s.drain.drop.drop, loop := .returned }
        else some { s with loop := .accepting }
      else none
  | .pollAccept ok =>
      if s.loop = .accepting then
        match ok with
        | .pending => some { s with loop := .waiting }
        -- The select is over and its clone is dropped.
        | .ready true => some { s with drain := s.drain.drop, loop := .accepted }
        | .ready false => some { s with drain := s.drain.drop, loop := .iterating }
      else none
  | .setNodelay ok =>
      if s.loop = .accepted then
        some { s with loop := if ok then .configured else .iterating }
      else none
  | .peerAddr ok =>
      if s.loop = .configured then
        if ok then
          some
            { drain := s.drain.clone
              loop := .iterating
              conns := s.conns ++ [.loading] }
        else some { s with loop := .iterating }
      else none
  | .wake => if s.loop = .waiting then some { s with loop := .selecting } else none
  | .conn n a =>
      s.conns[n]?.bind fun c => (c.step? s.drain a).map fun stepped =>
        { s with drain := stepped.1, conns := s.conns.set n stepped.2 }
  | .signal => some { s with drain := s.drain.signal }
  | .drain => s.drain.complete.map fun d => { s with drain := d }

/-- The step relation. -/
def Step (s : HttpsServer) (a : Action) (s' : HttpsServer) : Prop := s.step? a = some s'

/-! ## What a step does -/

/-- Everything that one action can do. -/
inductive Cases (s : HttpsServer) : Action → HttpsServer → Prop
  | select (hloop : s.loop = .iterating) :
      Cases s .select { s with drain := s.drain.clone, loop := .selecting }
  | stop (hloop : s.loop = .selecting) (hsignaled : s.drain.signaled = true) :
      Cases s .pollSignaled { s with drain := s.drain.drop.drop, loop := .returned }
  | notSignaled (hloop : s.loop = .selecting) (hsignaled : s.drain.signaled = false) :
      Cases s .pollSignaled { s with loop := .accepting }
  | notAccepted (hloop : s.loop = .accepting) :
      Cases s (.pollAccept .pending) { s with loop := .waiting }
  | accepted (hloop : s.loop = .accepting) :
      Cases s (.pollAccept (.ready true)) { s with drain := s.drain.drop, loop := .accepted }
  | acceptFailed (hloop : s.loop = .accepting) :
      Cases s (.pollAccept (.ready false))
        { s with drain := s.drain.drop, loop := .iterating }
  | configured (hloop : s.loop = .accepted) :
      Cases s (.setNodelay true) { s with loop := .configured }
  | nodelayFailed (hloop : s.loop = .accepted) :
      Cases s (.setNodelay false) { s with loop := .iterating }
  | spawned (hloop : s.loop = .configured) :
      Cases s (.peerAddr true) ⟨s.drain.clone, .iterating, s.conns ++ [.loading]⟩
  | peerAddrFailed (hloop : s.loop = .configured) :
      Cases s (.peerAddr false) { s with loop := .iterating }
  | wake (hloop : s.loop = .waiting) : Cases s .wake { s with loop := .selecting }
  | conn {n : Nat} {a : ConnAction} {c c' : Conn} {d : DrainChannel}
      (hconn : s.conns[n]? = some c) (hmoves : Conn.Moves s.drain c a d c') :
      Cases s (.conn n a) { s with drain := d, conns := s.conns.set n c' }
  | signal : Cases s .signal { s with drain := s.drain.signal }
  | drain (hsignaled : s.drain.signaled = true) (hwatches : s.drain.watches = 0) :
      Cases s .drain { s with drain := { s.drain with drained := true } }

theorem step?_cases {s s' : HttpsServer} {a : Action} (h : s.step? a = some s') :
    Cases s a s' := by
  cases a with
  | select =>
      obtain ⟨hloop, hrest⟩ := Option.ite_none_right_eq_some.mp h
      obtain rfl := Option.some.inj hrest
      exact Cases.select hloop
  | pollSignaled =>
      obtain ⟨hloop, hrest⟩ := Option.ite_none_right_eq_some.mp h
      cases hsignaled : s.drain.signaled with
      | true =>
          rw [if_pos hsignaled] at hrest
          obtain rfl := Option.some.inj hrest
          exact Cases.stop hloop hsignaled
      | false =>
          rw [if_neg (by simp [hsignaled])] at hrest
          obtain rfl := Option.some.inj hrest
          exact Cases.notSignaled hloop hsignaled
  | pollAccept ok =>
      obtain ⟨hloop, hrest⟩ := Option.ite_none_right_eq_some.mp h
      cases ok with
      | pending =>
          obtain rfl := Option.some.inj hrest
          exact Cases.notAccepted hloop
      | ready ok =>
          cases ok with
          | true =>
              obtain rfl := Option.some.inj hrest
              exact Cases.accepted hloop
          | false =>
              obtain rfl := Option.some.inj hrest
              exact Cases.acceptFailed hloop
  | setNodelay ok =>
      obtain ⟨hloop, hrest⟩ := Option.ite_none_right_eq_some.mp h
      obtain rfl := Option.some.inj hrest
      cases ok with
      | true => exact Cases.configured hloop
      | false => exact Cases.nodelayFailed hloop
  | peerAddr ok =>
      obtain ⟨hloop, hrest⟩ := Option.ite_none_right_eq_some.mp h
      cases ok with
      | true =>
          obtain rfl := Option.some.inj hrest
          exact Cases.spawned hloop
      | false =>
          obtain rfl := Option.some.inj hrest
          exact Cases.peerAddrFailed hloop
  | wake =>
      obtain ⟨hloop, hrest⟩ := Option.ite_none_right_eq_some.mp h
      obtain rfl := Option.some.inj hrest
      exact Cases.wake hloop
  | conn n a =>
      obtain ⟨c, hconn, hrest⟩ := Option.bind_eq_some_iff.mp h
      obtain ⟨⟨d, c'⟩, hstep, rfl⟩ := Option.map_eq_some_iff.mp hrest
      exact Cases.conn hconn (Conn.step?_moves hstep)
  | signal =>
      obtain rfl := Option.some.inj h
      exact Cases.signal
  | drain =>
      obtain ⟨d, hcomplete, rfl⟩ := Option.map_eq_some_iff.mp h
      obtain ⟨⟨hsignaled, hwatches⟩, hd⟩ := Option.ite_none_right_eq_some.mp hcomplete
      obtain rfl := Option.some.inj hd
      exact Cases.drain hsignaled hwatches

/-! ## Who holds a `Watch` -/

/-- The number of `serve_conn` tasks that have not returned. -/
def liveTasks (s : HttpsServer) : Nat := s.conns.countP Conn.live

/-- The `Watch`es and latches that are alive are the ones that `accept_loop` holds and
one for each `serve_conn` that has not returned. -/
def Accounted (s : HttpsServer) : Prop := s.drain.watches = s.loop.held + s.liveTasks

theorem accounted_spawn : spawn.Accounted := rfl

/-- Every action keeps account of the `Watch`es. -/
theorem Accounted.cases {s s' : HttpsServer} {a : Action} (h : s.Accounted)
    (hcases : Cases s a s') : s'.Accounted := by
  unfold Accounted at h
  cases hcases with
  | select hloop | stop hloop | accepted hloop | acceptFailed hloop =>
      rw [hloop] at h
      simp only [Accounted, liveTasks, AcceptLoop.held, DrainChannel.clone_watches,
        DrainChannel.drop_watches] at h ⊢
      omega
  | notSignaled hloop | notAccepted hloop | configured hloop | nodelayFailed hloop
  | peerAddrFailed hloop | wake hloop =>
      rw [hloop] at h
      exact h
  | spawned hloop =>
      have hcount := countP_append_singleton Conn.live s.conns .loading
      rw [hloop] at h
      simp only [Accounted, liveTasks, AcceptLoop.held, DrainChannel.clone_watches] at h ⊢
      rw [hcount, h]
      rfl
  | @conn n a c c' d hconn hmoves =>
      have hcount := countP_set_add Conn.live hconn c'
      have hheld : c.live = true → 0 < s.drain.watches := by
        intro hlive
        have hpos : 0 < s.liveTasks :=
          List.countP_pos_iff.mpr ⟨c, List.mem_of_getElem? hconn, hlive⟩
        omega
      have hwatches := hmoves.watches hheld
      change d.watches = s.loop.held + (s.conns.set n c').countP Conn.live
      unfold liveTasks at h
      omega
  | signal | drain => exact h

theorem accounted {actions : List Action} {s : HttpsServer}
    (hrun : Run Step spawn actions s) : s.Accounted :=
  hrun.invariant Accounted (fun _ _ _ h hstep => h.cases (step?_cases hstep))
    accounted_spawn

end HttpsServer

end Server
end Kubert
