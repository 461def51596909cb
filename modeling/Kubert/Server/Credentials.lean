import Kubert.Server.Connections

/-!
# TLS credentials and their rotation

The server does not keep its TLS credentials: `serve_conn` reads the two files again for
every connection, so that they can be rotated under a running server.  The key is read
first and the certificates after it, with an await in each read, and so a rotation may
come before, between or after the two reads of a connection, while other connections
are at theirs.

`Rotating` is the server together with the files.  Whatever happens, a connection uses
what the files held since it was accepted, never what an earlier connection had loaded;
and if they are not rotated meanwhile, it loads exactly what `load_tls` makes of them.
`ServerArgs::bind` has loaded the files once to see that they are good, so that without a
rotation no connection is without credentials (`Loaded.ok_of_bound`).

The formats of the files and the configuration of the TLS library are the business of
`rustls` or of `openssl`; `Backend` is what the server uses of either.  They differ in what
they make of a file with several keys and of one without certificates
(`rustls_reads_only_key`, `openssl_panics_without_certs`).
-/

namespace Kubert
namespace Server

open Foundation

/-! ## `load_tls` -/

/-- An `std::io::Error`, of the system or one that the code makes. -/
inductive IoError
  | os (code : Nat)
  | other (message : String)
deriving DecidableEq, Repr

/-- The errors of `load_tls`, and a panic in it. -/
inductive LoadError
  | tlsKeyReadError (e : IoError)
  | tlsCertsReadError (e : IoError)
  | invalidTlsCredentials (message : String)
  | panic
deriving DecidableEq, Repr

/-- What `tokio::fs::read` returns for the two paths. -/
structure Files where
  key : Except IoError (List UInt8)
  certs : Except IoError (List UInt8)

/-- One of the modules `tls_rustls` and `tls_openssl`. -/
structure Backend where
  Key : Type
  Cert : Type
  Acceptor : Type
  loadPrivateKey : List UInt8 → Except IoError Key
  loadCerts : List UInt8 → Except IoError (List Cert)
  configure : Key → List Cert → Except LoadError Acceptor

namespace Backend

variable (b : Backend)

/-- `load_tls` up to the key. -/
def loadKey (files : Files) : Except LoadError b.Key :=
  (files.key.bind b.loadPrivateKey).mapError .tlsKeyReadError

/-- `load_tls` from there on. -/
def finishLoad (files : Files) (key : b.Key) : Except LoadError b.Acceptor :=
  ((files.certs.bind b.loadCerts).mapError .tlsCertsReadError).bind (b.configure key)

/-- `load_tls`, while the files stay as they are. -/
def loadTls (files : Files) : Except LoadError b.Acceptor :=
  (b.loadKey files).bind (b.finishLoad files)

end Backend

/-- `ServerArgs`, by which paths are given. -/
structure ServerArgs where
  serverTlsKey : Bool
  serverTlsCerts : Bool
deriving DecidableEq, Repr

/-- How `ServerArgs::bind` fails. -/
inductive BindError
  | noTlsKey
  | noTlsCerts
  | tls (e : LoadError)
  | bind (e : IoError)
  | localAddr (e : IoError)
deriving DecidableEq, Repr

/-- `ServerArgs::bind`.  It loads the credentials to see whether they can be loaded, from
the files as they are when it reads the key and when it reads the certificates, and does
not keep them; the results are those of the two calls on the socket. -/
def ServerArgs.bind (args : ServerArgs) (b : Backend) (atKey atCerts : Files)
    (tcp localAddr : Except IoError Unit) : Except BindError Unit := do
  if !args.serverTlsKey then throw .noTlsKey
  if !args.serverTlsCerts then throw .noTlsCerts
  let _ ← ((b.loadKey atKey).bind (b.finishLoad atCerts)).mapError .tls
  tcp.mapError .bind
  localAddr.mapError .localAddr

/-! ## `tls_rustls` -/

/-- What is used of `rustls` and `rustls_pemfile`.  The readers of PEM files are
iterators of results. -/
structure Rustls where
  Key : Type
  Cert : Type
  Acceptor : Type
  pkcs8PrivateKeys : List UInt8 → List (Except IoError Key)
  rsaPrivateKeys : List UInt8 → List (Except IoError Key)
  certs : List UInt8 → List (Except IoError Cert)
  withSingleCert : List Cert → Key → Except String Acceptor

namespace Rustls

variable (r : Rustls)

/-- The end of `load_private_key`: there must be exactly one key. -/
def popKey (keys : List r.Key) : Except IoError r.Key :=
  match keys.getLast? with
  | none => .error (.other "could not load private key")
  | some key =>
      if keys.dropLast.isEmpty then .ok key else .error (.other "too many private keys")

/-- `load_private_key`. -/
def loadPrivateKey (pem : List UInt8) : Except IoError r.Key :=
  (r.pkcs8PrivateKeys pem).mapM id >>= fun keys =>
    (if keys.isEmpty then (r.rsaPrivateKeys pem).mapM id else pure keys) >>= r.popKey

theorem popKey_eq_ok_iff {keys : List r.Key} {key : r.Key} :
    r.popKey keys = .ok key ↔ keys = [key] := by
  rcases List.eq_nil_or_concat keys with rfl | ⟨others, last, rfl⟩
  · simp [popKey]
  · cases others with
    | nil => simp [popKey]
    | cons first others =>
        have hlast : ((first :: others).concat last).getLast? = some last := by
          rw [List.concat_eq_append, List.getLast?_concat]
        have hdrop : ((first :: others).concat last).dropLast = first :: others := by
          rw [List.concat_eq_append, List.dropLast_concat]
        rw [popKey, hlast, hdrop]
        simp

/-- What is bound succeeds only after what comes before it. -/
theorem ok_of_bind {ε α β : Type} {x : Except ε α} {f : α → Except ε β} {value : β}
    (h : x >>= f = .ok value) : ∃ a, x = .ok a ∧ f a = .ok value := by
  cases x with
  | error e => cases h
  | ok a => exact ⟨a, rfl, h⟩

/-- All results of an iterator are collected if none is an error. -/
theorem mapM_id_eq_ok_iff {ε α : Type} {results : List (Except ε α)} {values : List α} :
    results.mapM id = .ok values ↔ results = values.map .ok := by
  induction results generalizing values with
  | nil => cases values <;> simp [pure, Except.pure]
  | cons result results ih =>
      rw [List.mapM_cons]
      cases values with
      | nil =>
          cases result <;> cases results.mapM id <;>
            simp [bind, Except.bind, pure, Except.pure]
      | cons value values =>
          simp only [List.map_cons, List.cons.injEq, ← ih]
          cases result <;> cases results.mapM id <;>
            simp [bind, Except.bind, pure, Except.pure]

/-- The only key of a file: the only one in the format PKCS#8, or the only RSA key of a
file that has none of these. -/
def OnlyKey (pem : List UInt8) (key : r.Key) : Prop :=
  r.pkcs8PrivateKeys pem = [.ok key] ∨
    r.pkcs8PrivateKeys pem = [] ∧ r.rsaPrivateKeys pem = [.ok key]

/-- A key is loaded exactly if it is the only one of the file. -/
theorem loadPrivateKey_eq_ok_iff {pem : List UInt8} {key : r.Key} :
    r.loadPrivateKey pem = .ok key ↔ r.OnlyKey pem key := by
  unfold loadPrivateKey OnlyKey
  constructor
  · intro hload
    obtain ⟨keys, hkeys, hrest⟩ := ok_of_bind hload
    obtain ⟨chosen, hchosen, hpop⟩ := ok_of_bind hrest
    obtain rfl := r.popKey_eq_ok_iff.mp hpop
    cases keys with
    | nil => exact .inr ⟨mapM_id_eq_ok_iff.mp hkeys, mapM_id_eq_ok_iff.mp hchosen⟩
    | cons first keys =>
        have hone : first :: keys = [key] := Except.ok.inj hchosen
        rw [hone] at hkeys
        exact .inl (mapM_id_eq_ok_iff.mp hkeys)
  · rintro (hpkcs8 | ⟨hnone, hrsa⟩)
    · rw [hpkcs8]
      exact r.popKey_eq_ok_iff.mpr rfl
    · rw [hnone, hrsa]
      exact r.popKey_eq_ok_iff.mpr rfl

/-- `load_certs`. -/
def loadCerts (pem : List UInt8) : Except IoError (List r.Cert) := (r.certs pem).mapM id

/-- The backend. -/
def backend : Backend where
  Key := r.Key
  Cert := r.Cert
  Acceptor := r.Acceptor
  loadPrivateKey := r.loadPrivateKey
  loadCerts := r.loadCerts
  configure key certs := (r.withSingleCert certs key).mapError .invalidTlsCredentials

/-- The key of a connection is the only one of the file. -/
theorem onlyKey_of_loadKey {files : Files} {key : r.Key}
    (h : r.backend.loadKey files = .ok key) :
    ∃ pem, files.key = .ok pem ∧ r.OnlyKey pem key := by
  unfold Backend.loadKey at h
  cases hread : files.key with
  | error e =>
      rw [hread] at h
      cases h
  | ok pem =>
      rw [hread] at h
      change (r.loadPrivateKey pem).mapError LoadError.tlsKeyReadError = .ok key at h
      refine ⟨pem, rfl, r.loadPrivateKey_eq_ok_iff.mp ?_⟩
      cases hload : r.loadPrivateKey pem with
      | error e =>
          rw [hload] at h
          cases h
      | ok loaded =>
          rw [hload] at h
          exact congrArg Except.ok (Except.ok.inj h)

end Rustls

/-! ## `tls_openssl` -/

/-- What is used of `openssl`. -/
structure OpenSsl where
  Key : Type
  Cert : Type
  Acceptor : Type
  privateKeyFromPem : List UInt8 → Except IoError Key
  stackFromPem : List UInt8 → Except IoError (List Cert)
  /-- `SslAcceptor::mozilla_intermediate_v5`, without client authentication. -/
  builder : Except String Acceptor
  setPrivateKey : Acceptor → Key → Except String Acceptor
  setCertificate : Acceptor → Cert → Except String Acceptor
  addExtraChainCert : Acceptor → Cert → Except String Acceptor
  setAlpnProtos : Acceptor → List UInt8 → Except String Acceptor

namespace OpenSsl

variable (o : OpenSsl)

/-- `ALPN_PROTOCOLS`: every name after its length. -/
def alpnProtocols : List UInt8 :=
  ["h2", "http/1.1"].flatMap fun p => UInt8.ofNat p.utf8ByteSize :: p.toUTF8.toList

/-- `configure`.  It takes `certs[0]` without a look at the length. -/
def configure (key : o.Key) (certs : List o.Cert) : Except LoadError o.Acceptor := do
  let conn ← (o.builder.bind (o.setPrivateKey · key)).mapError .invalidTlsCredentials
  match certs with
  | [] => .error .panic
  | cert :: chain =>
      Except.mapError LoadError.invalidTlsCredentials do
        let conn ← o.setCertificate conn cert
        let conn ← chain.foldlM o.addExtraChainCert conn
        o.setAlpnProtos conn alpnProtocols

theorem mapError_ne_panic {α : Type} (x : Except String α) :
    x.mapError LoadError.invalidTlsCredentials ≠ .error .panic := by
  cases x <;> simp [Except.mapError]

/-- A file without certificates makes it panic, once the key is accepted. -/
theorem configure_eq_panic_iff {key : o.Key} {certs : List o.Cert} :
    o.configure key certs = .error .panic ↔
      certs = [] ∧ ∃ conn, o.builder.bind (o.setPrivateKey · key) = .ok conn := by
  unfold configure
  cases hkey : o.builder.bind (o.setPrivateKey · key) with
  | error message => simp [Except.mapError, bind, Except.bind]
  | ok conn =>
      cases certs with
      | nil => simp [Except.mapError, bind, Except.bind]
      | cons cert chain => exact iff_of_false (mapError_ne_panic _) (by simp)

/-- The backend. -/
def backend : Backend where
  Key := o.Key
  Cert := o.Cert
  Acceptor := o.Acceptor
  loadPrivateKey := o.privateKeyFromPem
  loadCerts := o.stackFromPem
  configure := o.configure

/-- `load_tls` panics on a file without certificates, once the key is accepted. -/
theorem finishLoad_eq_panic_iff {files : Files} {key : o.Key} :
    o.backend.finishLoad files key = .error .panic ↔
      files.certs.bind o.stackFromPem = .ok [] ∧
        ∃ conn, o.builder.bind (o.setPrivateKey · key) = .ok conn := by
  unfold Backend.finishLoad
  change ((files.certs.bind o.stackFromPem).mapError LoadError.tlsCertsReadError).bind
    (o.configure key) = .error .panic ↔ _
  cases files.certs.bind o.stackFromPem with
  | error e => simp [Except.mapError, Except.bind]
  | ok certs =>
      change o.configure key certs = .error .panic ↔ _
      rw [o.configure_eq_panic_iff, Except.ok.injEq]

/-- The key does not make it panic. -/
theorem loadKey_ne_panic (files : Files) : o.backend.loadKey files ≠ .error .panic := by
  unfold Backend.loadKey
  cases files.key.bind o.backend.loadPrivateKey <;> simp [Except.mapError]

end OpenSsl

/-! ## The server and its files -/

/-- Where the `load_tls` of a connection stands. -/
inductive Load (b : Backend)
  /-- It awaits the file of the key. -/
  | key
  /-- It awaits the file of the certificates. -/
  | certs (key : b.Key)
  | done (result : Except LoadError b.Acceptor)

/-- What a load says of its connection. -/
def Load.Suits {b : Backend} : Load b → Conn → Prop
  | .key, c => c = .loading
  | .certs _, c => c = .loading
  | .done (.error _), c => c = .failed
  | .done (.ok _), c => c ≠ .loading

/-- The action is the end of a `load_tls`. -/
def Action.loads : Action → Bool
  | .conn _ (.loadTls _) => true
  | _ => false

/-- The action spawns a `serve_conn`. -/
def Action.spawns : Action → Bool
  | .peerAddr ok => ok
  | _ => false

/-- The server with the files of its credentials, and the `load_tls` of every
connection. -/
structure Rotating (b : Backend) where
  server : HttpsServer
  files : Files
  loads : List (Load b)

/-- What can happen: other files take the place of these, the server goes on with
anything but a load, or a connection reads one of its files. -/
inductive Rotating.Action
  | rotate (files : Files)
  | server (a : Server.Action)
  | readKey (n : Nat)
  | readCerts (n : Nat)

namespace Rotating

variable {b : Backend}

/-- The server is spawned with these files. -/
def spawn (b : Backend) (files : Files) : Rotating b := ⟨.spawn, files, []⟩

/-- The `load_tls` of a connection returns to `serve_conn`. -/
def finish (s : Rotating b) (n : Nat) (result : Except LoadError b.Acceptor) :
    Option (Rotating b) :=
  (s.server.step? (.conn n (.loadTls result.toBool))).map fun server =>
    { s with server := server, loads := s.loads.set n (.done result) }

/-- One action; `none` if it is not possible. -/
def step? (s : Rotating b) : Action → Option (Rotating b)
  | .rotate files => some { s with files := files }
  | .server a =>
      if a.loads then none
      else
        (s.server.step? a).map fun server =>
          { s with
            server := server
            loads := if a.spawns then s.loads ++ [.key] else s.loads }
  | .readKey n =>
      match s.loads[n]? with
      | some .key =>
          match b.loadKey s.files with
          | .error e => s.finish n (.error e)
          | .ok key => some { s with loads := s.loads.set n (.certs key) }
      | _ => none
  | .readCerts n =>
      match s.loads[n]? with
      | some (.certs key) => s.finish n (b.finishLoad s.files key)
      | _ => none

/-- The step relation. -/
def Step (s : Rotating b) (a : Action) (s' : Rotating b) : Prop := s.step? a = some s'

/-- Everything that one action can do. -/
inductive Cases (s : Rotating b) : Action → Rotating b → Prop
  | rotate {files : Files} : Cases s (.rotate files) { s with files := files }
  | server {a : Server.Action} {server : HttpsServer} (hother : a.loads = false)
      (hstep : s.server.step? a = some server) :
      Cases s (.server a)
        { s with
          server := server
          loads := if a.spawns then s.loads ++ [.key] else s.loads }
  | keyRead {n : Nat} {key : b.Key} (hload : s.loads[n]? = some .key)
      (hkey : b.loadKey s.files = .ok key) :
      Cases s (.readKey n) { s with loads := s.loads.set n (.certs key) }
  | keyFailed {n : Nat} {e : LoadError} {server : HttpsServer}
      (hload : s.loads[n]? = some .key) (hkey : b.loadKey s.files = .error e)
      (hstep : s.server.step? (.conn n (.loadTls false)) = some server) :
      Cases s (.readKey n)
        { s with server := server, loads := s.loads.set n (.done (.error e)) }
  | certsRead {n : Nat} {key : b.Key} {result : Except LoadError b.Acceptor}
      {server : HttpsServer} (hload : s.loads[n]? = some (.certs key))
      (hresult : result = b.finishLoad s.files key)
      (hstep : s.server.step? (.conn n (.loadTls result.toBool)) = some server) :
      Cases s (.readCerts n)
        { s with server := server, loads := s.loads.set n (.done result) }

theorem step?_cases {s s' : Rotating b} {a : Action} (h : s.step? a = some s') :
    Cases s a s' := by
  cases a with
  | rotate files =>
      obtain rfl := Option.some.inj h
      exact .rotate
  | server a =>
      obtain ⟨hother, hrest⟩ := Option.ite_none_left_eq_some.mp h
      obtain ⟨server, hstep, rfl⟩ := Option.map_eq_some_iff.mp hrest
      exact .server (Bool.not_eq_true _ ▸ hother) hstep
  | readKey n =>
      simp only [step?] at h
      split at h
      · rename_i hload
        split at h
        · rename_i e hkey
          obtain ⟨server, hstep, rfl⟩ := Option.map_eq_some_iff.mp h
          exact .keyFailed hload hkey hstep
        · rename_i key hkey
          obtain rfl := Option.some.inj h
          exact .keyRead hload hkey
      · cases h
  | readCerts n =>
      simp only [step?] at h
      split at h
      · rename_i key hload
        obtain ⟨server, hstep, rfl⟩ := Option.map_eq_some_iff.mp h
        exact .certsRead hload rfl hstep
      · cases h

/-! ## The loads and the connections -/

/-- There is one load for every connection, and it says where the connection is. -/
structure Matched (s : Rotating b) : Prop where
  length : s.loads.length = s.server.conns.length
  suits : ∀ (n : Nat) (load : Load b) (c : Conn), s.loads[n]? = some load →
    s.server.conns[n]? = some c → load.Suits c

/-- One connection or its load changes. -/
theorem Matched.update {s s' : Rotating b} (h : s.Matched) {n : Nat} {load' : Load b} {c' : Conn}
    (hloads : s'.loads = s.loads.set n load') (hconns : s'.server.conns = s.server.conns.set n c')
    (hsuits : load'.Suits c') : s'.Matched := by
  constructor
  · rw [hloads, hconns, List.length_set, List.length_set]
    exact h.length
  · rw [hloads, hconns]
    intro m load c hload hc
    by_cases hm : n = m
    · subst hm
      have hlt : n < s.loads.length := by
        have hbound := (List.getElem?_eq_some_iff.mp hload).1
        rwa [List.length_set] at hbound
      rw [List.getElem?_set_self hlt] at hload
      rw [List.getElem?_set_self (h.length ▸ hlt)] at hc
      obtain rfl := Option.some.inj hload
      obtain rfl := Option.some.inj hc
      exact hsuits
    · rw [List.getElem?_set_ne hm] at hload hc
      exact h.suits m load c hload hc

/-- A connection goes on with anything but its load. -/
theorem suits_of_moves {load : Load b} {c c' : Conn} {a : ConnAction} {d d' : DrainChannel}
    (hsuits : load.Suits c) (hother : ∀ ok, a ≠ .loadTls ok) (hmoves : Conn.Moves d c a d' c') :
    load.Suits c' := by
  cases hmoves with
  | loaded | noCredentials => exact absurd rfl (hother _)
  | established | refused | signaled | shutdownHttp | release | serving | draining | finished =>
      cases load with
      | key | certs => cases hsuits
      | done result =>
          cases result with
          | error e => cases hsuits
          | ok acceptor => simp [Load.Suits]

/-- A load that ends takes its connection along. -/
theorem Matched.finish {s : Rotating b} (h : s.Matched) {n : Nat}
    {result : Except LoadError b.Acceptor} {server : HttpsServer}
    (hstep : s.server.step? (.conn n (.loadTls result.toBool)) = some server) :
    ({ s with server := server, loads := s.loads.set n (.done result) } : Rotating b).Matched := by
  cases HttpsServer.step?_cases hstep with
  | @conn _ _ c c' d hconn hmoves =>
      refine h.update rfl rfl ?_
      generalize ha : ConnAction.loadTls result.toBool = a at hmoves
      cases result with
      | error e =>
          cases hmoves with
          | noCredentials => rfl
          | _ => cases ha
      | ok acceptor =>
          cases hmoves with
          | loaded => simp [Load.Suits]
          | _ => cases ha

/-- The server goes on with anything but a load. -/
theorem Matched.server {s : Rotating b} (h : s.Matched) {a : Server.Action} {server : HttpsServer}
    (hother : a.loads = false) (hcases : HttpsServer.Cases s.server a server) :
    ({ s with
      server := server
      loads := if a.spawns then s.loads ++ [.key] else s.loads } : Rotating b).Matched := by
  cases hcases with
  | spawned hloop =>
      constructor
      · simpa [Action.spawns] using h.length
      · intro n load c hload hc
        rw [Action.spawns, if_pos rfl] at hload
        rcases Nat.lt_or_ge n s.loads.length with hlt | hge
        · rw [List.getElem?_append_left hlt] at hload
          rw [List.getElem?_append_left (h.length ▸ hlt)] at hc
          exact h.suits n load c hload hc
        · rw [List.getElem?_append_right hge] at hload
          rw [List.getElem?_append_right (h.length ▸ hge)] at hc
          obtain rfl := List.mem_singleton.mp (List.mem_of_getElem? hload)
          exact List.mem_singleton.mp (List.mem_of_getElem? hc)
  | @conn n a c c' d hconn hmoves =>
      have hlt : n < s.loads.length := h.length ▸ (List.getElem?_eq_some_iff.mp hconn).1
      have hload := List.getElem?_eq_getElem hlt
      refine h.update (List.set_getElem_self hlt).symm rfl ?_
      refine suits_of_moves (h.suits n _ c hload hconn) ?_ hmoves
      rintro ok rfl
      cases hother
  | select | stop | notSignaled | notAccepted | accepted | acceptFailed | configured
  | nodelayFailed | peerAddrFailed | wake | signal | drain => exact ⟨h.length, h.suits⟩

theorem Matched.step {s s' : Rotating b} {a : Action} (h : s.Matched)
    (hstep : Step s a s') : s'.Matched := by
  cases step?_cases hstep with
  | rotate => exact ⟨h.length, h.suits⟩
  | server hother hserver => exact h.server hother (HttpsServer.step?_cases hserver)
  | @keyRead n key hload hkey =>
      have hlt : n < s.server.conns.length := h.length ▸ (List.getElem?_eq_some_iff.mp hload).1
      have hconn := List.getElem?_eq_getElem hlt
      have hloading : Load.Suits .key _ := h.suits n _ _ hload hconn
      exact h.update rfl (List.set_getElem_self hlt).symm hloading
  | keyFailed hload hkey hserver => exact @Matched.finish b s h _ (.error _) _ hserver
  | certsRead hload hresult hserver => exact h.finish hserver

theorem matched_of_run {files : Files} {actions : List Action} {s : Rotating b}
    (hrun : Run Step (spawn b files) actions s) : s.Matched := by
  refine hrun.invariant Matched (fun _ _ _ h hstep => h.step hstep) ⟨rfl, ?_⟩
  intro n load c hload
  cases hload

/-- The server inside takes the steps that it takes by itself. -/
theorem server_of_run {files : Files} {actions : List Action} {s : Rotating b}
    (hrun : Run Step (spawn b files) actions s) :
    ∃ steps, Run HttpsServer.Step .spawn steps s.server := by
  refine hrun.invariant (fun s => ∃ steps, Run HttpsServer.Step .spawn steps s.server) ?_
    ⟨[], Run.nil _⟩
  rintro s a s' ⟨steps, hsteps⟩ hstep
  cases step?_cases hstep with
  | rotate | keyRead => exact ⟨steps, hsteps⟩
  | server _ hserver => exact ⟨_, hsteps.append (Run.cons hserver (Run.nil _))⟩
  | keyFailed _ _ hserver => exact ⟨_, hsteps.append (Run.cons hserver (Run.nil _))⟩
  | certsRead _ _ hserver => exact ⟨_, hsteps.append (Run.cons hserver (Run.nil _))⟩

/-! ## What a connection has loaded -/

section Loaded

variable {start s s' : Rotating b} {past : List Action} {a : Action} {n : Nat}

/-- Along the run the connection has read its key, with this result. -/
def ReadsKey (start : Rotating b) (past : List Action) (s : Rotating b) (n : Nat)
    (result : Except LoadError b.Key) : Prop :=
  Passes Step (fun r a _ => a = .readKey n ∧ b.loadKey r.files = result) start past s

/-- Along the run the connection has read its certificates, to go with this key. -/
def ReadsCerts (start : Rotating b) (past : List Action) (s : Rotating b) (n : Nat)
    (key : b.Key) (result : Except LoadError b.Acceptor) : Prop :=
  Passes Step (fun r a _ => a = .readCerts n ∧ b.finishLoad r.files key = result) start past s

/-- Where the result of a load comes from: the key could not be loaded, or it was, and
the certificates were read for it. -/
def Loaded (start : Rotating b) (past : List Action) (s : Rotating b) (n : Nat)
    (result : Except LoadError b.Acceptor) : Prop :=
  (∃ e, result = .error e ∧ ReadsKey start past s n (.error e)) ∨
    ∃ key, ReadsKey start past s n (.ok key) ∧ ReadsCerts start past s n key result

/-- What a load stands for, if its connection was accepted since the start. -/
def Explains (start : Rotating b) (past : List Action) (s : Rotating b) (n : Nat) :
    Load b → Prop
  | .key => True
  | .certs key => ReadsKey start past s n (.ok key)
  | .done result => Loaded start past s n result

theorem Explains.concat {load : Load b} (h : Explains start past s n load)
    (hstep : Step s a s') : Explains start (past ++ [a]) s' n load := by
  cases load with
  | key => trivial
  | certs key => exact Passes.concat h hstep
  | done result =>
      rcases h with ⟨e, hresult, hkey⟩ | ⟨key, hkey, hcerts⟩
      · exact .inl ⟨e, hresult, hkey.concat hstep⟩
      · exact .inr ⟨key, hkey.concat hstep, hcerts.concat hstep⟩

/-- The invariant, for the connections that were accepted since the start. -/
structure Fresh (start : Rotating b) (past : List Action) (s : Rotating b) : Prop where
  run : Run Step start past s
  longer : start.loads.length ≤ s.loads.length
  explained : ∀ (n : Nat) (load : Load b), start.loads.length ≤ n → s.loads[n]? = some load →
    Explains start past s n load

/-- One load goes on, and the others stay as they are. -/
theorem Fresh.set (h : Fresh start past s) (hstep : Step s a s') {load' : Load b}
    (hloads : s'.loads = s.loads.set n load')
    (hload : start.loads.length ≤ n → Explains start (past ++ [a]) s' n load') :
    Fresh start (past ++ [a]) s' := by
  refine ⟨h.run.append (Run.cons hstep (Run.nil s')), ?_, ?_⟩
  · rw [hloads, List.length_set]
    exact h.longer
  · intro m load hm hget
    rw [hloads] at hget
    by_cases hsame : n = m
    · subst hsame
      have hlt := (List.getElem?_eq_some_iff.mp hget).1
      rw [List.length_set] at hlt
      rw [List.getElem?_set_self hlt] at hget
      obtain rfl := Option.some.inj hget
      exact hload hm
    · rw [List.getElem?_set_ne hsame] at hget
      exact (h.explained m load hm hget).concat hstep

theorem Fresh.step (h : Fresh start past s) (hstep : Step s a s') :
    Fresh start (past ++ [a]) s' := by
  cases step?_cases hstep with
  | rotate =>
      exact ⟨h.run.append (Run.cons hstep (Run.nil _)), h.longer,
        fun n load hn hload => (h.explained n load hn hload).concat hstep⟩
  | @server a server hother hserver =>
      refine ⟨h.run.append (Run.cons hstep (Run.nil _)), ?_, ?_⟩
      · cases a.spawns with
        | false => exact h.longer
        | true =>
            simp only [if_true, List.length_append]
            exact Nat.le_add_right_of_le h.longer
      · intro n load hn hload
        -- A load is the one that was there, or it has just begun.
        have hbefore : s.loads[n]? = some load ∨ load = .key := by
          cases hspawns : a.spawns with
          | false => exact .inl (by simpa [hspawns] using hload)
          | true =>
              rw [hspawns, if_pos rfl, List.getElem?_append] at hload
              split at hload
              · exact .inl hload
              · exact .inr (List.mem_singleton.mp (List.mem_of_getElem? hload))
        rcases hbefore with hold | rfl
        · exact (h.explained n load hn hold).concat hstep
        · trivial
  | @keyRead n key hload hkey => exact h.set hstep rfl fun _ => .last h.run hstep ⟨rfl, hkey⟩
  | @keyFailed n e server hload hkey hserver =>
      exact h.set hstep rfl fun _ => .inl ⟨e, rfl, .last h.run hstep ⟨rfl, hkey⟩⟩
  | @certsRead n key result server hload hresult hserver =>
      refine h.set hstep rfl fun hn => .inr ⟨key, ?_, .last h.run hstep ⟨rfl, hresult.symm⟩⟩
      exact (h.explained n _ hn hload).concat hstep

theorem fresh_of_run (hrun : Run Step start past s) : Fresh start past s := by
  refine hrun.history (Fresh start) (fun _ _ _ _ h hstep => h.step hstep)
    ⟨Run.nil start, le_refl _, ?_⟩
  intro n load hn hload
  exact absurd (List.getElem?_eq_some_iff.mp hload).1 (Nat.not_lt.mpr hn)

/-- The files change only by a rotation. -/
theorem files_of_run (hrun : Run Step start past s) (hnone : ∀ files, .rotate files ∉ past) :
    s.files = start.files := by
  have hquiet : Run (fun s a s' => Step s a s' ∧ ∀ files, a ≠ .rotate files) start past s :=
    hrun.restrict fun a ha files hrotate => hnone files (hrotate ▸ ha)
  refine hquiet.invariant (fun s => s.files = start.files) ?_ rfl
  rintro s a s' hfiles ⟨hstep, hrotate⟩
  cases step?_cases hstep with
  | rotate => exact absurd rfl (hrotate _)
  | server | keyRead | keyFailed | certsRead => exact hfiles

/-- Without a rotation everything was read from the same files. -/
theorem Loaded.eq_loadTls {result : Except LoadError b.Acceptor}
    (h : Loaded start past s n result) (hnone : ∀ files, .rotate files ∉ past) :
    result = b.loadTls start.files := by
  have hfiles : ∀ {fact : Rotating b → Action → Rotating b → Prop},
      Passes Step fact start past s → ∃ r a r', fact r a r' ∧ r.files = start.files := by
    rintro fact ⟨first, a, second, r, r', rfl, hfirst, -, -, hfact⟩
    refine ⟨r, a, r', hfact, files_of_run hfirst ?_⟩
    exact fun files hmem => hnone files (List.mem_append_left _ hmem)
  unfold Backend.loadTls
  rcases h with ⟨e, rfl, hkey⟩ | ⟨key, hkey, hcerts⟩
  · obtain ⟨r, _, _, ⟨-, hkey⟩, hsame⟩ := hfiles hkey
    rw [← hsame, hkey]
    rfl
  · obtain ⟨r, _, _, ⟨-, hkey⟩, hsame⟩ := hfiles hkey
    obtain ⟨u, _, _, ⟨-, hcerts⟩, hsame'⟩ := hfiles hcerts
    rw [← hsame, hkey, hsame, ← hsame', ← hcerts]
    rfl

/-- The server was bound with these files: they can be loaded. -/
theorem loadTls_of_bind {args : ServerArgs} {files : Files} {tcp localAddr : Except IoError Unit}
    (hbind : args.bind b files files tcp localAddr = .ok ()) :
    ∃ acceptor, b.loadTls files = .ok acceptor := by
  unfold ServerArgs.bind at hbind
  cases hload : b.loadTls files with
  | ok acceptor => exact ⟨acceptor, rfl⟩
  | error e =>
      rw [show (b.loadKey files).bind (b.finishLoad files) = .error e from hload] at hbind
      cases hkey : args.serverTlsKey <;> cases hcerts : args.serverTlsCerts <;>
        simp [hkey, hcerts, Except.mapError, bind, Except.bind, throw, throwThe,
          MonadExceptOf.throw] at hbind

/-- As long as the files stay as they were when the server could be bound with them, no
connection is without credentials. -/
theorem Loaded.ok_of_bound {result : Except LoadError b.Acceptor}
    (h : Loaded start past s n result) (hnone : ∀ files, .rotate files ∉ past)
    {args : ServerArgs} {tcp localAddr : Except IoError Unit}
    (hbind : args.bind b start.files start.files tcp localAddr = .ok ()) :
    ∃ acceptor, result = .ok acceptor := by
  obtain ⟨acceptor, hacceptor⟩ := loadTls_of_bind hbind
  exact ⟨acceptor, (h.eq_loadTls hnone).trans hacceptor⟩

/-- A connection that was accepted after a state has loaded what it has since then. -/
theorem loaded_of_new {files : Files} {before : List Action}
    (hbefore : Run Step (spawn b files) before start) (hrun : Run Step start past s)
    (hnew : start.server.conns.length ≤ n) {result : Except LoadError b.Acceptor}
    (hdone : s.loads[n]? = some (.done result)) : Loaded start past s n result :=
  (fresh_of_run hrun).explained n _ ((matched_of_run hbefore).length ▸ hnew) hdone

/-- A connection without credentials has failed. -/
theorem failed_of_error {files : Files} {before : List Action}
    (hbefore : Run Step (spawn b files) before start) (hrun : Run Step start past s)
    {e : LoadError} (hdone : s.loads[n]? = some (.done (.error e))) :
    s.server.conns[n]? = some .failed := by
  have hmatched := matched_of_run (hbefore.append hrun)
  have hlt : n < s.server.conns.length :=
    hmatched.length ▸ (List.getElem?_eq_some_iff.mp hdone).1
  have hconn := List.getElem?_eq_getElem hlt
  rw [hconn, show s.server.conns[n] = .failed from hmatched.suits n _ _ hdone hconn]

end Loaded

/-- In every run of a server whose files are rotated at any times, with any number of
connections under way: what `load_tls` returns to a connection that was accepted after a
state comes from files as they were after that state, when the connection has read them;
if they have not been rotated since, it is exactly what `load_tls` makes of them, which is
no error if the server could be bound with these files; and if it is an error, then that
connection has failed.  The server inside goes on as it does by itself. -/
theorem credentials_are_fresh {files : Files} {before past : List Action}
    {start s : Rotating b} (hbefore : Run Step (spawn b files) before start)
    (hrun : Run Step start past s) {n : Nat} (hnew : start.server.conns.length ≤ n)
    {result : Except LoadError b.Acceptor} (hdone : s.loads[n]? = some (.done result)) :
    Loaded start past s n result ∧
      ((∀ files, .rotate files ∉ past) → result = b.loadTls start.files) ∧
      (∀ e, result = .error e → s.server.conns[n]? = some .failed) ∧
      ((∀ files, .rotate files ∉ past) → ∀ (args : ServerArgs)
        (tcp localAddr : Except IoError Unit),
        args.bind b start.files start.files tcp localAddr = .ok () →
          ∃ acceptor, result = .ok acceptor) ∧
      ∃ steps, Run HttpsServer.Step .spawn steps s.server := by
  have hloaded := loaded_of_new hbefore hrun hnew hdone
  refine ⟨hloaded, hloaded.eq_loadTls, ?_, ?_, server_of_run (hbefore.append hrun)⟩
  · rintro e rfl
    exact failed_of_error hbefore hrun hdone
  · intro hnone args tcp localAddr hbind
    exact hloaded.ok_of_bound hnone hbind

/-- With `rustls` a connection that has its credentials has found a single key in the file
that it has read. -/
theorem rustls_reads_only_key {r : Rustls} {files : Files} {before past : List Action}
    {start s : Rotating r.backend} (hbefore : Run Step (spawn r.backend files) before start)
    (hrun : Run Step start past s) {n : Nat} (hnew : start.server.conns.length ≤ n)
    {acceptor : r.Acceptor} (hdone : s.loads[n]? = some (.done (.ok acceptor))) :
    ∃ key, ReadsCerts start past s n key (.ok acceptor) ∧
      Passes Step (fun u a _ => a = .readKey n ∧
        ∃ pem, u.files.key = .ok pem ∧ r.OnlyKey pem key) start past s := by
  rcases loaded_of_new hbefore hrun hnew hdone with ⟨e, herror, -⟩ | ⟨key, hkey, hcerts⟩
  · cases herror
  · exact ⟨key, hcerts, hkey.imp fun _ _ _ h => ⟨h.1, r.onlyKey_of_loadKey h.2⟩⟩

/-- With `openssl` a `load_tls` panics only for a connection that has read a file without
certificates, and it is that connection that has failed; and without a rotation it does
panic on such a file, once the key is accepted. -/
theorem openssl_panics_without_certs {o : OpenSsl} {files : Files}
    {before past : List Action} {start s : Rotating o.backend}
    (hbefore : Run Step (spawn o.backend files) before start) (hrun : Run Step start past s)
    {n : Nat} (hnew : start.server.conns.length ≤ n)
    {result : Except LoadError o.Acceptor} (hdone : s.loads[n]? = some (.done result)) :
    (result = .error .panic → s.server.conns[n]? = some .failed ∧
      Passes Step (fun u a _ => a = .readCerts n ∧
        u.files.certs.bind o.stackFromPem = .ok []) start past s) ∧
    ((∀ files, .rotate files ∉ past) → ∀ key conn,
      o.backend.loadKey start.files = .ok key →
      o.builder.bind (o.setPrivateKey · key) = .ok conn →
      start.files.certs.bind o.stackFromPem = .ok [] → result = .error .panic) := by
  have hloaded := loaded_of_new hbefore hrun hnew hdone
  constructor
  · rintro rfl
    refine ⟨failed_of_error hbefore hrun hdone, ?_⟩
    rcases hloaded with ⟨e, herror, hkey⟩ | ⟨key, -, hcerts⟩
    · obtain rfl := Except.error.inj herror
      obtain ⟨-, -, -, u, -, -, -, -, -, -, hload⟩ := hkey
      exact absurd hload (o.loadKey_ne_panic u.files)
    · exact hcerts.imp fun _ _ _ h => ⟨h.1, (o.finishLoad_eq_panic_iff.mp h.2).1⟩
  · intro hnone key conn hkey haccepted hcerts
    rw [hloaded.eq_loadTls hnone, Backend.loadTls, hkey]
    exact o.finishLoad_eq_panic_iff.mpr ⟨hcerts, conn, haccepted⟩

/-- A library for files that hold one key or one certificate, which is what is in them. -/
def plainFiles : Rustls where
  Key := List UInt8
  Cert := List UInt8
  Acceptor := List UInt8 × List (List UInt8)
  pkcs8PrivateKeys pem := if pem.isEmpty then [] else [.ok pem]
  rsaPrivateKeys _ := []
  certs pem := if pem.isEmpty then [] else [.ok pem]
  withSingleCert certs key :=
    if certs.isEmpty then .error "no certificates present" else .ok (key, certs)

/-- The files before a rotation. -/
def oldFiles : Files := ⟨.ok [1], .ok [10]⟩

/-- The files after it. -/
def newFiles : Files := ⟨.ok [2], .ok [20]⟩

/-- A connection is accepted and loads its credentials. -/
def acceptsAndLoads : List Action :=
  [.server .select, .server .pollSignaled, .server (.pollAccept (.ready true)),
    .server (.setNodelay true), .server (.peerAddr true), .readKey 0, .readCerts 0]

/-- A connection that comes after the rotation uses the new credentials. -/
theorem new_credentials_after_rotation :
    ∃ start s : Rotating plainFiles.backend,
      Run Step (spawn plainFiles.backend oldFiles) [.rotate newFiles] start ∧
      Run Step start acceptsAndLoads s ∧
      ∃ result, s.loads[0]? = some (.done result) ∧
        result = plainFiles.backend.loadTls newFiles ∧ result = .ok ([2], [[20]]) := by
  have hrun : ∃ start s : Rotating plainFiles.backend,
      Run Step (spawn plainFiles.backend oldFiles) [.rotate newFiles] start ∧
      Run Step start acceptsAndLoads s ∧ start.files = newFiles ∧
      start.server.conns = [] ∧ ∃ result, s.loads[0]? = some (.done result) :=
    ⟨_, _, .cons rfl (.nil _),
      .cons rfl (.cons rfl (.cons rfl (.cons rfl (.cons rfl (.cons rfl (.cons rfl (.nil _))))))),
      rfl, rfl, _, rfl⟩
  obtain ⟨start, s, hbefore, hrun, hfiles, hconns, result, hdone⟩ := hrun
  obtain ⟨-, hsame, -⟩ := credentials_are_fresh hbefore hrun (by rw [hconns]; exact le_refl _) hdone
  have hresult := hsame (by simp [acceptsAndLoads])
  rw [hfiles] at hresult
  exact ⟨start, s, hbefore, hrun, result, hdone, hresult, hresult.trans rfl⟩

end Rotating

end Server
end Kubert
