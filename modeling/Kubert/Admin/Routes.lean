import Kubert.Runtime.Readiness
import Mathlib.Logic.Function.Basic

/-!
# The routes of the admin server

`Builder::with_handler` registers handlers by their path.  A path that the server
handles itself must not be taken, and the builder panics on `/live` and `/ready`.  With
the diagnostics of the runtime there is a third such path, `/kubert.json`, which the
builder accepts: the handler is stored, and `handle` never gets to it.

Everything else is as one would expect: the latest handler of a path serves it, an
unknown path is answered with 404, and a registration does not show on any other path
(`registrations_served_iff`).
-/

namespace Kubert
namespace Admin

open Kubert.Runtime (Method handleReady)

/-! ## Requests and responses -/

/-- A request, as far as the server itself looks at it. -/
structure Request where
  method : Method
  path : String
  query : Option String
deriving DecidableEq, Repr

/-- A response. -/
structure Response where
  status : Nat
  headers : List (String × String)
  body : String
deriving DecidableEq, Repr

/-- A response with a single header. -/
def Response.ofProbe (r : Runtime.Response) : Response := ⟨r.status, [r.header], r.body⟩

/-- `handle_live`. -/
def handleLive : Method → Response
  | .get | .head => ⟨200, [("content-type", "text/plain")], "alive\n"⟩
  | .other => ⟨405, [("allow", "GET, HEAD")], ""⟩

/-- `Diagnostics`, through the summary that it serializes, with or without resources;
`none` is a failure to serialize it. -/
structure Diagnostics where
  summarize : Bool → Option String

/-- `Diagnostics::handle`; the flag says whether the client has a loopback address. -/
def Diagnostics.handle (d : Diagnostics) (loopback : Bool) (req : Request) : Response :=
  if req.method ≠ .get then ⟨405, [("allow", "GET")], ""⟩
  else if loopback = false then ⟨403, [], ""⟩
  else
    match d.summarize (req.query == some "resources") with
    | none => ⟨500, [], ""⟩
    | some body => ⟨200, [("content-type", "application/json")], body⟩

/-- `Prometheus::handle_metrics`, on what `encode_body` makes of the registry. -/
def Prometheus.handleMetrics (encoded : Option String) (req : Request) : Response :=
  match req.method with
  | .get | .head =>
      match encoded with
      | none => ⟨500, [], ""⟩
      | some body =>
          ⟨200, [("content-type",
            "application/openmetrics-text; version=1.0.0; charset=utf-8")], body⟩
  | .other => ⟨405, [("allow", "GET, HEAD")], ""⟩

/-! ## `Builder` and `handle` -/

section Routes

variable {η ρ : Type}

/-- `Builder`, as far as registrations change it. -/
structure Builder (η : Type) where
  routes : String → Option η

namespace Builder

/-- `Builder::new`. -/
def new : Builder η := ⟨fun _ => none⟩

/-- `Builder::with_handler`; `none` is the panic. -/
def withHandler (b : Builder η) (path : String) (handler : η) : Option (Builder η) :=
  if path = "/ready" then none
  else if path = "/live" then none
  else some ⟨Function.update b.routes path (some handler)⟩

/-- `Builder::with_prometheus_handler`, around `handle_metrics` of a registry. -/
def withPrometheusHandler (handleMetrics : ρ → η) (b : Builder η) (path : String)
    (registry : ρ) : Option (Builder η) :=
  b.withHandler path (handleMetrics registry)

end Builder

/-- What `handle` does with a request: it answers by itself, or runs a handler on a
thread of its own. -/
inductive Answer (η : Type)
  | ok (response : Response)
  | spawnBlocking (handler : η)

/-- The answer for unknown paths. -/
def notFound : Response := ⟨404, [], ""⟩

/-- The end of `handle`, for paths that the server does not handle itself. -/
def handleRoute (routes : String → Option η) (req : Request) : Answer η :=
  match routes req.path with
  | some handler => .spawnBlocking handler
  | none => .ok notFound

/-- `handle`.  There are diagnostics only with the feature for them. -/
def handle (ready : Bool) (routes : String → Option η) (diagnostics : Option Diagnostics)
    (loopback : Bool) (req : Request) : Answer η :=
  if req.path = "/live" then .ok (handleLive req.method)
  else if req.path = "/ready" then .ok (.ofProbe (handleReady ready req.method))
  else
    match diagnostics with
    | none => handleRoute routes req
    | some d =>
        if req.path = "/kubert.json" then .ok (d.handle loopback req)
        else handleRoute routes req

/-- The server handles the path itself. -/
def BuiltIn (diagnostics : Option Diagnostics) (path : String) : Prop :=
  path = "/live" ∨ path = "/ready" ∨ diagnostics.isSome = true ∧ path = "/kubert.json"

/-! ## Registrations -/

/-- A call on the builder. -/
inductive Registration (η ρ : Type)
  | handler (path : String) (handler : η)
  | prometheus (path : String) (registry : ρ)

namespace Registration

/-- The path of a registration. -/
def path : Registration η ρ → String
  | handler path _ => path
  | prometheus path _ => path

/-- The handler that it brings. -/
def served (handleMetrics : ρ → η) : Registration η ρ → η
  | handler _ h => h
  | prometheus _ registry => handleMetrics registry

end Registration

namespace Builder

variable (handleMetrics : ρ → η)

/-- One call. -/
def register (b : Builder η) : Registration η ρ → Option (Builder η)
  | .handler path handler => b.withHandler path handler
  | .prometheus path registry => b.withPrometheusHandler handleMetrics path registry

/-- A sequence of calls; `none` if one of them panics. -/
def registerAll (b : Builder η) (calls : List (Registration η ρ)) : Option (Builder η) :=
  calls.foldlM (register handleMetrics) b

end Builder

/-- The handler that was registered last for a path. -/
def latest (handleMetrics : ρ → η) (calls : List (Registration η ρ)) (path : String) :
    Option η :=
  (calls.reverse.find? fun call => call.path = path).map (·.served handleMetrics)

variable {handleMetrics : ρ → η} {calls : List (Registration η ρ)} {b b' : Builder η}
  {call : Registration η ρ}

theorem latest_append (path : String) :
    latest handleMetrics (calls ++ [call]) path =
      if call.path = path then some (call.served handleMetrics)
      else latest handleMetrics calls path := by
  by_cases hpath : call.path = path <;> simp [latest, hpath]

/-- A call that does not panic stores its handler under a path that is free. -/
theorem Builder.register_eq_some (h : b.register handleMetrics call = some b') :
    call.path ≠ "/live" ∧ call.path ≠ "/ready" ∧
      b'.routes = Function.update b.routes call.path (some (call.served handleMetrics)) := by
  have hcall : b.withHandler call.path (call.served handleMetrics) = some b' := by
    cases call with
    | handler path handler => exact h
    | prometheus path registry => exact h
  unfold Builder.withHandler at hcall
  split at hcall
  · cases hcall
  · split at hcall
    · cases hcall
    · rename_i hready hlive
      obtain rfl := Option.some.inj hcall
      exact ⟨hlive, hready, rfl⟩

/-- The routes are the latest handlers, and none of them is for a probe. -/
structure Registered (handleMetrics : ρ → η) (calls : List (Registration η ρ))
    (b : Builder η) : Prop where
  routes : b.routes = latest handleMetrics calls
  live : latest handleMetrics calls "/live" = none
  ready : latest handleMetrics calls "/ready" = none

theorem Registered.append (h : Registered handleMetrics calls b)
    (hcall : b.register handleMetrics call = some b') :
    Registered handleMetrics (calls ++ [call]) b' := by
  obtain ⟨hlive, hready, hroutes⟩ := Builder.register_eq_some hcall
  refine ⟨?_, ?_, ?_⟩
  · funext path
    rw [hroutes, latest_append, h.routes, Function.update_apply]
    simp only [eq_comm]
  · rw [latest_append, if_neg hlive, h.live]
  · rw [latest_append, if_neg hready, h.ready]

theorem registered_of_registerAll
    (h : Builder.new.registerAll handleMetrics calls = some b) :
    Registered handleMetrics calls b := by
  induction calls using List.reverseRecOn generalizing b with
  | nil =>
      obtain rfl := Option.some.inj h
      exact ⟨rfl, rfl, rfl⟩
  | append_singleton calls call ih =>
      rw [Builder.registerAll, List.foldlM_append] at h
      obtain ⟨mid, hmid, hcall⟩ := Option.bind_eq_some_iff.mp h
      refine (ih hmid).append ?_
      simpa using hcall

/-! ## What is served -/

/-- The handlers that were accepted are those that serve their paths. -/
structure Served (handleMetrics : ρ → η) (diagnostics : Option Diagnostics)
    (calls : List (Registration η ρ)) (b : Builder η) : Prop where
  registered : ∀ ready loopback req handler,
    latest handleMetrics calls req.path = some handler →
      handle ready b.routes diagnostics loopback req = .spawnBlocking handler
  unknown : ∀ ready loopback req, latest handleMetrics calls req.path = none →
    ¬ BuiltIn diagnostics req.path →
      handle ready b.routes diagnostics loopback req = .ok notFound
  elsewhere : ∀ call b', b.register handleMetrics call = some b' →
    ∀ ready loopback req, req.path ≠ call.path →
      handle ready b'.routes diagnostics loopback req =
        handle ready b.routes diagnostics loopback req

/-- Paths that the server does not handle itself are looked up. -/
theorem handle_of_not_builtIn {diagnostics : Option Diagnostics} {req : Request}
    (hbuiltIn : ¬ BuiltIn diagnostics req.path) (ready : Bool)
    (routes : String → Option η) (loopback : Bool) :
    handle ready routes diagnostics loopback req = handleRoute routes req := by
  unfold BuiltIn at hbuiltIn
  push Not at hbuiltIn
  obtain ⟨hlive, hready, hkubert⟩ := hbuiltIn
  unfold handle
  rw [if_neg hlive, if_neg hready]
  cases diagnostics with
  | none => rfl
  | some d => exact if_neg (hkubert rfl)

/-- Of the routes only the one of the path matters. -/
theorem handle_congr {routes routes' : String → Option η} {req : Request}
    (hroute : routes' req.path = routes req.path) (ready : Bool)
    (diagnostics : Option Diagnostics) (loopback : Bool) :
    handle ready routes' diagnostics loopback req =
      handle ready routes diagnostics loopback req := by
  unfold handle handleRoute
  rw [hroute]

/-- Every accepted handler serves its path, every unknown path is answered with 404, and
no registration shows on another path, exactly if no handler has been registered for the
path of the diagnostics where there are diagnostics. -/
theorem registrations_served_iff {diagnostics : Option Diagnostics}
    (hcalls : Builder.new.registerAll handleMetrics calls = some b) :
    Served handleMetrics diagnostics calls b ↔
      (diagnostics.isSome = true → latest handleMetrics calls "/kubert.json" = none) := by
  have hregistered := registered_of_registerAll hcalls
  constructor
  · intro hserved hdiagnostics
    obtain ⟨d, rfl⟩ := Option.isSome_iff_exists.mp hdiagnostics
    cases hlatest : latest handleMetrics calls "/kubert.json" with
    | none => rfl
    | some handler =>
        have hanswer := hserved.registered false false ⟨.get, "/kubert.json", none⟩ _ hlatest
        simp [handle] at hanswer
  · intro hfree
    constructor
    · intro ready loopback req handler hlatest
      have hbuiltIn : ¬ BuiltIn diagnostics req.path := by
        rintro (hpath | hpath | ⟨hdiagnostics, hpath⟩)
        · simp [hpath, hregistered.live] at hlatest
        · simp [hpath, hregistered.ready] at hlatest
        · simp [hpath, hfree hdiagnostics] at hlatest
      rw [handle_of_not_builtIn hbuiltIn, handleRoute, hregistered.routes, hlatest]
    · intro ready loopback req hlatest hbuiltIn
      rw [handle_of_not_builtIn hbuiltIn, handleRoute, hregistered.routes, hlatest]
    · intro call b' hcall ready loopback req hpath
      obtain ⟨-, -, hroutes⟩ := Builder.register_eq_some hcall
      refine handle_congr ?_ ready diagnostics loopback
      rw [hroutes, Function.update_of_ne hpath]

end Routes

/-- Diagnostics of a runtime without watches. -/
def exampleDiagnostics : Diagnostics := ⟨fun _ => some "\x7b\x7d"⟩

/-- A handler that shows the configuration. -/
def configHandler (_ : Request) : Response := ⟨200, [("content-type", "text/plain")], "debug\n"⟩

/-- Two registries of metrics for one path, and a handler for another path between them. -/
def metricsTwice : List (Registration (Request → Response) (Option String)) :=
  [.prometheus "/metrics" none, .handler "/config" configHandler,
    .prometheus "/metrics" (some "# EOF\n")]

/-- The registry that came last is served at its path, and the handler at the other one. -/
theorem metrics_served :
    ∃ b, Builder.new.registerAll Prometheus.handleMetrics metricsTwice = some b ∧
      Served Prometheus.handleMetrics (some exampleDiagnostics) metricsTwice b ∧
      ∀ ready loopback method query,
        handle ready b.routes (some exampleDiagnostics) loopback ⟨method, "/metrics", query⟩ =
            .spawnBlocking (Prometheus.handleMetrics (some "# EOF\n")) ∧
        handle ready b.routes (some exampleDiagnostics) loopback ⟨method, "/config", query⟩ =
            .spawnBlocking configHandler := by
  obtain ⟨b, hcalls⟩ : ∃ b, Builder.new.registerAll Prometheus.handleMetrics metricsTwice =
      some b := ⟨_, rfl⟩
  have hserved : Served Prometheus.handleMetrics (some exampleDiagnostics) metricsTwice b :=
    (registrations_served_iff hcalls).mpr fun _ => rfl
  exact ⟨b, hcalls, hserved, fun ready loopback method query =>
    ⟨hserved.registered ready loopback ⟨method, "/metrics", query⟩ _ rfl,
      hserved.registered ready loopback ⟨method, "/config", query⟩ _ rfl⟩⟩

/-- It is registered for the path of the diagnostics. -/
def configAtKubertJson : List (Registration (Request → Response) (Option String)) :=
  [.handler "/kubert.json" configHandler]

/-- The builder accepts the handler, and the diagnostics answer in its place. -/
theorem kubert_json_shadowed :
    ∃ b, Builder.new.registerAll Prometheus.handleMetrics configAtKubertJson = some b ∧
      latest Prometheus.handleMetrics configAtKubertJson "/kubert.json" = some configHandler ∧
      handle true b.routes (some exampleDiagnostics) true ⟨.get, "/kubert.json", none⟩ =
        .ok ⟨200, [("content-type", "application/json")], "\x7b\x7d"⟩ ∧
      ¬ Served Prometheus.handleMetrics (some exampleDiagnostics) configAtKubertJson b := by
  have hanswer (routes : String → Option (Request → Response)) :
      handle true routes (some exampleDiagnostics) true ⟨.get, "/kubert.json", none⟩ =
        .ok ⟨200, [("content-type", "application/json")], "\x7b\x7d"⟩ := rfl
  refine ⟨_, rfl, rfl, hanswer _, fun hserved => ?_⟩
  have hroute := hserved.registered true true ⟨.get, "/kubert.json", none⟩ configHandler rfl
  rw [hanswer] at hroute
  cases hroute

end Admin
end Kubert
