import Kubert.Lease.Execution
import Kubert.Foundation.LabelledRun
import Mathlib.Logic.Function.Basic

/-!
# Any number of managers on one Lease

The state of the whole system: the shared clock, the API server, the requests
and responses under way, and one node for every manager.  `Sys.step?` takes one
action:

* `tick` advances the clock;
* `call`, `resume`, `cancel`, `deliver` and `fail` are steps of one manager, the
  last two ending an await with a response that arrived or with an error that
  did not come from the server (a timeout, a broken connection);
* `serve`, `apply`, `conflict` and `refuse` are the server handling a request it
  has received, and `lose` drops a request.

A manager that gives up on a request does not take it back: the request stays
under way and may be applied at any later time, as long as its version is
current.  The server applies a patch only against the current version and gives
every applied write a version that was never used before; nobody else writes.
-/

namespace Kubert
namespace Lease

open Foundation

variable {ι : Type} [DecidableEq ι]

/-- A request under way, with the manager that sent it. -/
structure Request (ι : Type) where
  id : Nat
  sender : ι
  body : Body
deriving DecidableEq

/-- A response under way, with the request it answers. -/
structure Response (ι : Type) where
  request : Request ι
  result : Except Error LeaseResource
deriving DecidableEq

/-- The system state. -/
structure Sys (ι : Type) where
  now : DateTime
  server : Server
  requests : List (Request ι)
  responses : List (Response ι)
  nextId : Nat
  nodes : ι → Node

/-- One atomic action; it carries every choice that is not the code's. -/
inductive Action (ι : Type)
  | tick (t : DateTime)
  | call (i : ι) (op : Op)
  | resume (i : ι)
  | cancel (i : ι)
  | deliver (i : ι) (result : Except Error LeaseResource)
  | fail (i : ι) (e : Error)
  | serve (req : Request ι)
  | apply (req : Request ι) (version : String)
  | conflict (req : Request ι)
  | refuse (req : Request ι) (code : UInt16)
  | lose (req : Request ι)

/-- The manager whose step an action is. -/
def Action.actor {ι : Type} : Action ι → Option ι
  | .call i _ => some i
  | .resume i => some i
  | .cancel i => some i
  | .deliver i _ => some i
  | .fail i _ => some i
  | _ => none

namespace Sys

/-- Nothing has happened yet: no manager is initialised, nothing is under way. -/
def initial (now : DateTime) (version : String) (spec : Option LeaseSpec) :
    Sys ι where
  now := now
  server := Register.initial version spec
  requests := []
  responses := []
  nextId := 0
  nodes := fun _ => ⟨none, .idle⟩

/-- A node has taken a step: it is replaced, and its request is put under
way. -/
def advance (s : Sys ι) (i : ι) (effect : Effect) : Sys ι :=
  { s with
    nodes := Function.update s.nodes i effect.node
    requests :=
      match effect.send with
      | none => s.requests
      | some body => ⟨s.nextId, i, body⟩ :: s.requests
    nextId := s.nextId + 1 }

@[simp] theorem advance_nodes_self (s : Sys ι) (i : ι) (effect : Effect) :
    (s.advance i effect).nodes i = effect.node := by
  simp [advance]

/-- The requests under way after a node's step are the old ones and the one it
sent. -/
theorem mem_advance_requests {s : Sys ι} {i : ι} {effect : Effect}
    {req : Request ι} :
    req ∈ (s.advance i effect).requests ↔
      req ∈ s.requests ∨
        ∃ body, effect.send = some body ∧ req = ⟨s.nextId, i, body⟩ := by
  unfold advance
  cases effect.send with
  | none => simp
  | some body =>
      simp only [List.mem_cons, Option.some.injEq, exists_eq_left']
      exact or_comm

/-- The server has dealt with a request: it is no longer under way, and its
response is. -/
def answer (s : Sys ι) (req : Request ι)
    (result : Except Error LeaseResource) : Sys ι :=
  { s with
    requests := s.requests.erase req
    responses := ⟨req, result⟩ :: s.responses }

/-- The step of one node on an input, with what it returns to its caller. -/
def nodeStep (profile : Profile) (s : Sys ι) (i : ι) (input : Input) :
    Option (Sys ι × Option Return) :=
  ((s.nodes i).step profile s.now s.nextId input).map fun effect =>
    (s.advance i effect, effect.ret)

/-- One action of the system, with what it returns to a caller; `none` if the
action is not possible. -/
def perform (profile : Profile) (s : Sys ι) :
    Action ι → Option (Sys ι × Option Return)
  | .tick t => if s.now ≤ t then some ({ s with now := t }, none) else none
  | .call i op => s.nodeStep profile i (.call op)
  | .resume i => s.nodeStep profile i .resume
  | .cancel i => s.nodeStep profile i .cancel
  | .deliver i result =>
      -- Only the answer to the request that is awaited gets through.
      match (s.nodes i).awaits with
      | none => none
      | some (id, body) =>
          if ⟨⟨id, i, body⟩, result⟩ ∈ s.responses then
            s.nodeStep profile i (.response result)
          else none
  | .fail i e =>
      -- A timeout or a broken connection: the request may still be under way.
      if (s.nodes i).awaits ≠ none ∧ isConflict e = false then
        s.nodeStep profile i (.response (.error e))
      else none
  | .serve req =>
      if req ∈ s.requests ∧ req.body = .get then
        some (s.answer req (.ok (leaseOf s.server)), none)
      else none
  | .apply req version =>
      match req.body with
      | .get => none
      | .patch call =>
          -- Optimistic concurrency: the version must be the current one, and a new one is issued.
          if req ∈ s.requests ∧ call.version = s.server.version ∧
              version ∉ s.server.issued then
            (call.patch.applyTo s.server.value).map fun spec =>
              let server := s.server.write version (some spec)
              ({ s with server := server }.answer req (.ok (leaseOf server)), none)
          else none
  | .conflict req =>
      match req.body with
      | .get => none
      | .patch call =>
          if req ∈ s.requests ∧ call.version ≠ s.server.version then
            some (s.answer req (.error conflictError), none)
          else none
  | .refuse req code =>
      if req ∈ s.requests ∧ isConflict (.api (.api code)) = false then
        some (s.answer req (.error (.api (.api code))), none)
      else none
  | .lose req =>
      if req ∈ s.requests then
        some ({ s with requests := s.requests.erase req }, none)
      else none

/-- The state after one action. -/
def step? (profile : Profile) (s : Sys ι) (a : Action ι) : Option (Sys ι) :=
  (s.perform profile a).map Prod.fst

/-- The step relation of the system. -/
def Step (profile : Profile) (s : Sys ι) (a : Action ι) (t : Sys ι) : Prop :=
  s.step? profile a = some t

/-! ## The cases of a step -/

/-- The actions that are steps of a node, with the input they feed to it. -/
inductive Feeds (s : Sys ι) : Action ι → ι → Input → Prop
  | call (i : ι) (op : Op) : Feeds s (.call i op) i (.call op)
  | resume (i : ι) : Feeds s (.resume i) i .resume
  | cancel (i : ι) : Feeds s (.cancel i) i .cancel
  | deliver {i : ι} {id : Nat} {body : Body}
      {result : Except Error LeaseResource}
      (hawait : (s.nodes i).awaits = some (id, body))
      (hresponse : ⟨⟨id, i, body⟩, result⟩ ∈ s.responses) :
      Feeds s (.deliver i result) i (.response result)
  | fail {i : ι} {e : Error} (hawait : (s.nodes i).awaits ≠ none)
      (hconflict : isConflict e = false) :
      Feeds s (.fail i e) i (.response (.error e))

omit [DecidableEq ι] in
theorem Feeds.actor {s : Sys ι} {a : Action ι} {i : ι} {input : Input}
    (hfeeds : s.Feeds a i input) : a.actor = some i := by
  cases hfeeds <;> rfl

omit [DecidableEq ι] in
/-- A successful answer that a node is fed with has been given to the request that it
awaits. -/
theorem Feeds.delivered {s : Sys ι} {a : Action ι} {i : ι} {lease : LeaseResource} {id : Nat}
    {body : Body} (hfeeds : s.Feeds a i (.response (.ok lease)))
    (hawaits : (s.nodes i).awaits = some (id, body)) :
    ⟨⟨id, i, body⟩, .ok lease⟩ ∈ s.responses := by
  cases hfeeds with
  | deliver hawait hresponse =>
      rw [hawaits] at hawait
      obtain ⟨rfl, rfl⟩ := Prod.mk.inj (Option.some.inj hawait)
      exact hresponse

/-- Everything that one action of the system can do.  The second state comes
with what is returned to the caller. -/
inductive Cases (profile : Profile) (s : Sys ι) :
    Action ι → Sys ι → Option Return → Prop
  | tick {t : DateTime} (hle : s.now ≤ t) :
      Cases profile s (.tick t) { s with now := t } none
  | node {a : Action ι} {i : ι} {input : Input} {effect : Effect}
      (hfeeds : s.Feeds a i input)
      (hstep : (s.nodes i).step profile s.now s.nextId input = some effect) :
      Cases profile s a (s.advance i effect) effect.ret
  | serve {req : Request ι} (hmem : req ∈ s.requests) (hbody : req.body = .get) :
      Cases profile s (.serve req) (s.answer req (.ok (leaseOf s.server))) none
  | apply {req : Request ι} {version : String} {call : PatchCall}
      {spec : LeaseSpec} (hmem : req ∈ s.requests)
      (hbody : req.body = .patch call)
      (hversion : call.version = s.server.version)
      (hnew : version ∉ s.server.issued)
      (happly : call.patch.applyTo s.server.value = some spec) :
      Cases profile s (.apply req version)
        ({ s with server := s.server.write version (some spec) }.answer req
          (.ok (leaseOf (s.server.write version (some spec))))) none
  | conflict {req : Request ι} {call : PatchCall} (hmem : req ∈ s.requests)
      (hbody : req.body = .patch call)
      (hversion : call.version ≠ s.server.version) :
      Cases profile s (.conflict req) (s.answer req (.error conflictError)) none
  | refuse {req : Request ι} {code : UInt16} (hmem : req ∈ s.requests)
      (hcode : isConflict (.api (.api code)) = false) :
      Cases profile s (.refuse req code)
        (s.answer req (.error (.api (.api code)))) none
  | lose {req : Request ι} (hmem : req ∈ s.requests) :
      Cases profile s (.lose req) { s with requests := s.requests.erase req } none

/-- A node's step, taken apart. -/
theorem nodeStep_eq_some {profile : Profile} {s t : Sys ι} {i : ι}
    {input : Input} {ret : Option Return}
    (h : s.nodeStep profile i input = some (t, ret)) :
    ∃ effect, (s.nodes i).step profile s.now s.nextId input = some effect ∧
      t = s.advance i effect ∧ ret = effect.ret := by
  obtain ⟨effect, heffect, hpair⟩ := Option.map_eq_some_iff.mp h
  obtain ⟨rfl, rfl⟩ := Prod.mk.inj hpair
  exact ⟨effect, heffect, rfl, rfl⟩

/-- Every action is one of the listed cases. -/
theorem perform_cases {profile : Profile} {s t : Sys ι} {a : Action ι}
    {ret : Option Return} (h : s.perform profile a = some (t, ret)) :
    Cases profile s a t ret := by
  -- The five actions of a node differ only in the input that they feed to it.
  have hnode : ∀ i input, s.Feeds a i input →
      s.nodeStep profile i input = some (t, ret) → Cases profile s a t ret := by
    intro i input hfeeds hstep
    obtain ⟨effect, heffect, rfl, rfl⟩ := nodeStep_eq_some hstep
    exact Cases.node hfeeds heffect
  cases a with
  | tick u =>
      simp only [perform] at h
      split at h
      · rename_i hle
        obtain ⟨rfl, rfl⟩ := Prod.mk.inj (Option.some.inj h)
        exact Cases.tick hle
      · cases h
  | call i op => exact hnode i _ (Feeds.call i op) h
  | resume i => exact hnode i _ (Feeds.resume i) h
  | cancel i => exact hnode i _ (Feeds.cancel i) h
  | deliver i result =>
      simp only [perform] at h
      split at h
      · cases h
      · rename_i id body hawait
        split at h
        · rename_i hresponse
          exact hnode i _ (Feeds.deliver hawait hresponse) h
        · cases h
  | fail i e =>
      simp only [perform] at h
      split at h
      · rename_i hcond
        exact hnode i _ (Feeds.fail hcond.1 hcond.2) h
      · cases h
  | serve req =>
      simp only [perform] at h
      split at h
      · rename_i hcond
        obtain ⟨rfl, rfl⟩ := Prod.mk.inj (Option.some.inj h)
        exact Cases.serve hcond.1 hcond.2
      · cases h
  | apply req version =>
      simp only [perform] at h
      split at h
      · cases h
      · rename_i call hbody
        split at h
        · rename_i hcond
          obtain ⟨spec, hspec, hpair⟩ := Option.map_eq_some_iff.mp h
          obtain ⟨rfl, rfl⟩ := Prod.mk.inj hpair
          exact Cases.apply hcond.1 hbody hcond.2.1 hcond.2.2 hspec
        · cases h
  | conflict req =>
      simp only [perform] at h
      split at h
      · cases h
      · rename_i call hbody
        split at h
        · rename_i hcond
          obtain ⟨rfl, rfl⟩ := Prod.mk.inj (Option.some.inj h)
          exact Cases.conflict hcond.1 hbody hcond.2
        · cases h
  | refuse req code =>
      simp only [perform] at h
      split at h
      · rename_i hcond
        obtain ⟨rfl, rfl⟩ := Prod.mk.inj (Option.some.inj h)
        exact Cases.refuse hcond.1 hcond.2
      · cases h
  | lose req =>
      simp only [perform] at h
      split at h
      · rename_i hmem
        obtain ⟨rfl, rfl⟩ := Prod.mk.inj (Option.some.inj h)
        exact Cases.lose hmem
      · cases h

/-- The step relation, taken apart. -/
theorem Step.cases {profile : Profile} {s t : Sys ι} {a : Action ι}
    (h : Step profile s a t) : ∃ ret, Cases profile s a t ret := by
  obtain ⟨⟨t', ret⟩, hperform, rfl⟩ := Option.map_eq_some_iff.mp h
  exact ⟨ret, perform_cases hperform⟩

/-- What every step of a node keeps of it holds of every node in every run. -/
theorem nodes_of_run {profile : Profile} (inv : Node → Prop)
    (hkeep : ∀ {node : Node} {now : DateTime} {id : Nat} {input : Input} {effect : Effect},
      inv node → node.step profile now id input = some effect → inv effect.node)
    {s t : Sys ι} {actions : List (Action ι)} (hrun : Run (Step profile) s actions t)
    (hstart : ∀ i, inv (s.nodes i)) (i : ι) : inv (t.nodes i) := by
  refine hrun.invariant (fun s => ∀ i, inv (s.nodes i)) ?_ hstart i
  intro s a t hinv hstep j
  obtain ⟨ret, hcases⟩ := hstep.cases
  cases hcases with
  | @node _ i input effect hfeeds hnode =>
      by_cases hj : j = i
      · subst hj
        rw [advance_nodes_self]
        exact hkeep (hinv j) hnode
      · simpa [advance, hj] using hinv j
  | tick | serve | apply | conflict | refuse | lose => exact hinv j

/-! ## Numbers of requests -/

/-- Requests and the answers to them carry numbers that have been used. -/
structure Numbered (s : Sys ι) : Prop where
  request : ∀ req ∈ s.requests, req.id < s.nextId
  response : ∀ resp ∈ s.responses, resp.request.id < s.nextId

namespace Numbered

variable {s : Sys ι}

omit [DecidableEq ι] in
theorem initial (now : DateTime) (version : String) (spec : Option LeaseSpec) :
    (Sys.initial now version spec : Sys ι).Numbered := by
  constructor
  · intro req hreq
    cases hreq
  · intro resp hresp
    cases hresp

theorem advance (hnum : s.Numbered) (i : ι) (effect : Effect) :
    (s.advance i effect).Numbered := by
  constructor
  · intro req hreq
    rcases mem_advance_requests.mp hreq with hold | ⟨body, -, rfl⟩
    · exact Nat.lt_succ_of_lt (hnum.request req hold)
    · exact Nat.lt_succ_self _
  · intro resp hresp
    exact Nat.lt_succ_of_lt (hnum.response resp hresp)

theorem answer (hnum : s.Numbered) {req : Request ι} (hmem : req ∈ s.requests)
    (result : Except Error LeaseResource) : (s.answer req result).Numbered := by
  constructor
  · intro r hr
    exact hnum.request r (List.mem_of_mem_erase hr)
  · intro resp hresp
    rcases List.mem_cons.mp hresp with rfl | hold
    · exact hnum.request req hmem
    · exact hnum.response resp hold

theorem lose (hnum : s.Numbered) (req : Request ι) :
    ({ s with requests := s.requests.erase req } : Sys ι).Numbered :=
  ⟨fun r hr => hnum.request r (List.mem_of_mem_erase hr), hnum.response⟩

/-- Every action keeps the numbers in order. -/
theorem cases {profile : Profile} {t : Sys ι} {a : Action ι}
    {ret : Option Return} (hnum : s.Numbered) (hcases : Cases profile s a t ret) :
    t.Numbered := by
  cases hcases with
  | tick => exact ⟨hnum.request, hnum.response⟩
  | node => exact hnum.advance _ _
  | serve hmem => exact hnum.answer hmem _
  | @apply req version call spec hmem =>
      have hwritten : ({ s with
          server := s.server.write version (some spec) } : Sys ι).Numbered :=
        ⟨hnum.request, hnum.response⟩
      exact hwritten.answer hmem _
  | conflict hmem => exact hnum.answer hmem _
  | refuse hmem => exact hnum.answer hmem _
  | lose => exact hnum.lose _

end Numbered

/-- No number is used twice among the requests and the answers under way. -/
def Distinct (s : Sys ι) : Prop :=
  (s.requests.map Request.id ++ s.responses.map fun resp => resp.request.id).Nodup

namespace Distinct

variable {s : Sys ι}

omit [DecidableEq ι] in
/-- An answered request is no longer under way. -/
theorem not_answered (hdistinct : s.Distinct) {req : Request ι} {resp : Response ι}
    (hreq : req ∈ s.requests) (hresp : resp ∈ s.responses) : req.id ≠ resp.request.id := by
  have hdisjoint := (List.nodup_append.mp hdistinct).2.2
  exact hdisjoint _ (List.mem_map_of_mem hreq) _ (List.mem_map.mpr ⟨resp, hresp, rfl⟩)

theorem perm_answer {req : Request ι} (hmem : req ∈ s.requests)
    (result : Except Error LeaseResource) :
    (((s.answer req result).requests.map Request.id) ++
      ((s.answer req result).responses.map fun resp => resp.request.id)).Perm
        (s.requests.map Request.id ++ s.responses.map fun resp => resp.request.id) := by
  have hperm := (List.perm_cons_erase hmem).map Request.id
  unfold answer
  simp only [List.map_cons] at hperm ⊢
  exact List.perm_middle.trans (hperm.symm.append_right _)

theorem answer (hdistinct : s.Distinct) {req : Request ι} (hmem : req ∈ s.requests)
    (result : Except Error LeaseResource) : (s.answer req result).Distinct :=
  (perm_answer hmem result).nodup_iff.mpr hdistinct

/-- The number of a request is not used by the others. -/
theorem ne_of_mem_erase (hdistinct : s.Distinct) {req other : Request ι}
    (hmem : req ∈ s.requests) (hother : other ∈ s.requests.erase req) :
    other.id ≠ req.id :=
  (hdistinct.answer hmem (.error .timeout)).not_answered hother List.mem_cons_self

theorem advance (hdistinct : s.Distinct) (hnum : s.Numbered) (i : ι) (effect : Effect) :
    (s.advance i effect).Distinct := by
  unfold Distinct Sys.advance
  cases effect.send with
  | none => exact hdistinct
  | some body =>
      refine List.nodup_cons.mpr ⟨?_, hdistinct⟩
      intro hmem
      rcases List.mem_append.mp hmem with hold | hold
      · obtain ⟨req, hreq, hid⟩ := List.mem_map.mp hold
        have hlt : req.id < s.nextId := hnum.request req hreq
        exact absurd hid hlt.ne
      · obtain ⟨resp, hresp, hid⟩ := List.mem_map.mp hold
        have hlt : resp.request.id < s.nextId := hnum.response resp hresp
        exact absurd hid hlt.ne

/-- Every action keeps the numbers distinct. -/
theorem cases {profile : Profile} {t : Sys ι} {a : Action ι} {ret : Option Return}
    (hdistinct : s.Distinct) (hnum : s.Numbered) (hcases : Cases profile s a t ret) :
    t.Distinct := by
  cases hcases with
  | tick => exact hdistinct
  | node => exact hdistinct.advance hnum _ _
  | serve hmem => exact hdistinct.answer hmem _
  | @apply req version call spec hmem =>
      have hwritten : ({ s with
          server := s.server.write version (some spec) } : Sys ι).Distinct := hdistinct
      exact hwritten.answer hmem _
  | conflict hmem => exact hdistinct.answer hmem _
  | refuse hmem => exact hdistinct.answer hmem _
  | @lose req hmem =>
      have hsub : (s.requests.erase req).Sublist s.requests := List.erase_sublist
      exact hdistinct.sublist ((hsub.map Request.id).append (List.Sublist.refl _))

end Distinct

end Sys

/-! ## A concrete beginning

Two managers, `false` serving alice and `true` serving bob.  The runs on which
results are shown below start with alice claiming an unclaimed lease. -/

/-- Where the clock of the concrete runs stands. -/
def exampleNow : DateTime := ⟨1700000000000000000, by decide, by decide⟩

/-- An unclaimed lease, as it is created. -/
def exampleStart : Sys Bool := Sys.initial exampleNow "1" (some {})

/-- Alice's first write, with the default parameters. -/
def aliceAcquire : ClaimWrite :=
  ⟨.acquire, "1", "alice", (default : ClaimParams).leaseDelta, exampleNow, 1⟩

/-- The resource after alice's first write. -/
def aliceLease : LeaseSpec :=
  ⟨some "alice", some exampleNow, some exampleNow, some 30, some 1⟩

/-- Alice's manager is initialised and claims the lease. -/
def aliceClaims : List (Action Bool) :=
  [.call false .init, .serve ⟨0, false, .get⟩,
    .deliver false (.ok ⟨some "1", some {}⟩),
    .call false (.ensureClaimed "alice" default), .resume false, .resume false,
    .apply ⟨4, false, .patch (.claim aliceAcquire)⟩ "2",
    .deliver false (.ok ⟨some "2", some aliceLease⟩)]

end Lease
end Kubert
