import Kubert.Lease.Vacancy
import Mathlib.Data.Fintype.EquivFin

/-!
# Succession

`Election` says that no two candidates lead.  That would also be true if nobody ever did.
Here is the other half: as soon as the recorded claim is over, every candidate that waits
for this can take the lease, whatever the others have left behind.

The candidate needs nobody but the server for it.  If its manager has cached an outdated
version, the first patch meets a conflict; the read that follows finds the claim over,
and the second patch is made against the current version.  Requests of candidates that
are gone stay under way, and do not matter as long as nobody applies them.

Nothing is said of a candidate that awaits an answer or has met an error: the answer may
be lost, and `backoff` may give up.
-/

namespace Kubert
namespace Lease

open Foundation

variable {ι : Type}

namespace Election

variable [DecidableEq ι] {profile : Profile} {claimantOf : ι → String}
  {paramsOf : ι → ClaimParams} {x : Election ι} {i : ι}

/-! ## Without the others -/

/-- The candidate acts, the server deals with its requests, and it becomes this time.
Nobody else does anything. -/
def Unaided (i : ι) (t : DateTime) : ElectionAction ι → Prop
  | .world (.tick u) => u = t
  | .world (.serve req) => req.sender = i
  | .world (.apply req _) => req.sender = i
  | .world (.conflict req) => req.sender = i
  | .candidate j (.progress (.resume _)) => j = i
  | .candidate j (.progress (.deliver _ _)) => j = i
  | .candidate j .poll => j = i
  | .candidate j .publish => j = i
  | _ => False

/-- An action of the candidate's task is an action of the election. -/
theorem exists_candidate {a : SpawnAction ι} {z : Spawned ι} (hinside : a.isOutside = false)
    (hstep : (x.view i).step? profile i (claimantOf i) (paramsOf i) a = some z) :
    ∃ y : Election ι, Step profile claimantOf paramsOf x (.candidate i a) y ∧ y.view i = z ∧
      y.shown i = (Task.sends (x.tasks i) z.task).or (x.shown i) := by
  refine ⟨{ sys := z.sys
            tasks := Function.update x.tasks i z.task
            closed := Function.update x.closed i z.closed
            shown := Function.update x.shown i
              ((Task.sends (x.tasks i) z.task).or (x.shown i)) }, ⟨?_, ?_⟩, ?_, ?_⟩
  · simp only [step?, hinside, Bool.false_eq_true, if_false, hstep, Option.map_some]
  · rintro b ⟨⟩
  · simp only [view, Function.update_self]
  · simp only [Function.update_self]

/-- The candidate's manager is in a call of `ensure_claimed` that its task awaits, at this
time and with this resource on the server. -/
structure Trying (t : DateTime) (server : Server) (m : LeaseManager) (pc : Pc) (i : ι)
    (x : Election ι) : Prop where
  now : x.sys.now = t
  server : x.sys.server = server
  node : x.sys.nodes i = ⟨some m, pc⟩
  task : x.tasks i = .claiming
  opened : x.closed i = false

section Stages

variable {t : DateTime} {server : Server} {m : LeaseManager} {pc : Pc} (profile : Profile)
  (claimantOf : ι → String) (paramsOf : ι → ClaimParams)

/-- The call goes on. -/
theorem Trying.progress (h : Trying t server m pc i x) {b : Action ι} {effect : Effect}
    (hactor : b.actor = some i) (hcontinues : b.continues = true)
    (hunaided : Unaided i t (.candidate i (.progress b)))
    (hperform : x.sys.perform profile b = some (x.sys.advance i effect, effect.ret)) :
    ∃ y : Election ι, Reaches (Step profile claimantOf paramsOf) (Unaided i t) x y ∧
      y.view i = ⟨x.sys.advance i effect, Task.receive? profile .claiming effect.ret, false⟩ := by
  have hstep : (x.view i).step? profile i (claimantOf i) (paramsOf i) (.progress b) =
      some ⟨x.sys.advance i effect, Task.receive? profile .claiming effect.ret, false⟩ := by
    rw [Spawned.step?, if_pos ⟨hactor, hcontinues⟩]
    change (x.sys.perform profile b).map _ = _
    rw [hperform, Option.map_some]
    simp only [view, h.task, h.opened]
  obtain ⟨y, hy, hview, -⟩ := exists_candidate rfl hstep
  exact ⟨y, Reaches.single hy hunaided, hview⟩

/-- Where the call goes on without returning, the candidate goes on trying. -/
theorem Trying.of_view (h : Trying t server m pc i x) {y : Election ι} {m' : LeaseManager}
    {pc' : Pc} {send : Option Body}
    (hview : y.view i = ⟨x.sys.advance i ⟨⟨some m', pc'⟩, send, none⟩, .claiming, false⟩) :
    Trying t server m' pc' i y ∧ ∀ body, send = some body →
      ⟨x.sys.nextId, i, body⟩ ∈ y.sys.requests := by
  have hsys : y.sys = x.sys.advance i ⟨⟨some m', pc'⟩, send, none⟩ := congrArg Spawned.sys hview
  refine ⟨⟨?_, ?_, ?_, congrArg Spawned.task hview, congrArg Spawned.closed hview⟩, ?_⟩
  · rw [hsys]
    exact h.now
  · rw [hsys]
    exact h.server
  · rw [hsys, Sys.advance_nodes_self]
  · rintro body rfl
    rw [hsys]
    exact Sys.mem_advance_requests.mpr (Or.inr ⟨body, rfl, rfl⟩)

theorem Trying.resume (h : Trying t server m pc i x) {m' : LeaseManager} {pc' : Pc}
    {send : Option Body}
    (hresume : Node.resume profile t x.sys.nextId ⟨some m, pc⟩ =
      some ⟨⟨some m', pc'⟩, send, none⟩) :
    ∃ y : Election ι, Reaches (Step profile claimantOf paramsOf) (Unaided i t) x y ∧
      Trying t server m' pc' i y ∧ ∀ body, send = some body →
        ⟨x.sys.nextId, i, body⟩ ∈ y.sys.requests := by
  have hperform : x.sys.perform profile (.resume i) =
      some (x.sys.advance i ⟨⟨some m', pc'⟩, send, none⟩, none) := by
    simp only [Sys.perform, Sys.nodeStep, Node.step, h.node, h.now, hresume, Option.map_some]
  obtain ⟨y, hreaches, hview⟩ := h.progress profile claimantOf paramsOf (b := .resume i) rfl rfl
    rfl hperform
  exact ⟨y, hreaches, h.of_view hview⟩

/-- The answer to the request that is awaited arrives. -/
theorem Trying.deliver (h : Trying t server m pc i x) {id : Nat} {body : Body}
    {result : Except Error LeaseResource} {effect : Effect}
    (hawaits : Node.awaits ⟨some m, pc⟩ = some (id, body))
    (hresponse : ⟨⟨id, i, body⟩, result⟩ ∈ x.sys.responses)
    (hrespond : Node.respond t x.sys.nextId ⟨some m, pc⟩ result = some effect) :
    ∃ y : Election ι, Reaches (Step profile claimantOf paramsOf) (Unaided i t) x y ∧
      y.view i = ⟨x.sys.advance i effect, Task.receive? profile .claiming effect.ret, false⟩ := by
  refine h.progress profile claimantOf paramsOf (b := .deliver i result) rfl rfl rfl ?_
  simp only [Sys.perform, h.node, hawaits, if_pos hresponse, Sys.nodeStep, Node.step, h.now,
    hrespond, Option.map_some]

/-- The server deals with a request of the candidate. -/
theorem Trying.answer (h : Trying t server m pc i x) {b : Action ι} {req : Request ι}
    {server' : Server} {result : Except Error LeaseResource} (hactor : b.actor = none)
    (hmicros : b.InMicros) (hunaided : Unaided i t (.world b))
    (hperform : x.sys.perform profile b =
      some ({ x.sys with server := server' }.answer req result, none)) :
    ∃ y : Election ι, Reaches (Step profile claimantOf paramsOf) (Unaided i t) x y ∧
      Trying t server' m pc i y ∧ ⟨req, result⟩ ∈ y.sys.responses := by
  refine ⟨{ x with sys := { x.sys with server := server' }.answer req result },
    Reaches.single ⟨?_, ?_⟩ hunaided, ⟨h.now, rfl, h.node, h.task, h.opened⟩,
    List.mem_cons_self⟩
  · simp only [step?, hactor, if_true, hperform, Option.map_some]
  · rintro _ ⟨⟩
    exact hmicros

/-! ## Writes -/

/-- The write whose answer is awaited is under way.  It was made at this time, against the
cached version. -/
structure Sent (claimantOf : ι → String) (paramsOf : ι → ClaimParams) (t : DateTime)
    (server : Server) (m : LeaseManager) (id : Nat) (write : ClaimWrite) (i : ι)
    (x : Election ι) : Prop where
  trying : Trying t server m (.claiming id write (paramsOf i)) i x
  request : ⟨id, i, .patch (.claim write)⟩ ∈ x.sys.requests
  now : write.now = t
  claimant : write.claimant = claimantOf i
  duration : write.leaseDuration = (paramsOf i).leaseDelta
  version : write.version = m.state.meta.version

variable {profile claimantOf paramsOf} {id : Nat} {write : ClaimWrite}

theorem Trying.exists_sent {kind : ClaimKind}
    (h : Trying t server m (kind.pc (claimantOf i) (paramsOf i)) i x)
    (hcounts : profile.succ m.state.meta.transitions ≠ none) :
    ∃ (y : Election ι) (id : Nat) (write : ClaimWrite),
      Reaches (Step profile claimantOf paramsOf) (Unaided i t) x y ∧
        Sent claimantOf paramsOf t server m id write i y := by
  cases kind with
  | renew =>
      have hresume : Node.resume profile t x.sys.nextId
          ⟨some m, .renewing (claimantOf i) (paramsOf i)⟩ = some
            ⟨⟨some m, .claiming x.sys.nextId
                (renew m.state.meta (claimantOf i) (paramsOf i) t) (paramsOf i)⟩,
              some (.patch (.claim (renew m.state.meta (claimantOf i) (paramsOf i) t))),
              none⟩ := rfl
      obtain ⟨y, hreaches, htrying, hsent⟩ := h.resume profile claimantOf paramsOf hresume
      exact ⟨y, _, _, hreaches, htrying, hsent _ rfl, rfl, rfl, rfl, rfl⟩
  | acquire =>
      obtain ⟨transitions, htransitions⟩ := Option.ne_none_iff_exists'.mp hcounts
      have hresume : Node.resume profile t x.sys.nextId
          ⟨some m, .acquiring (claimantOf i) (paramsOf i)⟩ = some
            ⟨⟨some m, .claiming x.sys.nextId ⟨.acquire, m.state.meta.version, claimantOf i,
                (paramsOf i).leaseDelta, t, transitions⟩ (paramsOf i)⟩,
              some (.patch (.claim ⟨.acquire, m.state.meta.version, claimantOf i,
                (paramsOf i).leaseDelta, t, transitions⟩)), none⟩ := by
        simp only [Node.resume, acquire, htransitions, Option.map_some]
      obtain ⟨y, hreaches, htrying, hsent⟩ := h.resume profile claimantOf paramsOf hresume
      exact ⟨y, _, _, hreaches, htrying, hsent _ rfl, rfl, rfl, rfl, rfl⟩

/-- At the top of the loop, a write that is due is sent. -/
theorem Trying.exists_sent_of_ensuring
    (h : Trying t server m (.ensuring (claimantOf i) (paramsOf i)) i x)
    (hdue : Due t m.state (claimantOf i) (paramsOf i))
    (hcounts : profile.succ m.state.meta.transitions ≠ none) :
    ∃ (y : Election ι) (id : Nat) (write : ClaimWrite),
      Reaches (Step profile claimantOf paramsOf) (Unaided i t) x y ∧
        Sent claimantOf paramsOf t server m id write i y := by
  obtain ⟨kind, hhead⟩ := hdue
  have hresume : Node.resume profile t x.sys.nextId
      ⟨some m, .ensuring (claimantOf i) (paramsOf i)⟩ =
        some ⟨⟨some m, kind.pc (claimantOf i) (paramsOf i)⟩, none, none⟩ := by
    cases kind with
    | acquire | renew => simp only [Node.resume, hhead, ClaimKind.head, ClaimKind.pc]
  obtain ⟨y, hreaches, htrying, -⟩ := h.resume profile claimantOf paramsOf hresume
  obtain ⟨z, id, write, hreaches', hsent⟩ := htrying.exists_sent hcounts
  exact ⟨z, id, write, hreaches.trans hreaches', hsent⟩

/-- What the candidate publishes makes it lead. -/
theorem exists_leads_of_publishing {claim : Claim} {s : Sys ι}
    (hview : x.view i = ⟨s, .publishing claim, false⟩)
    (hcurrent : claim.isCurrentFor (claimantOf i) s.now = true) :
    ∃ y : Election ι, Reaches (Step profile claimantOf paramsOf) (Unaided i t) x y ∧
      y.sys = s ∧ y.leads claimantOf i = true := by
  have hstep : (x.view i).step? profile i (claimantOf i) (paramsOf i) .publish =
      some ⟨s, .selecting claim, false⟩ := by
    rw [hview]
    rfl
  obtain ⟨y, hy, hview', hshown⟩ := exists_candidate rfl hstep
  have hsys : y.sys = s := congrArg Spawned.sys hview'
  have htask : x.tasks i = .publishing claim := congrArg Spawned.task hview
  have hopen : y.closed i = false := congrArg Spawned.closed hview'
  refine ⟨y, Reaches.single hy rfl, hsys, ?_⟩
  rw [htask] at hshown
  simp only [leads, hopen, hshown, hsys, Task.sends, Option.some_or, Option.any_some, hcurrent,
    Bool.not_false, Bool.and_true]

/-- A write against the current version is applied. -/
theorem Sent.exists_applied (h : Sent claimantOf paramsOf t server m id write i x)
    (hversion : m.state.meta.version = server.version)
    (hfits : (paramsOf i).leaseDelta.numSeconds < 2147483648) :
    ∃ (y : Election ι) (server' : Server),
      Reaches (Step profile claimantOf paramsOf) (Unaided i t) x y ∧
        Trying t server' m (.claiming id write (paramsOf i)) i y ∧
        ⟨⟨id, i, .patch (.claim write)⟩, .ok (leaseOf server')⟩ ∈ y.sys.responses := by
  obtain ⟨next, hnext⟩ := Infinite.exists_notMem_finset server.issued.toFinset
  have hseconds := (paramsOf i).numSeconds_nonneg
  rw [← h.duration] at hfits hseconds
  obtain ⟨spec, hspec⟩ := ClaimWrite.exists_applyTo hseconds hfits server.value
  have hguard : (⟨id, i, .patch (.claim write)⟩ : Request ι) ∈ x.sys.requests ∧
      (PatchCall.claim write).version = x.sys.server.version ∧ next ∉ x.sys.server.issued := by
    rw [h.trying.server]
    exact ⟨h.request, h.version.trans hversion, by simpa using hnext⟩
  have hperform : x.sys.perform profile (.apply ⟨id, i, .patch (.claim write)⟩ next) =
      some ({ x.sys with server := server.write next (some spec) }.answer
        ⟨id, i, .patch (.claim write)⟩ (.ok (leaseOf (server.write next (some spec)))), none) := by
    simp only [Sys.perform, if_pos hguard]
    rw [h.trying.server, PatchCall.patch, hspec, Option.map_some]
  have hmicros : Action.InMicros (.apply ⟨id, i, .patch (.claim write)⟩ next) := trivial
  obtain ⟨y, hy⟩ := h.trying.answer profile claimantOf paramsOf rfl hmicros rfl hperform
  exact ⟨y, _, hy⟩

/-- A write against the current version makes the candidate lead. -/
theorem Sent.exists_leads (h : Sent claimantOf paramsOf t server m id write i x)
    (hversion : m.state.meta.version = server.version) (hyears : t.SinceEpoch)
    (hpos : 0 < (paramsOf i).leaseDelta.nanos)
    (hfits : (paramsOf i).leaseDelta.numSeconds < 2147483648) :
    ∃ y : Election ι, Reaches (Step profile claimantOf paramsOf) (Unaided i t) x y ∧
      y.sys.now = t ∧ y.leads claimantOf i = true := by
  obtain ⟨y, server', hreaches, htrying, hresponse⟩ := h.exists_applied hversion hfits
  obtain ⟨claim, newMeta, hfinish, hcurrent⟩ := write.exists_finish server'
    (h.now.symm ▸ hyears) (h.duration.symm ▸ hpos) (h.duration.symm ▸ hfits)
  have hrespond : Node.respond t y.sys.nextId ⟨some m, .claiming id write (paramsOf i)⟩
      (.ok (leaseOf server')) = some ⟨⟨some (m.update t ⟨newMeta, some claim⟩), .idle⟩, none,
        some (.ensureClaimed (.ok claim))⟩ := by
    simp only [Node.respond, hfinish]
  obtain ⟨z, hreaches', hview⟩ := htrying.deliver profile claimantOf paramsOf rfl hresponse hrespond
  rw [h.claimant, h.now, ← htrying.now] at hcurrent
  obtain ⟨u, hreaches'', hsys, hleads⟩ := exists_leads_of_publishing hview hcurrent
  refine ⟨u, (hreaches.trans hreaches').trans hreaches'', ?_, hleads⟩
  rw [hsys]
  exact htrying.now

/-- A write against an outdated version meets a conflict, and the resource is read
again. -/
theorem Sent.exists_reading (h : Sent claimantOf paramsOf t server m id write i x)
    (hversion : m.state.meta.version ≠ server.version) :
    ∃ (y : Election ι) (id' : Nat),
      Reaches (Step profile claimantOf paramsOf) (Unaided i t) x y ∧
        Trying t server m (.getting id' (.resync (claimantOf i) (paramsOf i))) i y ∧
        ⟨id', i, .get⟩ ∈ y.sys.requests := by
  have hserver := h.trying.server
  subst hserver
  have hguard : (⟨id, i, .patch (.claim write)⟩ : Request ι) ∈ x.sys.requests ∧
      (PatchCall.claim write).version ≠ x.sys.server.version :=
    ⟨h.request, fun hsame => hversion (h.version.symm.trans hsame)⟩
  have hperform : x.sys.perform profile (.conflict ⟨id, i, .patch (.claim write)⟩) =
      some (x.sys.answer ⟨id, i, .patch (.claim write)⟩ (.error conflictError), none) := by
    simp only [Sys.perform, if_pos hguard]
  have hmicros : Action.InMicros (.conflict ⟨id, i, .patch (.claim write)⟩) := trivial
  obtain ⟨y, hreaches, htrying, hresponse⟩ :=
    h.trying.answer profile claimantOf paramsOf rfl hmicros rfl hperform
  have hrespond : Node.respond t y.sys.nextId ⟨some m, .claiming id write (paramsOf i)⟩
      (.error conflictError) = some
        ⟨⟨some m, .getting y.sys.nextId (.resync (claimantOf i) (paramsOf i))⟩, some .get,
          none⟩ := by
    rw [← h.claimant]
    rfl
  obtain ⟨z, hreaches', hview⟩ :=
    htrying.deliver profile claimantOf paramsOf rfl hresponse hrespond
  obtain ⟨htrying', hsent⟩ := htrying.of_view hview
  exact ⟨z, _, hreaches.trans hreaches', htrying', hsent _ rfl⟩

/-- A read finds the claim over, and the candidate tries again at the current version. -/
theorem Trying.exists_ensuring
    (h : Trying t server m (.getting id (.resync (claimantOf i) (paramsOf i))) i x)
    (hrequest : ⟨id, i, .get⟩ ∈ x.sys.requests) (hreadable : Readable server.value)
    (hover : Over t server.value) :
    ∃ (y : Election ι) (m' : LeaseManager),
      Reaches (Step profile claimantOf paramsOf) (Unaided i t) x y ∧
        Trying t server m' (.ensuring (claimantOf i) (paramsOf i)) i y ∧
        m'.state = ⟨⟨server.version, readTransitions server.value⟩, none⟩ := by
  have hserver := h.server
  subst hserver
  have hguard : (⟨id, i, .get⟩ : Request ι) ∈ x.sys.requests ∧
      (⟨id, i, .get⟩ : Request ι).body = .get := ⟨hrequest, rfl⟩
  have hperform : x.sys.perform profile (.serve ⟨id, i, .get⟩) =
      some (x.sys.answer ⟨id, i, .get⟩ (.ok (leaseOf x.sys.server)), none) := if_pos hguard
  have hmicros : Action.InMicros (.serve (⟨id, i, .get⟩ : Request ι)) := trivial
  obtain ⟨y, hreaches, htrying, hresponse⟩ :=
    h.answer profile claimantOf paramsOf rfl hmicros rfl hperform
  have hrespond : Node.respond t y.sys.nextId
      ⟨some m, .getting id (.resync (claimantOf i) (paramsOf i))⟩
      (.ok (leaseOf x.sys.server)) = some
        ⟨⟨some (m.update t ⟨⟨x.sys.server.version, readTransitions x.sys.server.value⟩, none⟩),
          .ensuring (claimantOf i) (paramsOf i)⟩, none, none⟩ := by
    simp only [Node.respond, get_of_over hreadable hover, Node.gotState]
  obtain ⟨z, hreaches', hview⟩ :=
    htrying.deliver profile claimantOf paramsOf rfl hresponse hrespond
  exact ⟨z, _, hreaches.trans hreaches', (htrying.of_view hview).1, rfl⟩

/-! ## The task tries -/

/-- A call of `ensure_claimed` by the task. -/
theorem exists_trying_of_call {a : SpawnAction ι} (hinside : a.isOutside = false)
    (hunaided : Unaided i t (.candidate i a)) (hnow : x.sys.now = t)
    (hopen : x.closed i = false) (hnode : x.sys.nodes i = ⟨some m, .idle⟩)
    (hcall : (x.view i).step? profile i (claimantOf i) (paramsOf i) a =
      (x.view i).ensureClaimed profile i (claimantOf i) (paramsOf i)) :
    ∃ y : Election ι, Reaches (Step profile claimantOf paramsOf) (Unaided i t) x y ∧
      Trying t x.sys.server m (.ensuring (claimantOf i) (paramsOf i)) i y := by
  have hstep : (x.view i).step? profile i (claimantOf i) (paramsOf i) a =
      some ⟨x.sys.advance i
        ⟨⟨some m, .ensuring (claimantOf i) (paramsOf i)⟩, none, none⟩, .claiming, false⟩ := by
    rw [hcall]
    simp only [Spawned.ensureClaimed, Spawned.invoke, view, Sys.perform, Sys.nodeStep, hnode,
      Node.step, Node.call, Option.map_some, Task.receive?, hopen]
  obtain ⟨y, hy, hview, -⟩ := exists_candidate hinside hstep
  have hsys : y.sys = x.sys.advance i
    ⟨⟨some m, .ensuring (claimantOf i) (paramsOf i)⟩, none, none⟩ := congrArg Spawned.sys hview
  refine ⟨y, Reaches.single hy hunaided, ?_, ?_, ?_, congrArg Spawned.task hview,
    congrArg Spawned.closed hview⟩
  · rw [hsys]
    exact hnow
  · rw [hsys]
    rfl
  · rw [hsys, Sys.advance_nodes_self]

/-- At the end of its claim the task calls `ensure_claimed`. -/
theorem exists_trying_of_selecting {claim : Claim} (htask : x.tasks i = .selecting claim)
    (hnow : x.sys.now = t) (hopen : x.closed i = false)
    (hnode : x.sys.nodes i = ⟨some m, .idle⟩) (hover : claim.expiry ≤ t) :
    ∃ y : Election ι, Reaches (Step profile claimantOf paramsOf) (Unaided i t) x y ∧
      Trying t x.sys.server m (.ensuring (claimantOf i) (paramsOf i)) i y := by
  refine exists_trying_of_call (a := .poll) rfl rfl hnow hopen hnode ?_
  have hsleep : ∀ grace, claim.expireWithGrace x.sys.now grace = 0 := by
    intro grace
    rw [DateTime.le_def] at hover
    unfold Claim.expireWithGrace
    rw [hnow]
    split
    · omega
    · rfl
  simp only [Spawned.step?, Spawned.poll, view, htask, hopen, hsleep, Bool.false_eq_true,
    if_false, if_true]

/-- Without the others, and with the manager that it has, the candidate gets to a call of
`ensure_claimed` whose write is about to be made. -/
def CanTry (profile : Profile) (claimantOf : ι → String) (paramsOf : ι → ClaimParams)
    (t : DateTime) (i : ι) (x : Election ι) : Prop :=
  ∃ (y : Election ι) (m : LeaseManager) (pc : Pc), (x.sys.nodes i).manager = some m ∧
    Reaches (Step profile claimantOf paramsOf) (Unaided i t) x y ∧
    Trying t x.sys.server m pc i y ∧
    (pc = .ensuring (claimantOf i) (paramsOf i) ∨
      ∃ kind : ClaimKind, pc = kind.pc (claimantOf i) (paramsOf i))

theorem CanTry.of_trying (hm : (x.sys.nodes i).manager = some m)
    (h : ∃ y : Election ι, Reaches (Step profile claimantOf paramsOf) (Unaided i t) x y ∧
      Trying t x.sys.server m (.ensuring (claimantOf i) (paramsOf i)) i y) :
    CanTry profile claimantOf paramsOf t i x := by
  obtain ⟨y, hreaches, htrying⟩ := h
  exact ⟨y, m, _, hm, hreaches, htrying, Or.inl rfl⟩

/-- A call that awaits no answer is there, or about to send its write. -/
theorem canTry_of_claiming (h : x.Sound claimantOf paramsOf) (hnow : x.sys.now = t)
    (hopen : x.closed i = false) (hm : (x.sys.nodes i).manager = some m)
    (htask : x.tasks i = .claiming) (hawaits : (x.sys.nodes i).awaits = none) :
    CanTry profile claimantOf paramsOf t i x := by
  have hmethod : (x.sys.nodes i).pc.method = some .ensureClaimed := by
    have htaskOk : TaskOk i (claimantOf i) (paramsOf i) x.sys (x.tasks i) := (h.accounted i).2
    rw [htask] at htaskOk
    exact htaskOk
  have hpcOk := h.exclusive.knows.pcOk i m hm
  have htrying : Trying t x.sys.server m (x.sys.nodes i).pc i x :=
    ⟨hnow, rfl, by rw [← hm], htask, hopen⟩
  cases hpc : (x.sys.nodes i).pc with
  | idle | vacating =>
      rw [hpc] at hmethod
      cases hmethod
  | getting | claiming =>
      rw [Node.awaits, hpc] at hawaits
      cases hawaits
  | ensuring claimant params =>
      rw [hpc] at htrying hpcOk
      obtain ⟨rfl, rfl⟩ := hpcOk
      exact .of_trying hm ⟨x, Reaches.refl x, htrying⟩
  | renewing claimant params =>
      rw [hpc] at htrying hpcOk
      obtain ⟨⟨rfl, rfl⟩, -⟩ := hpcOk
      exact ⟨x, m, _, hm, Reaches.refl x, htrying, Or.inr ⟨.renew, rfl⟩⟩
  | acquiring claimant params =>
      rw [hpc] at htrying hpcOk
      obtain ⟨⟨rfl, rfl⟩, -⟩ := hpcOk
      exact ⟨x, m, _, hm, Reaches.refl x, htrying, Or.inr ⟨.acquire, rfl⟩⟩

/-- A task in its loop that awaits no answer gets there, once the claim that it has cached
is over. -/
theorem canTry_of_loops (h : x.Sound claimantOf paramsOf) (hsound : TaskSound i (x.view i))
    (hnow : x.sys.now = t) (hopen : x.closed i = false) (hloops : (x.tasks i).loops = true)
    (hawaits : (x.sys.nodes i).awaits = none)
    (hcached : ∀ m claim, (x.sys.nodes i).manager = some m → m.state.claim = some claim →
      claim.expiry ≤ t) : CanTry profile claimantOf paramsOf t i x := by
  have hspawned : x.tasks i ≠ .unspawned := by
    intro htask
    rw [htask] at hloops
    cases hloops
  obtain ⟨m, hm⟩ := Option.isSome_iff_exists.mp (hsound.managed hspawned)
  change (x.sys.nodes i).manager = some m at hm
  have htaskOk : TaskOk i (claimantOf i) (paramsOf i) x.sys (x.tasks i) := (h.accounted i).2
  have hnode : (x.sys.nodes i).pc = .idle → x.sys.nodes i = ⟨some m, .idle⟩ := by
    intro hidle
    rw [← hm, ← hidle]
  have hrest : ∀ claim, Resting x.sys i (claimantOf i) claim →
      x.sys.nodes i = ⟨some m, .idle⟩ ∧ claim.expiry ≤ t := by
    rintro claim ⟨hidle, m', hm', hclaim, -⟩
    exact ⟨hnode hidle, hcached m' claim hm' hclaim⟩
  cases htask : x.tasks i with
  | unspawned | starting | backingOff | vacating | finished | failed =>
      rw [htask] at hloops
      cases hloops
  | claiming => exact canTry_of_claiming h hnow hopen hm htask hawaits
  | selecting claim =>
      rw [htask] at htaskOk
      obtain ⟨hidle, hover⟩ := hrest claim htaskOk
      exact .of_trying hm (exists_trying_of_selecting htask hnow hopen hidle hover)
  | sleeping claim wakeAt =>
      rw [htask] at htaskOk
      obtain ⟨hidle, hover⟩ := hrest claim htaskOk
      have hwake : wakeAt ≤ x.sys.now.nanos := by
        rw [hnow]
        exact (hsound.sleeps claim wakeAt htask).trans hover
      refine .of_trying hm (exists_trying_of_call (a := .poll) rfl rfl hnow hopen hidle ?_)
      simp only [Spawned.step?, Spawned.poll, view, htask, hopen, hwake, Bool.false_eq_true,
        if_false, if_true]
  | publishing claim =>
      rw [htask] at htaskOk
      obtain ⟨hidle, hover⟩ := hrest claim htaskOk
      have hstep : (x.view i).step? profile i (claimantOf i) (paramsOf i) .publish =
          some ⟨x.sys, .selecting claim, false⟩ := by
        simp only [Spawned.step?, view, htask, hopen, Bool.false_eq_true, if_false]
      obtain ⟨y, hy, hview, -⟩ := exists_candidate rfl hstep
      have hfirst : Reaches (Step profile claimantOf paramsOf) (Unaided i t) x y :=
        Reaches.single hy rfl
      have hsys : y.sys = x.sys := congrArg Spawned.sys hview
      have hselecting : ∃ z : Election ι,
          Reaches (Step profile claimantOf paramsOf) (Unaided i t) y z ∧
            Trying t y.sys.server m (.ensuring (claimantOf i) (paramsOf i)) i z :=
        exists_trying_of_selecting (congrArg Spawned.task hview) (hsys ▸ hnow)
          (congrArg Spawned.closed hview) (hsys ▸ hidle) hover
      obtain ⟨z, hreaches, htrying⟩ := hselecting
      rw [hsys] at htrying
      exact .of_trying hm ⟨z, hfirst.trans hreaches, htrying⟩

/-! ## The candidate takes the lease -/

section Takes

variable (hyears : t.SinceEpoch) (hpos : 0 < (paramsOf i).leaseDelta.nanos)
  (hfits : (paramsOf i).leaseDelta.numSeconds < 2147483648)
  (hgrace : (paramsOf i).graceDelta.nanos ≤ 8334601228800000000000)
  (hreadable : Readable server.value) (hover : Over t server.value)
  (hcounts : profile.succ (readTransitions server.value) ≠ none)

include hyears hpos hfits hgrace hreadable hover hcounts

/-- A write that was sent makes the candidate lead, at the second try if not at the
first. -/
theorem Sent.takes (h : Sent claimantOf paramsOf t server m id write i x) :
    ∃ y : Election ι, Reaches (Step profile claimantOf paramsOf) (Unaided i t) x y ∧
      y.sys.now = t ∧ y.leads claimantOf i = true := by
  by_cases hversion : m.state.meta.version = server.version
  · exact h.exists_leads hversion hyears hpos hfits
  · obtain ⟨y, id', hreaches, hreading, hrequest⟩ := h.exists_reading hversion
    obtain ⟨z, m', hreaches', hensuring, hstate⟩ :=
      hreading.exists_ensuring hrequest hreadable hover
    have hdue : Due t m'.state (claimantOf i) (paramsOf i) := by
      refine due_of_over ?_ hgrace
      intro claim hclaim
      rw [hstate] at hclaim
      cases hclaim
    have hcounted : profile.succ m'.state.meta.transitions ≠ none := by
      rw [hstate]
      exact hcounts
    obtain ⟨u, id'', write', hreaches'', hsent⟩ :=
      hensuring.exists_sent_of_ensuring hdue hcounted
    obtain ⟨v, hlast, hleads⟩ := hsent.exists_leads (by rw [hstate]) hyears hpos hfits
    exact ⟨v, ((hreaches.trans hreaches').trans hreaches'').trans hlast, hleads⟩

/-- A candidate that can try can take the lease. -/
theorem CanTry.takes (h : CanTry profile claimantOf paramsOf t i x)
    (hserver : x.sys.server = server)
    (hcached : ∀ m, (x.sys.nodes i).manager = some m →
      Due t m.state (claimantOf i) (paramsOf i) ∧
        profile.succ m.state.meta.transitions ≠ none) :
    ∃ y : Election ι, Reaches (Step profile claimantOf paramsOf) (Unaided i t) x y ∧
      y.sys.now = t ∧ y.leads claimantOf i = true := by
  obtain ⟨y, m, pc, hm, hreaches, htrying, hpc⟩ := h
  obtain ⟨hdue, hcounted⟩ := hcached m hm
  rw [hserver] at htrying
  have hsent : ∃ (z : Election ι) (id : Nat) (write : ClaimWrite),
      Reaches (Step profile claimantOf paramsOf) (Unaided i t) y z ∧
        Sent claimantOf paramsOf t server m id write i z := by
    rcases hpc with rfl | ⟨kind, rfl⟩
    · exact htrying.exists_sent_of_ensuring hdue hcounted
    · exact htrying.exists_sent hcounted
  obtain ⟨z, id, write, hreaches', hsent⟩ := hsent
  obtain ⟨u, hlast, hleads⟩ := hsent.takes hyears hpos hfits hgrace hreadable hover hcounts
  exact ⟨u, (hreaches.trans hreaches').trans hlast, hleads⟩

end Takes

end Stages

/-! ## Every run -/

/-- The dates of the system are after the epoch, and every task is sound. -/
structure Prepared (x : Election ι) : Prop where
  dates : x.sys.AfterEpoch
  tasks : ∀ i, TaskSound i (x.view i)

theorem Prepared.step {y : Election ι} {a : ElectionAction ι} (h : x.Prepared)
    (hsound : x.Sound claimantOf paramsOf)
    (hstep : Election.Step profile claimantOf paramsOf x a y) : y.Prepared := by
  have hwrites : ∀ req ∈ x.sys.requests, ∀ write, req.body = .patch (.claim write) →
      0 ≤ write.leaseDuration.numSeconds := by
    intro req hmem write hbody
    obtain ⟨-, -, hduration⟩ := hsound.exclusive.faithful req hmem _ hbody
    rw [hduration]
    exact ClaimParams.numSeconds_nonneg _
  obtain ⟨hstep, -⟩ := hstep
  cases a with
  | world b =>
      obtain ⟨-, hrest⟩ := Option.ite_none_right_eq_some.mp hstep
      obtain ⟨⟨s, ret⟩, hperform, rfl⟩ := Option.map_eq_some_iff.mp hrest
      have hcases := Sys.perform_cases hperform
      exact ⟨h.dates.cases hwrites hcases, fun i => (h.tasks i).outside hcases⟩
  | candidate j a =>
      obtain ⟨hinside, hrest⟩ := Option.ite_none_left_eq_some.mp hstep
      obtain ⟨z, hspawned, rfl⟩ := Option.map_eq_some_iff.mp hrest
      have hinside : a.isOutside = false := Bool.not_eq_true _ ▸ hinside
      -- The system stays as it is, or the candidate's manager takes a step.
      obtain ⟨hdates, hothers⟩ : z.sys.AfterEpoch ∧
          ∀ i, TaskSound i ⟨z.sys, x.tasks i, x.closed i⟩ := by
        cases performs_of_step hinside hspawned with
        | nothing hsys =>
            rw [hsys]
            exact ⟨h.dates, h.tasks⟩
        | action hperform =>
            have hcases := Sys.perform_cases hperform
            exact ⟨h.dates.cases hwrites hcases, fun i => (h.tasks i).outside hcases⟩
      refine ⟨hdates, ?_⟩
      intro i
      by_cases hij : i = j
      · subst hij
        simpa [view] using (h.tasks i).step hinside hspawned
      · simpa [view, Function.update_of_ne hij] using hothers i

omit [DecidableEq ι] in
theorem Prepared.initial {now : DateTime} (hepoch : 0 ≤ now.nanos) (version : String)
    {spec : Option LeaseSpec} (hspec : Readable spec) :
    (Election.initial now version spec : Election ι).Prepared := by
  refine ⟨⟨hepoch, fun i => ⟨?_, ?_⟩, hspec⟩, fun i => ⟨?_, ?_⟩⟩
  · intro m claim hm
    cases hm
  · intro id write params hpc
    cases hpc
  · intro claim wakeAt htask
    cases htask
  · intro hspawned
    exact absurd rfl hspawned

/-- It becomes the given time. -/
def tickTo (x : Election ι) (t : DateTime) : Election ι :=
  { x with sys := { x.sys with now := t } }

theorem step_tickTo {t : DateTime} (hle : x.sys.now ≤ t) (ht : t.Micros) :
    Election.Step profile claimantOf paramsOf x (.world (.tick t)) (x.tickTo t) := by
  refine ⟨?_, ?_⟩
  · simp only [Election.step?, Action.actor, if_true, Sys.perform, if_pos hle, Option.map_some,
      tickTo]
  · rintro _ ⟨⟩
    exact ht

/-- Candidates that use `spawn` with distinct claimants and with parameters as in
`Election`, on a clock that starts after 1970.  From every state that they can reach, and
at every time at which the recorded claim and the one that a candidate has cached are
over: if the candidate's duration is a positive `int32` of seconds, its task is in its
loop and awaits no answer, and somebody looks at its receivers, then the candidate can
take the lease without the others. -/
theorem candidate_takes_over (profile : Profile) (claimantOf : ι → String)
    (paramsOf : ι → ClaimParams) (hdistinct : Function.Injective claimantOf)
    (hwhole : ∀ i, (paramsOf i).leaseDuration.WholeSeconds)
    (hgrace : ∀ i, (paramsOf i).renewGracePeriod.toNanos ≤ (paramsOf i).leaseDuration.toNanos)
    {now : DateTime} (hmicros : now.Micros) (hepoch : 0 ≤ now.nanos) {version : String}
    {spec : Option LeaseSpec} (hspec : Readable spec)
    {actions : List (ElectionAction ι)} {x : Election ι}
    (hrun : Run (Election.Step profile claimantOf paramsOf) (Election.initial now version spec)
      actions x)
    {i : ι} (hloops : (x.tasks i).loops = true)
    (hawaits : (x.sys.nodes i).awaits = none) (hopen : x.closed i = false)
    (hpos : 0 < (paramsOf i).leaseDelta.numSeconds)
    (hfits : (paramsOf i).leaseDelta.numSeconds < 2147483648)
    {t : DateTime} (hyears : t.SinceEpoch) (ht : t.Micros) (hle : x.sys.now ≤ t)
    (hvacant : Vacant profile t x.sys i) :
    ∃ y : Election ι, Reaches (Election.Step profile claimantOf paramsOf) (Unaided i t) x y ∧
      y.sys.now = t ∧ y.leads claimantOf i = true := by
  have htick : Election.Step profile claimantOf paramsOf x (.world (.tick t)) (x.tickTo t) :=
    step_tickTo hle ht
  have hfirst : Reaches (Election.Step profile claimantOf paramsOf) (Unaided i t) x
      (x.tickTo t) := Reaches.single htick rfl
  obtain ⟨hsound, hprepared⟩ :
      (x.tickTo t).Sound claimantOf paramsOf ∧ (x.tickTo t).Prepared := by
    refine (hrun.append (.cons htick (.nil _))).invariant
      (fun x => x.Sound claimantOf paramsOf ∧ x.Prepared) ?_
      ⟨Sound.initial hmicros version spec, Prepared.initial hepoch version hspec⟩
    rintro x a y ⟨hsound, hprepared⟩ hstep
    exact ⟨hsound.step hdistinct hwhole hgrace hstep, hprepared.step hsound hstep⟩
  have hdelta := (paramsOf i).numSeconds_le_leaseDelta
  have hreach : (paramsOf i).graceDelta.nanos ≤ 8334601228800000000000 :=
    graceDelta_le_of_fits hfits (hgrace i)
  have hcached : ∀ m, (x.sys.nodes i).manager = some m →
      Due t m.state (claimantOf i) (paramsOf i) ∧
        profile.succ m.state.meta.transitions ≠ none := by
    intro m hm
    refine ⟨due_of_over ?_ hreach, hvacant.countsCached m hm⟩
    intro claim hclaim
    exact ⟨(hprepared.dates.nodes i).claims m claim hm hclaim,
      hvacant.cached m claim hm hclaim⟩
  have htry : CanTry profile claimantOf paramsOf t i (x.tickTo t) :=
    canTry_of_loops hsound (hprepared.tasks i) rfl hopen hloops hawaits hvacant.cached
  obtain ⟨y, hreaches, hleads⟩ := htry.takes hyears (by omega) hfits hreach
    hprepared.dates.recorded hvacant.recorded hvacant.counts rfl hcached
  exact ⟨y, hfirst.trans hreaches, hleads⟩

/-- Alice is gone when her claim runs out, and bob takes over. -/
theorem bob_succeeds_alice :
    ∃ x y : Election Bool,
      Run (Election.Step .release exampleClaimant exampleParams)
        (Election.initial exampleNow "1" (some {})) aliceElected x ∧
      x.leads exampleClaimant false = true ∧
      Reaches (Election.Step .release exampleClaimant exampleParams)
        (Unaided true exampleLater) x y ∧
      y.leads exampleClaimant true = true := by
  obtain ⟨x, hx⟩ := Option.isSome_iff_exists.mp
    (show (execAll (Election.step? .release exampleClaimant exampleParams)
      (Election.initial exampleNow "1" (some {})) aliceElected).isSome = true by
      decide +kernel)
  have hclock : ∀ a ∈ aliceElected, ∀ b, a = .world b → b.InMicros := by
    simp [aliceElected, Action.InMicros]
  have hrun : Run (Election.Step .release exampleClaimant exampleParams)
      (Election.initial exampleNow "1" (some {})) aliceElected x :=
    (run_of_execAll (fun _ _ _ h => h) hx).restrict hclock
  have hleads : x.leads exampleClaimant false = true :=
    eq_of_execAll_map (fun x => x.leads exampleClaimant false) hx (by decide +kernel)
  have hloops : (x.tasks true).loops = true :=
    eq_of_execAll_map (fun x => (x.tasks true).loops) hx (by decide +kernel)
  have hawaits : (x.sys.nodes true).awaits = none :=
    eq_of_execAll_map (fun x => (x.sys.nodes true).awaits) hx (by decide +kernel)
  have hopen : x.closed true = false :=
    eq_of_execAll_map (fun x => x.closed true) hx (by decide +kernel)
  have hnow : x.sys.now = exampleNow :=
    eq_of_execAll_map (fun x => x.sys.now) hx (by decide +kernel)
  have hserver : x.sys.server.value = some aliceLease :=
    eq_of_execAll_map (fun x => x.sys.server.value) hx (by decide +kernel)
  have hcached : (x.sys.nodes true).manager.bind (·.state.claim) =
      some ⟨"alice", ⟨1700000030000000000, by decide, by decide⟩⟩ :=
    eq_of_execAll_map (fun x => (x.sys.nodes true).manager.bind (·.state.claim)) hx
      (by decide +kernel)
  have hvacant : Vacant .release exampleLater x.sys true := by
    refine ⟨?_, ?_, by simp [Profile.succ], fun m _ => by simp [Profile.succ]⟩
    · rw [hserver]
      rintro holder expiry - hexpiry
      obtain rfl : 1700000030000000000 = expiry := Option.some.inj hexpiry
      decide
    · intro m claim hm hclaim
      rw [hm, Option.bind_some, hclaim] at hcached
      obtain rfl := Option.some.inj hcached
      decide
  obtain ⟨y, hreaches, -, hbob⟩ := candidate_takes_over .release exampleClaimant exampleParams
    exampleClaimant_injective (fun _ => rfl) exampleParams_grace exampleNow_micros (by decide)
    ⟨{}, rfl, by simp⟩ hrun hloops hawaits hopen (by decide) (by decide) ⟨by decide, by decide⟩
    (show exampleLater.nanos % 1000 = 0 by decide) (hnow ▸ (by decide)) hvacant
  exact ⟨x, y, hrun, hleads, hreaches, hbob⟩

end Election

end Lease
end Kubert
