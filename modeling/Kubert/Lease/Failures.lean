import Kubert.Lease.System

/-!
# What a failed call leaves behind

`sync`, `ensure_claimed` and `vacate` can fail at each of their awaits: with an error
of the API, a timeout, an incomplete response, or because the caller drops the
future.  A caller would expect to find the cached state as it was, or as it was read
from the server during the call.

A failing step never touches the cached state (`Next.manager_of_fails`), and before it
only reads do (`Kept`).  The exception is `vacate`: it takes the claim out of
the cache before it sends its patch, and puts it back only where the claim is
somebody else's.  If the patch fails the claim is lost, and the next
`ensure_claimed` on the same manager, whoever makes it, goes on to `acquire`.

Dropping a future that still waits for the lock is not among the events: nothing has
been read or written by then.
-/

namespace Kubert
namespace Lease

open Foundation

/-! ## Calls -/

/-- The fault that a call returns, if it does. -/
def Return.fault? : Return → Option Fault
  | .init (.error f) => some f
  | .sync (.error f) => some f
  | .ensureClaimed (.error f) => some f
  | .vacate (.error f) => some f
  | _ => none

/-- One event of a manager: the clock reading, the number of a request that may be
sent, the input, and what is returned to the caller. -/
structure NodeEvent where
  now : DateTime
  id : Nat
  input : Input
  ret : Option Return

namespace NodeEvent

/-- The event begins a call. -/
def IsCall (e : NodeEvent) : Prop := ∃ op, e.input = .call op

/-- The event ends a call in failure. -/
def Fails (e : NodeEvent) : Prop :=
  e.input = .cancel ∨ ∃ ret f, e.ret = some ret ∧ ret.fault? = some f

end NodeEvent

namespace Node

/-- The step relation of one manager, among any responses. -/
def Next (profile : Profile) (node : Node) (e : NodeEvent) (node' : Node) : Prop :=
  ∃ effect, node.step profile e.now e.id e.input = some effect ∧
    effect.ret = e.ret ∧ effect.node = node'

/-- The events lead past a response to a `get` that is decoded into this state. -/
def ReadDuring (profile : Profile) (node : Node) (events : List NodeEvent)
    (state : State) : Prop :=
  ∃ before e after mid id caller lease, events = before ++ e :: after ∧
    Run (Next profile) node before mid ∧ mid.pc = .getting id caller ∧
    e.input = .response (.ok lease) ∧ get e.now (.ok lease) = .ok state

/-- The cached state is the one before the events, or one that was read during
them. -/
def Kept (profile : Profile) (m : LeaseManager) (events : List NodeEvent)
    (state : State) : Prop :=
  state = m.state ∨ ReadDuring profile ⟨some m, .idle⟩ events state

end Node

/-- A call that fails: its first event, the events in between, and the one at which
it fails. -/
structure FailedCall (profile : Profile) (m : LeaseManager) (now : DateTime) (op : Op)
    (events : List NodeEvent) (m' : LeaseManager) : Prop where
  run : Run (Node.Next profile) ⟨some m, .idle⟩ events ⟨some m', .idle⟩
  shape : ∃ id ret during last, events = ⟨now, id, .call op, ret⟩ :: (during ++ [last]) ∧
    (∀ e ∈ during, ¬ e.IsCall) ∧ ¬ last.IsCall ∧ last.Fails

/-- The call is a vacate that gets to send its patch: the cached claim is current and
the claimant's own. -/
def Vacates (now : DateTime) (state : State) (op : Op) : Prop :=
  ∃ claimant claim, op = .vacate claimant ∧ state.claim = some claim ∧
    claim.isCurrentFor claimant now = true

/-! ## Steps of a call -/

namespace Node

theorem Kept.append {profile : Profile} {m : LeaseManager} {events : List NodeEvent}
    {state : State} (h : Kept profile m events state) (more : List NodeEvent) :
    Kept profile m (events ++ more) state := by
  rcases h with hsame | ⟨before, e, after, mid, id, caller, lease, rfl, hread⟩
  · exact Or.inl hsame
  · exact Or.inr ⟨before, e, after ++ more, mid, id, caller, lease, by simp, hread⟩

section Steps

variable {profile : Profile} {node node' : Node} {e : NodeEvent}

/-- An event determines where it leads. -/
theorem Next.unique {other : Node} (h : Next profile node e node')
    (hother : Next profile node e other) : other = node' := by
  obtain ⟨effect, hstep, -, rfl⟩ := h
  obtain ⟨effect', hstep', -, rfl⟩ := hother
  rw [hstep] at hstep'
  rw [Option.some.inj hstep']

/-- Between two calls nothing happens. -/
theorem Next.pc_ne_idle (h : Next profile node e node') (hcall : ¬ e.IsCall) :
    node.pc ≠ .idle := by
  obtain ⟨effect, hstep, -, -⟩ := h
  exact step_pc_ne_idle hstep fun op hop => hcall ⟨op, hop⟩

/-- The step at which a call fails leaves the cached state alone. -/
theorem Next.manager_of_fails (h : Next profile node e node') (hcall : ¬ e.IsCall)
    (hfails : e.Fails) : node'.manager = node.manager := by
  obtain ⟨effect, hstep, hret, rfl⟩ := h
  have hmoves := step_moves hstep
  cases hinput : e.input with
  | call op => exact absurd ⟨op, hinput⟩ hcall
  | cancel =>
      rw [hinput] at hmoves
      cases hmoves with
      | cancelled => rfl
  | resume =>
      rw [hinput] at hmoves
      cases hmoves with
      | returned _ hm | headPanicked _ hm | due _ hm | renewSent _ hm
      | acquireSent _ hm | acquirePanicked _ hm => exact hm.symm
  | response result =>
      obtain ⟨ret, f, hsome, hfault⟩ : ∃ ret f, e.ret = some ret ∧
          ret.fault? = some f := by
        rcases hfails with hcancel | hfault
        · rw [hinput] at hcancel
          cases hcancel
        · exact hfault
      rw [← hret] at hsome
      rw [hinput] at hmoves
      cases hmoves with
      | getFailed => rfl
      | conflicted _ hm | claimFailed _ hm | finishFailed _ hm | vacateFailed _ hm =>
          exact hm.symm
      -- A call that goes on or succeeds returns no fault.
      | gotResync => cases hsome
      | gotInit | gotSync | claimed | vacated =>
          obtain rfl := Option.some.inj hsome
          cases hfault

/-- While a call goes on, its steps keep the cached state or read a new one. -/
theorem Next.kept_of_pc_ne_idle {m m₁ : LeaseManager} {past : List NodeEvent}
    (hrun : Run (Next profile) ⟨some m, .idle⟩ past node) (hm : node.manager = some m₁)
    (hkept : Kept profile m past m₁.state) (h : Next profile node e node')
    (hcall : ¬ e.IsCall) (hpc : node'.pc ≠ .idle) :
    ∃ m₂, node'.manager = some m₂ ∧ Kept profile m (past ++ [e]) m₂.state := by
  obtain ⟨effect, hstep, -, rfl⟩ := h
  have hmoves := step_moves hstep
  cases hinput : e.input with
  | call op => exact absurd ⟨op, hinput⟩ hcall
  | cancel =>
      rw [hinput] at hmoves
      cases hmoves with
      | cancelled => exact absurd rfl hpc
  | resume =>
      rw [hinput] at hmoves
      cases hmoves with
      | returned _ hm' | headPanicked _ hm' | due _ hm' | renewSent _ hm'
      | acquireSent _ hm' | acquirePanicked _ hm' =>
          rw [hm] at hm'
          obtain rfl := Option.some.inj hm'
          exact ⟨m₁, rfl, hkept.append [e]⟩
  | response result =>
      rw [hinput] at hmoves
      cases hmoves with
      | conflicted _ hm' =>
          rw [hm] at hm'
          obtain rfl := Option.some.inj hm'
          exact ⟨m₁, rfl, hkept.append [e]⟩
      | gotResync hgetting hm' hget =>
          exact ⟨_, rfl, Or.inr ⟨past, e, [], node, _, _, _, rfl, hrun, hgetting, hinput, hget⟩⟩
      | getFailed | gotInit | gotSync | claimFailed | finishFailed | claimed
      | vacateFailed | vacated => exact absurd rfl hpc

/-- A call that waits for its vacate ends with the next event. -/
theorem Next.vacating (h : Next profile node e node') {id : Nat}
    {version claimant : String} (hpc : node.pc = .vacating id version claimant) :
    node'.pc = .idle := by
  obtain ⟨effect, hstep, -, rfl⟩ := h
  have hmoves := step_moves hstep
  generalize hinput : e.input = input at hmoves
  cases hmoves with
  | cancelled | vacateFailed | vacated => rfl
  | _ => simp_all

end Steps

section Runs

variable {profile : Profile} {node node' : Node} {events : List NodeEvent}

theorem eq_of_run_of_idle (hrun : Run (Next profile) node events node')
    (hcalls : ∀ e ∈ events, ¬ e.IsCall) (hpc : node.pc = .idle) : node' = node := by
  cases hrun with
  | nil => rfl
  | cons hstep _ =>
      exact absurd hpc (hstep.pc_ne_idle (hcalls _ List.mem_cons_self))

/-- As long as a call has not ended, the cached state is the one before it, or one
that was read during it. -/
theorem kept_of_run {m m₁ : LeaseManager} {past : List NodeEvent}
    (hrun : Run (Next profile) node events node') (hcalls : ∀ e ∈ events, ¬ e.IsCall)
    (hpast : Run (Next profile) ⟨some m, .idle⟩ past node)
    (hm : node.manager = some m₁) (hkept : Kept profile m past m₁.state)
    (hpc : node'.pc ≠ .idle) :
    ∃ m₂, node'.manager = some m₂ ∧ Kept profile m (past ++ events) m₂.state := by
  induction hrun generalizing past m₁ with
  | nil node =>
      rw [List.append_nil]
      exact ⟨m₁, hm, hkept⟩
  | @cons node next node' e events hstep hrest ih =>
      obtain ⟨hfirst, hlater⟩ := List.forall_mem_cons.mp hcalls
      have hnext : next.pc ≠ .idle := by
        intro hidle
        rw [eq_of_run_of_idle hrest hlater hidle] at hpc
        exact hpc hidle
      obtain ⟨m₂, hm₂, hkept₂⟩ := hstep.kept_of_pc_ne_idle hpast hm hkept hfirst hnext
      have hlonger := hpast.append (Run.cons hstep (Run.nil next))
      rw [List.append_cons]
      exact ih hlater hlonger hm₂ hkept₂ hpc

/-- Nothing is read while a vacate waits for its answer. -/
theorem not_readDuring_of_vacating {node₁ : Node} {first : NodeEvent} {state : State}
    (hfirst : Next profile node first node₁) {id : Nat} {version claimant : String}
    (hpc : node₁.pc = .vacating id version claimant) (hcalls : ∀ e ∈ events, ¬ e.IsCall)
    (hidle : node.pc = .idle) : ¬ ReadDuring profile node (first :: events) state := by
  rintro ⟨before, e, after, mid, id, caller, lease, heq, hrun, hgetting, -⟩
  cases hrun with
  | nil =>
      rw [hidle] at hgetting
      cases hgetting
  | @cons _ next _ _ before hstep hrest =>
      obtain ⟨rfl, rfl⟩ := List.cons.inj heq
      obtain rfl := hfirst.unique hstep
      cases hrest with
      | nil =>
          rw [hpc] at hgetting
          cases hgetting
      | @cons _ next _ e' before hstep' hlater =>
          have hended := hstep'.vacating hpc
          have hmore : ∀ e ∈ before, ¬ e.IsCall := by
            intro e he
            exact hcalls e (by simp [he])
          rw [eq_of_run_of_idle hlater hmore hended, hended] at hgetting
          cases hgetting

end Runs

/-- Where a call stands after its first event, if it has not ended with it: nothing has
been touched, or `vacate` has dropped the claim. -/
theorem Next.call {profile : Profile} {m : LeaseManager} {now : DateTime} {id : Nat}
    {op : Op} {ret : Option Return} {node : Node}
    (h : Next profile ⟨some m, .idle⟩ ⟨now, id, .call op, ret⟩ node)
    (hpc : node.pc ≠ .idle) :
    (¬ Vacates now m.state op ∧ node.manager = some m) ∨
      (Vacates now m.state op ∧
        node.manager = some { m with state := ⟨m.state.meta, none⟩ } ∧
        ∃ id version claimant, node.pc = .vacating id version claimant) := by
  obtain ⟨effect, hstep, -, rfl⟩ := h
  have hmoves := step_moves hstep
  cases hmoves with
  | init _ hm => cases hm
  | withDiagnostics | vacateSkipped => exact absurd rfl hpc
  | sync _ hm | ensureClaimed _ hm =>
      refine Or.inl ⟨?_, hm.symm⟩
      rintro ⟨claimant, claim, hop, -⟩
      cases hop
  | vacateSent _ hm hclaim hcurrent hholder =>
      obtain rfl := Option.some.inj hm
      refine Or.inr ⟨⟨_, _, rfl, hclaim, ?_⟩, rfl, _, _, _, rfl⟩
      simp [Claim.isCurrentFor, hcurrent, hholder]

end Node

/-! ## Failed calls -/

/-- After a call has failed, the cached state is the one before it or one that was
read during it, unless the call was a vacate that sent its patch.  In that case the
claim is gone, and whoever calls `ensure_claimed` next acquires the lease. -/
theorem failed_call_kept_iff {profile : Profile} {m m' : LeaseManager} {now : DateTime}
    {op : Op} {events : List NodeEvent} (hcall : FailedCall profile m now op events m') :
    (Node.Kept profile m events m'.state ↔ ¬ Vacates now m.state op) ∧
      (Vacates now m.state op → ∀ later claimant params,
        ensureClaimedHead later m'.state claimant params = .acquire) := by
  obtain ⟨hrun, id, ret, during, last, rfl, hduring, hlast, hfails⟩ := hcall
  cases hrun with
  | @cons _ node₁ _ _ _ hfirst hrest =>
  obtain ⟨mid, hmid, hend⟩ := Run.split hrest
  cases hend with
  | cons hlaststep hnil =>
  cases hnil
  have hmanager : mid.manager = some m' := (hlaststep.manager_of_fails hlast hfails).symm
  have hbusy : mid.pc ≠ .idle := hlaststep.pc_ne_idle hlast
  have hbusy₁ : node₁.pc ≠ .idle := by
    intro hidle
    rw [Node.eq_of_run_of_idle hmid hduring hidle] at hbusy
    exact hbusy hidle
  rcases hfirst.call hbusy₁ with ⟨hvacates, hm₁⟩ | ⟨hvacates, hm₁, id', version, claimant, hpc₁⟩
  · obtain ⟨m₂, hm₂, hkept⟩ := Node.kept_of_run hmid hduring
      (Run.cons hfirst (Run.nil node₁)) hm₁ (Or.inl rfl) hbusy
    rw [hmanager] at hm₂
    obtain rfl := Option.some.inj hm₂
    exact ⟨iff_of_true (hkept.append [last]) hvacates, fun h => absurd h hvacates⟩
  · -- The patch is the only await of a vacate.
    have hmid₁ : mid = node₁ := by
      cases hmid with
      | nil => rfl
      | cons hstep hlater =>
          have hidle := hstep.vacating hpc₁
          have hcalls := (List.forall_mem_cons.mp hduring).2
          rw [Node.eq_of_run_of_idle hlater hcalls hidle] at hbusy
          exact absurd hidle hbusy
    have hstate : m'.state = ⟨m.state.meta, none⟩ := by
      rw [hmid₁, hm₁] at hmanager
      rw [← Option.some.inj hmanager]
    have hlost : ¬ Node.Kept profile m (⟨now, id, .call op, ret⟩ :: (during ++ [last]))
        m'.state := by
      rintro (hsame | hread)
      · obtain ⟨claimant, claim, -, hclaim, -⟩ := hvacates
        rw [← hsame, hstate] at hclaim
        cases hclaim
      · exact Node.not_readDuring_of_vacating hfirst hpc₁
          (List.forall_mem_append.mpr ⟨hduring, by simpa using hlast⟩) rfl hread
    refine ⟨iff_of_false hlost (not_not_intro hvacates), ?_⟩
    intro _ later claimant params
    rw [hstate]
    rfl

/-- A manager that has read version "1" of an unclaimed lease. -/
def unclaimedManager : LeaseManager := ⟨⟨⟨"1", 0⟩, none⟩, none⟩

/-- Alice's first write meets a conflict, the resource is read again, and the caller
gives up while the second write is answered. -/
def claimDropped : List NodeEvent :=
  [⟨exampleNow, 0, .call (.ensureClaimed "alice" default), none⟩,
    ⟨exampleNow, 1, .resume, none⟩, ⟨exampleNow, 2, .resume, none⟩,
    ⟨exampleNow, 3, .response (.error conflictError), none⟩,
    ⟨exampleNow, 4, .response (.ok ⟨some "2", some {}⟩), none⟩,
    ⟨exampleNow, 5, .resume, none⟩, ⟨exampleNow, 6, .resume, none⟩,
    ⟨exampleNow, 7, .cancel, none⟩]

/-- The version that was read after the conflict stays in the cache. -/
theorem dropped_claim_keeps_read_state :
    FailedCall .release unclaimedManager exampleNow (.ensureClaimed "alice" default)
        claimDropped ⟨⟨⟨"2", 0⟩, none⟩, none⟩ ∧
      Node.Kept .release unclaimedManager claimDropped ⟨⟨"2", 0⟩, none⟩ := by
  have hcall : FailedCall .release unclaimedManager exampleNow
      (.ensureClaimed "alice" default) claimDropped ⟨⟨⟨"2", 0⟩, none⟩, none⟩ := by
    constructor
    · exact .cons ⟨_, rfl, rfl, rfl⟩ (.cons ⟨_, rfl, rfl, rfl⟩ (.cons ⟨_, rfl, rfl, rfl⟩
        (.cons ⟨_, rfl, rfl, rfl⟩ (.cons ⟨_, rfl, rfl, rfl⟩ (.cons ⟨_, rfl, rfl, rfl⟩
          (.cons ⟨_, rfl, rfl, rfl⟩ (.cons ⟨_, rfl, rfl, rfl⟩ (.nil _))))))))
    · refine ⟨0, none, claimDropped.tail.dropLast, ⟨exampleNow, 7, .cancel, none⟩, rfl,
        ?_, ?_, Or.inl rfl⟩
      · simp [claimDropped, NodeEvent.IsCall]
      · simp [NodeEvent.IsCall]
  refine ⟨hcall, (failed_call_kept_iff hcall).1.mpr ?_⟩
  rintro ⟨claimant, claim, hop, -⟩
  cases hop

/-- Alice's manager after her first write. -/
def aliceManager : LeaseManager :=
  ⟨⟨⟨"2", 1⟩, some ⟨"alice", ⟨1700000030000000000, by decide, by decide⟩⟩⟩, none⟩

/-- Alice's vacate times out. -/
def vacateTimesOut : List NodeEvent :=
  [⟨exampleNow, 6, .call (.vacate "alice"), none⟩,
    ⟨exampleNow, 7, .response (.error .timeout),
      some (.vacate (.error (.error .timeout)))⟩]

/-- Bob claims the lease with alice's manager. -/
def bobClaimsNext : List (Action Bool) :=
  [.call false (.ensureClaimed "bob" default), .resume false, .resume false,
    .apply ⟨10, false, .patch (.claim ⟨.acquire, "2", "bob",
      (default : ClaimParams).leaseDelta, exampleNow, 2⟩)⟩ "3"]

/-- A vacate that times out has lost alice's claim from the cache.  The server still
records it, and bob takes the lease over before it expires. -/
theorem vacate_timeout_loses_claim :
    FailedCall .release aliceManager exampleNow (.vacate "alice") vacateTimesOut
        { aliceManager with state := ⟨⟨"2", 1⟩, none⟩ } ∧
      ¬ Node.Kept .release aliceManager vacateTimesOut ⟨⟨"2", 1⟩, none⟩ ∧
      ∃ s t u : Sys Bool, Run (Sys.Step .release) exampleStart aliceClaims s ∧
        Run (Sys.Step .release) s [.call false (.vacate "alice"), .fail false .timeout] t ∧
        Run (Sys.Step .release) t bobClaimsNext u ∧
        s.nodes false = ⟨some aliceManager, .idle⟩ ∧
        t.nodes false = ⟨some { aliceManager with state := ⟨⟨"2", 1⟩, none⟩ }, .idle⟩ ∧
        holderOf t.server.value = some "alice" ∧
        expiryOf t.server.value = some 1700000030000000000 ∧
        u.now.nanos < 1700000030000000000 ∧ holderOf u.server.value = some "bob" := by
  have hcall : FailedCall .release aliceManager exampleNow (.vacate "alice")
      vacateTimesOut { aliceManager with state := ⟨⟨"2", 1⟩, none⟩ } := by
    constructor
    · exact .cons ⟨_, rfl, rfl, rfl⟩ (.cons ⟨_, rfl, rfl, rfl⟩ (.nil _))
    · refine ⟨6, none, [], _, rfl, ?_, ?_, Or.inr ⟨_, _, rfl, rfl⟩⟩
      · simp
      · simp [NodeEvent.IsCall]
  have hlost : ¬ Node.Kept .release aliceManager vacateTimesOut ⟨⟨"2", 1⟩, none⟩ := by
    rintro (hsame | hread)
    · cases hsame
    · cases hcall.run with
      | cons hfirst _ =>
          obtain ⟨effect, hstep, -, rfl⟩ := id hfirst
          obtain rfl := Option.some.inj hstep
          exact Node.not_readDuring_of_vacating hfirst rfl (by simp [NodeEvent.IsCall])
            rfl hread
  obtain ⟨s, hs⟩ := Option.isSome_iff_exists.mp
    (show (execAll (Sys.step? .release) exampleStart aliceClaims).isSome = true by
      decide +kernel)
  obtain ⟨t, ht⟩ := Option.isSome_iff_exists.mp
    (show (execAll (Sys.step? .release) exampleStart (aliceClaims ++
      [.call false (.vacate "alice"), .fail false .timeout])).isSome = true by
        decide +kernel)
  obtain ⟨u, hu⟩ := Option.isSome_iff_exists.mp
    (show (execAll (Sys.step? .release) exampleStart ((aliceClaims ++
      [.call false (.vacate "alice"), .fail false .timeout]) ++ bobClaimsNext)).isSome =
        true by decide +kernel)
  have hst := ht
  rw [execAll_append, hs, Option.bind_some] at hst
  have htu := hu
  rw [execAll_append, ht, Option.bind_some] at htu
  refine ⟨hcall, hlost, s, t, u, run_of_execAll (fun _ _ _ h => h) hs,
    run_of_execAll (fun _ _ _ h => h) hst, run_of_execAll (fun _ _ _ h => h) htu,
    ?_, ?_, ?_, ?_, ?_, ?_⟩
  · exact eq_of_execAll_map (fun s : Sys Bool => s.nodes false) hs (by decide +kernel)
  · exact eq_of_execAll_map (fun s : Sys Bool => s.nodes false) ht (by decide +kernel)
  · exact eq_of_execAll_map (fun s : Sys Bool => holderOf s.server.value) ht
      (by decide +kernel)
  · exact eq_of_execAll_map (fun s : Sys Bool => expiryOf s.server.value) ht
      (by decide +kernel)
  · have hnow : u.now.nanos = 1700000000000000000 :=
      eq_of_execAll_map (fun s : Sys Bool => s.now.nanos) hu (by decide +kernel)
    omega
  · exact eq_of_execAll_map (fun s : Sys Bool => holderOf s.server.value) hu
      (by decide +kernel)

end Lease
end Kubert
