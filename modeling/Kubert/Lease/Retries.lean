import Kubert.Foundation.Population
import Kubert.Lease.System

/-!
# How often `ensure_claimed` tries again

`ensure_claimed` patches the resource against the version it has cached.  If the
version is outdated it reads the resource and goes round its loop again, with no limit
on the number of rounds.  What limits it is that a patch against the version that was
just read can only meet a conflict if somebody else has written in between.

`Doomed` says that the round in progress is on its way to a conflict, or has met one.
The call pays for a `get` with a round that is doomed, and a round becomes doomed only
by a write of somebody else: `gets ≤ writes + 1` always, and `gets ≤ writes` in a
doomed round (`Retrying`).  The first round may start with any cached version.

Everybody may write: the managers, among them earlier calls on the same manager whose
requests are still under way, and clients that are none of them.
-/

namespace Kubert
namespace Lease

open Foundation

variable {ι : Type} [DecidableEq ι]

/-! ## What is counted -/

/-- The manager and the input that an action feeds to it. -/
def Action.input? {ι : Type} : Action ι → Option (ι × Input)
  | .call i op => some (i, .call op)
  | .resume i => some (i, .resume)
  | .cancel i => some (i, .cancel)
  | .deliver i result => some (i, .response result)
  | .fail i e => some (i, .response (.error e))
  | _ => none

/-- The request that an action sends. -/
def Sys.sent {ι : Type} (profile : Profile) (s : Sys ι) (a : Action ι) : Option Body :=
  a.input?.bind fun x => ((s.nodes x.1).step profile s.now s.nextId x.2).bind Effect.send

/-- What happens to the system: an action, with the request that it sends, or a write
by a client that is none of the managers. -/
inductive Occurrence (ι : Type)
  | action (a : Action ι) (sent : Option Body)
  | write (version : String) (spec : Option LeaseSpec)

/-- The step relation among writes of other clients. -/
def Sys.Occurs (profile : Profile) (s : Sys ι) : Occurrence ι → Sys ι → Prop
  | .action a sent, t => Sys.Step profile s a t ∧ sent = s.sent profile a
  | .write version spec, t =>
      version ∉ s.server.issued ∧ t = { s with server := s.server.write version spec }

namespace Occurrence

/-- A step of this manager. -/
def isStepOf (i : ι) : Occurrence ι → Bool
  | action a _ => a.actor == some i
  | write _ _ => false

/-- This manager sends a `get`. -/
def isGetOf (i : ι) : Occurrence ι → Bool
  | action a (some .get) => a.actor == some i
  | _ => false

/-- This manager sends a patch. -/
def isPatchOf (i : ι) : Occurrence ι → Bool
  | action a (some (.patch _)) => a.actor == some i
  | _ => false

/-- The resource is changed, and not by a request that this manager has sent under
this number or a later one. -/
def isForeign (i : ι) (first : Nat) : Occurrence ι → Bool
  | action (.apply req _) _ => !(req.sender == i && first ≤ req.id)
  | write _ _ => true
  | _ => false

/-- This manager is called. -/
def IsCallOf {ι : Type} (i : ι) (o : Occurrence ι) : Prop :=
  ∃ op sent, o = action (.call i op) sent

theorem isGetOf_action_iff {i : ι} {a : Action ι} {sent : Option Body}
    (hactor : a.actor = some i) : (action a sent).isGetOf i = true ↔ sent = some .get := by
  unfold isGetOf
  split
  · rename_i heq
    simp_all
  · rename_i hother
    constructor
    · nofun
    · rintro rfl
      exact absurd rfl (hother a)

/-- Only a step of a manager sends its requests. -/
theorem sends_of_isStepOf_eq_false {i : ι} {o : Occurrence ι} (h : o.isStepOf i = false) :
    o.isGetOf i = false ∧ o.isPatchOf i = false := by
  unfold isStepOf at h
  unfold isGetOf isPatchOf
  split at h
  · rename_i a sent
    cases sent with
    | none => exact ⟨rfl, rfl⟩
    | some body =>
        cases body with
        | get => exact ⟨h, rfl⟩
        | patch call => exact ⟨rfl, h⟩
  · exact ⟨rfl, rfl⟩

end Occurrence

omit [DecidableEq ι] in
theorem Sys.Feeds.input? {s : Sys ι} {a : Action ι} {i : ι} {input : Input}
    (hfeeds : s.Feeds a i input) : a.input? = some (i, input) := by
  cases hfeeds <;> rfl

omit [DecidableEq ι] in
/-- A step of a node sends what comes out of it. -/
theorem Sys.sent_eq {profile : Profile} {s : Sys ι} {a : Action ι} {i : ι}
    {input : Input} {effect : Effect} (hfeeds : s.Feeds a i input)
    (hstep : (s.nodes i).step profile s.now s.nextId input = some effect) :
    s.sent profile a = effect.send := by
  unfold Sys.sent
  rw [hfeeds.input?, Option.bind_some, hstep, Option.bind_some]

/-! ## The rounds of the loop -/

/-- How far a call has come: the steps, the `get`s and the patches of its manager,
at each point of the program. -/
def Phase (steps gets patches : Nat) : Pc → Prop
  | .ensuring _ _ => steps ≤ 4 * gets + 1 ∧ patches ≤ gets
  | .renewing _ _ => steps ≤ 4 * gets + 2 ∧ patches ≤ gets
  | .acquiring _ _ => steps ≤ 4 * gets + 2 ∧ patches ≤ gets
  | .claiming _ _ _ => steps ≤ 4 * gets + 3 ∧ patches ≤ gets + 1
  | .getting _ (.resync _ _) => steps ≤ 4 * gets ∧ patches ≤ gets
  | .idle => steps ≤ 4 * gets + 4 ∧ patches ≤ gets + 1
  | _ => False

/-- A round takes three steps up to its patch. -/
theorem Phase.busy {steps gets patches : Nat} {pc : Pc} (h : Phase steps gets patches pc)
    (hpc : pc ≠ .idle) : steps ≤ 4 * gets + 3 ∧ patches ≤ gets + 1 := by
  cases pc with
  | idle => exact absurd rfl hpc
  | getting id caller =>
      cases caller with
      | resync claimant params =>
          obtain ⟨hsteps, hpatches⟩ := h
          omega
      | init | sync => exact h.elim
  | vacating => exact h.elim
  | ensuring | renewing | acquiring | claiming =>
      obtain ⟨hsteps, hpatches⟩ := h
      omega

theorem Phase.bounds {steps gets patches : Nat} {pc : Pc} (h : Phase steps gets patches pc) :
    steps ≤ 4 * gets + 4 ∧ patches ≤ gets + 1 := by
  by_cases hpc : pc = .idle
  · rw [hpc] at h
    exact h
  · obtain ⟨hsteps, hpatches⟩ := h.busy hpc
    omega

/-- The call goes on by one step. -/
theorem Node.step_phase {profile : Profile} {now : DateTime} {id : Nat} {node : Node}
    {input : Input} {effect : Effect} {steps gets patches : Nat}
    (hstep : node.step profile now id input = some effect)
    (hcall : ∀ op, input ≠ .call op) (hphase : Phase steps gets patches node.pc) :
    match effect.send with
    | none => Phase (steps + 1) gets patches effect.node.pc
    | some .get => Phase (steps + 1) (gets + 1) patches effect.node.pc
    | some (.patch _) => Phase (steps + 1) gets (patches + 1) effect.node.pc := by
  have hended : Phase (steps + 1) gets patches .idle := by
    obtain ⟨hsteps, hpatches⟩ := hphase.busy (step_pc_ne_idle hstep hcall)
    exact ⟨by omega, hpatches⟩
  cases step_moves hstep with
  | init | withDiagnostics | sync | ensureClaimed | vacateSkipped | vacateSent =>
      exact absurd rfl (hcall _)
  | @due _ _ _ kind hpc =>
      rw [hpc] at hphase
      obtain ⟨hsteps, hpatches⟩ := hphase
      cases kind with
      | acquire => exact ⟨by omega, hpatches⟩
      | renew => exact ⟨by omega, hpatches⟩
  | renewSent hpc | acquireSent hpc | gotResync hpc | conflicted hpc =>
      rw [hpc] at hphase
      obtain ⟨hsteps, hpatches⟩ := hphase
      exact ⟨by omega, by omega⟩
  | _ => exact hended

/-! ## Rounds that cannot succeed -/

/-- The round in progress is on its way to a conflict, or has met one. -/
def Doomed (s : Sys ι) (i : ι) : Prop :=
  match (s.nodes i).pc with
  | .ensuring _ _ | .renewing _ _ | .acquiring _ _ =>
      ∃ m, (s.nodes i).manager = some m ∧ m.state.meta.version ≠ s.server.version
  | .claiming id write _ =>
      ((∃ req ∈ s.requests, req.id = id) ∧ write.version ≠ s.server.version) ∨
        ∃ resp ∈ s.responses, resp.request.id = id ∧
          ∃ e, resp.result = .error e ∧ isConflict e = true
  | .getting id _ =>
      ∃ resp ∈ s.responses, resp.request.id = id ∧
        ∃ lease, resp.result = .ok lease ∧
          lease.resourceVersion ≠ some s.server.version
  | _ => False

/-- What is under way on behalf of a call that has begun at this number. -/
structure Underway (i : ι) (first : Nat) (s : Sys ι) : Prop where
  numbered : s.Numbered
  distinct : s.Distinct
  started : first ≤ s.nextId
  manager : (s.nodes i).manager.isSome = true
  awaited : ∀ id body, (s.nodes i).awaits = some (id, body) →
    id < s.nextId ∧ ∀ req ∈ s.requests, req.id = id → req.body = body
  own : (s.nodes i).pc ≠ .idle → ∀ req ∈ s.requests, req.sender = i → first ≤ req.id →
    (s.nodes i).awaits = some (req.id, req.body)

section Own

variable {profile : Profile} {i : ι} {first : Nat} {s : Sys ι} {a : Action ι}
  {input : Input} {effect : Effect}

omit [DecidableEq ι] in
/-- A call that goes on after an await has got the answer. -/
theorem delivered_of_busy {id : Nat} {body : Body} (hfeeds : s.Feeds a i input)
    (hstep : (s.nodes i).step profile s.now s.nextId input = some effect)
    (hcall : ∀ op, input ≠ .call op) (hawaits : (s.nodes i).awaits = some (id, body))
    (hbusy : effect.node.pc ≠ .idle) :
    ∃ result, input = .response result ∧ ⟨⟨id, i, body⟩, result⟩ ∈ s.responses := by
  cases hfeeds with
  | call i op => exact absurd rfl (hcall op)
  | resume =>
      unfold Node.awaits at hawaits
      cases Node.step_moves hstep with
      | returned hpc | headPanicked hpc | due hpc | renewSent hpc | acquireSent hpc
      | acquirePanicked hpc =>
          rw [hpc] at hawaits
          cases hawaits
  | cancel =>
      cases Node.step_moves hstep with
      | cancelled => exact absurd rfl hbusy
  | deliver hawait hresponse =>
      rw [hawaits] at hawait
      obtain ⟨rfl, rfl⟩ := Prod.mk.inj (Option.some.inj hawait)
      exact ⟨_, rfl, hresponse⟩
  | fail _ hconflict =>
      cases Node.step_moves hstep with
      | getFailed | claimFailed | vacateFailed => exact absurd rfl hbusy
      | conflicted _ _ hconflict' =>
          rw [hconflict] at hconflict'
          cases hconflict'

theorem Underway.advance (hunder : Underway i first s) (hfeeds : s.Feeds a i input)
    (hstep : (s.nodes i).step profile s.now s.nextId input = some effect)
    (hcall : ∀ op, input ≠ .call op) : Underway i first (s.advance i effect) where
  numbered := hunder.numbered.advance i effect
  distinct := hunder.distinct.advance hunder.numbered i effect
  started := Nat.le_succ_of_le hunder.started
  manager := by
    rw [Sys.advance_nodes_self]
    exact Node.step_manager_isSome hstep hunder.manager
  awaited := by
    intro id body hawaits
    rw [Sys.advance_nodes_self, Node.step_awaits hstep] at hawaits
    obtain ⟨sent, hsent, hpair⟩ := Option.map_eq_some_iff.mp hawaits
    obtain ⟨rfl, rfl⟩ := Prod.mk.inj hpair
    refine ⟨Nat.lt_succ_self _, ?_⟩
    intro req hreq hid
    rcases Sys.mem_advance_requests.mp hreq with hold | ⟨body, hbody, rfl⟩
    · have hlt := hunder.numbered.request req hold
      exact absurd hid hlt.ne
    · rw [hsent] at hbody
      exact (Option.some.inj hbody).symm
  own := by
    intro hbusy req hreq hsender hfirst
    rw [Sys.advance_nodes_self] at hbusy ⊢
    rcases Sys.mem_advance_requests.mp hreq with hold | ⟨body, hbody, rfl⟩
    · -- What was awaited has been answered, and nothing else was under way.
      have hawaits := hunder.own (Node.step_pc_ne_idle hstep hcall) req hold hsender hfirst
      obtain ⟨result, -, hresponse⟩ := delivered_of_busy hfeeds hstep hcall hawaits hbusy
      exact (hunder.distinct.not_answered hold hresponse rfl).elim
    · rw [Node.step_awaits hstep, hbody]
      rfl

/-- A `get` is paid for by a doomed round, and every other step leaves a doomed round
behind only where it found one. -/
theorem Underway.doomed_advance (hunder : Underway i first s) (hfeeds : s.Feeds a i input)
    (hstep : (s.nodes i).step profile s.now s.nextId input = some effect)
    (hcall : ∀ op, input ≠ .call op) :
    (Doomed (s.advance i effect) i → Doomed s i ∧ effect.send ≠ some .get) ∧
      (effect.send = some .get → Doomed s i) := by
  have hfresh : ∀ resp ∈ s.responses, resp.request.id ≠ s.nextId := by
    intro resp hresp
    exact (hunder.numbered.response resp hresp).ne
  unfold Doomed
  rw [Sys.advance_nodes_self]
  cases Node.step_moves hstep with
  | init | withDiagnostics | sync | ensureClaimed | vacateSkipped | vacateSent =>
      exact absurd rfl (hcall _)
  | @due m claimant params kind hpc hm =>
      rw [hpc, hm]
      cases kind with
      | acquire => exact ⟨fun h => ⟨h, nofun⟩, nofun⟩
      | renew => exact ⟨fun h => ⟨h, nofun⟩, nofun⟩
  | renewSent hpc hm =>
      rw [hpc, hm]
      refine ⟨?_, nofun⟩
      rintro (⟨-, hversion⟩ | ⟨resp, hresp, hid, -⟩)
      · exact ⟨⟨_, rfl, hversion⟩, nofun⟩
      · exact absurd hid (hfresh resp hresp)
  | acquireSent hpc hm hwrite =>
      rw [hpc, hm]
      refine ⟨?_, nofun⟩
      obtain ⟨transitions, -, rfl⟩ := Option.map_eq_some_iff.mp hwrite
      rintro (⟨-, hversion⟩ | ⟨resp, hresp, hid, -⟩)
      · exact ⟨⟨_, rfl, hversion⟩, nofun⟩
      · exact absurd hid (hfresh resp hresp)
  | conflicted hpc hm hconflict =>
      rw [hpc]
      obtain ⟨result, hinput, hresponse⟩ := delivered_of_busy hfeeds hstep hcall
        (by rw [Node.awaits_claim_iff.mpr ⟨_, hpc⟩]) nofun
      obtain rfl := Input.response.inj hinput
      refine ⟨?_, fun _ => Or.inr ⟨_, hresponse, rfl, _, rfl, hconflict⟩⟩
      rintro ⟨resp, hresp, hid, -⟩
      exact absurd hid (hfresh resp hresp)
  | gotResync hpc hm hget =>
      rw [hpc]
      obtain ⟨result, hinput, hresponse⟩ := delivered_of_busy hfeeds hstep hcall
        (by rw [Node.awaits_get_iff.mpr ⟨_, hpc⟩]) nofun
      obtain rfl := Input.response.inj hinput
      refine ⟨?_, nofun⟩
      rintro ⟨m, hm', hversion⟩
      obtain rfl := Option.some.inj hm'
      refine ⟨⟨_, hresponse, rfl, _, rfl, ?_⟩, nofun⟩
      rw [(get_ok hget).1]
      intro hsame
      exact hversion (Option.some.inj hsame)
  | _ => exact ⟨nofun, nofun⟩

end Own

/-! ## What happens elsewhere -/

/-- This manager does not move, and only others send requests. -/
structure Elsewhere (i : ι) (s t : Sys ι) : Prop where
  node : t.nodes i = s.nodes i
  nextId : s.nextId ≤ t.nextId
  requests : ∀ req ∈ t.requests, req ∈ s.requests ∨ (req.sender ≠ i ∧ req.id = s.nextId)

section Elsewhere

variable {profile : Profile} {i : ι} {first : Nat} {s t : Sys ι}

theorem elsewhere_of_cases {a : Action ι} {ret : Option Return}
    (hcases : Sys.Cases profile s a t ret) (hactor : a.actor ≠ some i) :
    Elsewhere i s t := by
  cases hcases with
  | @node _ j input effect hfeeds hstep =>
      have hne : i ≠ j := by
        rintro rfl
        exact hactor hfeeds.actor
      refine ⟨by simp [Sys.advance, hne], Nat.le_succ _, ?_⟩
      intro req hreq
      rcases Sys.mem_advance_requests.mp hreq with hold | ⟨body, -, rfl⟩
      · exact Or.inl hold
      · exact Or.inr ⟨hne.symm, rfl⟩
  | tick => exact ⟨rfl, le_refl _, fun _ hreq => Or.inl hreq⟩
  | serve | apply | conflict | refuse | lose =>
      exact ⟨rfl, le_refl _, fun _ hreq => Or.inl (List.mem_of_mem_erase hreq)⟩

omit [DecidableEq ι] in
theorem Underway.elsewhere (hunder : Underway i first s) (helse : Elsewhere i s t)
    (hnumbered : t.Numbered) (hdistinct : t.Distinct) : Underway i first t where
  numbered := hnumbered
  distinct := hdistinct
  started := hunder.started.trans helse.nextId
  manager := by
    rw [helse.node]
    exact hunder.manager
  awaited := by
    intro id body hawaits
    rw [helse.node] at hawaits
    obtain ⟨hlt, hbody⟩ := hunder.awaited id body hawaits
    refine ⟨hlt.trans_le helse.nextId, ?_⟩
    intro req hreq hid
    rcases helse.requests req hreq with hold | ⟨-, hnext⟩
    · exact hbody req hold hid
    · omega
  own := by
    intro hbusy req hreq hsender hfirst
    rw [helse.node] at hbusy ⊢
    rcases helse.requests req hreq with hold | ⟨hne, -⟩
    · exact hunder.own hbusy req hold hsender hfirst
    · exact absurd hsender hne

/-- An answer dooms a round only if it is the awaited one, and a conflict or an outdated
version. -/
theorem doomed_of_answer {req : Request ι} {result : Except Error LeaseResource}
    (hdoomed : Doomed (s.answer req result) i) :
    Doomed s i ∨
      (∃ id write params, (s.nodes i).pc = .claiming id write params ∧ req.id = id ∧
        ∃ e, result = .error e ∧ isConflict e = true) ∨
      ∃ lease, result = .ok lease ∧ lease.resourceVersion ≠ some s.server.version := by
  have hnode : (s.answer req result).nodes i = s.nodes i := rfl
  unfold Doomed at hdoomed ⊢
  rw [hnode] at hdoomed
  cases hpc : (s.nodes i).pc with
  | idle | vacating =>
      rw [hpc] at hdoomed
      exact hdoomed.elim
  | ensuring | renewing | acquiring =>
      rw [hpc] at hdoomed
      exact Or.inl hdoomed
  | claiming id write params =>
      rw [hpc] at hdoomed
      rcases hdoomed with ⟨⟨r, hr, hid⟩, hversion⟩ | ⟨resp, hresp, hid, e, hresult, hconflict⟩
      · exact Or.inl (Or.inl ⟨⟨r, List.mem_of_mem_erase hr, hid⟩, hversion⟩)
      · rcases List.mem_cons.mp hresp with rfl | hold
        · exact Or.inr (Or.inl ⟨id, write, params, rfl, hid, e, hresult, hconflict⟩)
        · exact Or.inl (Or.inr ⟨resp, hold, hid, e, hresult, hconflict⟩)
  | getting id caller =>
      rw [hpc] at hdoomed
      obtain ⟨resp, hresp, hid, lease, hresult, hversion⟩ := hdoomed
      rcases List.mem_cons.mp hresp with rfl | hold
      · exact Or.inr (Or.inr ⟨lease, hresult, hversion⟩)
      · exact Or.inl ⟨resp, hold, hid, lease, hresult, hversion⟩

/-- When the patch of the call itself is applied, its round is not doomed. -/
theorem Underway.not_doomed_of_applied (hunder : Underway i first s) {req : Request ι}
    {call : PatchCall} {lease : LeaseResource} (server : Server)
    (hmem : req ∈ s.requests) (hbody : req.body = .patch call) (hsender : req.sender = i)
    (hfirst : first ≤ req.id) :
    ¬ Doomed ({ s with server := server }.answer req (.ok lease)) i := by
  intro hdoomed
  have hnode : ({ s with server := server }.answer req (.ok lease)).nodes i = s.nodes i := rfl
  unfold Doomed at hdoomed
  rw [hnode] at hdoomed
  have hawaits := hunder.own (fun hidle => by rw [hidle] at hdoomed; exact hdoomed.elim)
    req hmem hsender hfirst
  rw [hbody] at hawaits
  cases call with
  | vacate version claimant =>
      rw [Node.awaits_vacate_iff.mp hawaits] at hdoomed
      exact hdoomed
  | claim write =>
      obtain ⟨params, hpc⟩ := Node.awaits_claim_iff.mp hawaits
      rw [hpc] at hdoomed
      rcases hdoomed with ⟨⟨r, hr, hid⟩, -⟩ | ⟨resp, hresp, hid, e, hresult, -⟩
      · exact hunder.distinct.ne_of_mem_erase hmem hr hid
      · rcases List.mem_cons.mp hresp with rfl | hold
        · cases hresult
        · exact hunder.distinct.not_answered hmem hold hid.symm

omit [DecidableEq ι] in
/-- Without an answer or a write no round becomes doomed. -/
theorem Underway.doomed_of_quiet (hunder : Underway i first s) (helse : Elsewhere i s t)
    (hserver : t.server = s.server) (hresponses : t.responses = s.responses)
    (hdoomed : Doomed t i) : Doomed s i := by
  unfold Doomed at hdoomed ⊢
  rw [helse.node, hserver, hresponses] at hdoomed
  cases hpc : (s.nodes i).pc with
  | claiming id write params =>
      rw [hpc] at hdoomed
      rcases hdoomed with ⟨⟨req, hreq, hid⟩, hversion⟩ | hconflict
      · obtain ⟨hlt, -⟩ := hunder.awaited id _ (Node.awaits_claim_iff.mpr ⟨params, hpc⟩)
        rcases helse.requests req hreq with hold | ⟨-, hnext⟩
        · exact Or.inl ⟨⟨req, hold, hid⟩, hversion⟩
        · omega
      · exact Or.inr hconflict
  | idle | vacating | ensuring | renewing | acquiring | getting =>
      rw [hpc] at hdoomed
      exact hdoomed

/-- Unless the resource is changed by somebody else, a round does not become doomed
while the manager waits. -/
theorem Underway.doomed_of_cases {a : Action ι} {ret : Option Return} {sent : Option Body}
    (hunder : Underway i first s) (hcases : Sys.Cases profile s a t ret)
    (hactor : a.actor ≠ some i)
    (hforeign : (Occurrence.action a sent).isForeign i first = false)
    (hdoomed : Doomed t i) : Doomed s i := by
  have helse := elsewhere_of_cases hcases hactor
  cases hcases with
  | tick | node | lose => exact hunder.doomed_of_quiet helse rfl rfl hdoomed
  | serve hmem hbody =>
      rcases doomed_of_answer hdoomed with
        h | ⟨_, _, _, -, -, e, herror, -⟩ | ⟨lease, hok, hversion⟩
      · exact h
      · cases herror
      · obtain rfl := Except.ok.inj hok
        exact absurd rfl hversion
  | @apply req _ call _ hmem hbody =>
      have hown : req.sender = i ∧ first ≤ req.id := by
        simpa [Occurrence.isForeign] using hforeign
      exact (hunder.not_doomed_of_applied _ hmem hbody hown.1 hown.2 hdoomed).elim
  | @conflict req call hmem hbody hversion =>
      rcases doomed_of_answer hdoomed with h | ⟨id, write, params, hpc, hid, -⟩ | ⟨lease, hok, -⟩
      · exact h
      · obtain ⟨-, hawaited⟩ := hunder.awaited id _ (Node.awaits_claim_iff.mpr ⟨params, hpc⟩)
        have hsame := hawaited req hmem hid
        rw [hbody] at hsame
        obtain rfl := Body.patch.inj hsame
        unfold Doomed
        rw [hpc]
        exact Or.inl ⟨⟨req, hmem, hid⟩, hversion⟩
      · cases hok
  | refuse hmem hcode =>
      rcases doomed_of_answer hdoomed with
        h | ⟨_, _, _, -, -, e, herror, hconflict⟩ | ⟨lease, hok, -⟩
      · exact h
      · obtain rfl := Except.error.inj herror
        rw [hcode] at hconflict
        cases hconflict
      · cases hok

end Elsewhere

/-! ## The bound -/

/-- The counts of a call so far: a `get` has been paid for by a write of somebody else,
but for one, and in a doomed round without exception. -/
structure Retrying (i : ι) (first : Nat) (past : List (Occurrence ι)) (s : Sys ι) :
    Prop where
  underway : Underway i first s
  phase : Phase (past.countP (·.isStepOf i)) (past.countP (·.isGetOf i))
    (past.countP (·.isPatchOf i)) (s.nodes i).pc
  gets_le : past.countP (·.isGetOf i) ≤ past.countP (·.isForeign i first) + 1
  doomed : Doomed s i → past.countP (·.isGetOf i) ≤ past.countP (·.isForeign i first)

namespace Retrying

variable {profile : Profile} {i : ι} {first : Nat} {past : List (Occurrence ι)}
  {s t : Sys ι}

/-- The manager takes a step of the call. -/
theorem advance (h : Retrying i first past s) {a : Action ι} {input : Input}
    {effect : Effect} (hfeeds : s.Feeds a i input)
    (hstep : (s.nodes i).step profile s.now s.nextId input = some effect)
    (hcall : ∀ op, input ≠ .call op) :
    Retrying i first (past ++ [.action a effect.send]) (s.advance i effect) := by
  obtain ⟨hdoomed, hpaid⟩ := h.underway.doomed_advance hfeeds hstep hcall
  have hphase := Node.step_phase hstep hcall h.phase
  have hgets := h.gets_le
  have hactor := hfeeds.actor
  have hforeign : (Occurrence.action a effect.send).isForeign i first = false := by
    cases hfeeds <;> rfl
  refine ⟨h.underway.advance hfeeds hstep hcall, ?_, ?_, ?_⟩
  · rw [Sys.advance_nodes_self]
    simp only [countP_append_singleton]
    cases hsend : effect.send with
    | none =>
        rw [hsend] at hphase
        simpa [Occurrence.isStepOf, Occurrence.isGetOf, Occurrence.isPatchOf, hactor]
          using hphase
    | some body =>
        rw [hsend] at hphase
        cases body with
        | get =>
            simpa [Occurrence.isStepOf, Occurrence.isGetOf, Occurrence.isPatchOf, hactor]
              using hphase
        | patch call =>
            simpa [Occurrence.isStepOf, Occurrence.isGetOf, Occurrence.isPatchOf, hactor]
              using hphase
  · simp only [countP_append_singleton, hforeign, Bool.toNat_false]
    by_cases hsend : effect.send = some .get
    · have hfew := h.doomed (hpaid hsend)
      rw [(Occurrence.isGetOf_action_iff hactor).mpr hsend, Bool.toNat_true]
      omega
    · rw [Bool.eq_false_of_not_eq_true (mt (Occurrence.isGetOf_action_iff hactor).mp hsend),
      Bool.toNat_false]
      omega
  · intro hafter
    obtain ⟨hbefore, hsend⟩ := hdoomed hafter
    have hfew := h.doomed hbefore
    simp only [countP_append_singleton, hforeign, Bool.toNat_false]
    rw [Bool.eq_false_of_not_eq_true (mt (Occurrence.isGetOf_action_iff hactor).mp hsend),
      Bool.toNat_false]
    omega

/-- Something happens elsewhere, and the resource is not changed by somebody else. -/
theorem elsewhere (h : Retrying i first past s) {o : Occurrence ι}
    (hunder : Underway i first t) (hnode : t.nodes i = s.nodes i)
    (hstep : o.isStepOf i = false)
    (hdoomed : o.isForeign i first = false → Doomed t i → Doomed s i) :
    Retrying i first (past ++ [o]) t := by
  obtain ⟨hget, hpatch⟩ := Occurrence.sends_of_isStepOf_eq_false hstep
  have hgets := h.gets_le
  refine ⟨hunder, ?_, ?_, ?_⟩
  · rw [hnode]
    simpa [countP_append_singleton, hstep, hget, hpatch] using h.phase
  · simp only [countP_append_singleton, hget, Bool.toNat_false]
    omega
  · intro hafter
    simp only [countP_append_singleton, hget, Bool.toNat_false]
    by_cases hforeign : o.isForeign i first = true
    · rw [hforeign, Bool.toNat_true]
      omega
    · have hfew := h.doomed (hdoomed (Bool.eq_false_of_not_eq_true hforeign) hafter)
      omega

/-- Whatever happens, the counts stay in order. -/
theorem occurs (h : Retrying i first past s) {o : Occurrence ι}
    (hoccurs : Sys.Occurs profile s o t) (hcall : ¬ o.IsCallOf i) :
    Retrying i first (past ++ [o]) t := by
  cases o with
  | write version spec =>
      obtain ⟨-, rfl⟩ := hoccurs
      have helse : Elsewhere i s { s with server := s.server.write version spec } :=
        ⟨rfl, le_refl _, fun _ hreq => Or.inl hreq⟩
      refine h.elsewhere (h.underway.elsewhere helse ?_ ?_) rfl rfl nofun
      · exact ⟨h.underway.numbered.request, h.underway.numbered.response⟩
      · exact h.underway.distinct
  | action a sent =>
      obtain ⟨hstep, rfl⟩ := hoccurs
      obtain ⟨ret, hcases⟩ := hstep.cases
      by_cases hactor : a.actor = some i
      · cases hcases with
        | @node _ j input effect hfeeds hnode =>
            obtain rfl : j = i := Option.some.inj (hfeeds.actor.symm.trans hactor)
            rw [Sys.sent_eq hfeeds hnode]
            refine h.advance hfeeds hnode ?_
            rintro op rfl
            cases hfeeds
            exact hcall ⟨op, _, rfl⟩
        | tick | serve | apply | conflict | refuse | lose => cases hactor
      · have helse := elsewhere_of_cases hcases hactor
        have hunder := h.underway.elsewhere helse
          (h.underway.numbered.cases hcases)
          (h.underway.distinct.cases h.underway.numbered hcases)
        refine h.elsewhere hunder helse.node (by simp [Occurrence.isStepOf, hactor]) ?_
        exact h.underway.doomed_of_cases hcases hactor

end Retrying

omit [DecidableEq ι] in
/-- A call in progress goes on by itself, or by the end of its timeout. -/
theorem Node.step_of_phase {steps gets patches : Nat} (profile : Profile)
    (now : DateTime) (id : Nat) {node : Node} (hphase : Phase steps gets patches node.pc)
    (hmanager : node.manager.isSome = true) (hpc : node.pc ≠ .idle) :
    (∃ effect, node.step profile now id .resume = some effect) ∨
      (node.awaits ≠ none ∧
        ∃ effect, node.step profile now id (.response (.error .timeout)) = some effect) := by
  obtain ⟨m, hm⟩ := Option.isSome_iff_exists.mp hmanager
  cases hpc' : node.pc with
  | idle => exact absurd hpc' hpc
  | vacating =>
      rw [hpc'] at hphase
      exact hphase.elim
  | ensuring claimant params =>
      left
      simp only [step, resume, hpc', hm]
      cases ensureClaimedHead now m.state claimant params <;> exact ⟨_, rfl⟩
  | renewing claimant params =>
      left
      simp only [step, resume, hpc', hm]
      exact ⟨_, rfl⟩
  | acquiring claimant params =>
      left
      simp only [step, resume, hpc', hm]
      cases acquire profile m.state.meta claimant params now <;> exact ⟨_, rfl⟩
  | claiming awaited write params =>
      right
      refine ⟨by simp [awaits, hpc'], ?_⟩
      simp [step, respond, hpc', hm, isConflict]
  | getting awaited caller =>
      right
      refine ⟨by simp [awaits, hpc'], ?_⟩
      simp [step, respond, hpc', get]

/-- The requests under way are numbered in every run among other clients. -/
theorem numbered_of_occurs {profile : Profile} {now : DateTime} {version : String}
    {spec : Option LeaseSpec} {before : List (Occurrence ι)} {s : Sys ι}
    (hrun : Run (Sys.Occurs profile) (Sys.initial now version spec) before s) :
    s.Numbered ∧ s.Distinct := by
  refine hrun.invariant (fun s => s.Numbered ∧ s.Distinct) ?_
    ⟨Sys.Numbered.initial now version spec, List.nodup_nil⟩
  rintro s o t ⟨hnumbered, hdistinct⟩ hoccurs
  cases o with
  | write version spec =>
      obtain ⟨-, rfl⟩ := hoccurs
      exact ⟨⟨hnumbered.request, hnumbered.response⟩, hdistinct⟩
  | action a sent =>
      obtain ⟨ret, hcases⟩ := hoccurs.1.cases
      exact ⟨hnumbered.cases hcases, hdistinct.cases hnumbered hcases⟩

/-- The system with another manager in the place of this one. -/
def Sys.install (s : Sys ι) (i : ι) (m : LeaseManager) : Sys ι :=
  { s with nodes := Function.update s.nodes i ⟨some m, .idle⟩ }

/-- A call of `ensure_claimed` has just begun. -/
theorem retrying_of_call {profile : Profile} {s t : Sys ι} {i : ι} {m : LeaseManager}
    {claimant : String} {params : ClaimParams} {sent : Option Body}
    (hnumbered : s.Numbered) (hdistinct : s.Distinct)
    (hoccurs : Sys.Occurs profile (s.install i m)
      (.action (.call i (.ensureClaimed claimant params)) sent) t) :
    Retrying i s.nextId [.action (.call i (.ensureClaimed claimant params)) sent] t := by
  obtain ⟨hstep, rfl⟩ := hoccurs
  obtain ⟨ret, hcases⟩ := hstep.cases
  cases hcases with
  | node hfeeds hnode =>
      have hsent := Sys.sent_eq hfeeds hnode
      cases hfeeds
      cases Node.step_moves hnode with
      | @ensureClaimed m' _ _ _ hm =>
          have hinstalled : (s.install i m).Numbered :=
            ⟨hnumbered.request, hnumbered.response⟩
          have hunder : Underway i s.nextId ((s.install i m).advance i
              ⟨⟨some m', .ensuring claimant params⟩, none, none⟩) := by
            constructor
            · exact hinstalled.advance i _
            · exact hdistinct
            · exact Nat.le_succ s.nextId
            · rw [Sys.advance_nodes_self]
              rfl
            · intro id body hawaits
              rw [Sys.advance_nodes_self] at hawaits
              cases hawaits
            · intro _ req hreq _ hfirst
              -- Every request under way is an earlier one.
              have hlt := hnumbered.request req hreq
              omega
          rw [hsent]
          refine ⟨hunder, ?_, ?_, ?_⟩
          · rw [Sys.advance_nodes_self]
            simp [Phase, Occurrence.isStepOf, Occurrence.isGetOf, Occurrence.isPatchOf,
              Action.actor]
          · simp [Occurrence.isGetOf]
          · intro _
            simp [Occurrence.isGetOf]

/-- The retries of `ensure_claimed` are bounded by the writes of others.  Whatever a
manager has cached, in any reachable state of the rest: while others change the
resource `k` times, a call of `ensure_claimed` sends at most `k + 2` patches and
`k + 1` `get`s; it takes no more than `4 * k + 7` steps, and as long as it has not
returned it can take the next one. -/
theorem retries_bounded_by_foreign_writes (profile : Profile) {now : DateTime}
    {version : String} {spec : Option LeaseSpec} {before : List (Occurrence ι)}
    {s t : Sys ι} (hreached : Run (Sys.Occurs profile) (Sys.initial now version spec) before s)
    {i : ι} {m : LeaseManager} {claimant : String} {params : ClaimParams}
    {sent : Option Body} {during : List (Occurrence ι)}
    (hrun : Run (Sys.Occurs profile) (s.install i m)
      (.action (.call i (.ensureClaimed claimant params)) sent :: during) t)
    (hcall : ∀ o ∈ during, ¬ o.IsCallOf i) :
    during.countP (·.isPatchOf i) ≤ during.countP (·.isForeign i s.nextId) + 2 ∧
      during.countP (·.isGetOf i) ≤ during.countP (·.isForeign i s.nextId) + 1 ∧
      during.countP (·.isStepOf i) ≤ 4 * during.countP (·.isForeign i s.nextId) + 7 ∧
      ((t.nodes i).pc ≠ .idle →
        ∃ u, Sys.Step profile t (.resume i) u ∨ Sys.Step profile t (.fail i .timeout) u) := by
  obtain ⟨hnumbered, hdistinct⟩ := numbered_of_occurs hreached
  cases hrun with
  | cons hfirst hrest =>
      have hbegun := retrying_of_call hnumbered hdistinct hfirst
      have hretrying := (hrest.restrict hcall).history_append (Retrying i s.nextId)
        (fun _ _ _ _ h hstep => h.occurs hstep.1 hstep.2) hbegun
      have hgets := hretrying.gets_le
      obtain ⟨hsteps, hpatches⟩ := hretrying.phase.bounds
      simp only [List.countP_append] at hgets hsteps hpatches
      have hcounted : [Occurrence.action (.call i (.ensureClaimed claimant params))
          sent].countP (·.isStepOf i) = 1 := by
        simp [Occurrence.isStepOf, Action.actor]
      have hwrites : [Occurrence.action (.call i (.ensureClaimed claimant params))
          sent].countP (·.isForeign i s.nextId) = 0 := by
        simp [Occurrence.isForeign]
      refine ⟨by omega, by omega, by omega, ?_⟩
      intro hbusy
      rcases Node.step_of_phase profile t.now t.nextId hretrying.phase
        hretrying.underway.manager hbusy with ⟨effect, hstep⟩ | ⟨hawaits, effect, hstep⟩
      · refine ⟨t.advance i effect, Or.inl ?_⟩
        simp [Sys.Step, Sys.step?, Sys.perform, Sys.nodeStep, hstep]
      · refine ⟨t.advance i effect, Or.inr ?_⟩
        simp [Sys.Step, Sys.step?, Sys.perform, Sys.nodeStep, hstep, hawaits, isConflict]

/-- What happens, as a function. -/
def Sys.occur? (profile : Profile) (s : Sys ι) : Occurrence ι → Option (Sys ι)
  | .action a sent => if sent = s.sent profile a then s.step? profile a else none
  | .write version spec =>
      if version ∉ s.server.issued then some { s with server := s.server.write version spec }
      else none

theorem occurs_of_occur? {profile : Profile} {s t : Sys ι} {o : Occurrence ι}
    (h : s.occur? profile o = some t) : Sys.Occurs profile s o t := by
  cases o with
  | action a sent =>
      simp only [Sys.occur?] at h
      split at h
      · rename_i hsent
        exact ⟨h, hsent⟩
      · cases h
  | write version spec =>
      simp only [Sys.occur?] at h
      split at h
      · rename_i hnew
        exact ⟨hnew, (Option.some.inj h).symm⟩
      · cases h

/-- Alice's manager has cached a version that is long gone. -/
def staleManager : LeaseManager := ⟨⟨⟨"0", 0⟩, none⟩, none⟩

/-- Her first write, against that version. -/
def staleAcquire : ClaimWrite := { aliceAcquire with version := "0" }

/-- Her first write meets a conflict; she reads the lease and writes again. -/
def claimAfterConflict : List (Occurrence Bool) :=
  [.action (.resume false) none,
    .action (.resume false) (some (.patch (.claim staleAcquire))),
    .action (.conflict ⟨2, false, .patch (.claim staleAcquire)⟩) none,
    .action (.deliver false (.error conflictError)) (some .get),
    .action (.serve ⟨3, false, .get⟩) none,
    .action (.deliver false (.ok ⟨some "1", some {}⟩)) none,
    .action (.resume false) none,
    .action (.resume false) (some (.patch (.claim aliceAcquire))),
    .action (.apply ⟨6, false, .patch (.claim aliceAcquire)⟩ "2") none,
    .action (.deliver false (.ok ⟨some "2", some aliceLease⟩)) none]

/-- Without writes of others the call ends after two patches and one `get`, and not
earlier. -/
theorem stale_claim_retried_once :
    ∃ t : Sys Bool, Run (Sys.Occurs .release) (exampleStart.install false staleManager)
        (.action (.call false (.ensureClaimed "alice" default)) none :: claimAfterConflict) t ∧
      (t.nodes false).pc = .idle ∧
      claimAfterConflict.countP (·.isForeign false 0) = 0 ∧
      2 ≤ claimAfterConflict.countP (·.isPatchOf false) ∧
      claimAfterConflict.countP (·.isPatchOf false) ≤ 0 + 2 ∧
      claimAfterConflict.countP (·.isGetOf false) ≤ 0 + 1 := by
  obtain ⟨t, ht⟩ := Option.isSome_iff_exists.mp
    (show (execAll (Sys.occur? .release) (exampleStart.install false staleManager)
      (.action (.call false (.ensureClaimed "alice" default)) none ::
        claimAfterConflict)).isSome = true by decide +kernel)
  have hrun : Run (Sys.Occurs .release) (exampleStart.install false staleManager)
      (.action (.call false (.ensureClaimed "alice" default)) none ::
        claimAfterConflict) t := by
    refine run_of_execAll ?_ ht
    intro s o t h
    exact occurs_of_occur? h
  have hcall : ∀ o ∈ claimAfterConflict, ¬ o.IsCallOf false := by
    simp [claimAfterConflict, Occurrence.IsCallOf]
  obtain ⟨hpatches, hgets, -⟩ := retries_bounded_by_foreign_writes .release
    (Run.nil exampleStart) hrun hcall
  refine ⟨t, hrun, ?_, by decide, by decide, hpatches, hgets⟩
  exact eq_of_execAll_map (fun s : Sys Bool => (s.nodes false).pc) ht (by decide +kernel)

end Lease
end Kubert
