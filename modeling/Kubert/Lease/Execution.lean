import Kubert.Lease.Manager

/-!
# One manager as a state machine

`Node.step` glues the pieces of `Manager` together: a program counter says where
the call that holds the lock stands, and every step reads the clock at most
once.  A call is cut

* at every await (`getting`, `claiming`, `vacating`), where other processes may
  run, the response may be lost and the future may be dropped, and
* between two clock readings (`ensuring`, `renewing`, `acquiring`), since the
  clock may advance between the test at the top of the loop and the `now` that
  is written.

The lock is held from the call to its return, so a node accepts a new call
only when it is idle.
-/

namespace Kubert
namespace Lease

/-- The public operations.  `init` creates the manager; `ensureClaimed` and
`vacate` may name any claimant on any call. -/
inductive Op
  | init
  | withDiagnostics (d : LeaseDiagnostics)
  | sync
  | ensureClaimed (claimant : String) (params : ClaimParams)
  | vacate (claimant : String)
deriving DecidableEq, Repr

/-- Who awaits the answer of `Self::get`. -/
inductive GetFor
  | init
  | sync
  | resync (claimant : String) (params : ClaimParams)
deriving DecidableEq, Repr

/-- Where the call holding the lock stands.  Awaited requests are identified by
the number they were sent under. -/
inductive Pc
  | idle
  | getting (id : Nat) (caller : GetFor)
  | ensuring (claimant : String) (params : ClaimParams)
  | renewing (claimant : String) (params : ClaimParams)
  | acquiring (claimant : String) (params : ClaimParams)
  | claiming (id : Nat) (write : ClaimWrite) (params : ClaimParams)
  | vacating (id : Nat) (version claimant : String)
deriving DecidableEq, Repr

/-- What a call returns to its caller. -/
inductive Return
  | init (result : Except Fault Unit)
  | unit
  | sync (result : Except Fault (Option Claim))
  | ensureClaimed (result : Except Fault Claim)
  | vacate (result : Except Fault Bool)

/-- A manager, before or after `init`, and the call in progress. -/
structure Node where
  manager : Option LeaseManager
  pc : Pc
deriving DecidableEq, Repr

/-- What drives a node on: a new call, the continuation of a computation, the
end of an await, or the caller dropping the future at an await. -/
inductive Input
  | call (op : Op)
  | resume
  | response (result : Except Error LeaseResource)
  | cancel

/-- The body of a request. -/
inductive Body
  | get
  | patch (call : PatchCall)
deriving DecidableEq, Repr

/-- What comes out of a node's step: the new node, the request it sends and
the result it returns. -/
structure Effect where
  node : Node
  send : Option Body := none
  ret : Option Return := none

/-- The caller of `Self::get` receives its error. -/
def GetFor.fail : GetFor → Fault → Return
  | .init, f => .init (.error f)
  | .sync, f => .sync (.error f)
  | .resync _ _, f => .ensureClaimed (.error f)

/-- Where the caller of `Self::get` goes on. -/
def GetFor.next : GetFor → Pc
  | .resync claimant params => .ensuring claimant params
  | _ => .idle

/-- Where the loop of `ensure_claimed` goes on to a write of this kind. -/
def ClaimKind.pc (claimant : String) (params : ClaimParams) : ClaimKind → Pc
  | .acquire => .acquiring claimant params
  | .renew => .renewing claimant params

namespace Node

/-- A call takes the lock. -/
def call (now : DateTime) (id : Nat) (node : Node) (op : Op) : Option Effect :=
  match node.pc, node.manager, op with
  | .idle, none, .init => some ⟨⟨none, .getting id .init⟩, some .get, none⟩
  | .idle, some m, .withDiagnostics d =>
      some ⟨⟨some { m with diagnostics := some d }, .idle⟩, none, some .unit⟩
  | .idle, some m, .sync =>
      some ⟨⟨some m, .getting id .sync⟩, some .get, none⟩
  | .idle, some m, .ensureClaimed claimant params =>
      some ⟨⟨some m, .ensuring claimant params⟩, none, none⟩
  | .idle, some m, .vacate claimant =>
      -- The cached claim is gone before the patch is answered.
      let (state, patch) := Lease.vacate now m.state claimant
      match patch with
      | none =>
          some ⟨⟨some { m with state := state }, .idle⟩, none,
            some (.vacate (.ok false))⟩
      | some call =>
          some ⟨⟨some { m with state := state },
            .vacating id call.version call.claimant⟩, some (.patch call), none⟩
  | _, _, _ => none

/-- The computation of `ensure_claimed` goes on. -/
def resume (profile : Profile) (now : DateTime) (id : Nat) (node : Node) :
    Option Effect :=
  match node.pc, node.manager with
  | .ensuring claimant params, some m =>
      match ensureClaimedHead now m.state claimant params with
      | .return claim =>
          some ⟨⟨some m, .idle⟩, none, some (.ensureClaimed (.ok claim))⟩
      | .renew => some ⟨⟨some m, .renewing claimant params⟩, none, none⟩
      | .acquire => some ⟨⟨some m, .acquiring claimant params⟩, none, none⟩
      | .panic =>
          some ⟨⟨some m, .idle⟩, none, some (.ensureClaimed (.error .panic))⟩
  | .renewing claimant params, some m =>
      -- The write reads the clock again, after the loop head.
      let write := renew m.state.meta claimant params now
      some ⟨⟨some m, .claiming id write params⟩, some (.patch (.claim write)), none⟩
  | .acquiring claimant params, some m =>
      match acquire profile m.state.meta claimant params now with
      | none =>
          some ⟨⟨some m, .idle⟩, none, some (.ensureClaimed (.error .panic))⟩
      | some write =>
          some ⟨⟨some m, .claiming id write params⟩,
            some (.patch (.claim write)), none⟩
  | _, _ => none

/-- The state that `Self::get` returned goes to whoever awaited it. -/
def gotState (now : DateTime) (node : Node) (caller : GetFor) (state : State) :
    Option Effect :=
  match caller, node.manager with
  | .init, _ => some ⟨⟨some ⟨state, none⟩, .idle⟩, none, some (.init (.ok ()))⟩
  | .sync, some m =>
      some ⟨⟨some (m.update now state), .idle⟩, none,
        some (.sync (.ok state.claim))⟩
  | .resync claimant params, some m =>
      -- `continue` after the conflict.
      some ⟨⟨some (m.update now state), .ensuring claimant params⟩, none, none⟩
  | _, none => none

/-- An await ends with a response or with an error. -/
def respond (now : DateTime) (id : Nat) (node : Node)
    (result : Except Error LeaseResource) : Option Effect :=
  match node.pc, node.manager with
  | .getting _ caller, _ =>
      match get now result with
      | .error f => some ⟨⟨node.manager, .idle⟩, none, some (caller.fail f)⟩
      | .ok state => node.gotState now caller state
  | .claiming _ write params, some m =>
      match result with
      | .error e =>
          if isConflict e then
            -- Somebody else updated the resource: read it again and try again.
            some ⟨⟨some m, .getting id (.resync write.claimant params)⟩,
              some .get, none⟩
          else
            some ⟨⟨some m, .idle⟩, none, some (.ensureClaimed (.error (.error e)))⟩
      | .ok lease =>
          match write.finish lease with
          | .error f =>
              some ⟨⟨some m, .idle⟩, none, some (.ensureClaimed (.error f))⟩
          | .ok (claim, newMeta) =>
              some ⟨⟨some (m.update now ⟨newMeta, some claim⟩), .idle⟩, none,
                some (.ensureClaimed (.ok claim))⟩
  | .vacating _ _ _, some m =>
      match result with
      | .error e =>
          some ⟨⟨some m, .idle⟩, none, some (.vacate (.error (.error e)))⟩
      | .ok lease =>
          some ⟨⟨some (m.inspect now none (lease.resourceVersion.getD "")), .idle⟩,
            none, some (.vacate (.ok true))⟩
  | _, _ => none

/-- The future is dropped at its await: the lock is released, the state stays
as it is at that moment. -/
def cancel (node : Node) : Option Effect :=
  match node.pc with
  | .getting _ _ => some ⟨⟨node.manager, .idle⟩, none, none⟩
  | .claiming _ _ _ => some ⟨⟨node.manager, .idle⟩, none, none⟩
  | .vacating _ _ _ => some ⟨⟨node.manager, .idle⟩, none, none⟩
  | _ => none

/-- One step of a node at a clock reading; `id` numbers a request that the step
may send. -/
def step (profile : Profile) (now : DateTime) (id : Nat) (node : Node) :
    Input → Option Effect
  | .call op => node.call now id op
  | .resume => node.resume profile now id
  | .response result => node.respond now id result
  | .cancel => node.cancel

/-- The request whose answer a node awaits. -/
def awaits (node : Node) : Option (Nat × Body) :=
  match node.pc with
  | .getting id _ => some (id, .get)
  | .claiming id write _ => some (id, .patch (.claim write))
  | .vacating id version claimant => some (id, .patch (.vacate version claimant))
  | _ => none

theorem awaits_get_iff {node : Node} {id : Nat} :
    node.awaits = some (id, .get) ↔ ∃ caller, node.pc = .getting id caller := by
  unfold awaits
  cases node.pc <;> simp

theorem awaits_claim_iff {node : Node} {id : Nat} {write : ClaimWrite} :
    node.awaits = some (id, .patch (.claim write)) ↔
      ∃ params, node.pc = .claiming id write params := by
  unfold awaits
  cases node.pc <;> simp

theorem awaits_vacate_iff {node : Node} {id : Nat} {version claimant : String} :
    node.awaits = some (id, .patch (.vacate version claimant)) ↔
      node.pc = .vacating id version claimant := by
  unfold awaits
  cases node.pc <;> simp

/-! ## Everything a step can do -/

/-- The transitions of a node, each with the situation it is taken in and
everything that comes out of it. -/
inductive Moves (profile : Profile) (now : DateTime) (id : Nat) (node : Node) :
    Input → Effect → Prop
  | init (hpc : node.pc = .idle) (hm : node.manager = none) :
      Moves profile now id node (.call .init)
        ⟨⟨none, .getting id .init⟩, some .get, none⟩
  | withDiagnostics {m : LeaseManager} {d : LeaseDiagnostics}
      (hpc : node.pc = .idle) (hm : node.manager = some m) :
      Moves profile now id node (.call (.withDiagnostics d))
        ⟨⟨some { m with diagnostics := some d }, .idle⟩, none, some .unit⟩
  | sync {m : LeaseManager} (hpc : node.pc = .idle) (hm : node.manager = some m) :
      Moves profile now id node (.call .sync)
        ⟨⟨some m, .getting id .sync⟩, some .get, none⟩
  | ensureClaimed {m : LeaseManager} {claimant : String} {params : ClaimParams}
      (hpc : node.pc = .idle) (hm : node.manager = some m) :
      Moves profile now id node (.call (.ensureClaimed claimant params))
        ⟨⟨some m, .ensuring claimant params⟩, none, none⟩
  | vacateSkipped {m : LeaseManager} {claimant : String} {state : State}
      (hpc : node.pc = .idle) (hm : node.manager = some m)
      (hvacate : Lease.vacate now m.state claimant = (state, none)) :
      Moves profile now id node (.call (.vacate claimant))
        ⟨⟨some { m with state := state }, .idle⟩, none,
          some (.vacate (.ok false))⟩
  | vacateSent {m : LeaseManager} {claimant : String} {claim : Claim}
      (hpc : node.pc = .idle) (hm : node.manager = some m)
      (hclaim : m.state.claim = some claim)
      (hcurrent : claim.isCurrent now = true) (hholder : claim.holder = claimant) :
      Moves profile now id node (.call (.vacate claimant))
        ⟨⟨some { m with state := ⟨m.state.meta, none⟩ },
            .vacating id m.state.meta.version claimant⟩,
          some (.patch (.vacate m.state.meta.version claimant)), none⟩
  | returned {m : LeaseManager} {claimant : String} {params : ClaimParams}
      {claim : Claim} (hpc : node.pc = .ensuring claimant params)
      (hm : node.manager = some m)
      (hhead : ensureClaimedHead now m.state claimant params = .return claim) :
      Moves profile now id node .resume
        ⟨⟨some m, .idle⟩, none, some (.ensureClaimed (.ok claim))⟩
  | headPanicked {m : LeaseManager} {claimant : String} {params : ClaimParams}
      (hpc : node.pc = .ensuring claimant params) (hm : node.manager = some m)
      (hhead : ensureClaimedHead now m.state claimant params = .panic) :
      Moves profile now id node .resume
        ⟨⟨some m, .idle⟩, none, some (.ensureClaimed (.error .panic))⟩
  | due {m : LeaseManager} {claimant : String} {params : ClaimParams}
      {kind : ClaimKind} (hpc : node.pc = .ensuring claimant params)
      (hm : node.manager = some m)
      (hhead : ensureClaimedHead now m.state claimant params = kind.head) :
      Moves profile now id node .resume
        ⟨⟨some m, kind.pc claimant params⟩, none, none⟩
  | renewSent {m : LeaseManager} {claimant : String} {params : ClaimParams}
      (hpc : node.pc = .renewing claimant params) (hm : node.manager = some m) :
      Moves profile now id node .resume
        ⟨⟨some m, .claiming id (renew m.state.meta claimant params now) params⟩,
          some (.patch (.claim (renew m.state.meta claimant params now))), none⟩
  | acquireSent {m : LeaseManager} {claimant : String} {params : ClaimParams}
      {write : ClaimWrite} (hpc : node.pc = .acquiring claimant params)
      (hm : node.manager = some m)
      (hwrite : acquire profile m.state.meta claimant params now = some write) :
      Moves profile now id node .resume
        ⟨⟨some m, .claiming id write params⟩, some (.patch (.claim write)), none⟩
  | acquirePanicked {m : LeaseManager} {claimant : String} {params : ClaimParams}
      (hpc : node.pc = .acquiring claimant params) (hm : node.manager = some m)
      (hwrite : acquire profile m.state.meta claimant params now = none) :
      Moves profile now id node .resume
        ⟨⟨some m, .idle⟩, none, some (.ensureClaimed (.error .panic))⟩
  | getFailed {awaited : Nat} {caller : GetFor}
      {result : Except Error LeaseResource} {f : Fault}
      (hpc : node.pc = .getting awaited caller) (hget : get now result = .error f) :
      Moves profile now id node (.response result)
        ⟨⟨node.manager, .idle⟩, none, some (caller.fail f)⟩
  | gotInit {awaited : Nat} {lease : LeaseResource} {state : State}
      (hpc : node.pc = .getting awaited .init)
      (hget : get now (.ok lease) = .ok state) :
      Moves profile now id node (.response (.ok lease))
        ⟨⟨some ⟨state, none⟩, .idle⟩, none, some (.init (.ok ()))⟩
  | gotSync {awaited : Nat} {m : LeaseManager} {lease : LeaseResource}
      {state : State} (hpc : node.pc = .getting awaited .sync)
      (hm : node.manager = some m) (hget : get now (.ok lease) = .ok state) :
      Moves profile now id node (.response (.ok lease))
        ⟨⟨some (m.update now state), .idle⟩, none, some (.sync (.ok state.claim))⟩
  | gotResync {awaited : Nat} {claimant : String} {params : ClaimParams}
      {m : LeaseManager} {lease : LeaseResource} {state : State}
      (hpc : node.pc = .getting awaited (.resync claimant params))
      (hm : node.manager = some m) (hget : get now (.ok lease) = .ok state) :
      Moves profile now id node (.response (.ok lease))
        ⟨⟨some (m.update now state), .ensuring claimant params⟩, none, none⟩
  | conflicted {awaited : Nat} {write : ClaimWrite} {params : ClaimParams}
      {m : LeaseManager} {e : Error} (hpc : node.pc = .claiming awaited write params)
      (hm : node.manager = some m) (hconflict : isConflict e = true) :
      Moves profile now id node (.response (.error e))
        ⟨⟨some m, .getting id (.resync write.claimant params)⟩, some .get, none⟩
  | claimFailed {awaited : Nat} {write : ClaimWrite} {params : ClaimParams}
      {m : LeaseManager} {e : Error} (hpc : node.pc = .claiming awaited write params)
      (hm : node.manager = some m) (hconflict : isConflict e = false) :
      Moves profile now id node (.response (.error e))
        ⟨⟨some m, .idle⟩, none, some (.ensureClaimed (.error (.error e)))⟩
  | finishFailed {awaited : Nat} {write : ClaimWrite} {params : ClaimParams}
      {m : LeaseManager} {lease : LeaseResource} {f : Fault}
      (hpc : node.pc = .claiming awaited write params) (hm : node.manager = some m)
      (hfinish : write.finish lease = .error f) :
      Moves profile now id node (.response (.ok lease))
        ⟨⟨some m, .idle⟩, none, some (.ensureClaimed (.error f))⟩
  | claimed {awaited : Nat} {write : ClaimWrite} {params : ClaimParams}
      {m : LeaseManager} {lease : LeaseResource} {claim : Claim} {newMeta : Meta}
      (hpc : node.pc = .claiming awaited write params) (hm : node.manager = some m)
      (hfinish : write.finish lease = .ok (claim, newMeta)) :
      Moves profile now id node (.response (.ok lease))
        ⟨⟨some (m.update now ⟨newMeta, some claim⟩), .idle⟩, none,
          some (.ensureClaimed (.ok claim))⟩
  | vacateFailed {awaited : Nat} {version claimant : String} {m : LeaseManager}
      {e : Error} (hpc : node.pc = .vacating awaited version claimant)
      (hm : node.manager = some m) :
      Moves profile now id node (.response (.error e))
        ⟨⟨some m, .idle⟩, none, some (.vacate (.error (.error e)))⟩
  | vacated {awaited : Nat} {version claimant : String} {m : LeaseManager}
      {lease : LeaseResource} (hpc : node.pc = .vacating awaited version claimant)
      (hm : node.manager = some m) :
      Moves profile now id node (.response (.ok lease))
        ⟨⟨some (m.inspect now none (lease.resourceVersion.getD "")), .idle⟩, none,
          some (.vacate (.ok true))⟩
  | cancelled (hawaits : node.awaits ≠ none) :
      Moves profile now id node .cancel ⟨⟨node.manager, .idle⟩, none, none⟩

/-- `vacate` sends its patch only for a current claim of the claimant. -/
theorem vacate_eq_some {now : DateTime} {state state' : State}
    {claimant : String} {call : PatchCall}
    (h : Lease.vacate now state claimant = (state', some call)) :
    ∃ claim, state.claim = some claim ∧ claim.isCurrent now = true ∧
      claim.holder = claimant ∧ state' = ⟨state.meta, none⟩ ∧
      call = .vacate state.meta.version claimant := by
  unfold Lease.vacate at h
  cases hclaim : state.claim with
  | none => simp [hclaim] at h
  | some claim =>
      simp only [hclaim] at h
      split at h
      · simp at h
      · rename_i hcurrent
        split at h
        · simp at h
        · rename_i hholder
          obtain ⟨rfl, hcall⟩ := Prod.mk.inj h
          exact ⟨claim, rfl, Bool.not_eq_false _ ▸ hcurrent,
            not_not.mp hholder, rfl, (Option.some.inj hcall).symm⟩

section Inversion

variable {profile : Profile} {now : DateTime} {id : Nat} {node : Node}
  {effect : Effect}

theorem call_moves {op : Op} (hstep : node.call now id op = some effect) :
    Moves profile now id node (.call op) effect := by
  unfold call at hstep
  split at hstep
  · rename_i hpc hm
    obtain rfl := Option.some.inj hstep
    exact Moves.init hpc hm
  · rename_i m d hpc hm
    obtain rfl := Option.some.inj hstep
    exact Moves.withDiagnostics hpc hm
  · rename_i m hpc hm
    obtain rfl := Option.some.inj hstep
    exact Moves.sync hpc hm
  · rename_i m claimant params hpc hm
    obtain rfl := Option.some.inj hstep
    exact Moves.ensureClaimed hpc hm
  · rename_i m claimant hpc hm
    rcases hvacate : Lease.vacate now m.state claimant with ⟨state, patch⟩
    rw [hvacate] at hstep
    cases patch with
    | none =>
        obtain rfl := Option.some.inj hstep
        exact Moves.vacateSkipped hpc hm hvacate
    | some patchCall =>
        obtain ⟨claim, hclaim, hcurrent, hholder, rfl, rfl⟩ :=
          vacate_eq_some hvacate
        obtain rfl := Option.some.inj hstep
        exact Moves.vacateSent hpc hm hclaim hcurrent hholder
  · cases hstep

theorem resume_moves (hstep : node.resume profile now id = some effect) :
    Moves profile now id node .resume effect := by
  unfold resume at hstep
  split at hstep
  · rename_i claimant params m hpc hm
    split at hstep
    · rename_i claim hhead
      obtain rfl := Option.some.inj hstep
      exact Moves.returned hpc hm hhead
    · rename_i hhead
      obtain rfl := Option.some.inj hstep
      exact @Moves.due profile now id node m claimant params .renew hpc hm hhead
    · rename_i hhead
      obtain rfl := Option.some.inj hstep
      exact @Moves.due profile now id node m claimant params .acquire hpc hm hhead
    · rename_i hhead
      obtain rfl := Option.some.inj hstep
      exact Moves.headPanicked hpc hm hhead
  · rename_i claimant params m hpc hm
    obtain rfl := Option.some.inj hstep
    exact Moves.renewSent hpc hm
  · rename_i claimant params m hpc hm
    split at hstep
    · rename_i hwrite
      obtain rfl := Option.some.inj hstep
      exact Moves.acquirePanicked hpc hm hwrite
    · rename_i write hwrite
      obtain rfl := Option.some.inj hstep
      exact Moves.acquireSent hpc hm hwrite
  · cases hstep

/-- A state that was read goes to whoever asked for it. -/
theorem gotState_moves {awaited : Nat} {caller : GetFor} {lease : LeaseResource}
    {state : State} (hpc : node.pc = .getting awaited caller)
    (hget : get now (.ok lease) = .ok state)
    (hstep : node.gotState now caller state = some effect) :
    Moves profile now id node (.response (.ok lease)) effect := by
  unfold gotState at hstep
  split at hstep
  · obtain rfl := Option.some.inj hstep
    exact Moves.gotInit hpc hget
  · rename_i m hm
    obtain rfl := Option.some.inj hstep
    exact Moves.gotSync hpc hm hget
  · rename_i claimant params m hm
    obtain rfl := Option.some.inj hstep
    exact Moves.gotResync hpc hm hget
  · cases hstep

theorem respond_moves {result : Except Error LeaseResource}
    (hstep : node.respond now id result = some effect) :
    Moves profile now id node (.response result) effect := by
  unfold respond at hstep
  split at hstep
  · rename_i awaited caller hpc
    split at hstep
    · rename_i f hget
      obtain rfl := Option.some.inj hstep
      exact Moves.getFailed hpc hget
    · rename_i state hget
      cases result with
      | error e => cases hget
      | ok lease => exact gotState_moves hpc hget hstep
  · rename_i awaited write params m hpc hm
    cases result with
    | error e =>
        cases hconflict : isConflict e with
        | true =>
            simp only [hconflict, if_true] at hstep
            obtain rfl := Option.some.inj hstep
            exact Moves.conflicted hpc hm hconflict
        | false =>
            simp only [hconflict, Bool.false_eq_true, if_false] at hstep
            obtain rfl := Option.some.inj hstep
            exact Moves.claimFailed hpc hm hconflict
    | ok lease =>
        dsimp only at hstep
        split at hstep
        · rename_i f hfinish
          obtain rfl := Option.some.inj hstep
          exact Moves.finishFailed hpc hm hfinish
        · rename_i claim newMeta hfinish
          obtain rfl := Option.some.inj hstep
          exact Moves.claimed hpc hm hfinish
  · rename_i awaited version claimant m hpc hm
    cases result with
    | error e =>
        obtain rfl := Option.some.inj hstep
        exact Moves.vacateFailed hpc hm
    | ok lease =>
        obtain rfl := Option.some.inj hstep
        exact Moves.vacated hpc hm
  · cases hstep

theorem cancel_moves (hstep : node.cancel = some effect) :
    Moves profile now id node .cancel effect := by
  have hawaits : node.awaits ≠ none := by
    intro hnone
    unfold awaits at hnone
    unfold cancel at hstep
    cases hpc : node.pc <;> simp_all
  have heffect : effect = ⟨⟨node.manager, .idle⟩, none, none⟩ := by
    unfold cancel at hstep
    split at hstep
    · exact (Option.some.inj hstep).symm
    · exact (Option.some.inj hstep).symm
    · exact (Option.some.inj hstep).symm
    · cases hstep
  rw [heffect]
  exact Moves.cancelled hawaits

/-- Every step of a node is one of the listed transitions. -/
theorem step_moves {input : Input}
    (hstep : node.step profile now id input = some effect) :
    Moves profile now id node input effect := by
  cases input with
  | call op => exact call_moves hstep
  | resume => exact resume_moves hstep
  | response result => exact respond_moves hstep
  | cancel => exact cancel_moves hstep

end Inversion

/-! ## What a step can do to the cached state -/

/-- The four ways in which a step can leave a cached state behind: it keeps the
old one, `vacate` drops the claim, a read replaces it, or an accepted write
does. -/
inductive StateChange (now : DateTime) (node : Node) : Input → State → Prop
  | kept {input : Input} {m : LeaseManager} (hm : node.manager = some m) :
      StateChange now node input m.state
  | dropped {m : LeaseManager} {claimant : String} {claim : Claim}
      (hm : node.manager = some m) (hclaim : m.state.claim = some claim)
      (hwhy : claim.isCurrent now = false ∨ claim.holder = claimant) :
      StateChange now node (.call (.vacate claimant)) ⟨m.state.meta, none⟩
  | read {id : Nat} {caller : GetFor} {lease : LeaseResource} {state : State}
      (hpc : node.pc = .getting id caller)
      (hget : get now (.ok lease) = .ok state) :
      StateChange now node (.response (.ok lease)) state
  | wrote {id : Nat} {write : ClaimWrite} {params : ClaimParams}
      {lease : LeaseResource} {claim : Claim} {newMeta : Meta}
      (hpc : node.pc = .claiming id write params)
      (hfinish : write.finish lease = .ok (claim, newMeta)) :
      StateChange now node (.response (.ok lease)) ⟨newMeta, some claim⟩

/-- A vacate that sends nothing found no claim, an expired one, or somebody
else's; only the expired one is dropped. -/
theorem vacate_eq_none {now : DateTime} {state state' : State}
    {claimant : String} (h : Lease.vacate now state claimant = (state', none)) :
    (state.claim = none ∧ state' = state) ∨
      ∃ claim, state.claim = some claim ∧
        ((claim.isCurrent now = false ∧ state' = ⟨state.meta, none⟩) ∨
          (claim.holder ≠ claimant ∧ state' = state)) := by
  unfold Lease.vacate at h
  cases hclaim : state.claim with
  | none =>
      simp only [hclaim] at h
      exact Or.inl ⟨rfl, (Prod.mk.inj h).1.symm⟩
  | some claim =>
      refine Or.inr ⟨claim, rfl, ?_⟩
      simp only [hclaim] at h
      split at h
      · rename_i hexpired
        exact Or.inl ⟨hexpired, (Prod.mk.inj h).1.symm⟩
      · split at h
        · rename_i hholder
          exact Or.inr ⟨hholder, (Prod.mk.inj h).1.symm⟩
        · simp at h

section Consequences

variable {profile : Profile} {now : DateTime} {id : Nat} {node : Node}
  {input : Input} {effect : Effect}

/-- Every step of a node changes the cached state in one of the four ways. -/
theorem step_stateChange {m' : LeaseManager}
    (hstep : node.step profile now id input = some effect)
    (hm' : effect.node.manager = some m') :
    StateChange now node input m'.state := by
  cases step_moves hstep with
  | init => cases hm'
  | @withDiagnostics m d _ hm =>
      obtain rfl := Option.some.inj hm'
      change StateChange now node _ m.state
      exact StateChange.kept hm
  | @vacateSkipped m claimant state _ hm hvacate =>
      obtain rfl := Option.some.inj hm'
      change StateChange now node _ state
      rcases vacate_eq_none hvacate with
        ⟨-, rfl⟩ | ⟨claim, hclaim, ⟨hexpired, rfl⟩ | ⟨-, rfl⟩⟩
      · exact StateChange.kept hm
      · exact StateChange.dropped hm hclaim (Or.inl hexpired)
      · exact StateChange.kept hm
  | vacateSent _ hm hclaim _ hholder =>
      obtain rfl := Option.some.inj hm'
      exact StateChange.dropped hm hclaim (Or.inr hholder)
  | gotInit hpc hget =>
      obtain rfl := Option.some.inj hm'
      exact StateChange.read hpc hget
  | gotSync hpc _ hget =>
      obtain rfl := Option.some.inj hm'
      exact StateChange.read hpc hget
  | gotResync hpc _ hget =>
      obtain rfl := Option.some.inj hm'
      exact StateChange.read hpc hget
  | claimed hpc _ hfinish =>
      obtain rfl := Option.some.inj hm'
      exact StateChange.wrote hpc hfinish
  | @vacated _ _ _ m lease _ hm =>
      obtain rfl := Option.some.inj hm'
      change StateChange now node _ m.state
      exact StateChange.kept hm
  | getFailed => exact StateChange.kept hm'
  | cancelled => exact StateChange.kept hm'
  -- All other transitions leave the cached state alone.
  | sync _ hm | ensureClaimed _ hm | returned _ hm | headPanicked _ hm
  | due _ hm | renewSent _ hm | acquireSent _ hm | acquirePanicked _ hm
  | conflicted _ hm | claimFailed _ hm | finishFailed _ hm | vacateFailed _ hm =>
      obtain rfl := Option.some.inj hm'
      exact StateChange.kept hm

/-- An idle node only accepts a call. -/
theorem step_pc_ne_idle (hstep : node.step profile now id input = some effect)
    (hcall : ∀ op, input ≠ .call op) : node.pc ≠ .idle := by
  intro hidle
  cases input with
  | call op => exact hcall op rfl
  | resume => simp [step, resume, hidle] at hstep
  | response result => simp [step, respond, hidle] at hstep
  | cancel => simp [step, cancel, hidle] at hstep

/-- A manager that exists does not disappear. -/
theorem step_manager_isSome (hstep : node.step profile now id input = some effect)
    (hm : node.manager.isSome = true) : effect.node.manager.isSome = true := by
  cases step_moves hstep with
  | init _ hnone =>
      rw [hnone] at hm
      cases hm
  | getFailed | cancelled => exact hm
  | _ => rfl

/-! ## What a step can send -/

/-- The requests a step can send, each with the situation it is sent in. -/
inductive Sends (profile : Profile) (now : DateTime) (node : Node) :
    Input → Body → Prop
  | get {input : Input} : Sends profile now node input .get
  | acquire {claimant : String} {params : ClaimParams} {m : LeaseManager}
      {write : ClaimWrite}
      (hpc : node.pc = .acquiring claimant params) (hm : node.manager = some m)
      (hwrite : Lease.acquire profile m.state.meta claimant params now =
        some write) :
      Sends profile now node .resume (.patch (.claim write))
  | renew {claimant : String} {params : ClaimParams} {m : LeaseManager}
      (hpc : node.pc = .renewing claimant params) (hm : node.manager = some m) :
      Sends profile now node .resume
        (.patch (.claim (Lease.renew m.state.meta claimant params now)))
  | vacate {claimant : String} {m : LeaseManager} {claim : Claim}
      (hm : node.manager = some m) (hclaim : m.state.claim = some claim)
      (hcurrent : claim.isCurrent now = true)
      (hholder : claim.holder = claimant) :
      Sends profile now node (.call (.vacate claimant))
        (.patch (.vacate m.state.meta.version claimant))

/-- Every request that a node sends is one of these. -/
theorem step_sends {body : Body}
    (hstep : node.step profile now id input = some effect)
    (hsend : effect.send = some body) : Sends profile now node input body := by
  cases step_moves hstep with
  | init | sync | conflicted =>
      obtain rfl := Option.some.inj hsend
      exact Sends.get
  | renewSent hpc hm =>
      obtain rfl := Option.some.inj hsend
      exact Sends.renew hpc hm
  | acquireSent hpc hm hwrite =>
      obtain rfl := Option.some.inj hsend
      exact Sends.acquire hpc hm hwrite
  | vacateSent _ hm hclaim hcurrent hholder =>
      obtain rfl := Option.some.inj hsend
      exact Sends.vacate hm hclaim hcurrent hholder
  | _ => cases hsend

/-- A write carries the clock reading of the step that sends it. -/
theorem step_sends_now {write : ClaimWrite}
    (hstep : node.step profile now id input = some effect)
    (hsend : effect.send = some (.patch (.claim write))) : write.now = now := by
  cases step_sends hstep hsend with
  | acquire hpc hm hwrite =>
      obtain ⟨transitions, -, rfl⟩ := Option.map_eq_some_iff.mp hwrite
      rfl
  | renew hpc hm => rfl

/-- After a step a node awaits the answer to what it has just sent, and nothing
else. -/
theorem step_awaits (hstep : node.step profile now id input = some effect) :
    effect.node.awaits = effect.send.map fun body => (id, body) := by
  cases step_moves hstep with
  | @due _ _ _ kind => cases kind <;> rfl
  | _ => rfl

/-- The number under which a node awaits an answer after a step is the one of
that step. -/
theorem step_awaits_id {awaited : Nat} {body : Body}
    (hstep : node.step profile now id input = some effect)
    (hawaits : effect.node.awaits = some (awaited, body)) : awaited = id := by
  rw [step_awaits hstep] at hawaits
  obtain ⟨sent, -, hpair⟩ := Option.map_eq_some_iff.mp hawaits
  exact (Prod.mk.inj hpair).1.symm

end Consequences

/-! ## What the program counter says about the cached state -/

/-- The call in progress is one of the allowed ones.  While a write is prepared
or awaited, the cached state still calls for that write, and the write is made
against the cached version; while a vacate is awaited, the claim is gone from
the cache. -/
def PcOk (allowed : Op → Prop) (now : DateTime) (node : Node) : Prop :=
  ∀ m, node.manager = some m →
    match node.pc with
    | .idle => True
    | .getting _ (.resync claimant params) =>
        allowed (.ensureClaimed claimant params)
    | .getting _ _ => True
    | .ensuring claimant params => allowed (.ensureClaimed claimant params)
    | .renewing claimant params =>
        allowed (.ensureClaimed claimant params) ∧
          ensureClaimedHead now m.state claimant params = .renew
    | .acquiring claimant params =>
        allowed (.ensureClaimed claimant params) ∧
          ensureClaimedHead now m.state claimant params = .acquire
    | .claiming _ write params =>
        allowed (.ensureClaimed write.claimant params) ∧
          ensureClaimedHead now m.state write.claimant params =
            write.kind.head ∧
          write.version = m.state.meta.version ∧
          write.leaseDuration = params.leaseDelta
    | .vacating _ version claimant =>
        allowed (.vacate claimant) ∧ version = m.state.meta.version ∧
          m.state.claim = none

/-- Waiting does not invalidate the program counter. -/
theorem PcOk.mono {allowed : Op → Prop} {now later : DateTime} {node : Node}
    (hle : now ≤ later) (hok : node.PcOk allowed now) :
    node.PcOk allowed later := by
  intro m hm
  have h := hok m hm
  cases hpc : node.pc with
  | renewing claimant params =>
      simp only [hpc] at h ⊢
      have hkind : ensureClaimedHead now m.state claimant params =
          ClaimKind.renew.head := h.2
      exact ⟨h.1, ensureClaimedHead_mono hle hkind⟩
  | acquiring claimant params =>
      simp only [hpc] at h ⊢
      have hkind : ensureClaimedHead now m.state claimant params =
          ClaimKind.acquire.head := h.2
      exact ⟨h.1, ensureClaimedHead_mono hle hkind⟩
  | claiming id write params =>
      simp only [hpc] at h ⊢
      exact ⟨h.1, ensureClaimedHead_mono hle h.2.1, h.2.2⟩
  | vacating id version claimant =>
      simp only [hpc] at h ⊢
      exact h
  | idle => trivial
  | getting id caller =>
      simp only [hpc] at h
      cases caller with
      | init => trivial
      | sync => trivial
      | resync claimant params => exact h
  | ensuring claimant params =>
      simp only [hpc] at h ⊢
      exact h

/-- Every step of a node keeps the program counter in line with the cached
state, as long as only allowed calls are made. -/
theorem step_pcOk {allowed : Op → Prop} {profile : Profile} {now : DateTime}
    {id : Nat} {node : Node} {input : Input} {effect : Effect}
    (hcall : ∀ op, input = .call op → allowed op)
    (hok : node.PcOk allowed now)
    (hstep : node.step profile now id input = some effect) :
    effect.node.PcOk allowed now := by
  intro m' hm'
  cases step_moves hstep with
  | ensureClaimed => exact hcall _ rfl
  | vacateSent =>
      obtain rfl := Option.some.inj hm'
      exact ⟨hcall _ rfl, rfl, rfl⟩
  | @due m claimant params kind hpc hm hhead =>
      obtain rfl := Option.some.inj hm'
      have hop := hok m hm
      rw [hpc] at hop
      cases kind with
      | acquire => exact ⟨hop, hhead⟩
      | renew => exact ⟨hop, hhead⟩
  | @renewSent m claimant params hpc hm =>
      obtain rfl := Option.some.inj hm'
      -- Nothing has touched the cached state since the loop head.
      have hhead := hok m hm
      rw [hpc] at hhead
      exact ⟨hhead.1, hhead.2, rfl, rfl⟩
  | @acquireSent m claimant params write hpc hm hwrite =>
      obtain rfl := Option.some.inj hm'
      have hhead := hok m hm
      rw [hpc] at hhead
      obtain ⟨transitions, -, rfl⟩ := Option.map_eq_some_iff.mp hwrite
      exact ⟨hhead.1, hhead.2, rfl, rfl⟩
  | @gotResync _ claimant params m _ _ hpc hm _ =>
      have hop := hok m hm
      rw [hpc] at hop
      exact hop
  -- After a conflict the call goes on with the same arguments.
  | @conflicted _ write params m _ hpc hm _ =>
      have hop := hok m hm
      rw [hpc] at hop
      exact hop.1
  | _ => trivial

end Node

end Lease
end Kubert
