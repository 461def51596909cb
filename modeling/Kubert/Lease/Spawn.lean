import Kubert.Lease.Knowledge

/-!
# The task of `LeaseManager::spawn`

One manager is initialised, perhaps synced, and handed to `spawn`, which claims
the lease once and then runs a task that owns the manager.  What it may have claimed
or vacated by itself before that is left out (`Op.prepares`).  The task waits for
its claim to run out or for all receivers to be dropped, claims again with
retries, publishes the claim, and when nobody listens any more vacates the lease
and finishes.

The task is a second program counter on top of the one of the manager: every
action of the task that calls the manager is a `call` of the system, and what
the call returns decides where the task goes on.  All other managers, the server
and the clock go on around it.

`backoff::future::retry` is used through what it promises: after a transient
error it calls again at some later time or gives up with the error.
-/

namespace Kubert
namespace Lease

open Foundation

/-- `Claim::expire_with_grace`: the nanoseconds that it sleeps for. -/
def Claim.expireWithGrace (claim : Claim) (now : DateTime) (grace : Duration) :
    Nat :=
  if now ≤ claim.expiry then
    (claim.expiry.nanos - now.nanos).toNat - grace.toNanos
  else 0

/-- Where `spawn` or its task stands. -/
inductive Task
  | unspawned
  | starting
  | selecting (claim : Claim)
  | sleeping (claim : Claim) (wakeAt : Int)
  | claiming
  | backingOff (e : Error)
  | publishing (claim : Claim)
  | vacating
  | finished
  | failed (f : Fault)
deriving DecidableEq

namespace Task

/-- How the task goes on after an error of `ensure_claimed`: some errors are
permanent, and `InferConfig` trips an assertion in debug builds. -/
def afterError (profile : Profile) (e : Error) : Task :=
  match e with
  | .api .auth => .failed (.error e)
  | .api .discovery => .failed (.error e)
  | .api .buildRequest => .failed (.error e)
  | .api .inferConfig =>
      match profile with
      | .debug => .failed .panic
      | .release => .failed (.error e)
  | _ => .backingOff e

/-- What the task does with the result of the call that it awaits. -/
def receive (profile : Profile) : Task → Return → Task
  | .starting, .ensureClaimed (.ok claim) => .selecting claim
  | .starting, .ensureClaimed (.error f) => .failed f
  | .claiming, .ensureClaimed (.ok claim) => .publishing claim
  | .claiming, .ensureClaimed (.error (.error e)) => afterError profile e
  | .claiming, .ensureClaimed (.error .panic) => .failed .panic
  | .vacating, .vacate (.ok _) => .finished
  | .vacating, .vacate (.error f) => .failed f
  | task, _ => task

/-- The same, for a step that may or may not have returned. -/
def receive? (profile : Profile) (task : Task) : Option Return → Task
  | none => task
  | some ret => task.receive profile ret

/-- Has `spawn` returned its receiver? -/
def published : Task → Bool
  | .unspawned => false
  | .starting => false
  | _ => true

end Task

/-- The system with the task of one manager, and whether all its receivers have
been dropped. -/
structure Spawned (ι : Type) where
  sys : Sys ι
  task : Task
  closed : Bool

/-- One atomic action.  `outside` is any action that is not the manager's own;
`progress` goes on with the call that the manager has in progress. -/
inductive SpawnAction (ι : Type)
  | outside (a : Action ι)
  | progress (a : Action ι)
  | prepare (op : Op)
  | abandon
  | spawn
  | poll
  | retry
  | giveUp
  | publish
  | dropReceivers

/-- Does the action go on with a call in progress? -/
def Action.continues {ι : Type} : Action ι → Bool
  | .resume _ => true
  | .deliver _ _ => true
  | .fail _ _ => true
  | _ => false

/-- The calls that are made on a manager before it is handed to `spawn`: those that the
repository makes itself, and `sync`.  A manager that has called `ensure_claimed` or `vacate`
before is not covered. -/
def Op.prepares : Op → Bool
  | .init => true
  | .withDiagnostics _ => true
  | .sync => true
  | _ => false

namespace Spawned

variable {ι : Type} [DecidableEq ι]

/-- No manager is initialised and nothing is under way. -/
def initial (now : DateTime) (version : String) (spec : Option LeaseSpec) :
    Spawned ι :=
  ⟨Sys.initial now version spec, .unspawned, false⟩

section Task

variable (profile : Profile) (i : ι) (claimant : String) (params : ClaimParams)

/-- A call on the manager, made where the task then stands. -/
def invoke (x : Spawned ι) (op : Op) (task : Task) : Option (Spawned ι) :=
  (x.sys.perform profile (.call i op)).map fun result =>
    ⟨result.1, task.receive? profile result.2, x.closed⟩

/-- `self.ensure_claimed(&claimant, &params)` inside `retry`. -/
def ensureClaimed (x : Spawned ι) : Option (Spawned ι) :=
  x.invoke profile i (.ensureClaimed claimant params) .claiming

/-- `self.vacate(&claimant)` after the loop. -/
def vacate (x : Spawned ι) : Option (Spawned ι) :=
  x.invoke profile i (.vacate claimant) .vacating

/-- The grace period of the loop: only the claimant may renew before the claim
expires. -/
def grace (claim : Claim) : Duration :=
  if claim.holder = claimant then params.renewGracePeriod else Duration.zero

/-- One poll of the `select!`, which looks at the receivers first. -/
def poll (x : Spawned ι) : Option (Spawned ι) :=
  match x.task with
  | .selecting claim =>
      if x.closed then x.vacate profile i claimant
      else
        let sleep := claim.expireWithGrace x.sys.now (grace claimant params claim)
        -- A sleep of no time completes in the same poll.
        if sleep = 0 then x.ensureClaimed profile i claimant params
        else some { x with task := .sleeping claim (x.sys.now.nanos + sleep) }
  | .sleeping _ wakeAt =>
      if x.closed then x.vacate profile i claimant
      else if wakeAt ≤ x.sys.now.nanos then
        x.ensureClaimed profile i claimant params
      else some x
  | _ => none

/-- The state after one action; `none` if the action is not possible. -/
def step? (x : Spawned ι) : SpawnAction ι → Option (Spawned ι)
  | .outside a =>
      if a.actor = some i then none
      else (x.sys.perform profile a).map fun result => { x with sys := result.1 }
  | .progress a =>
      if a.actor = some i ∧ a.continues = true then
        (x.sys.perform profile a).map fun result =>
          ⟨result.1, x.task.receive? profile result.2, x.closed⟩
      else none
  | .prepare op =>
      if x.task = .unspawned ∧ op.prepares = true then
        x.invoke profile i op .unspawned
      else none
  | .abandon =>
      if x.task = .unspawned then
        (x.sys.perform profile (.cancel i)).map fun result =>
          { x with sys := result.1 }
      else none
  | .spawn =>
      if x.task = .unspawned then
        x.invoke profile i (.ensureClaimed claimant params) .starting
      else none
  | .poll => x.poll profile i claimant params
  | .retry =>
      match x.task with
      | .backingOff _ => x.ensureClaimed profile i claimant params
      | _ => none
  | .giveUp =>
      match x.task with
      | .backingOff e => some { x with task := .failed (.error e) }
      | _ => none
  | .publish =>
      match x.task with
      | .publishing claim =>
          -- `tx.send` fails when all receivers have been dropped.
          if x.closed then x.vacate profile i claimant
          else some { x with task := .selecting claim }
      | _ => none
  | .dropReceivers => if x.task.published then some { x with closed := true } else none

/-- Nobody else uses this claimant. -/
def foreign : ι → Op → Prop
  | _, .ensureClaimed other _ => other ≠ claimant
  | _, .vacate other => other ≠ claimant
  | _, _ => True

/-- The step relation: the spawned manager among others that serve other
claimants. -/
def Step (x : Spawned ι) (a : SpawnAction ι) (y : Spawned ι) : Prop :=
  x.step? profile i claimant params a = some y ∧
    ∀ b, a = .outside b → b.Obeys (foreign claimant)

end Task

end Spawned

end Lease
end Kubert
