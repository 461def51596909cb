import Kubert.Lease.Clock
import Kubert.Foundation.VersionedRegister

/-!
# The Lease resource, its patches and the API server that stores it

`LeaseSpec` has the fields of `coordv1::LeaseSpec` that the lease manager reads
or writes.  A patch names, for each field, whether it is left out, nulled or
set; `LeasePatch.applyTo` merges it into the stored spec.

The server keeps the resource in a versioned register: a patch that carries a
`resourceVersion` is applied only against the current version.  The two integer
fields are `int32` in the API, so a patch whose JSON integer does not fit is not
applied at all.
-/

namespace Kubert
namespace Lease

open Foundation

/-! ## Errors -/

/-- The variants of `kube_client::Error` that the lease code tells apart;
`other` stands for transport, service and decoding failures. -/
inductive KubeError
  | api (code : UInt16)
  | auth
  | discovery
  | buildRequest
  | inferConfig
  | other
deriving DecidableEq, Repr

/-- `lease::Error`. -/
inductive Error
  | api (e : KubeError)
  | missingResourceVersion
  | missingSpec
  | timeout
deriving DecidableEq, Repr

/-- `hyper::StatusCode::from_u16`: three-digit codes only. -/
def statusFromU16 (code : UInt16) : Option UInt16 :=
  if 100 ≤ code ∧ code < 1000 then some code else none

/-- `LeaseManager::is_conflict`. -/
def isConflict : Error → Bool
  | .api (.api code) => statusFromU16 code == some 409
  | _ => false

/-- The answer of the API server to a patch against an outdated version. -/
def conflictError : Error := .api (.api 409)

/-! ## The resource -/

/-- `coordv1::LeaseSpec`. -/
structure LeaseSpec where
  holderIdentity : Option String := none
  acquireTime : Option DateTime := none
  renewTime : Option DateTime := none
  leaseDurationSeconds : Option Int32 := none
  leaseTransitions : Option Int32 := none
deriving DecidableEq, Repr

/-- `coordv1::Lease` as the API returns it. -/
structure LeaseResource where
  resourceVersion : Option String
  spec : Option LeaseSpec
deriving DecidableEq, Repr

/-- The holder that a resource records. -/
def holderOf (spec : Option LeaseSpec) : Option String :=
  spec.bind LeaseSpec.holderIdentity

/-- The expiry that a resource records, `renewTime + leaseDurationSeconds`, in
nanoseconds. -/
def expiryOf (spec : Option LeaseSpec) : Option Int :=
  match spec with
  | none => none
  | some s =>
      match s.renewTime, s.leaseDurationSeconds with
      | some renewTime, some secs => some (renewTime.nanos + secs.toInt * 1000000000)
      | _, _ => none

/-- The value of `leaseTransitions` on the server; an absent field counts as
zero. -/
def transitionsOf (spec : Option LeaseSpec) : Int :=
  ((spec.bind LeaseSpec.leaseTransitions).getD 0).toInt

/-! ## Patches -/

/-- What a patch says about one field. -/
inductive FieldPatch (α : Type)
  | absent
  | null
  | value (a : α)
deriving DecidableEq, Repr

namespace FieldPatch

/-- Merge one field. -/
def merge {α : Type} : FieldPatch α → Option α → Option α
  | absent, old => old
  | null, _ => none
  | value a, _ => some a

/-- Read a JSON integer into an `int32` field; `none` if it does not fit. -/
def decodeI32 : FieldPatch Int → Option (FieldPatch Int32)
  | absent => some absent
  | null => some null
  | value n =>
      if -2147483648 ≤ n ∧ n < 2147483648 then some (value (Int32.ofInt n))
      else none

/-- An integer that was read into its field fits, and is stored unchanged. -/
theorem decodeI32_value {n : Int} {field : FieldPatch Int32}
    (h : (value n).decodeI32 = some field) :
    ∃ k : Int32, field = value k ∧ k.toInt = n ∧ n < 2147483648 := by
  simp only [decodeI32] at h
  split at h
  · rename_i hfits
    obtain rfl := Option.some.inj h
    exact ⟨Int32.ofInt n, rfl,
      Int32.toInt_ofInt_of_le (by omega) (by omega), hfits.2⟩
  · cases h

end FieldPatch

/-- `kube_client::api::Patch`: server-side apply or strategic merge. -/
inductive PatchKind
  | apply
  | strategic
deriving DecidableEq, Repr

/-- The body of a patch request. -/
structure LeasePatch where
  kind : PatchKind
  resourceVersion : String
  acquireTime : FieldPatch DateTime
  renewTime : FieldPatch DateTime
  holderIdentity : FieldPatch String
  leaseDurationSeconds : FieldPatch Int
  leaseTransitions : FieldPatch Int
deriving DecidableEq, Repr

/-- The spec after a patch; `none` if an integer does not fit its field.

Both kinds merge field by field.  A server-side apply would also drop fields
that the same field manager applied earlier and leaves out now, but the only
apply in this code names every field, and it is sent with `force`. -/
def LeasePatch.applyTo (p : LeasePatch) (spec : Option LeaseSpec) :
    Option LeaseSpec :=
  let old := spec.getD {}
  match p.leaseDurationSeconds.decodeI32, p.leaseTransitions.decodeI32 with
  | some leaseDurationSeconds, some leaseTransitions =>
      some
        { holderIdentity := p.holderIdentity.merge old.holderIdentity
          acquireTime := p.acquireTime.merge old.acquireTime
          renewTime := p.renewTime.merge old.renewTime
          leaseDurationSeconds :=
            leaseDurationSeconds.merge old.leaseDurationSeconds
          leaseTransitions := leaseTransitions.merge old.leaseTransitions }
  | _, _ => none

/-- A patch that is applied has integers that fit, and merges every field. -/
theorem LeasePatch.applyTo_eq_some {p : LeasePatch} {spec : Option LeaseSpec}
    {spec' : LeaseSpec} (h : p.applyTo spec = some spec') :
    ∃ secs transitions, p.leaseDurationSeconds.decodeI32 = some secs ∧
      p.leaseTransitions.decodeI32 = some transitions ∧
      spec'.holderIdentity = p.holderIdentity.merge (holderOf spec) ∧
      spec'.renewTime =
        p.renewTime.merge (spec.bind LeaseSpec.renewTime) ∧
      spec'.leaseDurationSeconds =
        secs.merge (spec.bind LeaseSpec.leaseDurationSeconds) ∧
      spec'.leaseTransitions =
        transitions.merge (spec.bind LeaseSpec.leaseTransitions) := by
  unfold LeasePatch.applyTo at h
  dsimp only at h
  split at h
  · rename_i secs transitions hsecs htransitions
    obtain rfl := Option.some.inj h
    refine ⟨secs, transitions, hsecs, htransitions, ?_⟩
    cases spec with
    | none => exact ⟨rfl, rfl, rfl, rfl⟩
    | some old => exact ⟨rfl, rfl, rfl, rfl⟩
  · cases h

/-! ## The API server -/

/-- The server's copy of the resource, with its `resourceVersion`. -/
abbrev Server := Register String (Option LeaseSpec)

/-- The resource as a response shows it. -/
def leaseOf (server : Server) : LeaseResource :=
  ⟨some server.version, server.value⟩

end Lease
end Kubert
