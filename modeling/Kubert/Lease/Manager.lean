import Kubert.Lease.Resource

/-!
# `LeaseManager`: the code between two awaits

Each asynchronous method of `LeaseManager` is cut at its awaits and clock
readings into pure functions of the cached `State`, one clock reading and, where
an await has just ended, the response:

* `get` decodes a response into a `State`;
* `ensureClaimedHead` is the top of the loop of `ensure_claimed`;
* `acquire` and `renew` build the write, `ClaimWrite.finish` is what both do
  with the response;
* `vacate` is everything `vacate` does before its patch.

`Execution` puts the pieces together again.  An arithmetic panic is a `Fault`
of its own, since it ends the call and releases the lock like an error does.
-/

namespace Kubert
namespace Lease

/-! ## Data -/

/-- `lease::Claim`. -/
structure Claim where
  holder : String
  expiry : DateTime
deriving DecidableEq, Repr

/-- `lease::ClaimParams`. -/
structure ClaimParams where
  leaseDuration : Duration
  renewGracePeriod : Duration
deriving DecidableEq, Repr

/-- `impl Default for ClaimParams`. -/
instance : Inhabited ClaimParams :=
  ⟨⟨Duration.fromSecs 30, Duration.fromSecs 1⟩⟩

/-- `lease::Meta`. -/
structure Meta where
  version : String
  transitions : UInt16
deriving DecidableEq, Repr

/-- `lease::State`, what the manager caches behind its lock. -/
structure State where
  «meta» : Meta
  claim : Option Claim
deriving DecidableEq, Repr

/-- The part of `diagnostics::lease::LeaseState` that changes over time.  `updates` is a
`u64` and is exact for fewer than 2^64 inspections (`LeaseDiagnostics.updates_inspect_le`). -/
structure LeaseDiagnostics where
  current : Option Claim
  resourceVersion : Option String
  updates : Nat
  lastUpdateTimestamp : Option DateTime
deriving DecidableEq, Repr

/-- `lease::LeaseManager`: the locked state and the optional diagnostics. -/
structure LeaseManager where
  state : State
  diagnostics : Option LeaseDiagnostics
deriving DecidableEq, Repr

/-- How a call can end early: with an error, or by a panic. -/
inductive Fault
  | error (e : Error)
  | panic
deriving DecidableEq, Repr

/-! ## Claims -/

namespace Claim

/-- `Claim::is_current` at a clock reading. -/
def isCurrent (claim : Claim) (now : DateTime) : Bool := now < claim.expiry

/-- `Claim::is_current_for` at a clock reading. -/
def isCurrentFor (claim : Claim) (claimant : String) (now : DateTime) : Bool :=
  claim.holder == claimant && claim.isCurrent now

@[simp] theorem isCurrent_iff (claim : Claim) (now : DateTime) :
    claim.isCurrent now = true ↔ now.nanos < claim.expiry.nanos := by
  simp [isCurrent, DateTime.lt_def]

@[simp] theorem isCurrent_eq_false_iff (claim : Claim) (now : DateTime) :
    claim.isCurrent now = false ↔ claim.expiry.nanos ≤ now.nanos := by
  simp [isCurrent, DateTime.lt_def]

theorem isCurrentFor_iff (claim : Claim) (claimant : String) (now : DateTime) :
    claim.isCurrentFor claimant now = true ↔
      claim.holder = claimant ∧ now.nanos < claim.expiry.nanos := by
  simp [isCurrentFor]

end Claim

namespace ClaimParams

/-- The lease duration in chrono's type: `from_std(..).unwrap_or(MAX)`. -/
def leaseDelta (params : ClaimParams) : TimeDelta :=
  (TimeDelta.fromStd params.leaseDuration).getD TimeDelta.max

/-- The grace period in chrono's type:
`from_std(..).unwrap_or_else(|_| zero())`. -/
def graceDelta (params : ClaimParams) : TimeDelta :=
  (TimeDelta.fromStd params.renewGracePeriod).getD TimeDelta.zero

theorem leaseDelta_nonneg (params : ClaimParams) :
    0 ≤ params.leaseDelta.nanos := by
  unfold leaseDelta
  cases h : TimeDelta.fromStd params.leaseDuration with
  | none => decide
  | some delta =>
      rw [Option.getD_some, TimeDelta.fromStd_nanos h]
      omega

theorem numSeconds_nonneg (params : ClaimParams) : 0 ≤ params.leaseDelta.numSeconds := by
  have hnonneg := params.leaseDelta_nonneg
  unfold TimeDelta.numSeconds nanosPerSec
  rw [Int.tdiv_eq_ediv_of_nonneg hnonneg]
  omega

/-- The published seconds never exceed the local duration. -/
theorem numSeconds_le_leaseDelta (params : ClaimParams) :
    params.leaseDelta.numSeconds * 1000000000 ≤ params.leaseDelta.nanos := by
  have hnonneg := params.leaseDelta_nonneg
  unfold TimeDelta.numSeconds nanosPerSec
  rw [Int.tdiv_eq_ediv_of_nonneg hnonneg]
  omega

/-- What fits an `int32` of seconds is published but for the sub-second part. -/
theorem numSeconds_add_subsecNanos {params : ClaimParams}
    (hfits : params.leaseDelta.numSeconds < 2147483648) :
    params.leaseDelta.numSeconds * 1000000000 + params.leaseDuration.subsecNanos =
        params.leaseDelta.nanos ∧
      params.leaseDelta.nanos = params.leaseDuration.toNanos := by
  unfold leaseDelta at hfits ⊢
  cases h : TimeDelta.fromStd params.leaseDuration with
  | none =>
      -- `MAX` is far more than an `int32` of seconds.
      rw [h, Option.getD_none] at hfits
      exact absurd hfits (by decide)
  | some delta =>
      have hnanos := TimeDelta.fromStd_nanos h
      rw [Option.getD_some]
      refine ⟨?_, hnanos⟩
      have hsecs : params.leaseDuration.toNanos =
          params.leaseDuration.secs.toNat * 1000000000 +
            params.leaseDuration.subsecNanos := by
        simp [Duration.toNanos, nanosPerSec]
      have hsubsec := params.leaseDuration.subsecNanos_lt
      unfold TimeDelta.numSeconds nanosPerSec
      rw [hnanos, Int.tdiv_eq_ediv_of_nonneg (by omega), hsecs]
      omega

/-- A whole number of seconds that fits an `int32` is published without loss. -/
theorem numSeconds_eq_leaseDelta {params : ClaimParams}
    (hwhole : params.leaseDuration.WholeSeconds)
    (hfits : params.leaseDelta.numSeconds < 2147483648) :
    params.leaseDelta.numSeconds * 1000000000 = params.leaseDelta.nanos ∧
      params.leaseDelta.nanos = params.leaseDuration.toNanos := by
  obtain ⟨hsecs, hnanos⟩ := numSeconds_add_subsecNanos hfits
  unfold Duration.WholeSeconds at hwhole
  refine ⟨?_, hnanos⟩
  omega

/-- The grace period never grows in the conversion. -/
theorem graceDelta_le (params : ClaimParams) :
    params.graceDelta.nanos ≤ params.renewGracePeriod.toNanos := by
  unfold graceDelta
  cases h : TimeDelta.fromStd params.renewGracePeriod with
  | none =>
      change (0 : Int) ≤ _
      omega
  | some delta =>
      rw [Option.getD_some, TimeDelta.fromStd_nanos h]

end ClaimParams

/-! ## Reading the resource -/

/-- `i32 → u16` by `try_into().unwrap_or(0)`. -/
def transitionsFromI32 (n : Int32) : UInt16 :=
  if 0 ≤ n.toInt ∧ n.toInt < 65536 then UInt16.ofNat n.toInt.toNat else 0

/-- `LeaseManager::get` on the response of the API, at the clock reading that
follows it. -/
def get (now : DateTime) (response : Except Error LeaseResource) : Except Fault State :=
  match response with
  | .error e => .error (.error e)
  | .ok lease =>
      match lease.spec with
      | none => .error (.error .missingSpec)
      | some spec =>
          match lease.resourceVersion with
          | none => .error (.error .missingResourceVersion)
          | some version =>
              let «meta» : Meta :=
                ⟨version, transitionsFromI32 (spec.leaseTransitions.getD 0)⟩
              match spec.holderIdentity, spec.renewTime,
                  spec.leaseDurationSeconds with
              -- A claim needs all three fields; anything less is no claim.
              | some holder, some renewTime, some secs =>
                  -- The addition of `chrono` panics out of its range.
                  match renewTime.checkedAdd (TimeDelta.seconds secs) with
                  | none => .error .panic
                  | some expiry =>
                      -- A claim that is over is not cached.
                      if expiry ≤ now then .ok ⟨«meta», none⟩
                      else .ok ⟨«meta», some ⟨holder, expiry⟩⟩
              | _, _, _ => .ok ⟨«meta», none⟩

/-! ## Writing the resource -/

/-- Whether arithmetic overflow panics (`debug`) or wraps (`release`). -/
inductive Profile
  | debug
  | release
deriving DecidableEq, Repr

/-- `n + 1` on a `u16`. -/
def Profile.succ : Profile → UInt16 → Option UInt16
  | .debug, n => if n = 65535 then none else some (n + 1)
  | .release, n => some (n + 1)

/-- Which of the two methods writes a claim. -/
inductive ClaimKind
  | acquire
  | renew
deriving DecidableEq, Repr

/-- The local variables of `acquire` and `renew` across their await.
`transitions` is the value that the resulting `Meta` gets. -/
structure ClaimWrite where
  kind : ClaimKind
  version : String
  claimant : String
  leaseDuration : TimeDelta
  now : DateTime
  transitions : UInt16
deriving DecidableEq, Repr

/-- `LeaseManager::acquire` up to its await; `none` is the overflow panic. -/
def acquire (profile : Profile) («meta» : Meta) (claimant : String)
    (params : ClaimParams) (now : DateTime) : Option ClaimWrite :=
  (profile.succ «meta».transitions).map fun transitions =>
    { kind := .acquire
      version := «meta».version
      claimant := claimant
      leaseDuration := params.leaseDelta
      now := now
      transitions := transitions }

/-- `LeaseManager::renew` up to its await. -/
def renew («meta» : Meta) (claimant : String) (params : ClaimParams)
    (now : DateTime) : ClaimWrite where
  kind := .renew
  version := «meta».version
  claimant := claimant
  leaseDuration := params.leaseDelta
  now := now
  transitions := «meta».transitions

namespace ClaimWrite

/-- The JSON that is sent: `acquire` names every field, `renew` only the renew
time and the duration. -/
def patch (w : ClaimWrite) : LeasePatch :=
  match w.kind with
  | .acquire =>
      { kind := .apply
        resourceVersion := w.version
        acquireTime := .value w.now.toMicroTime
        renewTime := .value w.now.toMicroTime
        holderIdentity := .value w.claimant
        leaseDurationSeconds := .value w.leaseDuration.numSeconds
        leaseTransitions := .value w.transitions.toNat }
  | .renew =>
      { kind := .strategic
        resourceVersion := w.version
        acquireTime := .absent
        renewTime := .value w.now.toMicroTime
        holderIdentity := .absent
        leaseDurationSeconds := .value w.leaseDuration.numSeconds
        leaseTransitions := .absent }

/-- What `acquire` and `renew` do once the patch has been answered. -/
def finish (w : ClaimWrite) (lease : LeaseResource) : Except Fault (Claim × Meta) :=
  match w.now.checkedAdd w.leaseDuration with
  | none => .error .panic
  | some expiry =>
      match lease.resourceVersion with
      | none => .error (.error .missingResourceVersion)
      | some version => .ok (⟨w.claimant, expiry⟩, ⟨version, w.transitions⟩)

end ClaimWrite

/-- The patch of `LeaseManager::vacate`: everything but the transitions is
nulled out. -/
def vacatePatch (version : String) : LeasePatch where
  kind := .strategic
  resourceVersion := version
  acquireTime := .null
  renewTime := .null
  holderIdentity := .null
  leaseDurationSeconds := .null
  leaseTransitions := .absent

/-- The patches a manager can send, with the call that sends them. -/
inductive PatchCall
  | claim (w : ClaimWrite)
  | vacate (version claimant : String)
deriving DecidableEq, Repr

namespace PatchCall

/-- The version a patch is made against. -/
def version : PatchCall → String
  | claim w => w.version
  | vacate version _ => version

/-- The claimant on whose behalf a patch is sent. -/
def claimant : PatchCall → String
  | claim w => w.claimant
  | vacate _ claimant => claimant

/-- The body of the request. -/
def patch : PatchCall → LeasePatch
  | claim w => w.patch
  | vacate version _ => vacatePatch version

/-- Is this the patch of `acquire`? -/
def isAcquire : PatchCall → Bool
  | claim w => w.kind == .acquire
  | vacate _ _ => false

end PatchCall

/-! ## What an applied patch leaves on the server -/

/-- An applied `acquire` names its claimant and the incremented transitions. -/
theorem ClaimWrite.applyTo_acquire {w : ClaimWrite} {spec : Option LeaseSpec}
    {spec' : LeaseSpec} (hkind : w.kind = .acquire)
    (h : w.patch.applyTo spec = some spec') :
    holderOf (some spec') = some w.claimant ∧
      transitionsOf (some spec') = w.transitions.toNat := by
  unfold ClaimWrite.patch at h
  rw [hkind] at h
  obtain ⟨secs, transitions, -, htransitions, hholder, -, -, hfield⟩ :=
    LeasePatch.applyTo_eq_some h
  obtain ⟨k, rfl, hk, -⟩ := FieldPatch.decodeI32_value htransitions
  constructor
  · exact hholder
  · rw [← hk]
    unfold transitionsOf
    rw [Option.bind_some, hfield]
    rfl

/-- An applied `renew` leaves the holder and the transitions as they are. -/
theorem ClaimWrite.applyTo_renew {w : ClaimWrite} {spec : Option LeaseSpec}
    {spec' : LeaseSpec} (hkind : w.kind = .renew)
    (h : w.patch.applyTo spec = some spec') :
    holderOf (some spec') = holderOf spec ∧
      spec'.leaseTransitions = spec.bind LeaseSpec.leaseTransitions := by
  unfold ClaimWrite.patch at h
  rw [hkind] at h
  obtain ⟨secs, transitions, -, htransitions, hholder, -, -, hfield⟩ :=
    LeasePatch.applyTo_eq_some h
  obtain rfl := Option.some.inj htransitions
  exact ⟨hholder, hfield⟩

/-- Both writes set the renew time and the duration. -/
theorem ClaimWrite.patch_renewal (w : ClaimWrite) :
    w.patch.renewTime = .value w.now.toMicroTime ∧
      w.patch.leaseDurationSeconds = .value w.leaseDuration.numSeconds := by
  unfold ClaimWrite.patch
  cases w.kind with
  | acquire => exact ⟨rfl, rfl⟩
  | renew => exact ⟨rfl, rfl⟩

/-- Both writes record the expiry `renewTime + leaseDurationSeconds` computed
from the truncated clock reading and the whole seconds, which fit an `int32`. -/
theorem ClaimWrite.applyTo_expiry {w : ClaimWrite} {spec : Option LeaseSpec}
    {spec' : LeaseSpec} (h : w.patch.applyTo spec = some spec') :
    expiryOf (some spec') = some (w.now.toMicroTime.nanos +
        w.leaseDuration.numSeconds * 1000000000) ∧
      w.leaseDuration.numSeconds < 2147483648 := by
  obtain ⟨hrenewTime, hduration⟩ := w.patch_renewal
  obtain ⟨secs, transitions, hsecs, -, -, hrenew, hfield, -⟩ :=
    LeasePatch.applyTo_eq_some h
  rw [hduration] at hsecs
  obtain ⟨k, rfl, hk, hfits⟩ := FieldPatch.decodeI32_value hsecs
  rw [hrenewTime] at hrenew
  refine ⟨?_, hfits⟩
  rw [← hk]
  simp only [expiryOf, hrenew, hfield, FieldPatch.merge]

/-- An applied vacate leaves no holder and no expiry, and the transitions as
they are. -/
theorem applyTo_vacate {version : String} {spec : Option LeaseSpec}
    {spec' : LeaseSpec} (h : (vacatePatch version).applyTo spec = some spec') :
    holderOf (some spec') = none ∧ expiryOf (some spec') = none ∧
      spec'.leaseTransitions = spec.bind LeaseSpec.leaseTransitions := by
  obtain ⟨secs, transitions, -, htransitions, hholder, hrenew, -, hfield⟩ :=
    LeasePatch.applyTo_eq_some h
  obtain rfl := Option.some.inj htransitions
  refine ⟨hholder, ?_, hfield⟩
  simp only [expiryOf, hrenew, vacatePatch, FieldPatch.merge]

/-! ## What `get` decodes -/

/-- A successful `get` is a decoded resource: the version and the transitions
are those of the resource, and a cached claim has exactly the recorded holder
and expiry and is not over yet. -/
theorem get_ok {now : DateTime} {lease : LeaseResource} {state : State}
    (h : get now (.ok lease) = .ok state) :
    lease.resourceVersion = some state.meta.version ∧
      state.meta.transitions = transitionsFromI32
        ((lease.spec.bind LeaseSpec.leaseTransitions).getD 0) ∧
      (∀ claim, state.claim = some claim →
        holderOf lease.spec = some claim.holder ∧
          expiryOf lease.spec = some claim.expiry.nanos ∧
          now.nanos < claim.expiry.nanos) ∧
      (state.claim = none → ∀ holder expiry,
        holderOf lease.spec = some holder → expiryOf lease.spec = some expiry →
          expiry ≤ now.nanos) := by
  unfold get at h
  dsimp only at h
  split at h
  · cases h
  · rename_i spec hspec
    split at h
    · cases h
    · rename_i version hversion
      rw [hspec, hversion]
      split at h
      · rename_i holder renewTime secs hholder hrenew hsecs
        split at h
        · cases h
        · rename_i expiry hadd
          have hnanos := DateTime.checkedAdd_nanos hadd
          rw [TimeDelta.seconds_nanos] at hnanos
          have hexpiry : expiryOf (some spec) = some expiry.nanos := by
            simp [expiryOf, hrenew, hsecs, hnanos]
          split at h
          · rename_i hle
            have hle' := (DateTime.le_def expiry now).mp hle
            obtain rfl := Except.ok.inj h
            refine ⟨rfl, rfl, ?_, ?_⟩
            · intro claim hclaim
              cases hclaim
            · intro _ holder' expiry' _ hexpiry'
              rw [hexpiry] at hexpiry'
              obtain rfl := Option.some.inj hexpiry'
              exact hle'
          · rename_i hlt
            have hlt' : now.nanos < expiry.nanos :=
              not_le.mp (mt (DateTime.le_def expiry now).mpr hlt)
            obtain rfl := Except.ok.inj h
            refine ⟨rfl, rfl, ?_, ?_⟩
            · intro claim hclaim
              obtain rfl := Option.some.inj hclaim
              exact ⟨hholder, hexpiry, hlt'⟩
            · intro hnone
              cases hnone
      · rename_i hmissing
        obtain rfl := Except.ok.inj h
        refine ⟨rfl, rfl, ?_, ?_⟩
        · intro claim hclaim
          cases hclaim
        · intro _ holder expiry hholder hexpiry
          -- A missing holder, renew time or duration leaves nothing to expire.
          cases hrenew : spec.renewTime with
          | none => simp [expiryOf, hrenew] at hexpiry
          | some renewTime =>
              cases hsecs : spec.leaseDurationSeconds with
              | none => simp [expiryOf, hrenew, hsecs] at hexpiry
              | some secs => exact (hmissing _ _ _ hholder hrenew hsecs).elim

/-- What `acquire` and `renew` return once the write has been answered. -/
theorem ClaimWrite.finish_ok {w : ClaimWrite} {lease : LeaseResource}
    {claim : Claim} {newMeta : Meta}
    (h : w.finish lease = .ok (claim, newMeta)) :
    lease.resourceVersion = some newMeta.version ∧
      newMeta.transitions = w.transitions ∧ claim.holder = w.claimant ∧
      claim.expiry.nanos = w.now.nanos + w.leaseDuration.nanos := by
  unfold ClaimWrite.finish at h
  split at h
  · cases h
  · rename_i expiry hadd
    split at h
    · cases h
    · rename_i version hversion
      obtain ⟨rfl, rfl⟩ := Prod.mk.inj (Except.ok.inj h)
      exact ⟨hversion, rfl, rfl, DateTime.checkedAdd_nanos hadd⟩

/-! ## The loop head of `ensure_claimed` and the checks of `vacate` -/

/-- What `ensure_claimed` does next, seen from the top of its loop. -/
inductive Head
  | return (claim : Claim)
  | renew
  | acquire
  | panic
deriving DecidableEq, Repr

/-- The top of the loop of `LeaseManager::ensure_claimed`, at one clock
reading. -/
def ensureClaimedHead (now : DateTime) (state : State) (claimant : String)
    (params : ClaimParams) : Head :=
  match state.claim with
  | some claim =>
      if claim.holder = claimant then
        match claim.expiry.checkedSub params.graceDelta with
        | none => .panic
        -- An own claim is left alone until its grace period begins.
        | some renewAt => if now < renewAt then .return claim else .renew
      -- A claim of somebody else is respected until it is over.
      else if claim.isCurrent now then .return claim
      else .acquire
  | none => .acquire

/-- The branch of the loop that leads to a write of this kind. -/
def ClaimKind.head : ClaimKind → Head
  | .acquire => .acquire
  | .renew => .renew

section Head

variable {state : State} {claimant : String} {params : ClaimParams} {claim : Claim}

/-- `ensure_claimed` goes for a lease without a cached claim. -/
theorem ensureClaimedHead_of_none (hclaim : state.claim = none) (now : DateTime) :
    ensureClaimedHead now state claimant params = .acquire := by
  simp only [ensureClaimedHead, hclaim]

/-- `ensure_claimed` respects a claim of somebody else until its expiry. -/
theorem ensureClaimedHead_of_other (hclaim : state.claim = some claim)
    (hholder : claim.holder ≠ claimant) (now : DateTime) :
    ensureClaimedHead now state claimant params =
      if now.nanos < claim.expiry.nanos then .return claim else .acquire := by
  simp only [ensureClaimedHead, hclaim, if_neg hholder, Claim.isCurrent_iff]

/-- `ensure_claimed` leaves an own claim alone until the grace period begins. -/
theorem ensureClaimedHead_of_own (hclaim : state.claim = some claim)
    (hholder : claim.holder = claimant) {renewAt : DateTime}
    (hrenewAt : claim.expiry.checkedSub params.graceDelta = some renewAt) (now : DateTime) :
    ensureClaimedHead now state claimant params =
      if now.nanos < renewAt.nanos then .return claim else .renew := by
  simp only [ensureClaimedHead, hclaim, if_pos hholder, hrenewAt, DateTime.lt_def]

/-- `ensure_claimed` panics on a grace period that begins before all dates. -/
theorem ensureClaimedHead_of_overflow (hclaim : state.claim = some claim)
    (hholder : claim.holder = claimant)
    (hnone : claim.expiry.checkedSub params.graceDelta = none) (now : DateTime) :
    ensureClaimedHead now state claimant params = .panic := by
  simp only [ensureClaimedHead, hclaim, if_pos hholder, hnone]

/-- An own claim is never acquired. -/
theorem ensureClaimedHead_ne_acquire (hclaim : state.claim = some claim)
    (hholder : claim.holder = claimant) (now : DateTime) :
    ensureClaimedHead now state claimant params ≠ .acquire := by
  cases hsub : claim.expiry.checkedSub params.graceDelta with
  | none => simp [ensureClaimedHead_of_overflow hclaim hholder hsub]
  | some renewAt =>
      rw [ensureClaimedHead_of_own hclaim hholder hsub]
      split <;> simp

/-- The loop goes on to `acquire` unless the cached claim is the claimant's own
or still current. -/
theorem ensureClaimedHead_eq_acquire_iff {now : DateTime} :
    ensureClaimedHead now state claimant params = .acquire ↔
      ∀ claim, state.claim = some claim →
        claim.holder ≠ claimant ∧ claim.expiry.nanos ≤ now.nanos := by
  cases hclaim : state.claim with
  | none => simp [ensureClaimedHead_of_none hclaim]
  | some claim =>
      by_cases hholder : claim.holder = claimant
      · simp [ensureClaimedHead_ne_acquire hclaim hholder, hholder]
      · rw [ensureClaimedHead_of_other hclaim hholder]
        by_cases hlt : now.nanos < claim.expiry.nanos
        · simp [hlt]
        · simp [hlt, hholder, not_lt.mp hlt]

/-- The loop goes on to `renew` exactly when the claimant holds the cached claim
and the grace period before its expiry has begun. -/
theorem ensureClaimedHead_eq_renew_iff {now : DateTime} :
    ensureClaimedHead now state claimant params = .renew ↔
      ∃ claim renewAt, state.claim = some claim ∧ claim.holder = claimant ∧
        claim.expiry.checkedSub params.graceDelta = some renewAt ∧
        renewAt.nanos ≤ now.nanos := by
  cases hclaim : state.claim with
  | none => simp [ensureClaimedHead_of_none hclaim]
  | some claim =>
      by_cases hholder : claim.holder = claimant
      · cases hsub : claim.expiry.checkedSub params.graceDelta with
        | none => simp [ensureClaimedHead_of_overflow hclaim hholder hsub, hsub]
        | some renewAt =>
            rw [ensureClaimedHead_of_own hclaim hholder hsub]
            by_cases hlt : now.nanos < renewAt.nanos
            · simp [hsub, hlt]
            · simp [hsub, hholder, hlt, not_lt.mp hlt]
      · rw [ensureClaimedHead_of_other hclaim hholder]
        by_cases hlt : now.nanos < claim.expiry.nanos
        · simp [hlt, hholder]
        · simp [hlt, hholder]

/-- The loop panics only on an own claim. -/
theorem ensureClaimedHead_eq_panic_iff {now : DateTime} :
    ensureClaimedHead now state claimant params = .panic ↔
      ∃ claim, state.claim = some claim ∧ claim.holder = claimant ∧
        claim.expiry.checkedSub params.graceDelta = none := by
  cases hclaim : state.claim with
  | none => simp [ensureClaimedHead_of_none hclaim]
  | some claim =>
      by_cases hholder : claim.holder = claimant
      · cases hsub : claim.expiry.checkedSub params.graceDelta with
        | none => simp [ensureClaimedHead_of_overflow hclaim hholder hsub, hholder, hsub]
        | some renewAt =>
            rw [ensureClaimedHead_of_own hclaim hholder hsub]
            by_cases hlt : now.nanos < renewAt.nanos
            · simp [hsub, hlt]
            · simp [hsub, hlt]
      · rw [ensureClaimedHead_of_other hclaim hholder]
        by_cases hlt : now.nanos < claim.expiry.nanos
        · simp [hlt, hholder]
        · simp [hlt, hholder]

/-- The claim that the loop returns without writing is the cached one. -/
theorem claim_of_ensureClaimedHead_return {now : DateTime}
    (h : ensureClaimedHead now state claimant params = .return claim) :
    state.claim = some claim := by
  unfold ensureClaimedHead at h
  split at h
  · rename_i cached hcached
    rw [hcached]
    split at h
    · split at h
      · cases h
      · split at h
        · rw [Head.return.inj h]
        · cases h
    · split at h
      · rw [Head.return.inj h]
      · cases h
  · cases h

/-- Once a write is due it stays due while the cached state does not change. -/
theorem ensureClaimedHead_mono {now later : DateTime} {kind : ClaimKind}
    (hle : now ≤ later)
    (h : ensureClaimedHead now state claimant params = kind.head) :
    ensureClaimedHead later state claimant params = kind.head := by
  have hle' := (DateTime.le_def now later).mp hle
  cases kind with
  | acquire =>
      have hexpired := ensureClaimedHead_eq_acquire_iff.mp h
      refine ensureClaimedHead_eq_acquire_iff.mpr fun claim hclaim => ?_
      obtain ⟨hholder, hnanos⟩ := hexpired claim hclaim
      exact ⟨hholder, by omega⟩
  | renew =>
      obtain ⟨claim, renewAt, hclaim, hholder, hsub, hdue⟩ :=
        ensureClaimedHead_eq_renew_iff.mp h
      exact ensureClaimedHead_eq_renew_iff.mpr
        ⟨claim, renewAt, hclaim, hholder, hsub, by omega⟩

end Head

/-- `LeaseManager::vacate` up to its await: the cached state it leaves behind,
and the patch it sends unless it already returned `Ok(false)`. -/
def vacate (now : DateTime) (state : State) (claimant : String) :
    State × Option PatchCall :=
  match state.claim with
  | none => (state, none)
  | some claim =>
      -- `take` has emptied the cache; only another holder's claim is put back.
      if claim.isCurrent now = false then (⟨state.meta, none⟩, none)
      else if claim.holder ≠ claimant then (state, none)
      else (⟨state.meta, none⟩, some (.vacate state.meta.version claimant))

/-! ## Diagnostics -/

namespace LeaseDiagnostics

/-- `LeaseDiagnostics::inspect`. -/
def inspect (d : LeaseDiagnostics) (now : DateTime) (claim : Option Claim)
    (resourceVersion : String) : LeaseDiagnostics :=
  if d.current = claim ∧ some resourceVersion = d.resourceVersion then d
  else
    { current := claim
      resourceVersion := some resourceVersion
      updates := d.updates + 1
      lastUpdateTimestamp := some now }

/-- An inspection is counted once at most. -/
theorem updates_inspect_le (d : LeaseDiagnostics) (now : DateTime) (claim : Option Claim)
    (resourceVersion : String) :
    (d.inspect now claim resourceVersion).updates ≤ d.updates + 1 := by
  unfold inspect
  split
  · exact Nat.le_succ _
  · exact Nat.le_refl _

end LeaseDiagnostics

namespace LeaseManager

/-- `diagnostics.inspect(..)` where diagnostics are configured. -/
def inspect (m : LeaseManager) (now : DateTime) (claim : Option Claim)
    (resourceVersion : String) : LeaseManager :=
  { m with diagnostics := m.diagnostics.map (·.inspect now claim resourceVersion) }

/-- `*state = ..` followed by the inspection of the new state. -/
def update (m : LeaseManager) (now : DateTime) (state : State) : LeaseManager :=
  { m with state := state }.inspect now state.claim state.meta.version

/-- `LeaseManager::claimed`. -/
def claimed (m : LeaseManager) : Option Claim := m.state.claim

end LeaseManager

end Lease
end Kubert
