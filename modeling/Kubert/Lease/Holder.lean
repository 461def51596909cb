import Kubert.Lease.Knowledge

/-!
# A cached claim names the recorded holder

`renew` and `vacate` send patches that do not restate the holder.  They rely on
the cached version alone: the patch is applied only if the resource is still at
that version, and at that version the cached claim names the holder that the
resource records.

The assertion `holding` says this, together with the fact that the recorded
expiry is never later than the cached one (the whole seconds and microseconds
that are published can only cut the local expiry short).  It holds for any
claimants and any parameters on any call.
-/

namespace Kubert
namespace Lease

open Foundation

variable {ι : Type}

/-- The resource records this holder, and an expiry no later than this. -/
def HeldUntil (holder : String) (expiry : Int) (spec : Option LeaseSpec) : Prop :=
  holderOf spec = some holder ∧ ∀ e, expiryOf spec = some e → e ≤ expiry

/-- A cached claim names the recorded holder and outlasts the recorded expiry;
a blind patch relies on the holder being its claimant. -/
def holding (ι : Type) : Assertion ι where
  cached := fun _ _ state spec =>
    ∀ claim, state.claim = some claim →
      HeldUntil claim.holder claim.expiry.nanos spec
  sent := fun _ call spec =>
    match call with
    | .claim write =>
        (∃ params : ClaimParams, write.leaseDuration = params.leaseDelta) ∧
          (write.kind = .renew → holderOf spec = some write.claimant)
    | .vacate _ claimant => holderOf spec = some claimant
  wrote := fun call spec =>
    match call with
    | .claim write =>
        HeldUntil write.claimant (write.now.nanos + write.leaseDuration.nanos) spec
    | .vacate _ _ => holderOf spec = none

/-- Every call is allowed. -/
def anyCall : ι → Op → Prop := fun _ _ => True

/-- The expiry that a write publishes is not later than the one it returns. -/
theorem published_le_local {write : ClaimWrite} {params : ClaimParams}
    (hparams : write.leaseDuration = params.leaseDelta) :
    write.now.toMicroTime.nanos + write.leaseDuration.numSeconds * 1000000000 ≤
      write.now.nanos + write.leaseDuration.nanos := by
  have hmicro := write.now.toMicroTime_le
  have hsecs := params.numSeconds_le_leaseDelta
  rw [hparams]
  omega

/-- The assertion is established by every read and write of the code, whatever
claimants and parameters the callers pass. -/
theorem holding_sound (profile : Profile) (allowed : ι → Op → Prop) :
    (holding ι).Sound profile allowed where
  cached_mono := fun _ h => h
  sent_mono := fun _ h => h
  read := by
    intro i now lease state hget claim hclaim
    obtain ⟨-, -, hread, -⟩ := get_ok hget
    obtain ⟨hholder, hexpiry, -⟩ := hread claim hclaim
    refine ⟨hholder, fun e he => ?_⟩
    rw [hexpiry] at he
    obtain rfl := Option.some.inj he
    exact le_refl _
  drop := by
    intro i now state claim claimant spec _ _ _ _ c hc
    cases hc
  acquire := by
    intro i now state claimant params write spec _ _ hwrite _
    obtain ⟨transitions, -, rfl⟩ := Option.map_eq_some_iff.mp hwrite
    exact ⟨⟨params, rfl⟩, fun hkind => nomatch hkind⟩
  -- A renewal is sent for a cached claim, and cached claims are recorded ones.
  renew := by
    intro i now state claimant params spec _ hhead hcached
    obtain ⟨claim, renewAt, hclaim, hholder, -, -⟩ :=
      ensureClaimedHead_eq_renew_iff.mp hhead
    refine ⟨⟨params, rfl⟩, fun _ => ?_⟩
    have hheld := (hcached claim hclaim).1
    rwa [hholder] at hheld
  vacate := by
    intro i now state claim claimant spec _ hclaim _ hholder hcached
    have hheld := (hcached claim hclaim).1
    rwa [hholder] at hheld
  apply := by
    intro now call spec spec' hsent happly
    cases call with
    | claim write =>
        obtain ⟨⟨params, hparams⟩, hrenew⟩ := hsent
        obtain ⟨hexpiry, -⟩ := ClaimWrite.applyTo_expiry happly
        constructor
        · cases hkind : write.kind with
          | acquire => exact (ClaimWrite.applyTo_acquire hkind happly).1
          | renew =>
              rw [(ClaimWrite.applyTo_renew hkind happly).1]
              exact hrenew hkind
        · intro e he
          rw [hexpiry] at he
          obtain rfl := Option.some.inj he
          exact published_le_local hparams
    | vacate version claimant => exact (applyTo_vacate happly).1
  finish := by
    intro i now write lease claim newMeta spec hfinish hwrote c hc
    obtain rfl := Option.some.inj hc
    obtain ⟨-, -, hholder, hexpiry⟩ := ClaimWrite.finish_ok hfinish
    rw [hholder, hexpiry]
    exact hwrote

variable [DecidableEq ι]

/-- A run of the managers, without any restriction on the calls. -/
theorem run_anyCall {profile : Profile} {s t : Sys ι}
    {actions : List (Action ι)} (hrun : Run (Sys.Step profile) s actions t) :
    Run (Sys.StepWith profile anyCall) s actions t := by
  refine hrun.restrict fun a _ => ?_
  cases a <;> trivial

/-- In every state of every run of any managers, used with any claimants and any
parameters: when a patch that `renew` or `vacate` sent for some claimant is
applied, that claimant is the holder that the resource records. -/
theorem blind_patch_applied_to_own_claim (profile : Profile) {now : DateTime}
    {version : String} {spec : Option LeaseSpec} {actions : List (Action ι)}
    {s t : Sys ι} {req : Request ι} {call : PatchCall} {next : String}
    (hrun : Run (Sys.Step profile) (Sys.initial now version spec) actions s)
    (hbody : req.body = .patch call) (hblind : call.isAcquire = false)
    (happlied : Sys.Step profile s (.apply req next) t) :
    holderOf s.server.value = some call.claimant := by
  have hknows : Knowledge (holding ι) anyCall s :=
    Knowledge.run (holding_sound profile anyCall) (run_anyCall hrun)
  obtain ⟨ret, hcases⟩ := happlied.cases
  cases hcases with
  | node hfeeds _ => cases hfeeds
  | apply hmem hbody' hversion hnew happly =>
      rw [hbody] at hbody'
      obtain rfl := Body.patch.inj hbody'
      have hsent := (hknows.sent req hmem call hbody).elim hversion
      -- The version of the patch is current, so what justified it still holds.
      cases call with
      | claim write =>
          refine hsent.2 ?_
          cases hkind : write.kind with
          | acquire => simp [PatchCall.isAcquire, hkind] at hblind
          | renew => rfl
      | vacate version claimant => exact hsent

/-- Alice claims the lease and vacates it; her patch finds her as the holder. -/
theorem alice_vacate_applied_to_own_claim :
    ∃ s t : Sys Bool,
      Run (Sys.Step .release) exampleStart
        (aliceClaims ++ [.call false (.vacate "alice")]) s ∧
      Sys.Step .release s
        (.apply ⟨6, false, .patch (.vacate "2" "alice")⟩ "3") t ∧
      holderOf s.server.value = some "alice" := by
  obtain ⟨s, t, hs, hstep, -⟩ := exists_execAll_step
    (show (execAll (Sys.step? .release) exampleStart
      ((aliceClaims ++ [.call false (.vacate "alice")]) ++
        [.apply ⟨6, false, .patch (.vacate "2" "alice")⟩ "3"])).isSome = true by
      decide +kernel)
  have hrun : Run (Sys.Step .release) exampleStart _ s :=
    run_of_execAll (fun _ _ _ h => h) hs
  have hholder : holderOf s.server.value =
      some (PatchCall.vacate "2" "alice").claimant :=
    blind_patch_applied_to_own_claim .release hrun rfl rfl hstep
  exact ⟨s, t, hrun, hstep, hholder⟩

end Lease
end Kubert
