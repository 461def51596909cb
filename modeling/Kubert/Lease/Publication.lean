import Kubert.Lease.Holder

/-!
# The claim that is kept and the claim that is published

`acquire` and `renew` compute the expiry twice.  The claim that they return is over at
`now + lease_duration`, in nanoseconds.  The resource gets `now` in microseconds and
the whole seconds of the duration, and whoever reads it adds these two.

What is cut off on the way to the server makes the published claim the shorter one.
So the writer relies on its claim only as long as everybody else respects it exactly
if nothing is cut off (`written_claim_published_iff`); in between, a reader takes the lease
for free.
-/

namespace Kubert
namespace Lease

open Foundation

/-- Whoever reads the resource while the claim is current finds the same holder, with
an expiry that is not earlier. -/
def Publishes (lease : LeaseResource) (claim : Claim) : Prop :=
  ∀ t : DateTime, t < claim.expiry → ∃ state published,
    get t (.ok lease) = .ok state ∧ state.claim = some published ∧
      published.holder = claim.holder ∧ claim.expiry ≤ published.expiry

/-- Somebody reads the resource while the claim is current and finds no claim. -/
def FreeTooEarly (lease : LeaseResource) (claim : Claim) : Prop :=
  ∃ t state, t < claim.expiry ∧ get t (.ok lease) = .ok state ∧ state.claim = none

/-- What `get` makes of a complete resource. -/
theorem get_of_expiryOf (version : String) {spec : LeaseSpec} {holder : String}
    {expiry : DateTime} (hholder : holderOf (some spec) = some holder)
    (hexpiry : expiryOf (some spec) = some expiry.nanos) (t : DateTime) :
    ∃ state, get t (.ok ⟨some version, some spec⟩) = .ok state ∧
      state.claim = if expiry ≤ t then none else some ⟨holder, expiry⟩ := by
  have hspec : spec.holderIdentity = some holder := hholder
  unfold expiryOf at hexpiry
  dsimp only at hexpiry
  split at hexpiry
  · rename_i renewTime secs hrenew hsecs
    have hadd : renewTime.checkedAdd (TimeDelta.seconds secs) = some expiry := by
      apply DateTime.checkedAdd_eq_some
      rw [TimeDelta.seconds_nanos]
      exact (Option.some.inj hexpiry).symm
    unfold get
    simp only [hspec, hrenew, hsecs, hadd]
    split
    · exact ⟨_, rfl, rfl⟩
    · exact ⟨_, rfl, rfl⟩
  · cases hexpiry

/-- A resource that records this holder and expiry publishes a claim of the same holder
exactly if the claim is not over later; if it is, there is a time at which the
resource already shows no claim. -/
theorem publishes_iff_of_expiryOf (version : String) {spec : LeaseSpec} {claim : Claim}
    {expiry : DateTime} (hholder : holderOf (some spec) = some claim.holder)
    (hexpiry : expiryOf (some spec) = some expiry.nanos) :
    (Publishes ⟨some version, some spec⟩ claim ↔ claim.expiry ≤ expiry) ∧
      (expiry < claim.expiry → FreeTooEarly ⟨some version, some spec⟩ claim) := by
  have hread := get_of_expiryOf version hholder hexpiry
  have hfree : expiry < claim.expiry → FreeTooEarly ⟨some version, some spec⟩ claim := by
    intro hearly
    obtain ⟨state, hget, hclaim⟩ := hread expiry
    rw [if_pos (DateTime.le_refl expiry)] at hclaim
    exact ⟨expiry, state, hearly, hget, hclaim⟩
  refine ⟨⟨?_, ?_⟩, hfree⟩
  · intro hpublishes
    by_contra hearly
    rw [DateTime.le_def, not_le] at hearly
    obtain ⟨t, state, ht, hget, hnone⟩ := hfree hearly
    obtain ⟨state', published, hget', hclaim, -⟩ := hpublishes t ht
    rw [hget] at hget'
    obtain rfl := Except.ok.inj hget'
    rw [hnone] at hclaim
    cases hclaim
  · intro hle t ht
    obtain ⟨state, hget, hclaim⟩ := hread t
    have hcurrent : ¬ expiry ≤ t := by
      rw [DateTime.le_def] at hle ⊢
      rw [DateTime.lt_def] at ht
      omega
    rw [if_neg hcurrent] at hclaim
    exact ⟨state, _, hget, hclaim, rfl, hle⟩

/-- The expiry that a write publishes is as late as the one it returns exactly if the
clock reading has no part below a microsecond and the duration no part below a
second. -/
theorem local_le_published_iff {write : ClaimWrite} {params : ClaimParams}
    (hparams : write.leaseDuration = params.leaseDelta)
    (hfits : write.leaseDuration.numSeconds < 2147483648) :
    write.now.nanos + write.leaseDuration.nanos ≤
        write.now.toMicroTime.nanos + write.leaseDuration.numSeconds * 1000000000 ↔
      write.now.Micros ∧ params.leaseDuration.WholeSeconds := by
  rw [hparams] at hfits ⊢
  obtain ⟨hsecs, -⟩ := ClaimParams.numSeconds_add_subsecNanos hfits
  have hmod := Int.emod_nonneg write.now.nanos (show (1000 : Int) ≠ 0 by decide)
  have hmicro : write.now.toMicroTime.nanos = write.now.nanos - write.now.nanos % 1000 := rfl
  unfold DateTime.Micros Duration.WholeSeconds
  omega

/-- The write that is awaited was made with the parameters of the call. -/
def Node.WriteOk (node : Node) : Prop :=
  ∀ id write params, node.pc = .claiming id write params →
    write.leaseDuration = params.leaseDelta

theorem Node.step_writeOk {profile : Profile} {node : Node} {now : DateTime} {id : Nat}
    {input : Input} {effect : Effect}
    (hstep : node.step profile now id input = some effect) : effect.node.WriteOk := by
  intro awaited write params hpc
  cases step_moves hstep with
  | renewSent =>
      obtain ⟨-, rfl, rfl⟩ := Pc.claiming.inj hpc
      rfl
  | acquireSent _ _ hwrite =>
      obtain ⟨transitions, -, rfl⟩ := Option.map_eq_some_iff.mp hwrite
      obtain ⟨-, rfl, rfl⟩ := Pc.claiming.inj hpc
      rfl
  | @due _ _ _ kind => cases kind <;> cases hpc
  | _ => cases hpc

variable {ι : Type} [DecidableEq ι]

/-- In every run, for a call of `ensure_claimed` whose `acquire` or `renew` is applied
and returns a claim: the resource that it wrote publishes this claim exactly if the
clock reading has no part below a microsecond and the lease duration no part below a
second.  If either has one, the resource shows no claim while the returned one is
still current. -/
theorem written_claim_published_iff (profile : Profile) {now : DateTime}
    {version : String} {spec : Option LeaseSpec} {actions : List (Action ι)} {s t : Sys ι}
    {i : ι} {id : Nat} {write : ClaimWrite} {params : ClaimParams} {next : String}
    {claim : Claim} {newMeta : Meta}
    (hrun : Run (Sys.Step profile) (Sys.initial now version spec) actions s)
    (hpc : (s.nodes i).pc = .claiming id write params)
    (happlied : Sys.Step profile s (.apply ⟨id, i, .patch (.claim write)⟩ next) t)
    (hreturned : write.finish (leaseOf t.server) = .ok (claim, newMeta)) :
    (Publishes (leaseOf t.server) claim ↔
        write.now.Micros ∧ params.leaseDuration.WholeSeconds) ∧
      (¬ (write.now.Micros ∧ params.leaseDuration.WholeSeconds) →
        FreeTooEarly (leaseOf t.server) claim) := by
  have hknows : Knowledge (holding ι) anyCall s :=
    Knowledge.run (holding_sound profile anyCall) (run_anyCall hrun)
  obtain ⟨ret, hcases⟩ := happlied.cases
  cases hcases with
  | node hfeeds _ => cases hfeeds
  | @apply _ _ call spec' hmem hbody hversion hnew happly =>
      obtain rfl := Body.patch.inj hbody
      obtain ⟨-, hrenew⟩ := (hknows.sent _ hmem _ rfl).elim hversion
      obtain ⟨hexpiry, hfits⟩ := ClaimWrite.applyTo_expiry happly
      obtain ⟨-, -, hclaimant, hlocal⟩ := ClaimWrite.finish_ok hreturned
      have hparams : write.leaseDuration = params.leaseDelta :=
        Sys.nodes_of_run Node.WriteOk (fun _ hstep => Node.step_writeOk hstep) hrun
          (fun _ _ _ _ hpc => nomatch hpc) i id write params hpc
      have hholder : holderOf (some spec') = some claim.holder := by
        rw [hclaimant]
        cases hkind : write.kind with
        | acquire => exact (ClaimWrite.applyTo_acquire hkind happly).1
        | renew =>
            rw [(ClaimWrite.applyTo_renew hkind happly).1]
            exact hrenew hkind
      have hiff := local_le_published_iff hparams hfits
      have hbelow := published_le_local hparams
      -- The published expiry lies between two instants, so it is one.
      obtain ⟨expiry, hnanos⟩ : ∃ expiry : DateTime, expiry.nanos =
          write.now.toMicroTime.nanos + write.leaseDuration.numSeconds * 1000000000 := by
        have hlower := write.now.toMicroTime.lower
        have hupper := claim.expiry.upper
        have hnonneg := params.numSeconds_nonneg
        rw [← hparams] at hnonneg
        exact ⟨⟨_, by omega, by omega⟩, rfl⟩
      rw [← hnanos] at hexpiry hiff hbelow
      rw [← hlocal] at hiff hbelow
      obtain ⟨hpublishes, hfree⟩ := publishes_iff_of_expiryOf next hholder hexpiry
      refine ⟨hpublishes.trans hiff, ?_⟩
      intro hcut
      exact hfree (not_le.mp (mt hiff.mp hcut))

/-- Alice's manager is initialised and sends its write. -/
def aliceSends (params : ClaimParams) : List (Action Bool) :=
  [.call false .init, .serve ⟨0, false, .get⟩,
    .deliver false (.ok ⟨some "1", some {}⟩),
    .call false (.ensureClaimed "alice" params), .resume false, .resume false]

/-- With the default parameters and a clock that reads microseconds, alice's claim is
published as it is returned. -/
theorem default_claim_published :
    ∃ s t : Sys Bool, Run (Sys.Step .release) exampleStart (aliceSends default) s ∧
      Sys.Step .release s (.apply ⟨4, false, .patch (.claim aliceAcquire)⟩ "2") t ∧
      Publishes (leaseOf t.server)
        ⟨"alice", ⟨1700000030000000000, by decide, by decide⟩⟩ := by
  obtain ⟨s, t, hs, hstep, ht⟩ := exists_execAll_step
    (show (execAll (Sys.step? .release) exampleStart (aliceSends default ++
      [.apply ⟨4, false, .patch (.claim aliceAcquire)⟩ "2"])).isSome = true by
        decide +kernel)
  have hrun : Run (Sys.Step .release) exampleStart _ s :=
    run_of_execAll (fun _ _ _ h => h) hs
  have hpc : (s.nodes false).pc = .claiming 4 aliceAcquire default :=
    eq_of_execAll_map (fun s : Sys Bool => (s.nodes false).pc) hs (by decide +kernel)
  have hlease : leaseOf t.server = ⟨some "2", some aliceLease⟩ :=
    eq_of_execAll_map (fun s : Sys Bool => leaseOf s.server) ht (by decide +kernel)
  have hreturned : aliceAcquire.finish (leaseOf t.server) =
      .ok (⟨"alice", ⟨1700000030000000000, by decide, by decide⟩⟩, ⟨"2", 1⟩) := by
    rw [hlease]
    rfl
  refine ⟨s, t, hrun, hstep, ?_⟩
  have hmicros : aliceAcquire.now.Micros := by
    unfold DateTime.Micros
    decide
  exact (written_claim_published_iff .release hrun hpc hstep hreturned).1.mpr
    ⟨hmicros, rfl⟩

/-- A lease duration of one and a half seconds. -/
def halfSecondParams : ClaimParams := ⟨⟨1, 500000000, by decide⟩, Duration.zero⟩

/-- Alice's write with these parameters. -/
def halfSecondAcquire : ClaimWrite :=
  ⟨.acquire, "1", "alice", halfSecondParams.leaseDelta, exampleNow, 1⟩

/-- Alice's claim is current for one and a half seconds, and after one second the
resource that she wrote shows no claim. -/
theorem half_second_claim_free_too_early :
    ∃ s t : Sys Bool, Run (Sys.Step .release) exampleStart (aliceSends halfSecondParams) s ∧
      (s.nodes false).pc = .claiming 4 halfSecondAcquire halfSecondParams ∧
      Sys.Step .release s (.apply ⟨4, false, .patch (.claim halfSecondAcquire)⟩ "2") t ∧
      halfSecondAcquire.finish (leaseOf t.server) =
        .ok (⟨"alice", ⟨1700000001500000000, by decide, by decide⟩⟩, ⟨"2", 1⟩) ∧
      get ⟨1700000001000000000, by decide, by decide⟩ (.ok (leaseOf t.server)) =
        .ok ⟨⟨"2", 1⟩, none⟩ ∧
      ¬ Publishes (leaseOf t.server)
        ⟨"alice", ⟨1700000001500000000, by decide, by decide⟩⟩ := by
  obtain ⟨s, t, hs, hstep, ht⟩ := exists_execAll_step
    (show (execAll (Sys.step? .release) exampleStart (aliceSends halfSecondParams ++
      [.apply ⟨4, false, .patch (.claim halfSecondAcquire)⟩ "2"])).isSome = true by
        decide +kernel)
  have hlease : leaseOf t.server = ⟨some "2", some ⟨some "alice", some exampleNow,
      some exampleNow, some 1, some 1⟩⟩ :=
    eq_of_execAll_map (fun s : Sys Bool => leaseOf s.server) ht (by decide +kernel)
  refine ⟨s, t, run_of_execAll (fun _ _ _ h => h) hs,
    eq_of_execAll_map (fun s : Sys Bool => (s.nodes false).pc) hs (by decide +kernel),
    hstep, ?_, ?_, ?_⟩
  · rw [hlease]
    rfl
  · rw [hlease]
    rfl
  · intro hpublishes
    obtain ⟨state, published, hget, hclaim, -⟩ :=
      hpublishes ⟨1700000001000000000, by decide, by decide⟩ (by decide)
    rw [hlease] at hget
    obtain rfl := Except.ok.inj hget
    cases hclaim

end Lease
end Kubert
